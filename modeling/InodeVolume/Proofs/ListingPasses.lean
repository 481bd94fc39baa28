import InodeVolume.Proofs.AbsolutePaths
import InodeVolume.Proofs.Denials
import InodeVolume.Proofs.ShownTrees
import InodeVolume.Proofs.SteadySlots

/-!
# Listing a directory while it changes

A handle of a directory lists the names one after the other, and between two of them names may be created and
removed (`Client.Pass`). A name that is there from the start and is not removed is listed exactly once, and
whatever is listed is linked when it is listed (`Client.listed_once_of_asked`).

What carries this is that entries stay in their slots (`Volume.create_steady`, `Volume.remove_steady`), while the
handle is always at the beginning of some slot: a name has been listed exactly if its slot has been passed.
-/

namespace InodeVolume

namespace Request

variable {K : Regime} {W : World} {T : Hierarchy} {handles : List Handle} {i j : Nat} {d : UInt32} {n : Node}
  {o : Opening}

/-- What the next name of a listing is that has come to slot `j`, and to which slot it comes. -/
def nextName (n : Node) (j : Nat) : Option String × Nat :=
  match n.search Node.lists j with
  | some k => (some (n.slot k).name, k + 1)
  | none => (none, max j n.slots)

theorem nextName_none (h : n.search Node.lists j = none) : nextName n j = (none, max j n.slots) := by
  rw [nextName, h]

theorem nextName_some {k : Nat} (h : n.search Node.lists j = some k) :
    nextName n j = (some (n.slot k).name, k + 1) := by
  rw [nextName, h]

/-- Reading on in a listing changes nothing but how far it has come. -/
theorem readNext_leads (hn : W.pool.nodes d = some n) (ho : W.opens d = some o)
    (hd : handles[i]? = some (.directory ⟨⟨d⟩, j * slotSize⟩)) :
    Leads (Mounts K) W ((Request.readNext i).act handles) fun res W' => W' = W ∧
      res = .ok (.name (nextName n j).1,
        handles.set i (.directory ⟨⟨d⟩, (nextName n j).2 * slotSize⟩)) := by
  show Leads (Mounts K) W (onDirectory handles i _) _
  unfold onDirectory
  rw [hd]
  refine Yields.bind (Directory.readNext_yields hn ho j) ?_
  cases hs : n.search Node.lists j with
  | none =>
    rw [nextName_none hs]
    exact Leads.pure ⟨rfl, rfl⟩
  | some k =>
    rw [nextName_some hs]
    exact Leads.pure ⟨rfl, rfl⟩

end Request

namespace Client

/-- A listing of directory `d` through the handle at place `i`, which `c` has opened: the `names` that were
listed, and what was `removed` in between. Names may be created and removed at any paths. -/
inductive Pass (i : Nat) (d : UInt32) (c : Client) : List String → (String → Prop) → Client → Prop
  | opened : Pass i d c [] (fun _ => False) c
  | next {names : List String} {removed : String → Prop} {c' : Client} (pass : Pass i d c names removed c')
    {name : String} (listed : (c'.ask (.readNext i)).1 = .ok (.name (some name))) :
    Pass i d c (names ++ [name]) removed (c'.ask (.readNext i)).2
  | create {names : List String} {removed : String → Prop} {c' : Client} (pass : Pass i d c names removed c')
    (path cwd : String) (size : Nat) (isDirectory : Bool)
    (permitted : c'.Permits (.call (.create path cwd size isDirectory))) :
    Pass i d c names removed (c'.ask (.call (.create path cwd size isDirectory))).2
  | remove {names : List String} {removed : String → Prop} {c' : Client} (pass : Pass i d c names removed c')
    (path cwd : String) (permitted : c'.Permits (.call (.remove path cwd))) :
    Pass i d c names (fun name => removed name ∨ (c'.pool.child d name ≠ none ∧
      (c'.ask (.call (.remove path cwd))).2.pool.child d name = none)) (c'.ask (.call (.remove path cwd))).2

/-- What is listed in a pass from `c` to `c'`. -/
structure ListsOnce (c : Client) (i : Nat) (d : UInt32) (names : List String) (removed : String → Prop)
    (c' : Client) : Prop where
  /-- There is a next name, or the listing is at its end. -/
  answers : ∃ name, (c'.ask (.readNext i)).1 = .ok (.name name)
  linked : ∀ name, (c'.ask (.readNext i)).1 = .ok (.name (some name)) →
    isDotName name = false ∧ ∃ x, c'.pool.child d name = some x
  once : (c'.ask (.readNext i)).1 = .ok (.name none) → ∀ name x, isDotName name = false →
    c.pool.child d name = some x → ¬removed name → names.count name = 1

/-- The handle at place `i` has come to slot `j` of directory `d`, which is `n`. -/
structure Reads (c : Client) (i : Nat) (d : UInt32) (j : Nat) (n : Node) : Prop where
  handle : c.handles[i]? = some (.directory ⟨⟨d⟩, j * slotSize⟩)
  node : c.pool.nodes d = some n
  isDirectory : n.record.isDirectory = true

section Reads

variable {K : Regime} {W : World} {T : Hierarchy} {c c' : Client} {i j : Nat} {d : UInt32} {n : Node}
  {names : List String} {removed : String → Prop} {name : String}

theorem Reads.child (h : c.Reads i d j n) : c.pool.child d = n.child :=
  Pool.child_of_node h.node h.isDirectory

/-- The directory that is read is in the world as on the device, and it is open. -/
theorem Abides.reads (ha : c.Abides K W T) (h : c.Reads i d j n) :
    W.pool.nodes d = some n ∧ ∃ o, W.opens d = some o := by
  obtain ⟨o, ho, -⟩ := ha.stands.good.tracks.opened_of_handle h.handle
  have ho : W.opens d = some o := ho
  exact ⟨by rw [← ha.stands.nodes_eq (ha.stands.mounts.live d (by simp [ho])), h.node], o, ho⟩

/-- While a directory has names but those of its own, no two slots have the same. -/
theorem Abides.tidy (ha : c.Abides K W T) (hf : ¬K.faulty) (h : c.Reads i d j n) {x : UInt32}
    (hdot : isDotName name = false) (hx : n.child name = some x) : n.Tidy := by
  obtain ⟨hn, -⟩ := ha.reads h
  have hO := ha.stands.good.ordered
  rcases hO.known hf d (by simp [hn]) with hl | hdoomed
  · exact hO.rooted.tidy d hl n hn h.isDirectory
  · -- A directory that has been removed has but `.` and `..` left.
    rw [← Pool.child_of_node hn h.isDirectory] at hx
    rcases ha.shorn d hdoomed name x hx with ⟨rfl, -⟩ | rfl
    · exact absurd hdot (by decide)
    · exact absurd hdot (by decide)

/-- Reading on. -/
theorem Reads.next (ha : c.Abides K W T) (h : c.Reads i d j n) :
    (c.ask (.readNext i)).1 = .ok (.name (Request.nextName n j).1) ∧
      (c.ask (.readNext i)).2.Reads i d (Request.nextName n j).2 n := by
  obtain ⟨hn, o, ho⟩ := ha.reads h
  obtain ⟨res, W', hv, ⟨rfl, rfl⟩, hanswer, hkept⟩ :=
    ask_comes ha.stands.mounts (Request.readNext_leads hn ho h.handle)
  refine ⟨hanswer, ?_, pool_node ha.stands.fits hv hn, h.isDirectory⟩
  rw [hkept]
  exact List.getElem?_set_self (List.getElem?_eq_some_iff.1 h.handle).1

/-- A call that leaves the handles as they are. What it does to the directory is `R`. -/
theorem Reads.call {q : Call} {x : VolumeM Unit} {R : Node → Node → Prop} {W' : World} {T' : Hierarchy}
    (ha : c.Abides K W T) (h : c.Reads i d j n) (ha' : (c.ask (.call q)).2.Abides K W' T')
    (hact : q.act c.handles = x >>= fun _ => pure (.done, c.handles))
    (hx : Leads (Mounts K) W x fun _ W' => ∃ n', W'.pool.nodes d = some n' ∧ R n n') :
    ∃ n', (c.ask (.call q)).2.Reads i d j n' ∧ R n n' := by
  have hcall : Leads (Mounts K) W (q.act c.handles) _ := hact ▸ Leads.mapBind hx
  obtain ⟨res, W₁, hv, ⟨r₁, ⟨r, ⟨n', hn', hR⟩, rfl⟩, rfl⟩, -, hkept⟩ :=
    ask_comes ha.stands.mounts (r := .call q) (Leads.mapBind hcall)
  have hhandles : (c.ask (.call q)).2.handles = c.handles := by
    rw [hkept]
    cases r <;> rfl
  have hhandle : (c.ask (.call q)).2.handles[i]? = some (.directory ⟨⟨d⟩, j * slotSize⟩) := by
    rw [hhandles, h.handle]
  -- The directory is still one, since its handle is still open.
  obtain ⟨k, hk, hdir⟩ := Pool.isDirectory_node (ha'.fitting _ (List.mem_of_getElem? hhandle))
  have hnode : (c.ask (.call q)).2.pool.nodes d = some n' := pool_node ha.stands.fits hv hn'
  have hsame : k = n' := Option.some_inj.1 ((ha'.stands.node hk).symm.trans hnode)
  exact ⟨n', ⟨hhandle, hnode, hsame ▸ hdir⟩, hR⟩

/-- Creating moves no entry of the directory that is read. -/
theorem Reads.create (ha : c.Abides K W T) (hf : ¬K.faulty) (h : c.Reads i d j n) {path cwd : String} {size : Nat}
    {isDirectory : Bool} (hr : c.Permits (.call (.create path cwd size isDirectory))) :
    ∃ n', (c.ask (.call (.create path cwd size isDirectory))).2.Reads i d j n' ∧ n.Keeps n' := by
  obtain ⟨-, W', T', -, -, -, -, ha'⟩ := ha.ask hf hr
  exact h.call ha ha' rfl (Leads.mono (Volume.create_steady ha.stands.fits hf ha.stands.good.ordered hr.1.1 hr.1.2
    size isDirectory) fun _ _ hkeeps => hkeeps d n (ha.reads h).1)

/-- Removing moves no entry of the directory that is read. -/
theorem Reads.remove (ha : c.Abides K W T) (hf : ¬K.faulty) (h : c.Reads i d j n) {path cwd : String}
    (hr : c.Permits (.call (.remove path cwd))) :
    ∃ n', (c.ask (.call (.remove path cwd))).2.Reads i d j n' ∧ n.KeepsLinked n' := by
  obtain ⟨-, W', T', -, -, -, -, ha'⟩ := ha.ask hf hr
  obtain ⟨hn, o, ho⟩ := ha.reads h
  exact h.call ha ha' rfl (Leads.mono (Volume.remove_steady ha.stands.fits hf ha.stands.good.ordered path cwd)
    fun _ _ hkeeps => hkeeps d n (by simp [ho]) hn)

/-- A name has been listed once, or not yet and then its slot is still to come. -/
def Listed (n : Node) (j : Nat) (names : List String) (name : String) : Prop :=
  ∃ k x, n.EntryAt k name x ∧ names.count name = if k < j then 1 else 0

/-- What the next name of a listing is. -/
theorem nextName_listed (h : (Request.nextName n j).1 = some name) :
    ∃ k x, j ≤ k ∧ n.EntryAt k name x ∧ isDotName name = false ∧ (Request.nextName n j).2 = k + 1 ∧
      ∀ i, j ≤ i → i < k → Node.lists (n.slot i) = false := by
  -- The slot that the search stops at is the next entry that is listed.
  cases hs : n.search Node.lists j with
  | none =>
    rw [Request.nextName_none hs] at h
    cases h
  | some k =>
    rw [Request.nextName_some hs] at h ⊢
    obtain ⟨hjk, hlt, hlists, hfirst⟩ := Node.search_some hs
    obtain ⟨he, hdot⟩ := Node.entry_of_lists hlt hlists
    have hname : (n.slot k).name = name := Option.some_inj.1 h
    rw [hname] at he hdot
    exact ⟨k, (n.slot k).number, hjk, he, hdot, rfl, hfirst⟩

/-- What is listed now has just been listed for the first time, or it is another name. -/
theorem Listed.next {new : String} (h : Listed n j names name) (hdot : isDotName name = false)
    (ht : n.Tidy) (hnew : (Request.nextName n j).1 = some new) :
    Listed n (Request.nextName n j).2 (names ++ [new]) name := by
  obtain ⟨k, x, he, hcount⟩ := h
  obtain ⟨k', x', hjk, he', -, hto, hfirst⟩ := nextName_listed hnew
  refine ⟨k, x, he, ?_⟩
  rw [hto, List.count_append, hcount, List.count_singleton]
  by_cases hname : new = name
  · subst hname
    obtain rfl : k = k' := ht.unique _ _ _ _ _ he he'
    rw [if_neg (Nat.not_lt.2 hjk), if_pos (beq_self_eq_true _), if_pos (Nat.lt_succ_self k)]
  · have hne : k ≠ k' := by
      rintro rfl
      exact hname (he'.name_eq.symm.trans he.name_eq)
    -- A slot that is passed over does not list a name.
    have hpassed : k < j ∨ k' < k := by
      by_contra hno
      have hlists := hfirst k (by omega) (by omega)
      rw [he.lists hdot] at hlists
      cases hlists
    rw [if_neg (fun hbeq => hname (beq_iff_eq.1 hbeq)), Nat.add_zero]
    have hiff : k < j ↔ k < k' + 1 := by omega
    simp only [hiff]

/-- At the end of the table every name has been listed. -/
theorem Listed.ended (h : Listed n j names name) (hdot : isDotName name = false)
    (hend : (Request.nextName n j).1 = none) : names.count name = 1 := by
  obtain ⟨k, x, he, hcount⟩ := h
  cases hs : n.search Node.lists j with
  | some k =>
    rw [Request.nextName_some hs] at hend
    cases hend
  | none =>
    -- No slot from here on is listed, so the entry lies behind.
    rw [hcount, if_pos]
    by_contra hle
    have hlists := Node.search_none hs (Nat.le_of_not_lt hle) he.lt
    rw [he.lists hdot] at hlists
    cases hlists

theorem Listed.linked (h : Listed n j names name) : ∃ x, n.child name = some x := by
  obtain ⟨k, x, he, -⟩ := h
  exact Option.ne_none_iff_exists'.1 fun hnone => Node.child_none_iff.1 hnone k x he

/-- In a pass the handle reads on in the directory, and each name that was there and has not been removed is
listed once or still to come. -/
theorem Pass.reads (hp : c.Pass i d names removed c') (hf : ¬K.faulty) (ha : c.Abides K W T)
    (hd : c.handles[i]? = some (.directory (directoryAt d))) :
    ∃ W' T' j n, c'.Abides K W' T' ∧ c'.Reads i d j n ∧ ∀ name x, isDotName name = false →
      c.pool.child d name = some x → ¬removed name → Listed n j names name := by
  induction hp with
  | opened =>
    obtain ⟨n, hn, hdir⟩ := Pool.isDirectory_node (ha.fitting _ (List.mem_of_getElem? hd))
    have hreads : c.Reads i d 0 n := ⟨by rw [hd, directoryAt, Nat.zero_mul], ha.stands.node hn, hdir⟩
    refine ⟨W, T, 0, n, ha, hreads, fun name x _ hx _ => ?_⟩
    rw [hreads.child] at hx
    obtain ⟨k, -, he⟩ := Node.child_some hx
    exact ⟨k, x, he, by rw [List.count_nil, if_neg (Nat.not_lt_zero k)]⟩
  | @next names removed c' _ new listed ih =>
    obtain ⟨W₁, T₁, j, n, ha₁, hreads, hlisted⟩ := ih
    obtain ⟨hanswer, hreads'⟩ := hreads.next ha₁
    have hnew : (Request.nextName n j).1 = some new :=
      Response.name.inj (Except.ok.inj (hanswer.symm.trans listed))
    obtain ⟨-, W', T', -, -, -, -, ha'⟩ := ha₁.ask hf (r := .readNext i) trivial
    refine ⟨W', T', _, n, ha', hreads', fun name x hdot hx hkept => ?_⟩
    have hl := hlisted name x hdot hx hkept
    obtain ⟨y, hy⟩ := hl.linked
    exact hl.next hdot (ha₁.tidy hf hreads hdot hy) hnew
  | create _ path cwd size isDirectory permitted ih =>
    obtain ⟨W₁, T₁, j, n, ha₁, hreads, hlisted⟩ := ih
    obtain ⟨n', hreads', hkeeps⟩ := hreads.create ha₁ hf permitted
    obtain ⟨-, W', T', -, -, -, -, ha'⟩ := ha₁.ask hf permitted
    refine ⟨W', T', j, n', ha', hreads', fun name x hdot hx hkept => ?_⟩
    obtain ⟨k, y, he, hcount⟩ := hlisted name x hdot hx hkept
    exact ⟨k, y, hkeeps k name y he, hcount⟩
  | remove _ path cwd permitted ih =>
    obtain ⟨W₁, T₁, j, n, ha₁, hreads, hlisted⟩ := ih
    obtain ⟨n', hreads', hkeeps⟩ := hreads.remove ha₁ hf permitted
    obtain ⟨-, W', T', -, -, -, -, ha'⟩ := ha₁.ask hf permitted
    refine ⟨W', T', j, n', ha', hreads', fun name x hdot hx hkept => ?_⟩
    have hl := hlisted name x hdot hx fun hr => hkept (.inl hr)
    obtain ⟨z, hz⟩ := hl.linked
    obtain ⟨k, y, he, hcount⟩ := hl
    -- The name is linked still, or this call has removed it.
    rcases hkeeps k name y he with he' | hgone
    · exact ⟨k, y, he', hcount⟩
    · exact absurd (.inr ⟨by rw [hreads.child, hz]; simp, by rw [hreads'.child, hgone]⟩) hkept

end Reads

/-- A listing through a handle that has just been opened lists each name once that is there all the time, and
only names that are linked. -/
theorem listed_once_of_asked {c c' : Client} (h : c.Asked) {i : Nat} {d : UInt32}
    (hd : c.handles[i]? = some (.directory (directoryAt d))) {names : List String} {removed : String → Prop}
    (hp : c.Pass i d names removed c') : c.ListsOnce i d names removed c' := by
  obtain ⟨K, W, T, hf, ha⟩ := h.abides
  -- The pass has come to slot `j`, and every name that was there all along is behind it once or still
  -- ahead.
  obtain ⟨W', T', j, n, ha', hreads, hlisted⟩ := hp.reads hf ha hd
  obtain ⟨hanswer, -⟩ := hreads.next ha'
  refine ⟨⟨_, hanswer⟩, fun name hname => ?_, fun hend name x hdot hx hkept => ?_⟩
  · have hnext : (Request.nextName n j).1 = some name :=
      Response.name.inj (Except.ok.inj (hanswer.symm.trans hname))
    obtain ⟨k, x, -, he, hdot, -⟩ := nextName_listed hnext
    rw [hreads.child]
    exact ⟨hdot, Option.ne_none_iff_exists'.1 fun hnone => Node.child_none_iff.1 hnone k x he⟩
  · have hnext : (Request.nextName n j).1 = none :=
      Response.name.inj (Except.ok.inj (hanswer.symm.trans hend))
    exact (hlisted name x hdot hx hkept).ended hdot hnext

/-- A listing of a root directory in which there is a file, through the second of two handles: after the first
name another one is created and removed again. -/
theorem listed_once_of_made : ∃ (c c' : Client) (name : String) (removed : String → Prop), c.Asked ∧
    c.handles[1]? = some (.directory (directoryAt rootInode)) ∧ (∃ x, c.pool.child rootInode "a" = some x) ∧
    c.Pass 1 rootInode [name] removed c' ∧ c.ListsOnce 1 rootInode [name] removed c' := by
  obtain ⟨_, c₁, W, _, T₁, x, r, m, hfirst, hc₁, hs₁, hhandles₁⟩ := exists_made (Nat.zero_le 600)
  obtain ⟨c, T, hopen, hhandles, hs⟩ := hs₁.does_openRoot
  have hc : c.Asked := hc₁.next hopen
  have hhandle : c.handles[1]? = some (.directory (directoryAt rootInode)) := by
    rw [hhandles, hhandles₁]
    rfl
  -- Opening the root has changed no name.
  have hchild : c.pool.child rootInode "a" = some x := by
    rw [hs.child_eq (by simp [hfirst.root]), World.opened_pool, World.opened_pool,
      Pool.child_of_node hfirst.root hfirst.rootKind]
    exact hfirst.child
  obtain ⟨K, W', T', hf, ha⟩ := hc.abides
  obtain ⟨W₀, T₀, j, n, ha₀, hreads, hlisted⟩ := Pass.reads .opened hf ha hhandle
  obtain ⟨hanswer, -⟩ := hreads.next ha₀
  cases hnext : (Request.nextName n j).1 with
  | none =>
    -- The listing cannot end before the name that is there has come.
    have hcount := (hlisted "a" x (by decide) hchild id).ended (by decide) hnext
    cases hcount
  | some name =>
    rw [hnext] at hanswer
    have hpass : Pass 1 rootInode c [name] _ _ :=
      ((Pass.opened.next hanswer).create "/b" "/" 0 false ⟨⟨by decide, by decide⟩, fun i hi => by cases hi⟩).remove
        "/b" "/" ⟨⟨by decide, by decide⟩, fun i hi => by cases hi⟩
    exact ⟨c, _, name, _, hc, hhandle, ⟨x, hchild⟩, hpass, listed_once_of_asked hc hhandle hpass⟩

end Client

end InodeVolume
