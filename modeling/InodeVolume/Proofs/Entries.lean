import InodeVolume.Proofs.Accounts
import InodeVolume.Proofs.Removed
import InodeVolume.Proofs.Requests

/-!
# Opening through a directory handle

A handle of a directory opens what a name in it stands for, also when the directory has been removed. What is
opened is in use: it has been so ever since its name was written (`Client.live_of_asked`). One name is left
out: `..` of a directory that has been removed. It stands for the directory that was above, and when that is
given up in its turn, its block is free or another inode's. So a client keeps to `Client.Permits`, which asks
that such a `..` is opened only while what it stands for is in use.
-/

namespace InodeVolume

/-- Handles of directories are of directories. -/
def World.Fitting (W : World) (handles : List Handle) : Prop :=
  ∀ d, Handle.directory d ∈ handles → W.pool.isDirectory d.inode.number = true

namespace World.Fitting

variable {W W' : World} {handles : List Handle} {x : Handle}

theorem concat (h : W.Fitting handles)
    (hx : ∀ d, x = .directory d → W.pool.isDirectory d.inode.number = true) :
    W.Fitting (handles ++ [x]) := by
  intro d hd
  rcases List.mem_append.1 hd with hd | hd
  · exact h d hd
  · exact hx d (List.mem_singleton.1 hd).symm

theorem set (h : W.Fitting handles) (i : Nat)
    (hx : ∀ d, x = .directory d → W.pool.isDirectory d.inode.number = true) :
    W.Fitting (handles.set i x) := fun d hd =>
  (List.mem_or_eq_of_mem_set hd).elim (h d) fun he => hx d he.symm

theorem erase (h : W.Fitting handles) (i : Nat) : W.Fitting (handles.eraseIdx i) := fun d hd =>
  h d (List.mem_of_mem_eraseIdx hd)

/-- Opening an inode and keeping its handle. -/
theorem arrives {α : Type} {a : α} {f : UInt32 → Handle} {r : Except Error UInt32}
    {res : Except Stop (α × List Handle)} (h : W.Fitting handles)
    (ha : W.Arrives (fun x => (a, handles ++ [f x])) r res W')
    (hf : ∀ x d, r = .ok x → f x = .directory d → W.pool.isDirectory d.inode.number = true) :
    W.Fitting (Request.kept handles res) := by
  cases r with
  | error e =>
    obtain ⟨rfl, -⟩ := ha
    exact h
  | ok x =>
    obtain ⟨rfl, -⟩ := ha
    exact h.concat fun d => hf x d rfl

end World.Fitting

/-! ## Listing -/

namespace Pool

variable {K : Regime} {P : Pool} {id : UInt32} {n : Node}

/-- A scan replies something, from wherever it begins, and changes nothing. -/
theorem exists_scanSlots_tells (hn : P.nodes id = some n) (p : Slot → Bool) (offset fuel : Nat) :
    ∃ v, Tells (Holds K) P (n.record.scanSlots p offset fuel) v := by
  -- By induction on the fuel. It does not matter here what the slots hold, only that each can be read.
  induction fuel generalizing offset with
  | zero => exact ⟨_, Tells.pure⟩
  | succ fuel ih =>
    have hslot : ∃ s, Tells (Holds K) P (n.record.slotAt offset) s := by
      unfold Record.slotAt
      by_cases hsize : (bytesFrom n.byte offset (min slotSize (n.size - offset))).size = slotSize
      · refine ⟨some (Slot.decode _ hsize), Tells.bind (read_node_tells hn _ _) ?_⟩
        rw [dif_pos hsize]
        exact Tells.pure
      · refine ⟨none, Tells.bind (read_node_tells hn _ _) ?_⟩
        rw [dif_neg hsize]
        exact Tells.pure
    obtain ⟨s, hs⟩ := hslot
    cases s with
    | none => exact ⟨_, Tells.bind hs Tells.pure⟩
    | some s =>
      by_cases hp : p s = true
      · refine ⟨(offset, some s), Tells.bind hs ?_⟩
        dsimp only
        rw [if_pos hp]
        exact Tells.pure
      · obtain ⟨v, hv⟩ := ih (offset + slotSize)
        refine ⟨v, Tells.bind hs ?_⟩
        dsimp only
        rw [if_neg hp]
        exact hv

end Pool

namespace Request

variable {K : Regime} {W W' : World} {T : Hierarchy} {handles : List Handle} {r : Request}
  {res : Except Stop (Response × List Handle)} {v : Volume}

/-! ## What requests come to -/

/-- What a request of a directory comes to, where `P` says what it comes to if there is one. -/
def OnDirectory (W : World) (handles : List Handle) (i : Nat)
    (P : Directory → Except Stop (Response × List Handle) → World → Prop)
    (res : Except Stop (Response × List Handle)) (W' : World) : Prop :=
  ((∀ d, handles[i]? ≠ some (.directory d)) ∧ res = .ok (.answer .absent, handles) ∧ W' = W) ∨
    ∃ d, handles[i]? = some (.directory d) ∧ P d res W'

/-- What a request comes to. -/
def Comes (K : Regime) (W : World) (T : Hierarchy) (handles : List Handle) :
    Request → Except Stop (Response × List Handle) → World → Prop
  | .call q, res, W' => ∃ r, q.Comes K W T handles r W' ∧ res = r.map fun p => (.answer p.1, p.2)
  | .lookup i name, res, W' => OnDirectory W handles i (fun d res W' =>
      res = .ok (.number (W.pool.child d.inode.number name), handles) ∧ W' = W) res W'
  | .openEntry i name, res, W' => OnDirectory W handles i (fun d res W' =>
      W.Arrives (fun x => (.answer .done, handles ++ [.inode ⟨x⟩]))
        ((W.pool.child d.inode.number name).elim (.error .notFound) .ok) res W') res W'
  | .readNext i, res, W' => OnDirectory W handles i (fun d res W' =>
      (∃ name position, res = .ok (.name name, handles.set i (.directory { d with position := position }))) ∧
        W' = W) res W'
  | .asDirectory i, res, W' =>
    ((∀ x, handles[i]? ≠ some (.inode x)) ∧ res = .ok (.answer .absent, handles) ∧ W' = W) ∨
      ∃ x, handles[i]? = some (.inode x) ∧
        ((W.pool.isDirectory x.number = true ∧
            res = .ok (.answer .done, handles.set i (.directory { inode := x })) ∧ W' = W) ∨
          (res = .ok (.refused .notADirectory, handles.eraseIdx i) ∧
            Call.Comes K W T handles (.close i) (.ok (.done, handles.eraseIdx i)) W'))

theorem onDirectory_leads {i : Nat} {f : Directory → VolumeM (Response × List Handle)}
    {P : Directory → Except Stop (Response × List Handle) → World → Prop} (hT : W.Tracks handles)
    (hfit : W.Fitting handles)
    (hf : ∀ d n o, handles[i]? = some (.directory d) → W.pool.nodes d.inode.number = some n →
      W.opens d.inode.number = some o → W.pool.child d.inode.number = n.child →
      Leads (Mounts K) W (f d) (P d)) :
    Leads (Mounts K) W (onDirectory handles i f) (OnDirectory W handles i P) := by
  unfold onDirectory
  split
  · rename_i d hd
    obtain ⟨o, ho, -⟩ := hT.opened_of_handle hd
    obtain ⟨n, hn, hdir⟩ := Pool.isDirectory_node (hfit d (List.mem_of_getElem? hd))
    exact Leads.mono (hf d n o hd hn ho (Pool.child_of_node hn hdir)) fun res W' h => .inr ⟨d, hd, h⟩
  · rename_i hnone
    exact Leads.pure (.inl ⟨hnone, rfl, rfl⟩)

/-- An inode handle becomes one of a directory, or it is closed as by a call. -/
theorem ofInode_ends (hK : K.Fits) (hO : W.Ordered K T) (hT : W.Tracks handles) {i : Nat} {x : Inode}
    (hx : handles[i]? = some (.inode x)) :
    Leads (Mounts K) W (Directory.ofInode x) fun res W' =>
      (res = .ok { inode := x } ∧ W.pool.isDirectory x.number = true ∧ W' = W) ∨
        (res = .error (.failed .notADirectory) ∧
          Call.Comes K W T handles (.close i) (.ok (.done, handles.eraseIdx i)) W') := by
  obtain ⟨o, ho, -⟩ := hT.opened_of_handle hx
  have ho : W.opens x.number = some o := ho
  refine Leads.of_shown fun v hv => ?_
  obtain ⟨n, hn⟩ := Option.ne_none_iff_exists'.1 (hv.live x.number (by simp [ho]))
  refine Yields.bind (Inode.isDirectory_yields hn ho) ?_
  -- What is no directory is closed, since taking it as one used up the handle.
  by_cases hdir : n.record.isDirectory = true
  · rw [if_pos hdir]
    exact Leads.pure (.inl ⟨rfl, (Pool.isDirectory_of_node hn).trans hdir, rfl⟩)
  · rw [if_neg hdir]
    refine Leads.bind (Call.closeHandle_leads hK hO hT hx hn ho) ?_ ?_
    · rintro u W' ⟨-, hclosed⟩
      exact Leads.fail (.inr ⟨rfl, .inr ⟨.inode x, n, o, hx, hn, ho, rfl, hclosed⟩⟩)
    · rintro e W' ⟨he, -⟩
      cases he

/-- Every request comes to what is said of it, if an entry that it opens is of a stored inode. -/
theorem act_leads (hK : K.Fits) (hO : W.Ordered K T) (hT : W.Tracks handles) (hfit : W.Fitting handles)
    (r : Request) (hclean : ∀ q, r = .call q → q.Clean)
    (hentry : ∀ i name d x, r = .openEntry i name → handles[i]? = some (.directory d) →
      W.pool.child d.inode.number name = some x → W.pool.nodes x ≠ none) :
    Leads (Mounts K) W (r.act handles) (r.Comes K W T handles) := by
  cases r with
  | call q => exact Leads.mapBind (Call.act_leads hK hO hT q (hclean q rfl))
  | lookup i name =>
    refine onDirectory_leads hT hfit fun d n o hd hn ho hchild => ?_
    refine Yields.bind (Directory.lookup_yields rfl hn ho name) (Leads.pure ⟨?_, rfl⟩)
    rw [hchild]
  | openEntry i name =>
    refine onDirectory_leads hT hfit fun d n o hd hn ho hchild => ?_
    -- An entry of a removed directory may be stale, which is why the hypothesis asks for a stored inode.
    have hstored (x : UInt32) (hx : n.child name = some x) : W.pool.nodes x ≠ none :=
      hentry i name d x rfl hd (hchild ▸ hx)
    refine Leads.bind (Directory.openEntry_leads hK rfl hn ho hstored) ?_ ?_
    · rintro j W' (⟨x, hx, hj, rfl⟩ | ⟨-, hj, -⟩)
      · cases hj
        refine Leads.pure ?_
        rw [hchild, hx]
        exact ⟨rfl, rfl⟩
      · cases hj
    · rintro e W' (⟨x, -, he, -⟩ | ⟨hx, he, rfl⟩)
      · cases he
      · cases he
        rw [hchild, hx]
        exact ⟨rfl, rfl⟩
  | readNext i =>
    refine onDirectory_leads hT hfit fun d n o hd hn ho hchild => ?_
    obtain ⟨⟨offset, slot⟩, hscan⟩ := Pool.exists_scanSlots_tells (K := K) hn
      (fun s => s.inUse && !isDotName s.name) d.position n.record.slotBound
    simp only [Directory.readNext, bind_assoc]
    refine Yields.bind (Directory.search_yields rfl hn ho hscan) ?_
    cases slot with
    | none => exact Leads.pure ⟨⟨none, offset, rfl⟩, rfl⟩
    | some s => exact Leads.pure ⟨⟨some s.name, offset + slotSize, rfl⟩, rfl⟩
  | asDirectory i =>
    show Leads (Mounts K) W (onInode handles i _) _
    unfold onInode
    split
    · rename_i x hx
      -- A directory keeps its opener and only the kind of the handle changes. A file is closed and its
      -- handle goes.
      refine Leads.attemptVolumeBind (ofInode_ends hK hO hT hx) ?_ ?_ ?_
      · rintro u W' (⟨rfl, -⟩ | ⟨rfl, -⟩)
        · exact sober_ok
        · exact sober_failed
      · rintro d W' (⟨hd, hdir, rfl⟩ | ⟨hd, -⟩)
        · cases hd
          exact Leads.pure (.inr ⟨x, hx, .inl ⟨hdir, rfl, rfl⟩⟩)
        · cases hd
      · rintro e W' (⟨he, -⟩ | ⟨he, hclosed⟩)
        · cases he
        · cases he
          exact Leads.pure (.inr ⟨x, hx, .inr ⟨rfl, hclosed⟩⟩)
    · rename_i hnone
      exact Leads.pure (.inl ⟨hnone, rfl, rfl⟩)

end Request

/-! ## What every request leaves -/

namespace Call

variable {K : Regime} {W W' : World} {T : Hierarchy} {handles : List Handle} {q : Call}
  {res : Except Stop (Answer × List Handle)}

theorem kept_request (res : Except Stop (Answer × List Handle)) :
    Request.kept handles res = kept handles res := by
  cases res <;> rfl

/-- Handles of directories that are open after a call are of what was a directory before it. -/
theorem Comes.directories (hO : W.Ordered K T) (hfit : W.Fitting handles)
    (hc : q.Comes K W T handles res W') : W.Fitting (kept handles res) := by
  cases q with
  | create path cwd size isDirectory | remove path cwd =>
    obtain ⟨r, -, rfl⟩ := hc
    rwa [kept_map]
  | changeDirectory path cwd =>
    obtain ⟨rfl, -⟩ := hc
    rwa [kept_map]
  | openInode path cwd =>
    rw [← kept_request]
    exact hfit.arrives hc nofun
  | openDirectory path cwd =>
    rw [← kept_request]
    -- What all components of a path lead to is a directory of the tree.
    refine hfit.arrives hc fun x d hx hd => ?_
    cases hd
    cases habs : Path.toAbsolute path cwd with
    | error e =>
      rw [habs] at hx
      cases hx
    | ok absolute =>
      rw [habs] at hx
      exact (hO.rooted.linked_resolve hO.rooted.root hO.rooted.rootDirectory hx).2
  | openFile path cwd mode =>
    obtain ⟨r, -, rfl⟩ := hc
    -- A handle is exchanged for one of the same inode, a new one is no directory yet, and others are kept.
    cases r with
    | error e => exact hfit
    | ok f => exact hfit.concat nofun
  | close i =>
    rcases hc with ⟨-, rfl, -⟩ | ⟨x, n, o, -, -, -, rfl, -⟩
    · exact hfit
    · exact hfit.erase i
  | reopen i =>
    rcases hc with ⟨-, rfl, -⟩ | ⟨x, n, o, hx, -, -, rfl, -⟩
    · exact hfit
    · refine hfit.concat fun d hd => ?_
      cases x with
      | inode i => cases hd
      | directory d' =>
        cases hd
        exact hfit d' (List.mem_of_getElem? hx)
      | file f => cases hd
  | readAt i offset count =>
    rcases hc with ⟨-, rfl, -⟩ | ⟨x, n, o, -, -, -, rfl, -⟩ <;> exact hfit
  | writeAt i offset data | grow i target | clear i =>
    rcases hc with ⟨-, rfl, -⟩ | ⟨x, n, o, -, -, -, r, -, rfl⟩
    · exact hfit
    · rwa [kept_map]
  | write i data =>
    rcases hc with ⟨-, rfl, -⟩ | ⟨x, n, o, -, -, -, ⟨f, -, r, -, rfl⟩ | ⟨-, rfl, -⟩⟩
    · exact hfit
    · cases r with
      | error e => exact hfit
      | ok k => exact hfit.set i nofun
    · exact hfit
  | read i count | seek i position | denyWrite i | allowWrite i =>
    rcases hc with ⟨-, rfl, -⟩ | ⟨x, n, o, -, -, -, ⟨f, -, rfl, -⟩ | ⟨-, rfl, -⟩⟩
    · exact hfit
    · exact hfit.set i nofun
    · exact hfit

end Call

namespace Request

variable {K : Regime} {W W' : World} {T : Hierarchy} {handles : List Handle} {r : Request}
  {res : Except Stop (Response × List Handle)}

theorem kept_call (res : Except Stop (Answer × List Handle)) :
    kept handles (res.map fun p => (Response.answer p.1, p.2)) = Call.kept handles res := by
  cases res <;> rfl

/-- Closing changes no contents. -/
theorem proper_close {i : Nat} (q : Call) (hq : q = .close i) : q.Proper W handles := by
  subst hq
  intro j x n hj
  cases hj

/-- Opening an inode and keeping its handle. -/
theorem good_arrives {a : Response} {p : Except Error UInt32} (h : Call.Good K W T handles)
    (ha : W.Arrives (fun x => (a, handles ++ [.inode ⟨x⟩])) p res W') :
    Call.Good K W' T (kept handles res) := by
  cases p with
  | error e =>
    obtain ⟨rfl, rfl⟩ := ha
    exact h
  | ok x =>
    obtain ⟨rfl, rfl⟩ := ha
    exact ⟨h.ordered.opened x, h.tracks.opened (.inode ⟨x⟩) rfl⟩

/-- Another handle of the same inode, as little denying as the one before. -/
theorem good_set {i : Nat} {x y : Handle} (h : Call.Good K W T handles) (hx : handles[i]? = some x)
    (hy : y.target = x.target) (hd : y.denies = x.denies) : Call.Good K W T (handles.set i y) := by
  obtain ⟨o, ho, -⟩ := h.tracks.opened_of_handle hx
  have hgood := h.replaced hx ho hy (show o.denials + _ = _ by rw [hd])
  rwa [World.setOpening_same ho] at hgood

/-- What a request comes to is a world in order, with the handles that are open in it. -/
theorem Comes.good (h : Call.Good K W T handles) (hproper : ∀ q, r = .call q → q.Proper W handles)
    (hc : r.Comes K W T handles res W') : ∃ T', Call.Good K W' T' (kept handles res) := by
  -- A call is the one for clients. Of the others, only opening and taking as a directory change the
  -- handles.
  cases r with
  | call q =>
    obtain ⟨r, hr, rfl⟩ := hc
    rw [kept_call]
    exact hr.good h (hproper q rfl)
  | lookup i name =>
    rcases hc with ⟨-, rfl, rfl⟩ | ⟨d, -, rfl, rfl⟩ <;> exact ⟨T, h⟩
  | openEntry i name =>
    rcases hc with ⟨-, rfl, rfl⟩ | ⟨d, -, ha⟩
    · exact ⟨T, h⟩
    · exact ⟨T, good_arrives h ha⟩
  | readNext i =>
    rcases hc with ⟨-, rfl, rfl⟩ | ⟨d, hd, ⟨name, position, rfl⟩, rfl⟩
    · exact ⟨T, h⟩
    · exact ⟨T, good_set h hd rfl rfl⟩
  | asDirectory i =>
    rcases hc with ⟨-, rfl, rfl⟩ | ⟨x, hx, ⟨-, rfl, rfl⟩ | ⟨rfl, hclosed⟩⟩
    · exact ⟨T, h⟩
    · exact ⟨T, good_set h hx rfl rfl⟩
    · exact hclosed.good h (proper_close _ rfl)

/-- What every request does to the names. -/
theorem Comes.moves (hf : ¬K.faulty) (hproper : ∀ q, r = .call q → q.Proper W handles)
    (hc : r.Comes K W T handles res W') : W.Moves K T W' := by
  have hrefl : W.Moves K T W := .quiet (.refl W)
  -- Reading a directory changes nothing on the disk, and opening only who has what open.
  cases r with
  | call q =>
    obtain ⟨r, hr, -⟩ := hc
    exact hr.moves hf (hproper q rfl)
  | lookup i name =>
    rcases hc with ⟨-, -, rfl⟩ | ⟨d, -, -, rfl⟩ <;> exact hrefl
  | openEntry i name =>
    rcases hc with ⟨-, -, rfl⟩ | ⟨d, -, ha⟩
    · exact hrefl
    · exact .quiet (Call.quiet_arrives ha)
  | readNext i =>
    rcases hc with ⟨-, -, rfl⟩ | ⟨d, -, -, rfl⟩ <;> exact hrefl
  | asDirectory i =>
    rcases hc with ⟨-, -, rfl⟩ | ⟨x, -, ⟨-, -, rfl⟩ | ⟨-, hclosed⟩⟩
    · exact hrefl
    · exact hrefl
    · exact hclosed.moves hf (proper_close _ rfl)

/-- Handles of directories that are open after a request are of what was a directory before it. -/
theorem Comes.directories (hO : W.Ordered K T) (hfit : W.Fitting handles)
    (hc : r.Comes K W T handles res W') : W.Fitting (kept handles res) := by
  cases r with
  | call q =>
    obtain ⟨r, hr, rfl⟩ := hc
    rw [kept_call]
    exact hr.directories hO hfit
  | lookup i name =>
    rcases hc with ⟨-, rfl, -⟩ | ⟨d, -, rfl, -⟩ <;> exact hfit
  | openEntry i name =>
    rcases hc with ⟨-, rfl, -⟩ | ⟨d, -, ha⟩
    · exact hfit
    · exact hfit.arrives ha nofun
  | readNext i =>
    rcases hc with ⟨-, rfl, -⟩ | ⟨d, hd, ⟨name, position, rfl⟩, -⟩
    · exact hfit
    · refine hfit.set i fun d' hd' => ?_
      cases hd'
      exact hfit d (List.mem_of_getElem? hd)
  | asDirectory i =>
    rcases hc with ⟨-, rfl, -⟩ | ⟨x, hx, ⟨hdir, rfl, -⟩ | ⟨rfl, -⟩⟩
    · exact hfit
    · refine hfit.set i fun d hd => ?_
      cases hd
      exact hdir
    · exact hfit.erase i

end Request

/-! ## Clients -/

namespace Client

/-- Inode `x` has been removed while it is open. -/
def Removed (c : Client) (x : UInt32) : Prop := ∃ e, c.volume.registry[x]? = some e ∧ e.removed = true

/-- The client may make this request: a call that it may make, and `..` of a directory is opened only while
what it stands for is in use. -/
def Permits (c : Client) : Request → Prop
  | .call q => c.Allows q
  | .openEntry i name => name = ".." → ∀ d x, c.handles[i]? = some (.directory d) →
      c.pool.child d.inode.number name = some x → c.Uses x
  | _ => True

/-- A run of requests that the client may make, from one client to another, with `P` all along. -/
inductive Asks (P : Client → Prop) : Client → Client → Prop
  | start {c : Client} (h : P c) : Asks P c c
  | ask {c c' : Client} (run : Asks P c c') (r : Request) (permitted : c'.Permits r) (h : P (c'.ask r).2) :
    Asks P c (c'.ask r).2

/-- A client that has come from a disk that was formatted for it, by requests that it may make. No access
fails. -/
def Asked (c : Client) : Prop := ∃ disk c₀, Starts False disk c₀ ∧ Asks (fun _ => True) c₀ c

theorem Starts.asked {disk : Disk} {c : Client} (h : Starts False disk c) : c.Asked := ⟨disk, c, h, .start trivial⟩

/-- A call that the client may make is a request that it may make. -/
theorem Asks.next {P : Client → Prop} {c c' c'' : Client} {q : Call} {a : Except Stop Answer} (h : Asks P c c')
    (hd : c'.Does q a c'') (hP : P c'') : Asks P c c'' := by
  have hsame : (c'.ask (.call q)).2 = c'' := by rw [ask_call, hd.step]
  have hasks := Asks.ask h (.call q) hd.allowed (hsame ▸ hP)
  rwa [hsame] at hasks

theorem Asked.next {c c' : Client} {q : Call} {a : Except Stop Answer} (h : c.Asked) (hd : c.Does q a c') :
    c'.Asked := by
  obtain ⟨disk, c₀, hs, hr⟩ := h
  exact ⟨disk, c₀, hs, hr.next hd trivial⟩

/-- A run of calls goes on from where requests have led. -/
theorem Asked.runs {c c' : Client} {l : List (Call × Except Stop Answer)} (h : c.Asked) (hr : Runs c l c') :
    c'.Asked := by
  induction hr with
  | nil c => exact h
  | cons q allowed rest ih => exact ih (h.next ⟨allowed, rfl⟩)

/-- What comes of opening `name` through the handle of directory `d` at place `i`. -/
structure OpensLive (c : Client) (i : Nat) (d : Directory) (name : String) : Prop where
  missing : c.pool.child d.inode.number name = none →
    (c.ask (.openEntry i name)).1 = .error (.failed .notFound)
  /-- Its inode is opened, and is the same before and after. -/
  opened : ∀ x, c.pool.child d.inode.number name = some x →
    (c.ask (.openEntry i name)).1 = .ok (.answer .done) ∧
      (c.ask (.openEntry i name)).2.handles = c.handles ++ [.inode ⟨x⟩] ∧
      ∃ n, c.pool.nodes x = some n ∧ (c.ask (.openEntry i name)).2.pool.nodes x = some n
  /-- It is in use, and its block is marked as used. -/
  live : ∀ x, c.pool.child d.inode.number name = some x → c.Uses x ∧
    SpaceMap.bit c.device x.toNat = true ∧ (c.ask (.openEntry i name)).2.Uses x ∧
    SpaceMap.bit (c.ask (.openEntry i name)).2.device x.toNat = true
  /-- It has been in use for as long as the name has stood for it. -/
  lasting : ∀ x c₁, c₁.Asked →
    Asks (fun c => c.Uses d.inode.number ∧ c.pool.child d.inode.number name = some x) c₁ c →
    Asks (·.Uses x) c₁ c

/-- A client that stands, whose removed directories have no names but their own, and whose handles of
directories are of directories. -/
structure Abides (K : Regime) (W : World) (T : Hierarchy) (c : Client) : Prop where
  stands : c.Stands K W T
  shorn : W.Shorn
  fitting : W.Fitting c.handles

section Abides

variable {K : Regime} {W : World} {T : Hierarchy} {c c' : Client} {P : Client → Prop} {d x : UInt32}
  {name : String} {r : Request}

theorem Stands.removed_iff (h : c.Stands K W T) : c.Removed x ↔ W.Doomed x := by
  constructor
  · rintro ⟨e, he, hremoved⟩
    obtain ⟨o, n, ho, -, rfl⟩ := h.entry_some he
    exact ⟨o, ho, hremoved⟩
  · rintro ⟨o, ho, hremoved⟩
    obtain ⟨n, hn⟩ := Option.ne_none_iff_exists'.1 (h.mounts.live x (by simp [ho]))
    exact ⟨_, (h.mounts.registry x).trans (World.entry_of_some ho hn), hremoved⟩

/-- What a directory in use has names for, on the device as in the world. -/
theorem Stands.child_eq (h : c.Stands K W T) (hd : W.pool.nodes d ≠ none) :
    c.pool.child d = W.pool.child d :=
  (Pool.Alike.of_eq (h.nodes_eq hd)).child

/-- The block of an inode in use is marked as used. -/
theorem Stands.used (h : c.Stands K W T) (hf : ¬K.faulty) (hx : c.Uses x) :
    SpaceMap.bit c.device x.toNat = true := by
  have hapart := h.apart (U := c.Uses) fun y hy => (h.uses_iff hf).1 hy
  obtain ⟨n, hn, -⟩ := hapart.stored x hx
  exact hapart.used x x hx (Pool.mem_blocks_self hn)

/-- What a name stands for is in use, but perhaps for that of the directory above one that has been
removed. -/
theorem Abides.uses (h : c.Abides K W T) (hf : ¬K.faulty) (hd : c.Uses d)
    (hc : c.pool.child d name = some x) (hname : name = ".." → ¬c.Removed d) : c.Uses x := by
  have hstored := (h.stands.uses_iff hf).1 hd
  rw [h.stands.child_eq hstored] at hc
  rw [h.stands.uses_iff hf]
  have hrooted := h.stands.good.ordered.rooted
  -- In the tree every name stands for what is in the tree, and a directory that has been removed has but the
  -- two names of its own left.
  rcases h.stands.good.ordered.known hf d hstored with hl | hdoomed
  · exact hrooted.stored x (hrooted.linked_child hl hc)
  · rcases h.shorn d hdoomed name x hc with ⟨-, rfl⟩ | hup
    · exact hstored
    · exact absurd (h.stands.removed_iff.2 hdoomed) (hname hup)

/-- What the action of a request leads to, as the client sees it. -/
theorem ask_comes {post : Except Stop (Response × List Handle) → World → Prop} (hv : Mounts K W c.volume)
    (hr : Leads (Mounts K) W (r.act c.handles) post) : ∃ res W', Mounts K W' (c.ask r).2.volume ∧ post res W' ∧
      (c.ask r).1 = res.map Prod.fst ∧ (c.ask r).2.handles = Request.kept c.handles res := by
  rcases hr.run hv with ⟨⟨a, handles⟩, v, W', hact, hv', hpost⟩ | ⟨e, v, W', hact, hv', hpost⟩
  all_goals
    rw [Client.ask, hact]
    exact ⟨_, W', hv', hpost, rfl, rfl⟩

/-- A request comes to what is said of it, and the client abides. -/
theorem Abides.ask (h : c.Abides K W T) (hf : ¬K.faulty) (hr : c.Permits r) : ∃ res W' T',
    r.Comes K W T c.handles res W' ∧ (c.ask r).1 = res.map Prod.fst ∧
      (c.ask r).2.handles = Request.kept c.handles res ∧ W.Moves K T W' ∧ (c.ask r).2.Abides K W' T' := by
  have hproper (q : Call) (hq : r = .call q) : q.Proper W c.handles := by
    subst hq
    exact h.stands.proper hr
  have hclean (q : Call) (hq : r = .call q) : q.Clean := by
    subst hq
    exact hr.1
  have hentry (i : Nat) (name : String) (d : Directory) (x : UInt32) (he : r = .openEntry i name)
      (hd : c.handles[i]? = some (.directory d)) (hx : W.pool.child d.inode.number name = some x) :
      W.pool.nodes x ≠ none := by
    subst he
    obtain ⟨o, ho, -⟩ := h.stands.good.tracks.opened_of_handle hd
    have hstored := h.stands.mounts.live d.inode.number (by simp [show W.opens d.inode.number = _ from ho])
    rw [← h.stands.child_eq hstored] at hx
    rw [← h.stands.uses_iff hf]
    by_cases hup : name = ".."
    · exact hr hup d x hd hx
    · exact h.uses hf ((h.stands.uses_iff hf).2 hstored) hx fun hno => absurd hno hup
  -- What has been a directory and is open still is a directory.
  have hfitting {res : Except Stop (Response × List Handle)} {W' : World} {T' : Hierarchy} {v : Volume}
      (hcomes : r.Comes K W T c.handles res W') (hv : Mounts K W' v)
      (hgood : Call.Good K W' T' (Request.kept c.handles res)) : W'.Fitting (Request.kept c.handles res) := by
    intro d hd
    have hdir := hcomes.directories h.stands.good.ordered h.fitting d hd
    obtain ⟨n, hn, -⟩ := Pool.isDirectory_node hdir
    have hadvances := (hcomes.moves hf hproper).advances h.stands.good.ordered
    rwa [hadvances.kind d.inode.number (by simp [hn]) (hv.live _ (hgood.open_iff.1 ⟨_, hd, rfl⟩))]
  obtain ⟨res, W', hv, hcomes, hanswer, hkept⟩ := ask_comes h.stands.mounts (Request.act_leads h.stands.fits
    h.stands.good.ordered h.stands.good.tracks h.fitting r hclean hentry)
  obtain ⟨T', hgood⟩ := hcomes.good h.stands.good hproper
  have hmoves := hcomes.moves hf hproper
  have hfitting := hfitting hcomes hv hgood
  rw [← hkept] at hgood hfitting
  exact ⟨res, W', T', hcomes, hanswer, hkept, hmoves, ⟨h.stands.fits, hv, hgood⟩,
    (hmoves.advances h.stands.good.ordered).shorn hf h.stands.good.ordered h.shorn, hfitting⟩

/-- While nothing is open there is nothing more to say of a client that stands. -/
theorem Stands.abides (h : c.Stands K W T) (hopens : W.opens = fun _ => none) (hhandles : c.handles = []) :
    c.Abides K W T := by
  refine ⟨h, ?_, fun d hd => ?_⟩
  · rintro x ⟨o, ho, -⟩
    rw [hopens] at ho
    cases ho
  · rw [hhandles] at hd
    cases hd

theorem Starts.abides {disk : Disk} (h : Starts False disk c) :
    ∃ W, c.Abides ⟨disk.device.blockCount, False⟩ W Hierarchy.rootOnly := by
  obtain ⟨W, hW, hopens⟩ := h.stands
  exact ⟨W, hW.abides hopens h.handles⟩

/-- Every run keeps what is said of clients. -/
theorem Asks.abides (h : Asks P c c') (hf : ¬K.faulty) (ha : c.Abides K W T) :
    ∃ W' T', c'.Abides K W' T' := by
  induction h with
  | start _ => exact ⟨W, T, ha⟩
  | ask run r permitted _ ih =>
    obtain ⟨W₁, T₁, h₁⟩ := ih
    obtain ⟨res, W', T', -, -, -, -, h'⟩ := h₁.ask hf permitted
    exact ⟨W', T', h'⟩

theorem Asked.abides (h : c.Asked) : ∃ K W T, ¬K.faulty ∧ c.Abides K W T := by
  obtain ⟨disk, c₀, hs, hr⟩ := h
  obtain ⟨W₀, h₀⟩ := hs.abides
  have hf : ¬Regime.faulty ⟨disk.device.blockCount, False⟩ := id
  obtain ⟨W, T, hW⟩ := hr.abides hf h₀
  exact ⟨_, W, T, hf, hW⟩

/-- While a directory is in use and a name in it stands for an inode, so is that inode. -/
theorem Asks.lasting (hf : ¬K.faulty) (ha : c.Abides K W T)
    (h : Asks (fun c => c.Uses d ∧ c.pool.child d name = some x) c c')
    (hname : name = ".." → ¬c'.Removed d) : Asks (·.Uses x) c c' := by
  induction h with
  | start h => exact .start (ha.uses hf h.1 h.2 hname)
  | ask run r permitted h ih =>
    obtain ⟨W₁, T₁, h₁⟩ := run.abides hf ha
    obtain ⟨res, W', T', -, -, -, hmoves, h'⟩ := h₁.ask hf permitted
    refine .ask (ih fun hup hremoved => hname hup ?_) r permitted (h'.uses hf h.1 h.2 hname)
    -- A directory that has been removed before is so at the end, for it has been in use.
    rw [h₁.stands.removed_iff] at hremoved
    rw [h'.stands.removed_iff]
    exact ((hmoves.advances h₁.stands.good.ordered).doomed d hremoved ((h'.stands.uses_iff hf).1 h.1)).1

end Abides

/-- What is opened through a directory handle is in use, and has been so for as long as its name has stood for
it. A client that opens `..` of a directory that has been removed may get what is not. -/
theorem live_of_asked {c : Client} (h : c.Asked) {i : Nat} {d : Directory} {name : String}
    (hd : c.handles[i]? = some (.directory d)) (hname : name = ".." → ¬c.Removed d.inode.number) :
    c.OpensLive i d name := by
  obtain ⟨K, W, T, hf, ha⟩ := h.abides
  have hopens := ha.stands.good.open_iff.1 ⟨_, List.mem_of_getElem? hd, rfl⟩
  have hstored : W.pool.nodes d.inode.number ≠ none := ha.stands.mounts.live _ hopens
  have hchild := ha.stands.child_eq hstored
  have huses : c.Uses d.inode.number := (ha.stands.uses_iff hf).2 hstored
  -- What the name stands for is in use, unless it is `..` of a directory that has been removed.
  have hpermits : c.Permits (.openEntry i name) := fun hup d' x hd' hx => by
    rw [hd] at hd'
    cases hd'
    exact ha.uses hf huses hx hname
  obtain ⟨res, W', T', hcomes, hres, hkept, -, ha'⟩ := ha.ask hf hpermits
  rcases hcomes with ⟨hno, -, -⟩ | ⟨d', hd', harrives⟩
  · exact absurd hd (hno d)
  rw [hd] at hd'
  cases hd'
  rw [← hchild] at harrives
  refine ⟨fun hnone => ?_, fun x hx => ?_, fun x hx => ?_, fun x c₁ h₁ hr => ?_⟩
  · rw [hnone] at harrives
    rw [hres, harrives.1]
    rfl
  · rw [hx] at harrives
    obtain ⟨rfl, rfl⟩ := harrives
    obtain ⟨n, hn⟩ := Option.ne_none_iff_exists'.1 ((ha.stands.uses_iff hf).1 (ha.uses hf huses hx hname))
    exact ⟨hres, hkept, n, ha.stands.node hn, ha'.stands.node hn⟩
  · rw [hx] at harrives
    obtain ⟨rfl, rfl⟩ := harrives
    have hlive := ha.uses hf huses hx hname
    have hopened := (ha'.stands.uses_iff hf).2 ((ha.stands.uses_iff hf).1 hlive)
    exact ⟨hlive, ha.stands.used hf hlive, hopened, ha'.stands.used hf hopened⟩
  · obtain ⟨K₁, W₁, T₁, hf₁, ha₁⟩ := h₁.abides
    exact hr.lasting hf₁ ha₁ hname

/-- On a device of eight blocks, the root is opened through a handle of the directory below it. -/
theorem live_of_holding_directory : ∃ (c : Client) (x : UInt32), c.Asked ∧ x ≠ rootInode ∧
    c.handles[0]? = some (.directory (directoryAt x)) ∧ ¬c.Removed x ∧
    c.pool.child x ".." = some rootInode ∧ c.OpensLive 0 (directoryAt x) ".." := by
  have hfits : Regime.Fits ⟨8, False⟩ := ⟨by decide, by decide⟩
  have hpath : NulFree "/d" := by decide
  have habs : Path.toAbsolute "/d" "/" = .ok "/d" := by decide
  obtain ⟨c₁, W, T, x, r, n, hfirst⟩ := exists_first 0 true hfits hpath habs (by decide) (by decide)
    (by decide) (by decide) (by decide) (by decide) (by decide)
  obtain ⟨c₀, hstarts, hrun⟩ := hfirst.run
  have hx : W.pool.resolve rootInode (Path.components "/d") = .ok x := hfirst.resolve rfl
  obtain ⟨c, T', hopen, hhandles, hs⟩ := hfirst.stands.does_openDirectory hpath (by decide) habs hx
  have hasked : c.Asked := (hstarts.asked.runs hrun).next hopen
  have hhandle : c.handles[0]? = some (.directory (directoryAt x)) := by
    rw [hhandles, hfirst.handles]
    rfl
  -- The directory has just been made, so it has not been removed.
  have hremoved : ¬c.Removed x := by
    rw [hs.removed_iff]
    rintro ⟨o, ho, hremoved⟩
    rw [W.opened_opens_self, hfirst.opens] at ho
    cases ho
    cases hremoved
  have hup : c.pool.child x ".." = some rootInode := by
    rw [hs.child_eq (by simp [hfirst.node]), W.opened_pool, Pool.child_of_node hfirst.node hfirst.kind,
      (hfirst.directory rfl).2]
    rfl
  exact ⟨c, x, hasked, hfirst.ne_root.symm, hhandle, hremoved, hup,
    live_of_asked hasked hhandle fun _ => hremoved⟩

end Client

end InodeVolume
