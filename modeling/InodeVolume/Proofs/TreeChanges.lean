import InodeVolume.Proofs.Accounts

/-!
# What creating and removing do to the tree

Where no access fails, creating something at a path succeeds exactly if the path names a place for it and
the device has room for it, and the tree gains its place and no other (`Client.Gains`). Removing succeeds
exactly if what is at the path may go, and the tree loses its place and no other (`Client.Loses`). A call
that fails leaves the tree and all files as they were (`Client.Untouched`). All of this is said of what
the device shows before and after the call.
-/

namespace InodeVolume

namespace Client

/-- Something can be created at an absolute path, in directory `t`. -/
def Creatable (c : Client) (absolute : String) (size : Nat) (isDirectory : Bool) (t : UInt32) : Prop :=
  ∃ n, c.pool.Creatable (c.device.regime False) c.denials absolute size isDirectory t n

/-- What is at an absolute path can be removed: inode `x`, from directory `t`. -/
def Erasable (c : Client) (absolute : String) (t x : UInt32) : Prop :=
  ∃ n m, c.pool.Erasable c.denials absolute t n x m

/-- The tree has gained the inode `b`, which was not in use, as `name` in the directory `t` at `place`.
Nothing else has changed, in the tree or out of it. -/
structure Gains (c c' : Client) (place : List String) (t : UInt32) (name : String) (size : Nat)
    (isDirectory : Bool) (b : UInt32) : Prop where
  parent : c.pool.tree place = some t
  tree : c'.pool.tree = Function.update c.pool.tree (place ++ [name]) (some b)
  new : ¬c.Uses b ∧ c'.Uses b
  file : isDirectory = false → ∃ m, c'.pool.nodes b = some m ∧ m.record.isDirectory = false ∧
    m.size = size ∧ m.byte = fun _ => 0
  /-- A new directory has the two entries of its own and no other. -/
  directory : isDirectory = true → c'.pool.isDirectory b = true ∧ c'.pool.child b = Volume.dots b t
  child : c'.pool.child t = Function.update (c.pool.child t) name (some b)
  handles : c'.handles = c.handles
  others : ∀ x, c.Uses x → x ≠ t → c'.pool.nodes x = c.pool.nodes x

/-- The tree has lost the inode `x`, which was `name` in the directory `t` at `place`. Whoever has it open
still has all of it; if nobody has, it is not in use any more. -/
structure Loses (c c' : Client) (place : List String) (t : UInt32) (name : String) (x : UInt32) : Prop where
  parent : c.pool.tree place = some t
  there : c.pool.tree (place ++ [name]) = some x
  tree : c'.pool.tree = Function.update c.pool.tree (place ++ [name]) none
  child : c'.pool.child t = Function.update (c.pool.child t) name none
  opened : (∃ h ∈ c.handles, h.target.number = x) → c'.Uses x ∧ c'.pool.nodes x = c.pool.nodes x
  closed : (∀ h ∈ c.handles, h.target.number ≠ x) → ¬c'.Uses x
  handles : c'.handles = c.handles
  others : ∀ y, c.Uses y → y ≠ t → y ≠ x → c'.pool.nodes y = c.pool.nodes y

/-- The tree and all files are as they were, and no directory has other names. -/
structure Untouched (c c' : Client) : Prop where
  tree : c'.pool.tree = c.pool.tree
  handles : c'.handles = c.handles
  uses : ∀ x, c'.Uses x ↔ c.Uses x
  nodes : ∀ x, c.Uses x → c'.pool.nodes x = c.pool.nodes x ∨
    ∃ n n', c.pool.nodes x = some n ∧ c'.pool.nodes x = some n' ∧ n.record.isDirectory = true ∧
      n'.record.isDirectory = true ∧ n'.child = n.child

/-- What creating comes to. -/
structure Creates (c : Client) (path cwd : String) (size : Nat) (isDirectory : Bool)
    (res : Except Stop Answer) (c' : Client) : Prop where
  succeeds : res = .ok .done ↔
    ∃ absolute t, Path.toAbsolute path cwd = .ok absolute ∧ c.Creatable absolute size isDirectory t
  gains : res = .ok .done → ∃ absolute place t b, Path.toAbsolute path cwd = .ok absolute ∧
    c.Creatable absolute size isDirectory t ∧
    c.Gains c' place t (Path.leafPart absolute) size isDirectory b
  fails : res ≠ .ok .done → (∃ e, res = .error (.failed e)) ∧ c.Untouched c'

/-- What removing comes to. -/
structure Removes (c : Client) (path cwd : String) (res : Except Stop Answer) (c' : Client) : Prop where
  succeeds : res = .ok .done ↔
    ∃ absolute t x, Path.toAbsolute path cwd = .ok absolute ∧ c.Erasable absolute t x
  loses : res = .ok .done → ∃ absolute place t x, Path.toAbsolute path cwd = .ok absolute ∧
    c.Erasable absolute t x ∧ c.Loses c' place t (Path.leafPart absolute) x
  fails : res ≠ .ok .done → (∃ e, res = .error (.failed e)) ∧ c.Untouched c'

section Stands

variable {K : Regime} {W W' : World} {T T' : Hierarchy} {c c' : Client} {path cwd absolute : String}
  {size : Nat} {isDirectory : Bool} {t b x : UInt32} {n n' m : Node}

/-- The node of the directory that a path leads to is the same on the device. -/
theorem Stands.parent_iff (h : c.Stands K W T) (l : List String) :
    c.pool.resolve rootInode l = .ok t ∧ c.pool.nodes t = some n ↔
      W.pool.resolve rootInode l = .ok t ∧ W.pool.nodes t = some n := by
  rw [h.resolve_eq h.good.ordered.rooted.root]
  refine and_congr_right fun ht => ?_
  have hrooted := h.good.ordered.rooted
  rw [h.nodes_linked (hrooted.linked_resolve hrooted.root hrooted.rootDirectory ht).1]

/-- There is as much room on the device as in the world. -/
theorem Stands.creatable_iff (h : c.Stands K W T) :
    c.pool.Creatable (c.device.regime False) c.denials absolute size isDirectory t n ↔
      W.pool.Creatable K W.denials absolute size isDirectory t n := by
  have hfree : (c.device.regime False).free c.pool.store.used = K.free W.pool.store.used :=
    h.mounts.disk.free
  rw [h.denials_eq]
  constructor
  · rintro ⟨named, short, parent, node, ⟨new, writable, small, fits, space⟩⟩
    obtain ⟨parent, node⟩ := (h.parent_iff _).1 ⟨parent, node⟩
    exact ⟨named, short, parent, node, new, writable, small, fits, hfree ▸ space⟩
  · rintro ⟨named, short, parent, node, ⟨new, writable, small, fits, space⟩⟩
    obtain ⟨parent, node⟩ := (h.parent_iff _).2 ⟨parent, node⟩
    exact ⟨named, short, parent, node, new, writable, small, fits, hfree.symm ▸ space⟩

theorem Stands.erasable_iff (h : c.Stands K W T) :
    c.pool.Erasable c.denials absolute t n x m ↔ W.pool.Erasable W.denials absolute t n x m := by
  have hrooted := h.good.ordered.rooted
  rw [h.denials_eq]
  -- The inode is in the tree, and so is the same on the device.
  have hinode (ht : T.linked t) (hdir : W.pool.isDirectory t = true) (hn : W.pool.nodes t = some n)
      (hr : Directory.Removable n (c.denials t) (Path.leafPart absolute) x m) :
      c.pool.nodes x = W.pool.nodes x := by
    refine h.nodes_linked (hrooted.linked_child ht (?_ : W.pool.child t (Path.leafPart absolute) = some x))
    rw [Pool.child_of_node hn ((Pool.isDirectory_of_node hn).symm.trans hdir), hr.child]
  constructor
  · rintro ⟨below, parent, node, inode, removable⟩
    obtain ⟨parent, node⟩ := (h.parent_iff _).1 ⟨parent, node⟩
    obtain ⟨ht, hdir⟩ := hrooted.linked_resolve hrooted.root hrooted.rootDirectory parent
    exact ⟨below, parent, node, hinode ht hdir node removable ▸ inode, removable⟩
  · rintro ⟨below, parent, node, inode, removable⟩
    obtain ⟨ht, hdir⟩ := hrooted.linked_resolve hrooted.root hrooted.rootDirectory parent
    obtain ⟨parent', node'⟩ := (h.parent_iff _).2 ⟨parent, node⟩
    exact ⟨below, parent', node', (hinode ht hdir node removable).trans inode, removable⟩

/-- An action that has been undone leaves the device as it was, as far as it can be used. -/
theorem Stands.untouched (hf : ¬K.faulty) (h : c.Stands K W T) (h' : c'.Stands K W' T')
    (hhandles : c'.handles = c.handles) (hu : W.Undone K T W') : c.Untouched c' := by
  obtain ⟨hO, hsame⟩ : W'.Ordered K T ∧ W.SameNames W' := hu.order.resolve_right fun hfaulty => hf hfaulty.1
  -- After a failed call each inode is as it was, or it is a directory with the same names.
  have hstored (x : UInt32) : W'.pool.nodes x ≠ none ↔ W.pool.nodes x ≠ none := by
    rcases hsame x with he | ⟨n, n', hn, hn', -⟩
    · rw [he]
    · simp [hn, hn']
  refine ⟨?_, hhandles, fun x => ?_, fun x hx => ?_⟩
  · rw [h.tree_eq, h'.tree_eq]
    refine h.good.ordered.rooted.tree_congr fun x _ => ?_
    rcases hsame x with he | ⟨n, n', hn, hn', hdir, hdir', hchild⟩
    · exact (Pool.Alike.of_eq he).child
    · rw [Pool.child_of_node hn hdir, Pool.child_of_node hn' hdir', hchild]
  · rw [h.uses_iff hf, h'.uses_iff hf, hstored]
  · have hx := (h.uses_iff hf).1 hx
    rw [h.nodes_eq hx, h'.nodes_eq ((hstored x).2 hx)]
    exact hsame x

theorem Stands.exists_place (h : c.Stands K W T) (hf : ¬K.faulty) (hx : T.linked x) :
    ∃ place, W.pool.tree place = some x :=
  h.good.ordered.rooted.exists_tree (h.good.ordered.dotted hf) hx

/-- A name that has no entry is not one of the two that every directory has. -/
theorem isDotName_of_new (hO : W.Ordered K T) (hf : ¬K.faulty) (ht : T.linked t) {name : String}
    (hdir : W.pool.isDirectory t = true) (hnew : W.pool.child t name = none) : isDotName name = false := by
  obtain ⟨hdot, hdotdot⟩ := hO.dotted hf t ht hdir
  by_contra hname
  simp only [isDotName, Bool.not_eq_false, Bool.or_eq_true, beq_iff_eq] at hname
  rcases hname with rfl | rfl
  · rw [hdot] at hnew
    cases hnew
  · rw [hdotdot] at hnew
    cases hnew

/-- What has been created is there on the device, and all else is as it was. -/
theorem Stands.gains (hf : ¬K.faulty) (h : c.Stands K W T) (h' : c'.Stands K W' T')
    (hhandles : c'.handles = c.handles) (ha : W.Added K T absolute size isDirectory t n b n' m W') :
    ∃ place, c.Gains c' place t (Path.leafPart absolute) size isDirectory b := by
  have hc := ha.created
  have hg := ha.grafted
  have hchildt : W.pool.child t = n.child := Pool.child_of_node ha.creatable.node ha.parent
  -- The two entries of its own are in every directory, so a name that was free is neither of them.
  have hname := isDotName_of_new h.good.ordered hf ha.linked hg.directory hg.free
  obtain ⟨place, hplace⟩ := h.exists_place hf ha.linked
  refine ⟨place, ⟨h.tree_eq ▸ hplace, ?_, ⟨?_, ?_⟩, fun hfile => ?_, fun hdir => ?_, ?_,
    hhandles, ?_⟩⟩
  · rw [h.tree_eq, h'.tree_eq]
    exact h.good.ordered.rooted.tree_link hg hname hplace
  · rw [h.uses_iff hf]
    exact fun hno => hno hc.fresh
  · rw [h'.uses_iff hf, ha.node]
    simp
  · obtain ⟨hsize, hbyte⟩ := hc.file hfile
    exact ⟨m, h'.node ha.node, hc.kind.trans hfile, hsize, hbyte⟩
  · have hmdir := hc.kind.trans hdir
    rw [Pool.isDirectory_of_node (h'.node ha.node), Pool.child_of_node (h'.node ha.node) hmdir]
    exact ⟨hmdir, (hc.directory hdir).2⟩
  · rw [Pool.child_of_node (h'.node ha.above) hc.parent, Pool.child_of_node (h.node ha.creatable.node) ha.parent,
      hc.child]
  · intro x hx hxt
    have hx := (h.uses_iff hf).1 hx
    have hxb : x ≠ b := by
      rintro rfl
      exact hx hc.fresh
    have hsame := ha.node_of_ne hxt hxb
    rw [h.nodes_eq hx, h'.nodes_eq (hsame ▸ hx), hsame]

/-- What has been removed is not there any more, and all else is as it was. -/
theorem Stands.loses (hf : ¬K.faulty) (h : c.Stands K W T) (h' : c'.Stands K W' T')
    (hhandles : c'.handles = c.handles) (he : W.Erased K T absolute t n x m n' W') :
    ∃ place, c.Loses c' place t (Path.leafPart absolute) x := by
  have hu := he.unlinked
  have hr := he.erasable.removable
  -- Nothing but its own entries is in what is removed.
  have hempty (nm : String) (hnm : isDotName nm = false) : W.pool.child x nm = none := by
    cases hz : W.pool.child x nm with
    | none => rfl
    | some z =>
      have hmdir : m.record.isDirectory = true := by
        have := Pool.isDirectory_of_child hz
        rwa [Pool.isDirectory_of_node he.erasable.inode] at this
      rw [Pool.child_of_node he.erasable.inode hmdir] at hz
      exact absurd ⟨hmdir, nm, z, hnm, hz⟩ hr.empty
  obtain ⟨place, hplace⟩ := h.exists_place hf he.linked
  refine ⟨place, ⟨h.tree_eq ▸ hplace, ?_, ?_, ?_, fun hx => ?_, fun hx => ?_, hhandles, ?_⟩⟩
  · rw [h.tree_eq, Pool.tree_concat_of hplace hr.named, he.cut.entry]
  · rw [h.tree_eq, h'.tree_eq]
    exact h.good.ordered.rooted.tree_cut he.cut hplace hempty
  · rw [Pool.child_of_node (h'.node hu.node) (hu.isDirectory.trans he.parent),
      Pool.child_of_node (h.node he.erasable.node) he.parent, hu.child]
  · obtain ⟨ox, hox⟩ := Option.ne_none_iff_exists'.1 (h.good.open_iff.1 hx)
    obtain ⟨-, hnode, -⟩ := hu.marked ox hox
    rw [h'.uses_iff hf, h'.node hnode, h.node he.erasable.inode]
    exact ⟨by simp [hnode], rfl⟩
  · have hnone : W.opens x = none := by
      by_contra ho
      obtain ⟨y, hy, hyx⟩ := h.good.open_iff.2 ho
      exact hx y hy hyx
    rw [h'.uses_iff hf]
    exact fun hno => hno (hu.gone hnone).2.1
  · intro y hy hyt hyx
    have hy := (h.uses_iff hf).1 hy
    have hsame := hu.others y hyt hyx
    rw [h.nodes_eq hy, h'.nodes_eq (hsame ▸ hy), hsame]

end Stands

/-- Where no access fails, creating and removing change the tree as they say, exactly if they can. -/
theorem create_remove_of_reached {c : Client} (h : c.Reached False) {path cwd : String} (hpath : NulFree path)
    (hcwd : NulFree cwd) :
    (∀ size isDirectory, c.Creates path cwd size isDirectory (c.step (.create path cwd size isDirectory)).1
        (c.step (.create path cwd size isDirectory)).2) ∧
      c.Removes path cwd (c.step (.remove path cwd)).1 (c.step (.remove path cwd)).2 := by
  obtain ⟨K, W, T, hfaulty, hs⟩ := h.stands
  have hf : ¬K.faulty := fun hno => hfaulty ▸ hno
  -- What the world allows is what the client can see, so both directions follow from the cases of the call.
  refine ⟨fun size isDirectory => ?_, ?_⟩
  · obtain ⟨res, W', T', ⟨r, hr, rfl⟩, hres, hhandles, hs'⟩ :=
      hs.step (q := .create path cwd size isDirectory) ⟨⟨hpath, hcwd⟩, nofun⟩
    rw [Call.kept_map] at hhandles
    rw [hres]
    rcases hr with ⟨rfl, absolute, t, n, b, n', m, habs, ha⟩ | ⟨hwhy, ⟨e, rfl⟩, hundone⟩
    · have hcreatable : c.Creatable absolute size isDirectory t := ⟨n, hs.creatable_iff.2 ha.creatable⟩
      obtain ⟨place, hgains⟩ := hs.gains hf hs' hhandles ha
      exact ⟨iff_of_true rfl ⟨absolute, t, habs, hcreatable⟩,
        fun _ => ⟨absolute, place, t, b, habs, hcreatable, hgains⟩, fun hno => absurd rfl hno⟩
    · refine ⟨iff_of_false nofun ?_, nofun, fun _ => ⟨⟨e, rfl⟩, hs.untouched hf hs' hhandles hundone⟩⟩
      rintro ⟨absolute, t, habs, n, hcreatable⟩
      exact hwhy.resolve_left hf absolute t n habs (hs.creatable_iff.1 hcreatable)
  · obtain ⟨res, W', T', ⟨r, hr, rfl⟩, hres, hhandles, hs'⟩ :=
      hs.step (q := .remove path cwd) ⟨⟨hpath, hcwd⟩, nofun⟩
    rw [Call.kept_map] at hhandles
    rw [hres]
    rcases hr with ⟨rfl, absolute, t, n, x, m, n', habs, he⟩ | ⟨hwhy, ⟨e, rfl⟩, hundone⟩
    · have herasable : c.Erasable absolute t x := ⟨n, m, hs.erasable_iff.2 he.erasable⟩
      obtain ⟨place, hloses⟩ := hs.loses hf hs' hhandles he
      exact ⟨iff_of_true rfl ⟨absolute, t, x, habs, herasable⟩,
        fun _ => ⟨absolute, place, t, x, habs, herasable, hloses⟩, fun hno => absurd rfl hno⟩
    · refine ⟨iff_of_false nofun ?_, nofun, fun _ => ⟨⟨e, rfl⟩, hs.untouched hf hs' hhandles hundone⟩⟩
      rintro ⟨absolute, t, x, habs, n, m, herasable⟩
      exact hwhy.resolve_left hf absolute t n x m habs (hs.erasable_iff.1 herasable)

/-- On a device of sixteen blocks with one file, another file is created, and the first one is removed. -/
theorem create_remove_of_first : ∃ c₀ c : Client, Starts False { device := .inMemory 16 } c₀ ∧
    Runs c₀ [(.create "/a" "/" 600 false, .ok .done)] c ∧ c.Reached False ∧
    (c.step (.create "/b" "/" 100 false)).1 = .ok .done ∧
    c.Creates "/b" "/" 100 false (c.step (.create "/b" "/" 100 false)).1
      (c.step (.create "/b" "/" 100 false)).2 ∧
    (c.step (.remove "/a" "/")).1 = .ok .done ∧
    c.Removes "/a" "/" (c.step (.remove "/a" "/")).1 (c.step (.remove "/a" "/")).2 := by
  have hfits : Regime.Fits ⟨16, False⟩ := ⟨by decide, by decide⟩
  have ha : NulFree "/a" := by decide
  have hb : NulFree "/b" := by decide
  have hslash : NulFree "/" := by decide
  have habs : Path.toAbsolute "/a" "/" = .ok "/a" := by decide
  obtain ⟨c, W, T, x, r, n, hfirst⟩ := exists_first 600 false hfits ha habs
    (by decide) (by decide) (by decide) (by decide) (by decide) (by decide) (by decide)
  obtain ⟨c₀, hs, hr⟩ := hfirst.run
  have hc : c.Reached False := ⟨_, c₀, _, hs, hr⟩
  -- The table of the root has a slot left, and thirteen blocks are free but for those of the first file.
  have hcreatable : W.pool.Creatable ⟨16, False⟩ W.denials "/b" 100 false rootInode r := by
    refine hfirst.creatable (by decide) (by decide) (by decide) (by decide) (by decide) (by decide) ?_
    have hspace := hfirst.space
    have hstart : Regime.dataStart ⟨16, False⟩ = 2 := by decide
    have htwo : Record.totalBlocks 600 = 2 := by decide
    have hone : Record.totalBlocks 100 = 1 := by decide
    simp only [Bool.false_eq_true, if_false, htwo, hone] at hspace ⊢
    omega
  have herasable : W.pool.Erasable W.denials "/a" rootInode r x n :=
    Pool.erasable_of_root (by decide) (by decide) (by decide) hfirst.root hfirst.child hfirst.node hfirst.kind
      (hfirst.denials rootInode)
  obtain ⟨c₁, -, -, hcreate, -⟩ := hfirst.stands.does_create id hb hslash (by decide) hcreatable
  obtain ⟨c₂, -, -, hremove, -⟩ := hfirst.stands.does_remove id ha hslash habs herasable
  exact ⟨c₀, c, hs, hr, hc, by rw [hcreate.step], (create_remove_of_reached hc hb hslash).1 100 false,
    by rw [hremove.step], (create_remove_of_reached hc ha hslash).2⟩

end Client

end InodeVolume
