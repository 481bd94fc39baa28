import InodeVolume.Proofs.Orderly

/-!
# Actions that take paths

What creating, opening, removing and changing directory do to a world in order, with the path resolved by
the entries alone (`Pool.find`). Each either does what it says, and says when that is
(`create_settles`, `remove_leads`), or leaves all names and all files as they were (`World.Undone`).
-/

namespace InodeVolume

/-- Where an absolute path leads: to the root, whose entries are not looked at, or to what the leaf stands
for in the directory that the parent leads to. -/
def Names.find (N : Names) (absolute : String) : Except Error UInt32 :=
  if Path.isRoot absolute then .ok rootInode
  else (N.resolve rootInode (Path.components (Path.parentPart absolute))).bind fun t =>
    (N.child t (Path.leafPart absolute)).elim (.error .notFound) .ok

/-- What changing directory answers: the absolute form of a path that leads to a directory, without
dots. -/
def Names.place (N : Names) (path cwd : String) : Except Stop String :=
  match (Path.toAbsolute path cwd).bind fun absolute =>
      (N.resolve rootInode (Path.components absolute)).map fun _ => absolute with
  | .ok absolute => (Path.normalize? absolute).elim (.error (.misused .relativePath)) .ok
  | .error e => .error (.failed e)

namespace Pool

/-- Where an absolute path leads in a pool. -/
abbrev find (P : Pool) (absolute : String) : Except Error UInt32 := P.names.find absolute

theorem find_eq (P : Pool) (absolute : String) : P.find absolute =
    if Path.isRoot absolute then .ok rootInode
    else (P.resolve rootInode (Path.components (Path.parentPart absolute))).bind fun t =>
      (P.child t (Path.leafPart absolute)).elim (.error .notFound) .ok := rfl

/-- Something can be created at an absolute path: the leaf is a name, and the directory that the parent
leads to has room for it. -/
structure Creatable (K : Regime) (P : Pool) (denials : UInt32 → Nat) (absolute : String) (size : Nat)
    (isDirectory : Bool) (t : UInt32) (n : Node) : Prop where
  named : (Path.leafPart absolute).isEmpty = false
  short : (Path.leafPart absolute).utf8ByteSize ≤ nameMax
  parent : P.resolve rootInode (Path.components (Path.parentPart absolute)) = .ok t
  node : P.nodes t = some n
  room : Volume.Room K P n (denials t) (Path.leafPart absolute) size isDirectory

/-- A new directory could be linked at an absolute path, but not get the two entries of its own. -/
structure Cramped (K : Regime) (P : Pool) (denials : UInt32 → Nat) (absolute : String) (t : UInt32)
    (n : Node) : Prop where
  named : (Path.leafPart absolute).isEmpty = false
  short : (Path.leafPart absolute).utf8ByteSize ≤ nameMax
  parent : P.resolve rootInode (Path.components (Path.parentPart absolute)) = .ok t
  node : P.nodes t = some n
  cramped : Volume.Cramped K P n (denials t) (Path.leafPart absolute)

/-- What is at an absolute path can be removed: it is not the root, and its name can be unlinked from the
directory that the parent leads to. -/
structure Erasable (P : Pool) (denials : UInt32 → Nat) (absolute : String) (t : UInt32) (n : Node)
    (x : UInt32) (m : Node) : Prop where
  below : Path.isRoot absolute = false
  parent : P.resolve rootInode (Path.components (Path.parentPart absolute)) = .ok t
  node : P.nodes t = some n
  inode : P.nodes x = some m
  removable : Directory.Removable n (denials t) (Path.leafPart absolute) x m

end Pool

/-- Inode `b` has been created at an absolute path. -/
structure World.Added (K : Regime) (W : World) (T : Hierarchy) (absolute : String) (size : Nat)
    (isDirectory : Bool) (t : UInt32) (n : Node) (b : UInt32) (n' m : Node) (W' : World) : Prop where
  creatable : W.pool.Creatable K W.denials absolute size isDirectory t n
  linked : T.linked t
  parent : n.record.isDirectory = true
  closed : W.opens b = none
  created : Volume.Created K W.pool t n (Path.leafPart absolute) size isDirectory b n' m W'.pool
  grafted : Pool.Grafted W.pool T b t (Path.leafPart absolute) W'.pool
  opens : W'.opens = W.opens
  ordered : W'.Ordered K (T.link b t (Path.leafPart absolute))

section Added

variable {K : Regime} {W W' : World} {T : Hierarchy} {absolute : String} {size : Nat} {isDirectory : Bool}
  {t b x : UInt32} {n n' m : Node}

theorem World.Added.ne (h : W.Added K T absolute size isDirectory t n b n' m W') : b ≠ t := by
  rintro rfl
  cases h.created.fresh.symm.trans h.creatable.node

theorem World.Added.node (h : W.Added K T absolute size isDirectory t n b n' m W') :
    W'.pool.nodes b = some m := by
  rw [h.created.nodes, Function.update_of_ne h.ne, Function.update_self]

theorem World.Added.above (h : W.Added K T absolute size isDirectory t n b n' m W') :
    W'.pool.nodes t = some n' := by
  rw [h.created.nodes, Function.update_self]

theorem World.Added.node_of_ne (h : W.Added K T absolute size isDirectory t n b n' m W') (ht : x ≠ t)
    (hb : x ≠ b) : W'.pool.nodes x = W.pool.nodes x := by
  rw [h.created.nodes, Function.update_of_ne ht, Function.update_of_ne hb]

end Added

/-- What was at an absolute path has been removed. -/
structure World.Erased (K : Regime) (W : World) (T : Hierarchy) (absolute : String) (t : UInt32) (n : Node)
    (x : UInt32) (m n' : Node) (W' : World) : Prop where
  erasable : W.pool.Erasable W.denials absolute t n x m
  linked : T.linked t
  parent : n.record.isDirectory = true
  unlinked : Directory.Unlinked K W t n (Path.leafPart absolute) x m n' W'
  cut : Pool.Cut W.pool T x t (Path.leafPart absolute) W'.pool
  ordered : W'.Ordered K (T.prune x)

theorem World.Erased.ne {K : Regime} {W W' : World} {T : Hierarchy} {absolute : String} {t x : UInt32}
    {n m n' : Node} (hR : W.pool.Rooted T) (h : W.Erased K T absolute t n x m n' W') : x ≠ t := by
  obtain ⟨hx, h0, hp, -⟩ := hR.place h.linked h.cut.entry h.cut.named
  rintro rfl
  exact hR.parent_ne hx h0 hp

/-- Nothing has changed but the tables of directories, and no name in them. -/
def World.SameNames (W W' : World) : Prop :=
  ∀ x, W'.pool.nodes x = W.pool.nodes x ∨ ∃ n n', W.pool.nodes x = some n ∧ W'.pool.nodes x = some n' ∧
    n.record.isDirectory = true ∧ n'.record.isDirectory = true ∧ n'.child = n.child

theorem World.SameNames.refl (W : World) : W.SameNames W := fun _ => .inl rfl

theorem World.SameNames.of_becomes {W W' : World} {t : UInt32} {n n' : Node} (h : W.Becomes t n' W')
    (hn : W.pool.nodes t = some n) (hdir : n.record.isDirectory = true)
    (hdir' : n'.record.isDirectory = true) (hchild : n'.child = n.child) : W.SameNames W' := by
  intro x
  by_cases hx : x = t
  · exact .inr ⟨n, n', hx ▸ hn, hx ▸ h.node, hdir, hdir', hchild⟩
  · exact .inl (h.node_of_ne hx)

/-- An action has failed and left all names and files as they were. Where writes fail, a new directory may
be left that does not have both entries of its own, or a file that was to be emptied may be. -/
structure World.Undone (K : Regime) (W : World) (T : Hierarchy) (W' : World) : Prop where
  opens : W'.opens = W.opens
  order : (W'.Ordered K T ∧ W.SameNames W') ∨ (K.faulty ∧ ∃ T', W'.Ordered K T')

theorem World.Undone.refl {K : Regime} {W : World} {T : Hierarchy} (h : W.Ordered K T) : W.Undone K T W :=
  ⟨rfl, .inl ⟨h, SameNames.refl W⟩⟩

/-- Creating at a path has failed, and no inode is other than before, but that the table of one directory may
have become longer for a new directory that could not get the two entries of its own. -/
def World.Settles (K : Regime) (W : World) (path cwd : String) (isDirectory : Bool) (W' : World) : Prop :=
  ∃ t n n', W.pool.nodes t = some n ∧ W.Becomes t n' W' ∧ n.owned ⊆ n'.owned ∧
    ((n'.size = n.size ∧ ∀ absolute t n, Path.toAbsolute path cwd = .ok absolute →
        ¬(isDirectory = true ∧ W.pool.Cramped K W.denials absolute t n)) ∨
      (n'.size = max n.size (n.vacant * slotSize + slotSize) ∧ isDirectory = true ∧
        ∃ absolute, Path.toAbsolute path cwd = .ok absolute ∧ W.pool.Cramped K W.denials absolute t n))

namespace Volume

variable {K : Regime} {W : World} {T : Hierarchy} {L : UInt32 → Prop} {path cwd absolute : String}

theorem split_eq (path cwd : String) : Path.split path cwd =
    (Path.toAbsolute path cwd).map fun a => (Path.parentPart a, Path.leafPart a) := by
  rw [Path.split]
  cases Path.toAbsolute path cwd <;> rfl

theorem leaf_eq (path cwd : String) : Path.leaf path cwd =
    (Path.toAbsolute path cwd).map fun a => (Path.leafPart a, a) := by
  rw [Path.leaf]
  cases Path.toAbsolute path cwd <;> rfl

/-! ## Opening -/

/-- What a path leads to is among what names lead to. -/
theorem linked_find (hR : W.pool.Walkable L) {x : UInt32} (h : W.pool.find absolute = .ok x) : L x := by
  rw [Pool.find_eq] at h
  -- The root is found without a name. Any other path ends with an entry of a linked directory.
  by_cases hroot : Path.isRoot absolute = true
  · rw [if_pos hroot] at h
    cases h
    exact hR.root
  · rw [if_neg hroot] at h
    cases ht : W.pool.resolve rootInode (Path.components (Path.parentPart absolute)) with
    | error e =>
      rw [ht] at h
      cases h
    | ok t =>
      rw [ht] at h
      cases hc : W.pool.child t (Path.leafPart absolute) with
      | none =>
        simp only [Except.bind, hc] at h
        cases h
      | some y =>
        simp only [Except.bind, hc, Option.elim_some] at h
        cases h
        exact hR.child _ _ _ (hR.ends hR.root hR.rootDirectory ht).1 hc

/-- Opening comes to what the path leads to. -/
theorem openInode_leads (hK : K.Fits) (hR : W.pool.Walkable L) (hW : W.Attended) (path cwd : String) :
    Leads (Mounts K) W (openInode path cwd)
      (W.Arrives Inode.mk ((Path.toAbsolute path cwd).bind W.pool.find)) := by
  unfold openInode
  rw [leaf_eq]
  cases Path.toAbsolute path cwd with
  | error e => exact Leads.failBind ⟨rfl, rfl⟩
  | ok absolute =>
    show Leads (Mounts K) W (if Path.isRoot absolute then Inode.acquire rootInode
      else within (Path.parentPart absolute) (·.openEntry (Path.leafPart absolute)))
      (W.Arrives Inode.mk (W.pool.find absolute))
    rw [Pool.find_eq]
    -- The root has no directory above in which its name could be looked up.
    by_cases hroot : Path.isRoot absolute = true
    · rw [if_pos hroot, if_pos hroot]
      obtain ⟨n, hn, -⟩ := Pool.isDirectory_node hR.rootDirectory
      exact Yields.leads (Inode.acquire_yields hK hn) ⟨rfl, rfl⟩
    rw [if_neg hroot, if_neg hroot]
    refine within_leads hK hR hW (fun t ht hl hdir => ?_) fun e he => ?_
    · obtain ⟨n, hn, hndir⟩ := Pool.isDirectory_node hdir
      have hchild : W.pool.child t = n.child := Pool.child_of_node hn hndir
      rw [ht]
      refine Leads.mono (Directory.openEntry_leads (W := W.opened t) hK rfl hn (W.opened_opens_self t)
        fun x hx => hR.stored x ?_) ?_
      · exact hR.child t _ x hl (by rw [hchild, hx])
      rintro res W' (⟨x, hx, rfl, rfl⟩ | ⟨hx, rfl, rfl⟩)
      · refine ⟨sober_ok, W.opened x, W.opened_comm t x, by simp [hn], hW.opened x, ?_⟩
        simp only [Except.bind, hchild, hx, Option.elim_some]
        exact ⟨rfl, rfl⟩
      · refine ⟨sober_failed, W, rfl, by simp [hn], hW, ?_⟩
        simp only [Except.bind, hchild, hx, Option.elim_none]
        exact ⟨rfl, rfl⟩
    · rw [he]
      exact ⟨rfl, rfl⟩

/-- Opening a directory comes to where all components lead. -/
theorem openDirectory_leads (hK : K.Fits) (hR : W.pool.Walkable L) (hW : W.Attended) (path cwd : String) :
    Leads (Mounts K) W (openDirectory path cwd)
      (W.Arrives directoryAt ((Path.toAbsolute path cwd).bind fun absolute =>
        W.pool.resolve rootInode (Path.components absolute))) := by
  unfold openDirectory
  cases Path.toAbsolute path cwd with
  | error e => exact Leads.failBind ⟨rfl, rfl⟩
  | ok absolute => exact walk_leads hK hR hW absolute

/-- Changing directory answers where it comes to, and changes nothing in the volume. -/
theorem changeDirectory_leads (hK : K.Fits) (hR : W.pool.Walkable L) (hW : W.Attended) (path cwd : String) :
    Leads (Mounts K) W (changeDirectory path cwd) fun res W' =>
      res = W.pool.names.place path cwd ∧ W' = W := by
  unfold changeDirectory Names.place
  cases Path.toAbsolute path cwd with
  | error e => exact Leads.failBind ⟨rfl, rfl⟩
  | ok absolute =>
    refine Yields.bind (v := absolute) Yields.pure ?_
    have hwalk := walk_leads hK hR hW absolute
    cases hr : W.pool.resolve rootInode (Path.components absolute) with
    | error e =>
      rw [hr] at hwalk
      refine Leads.bind hwalk ?_ ?_
      · rintro d W' ⟨hd, -⟩
        cases hd
      · rintro e' W' ⟨he, rfl⟩
        cases he
        refine ⟨?_, rfl⟩
        simp only [Except.bind, hr, Except.map]
    | ok t =>
      rw [hr] at hwalk
      refine Leads.bind hwalk ?_ ?_
      · rintro d W' ⟨hd, rfl⟩
        cases hd
        obtain ⟨ht, -⟩ := hR.ends hR.root hR.rootDirectory hr
        obtain ⟨n, hn⟩ := Option.ne_none_iff_exists'.1 (hR.stored t ht)
        -- The directory was opened only to find out that it is there.
        refine Yields.bind (Inode.close_opened hK hn (hW t)) ?_
        simp only [Except.bind, hr, Except.map]
        cases Path.normalize? absolute with
        | some place => exact Leads.pure ⟨rfl, rfl⟩
        | none => exact Leads.throw ⟨rfl, rfl⟩
      · rintro e W' ⟨he, -⟩
        cases he

/-! ## Creating -/

/-- What creating at a path comes to. -/
def Creates (K : Regime) (W : World) (T : Hierarchy) (path cwd : String) (size : Nat) (isDirectory : Bool)
    (res : Except Stop Unit) (W' : World) : Prop :=
  (res = .ok () ∧ ∃ absolute t n b n' m, Path.toAbsolute path cwd = .ok absolute ∧
      W.Added K T absolute size isDirectory t n b n' m W') ∨
    ((K.faulty ∨ ∀ absolute t n, Path.toAbsolute path cwd = .ok absolute →
        ¬W.pool.Creatable K W.denials absolute size isDirectory t n) ∧
      (∃ e, res = .error (.failed e)) ∧ W.Undone K T W')

/-- Creating at a path comes to what is said of it, and what a failure leaves is said as well. -/
def CreatesOrSettles (K : Regime) (W : World) (T : Hierarchy) (path cwd : String) (size : Nat)
    (isDirectory : Bool) (res : Except Stop Unit) (W' : World) : Prop :=
  Creates K W T path cwd size isDirectory res W' ∧
    (res ≠ .ok () → ¬K.faulty → W.Settles K path cwd isDirectory W')

/-- Without a name that fits, in a directory that is there, nothing can be created. -/
theorem creates_refused {size : Nat} {isDirectory : Bool} {e : Error} (hO : W.Ordered K T)
    (h : ∀ absolute t, Path.toAbsolute path cwd = .ok absolute → (Path.leafPart absolute).isEmpty = false →
      (Path.leafPart absolute).utf8ByteSize ≤ nameMax →
      W.pool.resolve rootInode (Path.components (Path.parentPart absolute)) ≠ .ok t) :
    CreatesOrSettles K W T path cwd size isDirectory (.error (.failed e)) W := by
  refine ⟨.inr ⟨.inr fun a t n ha hc => h a t ha hc.named hc.short hc.parent, ⟨e, rfl⟩,
    World.Undone.refl hO⟩, fun _ _ => ?_⟩
  obtain ⟨n, hn, -⟩ := Pool.isDirectory_node hO.rooted.rootDirectory
  exact ⟨rootInode, n, n, hn, ⟨(Function.update_eq_self_iff.2 hn.symm).symm, rfl, rfl⟩, List.Subset.refl _,
    .inl ⟨rfl, fun a t n ha hc => h a t ha hc.2.named hc.2.short hc.2.parent⟩⟩

/-- A path leads to one directory to create or to remove in. -/
theorem parent_unique {absolute a : String} {t t' : UInt32} {n n₀ : Node}
    (habs : Path.toAbsolute path cwd = .ok absolute)
    (ht : W.pool.resolve rootInode (Path.components (Path.parentPart absolute)) = .ok t)
    (hn : W.pool.nodes t = some n) (ha : Path.toAbsolute path cwd = .ok a)
    (hp : W.pool.resolve rootInode (Path.components (Path.parentPart a)) = .ok t')
    (hnode : W.pool.nodes t' = some n₀) : a = absolute ∧ t' = t ∧ n₀ = n := by
  rw [habs] at ha
  cases ha
  rw [ht] at hp
  cases hp
  rw [hn] at hnode
  cases hnode
  exact ⟨rfl, rfl, rfl⟩

/-- What creating in a directory comes to that has been opened for it, as seen from before it was opened. -/
theorem Outcome.settles {absolute : String} {t : UInt32} {n : Node} {size : Nat} {isDirectory : Bool}
    {res : Except Stop Unit} {W₁ : World} (hO : W.Ordered K T)
    (hlive : ∀ x, W.opens x ≠ none → W.pool.nodes x ≠ none)
    (habs : Path.toAbsolute path cwd = .ok absolute) (hempty : (Path.leafPart absolute).isEmpty = false)
    (hshort : (Path.leafPart absolute).utf8ByteSize ≤ nameMax)
    (ht : W.pool.resolve rootInode (Path.components (Path.parentPart absolute)) = .ok t)
    (hl : T.linked t) (hn : W.pool.nodes t = some n) (hndir : n.record.isDirectory = true)
    (h : Outcome K (W.opened t) t n (World.moreOpen (W.opens t)) (Path.leafPart absolute) size isDirectory res W₁) :
    ∃ W₂ : World, W₁ = W₂.opened t ∧ W₂.pool.nodes t ≠ none ∧ W₂.Attended ∧
      CreatesOrSettles K W T path cwd size isDirectory res W₂ := by
  obtain ⟨hopens, hheld, hres⟩ := h
  rw [W.moreOpen_denials] at hres
  refine ⟨⟨W₁.pool, W.opens⟩, World.eq_opened hopens, ?_, hO.attended, ?_⟩
  · rcases hres with ⟨-, -, b, n', m, -, hc⟩ | ⟨-, -, ⟨n', hnodes, -⟩ | ⟨-, b, n', m, -, hnodes, -⟩⟩
    · simp [hc.nodes]
    · simp [hnodes]
    · simp [hnodes]
  rcases hres with ⟨rfl, hroom, b, n', m, hclosed, hc⟩ | ⟨hwhy, herr, hnot⟩
  · -- The new inode was not stored, so nobody had it open.
    have hclosed' : W.opens b = none := by
      by_contra ho
      exact hlive b ho hc.fresh
    obtain ⟨hg, hord⟩ := World.Ordered.created ⟨W₁.pool, W.opens⟩ hO hl hn hndir hroom.new hclosed'
      hc rfl hheld
    exact ⟨.inl ⟨rfl, absolute, t, n, b, n', m, habs, ⟨hempty, hshort, ht, hn, hroom⟩, hl,
      hndir, hclosed', hc, hg, rfl, hord⟩, fun hno => absurd rfl hno⟩
  · have hnot := hO.notCreated ⟨W₁.pool, W.opens⟩ hl hn hndir hlive hnot rfl hheld
    refine ⟨.inr ⟨hwhy.imp_right fun hno a t' n₀ ha h => ?_, herr, rfl, ?_⟩, fun _ hf => ?_⟩
    · obtain ⟨rfl, rfl, rfl⟩ := parent_unique habs ht hn ha h.parent h.node
      exact hno h.room
    · refine hnot.imp_left ?_
      rintro ⟨hord, n', hbecomes, hchild, hdir', -⟩
      exact ⟨hord, World.SameNames.of_becomes hbecomes hn hndir hdir' hchild⟩
    · obtain ⟨-, n', hbecomes, -, -, hsettled⟩ := hnot.resolve_right fun hno => hf hno.1
      obtain ⟨howned, hsize⟩ := hsettled hf
      refine ⟨t, n, n', hn, hbecomes, howned, hsize.imp ?_ ?_⟩
      · rintro ⟨hsize, hno⟩
        refine ⟨hsize, fun a t' n₀ ha h => ?_⟩
        obtain ⟨rfl, rfl, rfl⟩ := parent_unique habs ht hn ha h.2.parent h.2.node
        exact hno ⟨h.1, h.2.cramped⟩
      · rintro ⟨hsize, hd, hc⟩
        exact ⟨hsize, hd, absolute, habs, hempty, hshort, ht, hn, hc⟩

/-- Creating comes to what is said of it, and a failure leaves the parent's table as long as it was unless there
was no block for the entries of a new directory. -/
theorem create_settles (hK : K.Fits) (hO : W.Ordered K T) (hpath : NulFree path) (hcwd : NulFree cwd)
    (size : Nat) (isDirectory : Bool) :
    Leads (Mounts K) W (create path cwd size isDirectory)
      (CreatesOrSettles K W T path cwd size isDirectory) := by
  unfold create
  rw [split_eq]
  cases habs : Path.toAbsolute path cwd with
  | error e =>
    refine Leads.failBind (creates_refused hO fun absolute t h => ?_)
    rw [habs] at h
    cases h
  | ok absolute =>
    have hnul := Path.nulFree_leafPart (Path.nulFree_toAbsolute hpath hcwd habs)
    refine Yields.bind (v := (Path.parentPart absolute, Path.leafPart absolute)) Yields.pure ?_
    dsimp only
    by_cases hlong : nameMax < (Path.leafPart absolute).utf8ByteSize
    · rw [if_pos hlong]
      refine Leads.failBind (creates_refused hO fun a t ha _ hshort => ?_)
      rw [habs] at ha
      cases ha
      exact absurd hshort (Nat.not_le.2 hlong)
    rw [if_neg hlong]
    by_cases hempty : (Path.leafPart absolute).isEmpty = true
    · rw [if_pos hempty]
      refine Leads.failBind (creates_refused hO fun a t ha hnamed => ?_)
      rw [habs] at ha
      cases ha
      rw [hempty] at hnamed
      cases hnamed
    rw [if_neg hempty]
    have hempty : (Path.leafPart absolute).isEmpty = false := by simpa using hempty
    have hshort := Nat.le_of_not_lt hlong
    -- That what is open is stored is known of the volume, so it is brought into view here.
    refine Leads.of_shown fun v hv => ?_
    refine within_leads hK hO.rooted.walkable hO.attended (fun t ht hl hdir => ?_) fun e he => ?_
    · obtain ⟨n, hn, hndir⟩ := Pool.isDirectory_node hdir
      refine Leads.mono (createIn_leads hK (hO.site hl hn hndir) ht (Path.parentPart_closed absolute)
        (Path.leafPart_word absolute) hnul hempty hshort size isDirectory) fun res W₁ houtcome => ?_
      exact ⟨houtcome.sober, houtcome.settles hO hv.live habs hempty hshort ht hl hn hndir⟩
    · refine creates_refused hO fun a t ha _ _ hp => ?_
      rw [habs] at ha
      cases ha
      rw [he] at hp
      cases hp

/-- Something is created at a path exactly if it can be, unless writes fail. -/
theorem create_leads (hK : K.Fits) (hO : W.Ordered K T) (hpath : NulFree path) (hcwd : NulFree cwd)
    (size : Nat) (isDirectory : Bool) :
    Leads (Mounts K) W (create path cwd size isDirectory) (Creates K W T path cwd size isDirectory) :=
  Leads.mono (create_settles hK hO hpath hcwd size isDirectory) fun _ _ h => h.1

/-! ## Removing -/

/-- What removing at a path comes to. -/
def Removes (K : Regime) (W : World) (T : Hierarchy) (path cwd : String) (res : Except Stop Unit)
    (W' : World) : Prop :=
  (res = .ok () ∧ ∃ absolute t n x m n', Path.toAbsolute path cwd = .ok absolute ∧
      W.Erased K T absolute t n x m n' W') ∨
    ((K.faulty ∨ ∀ absolute t n x m, Path.toAbsolute path cwd = .ok absolute →
        ¬W.pool.Erasable W.denials absolute t n x m) ∧
      (∃ e, res = .error (.failed e)) ∧ W.Undone K T W')

/-- An inode that has been unlinked in a directory that was open once more, as seen from before the directory
was opened. -/
theorem unlinked_before {t x : UInt32} {n m n' : Node} {name : String} {W₁ : World} (hxt : x ≠ t)
    (hu : Directory.Unlinked K (W.opened t) t n name x m n' W₁) :
    W₁ = (W₁.setOpening t (W.opens t)).opened t ∧
      Directory.Unlinked K W t n name x m n' (W₁.setOpening t (W.opens t)) := by
  refine ⟨World.eq_opened_again (hu.opens t hxt.symm), hu.tidy, hu.child, hu.isDirectory, hu.size, hu.owned,
    hu.node, hu.others, hu.held, fun i hi => ?_, fun hox => ?_, fun ox hox => ?_⟩
  · by_cases hit : i = t
    · rw [hit, World.setOpening_opens, Function.update_self]
    · rw [World.setOpening_opens, Function.update_of_ne hit, hu.opens i hi, W.opened_opens_of_ne hit]
  · rw [World.setOpening_opens, Function.update_of_ne hxt]
    exact hu.gone (by rw [W.opened_opens_of_ne hxt, hox])
  · rw [World.setOpening_opens, Function.update_of_ne hxt]
    exact hu.marked ox (by rw [W.opened_opens_of_ne hxt, hox])

/-- Removing in the directory that a path leads to, which has been opened for it. -/
theorem removes_within {absolute : String} {t : UInt32} {v : Volume} (hK : K.Fits) (hO : W.Ordered K T)
    (hv : Mounts K W v) (habs : Path.toAbsolute path cwd = .ok absolute)
    (hroot : Path.isRoot absolute = false)
    (ht : W.pool.resolve rootInode (Path.components (Path.parentPart absolute)) = .ok t)
    (hl : T.linked t) (hdir : W.pool.isDirectory t = true) :
    Leads (Mounts K) (W.opened t) (({ inode := ⟨t⟩ } : Directory).remove (Path.leafPart absolute))
      fun res W₁ => Sober res ∧ ∃ W₂ : World, W₁ = W₂.opened t ∧ W₂.pool.nodes t ≠ none ∧ W₂.Attended ∧
        Removes K W T path cwd res W₂ := by
  obtain ⟨n, hn, hndir⟩ := Pool.isDirectory_node hdir
  have hchild : W.pool.child t = n.child := Pool.child_of_node hn hndir
  have htidy := hO.rooted.tidy t hl n hn hndir
  -- A name other than the dot names leads to another inode than the root and than this directory.
  have hplace {name : String} {x : UInt32} (hname : isDotName name = false)
      (hx : n.child name = some x) : T.linked x ∧ x ≠ rootInode ∧ x ≠ t := by
    obtain ⟨hxl, hx0, hp, -⟩ := hO.rooted.place hl (by rw [hchild, hx]) hname
    refine ⟨hxl, hx0, ?_⟩
    rintro rfl
    exact hO.rooted.parent_ne hxl hx0 hp
  refine Leads.mono (Directory.remove_leads (W := W.opened t) hK rfl hn (W.opened_opens_self t) htidy
    fun x hname hx => ?_) ?_
  · obtain ⟨hxl, hx0, hxt⟩ := hplace hname hx
    obtain ⟨m, hm⟩ := Option.ne_none_iff_exists'.1 (hO.rooted.stored x hxl)
    exact ⟨hxt, (hv.disk.sound.place x (by simp [hm])).resolve_left hx0,
      ⟨m, hm, hO.rooted.tidy x hxl m hm⟩, fun ox hox => (hO.opened t).attended x ox hox⟩
  rw [W.moreOpen_denials]
  rintro res W₁ (⟨rfl, x, m, n', hm, hr, hu⟩ | ⟨hwhy, e, rfl, hsame⟩)
  · -- The directory is open once more than before, whatever became of the inode.
    obtain ⟨heq, hu'⟩ := unlinked_before (hplace hr.named hr.child).2.2 hu
    obtain ⟨hcut, hord⟩ := hO.unlinked hl hn hndir hm hr hu'
    refine ⟨sober_ok, W₁.setOpening t (W.opens t), heq, ?_, hord.attended,
      .inl ⟨rfl, absolute, t, n, x, m, n', habs, ⟨⟨hroot, ht, hn, hm, hr⟩, hl, hndir, hu', hcut, hord⟩⟩⟩
    rw [hu'.node]
    simp
  · have hwhy' : K.faulty ∨ ∀ a t' n₀ x m, Path.toAbsolute path cwd = .ok a →
        ¬W.pool.Erasable W.denials a t' n₀ x m := by
      refine hwhy.imp_right fun hno a t' n₀ x m ha h => ?_
      obtain ⟨rfl, rfl, rfl⟩ := parent_unique habs ht hn ha h.parent h.node
      exact hno x m h.inode h.removable
    rcases hsame with rfl | ⟨hf, n', hbecomes, htidy', hchild', hdir'⟩
    · exact ⟨sober_failed, W, rfl, by simp [hn], hO.attended, .inr ⟨hwhy', ⟨e, rfl⟩,
        World.Undone.refl hO⟩⟩
    · have hb : W.Becomes t n' ⟨W₁.pool, W.opens⟩ := ⟨hbecomes.nodes, hbecomes.held, rfl⟩
      refine ⟨sober_failed, ⟨W₁.pool, W.opens⟩, World.eq_opened hbecomes.opens, ?_, hO.attended,
        .inr ⟨hwhy', ⟨e, rfl⟩, rfl, .inl ⟨hO.becomes hb hn hdir' fun _ _ => ⟨htidy', hchild'⟩,
          World.SameNames.of_becomes hb hn hndir (hdir'.trans hndir) hchild'⟩⟩⟩
      rw [hb.node]
      simp

/-- What is at a path is removed exactly if it can be, unless writes fail. -/
theorem remove_leads (hK : K.Fits) (hO : W.Ordered K T) (path cwd : String) :
    Leads (Mounts K) W (remove path cwd) (Removes K W T path cwd) := by
  -- Where there is no directory above, nothing can be removed.
  have hrefused {e : Error} (h : ∀ absolute t, Path.toAbsolute path cwd = .ok absolute →
      Path.isRoot absolute = false →
      W.pool.resolve rootInode (Path.components (Path.parentPart absolute)) ≠ .ok t) :
      Removes K W T path cwd (.error (.failed e)) W :=
    .inr ⟨.inr fun a t n x m ha hc => h a t ha hc.below hc.parent, ⟨e, rfl⟩, World.Undone.refl hO⟩
  unfold remove
  rw [leaf_eq]
  cases habs : Path.toAbsolute path cwd with
  | error e =>
    refine Leads.failBind (hrefused fun absolute t h => ?_)
    rw [habs] at h
    cases h
  | ok absolute =>
    refine Yields.bind (v := (Path.leafPart absolute, absolute)) Yields.pure ?_
    dsimp only
    by_cases hroot : Path.isRoot absolute = true
    · rw [if_pos hroot]
      refine Leads.failBind (hrefused fun a t ha hbelow => ?_)
      rw [habs] at ha
      cases ha
      rw [hroot] at hbelow
      cases hbelow
    rw [if_neg hroot]
    refine Leads.of_shown fun v hv => ?_
    refine within_leads hK hO.rooted.walkable hO.attended (fun t ht hl hdir => ?_) fun e he => ?_
    · exact removes_within hK hO hv habs (by simpa using hroot) ht hl hdir
    · refine hrefused fun a t ha _ hp => ?_
      rw [habs] at ha
      cases ha
      rw [he] at hp
      cases hp

/-! ## Opening files -/

/-- Where an opener comes from: what the path leads to, or a new empty file. -/
inductive Opens (K : Regime) (W : World) (T : Hierarchy) (path cwd : String) (create? : Bool) :
    UInt32 → World → Hierarchy → Prop
  | found {absolute : String} {x : UInt32} (absolute_eq : Path.toAbsolute path cwd = .ok absolute)
    (found : W.pool.find absolute = .ok x) : Opens K W T path cwd create? x W T
  | made {absolute : String} {t b : UInt32} {n n' m : Node} {W' : World} (asked : create? = true)
    (absolute_eq : Path.toAbsolute path cwd = .ok absolute)
    (missing : W.pool.find absolute = .error .notFound)
    (added : W.Added K T absolute 0 false t n b n' m W') :
    Opens K W T path cwd create? b W' (T.link b t (Path.leafPart absolute))

theorem Opens.ordered {create? : Bool} {x : UInt32} {W₁ : World} {T₁ : Hierarchy} (hO : W.Ordered K T)
    (h : Opens K W T path cwd create? x W₁ T₁) : W₁.Ordered K T₁ ∧ T₁.linked x := by
  cases h with
  | found _ hx => exact ⟨hO, linked_find hO.rooted.walkable hx⟩
  | made _ _ _ ha => exact ⟨ha.ordered, .inr rfl⟩

theorem Opens.opens {create? : Bool} {x : UInt32} {W₁ : World} {T₁ : Hierarchy}
    (h : Opens K W T path cwd create? x W₁ T₁) : W₁.opens = W.opens := by
  cases h with
  | found _ _ => rfl
  | made _ _ _ ha => exact ha.opens

/-- A path at which an inode has been created leads to it. -/
theorem find_added {size : Nat} {isDirectory : Bool} {t b : UInt32} {n n' m : Node} {W' : World}
    (hO : W.Ordered K T) (hroot : Path.isRoot absolute = false)
    (ha : W.Added K T absolute size isDirectory t n b n' m W') : W'.pool.find absolute = .ok b := by
  rw [Pool.find_eq, hroot, if_neg (by decide), hO.rooted.resolve_link ha.grafted hO.rooted.root ha.creatable.parent]
  simp only [Except.bind, ha.grafted.child, Function.update_self, Option.elim_some]

/-- Why a file is not opened: the path leads nowhere and no file is to be made, none can be made, or the
contents of one that may not be written are to be emptied. -/
def OpenRefused (K : Regime) (W : World) (path cwd : String) (mode : OpenMode) (e : Error) : Prop :=
  K.faulty ∨
    ((Path.toAbsolute path cwd).bind W.pool.find = .error e ∧ ¬(e = .notFound ∧ mode.create = true)) ∨
    (mode.create = true ∧ (Path.toAbsolute path cwd).bind W.pool.find = .error .notFound ∧
      ∀ absolute t n, Path.toAbsolute path cwd = .ok absolute →
        ¬W.pool.Creatable K W.denials absolute 0 false t n) ∨
    (mode.truncate = true ∧ e = .writeDenied ∧ ∃ x n, (Path.toAbsolute path cwd).bind W.pool.find = .ok x ∧
      W.pool.nodes x = some n ∧ n.record.isDirectory = false ∧ 0 < W.denials x)

theorem openOrCreate_leads (hK : K.Fits) (hO : W.Ordered K T) (hpath : NulFree path) (hcwd : NulFree cwd)
    (mode : OpenMode) :
    Leads (Mounts K) W (openOrCreate path cwd mode.create) fun res W' =>
      (∃ x W₁ T₁, res = .ok ⟨x⟩ ∧ Opens K W T path cwd mode.create x W₁ T₁ ∧ W' = W₁.opened x) ∨
        ((∃ e, res = .error (.failed e) ∧ OpenRefused K W path cwd mode e) ∧ W.Undone K T W') := by
  unfold openOrCreate
  have hopen := openInode_leads hK hO.rooted.walkable hO.attended path cwd
  cases hr : (Path.toAbsolute path cwd).bind W.pool.find with
  | ok x =>
    rw [hr] at hopen
    refine Leads.attemptVolumeBind hopen ?_ ?_ ?_
    · rintro r W' ⟨rfl, -⟩
      exact sober_ok
    · rintro i W' ⟨hi, rfl⟩
      cases hi
      cases habs : Path.toAbsolute path cwd with
      | error e =>
        rw [habs] at hr
        cases hr
      | ok absolute =>
        rw [habs] at hr
        exact Leads.pure (.inl ⟨x, W, T, rfl, .found habs hr, rfl⟩)
    · rintro e W' ⟨he, -⟩
      cases he
  | error e =>
    rw [hr] at hopen
    refine Leads.attemptVolumeBind hopen ?_ ?_ ?_
    · rintro r W' ⟨rfl, -⟩
      exact sober_failed
    · rintro i W' ⟨hi, -⟩
      cases hi
    · rintro e' W' ⟨he, rfl⟩
      cases he
      dsimp only
      by_cases hask : e = .notFound ∧ mode.create = true
      · rw [if_pos hask]
        obtain ⟨rfl, hask⟩ := hask
        refine Leads.bind (create_leads hK hO hpath hcwd 0 false) ?_ ?_
        · rintro v W₁ (⟨-, absolute, t, n, b, n', m, habs, ha⟩ | ⟨-, ⟨e, he⟩, -⟩)
          swap
          · cases he
          rw [habs] at hr
          -- The root is always found, so it is not what was missing.
          have hroot : Path.isRoot absolute = false := by
            by_contra hroot
            simp only [Bool.not_eq_false] at hroot
            simp [Except.bind, Names.find, hroot] at hr
          -- The path is followed once more, and leads to what has just been made.
          have hagain := openInode_leads hK ha.ordered.rooted.walkable ha.ordered.attended path cwd
          rw [habs] at hagain
          simp only [Except.bind, find_added hO hroot ha] at hagain
          refine Leads.mono hagain ?_
          rintro res W' ⟨rfl, rfl⟩
          exact .inl ⟨b, W₁, _, rfl, .made hask habs hr ha, rfl⟩
        · rintro e W₁ (⟨he, -⟩ | ⟨hwhy, he, hundone⟩)
          · cases he
          · obtain ⟨e', he⟩ := he
            cases he
            refine .inr ⟨⟨e', rfl, hwhy.imp_right fun hno => .inr (.inl ⟨hask, hr, hno⟩)⟩, hundone⟩
      · rw [if_neg hask]
        exact Leads.fail (.inr ⟨⟨e, rfl, .inr (.inl ⟨hr, hask⟩)⟩, World.Undone.refl hO⟩)

/-- What opening a file makes of its contents: they are emptied if that is asked for. -/
inductive Truncates (W : World) (x : UInt32) (truncate : Bool) : World → Prop
  | kept {n : Node} (node : W.pool.nodes x = some n) (keep : ¬(truncate = true ∧ n.record.isDirectory = false)) :
    Truncates W x truncate W
  | emptied {n n' : Node} {W' : World} (asked : truncate = true) (allowed : W.denials x = 0)
    (node : W.pool.nodes x = some n) (file : n.record.isDirectory = false) (becomes : W.Becomes x n' W')
    (file' : n'.record.isDirectory = false) (size : n'.size = 0) (byte : n'.byte = fun _ => 0) :
    Truncates W x truncate W'

/-- What opening a file comes to. -/
def OpensFile (K : Regime) (W : World) (T : Hierarchy) (path cwd : String) (mode : OpenMode)
    (res : Except Stop File) (W' : World) : Prop :=
  (∃ x W₁ T₁ W₂, res = .ok (File.ofInode ⟨x⟩) ∧ Opens K W T path cwd mode.create x W₁ T₁ ∧
      Truncates W₁ x mode.truncate W₂ ∧ W₂.Ordered K T₁ ∧ W' = W₂.opened x) ∨
    ((∃ e, res = .error (.failed e) ∧ OpenRefused K W path cwd mode e) ∧ W.Undone K T W')

/-- Emptying a file that has just been opened, which is closed again if that fails. -/
theorem truncate_leads {x : UInt32} {W₁ : World} {T₁ : Hierarchy} {mode : OpenMode} {n : Node} (hK : K.Fits)
    (hO : W.Ordered K T) (ho : Opens K W T path cwd mode.create x W₁ T₁) (hn : W₁.pool.nodes x = some n)
    (hfile : n.record.isDirectory = false) (hask : mode.truncate = true) :
    Leads (Mounts K) (W₁.opened x) (orUndo (Inode.clear ⟨x⟩) (Inode.close ⟨x⟩)) fun res W' =>
      (res = .ok () ∧ ∃ W₂, Truncates W₁ x mode.truncate W₂ ∧ W₂.Ordered K T₁ ∧ W' = W₂.opened x) ∨
        ((∃ e, res = .error (.failed e) ∧ OpenRefused K W path cwd mode e) ∧ W.Undone K T W') := by
  obtain ⟨hO₁, -⟩ := ho.ordered hO
  have hback {W' : World} {n' : Node} (h : (W₁.opened x).Becomes x n' W') :
      W₁.Becomes x n' ⟨W'.pool, W₁.opens⟩ ∧ W' = (⟨W'.pool, W₁.opens⟩ : World).opened x :=
    ⟨⟨h.nodes, h.held, rfl⟩, World.eq_opened h.opens⟩
  have hord {W' : World} {n' : Node} (h : W₁.Becomes x n' W') (hdir : n'.record.isDirectory = n.record.isDirectory) :
      W'.Ordered K T₁ := hO₁.becomes h hn hdir fun hd => by
    rw [hfile] at hd
    cases hd
  refine Leads.orUndo (Inode.clear_leads hK hn (W₁.opened_opens_self x)) ?_ ?_ ?_
  · rintro r W' (⟨-, rfl, -⟩ | ⟨-, n', -, -, -, -, ⟨rfl, -⟩ | ⟨-, rfl | rfl⟩⟩ | ⟨-, -, rfl, -⟩)
    · exact sober_failed
    · exact sober_ok
    · exact sober_ok
    · exact sober_failed
    · exact sober_failed
  · rintro W' (⟨-, hr, -⟩ | ⟨hallowed, n', hbecomes, hdir, hsize, hbyte, -⟩ | ⟨-, -, hr, -⟩)
    · cases hr
    · obtain ⟨hb, heq⟩ := hback hbecomes
      rw [World.moreOpen_denials] at hallowed
      exact .inl ⟨rfl, _, .emptied hask hallowed hn hfile hb (hdir.trans hfile) hsize hbyte, hord hb hdir, heq⟩
    · cases hr
  · rintro e W' (⟨hpos, he, rfl⟩ | ⟨-, n', hbecomes, hdir, -, -, ⟨hr, -⟩ | ⟨hf, -⟩⟩ | ⟨-, hf, -, rfl⟩)
    · cases he
      rw [World.moreOpen_denials] at hpos
      refine Yields.leads (Inode.close_opened hK hn (hO₁.attended x)) ⟨rfl, .inr ?_⟩
      cases ho with
      | found habs hx =>
        refine ⟨⟨.writeDenied, rfl, .inr (.inr (.inr ⟨hask, rfl, x, n, ?_, hn, hfile, hpos⟩))⟩,
          World.Undone.refl hO⟩
        rw [habs]
        exact hx
      | made _ _ _ ha =>
        -- A new file is not open, so writing to it is not denied.
        rw [World.denials, ha.opens, ha.closed] at hpos
        cases hpos
    · cases hr
    · obtain ⟨hb, heq⟩ := hback hbecomes
      rw [heq]
      refine Yields.leads (Inode.close_opened (W := ⟨W'.pool, W₁.opens⟩) hK hb.node (hO₁.attended x))
        ⟨rfl, .inr ⟨⟨e, rfl, .inl hf⟩, ho.opens, .inr ⟨hf, T₁, hord hb hdir⟩⟩⟩
    · exact Yields.leads (Inode.close_opened hK hn (hO₁.attended x))
        ⟨rfl, .inr ⟨⟨e, rfl, .inl hf⟩, ho.opens, .inr ⟨hf, T₁, hO₁⟩⟩⟩

theorem openFile_leads (hK : K.Fits) (hO : W.Ordered K T) (hpath : NulFree path) (hcwd : NulFree cwd)
    (mode : OpenMode) :
    Leads (Mounts K) W (openFile path cwd mode) (OpensFile K W T path cwd mode) := by
  unfold openFile
  refine Leads.bind (openOrCreate_leads hK hO hpath hcwd mode) ?_ ?_
  swap
  · rintro e W' (⟨x, W₁, T₁, he, -⟩ | ⟨⟨e', he, hwhy⟩, hundone⟩)
    · cases he
    · cases he
      exact .inr ⟨⟨e', rfl, hwhy⟩, hundone⟩
  rintro i W' (⟨x, W₁, T₁, hi, ho, rfl⟩ | ⟨⟨e, he, -⟩, -⟩)
  swap
  · cases he
  cases hi
  obtain ⟨hO₁, hx⟩ := ho.ordered hO
  obtain ⟨n, hn⟩ := Option.ne_none_iff_exists'.1 (hO₁.rooted.stored x hx)
  refine Yields.bind (Inode.isDirectory_yields (W := W₁.opened x) hn (W₁.opened_opens_self x)) ?_
  by_cases hask : (mode.truncate && !n.record.isDirectory) = true
  · rw [if_pos hask]
    simp only [Bool.and_eq_true, Bool.not_eq_true'] at hask
    -- If the file cannot be emptied it is closed again.
    refine Leads.bind (truncate_leads hK hO ho hn hask.2 hask.1) ?_ ?_
    · rintro v W' (⟨-, W₂, htruncates, hO₂, rfl⟩ | ⟨⟨e, he, -⟩, -⟩)
      · exact Leads.pure (.inl ⟨x, W₁, T₁, W₂, rfl, ho, htruncates, hO₂, rfl⟩)
      · cases he
    · rintro e W' (⟨he, -⟩ | ⟨⟨e', he, hwhy⟩, hundone⟩)
      · cases he
      · cases he
        exact .inr ⟨⟨e', rfl, hwhy⟩, hundone⟩
  · rw [if_neg hask]
    refine Leads.pure (.inl ⟨x, W₁, T₁, W₁, rfl, ho, .kept hn fun h => hask ?_, hO₁, rfl⟩)
    simp [h.1, h.2]

end Volume

end InodeVolume
