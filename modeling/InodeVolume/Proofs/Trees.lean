import InodeVolume.Proofs.Slots

/-!
# The tree of directories

The entries of the directories that can be reached from the root make a tree, apart from the two that
every directory has of its own. `Hierarchy` says which inodes are in it and where each has its name;
`Pool.Rooted` says that a pool has this tree. It holds in between the steps of an action too, and where
writes may fail; the two entries of its own a directory has for certain only where they do not
(`Pool.Dotted`).

Main statements: a pool whose directories look the same has the same tree (`Rooted.of_alike`), linking a
new inode puts it into the tree (`Rooted.link`), and unlinking one takes it out, with all that is below it
(`Rooted.prune`).
-/

namespace InodeVolume

/-- Which inodes are linked, and where. -/
structure Hierarchy where
  linked : UInt32 → Prop
  /-- The directory that an inode has its name in. The root is its own. -/
  parent : UInt32 → UInt32
  name : UInt32 → String
  /-- A number that grows from each directory to what is in it. -/
  depth : UInt32 → Nat

/-- The tree has a root, and from every inode it goes up to it. -/
structure Hierarchy.Grounded (T : Hierarchy) : Prop where
  root : T.linked rootInode
  top : T.parent rootInode = rootInode
  up : ∀ x, T.linked x → x ≠ rootInode → T.linked (T.parent x) ∧ T.depth (T.parent x) < T.depth x

theorem Hierarchy.Grounded.linked_parent {T : Hierarchy} (h : T.Grounded) {x : UInt32} (hx : T.linked x) :
    T.linked (T.parent x) := by
  by_cases h0 : x = rootInode
  · rw [h0, h.top]
    exact h.root
  · exact (h.up x hx h0).1

namespace Pool

/-- What `name` stands for in directory `d`. -/
def child (P : Pool) (d : UInt32) (name : String) : Option UInt32 :=
  (P.nodes d).bind fun n => if n.record.isDirectory then n.child name else none

/-- Whether a directory is stored under `x`. -/
def isDirectory (P : Pool) (x : UInt32) : Bool := (P.nodes x).any (·.record.isDirectory)

/-- If a directory is stored under `x`, its table is in order. -/
def TidyAt (P : Pool) (x : UInt32) : Prop :=
  ∀ n, P.nodes x = some n → n.record.isDirectory = true → n.Tidy

/-- The entry `name` of directory `d` is one of the two of its own. -/
def Own (T : Hierarchy) (d : UInt32) (name : String) (x : UInt32) : Prop :=
  (name = "." ∧ x = d) ∨ (name = ".." ∧ x = T.parent d)

/-- The pool has the tree `T`. -/
structure Rooted (P : Pool) (T : Hierarchy) : Prop where
  root : T.linked rootInode
  top : T.parent rootInode = rootInode
  rootDirectory : P.isDirectory rootInode = true
  stored : ∀ x, T.linked x → P.nodes x ≠ none
  tidy : ∀ x, T.linked x → P.TidyAt x
  up : ∀ x, T.linked x → x ≠ rootInode → T.linked (T.parent x) ∧ T.depth (T.parent x) < T.depth x ∧
    P.child (T.parent x) (T.name x) = some x
  down : ∀ d name x, T.linked d → P.child d name = some x →
    Own T d name x ∨ (T.linked x ∧ x ≠ rootInode ∧ T.parent x = d ∧ T.name x = name)

/-- Every directory has the two entries of its own. -/
def Dotted (P : Pool) (T : Hierarchy) : Prop :=
  ∀ d, T.linked d → P.isDirectory d = true →
    P.child d "." = some d ∧ P.child d ".." = some (T.parent d)

/-- What is stored under `x` looks the same to a directory walk. -/
structure Alike (P P' : Pool) (x : UInt32) : Prop where
  stored : P.nodes x ≠ none → P'.nodes x ≠ none
  isDirectory : P'.isDirectory x = P.isDirectory x
  child : P'.child x = P.child x
  tidy : P.TidyAt x → P'.TidyAt x

variable {P P' P'' : Pool} {T : Hierarchy} {x y d b : UInt32} {n n' : Node} {name : String}

/-! ## Looking at a pool -/

theorem child_of_node (hn : P.nodes d = some n) (hdir : n.record.isDirectory = true) :
    P.child d = n.child := by
  funext name
  simp [child, hn, hdir]

theorem isDirectory_of_node (hn : P.nodes x = some n) : P.isDirectory x = n.record.isDirectory := by
  simp [isDirectory, hn]

theorem isDirectory_node (h : P.isDirectory x = true) :
    ∃ n, P.nodes x = some n ∧ n.record.isDirectory = true := by
  simpa [isDirectory, Option.any_eq_true] using h

theorem isDirectory_of_child (h : P.child d name = some x) : P.isDirectory d = true := by
  obtain ⟨n, hn, hc⟩ := Option.bind_eq_some_iff.1 h
  rw [isDirectory_of_node hn]
  by_contra hdir
  rw [if_neg hdir] at hc
  cases hc

theorem nulFree_of_child (h : P.child d name = some x) : NulFree name := by
  obtain ⟨n, hn, hdir⟩ := isDirectory_node (isDirectory_of_child h)
  rw [child_of_node hn hdir] at h
  exact Node.nulFree_of_child h

theorem Alike.of_eq (h : P'.nodes x = P.nodes x) : Alike P P' x := by
  refine ⟨fun hs => by rwa [h], ?_, ?_, fun ht n hn => ht n (h ▸ hn)⟩
  · simp only [Pool.isDirectory, h]
  · funext name
    simp only [Pool.child, h]

/-- Another node looks the same if it is of the same kind and, as a directory, has the same names. -/
theorem Alike.of_node (hn : P.nodes x = some n) (hn' : P'.nodes x = some n')
    (hdir : n'.record.isDirectory = n.record.isDirectory)
    (h : n.record.isDirectory = true → n.Tidy → n'.Tidy ∧ n'.child = n.child)
    (ht : P.TidyAt x) : Alike P P' x := by
  refine ⟨fun _ => by simp [hn'], ?_, ?_, fun _ m hm hmdir => ?_⟩
  · rw [isDirectory_of_node hn, isDirectory_of_node hn', hdir]
  · -- A file has no names in any case.
    cases hk : n.record.isDirectory with
    | true => rw [child_of_node hn hk, child_of_node hn' (hdir.trans hk), (h hk (ht n hn hk)).2]
    | false =>
      funext name
      simp [Pool.child, hn, hn', hdir, hk]
  · rw [hn'] at hm
    cases hm
    rw [hdir] at hmdir
    exact (h hmdir (ht n hn hmdir)).1

/-! ## What a rooted pool is like -/

theorem Rooted.grounded (h : P.Rooted T) : T.Grounded :=
  ⟨h.root, h.top, fun x hx h0 => ⟨(h.up x hx h0).1, (h.up x hx h0).2.1⟩⟩

theorem Rooted.linked_parent (h : P.Rooted T) (hx : T.linked x) : T.linked (T.parent x) :=
  h.grounded.linked_parent hx

/-- Every entry of a directory in the tree stands for an inode in the tree. -/
theorem Rooted.linked_child (h : P.Rooted T) (hd : T.linked d) (hc : P.child d name = some x) :
    T.linked x := by
  rcases h.down d name x hd hc with (⟨-, rfl⟩ | ⟨-, rfl⟩) | ⟨hx, -⟩
  · exact hd
  · exact h.linked_parent hd
  · exact hx

/-- A name that is not one of the two of every directory is where the inode has its place. -/
theorem Rooted.place (h : P.Rooted T) (hd : T.linked d) (hc : P.child d name = some x)
    (hname : isDotName name = false) :
    T.linked x ∧ x ≠ rootInode ∧ T.parent x = d ∧ T.name x = name := by
  rcases h.down d name x hd hc with (⟨rfl, -⟩ | ⟨rfl, -⟩) | hx
  · exact absurd hname (by decide)
  · exact absurd hname (by decide)
  · exact hx

theorem Rooted.parent_ne (h : P.Rooted T) (hx : T.linked x) (h0 : x ≠ rootInode) : T.parent x ≠ x := by
  intro he
  have := (h.up x hx h0).2.1
  rw [he] at this
  exact Nat.lt_irrefl _ this

/-- A pool whose directories look the same has the same tree. -/
theorem Rooted.of_alike (h : P.Rooted T) (ha : ∀ x, T.linked x → Alike P P' x) : P'.Rooted T where
  root := h.root
  top := h.top
  rootDirectory := by rw [(ha _ h.root).isDirectory, h.rootDirectory]
  stored x hx := (ha x hx).stored (h.stored x hx)
  tidy x hx := (ha x hx).tidy (h.tidy x hx)
  up x hx h0 := by
    obtain ⟨hp, hlt, hc⟩ := h.up x hx h0
    exact ⟨hp, hlt, by rw [(ha _ hp).child, hc]⟩
  down d name x hd hc := h.down d name x hd (by rwa [(ha d hd).child] at hc)

theorem Dotted.of_alike (h : P.Dotted T) (ha : ∀ x, T.linked x → Alike P P' x) : P'.Dotted T := by
  intro d hd hdir
  rw [(ha d hd).isDirectory] at hdir
  rw [(ha d hd).child]
  exact h d hd hdir

/-! ## Linking -/

end Pool

/-- The tree with inode `b` linked as `name` in directory `d`. -/
def Hierarchy.link (T : Hierarchy) (b d : UInt32) (name : String) : Hierarchy where
  linked x := T.linked x ∨ x = b
  parent := Function.update T.parent b d
  name := Function.update T.name b name
  depth := Function.update T.depth b (T.depth d + 1)

namespace Pool

variable {P P' : Pool} {T : Hierarchy} {x y d b : UInt32} {name : String}

/-- What linking a new inode does to the directories. -/
structure Grafted (P : Pool) (T : Hierarchy) (b d : UInt32) (name : String) (P' : Pool) : Prop where
  inside : T.linked d
  fresh : ¬T.linked b
  directory : P.isDirectory d = true
  free : P.child d name = none
  others : ∀ x, T.linked x → x ≠ d → Alike P P' x
  isDirectory : P'.isDirectory d = true
  tidy : P'.TidyAt d
  child : P'.child d = Function.update (P.child d) name (some b)
  stored : P'.nodes b ≠ none
  freshTidy : P'.TidyAt b
  /-- A new directory has no entries but the two of its own. -/
  own : ∀ nm x, P'.child b nm = some x → (nm = "." ∧ x = b) ∨ (nm = ".." ∧ x = d)

theorem Grafted.parent_eq (hg : Grafted P T b d name P') (hx : T.linked x) :
    (T.link b d name).parent x = T.parent x := by
  refine Function.update_of_ne ?_ _ _
  rintro rfl
  exact hg.fresh hx

theorem Rooted.link (h : P.Rooted T) (hg : Grafted P T b d name P') : P'.Rooted (T.link b d name) := by
  have hne (x : UInt32) (hx : T.linked x) : x ≠ b := by
    rintro rfl
    exact hg.fresh hx
  have hb0 : b ≠ rootInode := (hne _ h.root).symm
  -- A name of the directory that gains one is another name, since the new one was free.
  have hup (x : UInt32) (hx : T.linked x) (h0 : x ≠ rootInode) :
      P'.child (T.parent x) (T.name x) = some x := by
    obtain ⟨hp, -, hc⟩ := h.up x hx h0
    by_cases hd : T.parent x = d
    · rw [hd] at hc ⊢
      rw [hg.child, Function.update_of_ne, hc]
      intro he
      rw [he, hg.free] at hc
      cases hc
    · rw [(hg.others _ hp hd).child, hc]
  refine ⟨.inl h.root, ?_, ?_, ?_, ?_, ?_, ?_⟩
  · rw [hg.parent_eq h.root, h.top]
  · by_cases hd : rootInode = d
    · rw [hd]
      exact hg.isDirectory
    · rw [(hg.others _ h.root hd).isDirectory, h.rootDirectory]
  · rintro x (hx | rfl)
    · by_cases hd : x = d
      · obtain ⟨n, hn, -⟩ := isDirectory_node hg.isDirectory
        simp [hd, hn]
      · exact (hg.others x hx hd).stored (h.stored x hx)
    · exact hg.stored
  · rintro x (hx | rfl)
    · by_cases hd : x = d
      · rw [hd]
        exact hg.tidy
      · exact (hg.others x hx hd).tidy (h.tidy x hx)
    · exact hg.freshTidy
  · rintro x (hx | rfl) h0
    · obtain ⟨hp, hlt, -⟩ := h.up x hx h0
      rw [hg.parent_eq hx]
      refine ⟨.inl hp, ?_, ?_⟩
      · simp only [Hierarchy.link, Function.update_of_ne (hne x hx), Function.update_of_ne (hne _ hp)]
        exact hlt
      · simp only [Hierarchy.link, Function.update_of_ne (hne x hx)]
        exact hup x hx h0
    · simp only [Hierarchy.link, Function.update_self]
      refine ⟨.inl hg.inside, ?_, ?_⟩
      · rw [Function.update_of_ne (hne d hg.inside)]
        exact Nat.lt_succ_self _
      · rw [hg.child, Function.update_self]
  · rintro d' nm x (hd' | rfl) hc
    · -- Every name but the new one has been in its directory before.
      have hold (hc : P.child d' nm = some x) : Own (T.link b d name) d' nm x ∨
          ((T.link b d name).linked x ∧ x ≠ rootInode ∧ (T.link b d name).parent x = d' ∧
            (T.link b d name).name x = nm) := by
        rcases h.down d' nm x hd' hc with hown | ⟨hx, h0, hp, hn⟩
        · refine .inl ?_
          rw [Own, hg.parent_eq hd']
          exact hown
        · refine .inr ⟨.inl hx, h0, ?_, ?_⟩
          · rw [hg.parent_eq hx, hp]
          · simp only [Hierarchy.link, Function.update_of_ne (hne x hx), hn]
      by_cases hd : d' = d
      · subst hd
        rw [hg.child] at hc
        by_cases hnm : nm = name
        · subst hnm
          rw [Function.update_self] at hc
          cases hc
          exact .inr ⟨.inr rfl, hb0, Function.update_self .., Function.update_self ..⟩
        · rw [Function.update_of_ne hnm] at hc
          exact hold hc
      · rw [(hg.others d' hd' hd).child] at hc
        exact hold hc
    · refine .inl ?_
      simp only [Own, Hierarchy.link, Function.update_self]
      exact hg.own nm x hc

/-- Linking an inode keeps the names of dots right, if the new inode has its own. -/
theorem Dotted.link (h : P.Dotted T) (hg : Grafted P T b d name P')
    (hdots : P'.isDirectory b = true → P'.child b "." = some b ∧ P'.child b ".." = some d) :
    P'.Dotted (T.link b d name) := by
  rintro x (hx | rfl) hdir
  · rw [hg.parent_eq hx]
    by_cases hd : x = d
    · subst hd
      have hdots' := h x hx hg.directory
      rw [hg.child]
      -- The name was free, so it is none of the two names of dots.
      have hne (nm : String) (y : UInt32) (hy : P.child x nm = some y) : nm ≠ name := by
        rintro rfl
        rw [hg.free] at hy
        cases hy
      rw [Function.update_of_ne (hne _ _ hdots'.1), Function.update_of_ne (hne _ _ hdots'.2)]
      exact hdots'
    · rw [(hg.others x hx hd).isDirectory] at hdir
      rw [(hg.others x hx hd).child]
      exact h x hx hdir
  · simp only [Hierarchy.link, Function.update_self]
    exact hdots hdir

/-! ## Unlinking -/

end Pool

/-- Inode `y` is `x` or is in the tree below it. -/
def Hierarchy.Below (T : Hierarchy) (x y : UInt32) : Prop := ∃ k, T.parent^[k] y = x

/-- The tree without inode `x` and all that is below it. -/
def Hierarchy.prune (T : Hierarchy) (x : UInt32) : Hierarchy :=
  { T with linked := fun y => T.linked y ∧ ¬T.Below x y }

namespace Hierarchy

variable {T : Hierarchy} {x y : UInt32}

theorem below_of_parent (h : T.Below x (T.parent y)) : T.Below x y := by
  obtain ⟨k, hk⟩ := h
  exact ⟨k + 1, hk⟩

theorem Grounded.not_below_root (h : T.Grounded) (hx : x ≠ rootInode) : ¬T.Below x rootInode := by
  rintro ⟨k, hk⟩
  rw [Function.iterate_fixed h.top] at hk
  exact hx hk.symm

theorem Grounded.depth_of_below (h : T.Grounded) (hx : x ≠ rootInode) (hy : T.linked y)
    (hb : T.Below x y) : T.depth x ≤ T.depth y := by
  obtain ⟨k, hk⟩ := hb
  induction k generalizing y with
  | zero => exact Nat.le_of_eq (congrArg T.depth hk).symm
  | succ k ih =>
    have hy0 : y ≠ rootInode := by
      rintro rfl
      exact h.not_below_root hx ⟨k + 1, hk⟩
    obtain ⟨hp, hlt⟩ := h.up y hy hy0
    exact Nat.le_of_lt (Nat.lt_of_le_of_lt (ih hp hk) hlt)

/-- The directory that an inode is in is not below it. -/
theorem Grounded.not_below_parent (h : T.Grounded) (hx : T.linked x) (h0 : x ≠ rootInode) :
    ¬T.Below x (T.parent x) := by
  intro hb
  obtain ⟨hp, hlt⟩ := h.up x hx h0
  have hle := h.depth_of_below h0 hp hb
  omega

theorem Grounded.prune (h : T.Grounded) (hx : x ≠ rootInode) : (T.prune x).Grounded where
  root := ⟨h.root, h.not_below_root hx⟩
  top := h.top
  up y hy h0 := by
    obtain ⟨hp, hlt⟩ := h.up y hy.1 h0
    exact ⟨⟨hp, fun hb => hy.2 (below_of_parent hb)⟩, hlt⟩

end Hierarchy

namespace Pool

variable {P P' : Pool} {T : Hierarchy} {x y d : UInt32} {name : String}

/-- What unlinking an inode does to the directories. -/
structure Cut (P : Pool) (T : Hierarchy) (x d : UInt32) (name : String) (P' : Pool) : Prop where
  inside : T.linked d
  entry : P.child d name = some x
  named : isDotName name = false
  others : ∀ y, T.linked y → y ≠ d → y ≠ x → Alike P P' y
  isDirectory : P'.isDirectory d = true
  tidy : P'.TidyAt d
  child : P'.child d = Function.update (P.child d) name none

theorem Cut.not_below (h : P.Rooted T) (hc : Cut P T x d name P') : ¬T.Below x d := by
  obtain ⟨hx, h0, rfl, -⟩ := h.place hc.inside hc.entry hc.named
  exact h.grounded.not_below_parent hx h0

theorem Rooted.prune (h : P.Rooted T) (hc : Cut P T x d name P') : P'.Rooted (T.prune x) := by
  obtain ⟨hx, h0, hpx, hnx⟩ := h.place hc.inside hc.entry hc.named
  have hdb := hc.not_below h
  have hself (y : UInt32) (hy : ¬T.Below x y) : y ≠ x := by
    rintro rfl
    exact hy ⟨0, rfl⟩
  have halike (y : UInt32) (hy : T.linked y) (hb : ¬T.Below x y) (hd : y ≠ d) : Alike P P' y :=
    hc.others y hy hd (hself y hb)
  refine ⟨⟨h.root, h.grounded.not_below_root h0⟩, h.top, ?_, ?_, ?_, ?_, ?_⟩
  · by_cases hd : rootInode = d
    · rw [hd]
      exact hc.isDirectory
    · rw [(halike _ h.root (h.grounded.not_below_root h0) hd).isDirectory, h.rootDirectory]
  · rintro y ⟨hy, hb⟩
    by_cases hd : y = d
    · obtain ⟨n, hn, -⟩ := isDirectory_node hc.isDirectory
      simp [hd, hn]
    · exact (halike y hy hb hd).stored (h.stored y hy)
  · rintro y ⟨hy, hb⟩
    by_cases hd : y = d
    · rw [hd]
      exact hc.tidy
    · exact (halike y hy hb hd).tidy (h.tidy y hy)
  · rintro y ⟨hy, hb⟩ hy0
    obtain ⟨hp, hlt, hch⟩ := h.up y hy hy0
    have hpb : ¬T.Below x (T.parent y) := fun hb' => hb (Hierarchy.below_of_parent hb')
    refine ⟨⟨hp, hpb⟩, hlt, ?_⟩
    show P'.child (T.parent y) (T.name y) = some y
    by_cases hd : T.parent y = d
    · rw [hd] at hch ⊢
      rw [hc.child, Function.update_of_ne, hch]
      intro he
      rw [he, hc.entry] at hch
      cases hch
      exact hb ⟨0, rfl⟩
    · rw [(halike _ hp hpb hd).child, hch]
  · rintro d' nm y ⟨hd', hb'⟩ hch
    -- An entry that is still there was there before, and is not the one that went.
    have hold : P.child d' nm = some y ∧ ¬(d' = d ∧ nm = name) := by
      by_cases hd : d' = d
      · subst hd
        rw [hc.child] at hch
        by_cases hnm : nm = name
        · rw [hnm, Function.update_self] at hch
          cases hch
        · rw [Function.update_of_ne hnm] at hch
          exact ⟨hch, fun he => hnm he.2⟩
      · rw [(halike d' hd' hb' hd).child] at hch
        exact ⟨hch, fun he => hd he.1⟩
    rcases h.down d' nm y hd' hold.1 with hown | ⟨hy, hy0, hp, hn⟩
    · exact .inl hown
    · refine .inr ⟨⟨hy, ?_⟩, hy0, hp, hn⟩
      rintro ⟨k, hk⟩
      cases k with
      | zero =>
        -- Then the entry is the one of `x` itself.
        obtain rfl : y = x := hk
        exact hold.2 ⟨hp.symm.trans hpx, hn.symm.trans hnx⟩
      | succ k =>
        rw [Function.iterate_succ_apply, hp] at hk
        exact hb' ⟨k, hk⟩

/-- Where each directory has the two entries of its own, nothing is below an inode without other
entries. -/
theorem Rooted.below_iff (h : P.Rooted T) (hdots : P.Dotted T) (hx : T.linked x) (h0 : x ≠ rootInode)
    (hempty : ∀ nm z, P.child x nm = some z → isDotName nm = true) (hy : T.linked y) :
    T.Below x y ↔ y = x := by
  refine ⟨fun hb => ?_, fun he => ⟨0, he⟩⟩
  obtain ⟨k, hk⟩ := hb
  -- By induction on the number of steps: the last of them would be along a name, and there are only the two
  -- that lead to the directory itself and upwards.
  induction k generalizing y with
  | zero => exact hk
  | succ k ih =>
    have hy0 : y ≠ rootInode := by
      rintro rfl
      exact h.grounded.not_below_root h0 ⟨k + 1, hk⟩
    obtain ⟨hp, hlt, hc⟩ := h.up y hy hy0
    have hpx : T.parent y = x := ih hp hk
    rw [hpx] at hc hlt
    obtain ⟨hdot, hdotdot⟩ := hdots x hx (isDirectory_of_child hc)
    have hname := hempty _ _ hc
    simp only [isDotName, Bool.or_eq_true, beq_iff_eq] at hname
    rcases hname with hn | hn
    · rw [hn, hdot] at hc
      cases hc
      rfl
    · rw [hn, hdotdot] at hc
      cases hc
      have := (h.up x hx h0).2.1
      omega

/-- Unlinking an inode keeps the names of dots right. -/
theorem Dotted.prune (h : P.Dotted T) (hc : Cut P T x d name P') :
    P'.Dotted (T.prune x) := by
  rintro y ⟨hy, hb⟩ hdir
  have hself : y ≠ x := by
    rintro rfl
    exact hb ⟨0, rfl⟩
  show P'.child y "." = some y ∧ P'.child y ".." = some (T.parent y)
  by_cases hd : y = d
  · subst hd
    have hdots := h y hy (isDirectory_of_child hc.entry)
    -- The name that goes is none of the two names of dots.
    have hne (nm : String) (hnm : isDotName nm = true) : nm ≠ name := by
      rintro rfl
      rw [hc.named] at hnm
      cases hnm
    rw [hc.child, Function.update_of_ne (hne "." (by decide)), Function.update_of_ne (hne ".." (by decide))]
    exact hdots
  · rw [(hc.others y hy hd hself).isDirectory] at hdir
    rw [(hc.others y hy hd hself).child]
    exact h y hy hdir

end Pool

end InodeVolume
