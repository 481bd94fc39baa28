import InodeVolume.HostTree
import InodeVolume.Proofs.Paths
import InodeVolume.Proofs.Supply
import Mathlib.Algebra.GroupWithZero.Nat

/-!
# Listings of a host

What packing copies of a listing is told by its items (`HostTree.items`): the place of each file and each
directory that it copies, and what it puts there. A host that lists the same tree in another order, at any
depth, gives the same items in another order (`Reordered.items_perm`).

Whether there is room for all items is a matter of how many there are and how long they are (`Fits`), so it
is the same in whatever order they come (`Fits.perm`). They can be copied one part after the other: there is
room for all exactly if there is for the first part and, after that, for the second (`Fits.append_iff`), and for
what is in a directory exactly if there is after the directory has been made (`Fits.within_iff`).
-/

namespace InodeVolume

namespace HostTree

/-- What packing puts at a place. -/
inductive Copied where
  | file (data : ByteArray)
  /-- A directory that gets so many entries. -/
  | directory (entries : Nat)

/-- A place below the directory that is packed, and what packing puts there. -/
abbrev Item := List String × Copied

namespace Copied

/-- The contents of a file. A directory has none. -/
def data : Copied → Option ByteArray
  | .file data => some data
  | .directory _ => none

/-- How long the contents are. The table of a directory has the two entries of its own too. -/
def size : Copied → Nat
  | .file data => data.size
  | .directory entries => slotSize * (2 + entries)

/-- How many blocks are taken: by the contents with their tables, and by the record. -/
def blocks (c : Copied) : Nat := 1 + Record.totalBlocks c.size

theorem size_directory (entries : Nat) : size (.directory entries) = slotSize * (2 + entries) := rfl

end Copied

/-- How many items are entries of the directory itself. -/
def tops (l : List Item) : Nat := l.countP fun p => p.1.length == 1

/-- How many blocks the items take. -/
def blocks (l : List Item) : Nat := (l.map fun p => p.2.blocks).sum

/-- The item as it is seen from the directory above. -/
def Item.under (name : String) (p : Item) : Item := (name :: p.1, p.2)

/-- The items of a directory that holds `l`. -/
def within (name : String) (l : List Item) : List Item :=
  ([name], .directory (tops l)) :: l.map (Item.under name)

/-- What packing a listing copies: its files and directories with names that the volume can hold, and what is
in these directories. -/
def items : HostTree → List Item
  | .empty => []
  | .link _ rest => items rest
  | .file name data rest =>
    match fittingName name with
    | none => items rest
    | some name => ([name], .file data) :: items rest
  | .directory name inside rest =>
    match fittingName name with
    | none => items rest
    | some name => within name (items inside) ++ items rest

/-- A tree of the host has at this place a file with these contents or, if there are none, a directory. -/
def Has : HostTree → List String → Option ByteArray → Prop
  | .empty, _, _ => False
  | .link _ rest, place, data => rest.Has place data
  | .file name contents rest, place, data =>
    (∃ nm, name = some nm ∧ place = [nm] ∧ data = some contents) ∨ rest.Has place data
  | .directory name inside rest, place, data =>
    (∃ nm, name = some nm ∧ ((place = [nm] ∧ data = none) ∨
      ∃ below, place = nm :: below ∧ inside.Has below data)) ∨ rest.Has place data

/-- No place is listed twice, and the names are names of the host: not empty, without separators and zero
characters, and other than the two of every directory. -/
structure Proper (l : List Item) : Prop where
  named : ∀ p ∈ l, ∀ name ∈ p.1, name ≠ "" ∧ Path.Word name.toList ∧ NulFree name ∧ isDotName name = false
  once : (l.map Prod.fst).Nodup

/-! ## Other orders -/

/-- One entry of a listing. -/
inductive Entry where
  | file (name : Option String) (data : ByteArray)
  | directory (name : Option String) (inside : HostTree)
  | link (name : Option String)

/-- The listing that begins with this entry. -/
def Entry.cons : Entry → HostTree → HostTree
  | .file name data, rest => .file name data rest
  | .directory name inside, rest => .directory name inside rest
  | .link name, rest => .link name rest

/-- What packing copies of an entry. -/
def Entry.items (a : Entry) : List Item := HostTree.items (a.cons .empty)

/-- Listings of one tree, in which the entries of its directories come in other orders. -/
inductive Reordered : HostTree → HostTree → Prop
  | refl (tree : HostTree) : Reordered tree tree
  | swap (a b : Entry) (rest : HostTree) : Reordered (a.cons (b.cons rest)) (b.cons (a.cons rest))
  | cons (a : Entry) {rest rest' : HostTree} (h : Reordered rest rest') : Reordered (a.cons rest) (a.cons rest')
  | inside (name : Option String) {inside inside' : HostTree} (rest : HostTree) (h : Reordered inside inside') :
    Reordered (.directory name inside rest) (.directory name inside' rest)
  | trans {a b c : HostTree} (h : Reordered a b) (h' : Reordered b c) : Reordered a c

variable {l l' l₁ l₂ : List Item} {tree tree' : HostTree} {name place : String}
  {denials slots names free free' : Nat}

theorem tops_perm (h : l.Perm l') : tops l = tops l' := h.countP_eq _

theorem blocks_perm (h : l.Perm l') : blocks l = blocks l' := (h.map _).sum_nat

theorem items_cons (a : Entry) (rest : HostTree) :
    items (a.cons rest) = a.items ++ items rest := by
  cases a with
  | file name data =>
    simp only [Entry.items, Entry.cons, items]
    cases fittingName name <;> simp
  | directory name inside =>
    simp only [Entry.items, Entry.cons, items]
    cases fittingName name <;> simp
  | link name => simp [Entry.items, Entry.cons, items]

/-- Listings of one tree have the same items. -/
theorem Reordered.items_perm (h : Reordered tree tree') : (items tree).Perm (items tree') := by
  -- By induction on the steps of reordering. A swap moves two blocks of items past each other.
  induction h with
  | refl tree => exact .refl _
  | swap a b rest =>
    rw [items_cons a, items_cons b, items_cons b, items_cons a rest]
    exact List.perm_append_comm_assoc ..
  | cons a _ ih =>
    rw [items_cons, items_cons]
    exact ih.append_left _
  | inside name rest _ ih =>
    simp only [items]
    cases fittingName name with
    | none => exact .refl _
    | some name =>
      simp only [within, tops_perm ih]
      exact ((ih.map _).cons _).append_right _
  | trans _ _ ih ih' => exact ih.trans ih'

/-! ## Places -/

theorem fittingName_eq_some {raw : Option String} :
    fittingName raw = some name ↔ raw = some name ∧ name.utf8ByteSize ≤ nameMax := by
  simp [fittingName, Option.filter_eq_some_iff]

theorem mem_within {p : Item} : p ∈ within name l ↔
    p = ([name], .directory (tops l)) ∨ ∃ q ∈ l, q.under name = p := by
  simp [within]

theorem mem_items_file {raw : Option String} {data : ByteArray} {p : Item} :
    p ∈ items (.file raw data tree) ↔
      (∃ nm, fittingName raw = some nm ∧ p = ([nm], .file data)) ∨ p ∈ items tree := by
  rw [items]
  cases fittingName raw <;> simp

theorem mem_items_directory {raw : Option String} {p : Item} : p ∈ items (.directory raw tree tree') ↔
    (∃ nm, fittingName raw = some nm ∧ p ∈ within nm (items tree)) ∨ p ∈ items tree' := by
  rw [items]
  cases fittingName raw <;> simp

/-- Every item has a place below the directory. -/
theorem ne_nil_of_mem_items {p : Item} (h : p ∈ items tree) : p.1 ≠ [] := by
  -- By induction on the tree. A file has its own name for a path, and what lies in a directory has one
  -- more.
  induction tree with
  | empty => cases h
  | link name rest ih => exact ih h
  | file name data rest ih =>
    rcases mem_items_file.1 h with ⟨nm, -, rfl⟩ | h
    · simp
    · exact ih h
  | directory name inside rest _ ih =>
    rcases mem_items_directory.1 h with ⟨nm, -, hp⟩ | h
    · rcases mem_within.1 hp with rfl | ⟨q, -, rfl⟩
      · simp
      · simp [Item.under]
    · exact ih h

/-- The items are what the tree has at the places all of whose names the volume can hold. -/
theorem exists_item_iff {place : List String} {data : Option ByteArray} :
    (∃ p ∈ items tree, p.1 = place ∧ p.2.data = data) ↔
      tree.Has place data ∧ ∀ nm ∈ place, nm.utf8ByteSize ≤ nameMax := by
  -- By induction on the tree. An item comes from the first entry or from the entries after it, as a place
  -- does.
  induction tree generalizing place with
  | empty => simp [items, Has]
  | link name rest ih => exact ih
  | file name contents rest ih =>
    simp only [mem_items_file, or_and_right, exists_or, Has, ih]
    refine or_congr_left ?_
    constructor
    · rintro ⟨p, ⟨nm, hnm, rfl⟩, rfl, rfl⟩
      obtain ⟨rfl, hfits⟩ := fittingName_eq_some.1 hnm
      exact ⟨⟨nm, rfl, rfl, rfl⟩, by simpa using hfits⟩
    · rintro ⟨⟨nm, rfl, rfl, rfl⟩, hfits⟩
      exact ⟨_, ⟨nm, fittingName_eq_some.2 ⟨rfl, by simpa using hfits⟩, rfl⟩, rfl, rfl⟩
  | directory name inside rest ih ih' =>
    simp only [mem_items_directory, or_and_right, exists_or, Has, ih']
    refine or_congr_left ?_
    constructor
    · rintro ⟨p, ⟨nm, hnm, hp⟩, rfl, rfl⟩
      obtain ⟨rfl, hfits⟩ := fittingName_eq_some.1 hnm
      rcases mem_within.1 hp with rfl | ⟨q, hq, rfl⟩
      · exact ⟨⟨nm, rfl, .inl ⟨rfl, rfl⟩⟩, by simpa using hfits⟩
      · obtain ⟨hhas, hbelow⟩ := ih.1 ⟨q, hq, rfl, rfl⟩
        exact ⟨⟨nm, rfl, .inr ⟨q.1, rfl, hhas⟩⟩, by simpa [Item.under] using ⟨hfits, hbelow⟩⟩
    · rintro ⟨⟨nm, rfl, ⟨rfl, rfl⟩ | ⟨below, rfl, hhas⟩⟩, hfits⟩
      · exact ⟨_, ⟨nm, fittingName_eq_some.2 ⟨rfl, by simpa using hfits⟩, mem_within.2 (.inl rfl)⟩, rfl, rfl⟩
      · obtain ⟨hname, hbelow⟩ := List.forall_mem_cons.1 hfits
        obtain ⟨q, hq, rfl, rfl⟩ := ih.2 ⟨hhas, hbelow⟩
        exact ⟨q.under nm, ⟨nm, fittingName_eq_some.2 ⟨rfl, hname⟩, mem_within.2 (.inr ⟨q, hq, rfl⟩)⟩, rfl, rfl⟩

theorem Proper.sublist (h : Proper l) (hs : l'.Sublist l) : Proper l' :=
  ⟨fun p hp => h.named p (hs.subset hp), h.once.sublist (hs.map _)⟩

theorem Proper.perm (h : Proper l) (hp : l.Perm l') : Proper l' :=
  ⟨fun p hm => h.named p (hp.mem_iff.2 hm), (hp.map _).nodup_iff.1 h.once⟩

theorem Proper.of_under (h : Proper (l.map (Item.under name))) : Proper l := by
  constructor
  · intro p hp nm hnm
    exact h.named _ (List.mem_map_of_mem hp) nm (List.mem_cons_of_mem name hnm)
  · have honce := h.once
    rw [List.map_map] at honce
    have heq : (Prod.fst ∘ Item.under name) = (name :: ·) ∘ (Prod.fst : Item → List String) := rfl
    rw [heq, ← List.map_map] at honce
    exact honce.of_map _

theorem tops_append (l l' : List Item) : tops (l ++ l') = tops l + tops l' := List.countP_append

theorem blocks_append (l l' : List Item) : blocks (l ++ l') = blocks l + blocks l' := by
  simp [blocks]

/-- What is in a directory is no entry of the one above. -/
theorem tops_under (name : String) (h : ∀ p ∈ l, p.1 ≠ []) : tops (l.map (Item.under name)) = 0 := by
  rw [tops, List.countP_eq_zero]
  intro p hp
  obtain ⟨q, hq, rfl⟩ := List.mem_map.1 hp
  simpa [Item.under] using h q hq

theorem blocks_under (name : String) (l : List Item) : blocks (l.map (Item.under name)) = blocks l := by
  simp [blocks, Item.under, Function.comp_def]

/-! ## Room -/

/-- There is room for the items in the directory at `place`, whose table has `slots` slots and `names` names,
which `denials` denials keep from being written, where `free` blocks are free. -/
structure Fits (place : String) (denials slots names free : Nat) (l : List Item) : Prop where
  short : ∀ p ∈ l, ∃ absolute, Path.toAbsolute (p.1.foldl Path.join place) "/" = .ok absolute
  small : ∀ p ∈ l, p.2.size ≤ maxFileSize
  writable : l ≠ [] → denials = 0
  table : slotSize * (names + tops l) ≤ maxFileSize
  /-- The items fit, and so do the blocks by which the table grows. -/
  space : blocks l + Record.totalBlocks (slotSize * max slots (names + tops l)) ≤
    free + Record.totalBlocks (slotSize * slots)

/-- Whether files fit does not depend on their order. -/
theorem Fits.perm (h : Fits place denials slots names free l) (hp : l.Perm l') :
    Fits place denials slots names free l' := by
  have htops := tops_perm hp.symm
  have hblocks := blocks_perm hp.symm
  constructor
  · intro p hm
    exact h.short p (hp.mem_iff.2 hm)
  · intro p hm
    exact h.small p (hp.mem_iff.2 hm)
  · intro hne
    apply h.writable
    rintro rfl
    exact hne hp.nil_eq.symm
  · rw [htops]
    exact h.table
  · rw [htops, hblocks]
    exact h.space

theorem table_mono (slots : Nat) {a b : Nat} (h : a ≤ b) :
    Record.totalBlocks (slotSize * max slots a) ≤ Record.totalBlocks (slotSize * max slots b) :=
  Record.totalBlocks_mono (Nat.mul_le_mul_left _ (max_le_max_left _ h))

/-- Where there is room for all there is for the first part. -/
theorem Fits.left (h : Fits place denials slots names free (l₁ ++ l₂)) :
    Fits place denials slots names free l₁ := by
  -- The first files need no more slots and no more blocks than all of them.
  have htable := h.table
  have hspace := h.space
  rw [tops_append] at htable hspace
  rw [blocks_append] at hspace
  have hle : names + tops l₁ ≤ names + (tops l₁ + tops l₂) := by omega
  have hmono := table_mono slots hle
  constructor
  · intro p hp
    exact h.short p (List.mem_append_left _ hp)
  · intro p hp
    exact h.small p (List.mem_append_left _ hp)
  · intro hne
    apply h.writable
    simp [hne]
  · exact (Nat.mul_le_mul_left _ hle).trans htable
  · omega

/-- Where there is room for the first part, there is for all exactly if there is for the second after that. -/
theorem Fits.append_iff (h : Fits place denials slots names free l₁)
    (hfree : free' + (blocks l₁ + Record.totalBlocks (slotSize * max slots (names + tops l₁))) =
      free + Record.totalBlocks (slotSize * slots)) :
    Fits place denials slots names free (l₁ ++ l₂) ↔
      Fits place denials (max slots (names + tops l₁)) (names + tops l₁) free' l₂ := by
  have hmax : max (max slots (names + tops l₁)) (names + tops l₁ + tops l₂) =
      max slots (names + (tops l₁ + tops l₂)) := by omega
  -- What is asked of single items splits by membership. The table and the room are asked for in sum, so the
  -- second part finds them as the first has left them.
  constructor
  · intro hall
    constructor
    · intro p hp
      exact hall.short p (List.mem_append_right _ hp)
    · intro p hp
      exact hall.small p (List.mem_append_right _ hp)
    · intro hne
      apply hall.writable
      simp [hne]
    · simpa [tops_append, Nat.add_assoc] using hall.table
    · have hspace := hall.space
      rw [tops_append, blocks_append] at hspace
      rw [hmax]
      omega
  · intro hrest
    constructor
    · intro p hp
      rcases List.mem_append.1 hp with hp | hp
      · exact h.short p hp
      · exact hrest.short p hp
    · intro p hp
      rcases List.mem_append.1 hp with hp | hp
      · exact h.small p hp
      · exact hrest.small p hp
    · intro hne
      by_cases hnil : l₁ = []
      · exact hrest.writable (by simpa [hnil] using hne)
      · exact h.writable hnil
    · simpa [tops_append, Nat.add_assoc] using hrest.table
    · have hspace := hrest.space
      rw [hmax] at hspace
      rw [tops_append, blocks_append]
      omega

theorem tops_within (h : ∀ p ∈ l, p.1 ≠ []) : tops (within name l) = 1 := by
  have htops := tops_under name h
  rw [tops] at htops
  simp [within, tops, htops]

theorem blocks_within (name : String) (l : List Item) :
    blocks (within name l) = Copied.blocks (.directory (tops l)) + blocks l := by
  rw [within, ← blocks_under name l]
  simp [blocks]

/-- The two entries of its own that a new directory has take one block. -/
theorem totalBlocks_new : Record.totalBlocks (slotSize * 2) = 1 := by decide

/-- A new directory takes the block of its record and that of its entries. -/
theorem blocks_within_nil : blocks (within name []) = 2 := by
  rw [blocks_within, Copied.blocks, Copied.size_directory]
  show 1 + Record.totalBlocks (slotSize * 2) + 0 = 2
  rw [totalBlocks_new]

/-- Where there is room for a directory with all that is in it there is for the directory. -/
theorem Fits.bare (hne : ∀ p ∈ l, p.1 ≠ []) (h : Fits place denials slots names free (within name l)) :
    Fits place denials slots names free (within name []) := by
  -- A directory without its files takes the same slot in the table above it.
  have htops : tops (within name []) = tops (within name l) := by
    rw [tops_within hne, tops_within (by simp)]
  constructor
  · intro p hp
    obtain rfl : p = ([name], .directory (tops [])) := by simpa [within] using hp
    exact h.short ([name], .directory (tops l)) (List.mem_cons_self)
  · intro p hp
    obtain rfl : p = ([name], .directory (tops [])) := by simpa [within] using hp
    show slotSize * 2 ≤ maxFileSize
    decide
  · exact fun _ => h.writable (by simp [within])
  · rw [htops]
    exact h.table
  · have hspace := h.space
    have hmono := Record.totalBlocks_mono (Nat.mul_le_mul_left slotSize (Nat.le_add_right 2 (tops l)))
    have hone := totalBlocks_new
    rw [blocks_within, Copied.blocks, Copied.size_directory] at hspace
    rw [htops, blocks_within_nil]
    omega

/-- Where there is room for a directory, there is for it with all that is in it exactly if there is for this
once the directory has been made. -/
theorem Fits.within_iff (hne : ∀ p ∈ l, p.1 ≠ [])
    (h : Fits place denials slots names free (within name []))
    (hfree : free' + (2 + Record.totalBlocks (slotSize * max slots (names + 1))) =
      free + Record.totalBlocks (slotSize * slots)) :
    Fits place denials slots names free (within name l) ↔ Fits (Path.join place name) 0 2 2 free' l := by
  have hmax : max 2 (2 + tops l) = 2 + tops l := by omega
  have hblocks := blocks_within name l
  rw [Copied.blocks, Copied.size_directory] at hblocks
  -- The directory is the first item of the whole. What is in it goes into a table of its own, which has two
  -- entries from the start.
  constructor
  · intro hall
    constructor
    · intro p hp
      exact hall.short (Item.under name p) (List.mem_cons_of_mem _ (List.mem_map_of_mem hp))
    · intro p hp
      exact hall.small (Item.under name p) (List.mem_cons_of_mem _ (List.mem_map_of_mem hp))
    · exact fun _ => rfl
    · have hsmall := hall.small ([name], .directory (tops l)) List.mem_cons_self
      rwa [Copied.size_directory] at hsmall
    · have hspace := hall.space
      rw [tops_within hne, hblocks] at hspace
      rw [hmax, totalBlocks_new]
      omega
  · intro hrest
    constructor
    · intro p hp
      rcases List.mem_cons.1 hp with rfl | hp
      · exact h.short ([name], .directory (tops [])) List.mem_cons_self
      · obtain ⟨q, hq, rfl⟩ := List.mem_map.1 hp
        exact hrest.short q hq
    · intro p hp
      rcases List.mem_cons.1 hp with rfl | hp
      · rw [Copied.size_directory]
        exact hrest.table
      · obtain ⟨q, hq, rfl⟩ := List.mem_map.1 hp
        exact hrest.small q hq
    · exact fun _ => h.writable (by simp [within])
    · have htable := h.table
      rw [tops_within (by simp)] at htable
      rw [tops_within hne]
      exact htable
    · have hspace := hrest.space
      rw [hmax, totalBlocks_new] at hspace
      rw [tops_within hne, hblocks]
      omega

end HostTree

end InodeVolume
