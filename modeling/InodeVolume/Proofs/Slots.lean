import InodeVolume.Directory.Table
import InodeVolume.Proofs.StoredInodes

/-!
# Slots of a directory

The contents of a directory seen as slots. `Node.slot n j` is slot `j`, `Node.find n name` is the place of
the slot in use for `name`, and `Node.child n name` the inode that it stands for.

* Looking through the table answers what is in the slots (`findSlot_tells`).
* A slot that is written completely is the new one, and the others stay (`slot_written`); a slot of which
  only the first bytes are written is in use exactly if it was before (`inUse_cut`), because the byte that
  says so comes last.
* Linking and unlinking a name change `child` at that name only (`Filled.linked`, `unlinked`).
-/

namespace InodeVolume

/-! ## Names that survive being stored -/

/-- A text that can be kept in a slot without being cut. -/
def NulFree (s : String) : Prop := Char.ofNat 0 ∉ s.toList

instance (s : String) : Decidable (NulFree s) := inferInstanceAs (Decidable (Char.ofNat 0 ∉ s.toList))

theorem zero_not_mem_utf8EncodeChar {c : Char} (h : c ≠ Char.ofNat 0) :
    (0 : UInt8) ∉ String.utf8EncodeChar c := by
  have hpos : c.val.toNat ≠ 0 := by
    intro h0
    apply h
    apply Char.ext
    apply UInt32.toNat_inj.1
    simpa using h0
  have hne (k : Nat) (h1 : 0 < k) (h2 : k < 256) : (0 : UInt8) ≠ UInt8.ofNat k := by
    intro he
    have := congrArg UInt8.toNat he
    simp only [UInt8.toNat_ofNat', UInt8.toNat_zero] at this
    omega
  -- One case for each number of bytes that a character can take.
  unfold String.utf8EncodeChar
  dsimp only
  split
  · simp only [List.mem_singleton]
    exact hne _ (by omega) (by omega)
  · split
    · simp only [List.mem_cons, List.not_mem_nil, or_false, not_or]
      exact ⟨hne _ (by omega) (by omega), hne _ (by omega) (by omega)⟩
    · split
      · simp only [List.mem_cons, List.not_mem_nil, or_false, not_or]
        exact ⟨hne _ (by omega) (by omega), hne _ (by omega) (by omega), hne _ (by omega) (by omega)⟩
      · simp only [List.mem_cons, List.not_mem_nil, or_false, not_or]
        exact ⟨hne _ (by omega) (by omega), hne _ (by omega) (by omega), hne _ (by omega) (by omega),
          hne _ (by omega) (by omega)⟩

/-- What is kept of a text in a slot: what stands before its first zero character. -/
def beforeNul (s : String) : String := String.ofList (s.toList.takeWhile (· != Char.ofNat 0))

theorem beforeNul_of_nulFree {s : String} (h : NulFree s) : beforeNul s = s := by
  have hall : ∀ c ∈ s.toList, (c != Char.ofNat 0) = true := by
    intro c hc
    refine bne_iff_ne.2 ?_
    rintro rfl
    exact h hc
  have htake : s.toList.takeWhile (· != Char.ofNat 0) = s.toList := by
    rw [← List.append_nil s.toList, List.takeWhile_append_of_pos hall, List.takeWhile_nil, List.append_nil]
  rw [beforeNul, htake, String.ofList_toList]

/-- The bytes before the first zero byte are those of the characters before the first zero character. -/
theorem takeWhile_utf8Encode (l : List Char) (k : Nat) :
    (l.utf8Encode.data.toList ++ List.replicate k 0).takeWhile (· != 0) =
      (l.takeWhile (· != Char.ofNat 0)).utf8Encode.data.toList := by
  simp only [List.utf8Encode, List.data_toByteArray]
  induction l with
  | nil => cases k <;> simp [List.replicate_succ]
  | cons c l ih =>
    -- A character other than NUL has no zero byte in its encoding.
    by_cases hc : c = Char.ofNat 0
    · subst hc
      rfl
    · have hall : ∀ b ∈ String.utf8EncodeChar c, (b != 0) = true := by
        intro b hb
        refine bne_iff_ne.2 ?_
        rintro rfl
        exact zero_not_mem_utf8EncodeChar hc hb
      rw [List.takeWhile_cons_of_pos (by simpa using hc), List.flatMap_cons, List.flatMap_cons,
        List.append_assoc, List.takeWhile_append_of_pos hall, ih]

/-- A name that fits is read back from its slot up to its first zero character. -/
theorem Slot.name_ofName_cut {name : String} (number : UInt32) (fits : name.utf8ByteSize ≤ nameField)
    (hmax : name.utf8ByteSize ≤ nameMax) : (ofName name number fits).name = beforeNul name := by
  have hlen : name.toUTF8.data.toList.length = name.utf8ByteSize := rfl
  have htext : name.toUTF8 = name.toList.utf8Encode := String.utf8Encode_toList.symm
  have hcut : (beforeNul name).toUTF8 = (name.toList.takeWhile (· != Char.ofNat 0)).utf8Encode := by
    rw [show (beforeNul name).toUTF8 = (beforeNul name).toList.utf8Encode from
      String.utf8Encode_toList.symm, beforeNul, String.toList_ofList]
  -- The field holds the whole name and zeros, and reading it stops at the first zero byte.
  have hbytes : (ofName name number fits).nameBytes = (beforeNul name).toUTF8 := by
    unfold nameBytes ofName
    simp only [ByteArray.data_append, Array.toList_append, padding, List.data_toByteArray,
      List.take_append, hlen, List.take_replicate]
    rw [List.take_of_length_le (by omega), htext, takeWhile_utf8Encode, hcut]
    refine ByteArray.ext ?_
    simp
  -- What is kept ends between two characters, so it can be read back.
  have hvalid : (beforeNul name).toUTF8.IsValidUTF8 := (beforeNul name).isValidUTF8
  have hread : String.fromUTF8? (beforeNul name).toUTF8 = some (beforeNul name) := by
    unfold String.fromUTF8?
    rw [dif_pos hvalid]
    rfl
  rw [Slot.name, hbytes, hread, Option.getD_some]

/-- A name that fits is read back from its slot. -/
theorem Slot.name_ofName {name : String} (number : UInt32) (fits : name.utf8ByteSize ≤ nameField)
    (hmax : name.utf8ByteSize ≤ nameMax) (h : NulFree name) : (ofName name number fits).name = name := by
  rw [name_ofName_cut number fits hmax, beforeNul_of_nulFree h]

theorem nulFree_of_bytes {s : String} (h : (0 : UInt8) ∉ s.toUTF8.data.toList) : NulFree s := by
  intro hmem
  apply h
  have hs : s.toUTF8 = s.toList.utf8Encode := String.utf8Encode_toList.symm
  rw [hs, List.utf8Encode, List.data_toByteArray, List.mem_flatMap]
  exact ⟨_, hmem, by decide⟩

/-- A zero byte ends the name of a slot, so there is none in it. -/
theorem Slot.nulFree_name (s : Slot) : NulFree s.name := by
  unfold name String.fromUTF8?
  split
  · apply nulFree_of_bytes
    intro hzero
    have hmem : (0 : UInt8) ∈ (s.field.data.toList.take nameMax).takeWhile (· != 0) := by
      change (0 : UInt8) ∈ s.nameBytes.data.toList at hzero
      rwa [nameBytes, List.data_toByteArray] at hzero
    cases List.all_eq_true.1 List.all_takeWhile 0 hmem
  · decide

theorem byteOf_of_lt {data : ByteArray} {i : Nat} (h : i < data.size) : byteOf data i = data[i] :=
  dif_pos h

theorem byteOf_bytesFrom (f : Nat → UInt8) (first : Nat) {n i : Nat} (h : i < n) :
    byteOf (bytesFrom f first n) i = f (first + i) := by
  rw [byteOf_of_lt (by rwa [size_bytesFrom]), getElem_bytesFrom]

theorem byteOf_append_left {x y : ByteArray} {i : Nat} (h : i < x.size) :
    byteOf (x ++ y) i = byteOf x i := by
  rw [byteOf_of_lt (by rw [ByteArray.size_append]; omega), byteOf_of_lt h,
    ByteArray.getElem_append_left h]

/-- Freeing a slot changes its last byte only. -/
theorem Slot.encode_freed_front (s : Slot) {i : Nat} (h : i < 19) :
    byteOf s.freed.encode i = byteOf s.encode i := by
  have hfield := s.size_field
  have hfront (t : Slot) (ht : t.field.size = nameField) : i < ([leByte t.number 0, leByte t.number 1,
      leByte t.number 2, leByte t.number 3].toByteArray ++ t.field).size := by
    rw [ByteArray.size_append, ht, List.size_toByteArray]
    exact h
  rw [encode, encode, byteOf_append_left (hfront _ s.freed.size_field),
    byteOf_append_left (hfront _ s.size_field)]
  rfl

/-- A slot that was read is stored with the bytes that were read, but for the last one. -/
theorem Slot.encode_decode_front (bytes : ByteArray) (hb : bytes.size = slotSize) {i : Nat} (h : i < 19) :
    byteOf (decode bytes hb).encode i = byteOf bytes i := by
  have hs : bytes.size = 20 := hb
  have hsize : (bytes.extract 0 19).size = 19 := by
    rw [ByteArray.size_extract]
    omega
  rw [encode_decode, byteOf_append_left (by omega), byteOf_of_lt (by omega), byteOf_of_lt (by omega),
    ByteArray.getElem_extract]
  simp only [Nat.zero_add]

namespace Node

variable {n n' : Node} {name : String} {j : Nat} {x : UInt32} {p : Slot → Bool}

/-! ## Slots and entries -/

/-- How many slots the contents hold. -/
def slots (n : Node) : Nat := n.size / slotSize

/-- Slot `j`; past the end it is vacant. -/
def slot (n : Node) (j : Nat) : Slot :=
  Slot.decode (bytesFrom n.byte (j * slotSize) slotSize) (size_bytesFrom ..)

/-- The first slot from slot `j` on that satisfies `p`. -/
def search (n : Node) (p : Slot → Bool) (j : Nat) : Option Nat :=
  (List.range' j (n.slots - j)).find? fun i => p (n.slot i)

/-- What a scan answers that has come to a slot, or to the end of the table. -/
def scanned (n : Node) (j : Nat) : Option Nat → Nat × Option Slot
  | some k => (k * slotSize, some (n.slot k))
  | none => (max j n.slots * slotSize, none)

/-- The place of the slot in use for `name`. -/
def find (n : Node) (name : String) : Option Nat :=
  n.search (fun s => s.inUse && s.name == name) 0

/-- The inode that `name` stands for. -/
def child (n : Node) (name : String) : Option UInt32 := (n.find name).map fun j => (n.slot j).number

/-- A name stands for nothing exactly if no slot is found for it, whatever is asked of the slot. -/
theorem child_eq_none_iff {n : Node} {name : String} {α : Type} (f : Nat → α) :
    n.child name = none ↔ ¬((n.find name).map f).isSome = true := by
  simp [child]

/-- Slot `j` is in use for `name` and stands for inode `x`. -/
structure EntryAt (n : Node) (j : Nat) (name : String) (x : UInt32) : Prop where
  lt : j < n.slots
  inUse : (n.slot j).inUse = true
  name_eq : (n.slot j).name = name
  number : (n.slot j).number = x

/-- An entry is in a slot that is the same. -/
theorem EntryAt.of_slot {n n' : Node} {j : Nat} {name : String} {x : UInt32} (h : n.EntryAt j name x)
    (hj : j < n'.slots) (hslot : n'.slot j = n.slot j) : n'.EntryAt j name x :=
  ⟨hj, by rw [hslot, h.inUse], by rw [hslot, h.name_eq], by rw [hslot, h.number]⟩

/-- The contents are slots and nothing else, and no name is in two of them. -/
structure Tidy (n : Node) : Prop where
  whole : n.size % slotSize = 0
  unique : ∀ i j name x y, n.EntryAt i name x → n.EntryAt j name y → i = j

theorem search_some {k : Nat} (h : n.search p j = some k) :
    j ≤ k ∧ k < n.slots ∧ p (n.slot k) = true ∧ ∀ i, j ≤ i → i < k → p (n.slot i) = false := by
  obtain ⟨hp, hk, hleast⟩ := List.find?_range'_eq_some.1 h
  have hmem := List.mem_range'_1.1 hk
  exact ⟨by omega, by omega, hp, fun i hi hik => by simpa using hleast i hi hik⟩

theorem search_none (h : n.search p j = none) {i : Nat} (hj : j ≤ i) (hi : i < n.slots) :
    p (n.slot i) = false := by
  have := List.find?_eq_none.1 h i (List.mem_range'_1.2 (by omega))
  simpa using this

theorem find_some (h : n.find name = some j) : n.EntryAt j name (n.slot j).number := by
  obtain ⟨-, hlt, hp, -⟩ := search_some h
  simp only [Bool.and_eq_true, beq_iff_eq] at hp
  exact ⟨hlt, hp.1, hp.2, rfl⟩

/-- A name has a slot exactly if it stands for an inode. -/
theorem child_some (h : n.child name = some x) : ∃ j, n.find name = some j ∧ n.EntryAt j name x := by
  obtain ⟨j, hj, rfl⟩ := Option.map_eq_some_iff.1 h
  exact ⟨j, hj, find_some hj⟩

/-- A name stands for nothing if no slot has it. -/
theorem child_none_iff : n.child name = none ↔ ∀ j x, ¬n.EntryAt j name x := by
  constructor
  · intro h j x hx
    have hnone : n.find name = none := by simpa [child] using h
    have := search_none hnone (Nat.zero_le j) hx.lt
    simp [hx.inUse, hx.name_eq] at this
  · intro h
    cases hc : n.child name with
    | none => rfl
    | some x =>
      obtain ⟨j, -, hj⟩ := child_some hc
      exact absurd hj (h j x)

/-- A name stands for the inode of the first slot in use for it. -/
theorem child_some_iff : n.child name = some x ↔
    ∃ j, n.EntryAt j name x ∧ ∀ i y, n.EntryAt i name y → j ≤ i := by
  -- The search goes through the slots in order, so it finds the first entry of that name.
  have hfirst {j i : Nat} {y : UInt32} (hj : n.find name = some j) (hi : n.EntryAt i name y) : j ≤ i := by
    by_contra hlt
    have := (search_some hj).2.2.2 i (Nat.zero_le i) (Nat.lt_of_not_le hlt)
    simp [hi.inUse, hi.name_eq] at this
  constructor
  · intro h
    obtain ⟨j, hj, he⟩ := child_some h
    exact ⟨j, he, fun _ _ => hfirst hj⟩
  · rintro ⟨j, he, hleast⟩
    cases hc : n.child name with
    | none => exact absurd he (child_none_iff.1 hc j x)
    | some y =>
      obtain ⟨i, hi, he'⟩ := child_some hc
      obtain rfl : i = j := Nat.le_antisymm (hfirst hi he) (hleast i y he')
      rw [← he.number, ← he'.number]

/-- Nodes with the same entries for a name have the same inode under it. -/
theorem child_congr (h : ∀ j x, n'.EntryAt j name x ↔ n.EntryAt j name x) : n'.child name = n.child name := by
  refine Option.ext fun x => ?_
  simp only [child_some_iff, h]

theorem nulFree_of_child (h : n.child name = some x) : NulFree name := by
  obtain ⟨j, -, hj⟩ := child_some h
  rw [← hj.name_eq]
  exact Slot.nulFree_name _

theorem Tidy.child_eq (hn : n.Tidy) (h : n.EntryAt j name x) : n.child name = some x := by
  cases hc : n.child name with
  | none => exact absurd h (child_none_iff.1 hc j x)
  | some y =>
    obtain ⟨i, -, hi⟩ := child_some hc
    have he := hn.unique i j name y x hi h
    subst he
    rw [← hi.number, h.number]

theorem Tidy.child_iff (hn : n.Tidy) : n.child name = some x ↔ ∃ j, n.EntryAt j name x :=
  ⟨fun h => (child_some h).imp fun _ hj => hj.2, fun ⟨_, hj⟩ => hn.child_eq hj⟩

/-- Nodes with the same entries have the same children. -/
theorem Tidy.of_same (hn : n.Tidy) (hwhole : n'.size % slotSize = 0)
    (h : ∀ j name x, n'.EntryAt j name x ↔ n.EntryAt j name x) : n'.Tidy ∧ n'.child = n.child := by
  have hn' : n'.Tidy := ⟨hwhole, fun i j name x y hi hj =>
    hn.unique i j name x y ((h i name x).1 hi) ((h j name y).1 hj)⟩
  refine ⟨hn', funext fun name => Option.ext fun x => ?_⟩
  rw [hn'.child_iff, hn.child_iff]
  exact exists_congr fun j => h j name x

/-- A new entry for a name that had none. -/
theorem Tidy.of_linked (hn : n.Tidy) (hwhole : n'.size % slotSize = 0) (hname : n.child name = none)
    (h : ∀ i nm y, n'.EntryAt i nm y ↔ n.EntryAt i nm y ∨ (i = j ∧ nm = name ∧ y = x)) :
    n'.Tidy ∧ n'.child = Function.update n.child name (some x) := by
  have hno := child_none_iff.1 hname
  -- Two entries of one name would be an old and the new one, and there was no old one.
  have hn' : n'.Tidy := by
    refine ⟨hwhole, fun i i' nm y y' hi hi' => ?_⟩
    rcases (h i nm y).1 hi with hi | ⟨rfl, rfl, rfl⟩
    · rcases (h i' nm y').1 hi' with hi' | ⟨rfl, rfl, rfl⟩
      · exact hn.unique i i' nm y y' hi hi'
      · exact absurd hi (hno i y)
    · rcases (h i' nm y').1 hi' with hi' | ⟨rfl, -, -⟩
      · exact absurd hi' (hno i' y')
      · rfl
  refine ⟨hn', funext fun nm => Option.ext fun y => ?_⟩
  rw [hn'.child_iff]
  by_cases he : nm = name
  · subst he
    rw [Function.update_self]
    constructor
    · rintro ⟨i, hi⟩
      rcases (h i nm y).1 hi with hi | ⟨-, -, rfl⟩
      · exact absurd hi (hno i y)
      · rfl
    · rintro ⟨rfl⟩
      exact ⟨j, (h j nm x).2 (.inr ⟨rfl, rfl, rfl⟩)⟩
  · rw [Function.update_of_ne he, hn.child_iff]
    refine exists_congr fun i => (h i nm y).trans ?_
    exact ⟨fun hi => hi.resolve_right fun hr => he hr.2.1, .inl⟩

/-- An entry less. -/
theorem Tidy.of_unlinked (hn : n.Tidy) (hwhole : n'.size % slotSize = 0) (hj : n.EntryAt j name x)
    (h : ∀ i nm y, n'.EntryAt i nm y ↔ n.EntryAt i nm y ∧ i ≠ j) :
    n'.Tidy ∧ n'.child = Function.update n.child name none := by
  have hn' : n'.Tidy := ⟨hwhole, fun i i' nm y y' hi hi' =>
    hn.unique i i' nm y y' ((h i nm y).1 hi).1 ((h i' nm y').1 hi').1⟩
  refine ⟨hn', funext fun nm => Option.ext fun y => ?_⟩
  rw [hn'.child_iff]
  -- No other slot has the name that was cleared, so it is gone. The other names keep their slots.
  by_cases he : nm = name
  · subst he
    rw [Function.update_self]
    refine ⟨?_, fun hc => by cases hc⟩
    rintro ⟨i, hi⟩
    obtain ⟨hi, hne⟩ := (h i nm y).1 hi
    exact absurd (hn.unique i j nm y x hi hj) hne
  · rw [Function.update_of_ne he, hn.child_iff]
    refine exists_congr fun i => (h i nm y).trans ⟨fun hi => hi.1, fun hi => ⟨hi, ?_⟩⟩
    rintro rfl
    exact he (hi.name_eq.symm.trans hj.name_eq)

/-! ## Looking through the table -/

section Scan

variable {K : Regime} {P : Pool} {id : UInt32}

/-- A slot of the table is read whole, and behind the table there is none. -/
theorem slotAt_tells (hn : P.nodes id = some n) (j : Nat) :
    Tells (Holds K) P (n.record.slotAt (j * slotSize))
      (if j < n.slots then some (n.slot j) else none) := by
  refine Tells.bind (Pool.read_node_tells hn _ _) ?_
  -- The last slot ends with the table, so a read is whole or finds nothing of a slot.
  by_cases hj : j < n.slots
  · have hmin : min slotSize (n.size - j * slotSize) = slotSize := by
      simp only [slots, slotSize] at hj ⊢
      omega
    rw [hmin, dif_pos (size_bytesFrom ..), if_pos hj]
    exact Tells.pure
  · have hmin : min slotSize (n.size - j * slotSize) < slotSize := by
      simp only [slots, slotSize] at hj ⊢
      omega
    rw [dif_neg (by rw [size_bytesFrom]; omega), if_neg hj]
    exact Tells.pure

/-- A search looks at the slot it begins with first. -/
theorem search_of_lt (p : Slot → Bool) (hj : j < n.slots) :
    n.search p j = if p (n.slot j) then some j else n.search p (j + 1) := by
  have hrange : List.range' j (n.slots - j) = j :: List.range' (j + 1) (n.slots - (j + 1)) := by
    rw [show n.slots - j = n.slots - (j + 1) + 1 by omega, List.range'_succ]
  rw [search, hrange, List.find?_cons, search]
  cases p (n.slot j) <;> rfl

/-- Behind the last slot a search finds nothing. -/
theorem search_of_le (p : Slot → Bool) (hj : n.slots ≤ j) : n.search p j = none := by
  rw [search, Nat.sub_eq_zero_of_le hj]
  rfl

/-- Where a scan ends does not depend on where in the table it has begun. -/
theorem scanned_succ (hj : j < n.slots) (found : Option Nat) : n.scanned (j + 1) found = n.scanned j found := by
  cases found with
  | some k => rfl
  | none => rw [scanned, scanned, Nat.max_eq_right hj, Nat.max_eq_right hj.le]

theorem scanSlots_tells (hn : P.nodes id = some n) (p : Slot → Bool) (j fuel : Nat)
    (hfuel : n.slots - j < fuel) :
    Tells (Holds K) P (n.record.scanSlots p (j * slotSize) fuel) (n.scanned j (n.search p j)) := by
  -- One slot is looked at for each step; the fuel is more than the slots that are left.
  induction fuel generalizing j with
  | zero => omega
  | succ fuel ih =>
    refine Tells.bind (slotAt_tells hn j) ?_
    by_cases hj : j < n.slots
    · rw [if_pos hj, search_of_lt p hj]
      dsimp only
      cases hp : p (n.slot j) with
      | true => exact Tells.pure
      | false =>
        have hstep := ih (j + 1) (by omega)
        rwa [Nat.succ_mul, scanned_succ hj] at hstep
    · have hle := Nat.le_of_not_lt hj
      rw [if_neg hj, search_of_le p hle, scanned, Nat.max_eq_left hle]
      exact Tells.pure

theorem findSlot_tells (hn : P.nodes id = some n) (p : Slot → Bool) :
    Tells (Holds K) P (n.record.findSlot p 0) (n.scanned 0 (n.search p 0)) := by
  have hscan := scanSlots_tells (K := K) hn p 0 n.record.slotBound (by
    rw [Record.slotBound]
    exact Nat.lt_succ_of_le (Nat.sub_le _ _))
  rwa [Nat.zero_mul] at hscan

theorem findName_tells (hn : P.nodes id = some n) (name : String) :
    Tells (Holds K) P (n.record.findName name)
      ((n.find name).map fun j => (j * slotSize, n.slot j)) := by
  refine Tells.bind (findSlot_tells hn _) ?_
  simp only [find]
  cases n.search (fun s => s.inUse && s.name == name) 0 with
  | none => exact Tells.pure
  | some j => exact Tells.pure

/-- The place for a new slot: the first one not in use, or else the one behind the last. -/
def vacant (n : Node) : Nat := (n.search (fun s => !s.inUse) 0).getD n.slots

theorem vacancy_tells (hn : P.nodes id = some n) :
    Tells (Holds K) P n.record.vacancy (n.vacant * slotSize) := by
  refine Tells.bind (findSlot_tells hn _) ?_
  have he : (n.scanned 0 (n.search (fun s => !s.inUse) 0)).1 = n.vacant * slotSize := by
    rw [vacant]
    cases n.search (fun s => !s.inUse) 0 with
    | none => simp [scanned]
    | some k => rfl
  rw [he]
  exact Tells.pure

/-- Whether some name but the two of every directory is linked. -/
def Busy (n : Node) : Prop := ∃ name x, isDotName name = false ∧ n.child name = some x

/-- Asking for entries answers whether the directory holds more than its two names of dots. -/
theorem hasEntries_tells (hn : P.nodes id = some n) (ht : n.Tidy) [Decidable n.Busy] :
    Tells (Holds K) P n.record.hasEntries (decide n.Busy) := by
  refine Tells.bind (findSlot_tells hn _) ?_
  have he : (n.scanned 0 (n.search (fun s => s.inUse && !isDotName s.name) 0)).2.isSome =
      decide n.Busy := by
    -- A slot that the search stops at is an entry that is not a dot name, and such an entry would stop it.
    cases hs : n.search (fun s => s.inUse && !isDotName s.name) 0 with
    | none =>
      refine (decide_eq_false ?_).symm
      rintro ⟨name, x, hname, hc⟩
      obtain ⟨j, -, hj⟩ := child_some hc
      have := search_none hs (Nat.zero_le j) hj.lt
      simp [hj.inUse, hj.name_eq, hname] at this
    | some k =>
      obtain ⟨-, hlt, hp, -⟩ := search_some hs
      simp only [Bool.and_eq_true, Bool.not_eq_true'] at hp
      refine (decide_eq_true ⟨(n.slot k).name, (n.slot k).number, hp.2, ?_⟩).symm
      exact ht.child_eq ⟨hlt, hp.1, rfl, rfl⟩
  rw [he]
  exact Tells.pure

end Scan

/-! ## Writing a slot -/

theorem vacant_le (n : Node) : n.vacant ≤ n.slots := by
  rw [vacant]
  cases h : n.search (fun s => !s.inUse) 0 with
  | none => exact Nat.le_refl _
  | some k => exact Nat.le_of_lt (search_some h).2.1

theorem vacant_inUse (h : n.vacant < n.slots) : (n.slot n.vacant).inUse = false := by
  rw [vacant] at h ⊢
  cases hs : n.search (fun s => !s.inUse) 0 with
  | none =>
    rw [hs] at h
    exact absurd h (Nat.lt_irrefl _)
  | some k => simpa using (search_some hs).2.2.1

theorem entry_ne_vacant (h : n.EntryAt j name x) : j ≠ n.vacant := by
  rintro rfl
  have := vacant_inUse h.lt
  rw [h.inUse] at this
  cases this

/-- A slot whose bytes have not changed is the same. -/
theorem slot_congr {i : Nat} (h : ∀ k, k < slotSize → n'.byte (i * slotSize + k) = n.byte (i * slotSize + k)) :
    n'.slot i = n.slot i := by
  have hbytes : bytesFrom n'.byte (i * slotSize) slotSize = bytesFrom n.byte (i * slotSize) slotSize :=
    bytesFrom_congr h
  simp only [slot, hbytes]

/-- The other slots stay as they are. -/
theorem slot_other {i k : Nat} {data : ByteArray} (hi : i ≠ j) (hk : k ≤ slotSize)
    (h : n'.byte = overwrite n.byte (j * slotSize) data k) : n'.slot i = n.slot i := by
  refine slot_congr fun m hm => ?_
  rw [h, overwrite, if_neg]
  simp only [slotSize] at hk hm ⊢
  omega

/-- A slot that is written completely is the new one. -/
theorem slot_written {s : Slot} (h : n'.byte = overwrite n.byte (j * slotSize) s.encode slotSize) :
    n'.slot j = s := by
  have hbytes : bytesFrom n'.byte (j * slotSize) slotSize = s.encode := by
    refine ByteArray.ext_getElem (by rw [size_bytesFrom, s.size_encode]) fun i hi hi' => ?_
    rw [getElem_bytesFrom, h, overwrite]
    rw [size_bytesFrom] at hi
    rw [if_pos ⟨by omega, by omega⟩, Nat.add_sub_cancel_left, byteOf_of_lt hi']
  have hdecode := s.decode_encode
  simp only [slot, hbytes, hdecode]

/-- A slot of which the last byte has not been written is in use as before. -/
theorem inUse_cut {k : Nat} {data : ByteArray} (hk : k < slotSize)
    (h : n'.byte = overwrite n.byte (j * slotSize) data k) :
    (n'.slot j).inUse = (n.slot j).inUse := by
  have hlast : n'.byte (j * slotSize + 19) = n.byte (j * slotSize + 19) := by
    rw [h, overwrite, if_neg]
    simp only [slotSize] at hk ⊢
    omega
  simp only [slot, Slot.decode, getElem_bytesFrom, hlast]

section Entries

variable {s : Slot} {k : Nat}

/-- The table after a slot has been written in its first free place. -/
structure Filled (n : Node) (s : Slot) (k : Nat) (n' : Node) : Prop where
  size : n'.size = max n.size (n.vacant * slotSize + slotSize)
  byte : n'.byte = overwrite n.byte (n.vacant * slotSize) s.encode k

theorem Filled.whole (h : Filled n s k n') (ht : n.Tidy) : n'.size % slotSize = 0 := by
  have hw := ht.whole
  rw [h.size]
  simp only [slotSize] at hw ⊢
  omega

theorem Filled.slots_eq (h : Filled n s k n') : n'.slots = max n.slots (n.vacant + 1) := by
  have hs := h.size
  simp only [slots, slotSize] at hs ⊢
  omega

/-- A slot that is written completely is one entry more. -/
theorem Filled.entry_iff {i : Nat} {nm : String} {y : UInt32} (h : Filled n s slotSize n') (hs : s.inUse = true) :
    n'.EntryAt i nm y ↔ n.EntryAt i nm y ∨ (i = n.vacant ∧ nm = s.name ∧ y = s.number) := by
  have hslots := h.slots_eq
  have hle := n.vacant_le
  -- Only the vacant slot has changed, and it was no entry before.
  constructor
  · intro hi
    by_cases he : i = n.vacant
    · subst he
      have hslot := slot_written h.byte
      exact .inr ⟨rfl, by rw [← hi.name_eq, hslot], by rw [← hi.number, hslot]⟩
    · have hlt := hi.lt
      exact .inl (hi.of_slot (by omega) (slot_other he (Nat.le_refl _) h.byte).symm)
  · rintro (hi | ⟨rfl, rfl, rfl⟩)
    · have hlt := hi.lt
      exact hi.of_slot (by omega) (slot_other (entry_ne_vacant hi) (Nat.le_refl _) h.byte)
    · have hslot := slot_written h.byte
      exact ⟨by omega, by rw [hslot, hs], by rw [hslot], by rw [hslot]⟩

/-- Linking a name changes what this name stands for. -/
theorem Filled.linked (h : Filled n s slotSize n') (ht : n.Tidy) (hs : s.inUse = true)
    (hname : n.child s.name = none) :
    n'.Tidy ∧ n'.child = Function.update n.child s.name (some s.number) :=
  ht.of_linked (j := n.vacant) (h.whole ht) hname fun _ _ _ => h.entry_iff hs

/-- A slot that is written in part links nothing. -/
theorem Filled.cut (h : Filled n s k n') (hk : k < slotSize) (ht : n.Tidy)
    (htail : ∀ i, n.size ≤ i → n.byte i = 0) : n'.Tidy ∧ n'.child = n.child := by
  refine ht.of_same (h.whole ht) fun i nm y => ?_
  have hslots := h.slots_eq
  have hle := n.vacant_le
  -- The number stands last in a slot, so a slot that was written in part still counts as free.
  have hfree : (n'.slot n.vacant).inUse = false := by
    rw [inUse_cut hk h.byte]
    rcases Nat.lt_or_eq_of_le hle with hlt | he
    · exact vacant_inUse hlt
    · -- Behind the last slot there are only zeros.
      have hlast : n.byte (n.slots * slotSize + 19) = 0 := by
        refine htail _ ?_
        have hw := ht.whole
        simp only [slots, slotSize] at hw ⊢
        omega
      rw [he]
      simp only [slot, Slot.decode, getElem_bytesFrom, hlast]
      rfl
  constructor
  · intro hi
    have hne : i ≠ n.vacant := by
      rintro rfl
      rw [hi.inUse] at hfree
      cases hfree
    have hlt := hi.lt
    exact hi.of_slot (by omega) (slot_other hne (Nat.le_of_lt hk) h.byte).symm
  · intro hi
    have hlt := hi.lt
    exact hi.of_slot (by omega) (slot_other (entry_ne_vacant hi) (Nat.le_of_lt hk) h.byte)

/-- A slot that is freed completely is one entry less. -/
theorem freed_entry_iff {i : Nat} {nm : String} {y : UInt32} (hsize : n'.size = n.size)
    (hbyte : n'.byte = overwrite n.byte (j * slotSize) (n.slot j).freed.encode slotSize) :
    n'.EntryAt i nm y ↔ n.EntryAt i nm y ∧ i ≠ j := by
  have hslots : n'.slots = n.slots := by rw [slots, slots, hsize]
  constructor
  · intro hi
    -- The slot that was freed is in use no more.
    have hne : i ≠ j := by
      rintro rfl
      have := hi.inUse
      rw [slot_written hbyte] at this
      cases this
    exact ⟨hi.of_slot (hslots ▸ hi.lt) (slot_other hne (Nat.le_refl _) hbyte).symm, hne⟩
  · rintro ⟨hi, hne⟩
    exact hi.of_slot (hslots ▸ hi.lt) (slot_other hne (Nat.le_refl _) hbyte)

/-- Unlinking a name changes what this name stands for. -/
theorem unlinked (ht : n.Tidy) (hj : n.EntryAt j name x) (hsize : n'.size = n.size)
    (hbyte : n'.byte = overwrite n.byte (j * slotSize) (n.slot j).freed.encode slotSize) :
    n'.Tidy ∧ n'.child = Function.update n.child name none :=
  ht.of_unlinked (hsize ▸ ht.whole) hj fun _ _ _ => freed_entry_iff hsize hbyte

/-- Freeing a slot changes its last byte only. -/
theorem freed_cut (hk : k < slotSize) :
    overwrite n.byte (j * slotSize) (n.slot j).freed.encode k = n.byte := by
  funext i
  rw [overwrite]
  -- All but the last byte of a freed slot are what they were.
  by_cases hi : j * slotSize ≤ i ∧ i < j * slotSize + k
  · have hlt : i - j * slotSize < 19 := by
      simp only [slotSize] at hk hi ⊢
      omega
    rw [if_pos hi, Slot.encode_freed_front _ hlt, slot, Slot.encode_decode_front _ _ hlt,
      byteOf_bytesFrom _ _ (Nat.lt_of_lt_of_le hlt (by decide))]
    congr 1
    omega
  · rw [if_neg hi]

/-- A slot that is freed in part has its entry still. -/
theorem same_of_cut (ht : n.Tidy) (hk : k < slotSize) (hsize : n'.size = n.size)
    (hbyte : n'.byte = overwrite n.byte (j * slotSize) (n.slot j).freed.encode k) :
    n'.Tidy ∧ n'.child = n.child := by
  have hbyte : n'.byte = n.byte := hbyte.trans (freed_cut hk)
  have hslots : n'.slots = n.slots := by rw [slots, slots, hsize]
  have hslot (i : Nat) : n'.slot i = n.slot i := slot_congr fun _ _ => by rw [hbyte]
  exact ht.of_same (hsize ▸ ht.whole) fun i nm y =>
    ⟨fun hi => hi.of_slot (hslots ▸ hi.lt) (hslot i).symm, fun hi => hi.of_slot (hslots ▸ hi.lt) (hslot i)⟩

end Entries

end Node

end InodeVolume
