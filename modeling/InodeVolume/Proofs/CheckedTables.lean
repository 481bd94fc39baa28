import InodeVolume.Proofs.CheckedContents
import InodeVolume.Directory.Table

/-!
# Tables of directories, checked

A machine reads a slot from 20 bytes by their places, and the name of the slot from the 15 bytes kept for it by
looking for the first zero byte. The bytes may be anything: the name may go on to the last byte, it may be cut
inside a character, and what is no text is the empty name (`name_eq`).

A scan goes on from slot to slot. As it goes on only past a slot that lies inside the contents, it has ended
when it has looked at as many slots as the recorded length has room for and one more (`findSlot_agrees`).
-/

namespace InodeVolume

namespace Checked

variable {ε σ : Type}

/-! ## One slot -/

/-- How many bytes the name of a slot has: as many as stand before the first zero byte. -/
def nameLength (s : Slot) : Nat := (s.field.data.toList.findIdx? (· == 0)).getD nameMax

/-- The name of a slot. -/
def name (s : Slot) : Checked ε σ String := do
  part nameField 0 (nameLength s)
  pure ((String.fromUTF8? (s.field.extract 0 (nameLength s))).getD "")

/-- The slot that 20 bytes store. -/
def decodeSlot (bytes : ByteArray) (h : bytes.size = slotSize) : Checked ε σ Slot := do
  part slotSize 0 4
  part slotSize 4 (4 + nameField)
  copy (4 + nameField - 4) nameField
  place slotSize (slotSize - 1)
  pure (Slot.decode bytes h)

theorem decodeSlot_eq (bytes : ByteArray) (h : bytes.size = slotSize) :
    (decodeSlot bytes h : Checked ε σ Slot) = pure (Slot.decode bytes h) := rfl

/-- A field without a zero byte has a name that goes up to its last byte. -/
theorem nameLength_eq (s : Slot) : nameLength s = min nameMax (s.field.data.toList.findIdx (· == 0)) := by
  have hlength : s.field.data.toList.length = nameMax + 1 := s.size_field
  have hle : s.field.data.toList.findIdx (· == 0) ≤ s.field.data.toList.length := List.findIdx_le_length
  rw [nameLength, List.findIdx?_eq_guard_findIdx_lt, Option.guard]
  split
  · rename_i hfound
    have hfound := of_decide_eq_true hfound
    rw [Option.getD_some]
    omega
  · rename_i hnone
    have hnone := of_decide_eq_false (eq_false_of_ne_true hnone)
    rw [Option.getD_none]
    omega

theorem extract_nameLength (s : Slot) : s.field.extract 0 (nameLength s) = s.nameBytes := by
  have hzero : (fun b : UInt8 => !(b != 0)) = (· == 0) := by
    funext b
    exact Bool.not_not _
  apply ByteArray.ext
  rw [ByteArray.data_extract, Slot.nameBytes, List.takeWhile_eq_take_findIdx_not, hzero, List.findIdx_take,
    List.take_take, List.data_toByteArray, nameLength_eq]
  apply Array.toList_inj.1
  rw [Array.toList_extract, List.extract_eq_take_drop, List.drop_zero, Nat.sub_zero, Nat.min_right_comm,
    Nat.min_self]

/-- Reading a name never panics, whatever the bytes are. -/
theorem name_eq (s : Slot) : (name s : Checked ε σ String) = pure s.name := by
  have hle : nameLength s ≤ nameMax := by
    rw [nameLength_eq]
    exact Nat.min_le_left _ _
  have hfits : nameLength s ≤ nameField := Nat.le_succ_of_le hle
  rw [name, part_eq (Nat.zero_le _) hfits, pure_bind, extract_nameLength]
  rfl

/-! ## Scans -/

/-- The slot at byte `offset` of the table, if all of it can be read. -/
def slotAt (r : Record) (offset : Nat) : Checked Error Disk (Option Slot) := do
  let bytes ← read r offset slotSize
  if h : bytes.size = slotSize then do
    let s ← decodeSlot bytes h
    pure (some s)
  else pure none

/-- Looks at the slot at byte `offset`. -/
def scanNext (r : Record) (p : Slot → Checked Error Disk Bool) (offset : Nat) :
    Checked Error Disk (Round Nat (Nat × Option Slot)) := do
  match ← slotAt r offset with
  | none => pure (.done (offset, none))
  | some s =>
    if ← p s then pure (.done (offset, some s))
    else
      let offset ← add offset slotSize
      pure (.again offset)

/-- Looks from byte `offset` on for the first slot that satisfies `p`. -/
def findSlot (r : Record) (p : Slot → Checked Error Disk Bool) (offset : Nat) :
    Checked Error Disk (Nat × Option Slot) :=
  rounds (scanNext r p) r.slotBound offset

/-- Whether a slot is in use for a name that satisfies `p`. -/
def inUseFor (p : String → Bool) (s : Slot) : Checked ε σ Bool :=
  if s.inUse then do
    let text ← name s
    pure (p text)
  else pure false

theorem inUseFor_eq (p : String → Bool) (s : Slot) :
    (inUseFor p s : Checked ε σ Bool) = pure (s.inUse && p s.name) := by
  unfold inUseFor
  cases hused : s.inUse with
  | true => rw [if_pos rfl, name_eq, pure_bind, Bool.true_and]
  | false => rw [if_neg (by decide), Bool.false_and]

/-- What can be read of a slot as a whole lies inside the contents. -/
theorem slotAt_agrees (r : Record) (offset : Nat) :
    Agrees .any (fun found => found ≠ none → offset + slotSize ≤ r.length.toNat) (slotAt r offset)
      (DiskM.ofAction (r.slotAt offset)) := by
  have hread := read_agrees r offset (show slotSize < UInt64.size by decide)
  rw [slotAt, Record.slotAt, DiskM.ofAction_bind]
  refine .bind hread fun bytes hbytes => ?_
  by_cases h : bytes.size = slotSize
  · rw [dif_pos h, dif_pos h, decodeSlot_eq, pure_bind]
    refine .pure fun _ => ?_
    rw [h] at hbytes
    simp only [slotSize] at hbytes ⊢
    omega
  · rw [dif_neg h, dif_neg h]
    exact .pure (absurd rfl)

/-- A scan goes on only past a slot that lies inside the contents. -/
theorem scan_agrees (r : Record) {p : Slot → Checked Error Disk Bool} {p' : Slot → Bool}
    (hp : ∀ s, p s = pure (p' s)) {n : Nat} :
    ∀ {offset : Nat}, (r.length.toNat - offset) / slotSize < n →
      Agrees .any (fun found => found.2 ≠ none → found.1 + slotSize ≤ r.length.toNat)
        (rounds (scanNext r p) n offset) (DiskM.ofAction (r.scanSlots p' offset n)) := by
  have hlength := r.length.toNat_lt_size
  -- By induction on the rounds: each goes on past one slot, so there is always one less to be looked at
  -- than there are rounds left.
  induction n with
  | zero =>
    intro offset hn
    exact absurd hn (Nat.not_lt_zero _)
  | succ n ih =>
    intro offset hn
    rw [rounds, scanNext, Record.scanSlots, DiskM.ofAction_bind, bind_assoc]
    refine .bind (slotAt_agrees r offset) fun found hfound => ?_
    cases found with
    | none =>
      rw [pure_bind, follow_done]
      exact .pure (absurd rfl)
    | some s =>
      have hinside : offset + slotSize ≤ r.length.toNat := hfound (Option.some_ne_none s)
      dsimp only
      rw [hp, pure_bind]
      by_cases hwanted : p' s = true
      · rw [if_pos hwanted, if_pos hwanted, pure_bind, follow_done]
        exact .pure fun _ => hinside
      · rw [if_neg hwanted, if_neg hwanted, bind_assoc]
        simp only [slotSize, UInt32.size] at hinside hlength hn
        refine .check (add_eq (lt_size (by simp only [slotSize]; omega))) ?_
        rw [pure_bind, follow_again]
        exact ih (by simp only [slotSize]; omega)

/-- A scan has ended when it has looked at as many slots as the contents have room for and one more. -/
theorem findSlot_agrees (r : Record) {p : Slot → Checked Error Disk Bool} {p' : Slot → Bool}
    (hp : ∀ s, p s = pure (p' s)) (offset : Nat) :
    Agrees .any (fun found => found.2 ≠ none → found.1 + slotSize ≤ r.length.toNat) (findSlot r p offset)
      (DiskM.ofAction (r.findSlot p' offset)) :=
  scan_agrees r hp (Nat.lt_succ_of_le (Nat.div_le_div_right (Nat.sub_le _ _)))

end Checked

end InodeVolume
