import InodeVolume.Proofs.CheckedTables
import InodeVolume.Proofs.Slots

/-!
# Stored forms

What is kept of a record in its block, and of a slot in its 20 bytes. A stored form can hold more than its
reader looks at: a record tells a directory by any word that is not zero, and a slot its use by any byte. So
storing what was read gives the same bytes again but for this one field, which is written as 0 or 1.

* A record is stored word after word over zeros (`Record.encode_eq_written`), every block with the mark stores a
  record, and all its bytes but the four of the kind are those of the record (`Record.faithful_of_stored`).
* A slot survives being stored, and so does its name, in use or given free. Reading a name goes well for any
  bytes: it is the text that they begin with, or empty if they are no text (`Slot.faithful_of_bytes`).
-/

namespace InodeVolume

/-! ## Words of a block -/

namespace Block

/-- Replacing a word replaces its four bytes. -/
theorem byte_setWord (b : Block) (i : Nat) (w : UInt32) {j : Nat} (hj : j < blockSize) :
    (b.setWord i w).byte j = if 4 * i ≤ j ∧ j < 4 * i + 4 then leByte w (j - 4 * i) else b.byte j := by
  simp only [setWord, byte_setByte _ _ _ _ hj]
  by_cases hin : 4 * i ≤ j ∧ j < 4 * i + 4
  · obtain ⟨k, rfl⟩ := Nat.exists_eq_add_of_le hin.1
    rw [if_pos hin, Nat.add_sub_cancel_left]
    rcases (by omega : k = 0 ∨ k = 1 ∨ k = 2 ∨ k = 3) with rfl | rfl | rfl | rfl <;> simp
  · rw [if_neg hin, if_neg (by omega), if_neg (by omega), if_neg (by omega), if_neg (by omega)]

/-- Replaces the `count` words from `first` on. -/
def setWords (b : Block) (first : Nat) (f : Nat → UInt32) : Nat → Block
  | 0 => b
  | count + 1 => (setWords b first f count).setWord (first + count) (f count)

/-- Only the words of the range change. -/
theorem word_setWords (b : Block) (first : Nat) (f : Nat → UInt32) (count : Nat) {j : Nat} (hj : j < blockWords) :
    (b.setWords first f count).word j = if first ≤ j ∧ j < first + count then f (j - first) else b.word j := by
  induction count with
  | zero => rw [if_neg (by omega)]; rfl
  | succ count ih =>
    rw [setWords, word_setWord _ _ hj, ih]
    by_cases hlast : first + count = j
    · rw [if_pos hlast, if_pos (by omega), ← hlast, Nat.add_sub_cancel_left]
    · rw [if_neg hlast]
      by_cases hin : first ≤ j ∧ j < first + count
      · rw [if_pos hin, if_pos (by omega)]
      · rw [if_neg hin, if_neg (by omega)]

end Block

/-! ## Records -/

namespace Record

/-- The block that comes of writing the fields of a record one after the other over zeros. -/
def written (r : Record) : Block :=
  let front := ((Block.zero.setWord 0 r.length).setWord 1 mark).setWord 2 (if r.isDirectory then 1 else 0)
  let middle := front.setWords 3 r.directAt directCount
  (middle.setWord 126 r.single).setWord 127 r.double

/-- No field is written over another one, and none is left out. -/
theorem encode_eq_written (r : Record) : r.encode = r.written := by
  refine Block.ext_word fun i hi => ?_
  have hcount : directCount = 123 := rfl
  have hwords : blockWords = 128 := rfl
  rw [encode, Block.word_ofWords _ hi]
  simp only [written, wordAt, Block.word_setWord _ _ hi, Block.word_setWords _ _ _ _ hi]
  generalize (if r.isDirectory then 1 else 0 : UInt32) = kind
  -- Word for word: the three fields in front, the direct numbers, and the two of the tables.
  by_cases h0 : i = 0
  · rw [if_pos h0, if_neg (by omega), if_neg (by omega), if_neg (by omega), if_neg (by omega), if_neg (by omega),
      if_pos h0.symm]
  rw [if_neg h0]
  by_cases h1 : i = 1
  · rw [if_pos h1, if_neg (by omega), if_neg (by omega), if_neg (by omega), if_neg (by omega), if_pos h1.symm]
  rw [if_neg h1]
  by_cases h2 : i = 2
  · rw [if_pos h2, if_neg (by omega), if_neg (by omega), if_neg (by omega), if_pos h2.symm]
  rw [if_neg h2]
  by_cases hdirect : i - 3 < directCount
  · have hfound : r.directAt (i - 3) = r.direct[i - 3] := by simp [directAt, hdirect]
    rw [dif_pos hdirect, if_neg (by omega), if_neg (by omega), if_pos (by omega), hfound]
  rw [dif_neg hdirect]
  by_cases hsingle : i = 126
  · rw [if_pos hsingle, if_neg (by omega), if_pos hsingle.symm]
  · rw [if_neg hsingle, if_pos (by omega)]

/-- The stored form of the record that a block stores has the bytes of the block, except for those of the kind. -/
theorem byte_encode_of_decode {b : Block} {r : Record} (h : decode b = .ok r) {j : Nat} (hj : j < blockSize) :
    r.encode.byte j =
      if 8 ≤ j ∧ j < 12 then leByte (if b.word 2 = 0 then 0 else 1) (j - 8) else b.byte j := by
  rw [encode_of_decode h, Block.byte_setWord _ _ _ hj]

/-- Every record is read back from its stored form, and every block with the mark is the stored form of the
record that it holds, but for the bytes of the kind. A block without the mark is refused. -/
theorem faithful_of_stored (r : Record) (b : Block) :
    decode r.encode = .ok r ∧ r.encode = r.written ∧
      match decode b with
      | .ok found => b.word 1 = mark ∧ ∀ j, j < blockSize → found.encode.byte j =
          if 8 ≤ j ∧ j < 12 then leByte (if b.word 2 = 0 then 0 else 1) (j - 8) else b.byte j
      | .error e => b.word 1 ≠ mark ∧ e = .corruptRecord := by
  refine ⟨decode_encode r, encode_eq_written r, ?_⟩
  -- Whether a block is accepted depends on its mark alone.
  cases hb : decode b with
  | ok found =>
    have hmark : b.word 1 = mark := by
      by_contra hne
      have herror := (decode_eq_error_iff b .corruptRecord).2 ⟨rfl, hne⟩
      rw [hb] at herror
      cases herror
    exact ⟨hmark, fun j hj => byte_encode_of_decode hb hj⟩
  | error e =>
    obtain ⟨he, hmark⟩ := (decode_eq_error_iff b e).1 hb
    exact ⟨hmark, he⟩

end Record

/-! ## Slots -/

namespace Slot

/-- What a slot says to those who look at it. -/
structure Says (s : Slot) (name : String) (number : UInt32) (inUse : Bool) : Prop where
  name : s.name = name
  number : s.number = number
  inUse : s.inUse = inUse

/-- A slot that says it, and still does so when it was stored and read again. -/
def Keeps (s : Slot) (name : String) (number : UInt32) (inUse : Bool) : Prop :=
  s.Says name number inUse ∧ (decode s.encode s.size_encode).Says name number inUse

theorem Says.keeps {s : Slot} {name : String} {number : UInt32} {inUse : Bool} (h : s.Says name number inUse) :
    s.Keeps name number inUse := by
  refine ⟨h, ?_⟩
  rw [decode_encode]
  exact h

/-- Giving a slot free leaves its name and number. -/
theorem Says.freed {s : Slot} {name : String} {number : UInt32} {inUse : Bool} (h : s.Says name number inUse) :
    s.freed.Says name number false :=
  ⟨h.name, h.number, rfl⟩

theorem size_nameBytes_le (s : Slot) : s.nameBytes.size ≤ nameMax := by
  rw [nameBytes, List.size_toByteArray]
  calc ((s.field.data.toList.take nameMax).takeWhile (· != 0)).length
      ≤ (s.field.data.toList.take nameMax).length := (List.takeWhile_sublist _).length_le
    _ ≤ nameMax := List.length_take_le _ _

/-- The name is the text that its bytes are, and empty if they are none. -/
theorem name_spells (s : Slot) :
    s.nameBytes.IsValidUTF8 ∧ s.name.toUTF8 = s.nameBytes ∨ ¬s.nameBytes.IsValidUTF8 ∧ s.name = "" := by
  unfold name String.fromUTF8?
  by_cases hvalid : s.nameBytes.IsValidUTF8
  · rw [dif_pos hvalid]
    exact .inl ⟨hvalid, rfl⟩
  · rw [dif_neg hvalid]
    exact .inr ⟨hvalid, rfl⟩

theorem size_name_le (s : Slot) : s.name.utf8ByteSize ≤ nameMax := by
  obtain ⟨-, hbytes⟩ | ⟨-, hempty⟩ := s.name_spells
  · have hsize : s.name.utf8ByteSize = s.nameBytes.size := congrArg ByteArray.size hbytes
    rw [hsize]
    exact s.size_nameBytes_le
  · rw [hempty]
    exact Nat.zero_le _

/-- Slots and the bytes that store them. `bytes` are any that a table may hold, `s` is any slot, and `name` any
text that a slot can keep. -/
theorem faithful_of_bytes {ε σ : Type} (bytes : ByteArray) (h : bytes.size = slotSize) (s : Slot) {name : String}
    (hmax : name.utf8ByteSize ≤ nameMax) (hname : NulFree name) (number : UInt32) :
    (decode bytes h).encode = bytes.extract 0 19 ++
        [if bytes.get 19 (by rw [h]; decide) = 0 then 0 else 1].toByteArray ∧
      decode s.encode s.size_encode = s ∧
      (ofName name number (Nat.le_succ_of_le hmax)).Keeps name number true ∧
      (ofName name number (Nat.le_succ_of_le hmax)).freed.Keeps name number false ∧
      (Checked.name (decode bytes h) : Checked ε σ String) = pure (decode bytes h).name ∧
      (decode bytes h).name.utf8ByteSize ≤ nameMax ∧
      ((decode bytes h).nameBytes.IsValidUTF8 ∧ (decode bytes h).name.toUTF8 = (decode bytes h).nameBytes ∨
        ¬(decode bytes h).nameBytes.IsValidUTF8 ∧ (decode bytes h).name = "") := by
  have hsays : (ofName name number (Nat.le_succ_of_le hmax)).Says name number true :=
    ⟨name_ofName number _ hmax hname, rfl, rfl⟩
  exact ⟨encode_decode bytes h, decode_encode s, hsays.keeps, hsays.freed.keeps, Checked.name_eq _, size_name_le _,
    name_spells _⟩

/-- A slot whose name has no zero byte and is cut inside its last character, and whose last byte is neither 0
nor 1. -/
def cutBytes : ByteArray :=
  [1, 0, 0, 0, 97, 97, 97, 97, 97, 97, 97, 97, 97, 97, 97, 97, 97, 0xC3, 0xA9, 7].toByteArray

theorem size_cutBytes : cutBytes.size = slotSize := rfl

theorem faithful_of_cutBytes : (decode cutBytes size_cutBytes).encode = cutBytes.extract 0 19 ++ [1].toByteArray ∧
    (Checked.name (decode cutBytes size_cutBytes) : Checked Error Disk String) =
      pure (decode cutBytes size_cutBytes).name ∧
    (decode cutBytes size_cutBytes).name = "" := by
  have hmax : "fourteen bytes".utf8ByteSize ≤ nameMax := by decide
  have hname : NulFree "fourteen bytes" := by decide
  obtain ⟨hencode, -, -, -, hchecked, -, hspells⟩ :=
    faithful_of_bytes (ε := Error) (σ := Disk) cutBytes size_cutBytes vacant hmax hname 5
  have hlast : cutBytes.get 19 (by decide) ≠ 0 := by decide
  have hinvalid : ¬(decode cutBytes size_cutBytes).nameBytes.IsValidUTF8 := by decide
  rw [if_neg hlast] at hencode
  exact ⟨hencode, hchecked, (hspells.resolve_left fun hvalid => hinvalid hvalid.1).2⟩

end Slot

end InodeVolume
