import InodeVolume.LittleEndian

/-!
# Directory slots

The contents of a directory are a table of slots of 20 bytes each: the number of an inode, a name padded
with zero bytes to 15, and whether the slot is in use. A name has at most 14 bytes, so one zero byte
always ends it.

Main statements: a slot survives being stored (`decode_encode`), and storing what was read gives the
same bytes, with the last one written as 0 or 1 (`encode_decode`).
-/

namespace InodeVolume

-- Bytes are compared as the core library compares them.
attribute [local instance (high)] ByteArray.instDecidableEq

/-- The longest name, in bytes of UTF-8. -/
def nameMax : Nat := 14

/-- How many bytes a slot keeps for the name. -/
def nameField : Nat := nameMax + 1

/-- How many bytes a slot takes in the table. -/
def slotSize : Nat := 20

/-- One place of a directory's table. -/
structure Slot where
  /-- The inode that the name stands for. -/
  number : UInt32
  /-- The bytes kept for the name. -/
  field : ByteArray
  inUse : Bool
  size_field : field.size = nameField
  deriving DecidableEq

namespace Slot

/-- `n` zero bytes. -/
def padding (n : Nat) : ByteArray := (List.replicate n 0).toByteArray

/-- The slot of nothing: all its bytes are zero. -/
def vacant : Slot where
  number := 0
  field := padding nameField
  inUse := false
  size_field := by simp [padding]

/-- The slot in use for a name that fits its field. -/
def ofName (name : String) (number : UInt32) (fits : name.utf8ByteSize ≤ nameField) : Slot where
  number := number
  field := name.toUTF8 ++ padding (nameField - name.utf8ByteSize)
  inUse := true
  size_field := by
    have : name.toUTF8.size = name.utf8ByteSize := rfl
    simp only [ByteArray.size_append, padding, List.size_toByteArray, List.length_replicate]
    omega

/-- The bytes of the name: those before the first zero byte, and never more than `nameMax`. -/
def nameBytes (s : Slot) : ByteArray :=
  ((s.field.data.toList.take nameMax).takeWhile (· != 0)).toByteArray

/-- The name, or the empty text if its bytes are not UTF-8. -/
def name (s : Slot) : String := (String.fromUTF8? s.nameBytes).getD ""

/-- The slot given free: its number and name stay where they are. -/
def freed (s : Slot) : Slot := { s with inUse := false }

/-! ## The stored form -/

/-- The bytes of a slot. -/
def encode (s : Slot) : ByteArray :=
  [leByte s.number 0, leByte s.number 1, leByte s.number 2, leByte s.number 3].toByteArray ++
    s.field ++ [if s.inUse then 1 else 0].toByteArray

/-- The slot that 20 bytes store. -/
def decode (bytes : ByteArray) (h : bytes.size = slotSize) : Slot :=
  have : bytes.size = 20 := h
  { number := ofLEBytes bytes[0] bytes[1] bytes[2] bytes[3]
    field := bytes.extract 4 19
    inUse := bytes[19] != 0
    size_field := by simp only [ByteArray.size_extract, nameField, nameMax]; omega }

theorem size_encode (s : Slot) : s.encode.size = slotSize := by
  simp only [encode, ByteArray.size_append, List.size_toByteArray, List.length_cons,
    List.length_nil, s.size_field]
  rfl

/-- A slot survives being stored. -/
theorem decode_encode (s : Slot) : decode s.encode s.size_encode = s := by
  obtain ⟨number, ⟨field⟩, inUse, hf⟩ := s
  have hf' : field.size = 15 := hf
  have hl : field.toList.length = 15 := by simpa using hf'
  have hdata : (Slot.encode ⟨number, ⟨field⟩, inUse, hf⟩).data =
      #[leByte number 0, leByte number 1, leByte number 2, leByte number 3] ++ field ++
        #[if inUse then 1 else 0] := by
    simp [encode, ByteArray.data_append]
  have hnum : ofLEBytes (leByte number 0) (leByte number 1) (leByte number 2) (leByte number 3) =
      number := ofLEBytes_leByte number
  simp only [decode, mk.injEq, ByteArray.getElem_eq_getElem_data, hdata]
  -- The number stands in the first four bytes, then the name, then whether the slot is in use.
  refine ⟨?_, ?_, ?_⟩
  · simpa [Array.getElem_append, hf'] using hnum
  · ext1
    simp [ByteArray.data_extract, hdata, Array.extract_append, hf']
  · cases inUse <;> simp [Array.getElem_push, hf']

/-- Storing what was read gives the same bytes, with the last one written as 0 or 1. -/
theorem encode_decode (bytes : ByteArray) (h : bytes.size = slotSize) :
    (decode bytes h).encode = bytes.extract 0 19 ++
      [if bytes.get 19 (by rw [h]; decide) = 0 then 0 else 1].toByteArray := by
  have hs : bytes.size = 20 := h
  generalize hlast : bytes.get 19 (by rw [h]; decide) = last
  have hlast : bytes[19] = last := hlast
  obtain ⟨h₀, h₁, h₂, h₃⟩ := leByte_ofLEBytes bytes[0] bytes[1] bytes[2] bytes[3]
  have four := ByteArray.extract_add_four (a := bytes) (i := 0) (by omega)
  simp only [Nat.zero_add] at four
  simp only [encode, decode, h₀, h₁, h₂, h₃, ← four, ByteArray.extract_append_extract]
  congr 3
  change (if (bytes[19] != 0) = true then _ else _) = if last = 0 then _ else _
  by_cases hz : last = 0 <;> simp [hlast, hz]

end Slot

end InodeVolume
