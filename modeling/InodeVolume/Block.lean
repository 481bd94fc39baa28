import InodeVolume.LittleEndian

/-!
# Blocks

A block is what a device stores under one number: exactly 512 bytes. The same bytes are read in three
ways, and each reading is a total function of a position:

* `Block.byte`: byte `i`;
* `Block.bit`: bit `i`, the lowest bit of byte 0 first (the space map);
* `Block.word`: little-endian word `i`, four bytes each (inode records and pointer tables).

Positions past the end read as zero, and a change there changes nothing. The laws below say what each
change does to each reading, so nothing else needs to look inside a block. A block is determined by
its bytes (`Block.ext_byte`).
-/

namespace InodeVolume

-- `^` on numbers is that of the core library, whatever else is known of them.
attribute [local instance (high)] instPowNat

-- Bytes are compared as the core library compares them.
attribute [local instance (high)] ByteArray.instDecidableEq

/-- How many bytes a block has. -/
def blockSize : Nat := 512

/-- How many bits a block has. -/
def blockBits : Nat := 4096

/-- How many words a block has. -/
def blockWords : Nat := 128

/-- Exactly one block of bytes. -/
structure Block where
  bytes : ByteArray
  size_bytes : bytes.size = blockSize
  deriving DecidableEq

namespace Block

/-! ## Bytes -/

/-- Byte `i`; zero past the end. -/
def byte (b : Block) (i : Nat) : UInt8 :=
  if h : i < b.bytes.size then b.bytes[i] else 0

/-- The block whose byte `i` is `f i`. -/
def ofFn (f : Nat → UInt8) : Block where
  bytes := ⟨Array.ofFn fun i : Fin blockSize => f i⟩
  size_bytes := by simp [ByteArray.size]

/-- The block of zeros. -/
def zero : Block := ofFn fun _ => 0

instance : Inhabited Block := ⟨zero⟩

/-- Replaces byte `i`. -/
def setByte (b : Block) (i : Nat) (v : UInt8) : Block :=
  if h : i < b.bytes.size then
    { bytes := b.bytes.set i v h
      size_bytes := by
        have := b.size_bytes
        simpa only [ByteArray.size, ByteArray.data_set, Array.size_set] using this }
  else b

/-- The bytes from `start` on, at most `count` of them. -/
def slice (b : Block) (start count : Nat) : ByteArray :=
  b.bytes.extract start (start + count)

/-- Writes `data` over the bytes from `start` on; what would lie past the end is dropped. -/
def patch (b : Block) (start : Nat) (data : ByteArray) : Block :=
  ofFn fun i =>
    if h : start ≤ i ∧ i - start < data.size then data[i - start] else b.byte i

/-- Whether every byte is zero. -/
def isZero (b : Block) : Bool :=
  (List.range blockSize).all fun i => b.byte i == 0

theorem byte_of_ge (b : Block) {i : Nat} (h : blockSize ≤ i) : b.byte i = 0 := by
  have := b.size_bytes
  rw [byte, dif_neg (by omega)]

theorem byte_ofFn (f : Nat → UInt8) {i : Nat} (h : i < blockSize) : (ofFn f).byte i = f i := by
  have hs := (ofFn f).size_bytes
  rw [byte, dif_pos (by omega)]
  simp [ofFn, ByteArray.getElem_eq_getElem_data]

@[simp] theorem byte_zero (i : Nat) : zero.byte i = 0 := by
  by_cases h : i < blockSize
  · exact byte_ofFn _ h
  · exact byte_of_ge _ (by omega)

/-- A block is determined by its bytes. -/
theorem ext_byte {a b : Block} (h : ∀ i, i < blockSize → a.byte i = b.byte i) : a = b := by
  obtain ⟨⟨x⟩, hx⟩ := a
  obtain ⟨⟨y⟩, hy⟩ := b
  have hx' : x.size = blockSize := hx
  have hy' : y.size = blockSize := hy
  congr 2
  refine Array.ext (by omega) fun i hi hi' => ?_
  have := h i (by omega)
  simpa only [byte, ByteArray.size, hi, hi', ↓reduceDIte,
    ByteArray.getElem_eq_getElem_data] using this

/-- Only the replaced byte changes. -/
theorem byte_setByte (b : Block) (i : Nat) (v : UInt8) (j : Nat) (hj : j < blockSize) :
    (b.setByte i v).byte j = if i = j then v else b.byte j := by
  have hb := b.size_bytes
  have hs := (b.setByte i v).size_bytes
  by_cases hi : i < b.bytes.size
  · rw [byte, dif_pos (by omega)]
    have hd : (b.setByte i v).bytes = b.bytes.set i v hi := by simp only [setByte, hi, ↓reduceDIte]
    simp only [hd, ByteArray.getElem_eq_getElem_data, ByteArray.data_set, Array.getElem_set]
    split
    · rfl
    · rw [byte, dif_pos (by omega), ByteArray.getElem_eq_getElem_data]
  · rw [if_neg (by omega)]
    simp only [setByte, hi, ↓reduceDIte]

/-- A patch replaces the bytes it covers and no others. -/
theorem byte_patch (b : Block) (start : Nat) (data : ByteArray) {j : Nat} (hj : j < blockSize) :
    (b.patch start data).byte j =
      if h : start ≤ j ∧ j - start < data.size then data[j - start] else b.byte j :=
  byte_ofFn _ hj

/-- A block is zero exactly when all its bytes are. -/
theorem isZero_iff (b : Block) : b.isZero = true ↔ b = zero := by
  constructor
  · intro h
    refine ext_byte fun i hi => ?_
    rw [byte_zero]
    exact eq_of_beq (List.all_eq_true.1 h i (List.mem_range.2 hi))
  · rintro rfl
    exact List.all_eq_true.2 fun i _ => by simp

/-! ## Bits -/

/-- Bit `i`, the lowest bit of byte 0 first; clear past the end. -/
def bit (b : Block) (i : Nat) : Bool := (b.byte (i / 8)).toNat.testBit (i % 8)

/-- Replaces bit `i`. -/
def setBit (b : Block) (i : Nat) (v : Bool) : Block :=
  let mask := UInt8.ofNat (2 ^ (i % 8))
  let old := b.byte (i / 8)
  b.setByte (i / 8) (if v then old ||| mask else old &&& ~~~mask)

/-- How many bits are set. -/
def countOnes (b : Block) : Nat :=
  (List.range blockBits).countP b.bit

private theorem testBit_or_mask (x : UInt8) (k j : Nat) (hk : k < 8) :
    (x ||| UInt8.ofNat (2 ^ k)).toNat.testBit j = (decide (k = j) || x.toNat.testBit j) := by
  have : 2 ^ k < 256 := Nat.pow_lt_pow_right (by omega) (by omega : k < 8)
  rw [UInt8.toNat_or, Nat.testBit_or, UInt8.toNat_ofNat', Nat.mod_eq_of_lt this,
    Nat.testBit_two_pow, Bool.or_comm]

private theorem testBit_and_not_mask (x : UInt8) (k j : Nat) (hk : k < 8) :
    (x &&& ~~~UInt8.ofNat (2 ^ k)).toNat.testBit j = (!decide (k = j) && x.toNat.testBit j) := by
  have : 2 ^ k < 256 := Nat.pow_lt_pow_right (by omega) (by omega : k < 8)
  rw [UInt8.toNat_and, Nat.testBit_and]
  by_cases hj : j < 8
  · have : (~~~UInt8.ofNat (2 ^ k)).toNat.testBit j = !decide (k = j) := by
      rw [← UInt8.toNat_toBitVec, UInt8.toBitVec_not, BitVec.testBit_toNat, BitVec.getLsbD_not,
        ← BitVec.testBit_toNat, UInt8.toNat_toBitVec, UInt8.toNat_ofNat', Nat.mod_eq_of_lt this,
        Nat.testBit_two_pow]
      simp [hj]
    rw [this, Bool.and_comm]
  · have : x.toNat.testBit j = false := by
      rw [← UInt8.toNat_toBitVec, BitVec.testBit_toNat]
      exact BitVec.getLsbD_of_ge _ _ (by omega)
    simp [this]

/-- Only the replaced bit changes. -/
theorem bit_setBit (b : Block) (i : Nat) (v : Bool) {j : Nat} (hj : j < blockBits) :
    (b.setBit i v).bit j = if i = j then v else b.bit j := by
  simp only [blockBits] at hj
  rw [bit, setBit, byte_setByte _ _ _ _ (by simp only [blockSize]; omega)]
  -- Only the byte with the bit in it is written, and only its own bit changes there.
  by_cases e : i / 8 = j / 8
  · rw [if_pos e]
    cases v
    · simp only [Bool.false_eq_true, ↓reduceIte]
      rw [testBit_and_not_mask _ _ _ (Nat.mod_lt _ (by omega)), e, ← bit]
      by_cases h : i = j
      · subst h; simp
      · have : i % 8 ≠ j % 8 := by omega
        simp [h, this]
    · simp only [↓reduceIte]
      rw [testBit_or_mask _ _ _ (Nat.mod_lt _ (by omega)), e, ← bit]
      by_cases h : i = j
      · subst h; simp
      · have : i % 8 ≠ j % 8 := by omega
        simp [h, this]
  · rw [if_neg e, if_neg (by rintro rfl; exact e rfl), bit]

/-! ## Words -/

/-- Word `i`, lowest byte first; zero past the end. -/
def word (b : Block) (i : Nat) : UInt32 :=
  ofLEBytes (b.byte (4 * i)) (b.byte (4 * i + 1)) (b.byte (4 * i + 2)) (b.byte (4 * i + 3))

/-- Replaces word `i`. -/
def setWord (b : Block) (i : Nat) (w : UInt32) : Block :=
  (((b.setByte (4 * i) (leByte w 0)).setByte (4 * i + 1) (leByte w 1)).setByte
    (4 * i + 2) (leByte w 2)).setByte (4 * i + 3) (leByte w 3)

/-- The block whose word `i` is `f i`. -/
def ofWords (f : Nat → UInt32) : Block := ofFn fun i => leByte (f (i / 4)) (i % 4)

theorem word_ofWords (f : Nat → UInt32) {i : Nat} (h : i < blockWords) :
    (ofWords f).word i = f i := by
  simp only [blockWords] at h
  have hb (k : Nat) (hk : k < 4) : (ofWords f).byte (4 * i + k) = leByte (f i) k := by
    rw [ofWords, byte_ofFn _ (by simp only [blockSize]; omega)]
    rw [show (4 * i + k) / 4 = i by omega, show (4 * i + k) % 4 = k by omega]
  have h₀ := hb 0 (by omega)
  rw [Nat.add_zero] at h₀
  rw [word, h₀, hb 1 (by omega), hb 2 (by omega), hb 3 (by omega), ofLEBytes_leByte]

/-- A block is determined by its words. -/
theorem ext_word {a b : Block} (h : ∀ i, i < blockWords → a.word i = b.word i) : a = b := by
  have bytes (c : Block) (i : Nat) :
      leByte (c.word i) 0 = c.byte (4 * i) ∧ leByte (c.word i) 1 = c.byte (4 * i + 1) ∧
        leByte (c.word i) 2 = c.byte (4 * i + 2) ∧ leByte (c.word i) 3 = c.byte (4 * i + 3) :=
    leByte_ofLEBytes _ _ _ _
  refine ext_byte fun i hi => ?_
  simp only [blockSize] at hi
  have hw := h (i / 4) (by simp only [blockWords]; omega)
  obtain ⟨a₀, a₁, a₂, a₃⟩ := bytes a (i / 4)
  obtain ⟨b₀, b₁, b₂, b₃⟩ := bytes b (i / 4)
  rw [hw] at a₀ a₁ a₂ a₃
  -- A byte is one of the four of its word.
  rcases (by omega : i = 4 * (i / 4) ∨ i = 4 * (i / 4) + 1 ∨ i = 4 * (i / 4) + 2 ∨
    i = 4 * (i / 4) + 3) with e | e | e | e <;> rw [e]
  · rw [← a₀, b₀]
  · rw [← a₁, b₁]
  · rw [← a₂, b₂]
  · rw [← a₃, b₃]

/-- Only the replaced word changes. -/
theorem word_setWord (b : Block) {i j : Nat} (w : UInt32) (hj : j < blockWords) :
    (b.setWord i w).word j = if i = j then w else b.word j := by
  simp only [blockWords] at hj
  -- The four bytes of a word are written one after the other, and no other word has any of them.
  have h (k : Nat) (hk : k < 4) : (b.setWord i w).byte (4 * j + k) =
      if i = j then leByte w k else b.byte (4 * j + k) := by
    have hlt : 4 * j + k < blockSize := by simp only [blockSize]; omega
    simp only [setWord, byte_setByte _ _ _ _ hlt]
    by_cases e : i = j
    · subst e
      rcases (by omega : k = 0 ∨ k = 1 ∨ k = 2 ∨ k = 3) with rfl | rfl | rfl | rfl <;>
        simp
    · rw [if_neg (by omega), if_neg (by omega), if_neg (by omega), if_neg (by omega), if_neg e]
  have h₀ := h 0 (by omega)
  rw [Nat.add_zero] at h₀
  rw [word, h₀, h 1 (by omega), h 2 (by omega), h 3 (by omega)]
  by_cases e : i = j
  · simp only [if_pos e]; exact ofLEBytes_leByte w
  · simp only [if_neg e]; rfl

end Block

end InodeVolume
