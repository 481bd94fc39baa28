import InodeVolume.Disk

/-!
# Inode records

A record says all there is to say about one file or directory: its length in bytes, its kind, and the
blocks of its contents. It fills one block, whose number is the number of the inode, as 128 words:

| words | hold |
|---|---|
| 0 | the length |
| 1 | the mark of a record |
| 2 | the kind: 0 for a file, anything else for a directory |
| 3 to 125 | the blocks of pieces 0 to 122 of the contents |
| 126 | the block of the singly indirect table |
| 127 | the block of the doubly indirect table |

A pointer of 0 says that nothing is there. Main statements: decoding what was encoded gives the record
back (`decode_encode`), a block is refused exactly when it lacks the mark (`decode_eq_error_iff`), and
encoding what was decoded gives the block back with its kind written as 0 or 1
(`encode_of_decode`).
-/

namespace InodeVolume

/-- How many contents blocks a record points at itself. -/
def directCount : Nat := 123

/-- How many contents blocks can be reached without the doubly indirect table. -/
def singleReach : Nat := directCount + blockWords

/-- How many contents blocks can be reached at all. -/
def maxBlocks : Nat := singleReach + blockWords * blockWords

/-- The longest contents, in bytes. -/
def maxFileSize : Nat := maxBlocks * blockSize

/-- What is stored about one inode. -/
structure Record where
  /-- The length of the contents in bytes. -/
  length : UInt32
  isDirectory : Bool
  /-- The blocks of the first pieces of the contents. -/
  direct : Vector UInt32 directCount
  /-- The block that holds the pointers to the next `blockWords` pieces. -/
  single : UInt32
  /-- The block that holds the pointers to blocks of pointers to the rest. -/
  double : UInt32
  deriving DecidableEq

namespace Record

/-- The record of an empty file or directory. -/
def empty (isDirectory : Bool) : Record where
  length := 0
  isDirectory := isDirectory
  direct := Vector.replicate directCount 0
  single := 0
  double := 0

instance : Inhabited Record := ⟨empty false⟩

/-! ## The stored form -/

/-- The word that marks a block as a record. -/
def mark : UInt32 := 0x494e4f44

/-- Word `i` of the stored form of a record. -/
def wordAt (r : Record) (i : Nat) : UInt32 :=
  if i = 0 then r.length
  else if i = 1 then mark
  else if i = 2 then (if r.isDirectory then 1 else 0)
  else if h : i - 3 < directCount then r.direct[i - 3]
  else if i = 126 then r.single
  else r.double

/-- The block that stores a record. -/
def encode (r : Record) : Block := Block.ofWords r.wordAt

/-- The record that a block stores. -/
def decode (b : Block) : Except Error Record :=
  if b.word 1 = mark then
    .ok
      { length := b.word 0
        isDirectory := b.word 2 != 0
        direct := Vector.ofFn fun i => b.word (3 + i)
        single := b.word 126
        double := b.word 127 }
  else .error .corruptRecord

/-- A block is refused exactly when it lacks the mark. -/
theorem decode_eq_error_iff (b : Block) (e : Error) :
    decode b = .error e ↔ e = .corruptRecord ∧ b.word 1 ≠ mark := by
  unfold decode
  split
  · simp_all
  · simp_all [eq_comm]

/-- Decoding what was encoded gives the record back. -/
theorem decode_encode (r : Record) : decode r.encode = .ok r := by
  -- Every field is read back from the words in which it was stored.
  have hw (i : Nat) (hi : i < blockWords) : r.encode.word i = r.wordAt i :=
    Block.word_ofWords _ hi
  have hmark : r.encode.word 1 = mark := hw 1 (by decide)
  have hkind : (r.encode.word 2 != 0) = r.isDirectory := by
    rw [hw 2 (by decide)]
    cases h : r.isDirectory <;> simp [wordAt, h]
  have hdirect : (Vector.ofFn fun i : Fin directCount => r.encode.word (3 + i)) = r.direct := by
    ext i hi
    have hi' : i < 123 := hi
    rw [Vector.getElem_ofFn, hw _ (by simp only [blockWords]; omega), wordAt, if_neg (by omega),
      if_neg (by omega), if_neg (by omega), dif_pos (by simp only [directCount]; omega)]
    simp only [Nat.add_sub_cancel_left]
  have hsingle : r.encode.word 126 = r.single := by
    rw [hw 126 (by decide)]; simp [wordAt, directCount]
  have hdouble : r.encode.word 127 = r.double := by
    rw [hw 127 (by decide)]; simp [wordAt, directCount]
  rw [decode, if_pos hmark, hkind, hdirect, hsingle, hdouble, hw 0 (by decide)]
  rfl

/-- Encoding what was decoded gives the block back, with its kind written as 0 or 1. -/
theorem encode_of_decode {b : Block} {r : Record} (h : decode b = .ok r) :
    r.encode = b.setWord 2 (if b.word 2 = 0 then 0 else 1) := by
  unfold decode at h
  split at h
  · rename_i hmark
    cases h
    -- All words but word 2 are copied unchanged, so the blocks are compared word by word.
    refine Block.ext_word fun i hi => ?_
    have hi' : i < 128 := hi
    rw [encode, Block.word_ofWords _ hi, Block.word_setWord _ _ hi]
    by_cases h0 : i = 0
    · subst h0; rfl
    by_cases h1 : i = 1
    · subst h1; rw [if_neg (by omega)]; exact hmark.symm
    by_cases h2 : i = 2
    · subst h2
      by_cases hk : b.word 2 = 0 <;> simp [wordAt, hk]
    rw [wordAt, if_neg h0, if_neg h1, if_neg h2, if_neg (Ne.symm h2)]
    split
    · rename_i hd
      simp only [Vector.getElem_ofFn]
      rw [show 3 + (i - 3) = i by omega]
    · rename_i hd
      simp only [directCount] at hd
      split
      · rename_i h126; rw [h126]
      · rw [show i = 127 by omega]
  · cases h

/-! ## How many blocks contents take -/

/-- How many blocks hold `size` bytes. -/
def dataBlocks (size : Nat) : Nat := (size + (blockSize - 1)) / blockSize

/-- How many blocks hold `size` bytes and the tables that point at them. -/
def totalBlocks (size : Nat) : Nat :=
  let data := dataBlocks size
  data + (if directCount < data then 1 else 0) +
    (if singleReach < data then 1 + (data - singleReach + (blockWords - 1)) / blockWords else 0)

end Record

end InodeVolume
