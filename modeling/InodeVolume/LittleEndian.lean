/-!
# Little-endian words

A 32-bit word is stored as four bytes, the lowest first. `UInt32.leByte w k` is the byte at place
`k`, and `UInt32.ofLEBytes` puts four bytes together again.

Main statement: the two are inverse to each other (`ofLEBytes_leByte`, `leByte_ofLEBytes`).
-/

namespace InodeVolume

-- `^` on numbers is that of the core library, whatever else is known of them.
attribute [local instance (high)] instPowNat

/-- The byte at place `k` of the four bytes of a word, lowest first. -/
def leByte (w : UInt32) (k : Nat) : UInt8 :=
  UInt8.ofNat (w.toNat / 256 ^ k)

/-- The word with the given four bytes, lowest first. -/
def ofLEBytes (b₀ b₁ b₂ b₃ : UInt8) : UInt32 :=
  UInt32.ofNat (b₀.toNat + 256 * b₁.toNat + 65536 * b₂.toNat + 16777216 * b₃.toNat)

/-- Four bytes of a word give the word back. -/
theorem ofLEBytes_leByte (w : UInt32) :
    ofLEBytes (leByte w 0) (leByte w 1) (leByte w 2) (leByte w 3) = w := by
  have := w.toNat_lt
  apply UInt32.toNat_inj.mp
  simp only [ofLEBytes, leByte, UInt32.toNat_ofNat', UInt8.toNat_ofNat', Nat.reducePow] at *
  omega

/-- A word built from four bytes holds these bytes. -/
theorem leByte_ofLEBytes (b₀ b₁ b₂ b₃ : UInt8) :
    leByte (ofLEBytes b₀ b₁ b₂ b₃) 0 = b₀ ∧ leByte (ofLEBytes b₀ b₁ b₂ b₃) 1 = b₁ ∧
      leByte (ofLEBytes b₀ b₁ b₂ b₃) 2 = b₂ ∧ leByte (ofLEBytes b₀ b₁ b₂ b₃) 3 = b₃ := by
  have h₀ := b₀.toNat_lt
  have h₁ := b₁.toNat_lt
  have h₂ := b₂.toNat_lt
  have h₃ := b₃.toNat_lt
  refine ⟨?_, ?_, ?_, ?_⟩ <;>
  · apply UInt8.toNat_inj.mp
    simp only [ofLEBytes, leByte, UInt32.toNat_ofNat', UInt8.toNat_ofNat', Nat.reducePow] at *
    omega

end InodeVolume
