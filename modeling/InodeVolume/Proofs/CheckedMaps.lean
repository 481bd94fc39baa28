import InodeVolume.Proofs.CheckedIndex
import InodeVolume.Proofs.Allocation

/-!
# The space map, checked

A machine reads a block of the space map as 64 words of 64 bits. Searching, it passes over a block or a word
that is full, and goes through the bits of any other word, keeping the start and the length of the run that it
is in. Turning a range over, it goes through the range twice, block by block and bit by bit.

The bits of the map may be anything, and so may the range that is given back: none of this panics on a device
of at most as many blocks as 32 bits can name (`allocate_follows`, `release_follows`). What a search finds lies
inside the map, so that its number fits in 32 bits.
-/

namespace InodeVolume

namespace Block

/-! ## Scanning bit by bit -/

variable {b : Block} {wanted n i run : Nat}

/-- A clear bit is not part of a full byte. -/
theorem scan_clear (hn : 0 < n) (hbit : b.bit i = false) : b.scan wanted n i run =
    if run + 1 = wanted then .found (i + 1) else b.scan wanted (n - 1) (i + 1) (run + 1) := by
  rw [scan, if_neg (by omega), if_neg, if_neg (by simp [hbit])]
  rintro ⟨-, haligned, hfull⟩
  have hset := bit_of_full haligned hfull (j := 0) (by omega)
  simp [hbit] at hset

/-- Set bits inside one byte are passed over one by one. -/
theorem scan_inside {k : Nat} (hk : i % 8 + k ≤ 8) (haligned : 0 < i % 8) (hn : k ≤ n)
    (hset : ∀ j, j < k → b.bit (i + j) = true) : b.scan wanted n i 0 = b.scan wanted (n - k) (i + k) 0 := by
  induction k generalizing n i with
  | zero => rfl
  | succ k ih =>
    have hfirst : b.bit i = true := hset 0 (by omega)
    rw [scan, if_neg (by omega), if_neg (by omega), if_pos hfirst]
    by_cases hlast : k = 0
    · subst hlast
      rfl
    · rw [ih (by omega) (by omega) (by omega) fun j hj => by
        rw [Nat.add_assoc, Nat.add_comm 1]; exact hset (j + 1) (by omega)]
      rw [show n - 1 - k = n - (k + 1) by omega, show i + 1 + k = i + (k + 1) by omega]

/-- A set bit ends the run, also where it is part of a full byte. -/
theorem scan_set (hn : 0 < n) (hbit : b.bit i = true) :
    b.scan wanted n i run = b.scan wanted (n - 1) (i + 1) 0 := by
  rw [scan, if_neg (by omega)]
  by_cases hfull : 8 ≤ n ∧ i % 8 = 0 ∧ b.byte (i / 8) = 255
  · -- The whole byte is passed over, which comes to the same as passing its bits over.
    obtain ⟨hlong, haligned, hbyte⟩ := hfull
    have hinside : b.scan wanted (n - 1) (i + 1) 0 = b.scan wanted (n - 1 - 7) (i + 1 + 7) 0 :=
      scan_inside (by omega) (by omega) (by omega) fun j hj => by
        rw [Nat.add_assoc]
        exact bit_of_full haligned hbyte (by omega)
    rw [if_pos ⟨hlong, haligned, hbyte⟩, hinside]
    rfl
  · rw [if_neg hfull, if_pos hbit]

end Block

namespace Checked

/-! ## Searching -/

/-- Block `k` of the map. -/
def loadBits (k : Nat) : Checked Error Disk Block := do
  let id ← add SpaceMap.firstBlock k
  plain (DiskM.readBlock id)

/-- Looks at bit `k` of word `word` of block `block` of the map. The state is the start and the length of the
run of clear bits before it. -/
def findBit (m : SpaceMap) (count block word : Nat) (b : Block) (k : Nat) (s : Nat × Nat) :
    Checked Error Disk (Round (Nat × Nat) (Option Nat)) := do
  let before ← mul block blockBits
  let inside ← mul word 64
  let first ← add before inside
  let bit ← add first k
  if m.bits ≤ bit then pure (.done none)
  else
    shift k
    if b.bit (inside + k) then pure (.again (s.1, 0))
    else
      let start := if s.2 = 0 then bit else s.1
      let length ← add s.2 1
      pure (if length = count then .done (some start) else .again (start, length))

/-- Looks through word `word` of a block of the map. A full word ends the run. -/
def findWord (m : SpaceMap) (count block : Nat) (b : Block) (word : Nat) (s : Nat × Nat) :
    Checked Error Disk (Round (Nat × Nat) (Option Nat)) :=
  if (List.range 64).all fun k => b.bit (word * 64 + k) then pure (.again (s.1, 0))
  else steps (findBit m count block word b) 0 64 s

/-- Looks through block `block` of the map. A full block ends the run. -/
def findBlock (m : SpaceMap) (count block : Nat) (s : Nat × Nat) :
    Checked Error Disk (Round (Nat × Nat) (Option Nat)) := do
  let b ← loadBits block
  if (List.range blockBits).all b.bit then pure (.again (s.1, 0))
  else steps (findWord m count block b) 0 64 s

/-- The lowest start of `count` consecutive clear bits. -/
def find (m : SpaceMap) (count : Nat) : Checked Error Disk (Option Nat) :=
  steps (findBlock m count) 0 m.blockCount (0, 0) >>= follow fun _ => pure none

/-! ## Turning -/

/-- Turns the next bit of a range over, if it lies in the same block of the map. -/
def turnBit (stop cell : Nat) (value : Bool) (s : Block × Nat) :
    Checked Error Disk (Round (Block × Nat) (Block × Nat)) :=
  if s.2 < stop ∧ s.2 / blockBits = cell then do
    place 64 (s.2 % blockBits / 64)
    shift (s.2 % blockBits % 64)
    if s.1.bit (s.2 % blockBits) = value then fail .corruptRecord
    else
      let i ← add s.2 1
      pure (.again (s.1.setBit (s.2 % blockBits) value, i))
  else pure (.done s)

/-- Turns the bits of a range that lie in the next block of the map over and hands that block on. -/
def turnBlock (stop : Nat) (value : Bool) (keep : Nat → Block → Checked Error Disk Unit) (i : Nat) :
    Checked Error Disk (Round Nat Unit) :=
  if i < stop then do
    let b ← loadBits (i / blockBits)
    let s ← rounds (turnBit stop (i / blockBits) value) (blockBits + 1) (b, i)
    keep (i / blockBits) s.1
    pure (.again s.2)
  else pure (.done ())

/-- Stores block `k` of the map. -/
def storeBits (k : Nat) (b : Block) : Checked Error Disk Unit := do
  let id ← add SpaceMap.firstBlock k
  plain (DiskM.writeBlock id b)

/-- Sets `count` bits from bit `start` on to `value`, after a pass that stores nothing. -/
def setRange (m : SpaceMap) (start count : Nat) (value : Bool) : Checked Error Disk Unit :=
  match sum? start count with
  | none => fail .corruptRecord
  | some stop =>
    if m.bits < stop then fail .corruptRecord
    else do
      rounds (turnBlock stop value fun _ _ => pure ()) (count + 1) start
      rounds (turnBlock stop value storeBits) (count + 1) start

/-- Takes the lowest run of `count` free blocks. -/
def allocate (m : SpaceMap) (count : Nat) : Checked Error Disk UInt32 := do
  match ← find m count with
  | none => fail .outOfSpace
  | some start =>
    setRange m start count true
    narrow start

/-- Gives `count` blocks from `first` on back. -/
def release (m : SpaceMap) (first : UInt32) (count : Nat) : Checked Error Disk Unit :=
  setRange m first.toNat count false

/-! ## What a search comes to -/

section Search

variable {m : SpaceMap} {count block left i run : Nat} {b : Block}

/-- What the search of block `block` of the map comes to from its bit `i` on, when the `run` bits before are
clear and `left` blocks follow. -/
def onward (m : SpaceMap) (count block left : Nat) (b : Block) (i run : Nat) : DiskM (Option Nat) :=
  match b.scan count (min blockBits (m.bits - block * blockBits) - i) i run with
  | .found stop => pure (some (block * blockBits + stop - count))
  | .unfinished run => m.findFrom count (block + 1) run left

/-- Only the last block of the map has bits past its end. -/
theorem onward_past (hleft : block + left + 1 = m.blockCount) (hi : i ≤ blockBits)
    (hpast : m.bits ≤ block * blockBits + i) : onward m count block left b i run = pure none := by
  have hlast : left = 0 := by
    simp only [SpaceMap.blockCount, blockBits] at hleft hi hpast
    omega
  rw [onward, show min blockBits (m.bits - block * blockBits) - i = 0 by omega, Block.scan, if_pos rfl, hlast]
  rfl

theorem onward_set (hleft : block + left + 1 = m.blockCount) (hi : i < blockBits) (hbit : b.bit i = true) :
    onward m count block left b i run = onward m count block left b (i + 1) 0 := by
  by_cases hpast : m.bits ≤ block * blockBits + i
  · rw [onward_past hleft (Nat.le_of_lt hi) hpast, onward_past hleft hi (by omega)]
  · rw [onward, Block.scan_set (by omega) hbit, Nat.sub_sub, onward]

/-- Bits that are set are passed over, also those past the end of the map. -/
theorem onward_sets (hleft : block + left + 1 = m.blockCount) {n : Nat} (hn : 0 < n) (hi : i + n ≤ blockBits)
    (hset : ∀ j, j < n → b.bit (i + j) = true) :
    onward m count block left b i run = onward m count block left b (i + n) 0 := by
  induction n with
  | zero => exact absurd hn (Nat.lt_irrefl 0)
  | succ n ih =>
    have hlast := hset n (Nat.lt_succ_self n)
    by_cases hfirst : n = 0
    · subst hfirst
      exact onward_set hleft (by omega) hlast
    · rw [ih (by omega) (by omega) fun j hj => hset j (by omega)]
      exact onward_set hleft (by omega) hlast

theorem onward_clear (hi : i < blockBits) (hin : block * blockBits + i < m.bits) (hbit : b.bit i = false) :
    onward m count block left b i run =
      if run + 1 = count then pure (some (block * blockBits + i - run))
      else onward m count block left b (i + 1) (run + 1) := by
  rw [onward, Block.scan_clear (by omega) hbit, Nat.sub_sub]
  by_cases hdone : run + 1 = count
  · rw [if_pos hdone, if_pos hdone, ← hdone]
    dsimp only
    rw [show block * blockBits + (i + 1) - (run + 1) = block * blockBits + i - run by omega]
  · rw [if_neg hdone, if_neg hdone, onward]

/-- The state of a search at bit `pos` of the map: if there is a run it ends there. -/
def At (pos : Nat) (s : Nat × Nat) : Prop := s.2 = 0 ∨ s.1 + s.2 = pos

/-- What a search finds lies inside the map. -/
def InMap (m : SpaceMap) (found : Option Nat) : Prop := ∀ x, found = some x → x < m.bits

variable {word k : Nat} {s : Nat × Nat} {go : Nat × Nat → Checked Error Disk (Option Nat)}

theorem loadBits_follows (hbits : m.bits ≤ UInt32.size) (hblock : block < m.blockCount) :
    Follows (loadBits block) (SpaceMap.load block) := by
  simp only [UInt32.size, SpaceMap.blockCount, blockBits] at hbits hblock
  exact .check (add_eq (lt_size (by simp only [SpaceMap.firstBlock]; omega))) (Follows.plain _)

theorem findBit_agrees (hbits : m.bits ≤ UInt32.size) (hleft : block + left + 1 = m.blockCount) (hword : word < 64)
    (hk : k < 64) (hs : At (block * blockBits + (word * 64 + k)) s)
    (hgo : ∀ s', At (block * blockBits + (word * 64 + (k + 1))) s' →
      Agrees .any (InMap m) (go s') (onward m count block left b (word * 64 + (k + 1)) s'.2)) :
    Agrees .any (InMap m) (findBit m count block word b k s >>= follow go)
      (onward m count block left b (word * 64 + k) s.2) := by
  have hblock : block * blockBits < 8589934592 := by
    simp only [UInt32.size, SpaceMap.blockCount, blockBits] at hbits hleft ⊢
    omega
  have hin : word * 64 + k < blockBits := by
    simp only [blockBits]
    omega
  simp only [findBit, bind_assoc]
  refine .check (mul_eq (lt_size (by omega))) (.check (mul_eq (lt_size (by omega))) ?_)
  refine .check (add_eq (lt_size (by omega))) (.check (add_eq (lt_size (by omega))) ?_)
  rw [Nat.add_assoc]
  by_cases hpast : m.bits ≤ block * blockBits + (word * 64 + k)
  · rw [if_pos hpast, pure_bind, follow_done, onward_past hleft (Nat.le_of_lt hin) hpast]
    exact .pure fun x hx => by cases hx
  rw [if_neg hpast, bind_assoc]
  refine .check (shift_eq hk) ?_
  by_cases hbit : b.bit (word * 64 + k) = true
  · rw [if_pos hbit, pure_bind, follow_again, onward_set hleft hin hbit]
    exact hgo _ (.inl rfl)
  -- The run starts where the first of its bits was met.
  have hstart : (if s.2 = 0 then block * blockBits + (word * 64 + k) else s.1) + s.2 =
      block * blockBits + (word * 64 + k) := by
    split
    · omega
    · exact hs.resolve_left ‹_›
  generalize (if s.2 = 0 then block * blockBits + (word * 64 + k) else s.1) = start at hstart
  rw [if_neg hbit, bind_assoc, onward_clear hin (by omega) (by simpa using hbit)]
  refine .check (add_eq (lt_size (by omega))) ?_
  by_cases hdone : s.2 + 1 = count
  · rw [if_pos hdone, if_pos hdone, pure_bind, follow_done, ← hstart, Nat.add_sub_cancel]
    refine .pure fun x hx => ?_
    cases hx
    omega
  · rw [if_neg hdone, if_neg hdone, pure_bind, follow_again]
    exact hgo (start, s.2 + 1) (.inr (by dsimp only; omega))

/-- A full word is 64 set bits. -/
theorem findWord_agrees (hbits : m.bits ≤ UInt32.size) (hleft : block + left + 1 = m.blockCount) (hword : word < 64)
    (hs : At (block * blockBits + word * 64) s)
    (hgo : ∀ s', At (block * blockBits + (word + 1) * 64) s' →
      Agrees .any (InMap m) (go s') (onward m count block left b ((word + 1) * 64) s'.2)) :
    Agrees .any (InMap m) (findWord m count block b word s >>= follow go)
      (onward m count block left b (word * 64) s.2) := by
  rw [Nat.succ_mul] at hgo
  unfold findWord
  by_cases hfull : ((List.range 64).all fun k => b.bit (word * 64 + k)) = true
  · rw [if_pos hfull, pure_bind, follow_again, onward_sets hleft (n := 64) (by omega) (by simp only [blockBits]; omega)
      fun j hj => List.all_eq_true.1 hfull j (List.mem_range.2 hj)]
    exact hgo _ (.inl rfl)
  · rw [if_neg hfull]
    refine Agrees.steps (f := fun k s => onward m count block left b (word * 64 + k) s.2)
      (fun k s => At (block * blockBits + (word * 64 + k)) s) ?_ hgo (Nat.zero_add _) hs
    intro k s go hk hs hgo
    exact findBit_agrees hbits hleft hword hk hs hgo

/-- A full block is 64 full words. -/
theorem findBlock_agrees (hbits : m.bits ≤ UInt32.size) (hleft : block + left + 1 = m.blockCount)
    (hs : At (block * blockBits) s) (hgo : ∀ s', At ((block + 1) * blockBits) s' →
      Agrees .any (InMap m) (go s') (m.findFrom count (block + 1) s'.2 left)) :
    Agrees .any (InMap m) (findBlock m count block s >>= follow go)
      (m.findFrom count block s.2 (left + 1)) := by
  rw [Nat.succ_mul] at hgo
  rw [findBlock, SpaceMap.findFrom, bind_assoc]
  apply Agrees.bind (loadBits_follows hbits (by omega))
  intro b _
  -- At the end of the block the search goes on with the next one.
  have hend (run : Nat) : onward m count block left b blockBits run = m.findFrom count (block + 1) run left := by
    rw [onward, show min blockBits (m.bits - block * blockBits) - blockBits = 0 by omega, Block.scan, if_pos rfl]
  change Agrees .any (InMap m) _ (onward m count block left b 0 s.2)
  simp only [← hend] at hgo
  by_cases hfull : ((List.range blockBits).all b.bit) = true
  · rw [if_pos hfull, pure_bind, follow_again, onward_sets hleft (n := blockBits) (by decide) (by omega)
      fun j hj => by
        rw [Nat.zero_add]
        exact List.all_eq_true.1 hfull j (List.mem_range.2 hj), Nat.zero_add]
    exact hgo _ (.inl rfl)
  · have hwords : 64 * 64 = blockBits := rfl
    rw [if_neg hfull]
    refine Agrees.steps (f := fun word s => onward m count block left b (word * 64) s.2) (n := 64) (i := 0)
      (fun word s => At (block * blockBits + word * 64) s) ?_ ?_ (Nat.zero_add 64)
      (by rwa [Nat.zero_mul, Nat.add_zero])
    · intro word s go hword hs hgo
      exact findWord_agrees hbits hleft hword hs hgo
    · rw [hwords]
      exact hgo

/-- Searching any map answers what the unchecked search does, and that lies inside the map. -/
theorem find_agrees (m : SpaceMap) (hbits : m.bits ≤ UInt32.size) (count : Nat) :
    Agrees .any (InMap m) (find m count) (m.find count) := by
  -- Block by block. Between two of them the search has only a run of clear bits to remember.
  refine Agrees.steps (f := fun block s => m.findFrom count block s.2 (m.blockCount - block)) (c := (0, 0)) (i := 0)
    (n := m.blockCount) (fun block s => At (block * blockBits) s) ?_ ?_ (Nat.zero_add _) (.inl rfl)
  · intro block s go hblock hs hgo
    obtain ⟨left, hleft⟩ := Nat.exists_eq_add_of_lt hblock
    rw [show m.blockCount - (block + 1) = left by omega] at hgo
    rw [show m.blockCount - block = left + 1 by omega]
    exact findBlock_agrees hbits (by omega) hs hgo
  · intro s _
    rw [Nat.sub_self]
    exact .pure fun x hx => by cases hx

end Search

/-! ## What turning comes to -/

section Turning

variable {m : SpaceMap} {stop start cell : Nat} {value : Bool}

/-- The bits of one block that lie in the range are turned over, if none of them has the value already. -/
theorem turnBits_agrees (cell : Nat) (value : Bool) {n rest : Nat} (hrest : n < rest) (hstop : stop < UInt64.size) :
    ∀ (start : Nat) (b : Block), start + n ≤ blockBits → cell * blockBits + start + n ≤ stop →
      (cell * blockBits + start + n = stop ∨ start + n = blockBits) →
      Agrees .any (fun s => s.2 = cell * blockBits + start + n)
        (rounds (turnBit stop cell value) rest (b, cell * blockBits + start))
        (match b.turn? value start n with
          | none => throw .corruptRecord
          | some turned => pure (turned, cell * blockBits + start + n)) := by
  have hpos : 0 < blockBits := by decide
  induction n generalizing rest with
  | zero =>
    intro start b hfit hle hend
    obtain ⟨rest, rfl⟩ := Nat.exists_eq_add_of_lt hrest
    -- The range has ended, or the next bit lies in another block of the map.
    have hover : ¬(cell * blockBits + start < stop ∧ (cell * blockBits + start) / blockBits = cell) := by
      rintro ⟨hmore, hcell⟩
      have hnext : start = blockBits := by omega
      rw [Nat.mul_comm, Nat.mul_add_div hpos, hnext, Nat.div_self hpos] at hcell
      omega
    simp only [rounds, turnBit, if_neg hover, pure_bind, follow_done, Block.turn?, Nat.add_zero]
    exact .pure rfl
  | succ n ih =>
    intro start b hfit hle hend
    obtain ⟨rest, rfl⟩ := Nat.exists_eq_add_of_lt hrest
    have hbelow : start < blockBits := by omega
    have hdiv : (cell * blockBits + start) / blockBits = cell := by
      rw [Nat.mul_comm, Nat.mul_add_div hpos, Nat.div_eq_of_lt hbelow, Nat.add_zero]
    have hmod : (cell * blockBits + start) % blockBits = start := by
      rw [Nat.mul_comm, Nat.mul_add_mod, Nat.mod_eq_of_lt hbelow]
    have hin : cell * blockBits + start < stop ∧ (cell * blockBits + start) / blockBits = cell := ⟨by omega, hdiv⟩
    have hword : start / 64 < 64 := Nat.div_lt_of_lt_mul hbelow
    simp only [rounds, turnBit, if_pos hin, hmod, bind_assoc, Block.turn?]
    refine .check (place_eq hword) (.check (shift_eq (Nat.mod_lt _ (by omega))) ?_)
    by_cases hbit : b.bit start = value
    · simp only [if_pos hbit, fail_bind]
      exact Follows.fail
    · simp only [if_neg hbit, bind_assoc]
      refine .check (add_eq (by omega)) ?_
      rw [pure_bind, follow_again, Nat.add_assoc _ start 1]
      have hnext := ih (show n < n + 1 + rest by omega) (start + 1) (b.setBit start value) (by omega) (by omega)
        (by omega)
      rw [show cell * blockBits + (start + 1) + n = cell * blockBits + start + (n + 1) by omega] at hnext
      exact hnext

/-- A range is turned over block by block. What is handed on goes to the same block of the map. -/
theorem turnBlocks_follows (hbits : m.bits ≤ UInt32.size) (hstop : stop ≤ m.bits)
    {keep : Nat → Block → Checked Error Disk Unit} {keep' : Nat → Block → DiskM Unit}
    (hkeep : ∀ k b, k < m.blockCount → Follows (keep k b) (keep' k b)) {n : Nat} (hstart : start ≤ stop)
    (hn : stop - start < n) : Follows (rounds (turnBlock stop value keep) n start)
      ((pieces blockBits start (stop - start)).forM (SpaceMap.turnPiece value keep')) := by
  have hpos : 0 < blockBits := by decide
  refine Agrees.rounds
    (f := fun i => (pieces blockBits i (stop - i)).forM (SpaceMap.turnPiece value keep'))
    (fun i => i ≤ stop) (fun i => stop - i) ?_ hstart hn
  intro i go hi ih
  unfold turnBlock
  by_cases hmore : i < stop
  · have hmod := Nat.mod_lt i hpos
    have hdiv := Nat.div_add_mod' i blockBits
    have hcell : i / blockBits < m.blockCount := by
      simp only [SpaceMap.blockCount, blockBits]
      omega
    -- The next piece of the range is what lies in the block of the next bit.
    rw [pieces_of_pos _ hpos (by omega), List.forM_eq_forM, List.forM_cons]
    generalize hsize : min (stop - i) (blockBits - i % blockBits) = size
    simp only [if_pos hmore, SpaceMap.turnPiece, bind_assoc]
    refine .bind (loadBits_follows hbits hcell) fun b _ => ?_
    have hlimit : stop < UInt64.size := Nat.lt_of_le_of_lt (Nat.le_trans hstop hbits) (by decide)
    have hrounds : size < blockBits + 1 := by omega
    have hturned := turnBits_agrees (i / blockBits) value hrounds hlimit (i % blockBits) b (by omega) (by omega)
      (by omega)
    rw [hdiv] at hturned
    have hall := hturned.bind (Q := fun _ => True) (k := fun s => do
        keep (i / blockBits) s.1
        go s.2) (f := fun s => do
        keep' (i / blockBits) s.1
        (pieces blockBits (i + size) (stop - i - size)).forM (SpaceMap.turnPiece value keep')) fun s hs => by
      refine .bind (hkeep _ s.1 hcell) fun _ _ => ?_
      have hnext := ih s.2 (by omega) (by omega)
      rw [hs, Nat.sub_add_eq] at hnext
      rw [hs]
      exact hnext
    cases hturn : b.turn? value (i % blockBits) size with
    | none =>
      rw [hturn] at hall
      simp only [pure_bind, follow_again]
      exact hall
    | some turned =>
      rw [hturn] at hall
      simpa only [pure_bind, follow_again, List.forM_eq_forM] using hall
  · rw [if_neg hmore, show stop - i = 0 by omega, pieces_zero, pure_bind, follow_done]
    exact .pure trivial

theorem storeBits_follows (hbits : m.bits ≤ UInt32.size) {block : Nat} (b : Block) (hblock : block < m.blockCount) :
    Follows (storeBits block b) (SpaceMap.store block b) := by
  simp only [UInt32.size, SpaceMap.blockCount, blockBits] at hbits hblock
  exact .check (add_eq (lt_size (by simp only [SpaceMap.firstBlock]; omega))) (Follows.plain _)

/-- A range that no machine can add up does not lie in the map. -/
theorem setRange_follows (hbits : m.bits ≤ UInt32.size) (start count : Nat) (value : Bool) :
    Follows (setRange m start count value) (m.setRange start count value) := by
  unfold setRange SpaceMap.setRange sum?
  by_cases hsum : start + count < UInt64.size
  · rw [if_pos hsum]
    dsimp only
    by_cases hout : m.bits < start + count
    · rw [if_pos hout, if_pos hout]
      exact Follows.fail
    · rw [if_neg hout, if_neg hout]
      have hcount : start + count - start = count := Nat.add_sub_cancel_left _ _
      -- The range is gone through twice, first to look and then to store.
      have hpass {keep : Nat → Block → Checked Error Disk Unit} {keep' : Nat → Block → DiskM Unit}
          (hkeep : ∀ k b, k < m.blockCount → Follows (keep k b) (keep' k b)) :
          Follows (rounds (turnBlock (start + count) value keep) (count + 1) start)
            ((pieces blockBits start (start + count - start)).forM (SpaceMap.turnPiece value keep')) :=
        turnBlocks_follows hbits (by omega) hkeep (Nat.le_add_right _ _) (by omega)
      rw [hcount] at hpass
      exact .bind (hpass fun _ _ _ => .pure trivial) fun _ _ => hpass fun _ b hk => storeBits_follows hbits b hk
  · -- A sum that overflows is behind the end of every map.
    have hsizes : UInt32.size < UInt64.size := by decide
    have hout : m.bits < start + count := by omega
    rw [if_neg hsum, if_pos hout]
    exact Follows.fail

end Turning

/-! ## Taking and giving back -/

variable {m : SpaceMap}

/-- What is taken has a number of 32 bits. -/
theorem allocate_follows (hbits : m.bits ≤ UInt32.size) (count : Nat) :
    Follows (allocate m count) (m.allocate count) := by
  refine .bind (find_agrees m hbits count) fun found hfound => ?_
  cases found with
  | none => exact Follows.fail
  | some start =>
    refine .bind (setRange_follows hbits _ _ _) fun _ _ => ?_
    rw [narrow_eq (Nat.lt_of_lt_of_le (hfound start rfl) hbits)]
    exact .pure trivial

theorem release_follows (hbits : m.bits ≤ UInt32.size) (first : UInt32) (count : Nat) :
    Follows (release m first count) (m.release first count) :=
  setRange_follows hbits _ _ _

end Checked

end InodeVolume
