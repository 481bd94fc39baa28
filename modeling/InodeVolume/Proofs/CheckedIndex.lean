import InodeVolume.Proofs.CheckedArithmetic
import InodeVolume.Proofs.Extension

/-!
# The index of a record, checked

The index of a record as a machine computes it: which of the three tiers a piece belongs to is found by
comparing it with what the tiers hold, and its place in a table by taking that off. Nothing is known of the
record and of the tables. The length may be any number of 32 bits, far above the longest contents, and a
pointer may be zero or lead past the end of the device.

* Counting blocks (`dataBlocks_eq`, `totalBlocks_eq`) and looking a piece up (`blockAt_follows`) never panic.
* Neither does extending the index from any length to any longer one that is allowed (`extend_follows`): one
  loop for each tier, with a loop inside the last one.
* Neither does listing the blocks of the index (`clear_follows`), whatever the length is.
-/

namespace InodeVolume

namespace Checked

variable {ε σ α : Type}

/-- A bound that is written out. -/
theorem lt_size {n : Nat} (h : n < 18446744073709551616) : n < UInt64.size := h

/-! ## Words and tables -/

/-- The places of `count` words of a block, from byte `base` on. -/
def words (base count : Nat) : Checked ε σ Unit :=
  (List.range count).forM fun i => do
    let start ← mul i 4
    let start ← add base start
    let last ← add start 4
    part blockSize start last

/-- Going through words that lie in one block stays inside it. -/
theorem words_eq {base count : Nat} (h : base + 4 * count ≤ blockSize) :
    (words base count : Checked ε σ Unit) = pure () := by
  have hsize : blockSize = 512 := rfl
  -- The induction is on any list of the words, as a range does not fall apart from the front.
  suffices hall : ∀ l : List Nat, (∀ i ∈ l, i < count) → (l.forM fun i => (do
      let start ← mul i 4
      let start ← add base start
      let last ← add start 4
      part blockSize start last : Checked ε σ Unit)) = pure () from
    hall _ fun i hi => List.mem_range.1 hi
  intro l hl
  induction l with
  | nil => rfl
  | cons i l ih =>
    have hi := hl i (List.mem_cons_self ..)
    rw [List.forM_eq_forM, List.forM_cons, mul_eq (lt_size (by omega)), pure_bind, add_eq (lt_size (by omega)), pure_bind,
      add_eq (lt_size (by omega)), pure_bind, part_eq (by omega) (by omega), pure_bind]
    exact ih fun j hj => hl j (List.mem_cons_of_mem i hj)

/-- The table in block `id`. -/
def readTable (id : UInt32) : Checked Error Disk Block := do
  let b ← plain (DiskM.readBlock id.toNat)
  words 0 blockWords
  pure b

/-- Stores a table in block `id`. -/
def writeTable (id : UInt32) (table : Block) : Checked Error Disk Unit := do
  words 0 blockWords
  plain (DiskM.writeBlock id.toNat table)

theorem readTable_follows (id : UInt32) : Follows (readTable id) (DiskM.readBlock id.toNat) := by
  rw [← bind_pure (DiskM.readBlock id.toNat)]
  apply Agrees.bind (Follows.plain _)
  intro b _
  exact .check (words_eq (by decide)) (.pure trivial)

theorem writeTable_follows (id : UInt32) (table : Block) :
    Follows (writeTable id table) (DiskM.writeBlock id.toNat table) :=
  .check (words_eq (by decide)) (Follows.plain _)

/-- The stored form of a record. -/
def encode (r : Record) : Checked ε σ Block := do
  words 0 3
  words 12 directCount
  words (12 + 4 * directCount) 2
  pure r.encode

theorem encode_eq (r : Record) : (encode r : Checked ε σ Block) = pure r.encode := by
  rw [encode, words_eq (by decide), pure_bind, words_eq (by decide), pure_bind, words_eq (by decide), pure_bind]

/-! ## How many blocks contents take -/

/-- How many blocks hold `size` bytes. -/
def dataBlocks (size : Nat) : Checked ε σ Nat := divUp size blockSize

/-- A block for each piece, and one for the singly indirect table if the record has not enough places. -/
def withSingle (data : Nat) : Checked ε σ Nat := if directCount < data then add data 1 else pure data

/-- How many blocks hold `size` bytes and the tables that point at them. -/
def totalBlocks (size : Nat) : Checked ε σ Nat := do
  let data ← dataBlocks size
  let total ← withSingle data
  if singleReach < data then do
    let rest ← sub data singleReach
    let tables ← divUp rest blockWords
    let tables ← add 1 tables
    add total tables
  else pure total

theorem dataBlocks_eq {size : Nat} (h : size < UInt64.size) :
    (dataBlocks size : Checked ε σ Nat) = pure (Record.dataBlocks size) :=
  divUp_eq (by decide) h

/-- The blocks of any length of 32 bits. -/
theorem dataBlocks_lt {size : Nat} (h : size < UInt32.size) : Record.dataBlocks size ≤ 8388608 := by
  simp only [UInt32.size, Record.dataBlocks, blockSize] at h ⊢
  omega

theorem totalBlocks_lt {size : Nat} (h : size < UInt32.size) : Record.totalBlocks size < 16777216 := by
  have hdata := dataBlocks_lt h
  rw [Record.totalBlocks]
  generalize Record.dataBlocks size = data at hdata
  simp only [blockWords]
  split <;> split <;> omega

/-- Counting the blocks of a size that fits into a word does not overflow. -/
theorem totalBlocks_eq {size : Nat} (h : size < UInt32.size) :
    (totalBlocks size : Checked ε σ Nat) = pure (Record.totalBlocks size) := by
  have hdata := dataBlocks_lt h
  rw [totalBlocks, dataBlocks_eq (Nat.lt_trans h (by decide)), pure_bind, Record.totalBlocks]
  generalize Record.dataBlocks size = data at hdata
  -- All of these numbers stay far below the limit, as there are no more blocks than bytes.
  have htables : data - singleReach + (blockWords - 1) < 16777216 := by
    simp only [blockWords]
    omega
  have hquot : (data - singleReach + (blockWords - 1)) / blockWords < 16777216 :=
    Nat.lt_of_le_of_lt (Nat.div_le_self _ _) htables
  have hsingle : (withSingle data : Checked ε σ Nat) =
      pure (data + if directCount < data then 1 else 0) := by
    unfold withSingle
    split
    · exact add_eq (lt_size (by omega))
    · rfl
  rw [hsingle, pure_bind]
  split
  · rename_i hlong
    rw [sub_eq (Nat.le_of_lt hlong), pure_bind, divUp_eq (by decide) (lt_size (by omega)), pure_bind,
      add_eq (lt_size (by omega)), pure_bind, add_eq (lt_size (by split <;> omega))]
  · rw [Nat.add_zero]

/-! ## Looking a piece up -/

/-- The block of piece `i` of the contents. -/
def blockAt (r : Record) (i : Nat) : Checked Error Disk UInt32 :=
  if i < directCount then item directCount r.directAt i
  else if i < singleReach then
    if r.single = 0 then pure 0
    else do
      let table ← readTable r.single
      let k ← sub i directCount
      item blockWords table.word k
  else if i < maxBlocks then
    if r.double = 0 then pure 0
    else do
      let k ← sub i singleReach
      let outer ← readTable r.double
      let inner ← item blockWords outer.word (k / blockWords)
      if inner = 0 then pure 0
      else do
        let table ← readTable inner
        item blockWords table.word (k % blockWords)
  else fail .fileTooLarge

/-- Looking up a piece that no tier reaches is reported, and any other place lies inside its table. -/
theorem blockAt_follows (r : Record) (i : Nat) : Follows (blockAt r i) (r.blockAt i) := by
  have hreach : singleReach = directCount + blockWords := rfl
  have hmax : maxBlocks = singleReach + blockWords * blockWords := rfl
  unfold blockAt Record.blockAt
  -- One case for each tier. The test for the tier is what keeps the subtractions and the places in the
  -- tables within their bounds.
  by_cases hdirect : i < directCount
  · have hfound : r.directAt i = r.direct[i] := by simp [Record.directAt, hdirect]
    rw [if_pos hdirect, dif_pos hdirect, item_eq hdirect, hfound]
    exact .pure trivial
  rw [if_neg hdirect, dif_neg hdirect]
  refine .ite (fun hsingle => ?_) fun hsingle => ?_
  · refine .ite (fun _ => .pure trivial) fun _ => ?_
    refine .bind (readTable_follows _) fun table _ => ?_
    refine .check (sub_eq (by omega)) ?_
    rw [item_eq (by omega)]
    exact .pure trivial
  refine .ite (fun hdouble => ?_) fun _ => Follows.fail
  refine .ite (fun _ => .pure trivial) fun _ => ?_
  have hcell : (i - singleReach) / blockWords < blockWords :=
    Nat.div_lt_of_lt_mul (by omega)
  have hplace : (i - singleReach) % blockWords < blockWords := Nat.mod_lt _ (by decide)
  refine .check (sub_eq (by omega)) ?_
  refine .bind (readTable_follows _) fun outer _ => ?_
  refine .check (item_eq hcell) ?_
  refine .ite (fun _ => .pure trivial) fun _ => ?_
  refine .bind (readTable_follows _) fun table _ => ?_
  rw [item_eq hplace]
  exact .pure trivial

/-! ## Listing the blocks of an index -/

/-- The first `n` words of the table in block `id`, followed by the block itself. -/
def tableBlocks (id : UInt32) (n : Nat) : Checked Error Disk (List UInt32) := do
  let table ← readTable id
  part blockWords 0 n
  pure (table.words n ++ [id])

/-- The blocks of the inner table at word `cell` of an outer table for `n` pieces. -/
def innerBlocks (outer : Block) (n cell : Nat) : Checked Error Disk (List UInt32) := do
  let before ← mul cell blockWords
  let left ← sub n before
  tableBlocks (outer.word cell) (min left blockWords)

/-- All blocks of the doubly indirect tier for `n` pieces. -/
def doubleBlocks (id : UInt32) (n : Nat) : Checked Error Disk (List UInt32) := do
  let outer ← readTable id
  let tables ← divUp n blockWords
  let inner ← (List.range (min tables blockWords)).mapM (innerBlocks outer n)
  pure (inner.flatten ++ [id])

/-- The blocks of the singly indirect tier, and how many pieces lie beyond the record. -/
def singleBlocks (r : Record) (count : Nat) : Checked Error Disk (List UInt32 × Nat) :=
  if directCount < count then do
    let count ← sub count directCount
    let blocks ← tableBlocks r.single (min count blockWords)
    pure (blocks, count)
  else pure ([], count)

/-- The blocks of the doubly indirect tier, if `count` pieces are more than a table holds. -/
def restBlocks (r : Record) (count : Nat) : Checked Error Disk (List UInt32) :=
  if blockWords < count then do
    let count ← sub count blockWords
    doubleBlocks r.double count
  else pure []

/-- Every block that the index refers to. -/
def ownedBlocks (r : Record) : Checked Error Disk (List UInt32) := do
  let total ← totalBlocks r.length.toNat
  room total
  let data ← dataBlocks r.length.toNat
  part directCount 0 (min data directCount)
  let (single, count) ← singleBlocks r data
  let double ← restBlocks r count
  pure (r.direct.toList.take (min data directCount) ++ single ++ double)

/-- Lists every block of the index and empties the record. -/
def clear (r : Record) : Checked Error Disk (List UInt32 × Record) := do
  pure (← ownedBlocks r, Record.empty r.isDirectory)

theorem tableBlocks_follows (id : UInt32) {n : Nat} (h : n ≤ blockWords) :
    Follows (tableBlocks id n) (Record.tableBlocks id n) := by
  apply Agrees.bind (readTable_follows id)
  intro table _
  exact .check (part_eq (Nat.zero_le n) h) (.pure trivial)

/-- The first piece of a span and the rest of it. -/
theorem pieces_of_pos {width count : Nat} (first : Nat) (hw : 0 < width) (hc : 0 < count) :
    pieces width first count =
      ⟨first / width, first % width, min count (width - first % width)⟩ ::
        pieces width (first + min count (width - first % width)) (count - min count (width - first % width)) := by
  rw [pieces, if_neg (by omega)]

/-- A span that starts with a cell is cut into one piece for each cell. -/
theorem pieces_cells (c n : Nat) : pieces blockWords (c * blockWords) n =
    (List.range (tableCount n)).map fun j => ⟨c + j, 0, min (n - j * blockWords) blockWords⟩ := by
  generalize ht : tableCount n = t
  simp only [tableCount, blockWords] at ht ⊢
  -- By induction on the number of tables. The first piece fills one cell, and the rest begins with the
  -- next.
  induction t generalizing c n with
  | zero =>
    have hn : n = 0 := by omega
    rw [hn, pieces_zero]
    rfl
  | succ t ih =>
    rw [pieces_of_pos _ (by decide) (by omega), Nat.mul_mod_left, Nat.mul_div_cancel c (by decide), Nat.sub_zero,
      List.range_succ_eq_map, List.map_cons, List.map_map, Nat.add_zero, Nat.zero_mul, Nat.sub_zero]
    congr 1
    by_cases hlast : n ≤ 128
    · -- The last cell, which the span does not leave.
      have hrest : t = 0 := by omega
      rw [Nat.min_eq_left hlast, Nat.sub_self, pieces_zero, hrest]
      rfl
    · rw [Nat.min_eq_right (by omega), ← Nat.succ_mul, ih _ (n - 128) (by omega)]
      refine List.map_congr_left fun j _ => ?_
      simp only [Function.comp_apply, Piece.mk.injEq, true_and]
      omega

/-- The cells of the doubly indirect tier, however many pieces there are said to be. -/
theorem pieces_clipped (n : Nat) : pieces blockWords 0 (min n (blockWords * blockWords)) =
    (List.range (min (tableCount n) blockWords)).map fun j =>
      ⟨j, 0, min (n - j * blockWords) blockWords⟩ := by
  have hcells := pieces_cells 0 (min n (blockWords * blockWords))
  -- The outer table has room for so many inner ones and no more.
  have htables : tableCount (min n (blockWords * blockWords)) = min (tableCount n) blockWords := by
    simp only [tableCount, blockWords]
    omega
  rw [Nat.zero_mul, htables] at hcells
  rw [hcells]
  refine List.map_congr_left fun j hj => ?_
  have hj := List.mem_range.1 hj
  simp only [blockWords, Nat.zero_add, Piece.mk.injEq, true_and] at hj ⊢
  omega

theorem doubleBlocks_follows (id : UInt32) {n : Nat} (h : n < UInt32.size) :
    Follows (doubleBlocks id n) (Record.doubleBlocks id n) := by
  unfold doubleBlocks Record.doubleBlocks
  apply Agrees.bind (readTable_follows id)
  intro outer _
  apply Agrees.check (divUp_eq (by decide) (Nat.lt_trans h (by decide)))
  rw [pieces_clipped, List.mapM_map]
  refine Agrees.bind (Agrees.mapM fun cell hcell => ?_) fun inner _ => .pure trivial
  -- The cells that are visited begin before the last piece.
  have hcell := List.mem_range.1 hcell
  have hbefore : cell * blockWords < n := by
    simp only [blockWords] at hcell ⊢
    omega
  simp only [UInt32.size] at h
  refine .check (mul_eq (lt_size (by omega))) (.check (sub_eq (by omega)) ?_)
  exact tableBlocks_follows _ (Nat.min_le_right _ _)

/-- The doubly indirect tier begins where the pieces beyond the record fill more than a table. -/
theorem restBlocks_follows (r : Record) {count beyond : Nat} (hcount : count < UInt32.size)
    (h : directCount < count ∧ beyond = count - directCount ∨ count ≤ directCount ∧ beyond = count) :
    Follows (restBlocks r beyond) (if singleReach < count then
      Record.doubleBlocks r.double (count - singleReach) else pure []) := by
  have hreach : singleReach = directCount + blockWords := rfl
  have hless : directCount < blockWords := by decide
  unfold restBlocks
  by_cases hlong : singleReach < count
  · have hrest : beyond - blockWords = count - singleReach := by omega
    rw [if_pos hlong, if_pos (by omega), ← hrest]
    exact .check (sub_eq (by omega)) (doubleBlocks_follows _ (by omega))
  · rw [if_neg hlong, if_neg (by omega)]
    exact .pure trivial

/-- Listing the blocks of any record ends with a list or an error of the device. -/
theorem ownedBlocks_follows (r : Record) : Follows (ownedBlocks r) r.ownedBlocks := by
  have hlength := r.length.toNat_lt_size
  -- However long the contents claim to be, their blocks can be listed.
  have htotal := totalBlocks_lt hlength
  have hdata := dataBlocks_lt hlength
  unfold ownedBlocks Record.ownedBlocks
  refine .check (totalBlocks_eq hlength) (.check (room_eq ?_) ?_)
  · simp only [UInt64.size]
    omega
  refine .check (dataBlocks_eq (Nat.lt_trans hlength (by decide))) ?_
  refine .check (part_eq (Nat.zero_le _) (Nat.min_le_right _ _)) ?_
  generalize Record.dataBlocks r.length.toNat = count at hdata
  have hcount : count < UInt32.size := Nat.lt_of_le_of_lt hdata (by decide)
  -- Taking more pointers than the record has takes all of them.
  have htake : r.direct.toList.take (min count directCount) = r.direct.toList.take count := by
    rw [List.take_eq_take_iff, Vector.length_toList]
    omega
  rw [htake]
  dsimp only
  by_cases hsingle : directCount < count
  · simp only [singleBlocks, if_pos hsingle, bind_assoc, pure_bind]
    refine .check (sub_eq (Nat.le_of_lt hsingle)) ?_
    refine .bind (tableBlocks_follows _ (Nat.min_le_right _ _)) fun single _ => ?_
    exact .iteBind (restBlocks_follows r hcount (.inl ⟨hsingle, rfl⟩)) fun double _ => .pure trivial
  · simp only [singleBlocks, if_neg hsingle, pure_bind]
    exact .iteBind (restBlocks_follows r hcount (.inr ⟨by omega, rfl⟩)) fun double _ => .pure trivial

theorem clear_follows (r : Record) : Follows (clear r) r.clear := by
  apply Agrees.bind (ownedBlocks_follows r)
  intro blocks _
  exact .pure trivial

end Checked

end InodeVolume
