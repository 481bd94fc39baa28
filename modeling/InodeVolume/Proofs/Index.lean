import InodeVolume.Record.Index
import InodeVolume.Proofs.Store
import Mathlib.Data.List.Nodup

/-!
# What the index of a record says

The tables of an index lie in blocks like any other, so what a record refers to depends on what the
blocks hold. Here that is a function of the blocks: `pieceIn` is the block of a piece, `tablesIn` lists
the tables, and `blocksIn` lists everything that a record with `c` pieces refers to. An index is sound
(`Indexed`) if no block occurs twice in that list and all of them are there for data.

* Looking a piece up answers `pieceIn` (`blockAt_yields`).
* Listing the blocks of an index lists `blocksIn`, in some order (`ownedBlocks_answers`).
* What the index says depends on its tables alone (`blocksIn_congr`).
-/

namespace InodeVolume

/-- The first `n` words of a block. -/
def Block.words (b : Block) (n : Nat) : List UInt32 := (List.range n).map b.word

@[simp] theorem Block.words_zero (b : Block) : b.words 0 = [] := rfl

theorem Block.words_succ (b : Block) (n : Nat) : b.words (n + 1) = b.words n ++ [b.word n] := by
  simp [words, List.range_succ]

theorem Block.mem_words {b : Block} {n : Nat} {w : UInt32} : w ∈ b.words n ↔ ∃ j, j < n ∧ b.word j = w := by
  simp [words]

theorem Block.words_congr {b b' : Block} {n : Nat} (h : ∀ j, j < n → b'.word j = b.word j) :
    b'.words n = b.words n := by
  refine List.map_congr_left fun j hj => h j (List.mem_range.1 hj)

/-! ## The doubly indirect tier -/

/-- How many tables hold the pointers to `n` pieces. -/
def tableCount (n : Nat) : Nat := (n + (blockWords - 1)) / blockWords

/-- Piece `j` below an outer table. -/
def outerPiece (D : Nat → Block) (outer : Block) (j : Nat) : UInt32 :=
  (D (outer.word (j / blockWords)).toNat).word (j % blockWords)

/-- The first `n` pieces below an outer table, and the inner tables that point at them. -/
def outerBlocks (D : Nat → Block) (outer : Block) (n : Nat) : List UInt32 :=
  (List.range n).map (outerPiece D outer) ++ outer.words (tableCount n)

@[simp] theorem tableCount_zero : tableCount 0 = 0 := rfl

theorem cell_lt_tableCount {j n : Nat} (h : j < n) : j / blockWords < tableCount n := by
  simp only [tableCount, blockWords]
  omega

/-- What lies below an outer table depends on the inner tables alone. -/
theorem outerPiece_congr {D D' : Nat → Block} {outer : Block} {n : Nat}
    (h : ∀ t ∈ outer.words (tableCount n), D' t.toNat = D t.toNat) {j : Nat} (hj : j < n) :
    outerPiece D' outer j = outerPiece D outer j := by
  rw [outerPiece, outerPiece, h]
  exact Block.mem_words.2 ⟨_, cell_lt_tableCount hj, rfl⟩

theorem outerBlocks_congr {D D' : Nat → Block} {outer : Block} {n : Nat}
    (h : ∀ t ∈ outer.words (tableCount n), D' t.toNat = D t.toNat) :
    outerBlocks D' outer n = outerBlocks D outer n := by
  rw [outerBlocks, outerBlocks,
    List.map_congr_left fun j hj => outerPiece_congr h (List.mem_range.1 hj)]

/-- The cells of a span that starts at position 0. -/
theorem cell_lt_of_mem_pieces {n : Nat} {p : Piece} (h : p ∈ pieces blockWords 0 n) :
    p.cell < tableCount n := by
  -- The induction is on where the pieces begin, which is at zero only for the first of them.
  suffices hall : ∀ first count, p ∈ pieces blockWords first count → first + count ≤ n →
      p.cell < tableCount n from hall 0 n h (by omega)
  intro first count hp hle
  fun_induction pieces blockWords first count with
  | case1 => simp at hp
  | case2 first count hc size ih =>
    have hcount : count ≠ 0 := fun h0 => hc (.inr h0)
    have hsize : size ≤ count := Nat.min_le_left _ _
    rcases List.mem_cons.1 hp with rfl | hp
    · exact cell_lt_tableCount (by omega)
    · exact ih hp (by omega)

namespace Record

/-! ## The blocks of an index -/

/-- Pointer `i` in the record itself. -/
def directAt (r : Record) (i : Nat) : UInt32 := r.direct[i]?.getD 0

/-- The block of piece `i`, with the tables as `D` has them. -/
def pieceIn (D : Nat → Block) (r : Record) (i : Nat) : UInt32 :=
  if i < directCount then r.directAt i
  else if i < singleReach then (D r.single.toNat).word (i - directCount)
  else outerPiece D (D r.double.toNat) (i - singleReach)

/-- The tables of an index of `c` pieces. -/
def tablesIn (D : Nat → Block) (r : Record) (c : Nat) : List UInt32 :=
  (if directCount < c then [r.single] else []) ++
    (if singleReach < c then r.double :: (D r.double.toNat).words (tableCount (c - singleReach))
      else [])

/-- All blocks of an index of `c` pieces. -/
def blocksIn (D : Nat → Block) (r : Record) (c : Nat) : List UInt32 :=
  (List.range c).map (pieceIn D r) ++ tablesIn D r c

/-- How many blocks an index of `c` pieces has. -/
def indexSize (c : Nat) : Nat :=
  c + (if directCount < c then 1 else 0) +
    (if singleReach < c then 1 + tableCount (c - singleReach) else 0)

theorem totalBlocks_eq (size : Nat) : totalBlocks size = indexSize (dataBlocks size) := rfl

/-- The index of `c` pieces refers to blocks for data only, and to each of them once. -/
structure Indexed (K : Regime) (D : Nat → Block) (r : Record) (c : Nat) : Prop where
  le : c ≤ maxBlocks
  data : ∀ b ∈ blocksIn D r c, K.IsData b.toNat
  nodup : (blocksIn D r c).Nodup

variable {K : Regime} {D D' : Nat → Block} {r : Record} {c i : Nat}

theorem length_blocksIn (D : Nat → Block) (r : Record) (c : Nat) :
    (blocksIn D r c).length = indexSize c := by
  simp only [blocksIn, tablesIn, indexSize, List.length_append, List.length_map, List.length_range]
  split <;> split <;> simp [Block.words] <;> omega

theorem pieceIn_mem (hi : i < c) : pieceIn D r i ∈ blocksIn D r c :=
  List.mem_append_left _ (List.mem_map.2 ⟨i, List.mem_range.2 hi, rfl⟩)

theorem table_mem {t : UInt32} (ht : t ∈ tablesIn D r c) : t ∈ blocksIn D r c :=
  List.mem_append_right _ ht

theorem single_mem (h : directCount < c) : r.single ∈ tablesIn D r c := by
  simp [tablesIn, h]

theorem double_mem (h : singleReach < c) : r.double ∈ tablesIn D r c := by
  simp [tablesIn, h]

theorem inner_mem {t : UInt32} (h : singleReach < c)
    (ht : t ∈ (D r.double.toNat).words (tableCount (c - singleReach))) : t ∈ tablesIn D r c := by
  simp [tablesIn, h, ht]

/-- No piece lies on a table. -/
theorem Indexed.piece_ne_table (h : Indexed K D r c) (hi : i < c) {t : UInt32}
    (ht : t ∈ tablesIn D r c) : pieceIn D r i ≠ t := by
  have hd := (List.nodup_append.1 h.nodup).2.2
  exact hd _ (List.mem_map.2 ⟨i, List.mem_range.2 hi, rfl⟩) _ ht

/-- Different pieces lie on different blocks. -/
theorem Indexed.piece_inj (h : Indexed K D r c) {j : Nat} (hi : i < c) (hj : j < c)
    (he : pieceIn D r i = pieceIn D r j) : i = j := by
  have hn := (List.nodup_append.1 h.nodup).1
  exact List.inj_on_of_nodup_map hn (List.mem_range.2 hi) (List.mem_range.2 hj) he

theorem Indexed.piece_data (h : Indexed K D r c) (hi : i < c) : K.IsData (pieceIn D r i).toNat :=
  h.data _ (pieceIn_mem hi)

theorem Indexed.table_data (h : Indexed K D r c) {t : UInt32} (ht : t ∈ tablesIn D r c) :
    K.IsData t.toNat :=
  h.data _ (table_mem ht)

/-! ## What the index depends on -/

/-- What an index says depends on its tables alone. -/
theorem pieceIn_congr (h : ∀ t ∈ tablesIn D r c, D' t.toNat = D t.toNat) (hi : i < c) :
    pieceIn D' r i = pieceIn D r i := by
  unfold pieceIn
  split
  · rfl
  · split
    · rw [h _ (single_mem (by omega))]
    · rw [h _ (double_mem (by omega))]
      exact outerPiece_congr (n := c - singleReach)
        (fun t ht => h t (inner_mem (by omega) ht)) (by omega)

theorem tablesIn_congr (h : ∀ t ∈ tablesIn D r c, D' t.toNat = D t.toNat) :
    tablesIn D' r c = tablesIn D r c := by
  unfold tablesIn
  by_cases hc : singleReach < c
  · rw [h _ (double_mem hc)]
  · simp only [if_neg hc]

theorem blocksIn_congr (h : ∀ t ∈ tablesIn D r c, D' t.toNat = D t.toNat) :
    blocksIn D' r c = blocksIn D r c := by
  rw [blocksIn, blocksIn, tablesIn_congr h]
  congr 1
  exact List.map_congr_left fun i hi => pieceIn_congr h (List.mem_range.1 hi)

theorem Indexed.congr (h : Indexed K D r c) (ht : ∀ t ∈ tablesIn D r c, D' t.toNat = D t.toNat) :
    Indexed K D' r c where
  le := h.le
  data := by
    rw [blocksIn_congr ht]
    exact h.data
  nodup := by
    rw [blocksIn_congr ht]
    exact h.nodup

/-! ## Looking pieces up -/

variable {st : Store}

theorem toNat_ne_zero {b : UInt32} (h : K.IsData b.toNat) : b ≠ 0 := by
  rintro rfl
  have := h.pos
  simp at this

/-- Whoever sees a disk as `a` finds the tables of an index of `c` pieces as `D` has them. -/
structure Readable {A : Type} (R : A → Disk → Prop) (a : A) (D : Nat → Block) (r : Record) (c : Nat) :
    Prop where
  le : c ≤ maxBlocks
  ne_zero : ∀ t ∈ tablesIn D r c, t ≠ 0
  reads : ∀ t ∈ tablesIn D r c, Yields R a (DiskM.readBlock t.toNat) (D t.toNat) a

theorem Indexed.readable (h : Indexed K st.data r c) : Readable (Shows K) st st.data r c where
  le := h.le
  ne_zero _ ht := toNat_ne_zero (h.table_data ht)
  reads _ ht := readBlock_yields (h.table_data ht).plain

section Readable

variable {A : Type} {R : A → Disk → Prop} {a : A}

/-- Looking up a block of a readable index answers its number. -/
theorem Readable.blockAt_yields (h : Readable R a D r c) (hi : i < c) :
    Yields R a (r.blockAt i) (pieceIn D r i) a := by
  -- A table that is in the index has a number and can be read.
  have hmax := h.le
  unfold blockAt pieceIn
  split
  · rename_i hd
    have hdirect : r.directAt i = r.direct[i] := by
      simp [directAt, hd]
    rw [hdirect]
    exact Yields.pure
  · split
    · have ht : r.single ∈ tablesIn D r c := single_mem (by omega)
      rw [if_neg (h.ne_zero _ ht)]
      exact Yields.trans (h.reads _ ht) Yields.pure
    · have hsingle : singleReach < c := by omega
      have ht : r.double ∈ tablesIn D r c := double_mem hsingle
      have hinner : (D r.double.toNat).word ((i - singleReach) / blockWords) ∈ tablesIn D r c :=
        inner_mem hsingle (Block.mem_words.2 ⟨_, cell_lt_tableCount (by omega), rfl⟩)
      rw [if_pos (by omega), if_neg (h.ne_zero _ ht)]
      refine Yields.trans (h.reads _ ht) ?_
      rw [if_neg (h.ne_zero _ hinner)]
      exact Yields.trans (h.reads _ hinner) Yields.pure

end Readable

/-- Looking up a piece of a sound index answers its block. -/
theorem blockAt_yields (h : Indexed K st.data r c) (hi : i < c) :
    Yields (Shows K) st (r.blockAt i) (pieceIn st.data r i) st :=
  h.readable.blockAt_yields hi

/-! ## Listing the blocks of an index -/

/-- The blocks of an index of `c` pieces, one tier after the other. -/
def tiersIn (D : Nat → Block) (r : Record) (c : Nat) : List UInt32 :=
  (List.range (min c directCount)).map r.directAt ++
    (if directCount < c then
      (D r.single.toNat).words (min (c - directCount) blockWords) ++ [r.single] else []) ++
    (if singleReach < c then
      outerBlocks D (D r.double.toNat) (c - singleReach) ++ [r.double] else [])

/-- The pieces, one tier after the other. -/
theorem pieces_by_tier (D : Nat → Block) (r : Record) (c : Nat) :
    (List.range c).map (pieceIn D r) =
      (List.range (min c directCount)).map r.directAt ++
        (D r.single.toNat).words (min (c - directCount) blockWords) ++
        (List.range (c - singleReach)).map (outerPiece D (D r.double.toNat)) := by
  -- The range is cut where the first and the second tier end.
  have hc : c = min c directCount + min (c - directCount) blockWords + (c - singleReach) := by
    simp only [singleReach]
    omega
  conv_lhs => rw [hc]
  rw [List.range_add, List.range_add, List.map_append, List.map_append, List.map_map, List.map_map]
  refine congrArg₂ (· ++ ·) (congrArg₂ (· ++ ·) ?_ ?_) ?_
  · refine List.map_congr_left fun i hi => ?_
    have := List.mem_range.1 hi
    rw [pieceIn, if_pos (by omega)]
  · refine List.map_congr_left fun i hi => ?_
    have := List.mem_range.1 hi
    have hd : min c directCount = directCount := by omega
    simp only [Function.comp, hd, pieceIn]
    rw [if_neg (by omega), if_pos (by simp only [singleReach]; omega), Nat.add_sub_cancel_left]
  · refine List.map_congr_left fun i hi => ?_
    have := List.mem_range.1 hi
    have hd : min c directCount + min (c - directCount) blockWords = singleReach := by
      simp only [singleReach] at *
      omega
    simp only [Function.comp, hd, pieceIn]
    rw [if_neg (by simp only [singleReach]; omega), if_neg (by omega), Nat.add_sub_cancel_left]

/-- The order of the tiers is another order of the same blocks. -/
theorem tiersIn_perm (D : Nat → Block) (r : Record) (c : Nat) :
    (tiersIn D r c).Perm (blocksIn D r c) := by
  rw [blocksIn, pieces_by_tier, tiersIn, tablesIn]
  -- Which tables there are depends on how many tiers are reached.
  by_cases hs : directCount < c
  · by_cases hd : singleReach < c
    · simp only [if_pos hs, if_pos hd, outerBlocks]
      rw [List.perm_iff_count]
      intro b
      simp only [List.count_append, List.count_cons, List.count_nil]
      omega
    · have h0 : c - singleReach = 0 := by omega
      simp [if_pos hs, if_neg hd, h0]
  · have hd : ¬singleReach < c := by
      simp only [singleReach]
      omega
    have h0 : c - singleReach = 0 := by omega
    have h1 : c - directCount = 0 := by omega
    simp [if_neg hs, if_neg hd, h0, h1, Block.words]

/-- The pieces below one inner table, followed by the table. -/
def innerBlocks (D : Nat → Block) (outer : Block) (p : Piece) : List UInt32 :=
  (D (outer.word p.cell).toNat).words p.size ++ [outer.word p.cell]

/-- Going through whole inner tables from piece `first` on meets every piece and every table. -/
theorem innerBlocks_perm (D : Nat → Block) (outer : Block) (first count : Nat)
    (h : count = 0 ∨ first % blockWords = 0) :
    ((pieces blockWords first count).map (innerBlocks D outer)).flatten.Perm
      ((List.range count).map (fun j => outerPiece D outer (first + j)) ++
        (List.range (tableCount count)).map fun j => outer.word (first / blockWords + j)) := by
  fun_induction pieces blockWords first count with
  | case1 first count hc =>
    have hzero : count = 0 := by simpa [blockWords] using hc
    subst hzero
    simp [tableCount, blockWords]
  | case2 first count hc size ih =>
    have hcount : count ≠ 0 := fun h0 => hc (.inr h0)
    have hfirst := h.resolve_left hcount
    have hsize : size = min count blockWords := by
      simp only [size, hfirst, Nat.sub_zero]
    -- All tables but the last are full, so the rest starts with a table again.
    have hrest : count - size = 0 ∨ (first + size) % blockWords = 0 := by
      simp only [blockWords] at hfirst hsize ⊢
      omega
    have hrange : count = size + (count - size) := by omega
    have htables : tableCount count = 1 + tableCount (count - size) := by
      simp only [tableCount, blockWords] at hsize ⊢
      omega
    have hcell : count - size = 0 ∨ (first + size) / blockWords = first / blockWords + 1 := by
      simp only [blockWords] at hfirst hsize ⊢
      omega
    have hpieces : (List.range count).map (fun j => outerPiece D outer (first + j)) =
        (D (outer.word (first / blockWords)).toNat).words size ++
          (List.range (count - size)).map fun j => outerPiece D outer (first + size + j) := by
      conv_lhs => rw [hrange, List.range_add, List.map_append, List.map_map]
      refine congrArg₂ (· ++ ·) ?_ ?_
      · refine List.map_congr_left fun j hj => ?_
        have := List.mem_range.1 hj
        simp only [blockWords] at hfirst hsize
        simp only [outerPiece, blockWords]
        rw [show (first + j) / 128 = first / 128 by omega, show (first + j) % 128 = j by omega]
      · refine List.map_congr_left fun j _ => ?_
        simp only [Function.comp, Nat.add_assoc]
    have houter : (List.range (tableCount count)).map (fun j => outer.word (first / blockWords + j)) =
        outer.word (first / blockWords) :: (List.range (tableCount (count - size))).map
          fun j => outer.word ((first + size) / blockWords + j) := by
      rw [htables, List.range_add, List.map_append, List.map_map]
      refine congrArg (_ :: ·) ?_
      refine List.map_congr_left fun j hj => ?_
      rcases hcell with h0 | hnext
      · rw [h0] at hj
        simp [tableCount, blockWords] at hj
      · rw [hnext]
        simp only [Function.comp, Nat.add_assoc]
    rw [hpieces, houter, List.map_cons, List.flatten_cons]
    refine (List.Perm.append_left _ (ih hrest)).trans ?_
    simp only [innerBlocks]
    rw [List.perm_iff_count]
    intro b
    simp only [List.count_append, List.count_cons, List.count_nil]
    omega

/-- The blocks of an index of `c` pieces in the order in which they are listed. -/
def listedIn (D : Nat → Block) (r : Record) (c : Nat) : List UInt32 :=
  r.direct.toList.take c ++
    (if directCount < c then
      (D r.single.toNat).words (min (c - directCount) blockWords) ++ [r.single] else []) ++
    (if singleReach < c then
      ((pieces blockWords 0 (c - singleReach)).map (innerBlocks D (D r.double.toNat))).flatten ++ [r.double]
      else [])

/-- The blocks that a record lists are those of its index, in another order. -/
theorem listedIn_perm (D : Nat → Block) (r : Record) (c : Nat) :
    (listedIn D r c).Perm (blocksIn D r c) := by
  -- The direct blocks that are in use are the first ones.
  have hdirect : r.direct.toList.take c = (List.range (min c directCount)).map r.directAt := by
    refine List.ext_getElem (by simp) fun i hi hi' => ?_
    simp only [List.length_map, List.length_range] at hi'
    have hlt : i < directCount := by omega
    simp [directAt, hlt]
  refine List.Perm.trans ?_ (tiersIn_perm D r c)
  rw [listedIn, tiersIn, hdirect]
  refine List.Perm.append_left _ ?_
  by_cases hd : singleReach < c
  · rw [if_pos hd, if_pos hd]
    refine List.Perm.append_right _ ?_
    have hperm := innerBlocks_perm D (D r.double.toNat) 0 (c - singleReach) (.inr (by decide))
    simpa [outerBlocks, Block.words] using hperm
  · rw [if_neg hd, if_neg hd]

/-- The list depends on the tables alone. -/
theorem listedIn_congr (h : ∀ t ∈ tablesIn D r c, D' t.toNat = D t.toNat) :
    listedIn D' r c = listedIn D r c := by
  rw [listedIn, listedIn]
  -- Only the tables are read to list the blocks.
  refine congrArg₂ (· ++ ·) (congrArg₂ (· ++ ·) rfl ?_) ?_
  · by_cases hs : directCount < c
    · rw [h _ (single_mem hs)]
    · rw [if_neg hs, if_neg hs]
  · by_cases hd : singleReach < c
    · rw [if_pos hd, if_pos hd, h _ (double_mem hd)]
      refine congrArg (List.flatten · ++ _) (List.map_congr_left fun p hp => ?_)
      rw [innerBlocks, innerBlocks, h _ (inner_mem hd (Block.mem_words.2 ⟨_, cell_lt_of_mem_pieces hp, rfl⟩))]
    · rw [if_neg hd, if_neg hd]

section Readable

variable {A : Type} {R : A → Disk → Prop} {a : A}

theorem Readable.tableBlocks_yields (h : Readable R a D r c) {t : UInt32} (ht : t ∈ tablesIn D r c) (n : Nat) :
    Yields R a (tableBlocks t n) ((D t.toNat).words n ++ [t]) a :=
  Yields.trans (h.reads t ht) Yields.pure

/-- Listing the doubly indirect tier. -/
theorem Readable.doubleBlocks_yields (h : Readable R a D r c) (hc : singleReach < c) :
    Yields R a (doubleBlocks r.double (c - singleReach))
      (((pieces blockWords 0 (c - singleReach)).map
        (innerBlocks D (D r.double.toNat))).flatten ++ [r.double]) a := by
  have hmin : min (c - singleReach) (blockWords * blockWords) = c - singleReach := by
    have := h.le
    simp only [maxBlocks] at this
    omega
  refine Yields.trans (h.reads _ (double_mem hc)) ?_
  rw [hmin]
  refine Yields.trans (Yields.mapM fun p hp => ?_) Yields.pure
  exact h.tableBlocks_yields
    (inner_mem hc (Block.mem_words.2 ⟨p.cell, cell_lt_of_mem_pieces hp, rfl⟩)) p.size

theorem Readable.ownedBlocks_yields (h : Readable R a D r (dataBlocks r.length.toNat)) :
    Yields R a r.ownedBlocks (listedIn D r (dataBlocks r.length.toNat)) a := by
  generalize hc : dataBlocks r.length.toNat = c at h
  have hsingle : Yields R a
      (if directCount < c then tableBlocks r.single (min (c - directCount) blockWords) else pure [])
      (if directCount < c then
        (D r.single.toNat).words (min (c - directCount) blockWords) ++ [r.single] else []) a := by
    by_cases hs : directCount < c
    · rw [if_pos hs, if_pos hs]
      exact h.tableBlocks_yields (single_mem hs) _
    · rw [if_neg hs, if_neg hs]
      exact Yields.pure
  have hdouble : Yields R a
      (if singleReach < c then doubleBlocks r.double (c - singleReach) else pure [])
      (if singleReach < c then
        ((pieces blockWords 0 (c - singleReach)).map
          (innerBlocks D (D r.double.toNat))).flatten ++ [r.double] else []) a := by
    by_cases hd : singleReach < c
    · rw [if_pos hd, if_pos hd]
      exact h.doubleBlocks_yields hd
    · rw [if_neg hd, if_neg hd]
      exact Yields.pure
  -- The three tiers are listed independently of each other, and each is known from here on.
  have hshape : r.ownedBlocks = (do
      let single ←
        (if directCount < c then tableBlocks r.single (min (c - directCount) blockWords) else pure [])
      let double ← (if singleReach < c then doubleBlocks r.double (c - singleReach) else pure [])
      pure (r.direct.toList.take c ++ single ++ double)) := by
    unfold ownedBlocks
    by_cases hs : directCount < c <;> by_cases hd : singleReach < c <;>
      simp only [hc, hs, hd, ↓reduceIte]
  rw [hshape]
  exact Yields.trans hsingle (Yields.trans hdouble Yields.pure)

end Readable

/-- Listing the blocks of a sound index. -/
theorem ownedBlocks_yields (h : Indexed K st.data r (dataBlocks r.length.toNat)) :
    Yields (Shows K) st r.ownedBlocks (listedIn st.data r (dataBlocks r.length.toNat)) st :=
  h.readable.ownedBlocks_yields

/-- Listing the blocks of a sound index lists each of them once. -/
theorem ownedBlocks_answers (h : Indexed K st.data r (dataBlocks r.length.toNat)) :
    Answers (Shows K) st r.ownedBlocks fun l =>
      l.Perm (blocksIn st.data r (dataBlocks r.length.toNat)) :=
  Yields.leads (ownedBlocks_yields h) ⟨⟨_, rfl, listedIn_perm ..⟩, rfl⟩

end Record

end InodeVolume
