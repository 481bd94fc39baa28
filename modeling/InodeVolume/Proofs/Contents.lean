import InodeVolume.Record.Content
import InodeVolume.Proofs.Index

/-!
# Bytes of the contents

Where byte `i` of the contents lies is a matter of the index: `Record.byteIn`. Reading answers just these
bytes (`read_tells`), however the transfer is cut. Writing replaces them from its offset on, all of them
or, where writes may fail, the first so many; the blocks of other files and the tables of this one stay
as they are (`write_replies`).

Writing relies on the bytes between the end of the contents and the end of their last block being
zero: the block under a piece that reaches the end is not read.
-/

namespace InodeVolume

/-- The `n` bytes from position `first` on. -/
def bytesFrom (f : Nat → UInt8) (first n : Nat) : ByteArray :=
  ⟨Array.ofFn fun i : Fin n => f (first + i)⟩

@[simp] theorem size_bytesFrom (f : Nat → UInt8) (first n : Nat) : (bytesFrom f first n).size = n := by
  simp [bytesFrom, ByteArray.size]

theorem getElem_bytesFrom (f : Nat → UInt8) {first n i : Nat} (h : i < (bytesFrom f first n).size) :
    (bytesFrom f first n)[i] = f (first + i) := by
  simp [bytesFrom, ByteArray.getElem_eq_getElem_data]

theorem bytesFrom_congr {f g : Nat → UInt8} {first first' n : Nat}
    (h : ∀ i, i < n → f (first + i) = g (first' + i)) : bytesFrom f first n = bytesFrom g first' n := by
  refine ByteArray.ext_getElem (by simp) fun i hx hy => ?_
  rw [getElem_bytesFrom, getElem_bytesFrom]
  exact h i (by simpa using hx)

theorem bytesFrom_append (f : Nat → UInt8) (first n m : Nat) :
    bytesFrom f first n ++ bytesFrom f (first + n) m = bytesFrom f first (n + m) := by
  refine ByteArray.ext_getElem (by simp) fun i hx hy => ?_
  rw [getElem_bytesFrom]
  by_cases hi : i < n
  · rw [ByteArray.getElem_append_left (by simpa using hi), getElem_bytesFrom]
  · rw [ByteArray.getElem_append_right (by simpa using hi), getElem_bytesFrom, size_bytesFrom,
      show first + n + (i - n) = first + i by omega]

theorem Block.slice_eq (b : Block) {start n : Nat} (h : start + n ≤ blockSize) :
    b.slice start n = bytesFrom b.byte start n := by
  have hb := b.size_bytes
  refine ByteArray.ext_getElem ?_ fun i hx hy => ?_
  · simp only [slice, ByteArray.size_extract, size_bytesFrom]
    omega
  · rw [getElem_bytesFrom]
    simp only [size_bytesFrom] at hy
    simp only [slice, ByteArray.getElem_extract]
    rw [byte, dif_pos (by omega)]

/-- Byte `i` of some data; zero past the end. -/
def byteOf (data : ByteArray) (i : Nat) : UInt8 := if h : i < data.size then data[i] else 0

/-- The bytes `f` with the first `k` bytes of `data` written over them from position `first` on. -/
def overwrite (f : Nat → UInt8) (first : Nat) (data : ByteArray) (k : Nat) (i : Nat) : UInt8 :=
  if first ≤ i ∧ i < first + k then byteOf data (i - first) else f i

namespace Record

variable {K : Regime} {st : Store} {D D' : Nat → Block} {r : Record} {c i : Nat}

/-- Byte `i` of the contents, with the blocks as `D` has them. -/
def byteIn (D : Nat → Block) (r : Record) (i : Nat) : UInt8 :=
  (D (pieceIn D r (i / blockSize)).toNat).byte (i % blockSize)

theorem byteIn_of_piece {p : Piece} {j : Nat} (h : p.start + j < blockSize) :
    byteIn D r (p.position blockSize + j) =
      (D (pieceIn D r p.cell).toNat).byte (p.start + j) := by
  simp only [blockSize] at h
  simp only [byteIn, Piece.position, blockSize]
  rw [show (p.cell * 512 + p.start + j) / 512 = p.cell by omega,
    show (p.cell * 512 + p.start + j) % 512 = p.start + j by omega]

theorem lt_dataBlocks {size i : Nat} : i / blockSize < dataBlocks size ↔ i / blockSize * blockSize < size := by
  simp only [dataBlocks, blockSize]
  omega

/-- Every byte of the contents lies in a piece of them. -/
theorem piece_lt {size i : Nat} (h : i < size) : i / blockSize < dataBlocks size :=
  lt_dataBlocks.2 (Nat.lt_of_le_of_lt (Nat.div_mul_le_self i blockSize) h)

/-- The bytes are the same where the blocks of the index have not changed. -/
theorem byteIn_congr (h : ∀ b ∈ blocksIn D r c, D' b.toNat = D b.toNat) (hi : i < c * blockSize) :
    byteIn D' r i = byteIn D r i := by
  have hc : i / blockSize < c := Nat.div_lt_of_lt_mul (by rwa [Nat.mul_comm])
  rw [byteIn, byteIn, pieceIn_congr (fun t ht => h t (table_mem ht)) hc, h _ (pieceIn_mem hc)]

/-! ## Reading -/

/-- A piece inside the contents is read from its block. -/
theorem readPiece_yields (h : Indexed K st.data r c) {p : Piece} (hp : p.start + p.size ≤ blockSize)
    (hc : p.cell < c) :
    Yields (Shows K) st (r.readPiece p)
      (bytesFrom (byteIn st.data r) (p.position blockSize) p.size) st := by
  have hdata := h.piece_data hc
  refine Yields.bind (blockAt_yields h hc) ?_
  rw [if_neg (toNat_ne_zero hdata)]
  refine Yields.bind (readBlock_yields hdata.plain) ?_
  show Leads _ _ (pure (Block.slice _ _ _)) _
  rw [Block.slice_eq _ hp]
  refine Leads.pure ⟨congrArg Except.ok ?_, rfl⟩
  refine bytesFrom_congr fun i hi => ?_
  exact (byteIn_of_piece (by omega)).symm

/-- Reading pieces that lie end to end. -/
theorem readPieces_tells (h : Indexed K st.data r c) (ps : List Piece) {first count : Nat}
    (hin : ∀ p ∈ ps, 0 < p.size ∧ p.start + p.size ≤ blockSize)
    (ht : Tiles blockSize first count ps) (hc : first + count ≤ c * blockSize) (found : ByteArray) :
    Tells (Shows K) st (r.readPieces found ps)
      (found ++ bytesFrom (byteIn st.data r) first count) := by
  -- By induction on the pieces, for anything that has been found so far: the next piece begins where that
  -- ends.
  induction ps generalizing first count found with
  | nil =>
    have h0 : count = 0 := ht
    subst h0
    have hnil : found ++ bytesFrom (byteIn st.data r) first 0 = found := by
      refine ByteArray.ext_getElem (by simp) fun i hx hy => ?_
      rw [ByteArray.getElem_append_left hy]
    rw [hnil]
    exact Tells.pure
  | cons p ps ih =>
    obtain ⟨hpos, hsize, hrest⟩ := ht
    obtain ⟨hp, hcell⟩ := hin p (List.mem_cons_self ..)
    have hcount : p.size + (count - p.size) = count := by omega
    have hlt : p.cell < c := Piece.cell_lt (w := blockSize) hp (by omega)
    intro disk hs
    obtain ⟨disk', hr, hs'⟩ := (readPiece_yields h hcell hlt).run hs
    rw [hpos] at hr
    have hstep := ih (fun q hq => hin q (List.mem_cons_of_mem p hq)) hrest (by omega)
      (found ++ bytesFrom (byteIn st.data r) first p.size) disk' hs'
    rw [ByteArray.append_assoc, bytesFrom_append, hcount] at hstep
    simpa only [readPieces, hr] using hstep

/-- Reading answers the bytes of the contents, up to their end. -/
theorem read_tells (h : Indexed K st.data r (dataBlocks r.length.toNat)) (offset count : Nat) :
    Tells (Shows K) st (r.read offset count)
      (bytesFrom (byteIn st.data r) offset (min count (r.length.toNat - offset))) := by
  have hread := readPieces_tells h (pieces blockSize offset (min count (r.length.toNat - offset)))
    (fun p hp => piece_in_cell hp) (pieces_tile (by decide) _ _)
  unfold read
  by_cases h0 : r.length.toNat ≤ offset
  · have hz : min count (r.length.toNat - offset) = 0 := by omega
    rw [hz, pieces_zero]
    exact Replies.pure ⟨by rw [← ByteArray.size_eq_zero_iff.1 (size_bytesFrom _ offset 0)], rfl⟩
  · have hle : offset + min count (r.length.toNat - offset) ≤
        dataBlocks r.length.toNat * blockSize := by
      simp only [dataBlocks, blockSize]
      omega
    have hall := hread hle .empty
    rwa [ByteArray.empty_append] at hall

/-! ## Writing -/

/-- The contents of `r` with `D'` are those with `D`, with the first `k` bytes of `data` written over
them. No other block has changed. -/
structure Overwritten (D D' : Nat → Block) (r : Record) (c first : Nat) (data : ByteArray) (k : Nat) :
    Prop where
  byte : ∀ i, i < c * blockSize → byteIn D' r i = overwrite (byteIn D r) first data k i
  frame : ∀ id, (∀ i, i < c → (pieceIn D r i).toNat ≠ id) → D' id = D id

section Overwritten

variable {first k : Nat} {data : ByteArray}

theorem Overwritten.refl (D : Nat → Block) (r : Record) (c first : Nat) (data : ByteArray) :
    Overwritten D D r c first data 0 :=
  ⟨fun i _ => by rw [overwrite, if_neg (by omega)], fun _ _ => rfl⟩

/-- Writing contents leaves the tables alone. -/
theorem Overwritten.table_eq (h : Overwritten D D' r c first data k) (hx : Indexed K D r c)
    {t : UInt32} (ht : t ∈ tablesIn D r c) : D' t.toNat = D t.toNat :=
  h.frame _ fun _ hi he => hx.piece_ne_table hi ht (UInt32.toNat_inj.1 he)

theorem Overwritten.blocksIn_eq (h : Overwritten D D' r c first data k) (hx : Indexed K D r c) :
    blocksIn D' r c = blocksIn D r c :=
  blocksIn_congr fun _ ht => h.table_eq hx ht

theorem Overwritten.pieceIn_eq (h : Overwritten D D' r c first data k) (hx : Indexed K D r c)
    (hi : i < c) : pieceIn D' r i = pieceIn D r i :=
  pieceIn_congr (fun _ ht => h.table_eq hx ht) hi

theorem Overwritten.indexed (h : Overwritten D D' r c first data k) (hx : Indexed K D r c) :
    Indexed K D' r c :=
  hx.congr fun _ ht => h.table_eq hx ht

end Overwritten

variable {p : Piece} {bytes : ByteArray}

/-- The block under a piece has the bytes of the contents outside the piece, whether it was read or
not. -/
theorem underPiece_answers (h : Indexed K st.data r c)
    (hzero : ∀ i, r.length.toNat ≤ i → i < c * blockSize → byteIn st.data r i = 0)
    (hin : p.start + p.size ≤ blockSize) (hend : p.position blockSize + p.size ≤ r.length.toNat)
    (hcell : p.cell < c) :
    Answers (Shows K) st (r.underPiece (pieceIn st.data r p.cell) p) fun b =>
      ∀ j, j < blockSize → ¬(p.start ≤ j ∧ j < p.start + p.size) →
        b.byte j = byteIn st.data r (p.cell * blockSize + j) := by
  have hdata := h.piece_data hcell
  have hbyte (j : Nat) (hj : j < blockSize) :
      byteIn st.data r (p.cell * blockSize + j) =
        (st.data (pieceIn st.data r p.cell).toNat).byte j := by
    have hpiece := byteIn_of_piece (D := st.data) (r := r) (p := ⟨p.cell, 0, 0⟩) (j := j) (by simpa using hj)
    simpa [Piece.position] using hpiece
  unfold underPiece
  by_cases hfull : p.size = blockSize
  · rw [if_pos hfull]
    exact Answers.pure fun j hj hout => by simp only [Piece.position] at hend; omega
  · rw [if_neg hfull]
    by_cases hread : 0 < p.start ∨ p.position blockSize + p.size < r.length.toNat
    · rw [if_pos hread]
      exact Yields.leads (readBlock_yields hdata.plain)
        ⟨⟨_, rfl, fun j hj _ => (hbyte j hj).symm⟩, rfl⟩
    · rw [if_neg hread]
      refine Answers.pure fun j hj hout => ?_
      -- The piece starts its block and reaches the end of the contents.
      have hlt : p.cell * blockSize + j < c * blockSize := by
        have hle := Nat.mul_le_mul_right blockSize (Nat.succ_le_of_lt hcell)
        rw [Nat.succ_mul] at hle
        omega
      simp only [Piece.position] at hend hread
      rw [Block.byte_zero, hzero _ (by omega) hlt]

theorem writePiece_leads (h : Indexed K st.data r c)
    (hzero : ∀ i, r.length.toNat ≤ i → i < c * blockSize → byteIn st.data r i = 0)
    (hin : p.start + p.size ≤ blockSize) (hend : p.position blockSize + p.size ≤ r.length.toNat)
    (hcell : p.cell < c) (hb : bytes.size = p.size) :
    Leads (Shows K) st (r.writePiece p bytes) fun res st' =>
      (res = .ok () ∧ ∃ b, st' = st.write (pieceIn st.data r p.cell).toNat b ∧
          ∀ j, j < blockSize → b.byte j =
            overwrite (byteIn st.data r) (p.position blockSize) bytes p.size
              (p.cell * blockSize + j)) ∨
        (K.faulty ∧ res = .error (.device .io) ∧ st' = st) := by
  have hdata := h.piece_data hcell
  unfold writePiece
  refine Yields.bind (blockAt_yields h hcell) ?_
  dsimp only
  rw [if_neg (toNat_ne_zero hdata)]
  refine Answers.bind (underPiece_answers h hzero hin hend hcell) fun under hunder => ?_
  refine Leads.mono (writeBlock_leads hdata.plain _) ?_
  rintro res st' (⟨rfl, rfl⟩ | ⟨hfault, rfl, rfl⟩)
  swap
  · exact .inr ⟨hfault, rfl, rfl⟩
  refine .inl ⟨rfl, _, rfl, fun j hj => ?_⟩
  rw [Block.byte_patch _ _ _ hj, overwrite]
  -- A byte of the block is one of the new ones, or what lay there before.
  by_cases hcover : p.start ≤ j ∧ j < p.start + p.size
  · have hsub : p.cell * blockSize + j - p.position blockSize = j - p.start := by
      simp only [Piece.position]
      omega
    rw [dif_pos (by omega), if_pos (by simp only [Piece.position]; omega), hsub, byteOf,
      dif_pos (by omega)]
  · rw [dif_neg (by omega), if_neg (by simp only [Piece.position]; omega)]
    exact hunder j hj hcover

/-- One more piece written over the contents. -/
theorem Overwritten.step {first done : Nat} {data : ByteArray} (h : Overwritten D D' r c first data done)
    (hx : Indexed K D r c) {b : Block} (hin : p.start + p.size ≤ blockSize) (hcell : p.cell < c)
    (hpos : p.position blockSize = first + done) (hdata : done + p.size ≤ data.size)
    (hb : ∀ j, j < blockSize → b.byte j = overwrite (byteIn D' r) (p.position blockSize)
      (data.extract done (done + p.size)) p.size (p.cell * blockSize + j)) :
    Overwritten D (Function.update D' (pieceIn D' r p.cell).toNat b) r c first data
      (done + p.size) := by
  have hx' := h.indexed hx
  have hbytes (j : Nat) (hj : j < p.size) :
      byteOf (data.extract done (done + p.size)) j = byteOf data (done + j) := by
    rw [byteOf, byteOf, dif_pos (by simp only [ByteArray.size_extract]; omega), dif_pos (by omega),
      ByteArray.getElem_extract]
  -- Another piece written over what has been written is as if both had been written at once.
  have hover (i : Nat) (hi : i < c * blockSize) :
      overwrite (byteIn D' r) (first + done) (data.extract done (done + p.size)) p.size i =
        overwrite (byteIn D r) first data (done + p.size) i := by
    rw [overwrite]
    by_cases hnew : first + done ≤ i ∧ i < first + done + p.size
    · rw [if_pos hnew, hbytes _ (by omega), overwrite, if_pos (by omega),
        show done + (i - (first + done)) = i - first by omega]
    · rw [if_neg hnew, h.byte i hi, overwrite, overwrite]
      by_cases hold : first ≤ i ∧ i < first + done
      · rw [if_pos hold, if_pos (by omega)]
      · rw [if_neg hold, if_neg (by omega)]
  -- The block that is written is no table of the index, so all pieces stay where they are.
  have hpiece (j : Nat) (hj : j < c) :
      pieceIn (Function.update D' (pieceIn D' r p.cell).toNat b) r j = pieceIn D' r j := by
    refine pieceIn_congr (fun t ht => ?_) hj
    exact Function.update_of_ne
      (fun he => hx'.piece_ne_table hcell ht (UInt32.toNat_inj.1 he.symm)) _ _
  refine ⟨fun i hi => ?_, fun id hid => ?_⟩
  · rw [← hover i hi, ← hpos]
    have hic : i / blockSize < c := by
      simp only [blockSize] at hi ⊢
      omega
    rw [byteIn, hpiece _ hic]
    by_cases he : i / blockSize = p.cell
    · rw [he, Function.update_self, hb _ (Nat.mod_lt _ (by decide)), ← he, Nat.mul_comm,
        Nat.div_add_mod]
    · have hne : (pieceIn D' r (i / blockSize)).toNat ≠ (pieceIn D' r p.cell).toNat :=
        fun h => he (hx'.piece_inj hic hcell (UInt32.toNat_inj.1 h))
      rw [Function.update_of_ne hne, overwrite, if_neg, byteIn]
      simp only [Piece.position, blockSize] at he hin ⊢
      omega
  · rw [Function.update_of_ne, h.frame id hid]
    rw [h.pieceIn_eq hx hcell]
    exact Ne.symm (hid _ hcell)

/-- Writing pieces that lie end to end, when `done` bytes of the data have been written. -/
theorem writePieces_replies {st₀ : Store} (hx : Indexed K st₀.data r c)
    (hzero : ∀ i, r.length.toNat ≤ i → i < c * blockSize → byteIn st₀.data r i = 0) (ps : List Piece)
    {first done count : Nat} {data : ByteArray}
    (hin : ∀ p ∈ ps, 0 < p.size ∧ p.start + p.size ≤ blockSize)
    (ht : Tiles blockSize (first + done) count ps) (hdata : done + count ≤ data.size)
    (hend : first + done + count ≤ r.length.toNat) (hc : r.length.toNat ≤ c * blockSize)
    (hover : Overwritten st₀.data st.data r c first data done) :
    Replies (Shows K) st (r.writePieces data done ps) fun k st' =>
      st'.used = st.used ∧ Overwritten st₀.data st'.data r c first data k ∧
        (k = done + count ∨ (K.faulty ∧ k ≤ done + count)) := by
  -- By induction on the pieces. The invariant is `Overwritten`: the first `done` bytes of the data lie over
  -- the contents, and all else is as it was.
  induction ps generalizing st done count with
  | nil =>
    have h0 : count = 0 := ht
    exact Replies.pure ⟨rfl, hover, .inl (by omega)⟩
  | cons p ps ih =>
    obtain ⟨hpos, hsize, hrest⟩ := ht
    obtain ⟨hp, hpin⟩ := hin p (List.mem_cons_self ..)
    have hlt : p.cell < c := Piece.cell_lt (w := blockSize) hp (by omega)
    have hzero' (i : Nat) (hi : r.length.toNat ≤ i) (hic : i < c * blockSize) :
        byteIn st.data r i = 0 := by
      rw [hover.byte i hic, overwrite, if_neg (by omega)]
      exact hzero i hi hic
    have hbytes : (data.extract done (done + p.size)).size = p.size := by
      simp only [ByteArray.size_extract]
      omega
    have hwrite := writePiece_leads (hover.indexed hx) hzero' hpin (by omega) hlt hbytes
    intro disk hs
    rcases hwrite.run hs with ⟨v, disk', st', hr, hs', hpost⟩ | ⟨e, disk', st', hr, hs', hpost⟩
    · obtain ⟨-, b, rfl, hb⟩ | ⟨-, he, -⟩ := hpost
      swap
      · cases he
      have hover' := hover.step hx hpin hlt hpos (by omega) hb
      obtain ⟨k, disk'', st'', hrun, hs'', hused, hk, hcount⟩ :=
        ih (fun q hq => hin q (List.mem_cons_of_mem p hq))
          (by rwa [← Nat.add_assoc]) (by omega) (by omega) hover' disk' hs'
      refine ⟨k, disk'', st'', by simp only [writePieces, hr, hrun], hs'', hused, hk, ?_⟩
      rwa [show done + p.size + (count - p.size) = done + count by omega] at hcount
    · -- A write that fails ends the loop; what has been written until then is counted.
      obtain ⟨he, -⟩ | ⟨hfault, -, rfl⟩ := hpost
      · cases he
      exact ⟨done, disk', _, by simp only [writePieces, hr], hs', rfl, hover,
        .inr ⟨hfault, by omega⟩⟩

/-- Writing over the contents replaces their bytes, all of them or, where writes may fail, the first
so many. -/
theorem write_replies (hx : Indexed K st.data r (dataBlocks r.length.toNat))
    (hzero : ∀ i, r.length.toNat ≤ i → i < dataBlocks r.length.toNat * blockSize →
      byteIn st.data r i = 0) {offset : Nat} {data : ByteArray}
    (hend : offset + data.size ≤ r.length.toNat) :
    Replies (Shows K) st (r.write offset data) fun k st' =>
      st'.used = st.used ∧
        Overwritten st.data st'.data r (dataBlocks r.length.toNat) offset data k ∧
        (k = data.size ∨ (K.faulty ∧ k ≤ data.size)) := by
  have hc : r.length.toNat ≤ dataBlocks r.length.toNat * blockSize := by
    simp only [dataBlocks, blockSize]
    omega
  -- The pieces follow one another from the offset on, so together they are the data.
  have htiles : Tiles blockSize (offset + 0) data.size (pieces blockSize offset data.size) :=
    pieces_tile (by decide) offset data.size
  refine Replies.mono (writePieces_replies hx hzero _ (fun p hp => piece_in_cell hp) htiles (by omega)
    (by omega) hc (Overwritten.refl _ _ _ _ _)) ?_
  rintro k st' ⟨hused, hover, hk⟩
  rw [Nat.zero_add] at hk
  exact ⟨hused, hover, hk⟩

end Record

end InodeVolume
