import InodeVolume.Proofs.CheckedGrowth
import InodeVolume.Proofs.CheckedMaps
import InodeVolume.Proofs.Counterparts

/-!
# Contents, checked

Growing, emptying, reading and writing the contents behind a record, as a machine does it.

* Growing compares the target with the longest contents before it makes 32 bits of it, and takes as many blocks
  as the new length needs more than the old one, which is none too few for a length that is longer
  (`grow_follows`).
* A transfer goes on from block to block. In each round what is left of the request, of the contents and of the
  block is taken off, and the smallest of the three is the size of the piece. It ends in one round more than
  the recorded length has blocks, whatever is asked for (`read_agrees`, `write_follows`).
-/

namespace InodeVolume

namespace Checked

variable {ε σ α : Type}

/-- Takes up an outcome again. -/
def resume : Except ε α → Checked ε σ α
  | .ok a => pure a
  | .error e => fail e

theorem resume_follows {P : α → Prop} (r : Except ε α) (h : ∀ a, r = .ok a → P a) :
    Agrees .any P (resume r : Checked ε σ α) (InodeVolume.resume r) := by
  cases r with
  | ok a => exact .pure (h a rfl)
  | error e => exact Follows.fail

/-! ## Taking blocks and giving them back -/

/-- Takes `n` blocks one by one and fills each with zeros. -/
def takeZeroed (m : SpaceMap) (taken : List UInt32) : Nat → Checked (Error × List UInt32) Disk (List UInt32)
  | 0 => pure taken.reverse
  | n + 1 => do
    match ← attempt (allocate m 1) with
    | .error e => fail (e, taken.reverse)
    | .ok b =>
      match ← attempt (plain (DiskM.writeBlock b.toNat .zero)) with
      | .error e => fail (e, (b :: taken).reverse)
      | .ok () => takeZeroed m (b :: taken) n

/-- Gives blocks back one by one, going on after a failure, and then reports the first failure. -/
def releaseEach (m : SpaceMap) (blocks : List UInt32) : Checked Error Disk Unit := do
  let outcome ← blocks.foldlM (fun outcome b => do
    let released ← attempt (release m b 1)
    pure (outcome *> released)) (Except.ok ())
  resume outcome

/-- Gives blocks back and passes over failures. -/
def discardEach (m : SpaceMap) (blocks : List UInt32) : Checked Error Disk Unit := do
  let _ ← (attempt (releaseEach m blocks) : Checked Error Disk (Except Error Unit))

/-- Takes `n` zeroed blocks, or none. -/
def allocateZeroed (m : SpaceMap) (n : Nat) : Checked Error Disk (List UInt32) := do
  room n
  match ← attempt (takeZeroed m [] n) with
  | .ok blocks => pure blocks
  | .error (e, taken) =>
    discardEach m taken
    fail e

section Blocks

variable {m : SpaceMap}

theorem takeZeroed_follows (hbits : m.bits ≤ UInt32.size) (taken : List UInt32) (n : Nat) :
    Follows (takeZeroed m taken n) (m.takeZeroed taken n) := by
  induction n generalizing taken with
  | zero => exact .pure trivial
  | succ n ih =>
    refine .bind (Follows.attempt (allocate_follows hbits 1)) fun r _ => ?_
    cases r with
    | error e => exact Follows.fail
    | ok b =>
      refine .bind (Follows.attempt (Follows.plain _)) fun r _ => ?_
      cases r with
      | error e => exact Follows.fail
      | ok u => exact ih (b :: taken)

theorem releaseEach_follows (hbits : m.bits ≤ UInt32.size) (blocks : List UInt32) :
    Follows (releaseEach m blocks) (m.releaseEach blocks) := by
  refine .bind (Agrees.foldlM (Q := fun _ => True) (fun outcome b _ _ => ?_) trivial) fun outcome _ => ?_
  · exact .bind (Follows.attempt (release_follows hbits b 1)) fun _ _ => .pure trivial
  · exact resume_follows _ fun _ _ => trivial

theorem discardEach_follows (hbits : m.bits ≤ UInt32.size) (blocks : List UInt32) :
    Follows (discardEach m blocks) (m.discardEach blocks) :=
  .bind (Follows.attempt (releaseEach_follows hbits blocks)) fun _ _ => .pure trivial

theorem allocateZeroed_follows (hbits : m.bits ≤ UInt32.size) {n : Nat} (hn : n < 2 * 16777216) :
    Follows (allocateZeroed m n) (m.allocateZeroed n) := by
  refine .check (room_eq (by simp only [UInt64.size]; omega)) ?_
  refine .bind (Follows.attempt (takeZeroed_follows hbits [] n)) fun r _ => ?_
  rcases r with ⟨e, taken⟩ | blocks
  · exact .bind (discardEach_follows hbits taken) fun _ _ => Follows.fail
  · exact .pure trivial

end Blocks

/-! ## Growing and emptying -/

/-- Stores a record as inode `id`. -/
def store (id : UInt32) (r : Record) : Checked Error Disk Unit := do
  let b ← encode r
  plain (DiskM.writeBlock id.toNat b)

/-- Extends the contents of `r` to `size` bytes with `count` new blocks and stores the record as inode `id`. -/
def extendStored (m : SpaceMap) (id : UInt32) (r : Record) (size : UInt32) (count : Nat) :
    Checked Error Disk Record := do
  let fresh ← allocateZeroed m count
  let extended : Checked Error Disk Record := do
    let grown ← expanded r size fresh
    store id grown
    pure grown
  match ← attempt extended with
  | .ok grown => pure grown
  | .error e =>
    discardEach m fresh
    fail e

/-- Grows the contents of inode `id` to `target` bytes. -/
def grow (m : SpaceMap) (id : UInt32) (r : Record) (target : Nat) : Checked Error Disk Record :=
  if maxFileSize < target then fail .fileTooLarge
  else do
    let size ← narrow target
    if size.toNat ≤ r.length.toNat then pure r
    else
      let needed ← totalBlocks size.toNat
      let there ← totalBlocks r.length.toNat
      let count ← sub needed there
      extendStored m id r size count

/-- Writes the emptied record as inode `id`; answers the blocks that it no longer refers to. -/
def truncate (id : UInt32) (r : Record) : Checked Error Disk (List UInt32 × Record) := do
  let (blocks, emptied) ← clear r
  store id emptied
  pure (blocks, emptied)

section Growing

variable {m : SpaceMap} {id : UInt32} {r : Record}

theorem store_follows (id : UInt32) (r : Record) : Follows (store id r) (r.store id) := by
  rw [store, encode_eq, pure_bind]
  exact Follows.plain _

/-- Extending a record and storing it follows the plain one, also when the blocks are given back. -/
theorem extendStored_follows (id : UInt32) (hbits : m.bits ≤ UInt32.size) {size : UInt32} (h : r.length.toNat ≤ size.toNat)
    {count : Nat} (hcount : count < 2 * 16777216) :
    Follows (extendStored m id r size count) (r.extendStored m id size.toNat count) := by
  refine .bind (allocateZeroed_follows hbits hcount) fun fresh _ => ?_
  have hextended : Follows
      (do
        let grown ← expanded r size fresh
        store id grown
        pure grown)
      (do
        let grown ← r.expanded size.toNat fresh
        grown.store id
        pure grown) :=
    .bind (expanded_follows r h fresh) fun grown _ => .bind (store_follows id grown) fun _ _ => .pure trivial
  refine .bind (Follows.attempt hextended) fun outcome _ => ?_
  -- After an error the blocks that were taken are given back, and then it is handed on.
  cases outcome with
  | ok grown => exact .pure trivial
  | error e => exact .bind (discardEach_follows hbits fresh) fun _ _ => Follows.fail

/-- Growing to any target ends with a record or an error, whatever length the record has. -/
theorem grow_follows (hbits : m.bits ≤ UInt32.size) (id : UInt32) (r : Record) (target : Nat) :
    Follows (grow m id r target) (r.grow m id target) := by
  unfold grow Record.grow
  by_cases hmax : maxFileSize < target
  · rw [if_pos hmax, if_pos hmax]
    exact Follows.fail
  have htarget : target < UInt32.size := by
    simp only [maxFileSize, maxBlocks, singleReach, directCount, blockWords, blockSize, UInt32.size] at hmax ⊢
    omega
  have hsize : (UInt32.ofNat target).toNat = target := UInt32.toNat_ofNat_of_lt' htarget
  rw [if_neg hmax, if_neg hmax]
  -- The target fits into a word, so taking it as one loses nothing.
  refine .check (narrow_eq htarget) ?_
  rw [hsize]
  refine .ite (fun _ => .pure trivial) fun hmore => ?_
  have hle : r.length.toNat ≤ target := by omega
  -- More bytes need no fewer blocks, so the difference does not fall below zero.
  have hneeded := totalBlocks_lt htarget
  refine .check (totalBlocks_eq htarget) (.check (totalBlocks_eq r.length.toNat_lt_size) ?_)
  refine .check (sub_eq (Record.totalBlocks_mono hle)) ?_
  have hcount : Record.totalBlocks target - Record.totalBlocks r.length.toNat < 2 * 16777216 := by omega
  have hgrows : r.length.toNat ≤ (UInt32.ofNat target).toNat := by rwa [hsize]
  have hextended := extendStored_follows id hbits hgrows hcount
  rw [hsize] at hextended
  exact hextended

theorem truncate_follows (id : UInt32) (r : Record) : Follows (truncate id r) (r.truncate id) :=
  .bind (clear_follows r) fun cleared _ => .bind (store_follows id cleared.2) fun _ _ => .pure trivial

end Growing

/-! ## Pieces of a transfer -/

/-- The size of the next piece: what is wanted, what is there, and what lies inside the block, whichever is
least. -/
def pieceSize (count done length offset : Nat) : Checked ε σ Nat := do
  let wanted ← sub count done
  let there ← sub length offset
  let inside ← sub blockSize (offset % blockSize)
  pure (min (min wanted there) inside)

theorem pieceSize_eq {count done length offset : Nat} (hdone : done ≤ count) (hoffset : offset ≤ length) :
    (pieceSize count done length offset : Checked ε σ Nat) =
      pure (min (min (count - done) (length - offset)) (blockSize - offset % blockSize)) := by
  have hmod := Nat.mod_lt offset (show 0 < blockSize by decide)
  rw [pieceSize, sub_eq hdone, pure_bind, sub_eq hoffset, pure_bind, sub_eq (Nat.le_of_lt hmod), pure_bind]

/-- How many rounds a transfer has left at byte `offset`: none if it is not `going` on. -/
def roundsLeft (r : Record) (going : Prop) [Decidable going] (offset : Nat) : Nat :=
  if going then Record.dataBlocks r.length.toNat - offset / blockSize else 0

/-- A piece that is followed by another one ends with its block. -/
theorem roundsLeft_step {r : Record} {offset size : Nat} {going next : Prop} [Decidable going] [Decidable next]
    (hgoing : going) (hmore : offset < r.length.toNat) (hnext : next → size = blockSize - offset % blockSize) :
    roundsLeft r next (offset + size) < roundsLeft r going offset := by
  rw [roundsLeft, roundsLeft, if_pos hgoing]
  by_cases hagain : next
  · have hsize := hnext hagain
    rw [if_pos hagain]
    simp only [Record.dataBlocks, blockSize] at *
    omega
  · rw [if_neg hagain]
    simp only [Record.dataBlocks, blockSize]
    omega

theorem roundsLeft_lt (r : Record) (going : Prop) [Decidable going] (offset : Nat) :
    roundsLeft r going offset < Record.dataBlocks r.length.toNat + 1 := by
  unfold roundsLeft
  split
  · exact Nat.lt_succ_of_le (Nat.sub_le _ _)
  · exact Nat.succ_pos _

/-! ## Reading -/

/-- The bytes of one piece. -/
def readPiece (r : Record) (offset size : Nat) : Checked Error Disk ByteArray := do
  let id ← blockAt r (offset / blockSize)
  if id = 0 then pure (Block.zero.slice (offset % blockSize) size)
  else if size = blockSize then do
    let b ← plain (DiskM.readBlock id.toNat)
    pure b.bytes
  else
    let b ← plain (DiskM.readBlock id.toNat)
    let last ← add (offset % blockSize) size
    part blockSize (offset % blockSize) last
    copy (last - offset % blockSize) size
    pure (b.slice (offset % blockSize) size)

/-- Reads the next piece. The state is the offset and what has been read. -/
def readNext (r : Record) (count : Nat) (s : Nat × ByteArray) :
    Checked Error Disk (Round (Nat × ByteArray) ByteArray) :=
  if s.2.size < count ∧ s.1 < r.length.toNat then do
    let size ← pieceSize count s.2.size r.length.toNat s.1
    let last ← add s.2.size size
    part count s.2.size last
    match ← attempt (readPiece r s.1 size) with
    | .error _ => pure (.done s.2)
    | .ok bytes =>
      let offset ← add s.1 size
      let _ ← add s.2.size size
      pure (.again (offset, s.2 ++ bytes))
  else pure (.done s.2)

/-- Up to `count` bytes of the contents from `offset` on. -/
def read (r : Record) (offset count : Nat) : Checked Error Disk ByteArray := do
  let blocks ← dataBlocks r.length.toNat
  rounds (readNext r count) (blocks + 1) (offset, .empty)

theorem size_slice (b : Block) {start size : Nat} (h : start + size ≤ blockSize) :
    (b.slice start size).size = size := by
  have hb := b.size_bytes
  rw [Block.slice, ByteArray.size_extract]
  omega

/-- A slice of a whole block is the block. -/
theorem slice_whole (b : Block) : b.slice 0 blockSize = b.bytes := by
  have hb : b.bytes.data.size ≤ 0 + blockSize := Nat.le_of_eq (by rw [Nat.zero_add]; exact b.size_bytes)
  apply ByteArray.ext
  rw [Block.slice, ByteArray.data_extract, Array.extract_eq_self_of_le hb]

/-- Reading a piece inside one block answers as many bytes as were asked for, as the plain one does. -/
theorem readPiece_agrees (r : Record) {offset size : Nat} (h : offset % blockSize + size ≤ blockSize) :
    Agrees .any (fun bytes => bytes.size = size) (readPiece r offset size)
      (r.readPiece ⟨offset / blockSize, offset % blockSize, size⟩) := by
  have hsize (b : Block) : (b.slice (offset % blockSize) size).size = size := size_slice b h
  have hlimit : blockSize < UInt64.size := by decide
  unfold readPiece Record.readPiece
  refine .bind (blockAt_follows r _) fun id _ => ?_
  dsimp only
  by_cases hzero : id = 0
  · rw [if_pos hzero, if_pos hzero, pure_bind]
    exact .pure (hsize _)
  rw [if_neg hzero, if_neg hzero]
  -- A whole block is handed on as it is. Else the part that is copied has to lie inside.
  by_cases hwhole : size = blockSize
  · have hstart : offset % blockSize = 0 := by omega
    rw [if_pos hwhole, hstart, hwhole]
    refine .bind (Follows.plain _) fun b _ => ?_
    rw [slice_whole]
    exact .pure b.size_bytes
  · rw [if_neg hwhole]
    refine .bind (Follows.plain _) fun b _ => .check (add_eq (by omega)) ?_
    refine .check (part_eq (by omega) h) (.check (copy_eq (by omega)) ?_)
    exact .pure (hsize b)

/-- What a transfer still reads that has come to `s`. -/
def readOn (r : Record) (count : Nat) (s : Nat × ByteArray) : DiskM ByteArray :=
  DiskM.ofAction (r.readPieces s.2 (pieces blockSize s.1 (min (count - s.2.size) (r.length.toNat - s.1))))

/-- What has been read and what is still to be read are no more than `total` bytes. -/
def ReadWithin (r : Record) (count total : Nat) (s : Nat × ByteArray) : Prop :=
  s.2.size + min (count - s.2.size) (r.length.toNat - s.1) ≤ total

/-- How many rounds are left to read. -/
def readsLeft (r : Record) (count : Nat) (s : Nat × ByteArray) : Nat :=
  roundsLeft r (s.2.size < count ∧ s.1 < r.length.toNat) s.1

/-- One round of reading. It ends the transfer, or leaves fewer rounds. -/
theorem readNext_agrees (r : Record) {count total : Nat} (hcount : count < UInt64.size) {s : Nat × ByteArray}
    {go : Nat × ByteArray → Checked Error Disk ByteArray} (hs : ReadWithin r count total s)
    (hgo : ∀ t, ReadWithin r count total t → readsLeft r count t < readsLeft r count s →
      Agrees .any (fun bytes => bytes.size ≤ total) (go t) (readOn r count t)) :
    Agrees .any (fun bytes => bytes.size ≤ total) (readNext r count s >>= follow go) (readOn r count s) := by
  obtain ⟨offset, found⟩ := s
  have hlength : r.length.toNat < UInt64.size := Nat.lt_trans r.length.toNat_lt_size (by decide)
  unfold ReadWithin at hs hgo
  unfold readNext readOn
  dsimp only at hs ⊢
  by_cases hmore : found.size < count ∧ offset < r.length.toNat
  · obtain ⟨hwanted, hthere⟩ := hmore
    have hmod := Nat.mod_lt offset (show 0 < blockSize by decide)
    rw [if_pos ⟨hwanted, hthere⟩, pieces_of_pos _ (by decide) (by omega)]
    simp only [bind_assoc]
    refine .check (pieceSize_eq (Nat.le_of_lt hwanted) (Nat.le_of_lt hthere)) ?_
    generalize hsize : min (min (count - found.size) (r.length.toNat - offset)) (blockSize - offset % blockSize) = size
    have hinside : offset % blockSize + size ≤ blockSize := by omega
    have hasked : found.size + size ≤ count := by omega
    have hends : offset + size ≤ r.length.toNat := by omega
    have hsum : found.size + size < UInt64.size := Nat.lt_of_le_of_lt hasked hcount
    refine .check (add_eq hsum) (.check (part_eq (Nat.le_add_right _ _) hasked) ?_)
    have hpiece := readPiece_agrees r hinside
    rw [DiskM.ofAction_readPieces_cons]
    refine .bind (Follows.attempt hpiece) fun outcome hbytes => ?_
    cases outcome with
    | error e =>
      rw [pure_bind, follow_done]
      exact .pure (by omega)
    | ok bytes =>
      have hbytes : bytes.size = size := hbytes bytes rfl
      have hgrown : (found ++ bytes).size = found.size + size := by rw [ByteArray.size_append, hbytes]
      have hleft : min (count - (found.size + size)) (r.length.toNat - (offset + size)) =
          min (count - found.size) (r.length.toNat - offset) - size := by omega
      simp only [bind_assoc]
      refine .check (add_eq (Nat.lt_of_le_of_lt hends hlength)) (.check (add_eq hsum) ?_)
      rw [pure_bind, follow_again]
      -- Only a piece that ends with its block is followed by another one.
      have hless : readsLeft r count (offset + size, found ++ bytes) < readsLeft r count (offset, found) := by
        refine roundsLeft_step ⟨hwanted, hthere⟩ hthere fun hagain => ?_
        dsimp only at hagain
        omega
      have hnext := hgo (offset + size, found ++ bytes) (by dsimp only; omega) hless
      unfold readOn at hnext
      dsimp only at hnext
      rw [hgrown, hleft] at hnext
      exact hnext
  · have hnone : min (count - found.size) (r.length.toNat - offset) = 0 := by omega
    rw [if_neg hmore, hnone, pieces_zero, pure_bind, follow_done]
    exact .pure (by omega)

/-- Reading answers a value for any record, any offset and any count. It is no longer than what is asked for and
what is there. -/
theorem read_agrees (r : Record) (offset : Nat) {count : Nat} (hcount : count < UInt64.size) :
    Agrees .any (fun bytes => bytes.size ≤ min count (r.length.toNat - offset)) (read r offset count)
      (DiskM.ofAction (r.read offset count)) := by
  refine .check (dataBlocks_eq (Nat.lt_trans r.length.toNat_lt_size (by decide))) ?_
  have hstart : ReadWithin r count (min count (r.length.toNat - offset)) (offset, .empty) := by simp [ReadWithin]
  exact Agrees.rounds (f := readOn r count) (ReadWithin r count _) (readsLeft r count)
    (fun s go hs hgo => readNext_agrees r hcount hs hgo) hstart (roundsLeft_lt ..)

/-! ## Writing -/

/-- What the block of a piece that is not a whole one holds before the piece is written over it. -/
def underPiece (r : Record) (id : UInt32) (offset size : Nat) : Checked Error Disk Block :=
  if 0 < offset % blockSize then plain (DiskM.readBlock id.toNat)
  else do
    let last ← add offset size
    if last < r.length.toNat then plain (DiskM.readBlock id.toNat) else pure .zero

/-- Writes `data` as the bytes of one piece. -/
def writePiece (r : Record) (offset size : Nat) (data : ByteArray) : Checked Error Disk Unit := do
  let id ← blockAt r (offset / blockSize)
  if id = 0 then fail .corruptRecord
  else if size = blockSize then do
    copy data.size blockSize
    plain (DiskM.writeBlock id.toNat (Block.zero.patch 0 data))
  else
    let under ← underPiece r id offset size
    let last ← add (offset % blockSize) size
    part blockSize (offset % blockSize) last
    copy data.size (last - offset % blockSize)
    plain (DiskM.writeBlock id.toNat (under.patch (offset % blockSize) data))

/-- Writes the next piece. The state is the offset and how much has been written. -/
def writeNext (r : Record) (data : ByteArray) (s : Nat × Nat) : Checked Error Disk (Round (Nat × Nat) Nat) :=
  if s.2 < data.size then do
    let size ← pieceSize data.size s.2 r.length.toNat s.1
    let last ← add s.2 size
    part data.size s.2 last
    match ← attempt (writePiece r s.1 size (data.extract s.2 last)) with
    | .error _ => pure (.done s.2)
    | .ok () =>
      let offset ← add s.1 size
      let done ← add s.2 size
      pure (.again (offset, done))
  else pure (.done s.2)

/-- Writes `data` over the contents from `offset` on. -/
def write (r : Record) (offset : Nat) (data : ByteArray) : Checked Error Disk Nat := do
  let blocks ← dataBlocks r.length.toNat
  rounds (writeNext r data) (blocks + 1) (offset, 0)

/-- What stands under a piece is read just where the plain one reads it. -/
theorem underPiece_follows (r : Record) (id : UInt32) {offset size : Nat} (hsize : size ≠ blockSize)
    (hlast : offset + size < UInt64.size) : Follows (underPiece r id offset size)
      (r.underPiece id ⟨offset / blockSize, offset % blockSize, size⟩) := by
  have hposition : Piece.position blockSize ⟨offset / blockSize, offset % blockSize, size⟩ = offset :=
    Nat.div_add_mod' offset blockSize
  unfold underPiece Record.underPiece
  rw [if_neg hsize, hposition]
  dsimp only
  -- The end of the piece is added up only if it begins with its block.
  by_cases hstart : 0 < offset % blockSize
  · rw [if_pos hstart, if_pos (.inl hstart)]
    exact Follows.plain _
  rw [if_neg hstart]
  refine .check (add_eq hlast) ?_
  by_cases hmore : offset + size < r.length.toNat
  · rw [if_pos hmore, if_pos (.inr hmore)]
    exact Follows.plain _
  · rw [if_neg hmore, if_neg (by omega)]
    exact .pure trivial

/-- Writing a piece inside one block follows the plain one. -/
theorem writePiece_follows (r : Record) {offset size : Nat} {data : ByteArray}
    (h : offset % blockSize + size ≤ blockSize) (hdata : data.size = size) (hlast : offset + size < UInt64.size) :
    Follows (writePiece r offset size data)
      (r.writePiece ⟨offset / blockSize, offset % blockSize, size⟩ data) := by
  have hlimit : blockSize < UInt64.size := by decide
  unfold writePiece Record.writePiece
  refine .bind (blockAt_follows r _) fun id _ => ?_
  dsimp only
  by_cases hzero : id = 0
  · rw [if_pos hzero, if_pos hzero]
    exact Follows.fail
  rw [if_neg hzero, if_neg hzero]
  -- A whole block replaces what was there, so nothing is read under it.
  by_cases hwhole : size = blockSize
  · have hstart : offset % blockSize = 0 := by omega
    rw [if_pos hwhole, Record.underPiece, if_pos hwhole, pure_bind, hstart]
    exact .check (copy_eq (hdata.trans hwhole)) (Follows.plain _)
  · rw [if_neg hwhole]
    refine .bind (underPiece_follows r id hwhole hlast) fun under _ => .check (add_eq (by omega)) ?_
    exact .check (part_eq (by omega) h) (.check (copy_eq (by omega)) (Follows.plain _))

/-- What a transfer still writes that has come to `s`. -/
def writeOn (r : Record) (data : ByteArray) (s : Nat × Nat) : DiskM Nat :=
  DiskM.ofAction (r.writePieces data s.2 (pieces blockSize s.1 (data.size - s.2)))

/-- The contents reach as far as what is still to be written. -/
def WriteWithin (r : Record) (data : ByteArray) (s : Nat × Nat) : Prop :=
  s.2 ≤ data.size ∧ s.1 + (data.size - s.2) ≤ r.length.toNat

/-- How many rounds are left to write. -/
def writesLeft (r : Record) (data : ByteArray) (s : Nat × Nat) : Nat := roundsLeft r (s.2 < data.size) s.1

/-- One round of writing. It ends the transfer, or leaves fewer rounds. -/
theorem writeNext_follows (r : Record) {data : ByteArray} (hdata : data.size < UInt64.size) {s : Nat × Nat}
    {go : Nat × Nat → Checked Error Disk Nat} (hs : WriteWithin r data s)
    (hgo : ∀ t, WriteWithin r data t → writesLeft r data t < writesLeft r data s →
      Follows (go t) (writeOn r data t)) :
    Follows (writeNext r data s >>= follow go) (writeOn r data s) := by
  obtain ⟨offset, done⟩ := s
  obtain ⟨hdone, hreach⟩ := hs
  have hlength : r.length.toNat < UInt64.size := Nat.lt_trans r.length.toNat_lt_size (by decide)
  unfold WriteWithin at hgo
  unfold writeNext writeOn
  dsimp only at hdone hreach ⊢
  by_cases hmore : done < data.size
  · have hmod := Nat.mod_lt offset (show 0 < blockSize by decide)
    have hthere : offset < r.length.toNat := by omega
    have hwanted : min (data.size - done) (r.length.toNat - offset) = data.size - done :=
      Nat.min_eq_left (by omega)
    rw [if_pos hmore, pieces_of_pos _ (by decide) (by omega)]
    simp only [bind_assoc]
    refine .check (pieceSize_eq hdone (Nat.le_of_lt hthere)) ?_
    rw [hwanted]
    generalize hsize : min (data.size - done) (blockSize - offset % blockSize) = size
    have hinside : offset % blockSize + size ≤ blockSize := by omega
    have hgiven : done + size ≤ data.size := by omega
    have hends : offset + size < UInt64.size := Nat.lt_of_le_of_lt (by omega) hlength
    have hsum : done + size < UInt64.size := Nat.lt_of_le_of_lt hgiven hdata
    refine .check (add_eq hsum) (.check (part_eq (Nat.le_add_right _ _) hgiven) ?_)
    have hpart : (data.extract done (done + size)).size = size := by
      rw [ByteArray.size_extract, Nat.min_eq_left hgiven, Nat.add_sub_cancel_left]
    have hpiece := writePiece_follows r hinside hpart hends
    rw [DiskM.ofAction_writePieces_cons]
    refine .bind (Follows.attempt hpiece) fun outcome _ => ?_
    cases outcome with
    | error e =>
      rw [pure_bind, follow_done]
      exact .pure trivial
    | ok u =>
      simp only [bind_assoc]
      refine .check (add_eq hends) (.check (add_eq hsum) ?_)
      rw [pure_bind, follow_again]
      -- Only a piece that ends with its block is followed by another one.
      have hless : writesLeft r data (offset + size, done + size) < writesLeft r data (offset, done) := by
        refine roundsLeft_step hmore hthere fun hagain => ?_
        dsimp only at hagain
        omega
      have hnext := hgo (offset + size, done + size) (by dsimp only; omega) hless
      unfold writeOn at hnext
      dsimp only at hnext
      rw [Nat.sub_add_eq] at hnext
      exact hnext
  · rw [if_neg hmore, show data.size - done = 0 by omega, pieces_zero, pure_bind, follow_done]
    exact .pure trivial

/-- Writing bytes that the contents reach answers how many were written. -/
theorem write_follows (r : Record) {offset : Nat} {data : ByteArray} (h : offset + data.size ≤ r.length.toNat) :
    Follows (write r offset data) (DiskM.ofAction (r.write offset data)) := by
  have hlength := r.length.toNat_lt_size
  have hsizes : UInt32.size < UInt64.size := by decide
  refine .check (dataBlocks_eq (Nat.lt_trans hlength hsizes)) ?_
  exact Agrees.rounds (f := writeOn r data) (WriteWithin r data) (writesLeft r data)
    (fun s go hs hgo => writeNext_follows r (by omega) hs hgo) ⟨Nat.zero_le _, h⟩ (roundsLeft_lt ..)

end Checked

end InodeVolume
