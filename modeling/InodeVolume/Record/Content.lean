import InodeVolume.Record.Index

/-!
# The contents behind a record

Reading and writing bytes of the contents at any position. A transfer is cut at block boundaries, and
its pieces are carried out in order until one of them fails, so a transfer never fails as a whole: it
is short, and its caller sees how far it came.

A piece that is not a whole block is written over the old block, except where it starts a block and
reaches the end of the contents: bytes past the end are always zero, so nothing has to be read there.
-/

namespace InodeVolume

/-- An action on a disk that cannot fail. -/
abbrev DiskAction := StateM Disk

namespace Record

/-! ## Reading -/

/-- The bytes of one piece. A piece without a block reads as zeros. -/
def readPiece (r : Record) (p : Piece) : DiskM ByteArray := do
  let id ← r.blockAt p.cell
  let b ← if id = 0 then pure Block.zero else DiskM.readBlock id.toNat
  pure (b.slice p.start p.size)

/-- Reads pieces one after the other and appends them to `found`, up to the first that fails. -/
def readPieces (r : Record) (found : ByteArray) : List Piece → DiskAction ByteArray
  | [] => pure found
  | p :: rest => fun disk =>
    match r.readPiece p disk with
    | .ok bytes disk => r.readPieces (found ++ bytes) rest disk
    | .error _ disk => (found, disk)

/-- Up to `count` bytes of the contents from `offset` on: fewer at the end of the contents, or where
the device fails. -/
def read (r : Record) (offset count : Nat) : DiskAction ByteArray :=
  r.readPieces .empty (pieces blockSize offset (min count (r.length.toNat - offset)))

/-! ## Writing -/

/-- What the block of a piece holds before the piece is written over it. -/
def underPiece (r : Record) (id : UInt32) (p : Piece) : DiskM Block :=
  if p.size = blockSize then pure .zero
  else if 0 < p.start ∨ p.position blockSize + p.size < r.length.toNat then
    DiskM.readBlock id.toNat
  else pure .zero

/-- Writes `data` as the bytes of one piece. -/
def writePiece (r : Record) (p : Piece) (data : ByteArray) : DiskM Unit := do
  let id ← r.blockAt p.cell
  if id = 0 then throw .corruptRecord
  let under ← r.underPiece id p
  DiskM.writeBlock id.toNat (under.patch p.start data)

/-- Writes pieces one after the other, the first from byte `done` of `data` on, up to the first that
fails; answers how many bytes were written. -/
def writePieces (r : Record) (data : ByteArray) (done : Nat) : List Piece → DiskAction Nat
  | [] => pure done
  | p :: rest => fun disk =>
    match r.writePiece p (data.extract done (done + p.size)) disk with
    | .ok () disk => r.writePieces data (done + p.size) rest disk
    | .error _ disk => (done, disk)

/-- Writes `data` over the contents from `offset` on; the contents must reach that far. -/
def write (r : Record) (offset : Nat) (data : ByteArray) : DiskAction Nat :=
  r.writePieces data 0 (pieces blockSize offset data.size)

end Record

end InodeVolume
