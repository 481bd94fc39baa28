import InodeVolume.Disk
import InodeVolume.Span

/-!
# The space map

The space map has one bit for every block of the device, set when the block is in use. It is stored on
the device itself, from block 1 on, as many bits to a block as fit (`blockBits`); bits past the number
of blocks are never handed out.

* `find` looks for the lowest run of clear bits of a wanted length.
* `setRange` turns a range of bits over. It first checks every bit of the range, block by block, and
  only then stores anything, so a range that is not clean leaves the map as it was.
* `allocate` and `release` are the two uses of these: take the lowest free run, give a run back.
-/

namespace InodeVolume

/-- The map of a device: how many blocks it describes. -/
structure SpaceMap where
  bits : Nat
  deriving DecidableEq, Repr

/-! ## Runs of clear bits inside one block -/

/-- What a scan for a run of clear bits has come to. -/
inductive Scan where
  /-- A run of the wanted length ends directly before bit `stop`. -/
  | found (stop : Nat)
  /-- None so far; the last `run` bits are clear. -/
  | unfinished (run : Nat)
  deriving DecidableEq, Repr

namespace Block

/-- Scans `n` bits from bit `i` on for a run of `wanted` clear bits, when the `run` bits before are
clear. A full byte is passed over at once. -/
def scan (b : Block) (wanted n i run : Nat) : Scan :=
  if n = 0 then .unfinished run
  -- Eight set bits end the run just as one does.
  else if 8 ≤ n ∧ i % 8 = 0 ∧ b.byte (i / 8) = 255 then b.scan wanted (n - 8) (i + 8) 0
  else if b.bit i then b.scan wanted (n - 1) (i + 1) 0
  else if run + 1 = wanted then .found (i + 1)
  else b.scan wanted (n - 1) (i + 1) (run + 1)
termination_by n

/-- Sets `n` bits from bit `i` on to `value`, if every one of them has the other value. -/
def turn? (value : Bool) (b : Block) (i : Nat) : Nat → Option Block
  | 0 => some b
  | n + 1 => if b.bit i = value then none else (b.setBit i value).turn? value (i + 1) n

end Block

namespace SpaceMap

/-- The number of the block that holds the first bits of the map. -/
def firstBlock : Nat := 1

/-- How many blocks the map takes. -/
def blockCount (m : SpaceMap) : Nat := (m.bits + (blockBits - 1)) / blockBits

/-! ## The stored bits -/

/-- Block `k` of the map. -/
def load (k : Nat) : DiskM Block := DiskM.readBlock (firstBlock + k)

/-- Stores block `k` of the map. -/
def store (k : Nat) (b : Block) : DiskM Unit := DiskM.writeBlock (firstBlock + k) b

/-- Bit `i` of the map as it is stored on a device. -/
def bit (d : Device) (i : Nat) : Bool :=
  (d.block (firstBlock + i / blockBits)).bit (i % blockBits)

/-- Whether block `id` is described by the map and free. -/
def Free (m : SpaceMap) (d : Device) (id : Nat) : Prop := id < m.bits ∧ bit d id = false

instance (m : SpaceMap) (d : Device) (id : Nat) : Decidable (m.Free d id) :=
  inferInstanceAs (Decidable (_ ∧ _))

/-! ## Searching and turning -/

/-- The lowest start of `count` consecutive clear bits, looking through `left` blocks of the map from
block `k` on, when the `run` bits before are clear. -/
def findFrom (m : SpaceMap) (count k run : Nat) : Nat → DiskM (Option Nat)
  | 0 => pure none
  | left + 1 => do
    let b ← load k
    match b.scan count (min blockBits (m.bits - k * blockBits)) 0 run with
    | .found stop => pure (some (k * blockBits + stop - count))
    -- A run may go on in the next block of the map.
    | .unfinished run => m.findFrom count (k + 1) run left

/-- The lowest start of `count` consecutive clear bits. No run is empty: there is none of length 0. -/
def find (m : SpaceMap) (count : Nat) : DiskM (Option Nat) :=
  m.findFrom count 0 0 m.blockCount

/-- Turns the bits of one piece of a range over and hands the block of the map on, stored or not. -/
def turnPiece (value : Bool) (keep : Nat → Block → DiskM Unit) (p : Piece) : DiskM Unit := do
  let b ← load p.cell
  match b.turn? value p.start p.size with
  | none => throw .corruptRecord
  | some turned => keep p.cell turned

/-- Sets `count` bits from bit `start` on to `value`. Every one of them must have the other value and
lie inside the map; this is checked for the whole range before anything is stored. -/
def setRange (m : SpaceMap) (start count : Nat) (value : Bool) : DiskM Unit := do
  if m.bits < start + count then throw .corruptRecord
  let parts := pieces blockBits start count
  -- The first pass stores nothing; only what it has passed is turned over by the second.
  parts.forM (turnPiece value fun _ _ => pure ())
  parts.forM (turnPiece value store)

/-! ## Allocation -/

/-- Takes the lowest run of `count` free blocks and answers its first block. -/
def allocate (m : SpaceMap) (count : Nat) : DiskM UInt32 := do
  match ← m.find count with
  | none => throw .outOfSpace
  | some start =>
    m.setRange start count true
    pure (UInt32.ofNat start)

/-- Gives `count` blocks from `first` on back; all of them must be in use. -/
def release (m : SpaceMap) (first : UInt32) (count : Nat) : DiskM Unit :=
  m.setRange first.toNat count false

/-- Whether the bit of block `id` is clear. The block number is not compared with the size of the
map: the bit is looked up wherever on the device it would be. -/
def isFree (id : UInt32) : DiskM Bool := do
  let b ← load (id.toNat / blockBits)
  pure !b.bit (id.toNat % blockBits)

/-- How many bits are set in the blocks of the map, those past its size included. -/
def countUsed (m : SpaceMap) : DiskM Nat :=
  (List.range m.blockCount).foldlM (fun used k => do
    let b ← load k
    pure (used + b.countOnes)) 0

/-! ## Setting up -/

/-- The map that describes the whole device; needs no access. -/
def ofDevice : DiskM SpaceMap := do
  pure { bits := ← DiskM.blockCount }

/-- Writes a new map in which only block 0 and the blocks of the map itself are in use. There must be
at least one more block than these. -/
def format : DiskM SpaceMap := do
  let m ← ofDevice
  if m.bits ≤ firstBlock + m.blockCount then throw .outOfSpace
  (List.range m.blockCount).forM fun k => store k .zero
  m.setRange 0 1 true
  m.setRange firstBlock m.blockCount true
  pure m

end SpaceMap

end InodeVolume
