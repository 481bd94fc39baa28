import InodeVolume.Volume.Basic

/-!
# Open inodes

An `Inode` is one opening of an inode. All openings of the same inode share one entry of the registry,
so what one of them writes the others read, and the space of an inode that is marked as removed is
given up only when the last opening closes.

Denials of writing are counted: while one is in force, writing and emptying are refused, growing is
not. There can be no more denials than openers.
-/

namespace InodeVolume

/-- One opening of the inode with this number. -/
structure Inode where
  number : UInt32
  deriving DecidableEq, Repr

/-- What there is to know about an inode from outside. -/
structure Status where
  number : UInt32
  isDirectory : Bool
  /-- The length of the contents in bytes. -/
  size : Nat
  /-- How many blocks the contents and their tables take. -/
  blocks : Nat
  deriving DecidableEq, Repr

/-- The number by which programs know the kind of an inode. -/
def kindBits (isDirectory : Bool) : Nat := if isDirectory then 0o040000 else 0o100000

namespace Inode

/-! ## Opening and closing -/

/-- Stores a new inode of `size` zero bytes under `number`. -/
def create (number : UInt32) (size : Nat) (isDirectory : Bool) : VolumeM Unit :=
  VolumeM.onDisk fun m => Record.create m number size isDirectory

/-- Opens the inode with this number. Its record is read only if it is not open already. -/
def acquire (number : UInt32) : VolumeM Inode := do
  match (← VolumeM.registry)[number]? with
  | some node =>
    VolumeM.changeRegistry (·.insert number { node with openers := node.openers + 1 })
    pure ⟨number⟩
  | none =>
    let record ← VolumeM.onDisk fun _ => Record.load number
    VolumeM.changeRegistry
      (·.insert number { openers := 1, removed := false, denials := 0, record := record })
    pure ⟨number⟩

/-- The registry's entry for an inode. -/
def entry (i : Inode) : VolumeM OpenInode := do
  match (← VolumeM.registry)[i.number]? with
  | some node => pure node
  | none => VolumeM.misuse .notOpen

/-- Replaces the registry's entry for an inode. -/
def setEntry (i : Inode) (node : OpenInode) : VolumeM Unit :=
  VolumeM.changeRegistry (·.insert i.number node)

/-- Opens an inode once more that is open already. -/
def reopen (i : Inode) : VolumeM Inode := do
  let node ← i.entry
  i.setEntry { node with openers := node.openers + 1 }
  pure i

/-- Closes one opening. The last close takes the inode off the registry and, if it is marked as
removed, gives up its space; a failure to do so is passed over. -/
def close (i : Inode) : VolumeM Unit := do
  let node ← i.entry
  if 1 < node.openers then
    i.setEntry { node with openers := node.openers - 1 }
  else
    -- The inode is off the registry before its space is given up.
    VolumeM.changeRegistry (·.erase i.number)
    if node.removed then
      VolumeM.ignoring (VolumeM.onDisk fun m => node.record.dissolve m i.number)

/-- Marks an inode as removed: its space is given up after the last close. -/
def markRemoved (i : Inode) : VolumeM Unit := do
  i.setEntry { ← i.entry with removed := true }

/-! ## Properties -/

/-- The length of the contents in bytes. -/
def length (i : Inode) : VolumeM Nat := do pure (← i.entry).record.length.toNat

/-- Whether the inode is a directory. -/
def isDirectory (i : Inode) : VolumeM Bool := do pure (← i.entry).record.isDirectory

/-- What there is to know about the inode from outside. -/
def status (i : Inode) : VolumeM Status := do
  let record := (← i.entry).record
  pure
    { number := i.number
      isDirectory := record.isDirectory
      size := record.length.toNat
      blocks := Record.totalBlocks record.length.toNat }

/-- The block that holds byte `position` of the contents: none past their end or where the device
fails, and 0 where nothing is stored. -/
def blockOf (i : Inode) (position : Nat) : VolumeM (Option UInt32) := do
  let record := (← i.entry).record
  if record.length.toNat ≤ position then pure none
  else
    match ← VolumeM.attempt (VolumeM.onDisk fun _ => record.blockAt (position / blockSize)) with
    | .ok id => pure (some id)
    | .error _ => pure none

/-! ## Contents -/

/-- Reads up to `count` bytes from `offset` on; fewer at the end or where the device fails. -/
def read (i : Inode) (offset count : Nat) : VolumeM ByteArray := do
  let record := (← i.entry).record
  VolumeM.transfer (record.read offset count)

/-- Grows the contents to `target` bytes, or not at all. -/
def grow (i : Inode) (target : Nat) : VolumeM Unit := do
  let node ← i.entry
  let record ← VolumeM.onDisk fun m => node.record.grow m i.number target
  i.setEntry { node with record := record }

/-- Reports an error while a denial of writing is in force. -/
def checkWritable (i : Inode) : VolumeM Unit := do
  if 0 < (← i.entry).denials then VolumeM.fail .writeDenied

/-- Writes `data` from `offset` on, growing the contents first if they do not reach that far; answers
how many bytes were written, fewer than given where the device fails. -/
def write (i : Inode) (offset : Nat) (data : ByteArray) : VolumeM Nat := do
  i.checkWritable
  if data.isEmpty then pure 0
  else
    if (← i.length) < offset + data.size then i.grow (offset + data.size)
    -- The record is looked up again because growing has changed it.
    let record := (← i.entry).record
    VolumeM.transfer (record.write offset data)

/-- Empties the contents and gives their blocks back. Once the emptied record is stored the contents
are gone, even if giving a block back then fails. -/
def clear (i : Inode) : VolumeM Unit := do
  i.checkWritable
  let node ← i.entry
  let (blocks, record) ← VolumeM.onDisk fun _ => Record.truncate i.number node.record
  -- From here on the contents are empty, whatever becomes of their blocks.
  i.setEntry { node with record := record }
  VolumeM.onDisk (·.releaseEach blocks)

/-! ## Denying writes -/

/-- Puts one more denial of writing in force. -/
def denyWrite (i : Inode) : VolumeM Unit := do
  let node ← i.entry
  if node.denials < node.openers then i.setEntry { node with denials := node.denials + 1 }
  else VolumeM.misuse .deniedTooOften

/-- Lifts one denial of writing. -/
def allowWrite (i : Inode) : VolumeM Unit := do
  let node ← i.entry
  if 0 < node.denials ∧ node.denials ≤ node.openers then
    i.setEntry { node with denials := node.denials - 1 }
  else VolumeM.misuse .allowedTooOften

end Inode

end InodeVolume
