import InodeVolume.Record.Content
import InodeVolume.SpaceMap

/-!
# Stored inodes

What joins the space map to records: taking zeroed blocks, and creating, growing, emptying and
discarding a stored inode. Each of these takes blocks first, stores what they are for next, and changes
the record last; when a step fails, the blocks taken so far go back to the map, and a failure to give
one back is passed over.
-/

namespace InodeVolume

namespace SpaceMap

/-- Takes `n` blocks one by one and fills each with zeros. `taken` lists those taken before, the latest
first. A failure comes with all blocks taken until then, the one that could not be filled included. -/
def takeZeroed (m : SpaceMap) (taken : List UInt32) :
    Nat → EStateM (Error × List UInt32) Disk (List UInt32)
  | 0 => pure taken.reverse
  | n + 1 => do
    match ← attempt (m.allocate 1) with
    | .error e => throw (e, taken.reverse)
    | .ok b =>
      match ← attempt (DiskM.writeBlock b.toNat .zero) with
      -- The block is taken although it could not be filled, so it is among those to give back.
      | .error e => throw (e, (b :: taken).reverse)
      | .ok () => m.takeZeroed (b :: taken) n

/-- Gives blocks back one by one, going on after a failure, and then reports the first failure. -/
def releaseEach (m : SpaceMap) (blocks : List UInt32) : DiskM Unit := do
  let outcome ← blocks.foldlM (fun outcome b => do
    let released ← attempt (m.release b 1)
    -- The earliest failure stands.
    pure (outcome *> released)) (Except.ok ())
  resume outcome

/-- Gives blocks back and passes over failures. -/
def discardEach (m : SpaceMap) (blocks : List UInt32) : DiskM Unit := do
  let _ ← (attempt (m.releaseEach blocks) : DiskM (Except Error Unit))

/-- Takes `n` zeroed blocks, or none. -/
def allocateZeroed (m : SpaceMap) (n : Nat) : DiskM (List UInt32) := do
  match ← attempt (m.takeZeroed [] n) with
  | .ok blocks => pure blocks
  | .error (e, taken) =>
    m.discardEach taken
    throw e

end SpaceMap

namespace Record

/-- Stores a record as inode `id`. -/
def store (id : UInt32) (r : Record) : DiskM Unit := DiskM.writeBlock id.toNat r.encode

/-- The record stored as inode `id`. -/
def load (id : UInt32) : DiskM Record := do
  resume (decode (← DiskM.readBlock id.toNat))

/-- Extends the contents of `r` to `size` bytes with `count` new blocks and stores the record as inode
`id`. When that fails, the new blocks go back and the stored record is the old one. -/
def extendStored (m : SpaceMap) (id : UInt32) (r : Record) (size count : Nat) : DiskM Record := do
  let fresh ← m.allocateZeroed count
  let extended : DiskM Record := do
    let grown ← r.expanded size fresh
    grown.store id
    pure grown
  match ← attempt extended with
  | .ok grown => pure grown
  | .error e =>
    m.discardEach fresh
    throw e

/-- Stores a new inode of `size` zero bytes as inode `id`. -/
def create (m : SpaceMap) (id : UInt32) (size : Nat) (isDirectory : Bool) : DiskM Unit := do
  if maxFileSize < size then throw .fileTooLarge
  let _ ← (empty isDirectory).extendStored m id size (totalBlocks size)

/-- Grows the contents of inode `id` to `target` bytes; contents that long already stay. -/
def grow (m : SpaceMap) (id : UInt32) (r : Record) (target : Nat) : DiskM Record := do
  if maxFileSize < target then throw .fileTooLarge
  if target ≤ r.length.toNat then pure r
  else r.extendStored m id target (totalBlocks target - totalBlocks r.length.toNat)

/-- Writes the emptied record as inode `id`; answers the blocks that it no longer refers to. -/
def truncate (id : UInt32) (r : Record) : DiskM (List UInt32 × Record) := do
  let (blocks, emptied) ← r.clear
  emptied.store id
  pure (blocks, emptied)

/-- Gives back all blocks of the contents of inode `id` and the block of its record. Going on after a
failure, it reports the one of the record first. -/
def dissolve (m : SpaceMap) (id : UInt32) (r : Record) : DiskM Unit := do
  let blocks ← r.ownedBlocks
  let contents ← attempt (m.releaseEach blocks)
  -- A failure here is reported at once and hides one of the contents.
  m.release id 1
  resume contents

end Record

end InodeVolume
