import InodeVolume.Directory.Table
import InodeVolume.Inode

/-!
# Directories

A `Directory` is an open inode whose contents are a table of slots, together with a place in the table
from which its names are listed. It maps names to inode numbers:

* `lookup` and `openEntry` find a name;
* `add` links a name that is not linked yet, in the first slot that is not in use;
* `remove` unlinks a name and marks the inode it stood for as removed.

`.` and `..` are ordinary entries, except that they are never listed, never removed, and do not keep a
directory from being empty.
-/

namespace InodeVolume

-- `^` on numbers is that of the core library, whatever else is known of them.
attribute [local instance (high)] instPowNat

/-- An open directory and how far its names have been listed. -/
structure Directory where
  inode : Inode
  position : Nat := 0
  deriving DecidableEq, Repr

namespace Directory

/-! ## Opening and closing -/

/-- Stores a new directory with room for `slots` entries under `number`. -/
def create (number : UInt32) (slots : Nat) : VolumeM Unit :=
  if 2 ^ (64 : Nat) ≤ slots * slotSize then VolumeM.misuse .tableTooLong
  else Inode.create number (slots * slotSize) true

/-- Uses an open inode as a directory; closes it if it is not one. -/
def ofInode (i : Inode) : VolumeM Directory := do
  if ← i.isDirectory then pure { inode := i }
  else
    i.close
    VolumeM.fail .notADirectory

/-- Opens the root directory. -/
def openRoot : VolumeM Directory := do
  ofInode (← Inode.acquire rootInode)

/-- Opens a directory once more, to be listed from the start. -/
def reopen (d : Directory) : VolumeM Directory := do
  pure { inode := ← d.inode.reopen }

/-- Closes a directory. -/
def close (d : Directory) : VolumeM Unit := d.inode.close

/-! ## Looking names up -/

/-- Looks through the table of the directory. -/
def search {α : Type} (d : Directory) (f : Record → DiskAction α) : VolumeM α := do
  let record := (← d.inode.entry).record
  VolumeM.transfer (f record)

/-- The slot in use for `name`, with its place. -/
def find (d : Directory) (name : String) : VolumeM (Option (Nat × Slot)) :=
  d.search (·.findName name)

/-- The number of the inode that `name` stands for. -/
def lookup (d : Directory) (name : String) : VolumeM (Option UInt32) := do
  pure ((← d.find name).map (·.2.number))

/-- Opens the inode that `name` stands for. -/
def openEntry (d : Directory) (name : String) : VolumeM Inode := do
  match ← d.find name with
  | none => VolumeM.fail .notFound
  | some (_, slot) => Inode.acquire slot.number

/-! ## Changing entries -/

/-- Stores a slot at byte `offset` of the table. -/
def writeSlot (d : Directory) (offset : Nat) (slot : Slot) : VolumeM Unit := do
  if (← d.inode.write offset slot.encode) ≠ slotSize then VolumeM.fail (.device .io)

/-- Links `name` to the inode `number`. A directory that is marked as removed takes no more
entries. -/
def add (d : Directory) (name : String) (number : UInt32) : VolumeM Unit := do
  if name.isEmpty then VolumeM.fail .invalidName
  else if h : name.utf8ByteSize ≤ nameMax then
    -- A fitting name is all that can be asked for without looking at the directory.
    if (← d.inode.entry).removed then VolumeM.fail .notFound
    if (← d.find name).isSome then VolumeM.fail .alreadyExists
    let offset ← d.search (·.vacancy)
    d.writeSlot offset (Slot.ofName name number (Nat.le_succ_of_le h))
  else VolumeM.fail .nameTooLong

/-- Whether the directory has no entries but `.` and `..`. -/
def isEmpty (d : Directory) : VolumeM Bool := do
  pure !(← d.search (·.hasEntries))

/-- Frees the slot of an entry and marks the inode that it stood for, `child`, as removed. A directory
that has entries stays. -/
def unlink (d : Directory) (offset : Nat) (slot : Slot) (child : Inode) : VolumeM Unit := do
  if ← child.isDirectory then
    if !(← isEmpty { inode := child }) then VolumeM.fail .directoryNotEmpty
  -- The name goes first: if it cannot be freed, the inode stays as it is.
  d.writeSlot offset slot.freed
  child.markRemoved

/-- Unlinks `name` and marks the inode it stood for as removed. -/
def remove (d : Directory) (name : String) : VolumeM Unit := do
  if isDotName name then VolumeM.fail .invalidName
  match ← d.find name with
  | none => VolumeM.fail .notFound
  | some (offset, slot) =>
    let child ← Inode.acquire slot.number
    (d.unlink offset slot child).andThen child.close

/-! ## Listing names -/

/-- The next name of the listing, if there is one more, and the directory with its place moved on. -/
def readNext (d : Directory) : VolumeM (Option String × Directory) := do
  let (offset, slot) ← d.search (·.findSlot (fun s => s.inUse && !isDotName s.name) d.position)
  match slot with
  | some s => pure (some s.name, { d with position := offset + slotSize })
  | none => pure (none, { d with position := offset })

/-- The next names of the listing, at most `n`. -/
def readNames (d : Directory) : Nat → VolumeM (List String × Directory)
  | 0 => pure ([], d)
  | n + 1 => do
    match ← d.readNext with
    | (none, d) => pure ([], d)
    | (some name, d) =>
      let (names, d) ← d.readNames n
      pure (name :: names, d)

/-- The names from the place of the directory on: all of them, or only the first `limit`. -/
def names (d : Directory) (limit : Option Nat) : VolumeM (List String × Directory) := do
  let bound := (← d.inode.entry).record.slotBound
  d.readNames (limit.elim bound (min bound))

end Directory

end InodeVolume
