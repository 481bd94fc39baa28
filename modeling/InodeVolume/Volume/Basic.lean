import InodeVolume.Storage
import Std.Data.TreeMap

/-!
# Mounted volumes

A volume is a disk together with what has to be remembered while it is mounted: the space map's size and
the registry of open inodes. However often an inode is open, the registry holds it once, with the
number of its openers, the number of denials of writing in force, whether it is to be given up after
its last close, and its record as it is now.

`VolumeM` is the type of actions on a volume. An action may report an error, which leaves what was done
before in place and which callers can handle (`VolumeM.attempt`), or end in a misuse, which nothing
handles.
-/

namespace InodeVolume

/-! ## The state of a volume -/

/-- What is known of an inode while it is open. -/
structure OpenInode where
  /-- How many openers it has. -/
  openers : Nat
  /-- Whether it is given up after the last close. -/
  removed : Bool
  /-- How many denials of writing are in force. -/
  denials : Nat
  /-- Its record, as the last change left it. -/
  record : Record

/-- The open inodes, by number. -/
abbrev Registry := Std.TreeMap UInt32 OpenInode

/-- A mounted volume. -/
structure Volume where
  disk : Disk
  space : SpaceMap
  registry : Registry := {}

/-- The number of the root directory's inode, which is the block of its record. -/
def rootInode : UInt32 := 0

/-! ## Actions on a volume -/

/-- An action on a mounted volume. -/
abbrev VolumeM := EStateM Stop Volume

namespace VolumeM

/-- Reports an error. -/
def fail {α : Type} (e : Error) : VolumeM α := throw (.failed e)

/-- Ends the run because a calling rule is broken. -/
def misuse {α : Type} (rule : Misuse) : VolumeM α := throw (.misused rule)

/-- Runs `x` and hands a reported error to the caller; what `x` did before stays done. A misuse is
not handed on but ends this action too. -/
def attempt {α : Type} (x : VolumeM α) : VolumeM (Except Error α) := fun v =>
  match x v with
  | .ok a v => .ok (.ok a) v
  | .error (.failed e) v => .ok (.error e) v
  | .error (.misused rule) v => .error (.misused rule) v

/-- Takes up the outcome of an attempt again. -/
def resume {α : Type} : Except Error α → VolumeM α
  | .ok a => pure a
  | .error e => fail e

/-- Runs `x` and passes over an error it reports. -/
def ignoring (x : VolumeM Unit) : VolumeM Unit := do
  let _ ← attempt x

/-- Runs `x`, then `cleanup` whether or not `x` reported an error, and takes up the outcome of `x`. -/
def andThen {α : Type} (x : VolumeM α) (cleanup : VolumeM Unit) : VolumeM α := do
  let outcome ← attempt x
  cleanup
  resume outcome

/-- An action on the disk alone, given the space map. -/
def onDisk {α : Type} (x : SpaceMap → DiskM α) : VolumeM α := fun v =>
  let ⟨disk, space, registry⟩ := v
  match x space disk with
  | .ok a disk => .ok a ⟨disk, space, registry⟩
  | .error e disk => .error (.failed e) ⟨disk, space, registry⟩

/-- An action on the disk alone that cannot fail. -/
def transfer {α : Type} (x : DiskAction α) : VolumeM α := fun v =>
  let ⟨disk, space, registry⟩ := v
  let (a, disk) := x disk
  .ok a ⟨disk, space, registry⟩

/-- Runs `x` while no access fails; the pattern of faults is then where it was before. -/
def withoutFaults {α : Type} (x : VolumeM α) : VolumeM α := fun v =>
  let ⟨⟨device, faults⟩, space, registry⟩ := v
  match x ⟨⟨device, .never⟩, space, registry⟩ with
  | .ok a v => .ok a ⟨⟨v.disk.device, faults⟩, v.space, v.registry⟩
  | .error e v => .error e ⟨⟨v.disk.device, faults⟩, v.space, v.registry⟩

/-- The registry. -/
def registry : VolumeM Registry := fun v => .ok v.registry v

/-- Changes the registry. -/
def changeRegistry (f : Registry → Registry) : VolumeM Unit := fun v =>
  let ⟨disk, space, registry⟩ := v
  .ok () ⟨disk, space, f registry⟩

/-! ## Space -/

/-- Takes the lowest run of `count` free blocks. -/
def allocate (count : Nat) : VolumeM UInt32 := onDisk (·.allocate count)

/-- Gives `count` blocks from `first` on back. -/
def release (first : UInt32) (count : Nat) : VolumeM Unit := onDisk (·.release first count)

/-- How many blocks are free. Counting needs no more bits to be set than the device has blocks. -/
def freeCount : VolumeM Nat := do
  let (bits, used) ← onDisk fun m => do pure (m.bits, ← m.countUsed)
  if used ≤ bits then pure (bits - used) else misuse .overfullMap

end VolumeM

end InodeVolume
