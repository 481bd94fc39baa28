import InodeVolume.Block
import InodeVolume.Error

/-!
# Devices

A device stores numbered blocks, from 0 on without gaps. There are two media.

* *Memory* holds as many blocks as it was made with and counts the accesses that succeed.
* A *host file* holds as many whole blocks as the file had when the device was made. The host may
  change the length of the file later: a read then needs the whole block to lie inside the file, and a
  write stretches the file as far as needed.

Every access names a block and a number of bytes, and is refused unless that is exactly one block.
When both the block number and the byte count are wrong, memory reports the byte count and a host
file the block number.

Main statements: a write is read back (`block_write`) and leaves every other block alone
(`block_write_ne`), and a refused access changes nothing (`write_error`, `read_error`).
-/

namespace InodeVolume

/-! ## Media -/

/-- What stores the blocks of a device. -/
inductive Medium where
  /-- The machine's memory. -/
  | memory
  /-- A file of the host, at present `length` bytes long. -/
  | hostFile (length : Nat)
  deriving DecidableEq, Repr

/-- A device: its blocks, its medium, and how many reads and writes have succeeded so far.
Bytes of a host file past its present end are kept as zero. -/
structure Device where
  blocks : Array Block
  medium : Medium
  reads : Nat := 0
  writes : Nat := 0

namespace Device

/-- A zeroed device of `count` blocks in memory. -/
def inMemory (count : Nat) : Device where
  blocks := Array.replicate count .zero
  medium := .memory

/-- A device on a zeroed host file of `length` bytes; a last part shorter than a block is unused. -/
def onHostFile (length : Nat) : Device where
  blocks := Array.replicate (length / blockSize) .zero
  medium := .hostFile length

/-- How many blocks the device has. -/
def blockCount (d : Device) : Nat := d.blocks.size

/-- The block stored under `id`, as an observer of the medium sees it. -/
def block (d : Device) (id : Nat) : Block := d.blocks[id]?.getD .zero

/-! ## Accesses -/

/-- Why an access to `size` bytes of block `id` is refused, if it is. -/
def refusal (d : Device) (id size : Nat) : Option DeviceError :=
  match d.medium with
  | .memory =>
    if size ≠ blockSize then some .badBuffer
    else if d.blockCount ≤ id then some .outOfRange else none
  | .hostFile _ =>
    if d.blockCount ≤ id then some .outOfRange
    else if size ≠ blockSize then some .badBuffer else none

/-- Whether all of block `id` lies inside the medium. -/
def holds (d : Device) (id : Nat) : Bool :=
  match d.medium with
  | .memory => true
  | .hostFile length => (id + 1) * blockSize ≤ length

/-- The medium after block `id` has been written. -/
def Medium.stretch (id : Nat) : Medium → Medium
  | .memory => .memory
  | .hostFile length => .hostFile (max length ((id + 1) * blockSize))

/-- Reads `size` bytes of block `id`. -/
def read (id size : Nat) : EStateM DeviceError Device Block := fun d =>
  match d.refusal id size with
  | some e => .error e d
  | none =>
    -- A file that was cut short has fewer bytes than its blocks need.
    if d.holds id then .ok (d.block id) { d with reads := d.reads + 1 }
    else .error .io d

/-- Writes `data` to block `id`. -/
def write (id : Nat) (data : ByteArray) : EStateM DeviceError Device Unit := fun d =>
  match d.refusal id data.size with
  | some e => .error e d
  | none =>
    if h : data.size = blockSize then
      .ok ()
        { d with
          blocks := d.blocks.setIfInBounds id ⟨data, h⟩
          medium := Medium.stretch id d.medium
          writes := d.writes + 1 }
    else .error .badBuffer d

/-- The device after the host has set the length of the file underneath; what lay past the new end
is lost. Memory has no such length. -/
def setHostLength (length : Nat) (d : Device) : Device :=
  match d.medium with
  | .memory => d
  | .hostFile _ =>
    { d with
      blocks := d.blocks.mapIdx fun i b =>
        if (i + 1) * blockSize ≤ length then b
        else Block.ofFn fun k => if i * blockSize + k < length then b.byte k else 0
      medium := .hostFile length }

/-! ## What accesses do -/

/-- An access of one whole block is refused exactly when the device has no such block. -/
theorem refusal_eq_none_iff (d : Device) (id size : Nat) :
    d.refusal id size = none ↔ size = blockSize ∧ id < d.blockCount := by
  unfold refusal
  split <;> split <;> simp_all

/-- A write that succeeds stores the block. -/
theorem block_write {d d' : Device} {id : Nat} {b : Block}
    (h : write id b.bytes d = .ok () d') : d'.block id = b := by
  unfold write at h
  split at h
  · cases h
  · rename_i hr
    have hid : id < d.blocks.size := ((refusal_eq_none_iff d id _).1 hr).2
    split at h
    · cases h
      simp only [block, Array.getElem?_setIfInBounds, ↓reduceIte, hid, Option.getD_some]
    · cases h

/-- A write leaves every other block alone. -/
theorem block_write_ne {d d' : Device} {id other : Nat} {data : ByteArray}
    (h : write id data d = .ok () d') (hne : id ≠ other) : d'.block other = d.block other := by
  unfold write at h
  split at h
  · cases h
  · split at h
    · cases h
      simp only [block, Array.getElem?_setIfInBounds, hne, ↓reduceIte]
    · cases h

/-- A refused write changes nothing. -/
theorem write_error {d d' : Device} {id : Nat} {data : ByteArray} {e : DeviceError}
    (h : write id data d = .error e d') : d' = d := by
  unfold write at h
  split at h
  · cases h; rfl
  · split at h <;> cases h
    rfl

/-- A read answers what is stored, and changes no block and no length. -/
theorem read_ok {d d' : Device} {id size : Nat} {b : Block} (h : read id size d = .ok b d') :
    b = d.block id ∧ d'.blocks = d.blocks ∧ d'.medium = d.medium ∧ id < d.blockCount := by
  unfold read at h
  split at h
  · cases h
  · rename_i hr
    have hid := ((refusal_eq_none_iff d id _).1 hr).2
    split at h <;> cases h
    exact ⟨rfl, rfl, rfl, hid⟩

/-- A refused read changes nothing. -/
theorem read_error {d d' : Device} {id size : Nat} {e : DeviceError}
    (h : read id size d = .error e d') : d' = d := by
  unfold read at h
  split at h
  · cases h; rfl
  · split at h <;> cases h
    rfl

end Device

end InodeVolume
