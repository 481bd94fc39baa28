import InodeVolume.Device

/-!
# Disks: devices whose accesses may fail

A disk is a device together with a pattern of faults. The pattern says, for every access, from its
place among the accesses of its kind and the number of its block, whether the medium fails. A failed
access does not reach the device (`writeBlock_error`), and one that succeeds does to the device what
it says (`readBlock_ok`, `writeBlock_ok`).

`DiskM` is the type of actions on a disk. An action that fails keeps what it did before.
-/

namespace InodeVolume

/-! ## Faults -/

/-- A pattern of faults and how far it has run. `read n id` says whether read number `n` since the
pattern was set, of block `id`, fails; `write` likewise. -/
structure Faults where
  read : Nat → Nat → Bool
  write : Nat → Nat → Bool
  readsSeen : Nat := 0
  writesSeen : Nat := 0

/-- The pattern in which nothing fails. -/
def Faults.never : Faults where
  read _ _ := false
  write _ _ := false

instance : Inhabited Faults := ⟨.never⟩

/-- The pattern in which every access fails from a given number on (if one is given), and every
access to a listed block fails. -/
def Faults.from (readAfter writeAfter : Option Nat) (readIds writeIds : List Nat) : Faults where
  read n id := readAfter.any (· ≤ n) || readIds.contains id
  write n id := writeAfter.any (· ≤ n) || writeIds.contains id

/-! ## Disks -/

/-- A device behind a pattern of faults. -/
structure Disk where
  device : Device
  faults : Faults := .never

namespace Disk

/-- Reads `size` bytes of block `id` through the faults. -/
def read (id size : Nat) : EStateM DeviceError Disk Block := fun disk =>
  let ⟨device, ⟨read, write, reads, writes⟩⟩ := disk
  let seen : Faults := ⟨read, write, reads + 1, writes⟩
  if read reads id then .error .io ⟨device, seen⟩
  else
    match Device.read id size device with
    | .ok b device => .ok b ⟨device, seen⟩
    | .error e device => .error e ⟨device, seen⟩

/-- Writes `data` to block `id` through the faults. -/
def write (id : Nat) (data : ByteArray) : EStateM DeviceError Disk Unit := fun disk =>
  let ⟨device, ⟨read, write, reads, writes⟩⟩ := disk
  let seen : Faults := ⟨read, write, reads, writes + 1⟩
  if write writes id then .error .io ⟨device, seen⟩
  else
    match Device.write id data device with
    | .ok () device => .ok () ⟨device, seen⟩
    | .error e device => .error e ⟨device, seen⟩

end Disk

/-! ## Actions on a disk -/

/-- An action on a disk. It may fail; what it did before stays done. -/
abbrev DiskM := EStateM Error Disk

namespace DiskM

/-- Reports a refusal of the device as an error of the volume. -/
def ofDevice {α : Type} (x : EStateM DeviceError Disk α) : DiskM α := fun disk =>
  match x disk with
  | .ok a disk => .ok a disk
  | .error e disk => .error (.device e) disk

/-- An error that is reported for a device is one of the device. -/
theorem ofDevice_error {α : Type} {x : EStateM DeviceError Disk α} {disk disk' : Disk} {e : Error}
    (h : ofDevice x disk = .error e disk') : ∃ cause, e = .device cause := by
  unfold ofDevice at h
  split at h
  · cases h
  · cases h
    exact ⟨_, rfl⟩

/-- The whole block `id`. -/
def readBlock (id : Nat) : DiskM Block := ofDevice (Disk.read id blockSize)

/-- Stores a whole block under `id`. -/
def writeBlock (id : Nat) (b : Block) : DiskM Unit := ofDevice (Disk.write id b.bytes)

/-- How many blocks the device has; needs no access. -/
def blockCount : DiskM Nat := fun disk =>
  let count := disk.device.blockCount
  .ok count disk

/-- A read that succeeds answers what the device stores and changes no block. -/
theorem readBlock_ok {disk disk' : Disk} {id : Nat} {b : Block}
    (h : readBlock id disk = .ok b disk') :
    b = disk.device.block id ∧ disk'.device.blocks = disk.device.blocks ∧
      id < disk.device.blockCount := by
  simp only [readBlock, ofDevice, Disk.read] at h
  split at h
  · rename_i hr
    cases h
    split at hr
    · cases hr
    · split at hr
      · rename_i hd
        cases hr
        obtain ⟨hb, hs, _, hid⟩ := Device.read_ok hd
        exact ⟨hb, hs, hid⟩
      · cases hr
  · cases h

/-- A failed read changes nothing on the device. -/
theorem readBlock_error {disk disk' : Disk} {id : Nat} {e : Error}
    (h : readBlock id disk = .error e disk') : disk'.device = disk.device := by
  simp only [readBlock, ofDevice, Disk.read] at h
  split at h
  · cases h
  · rename_i hr
    cases h
    split at hr
    · cases hr; rfl
    · split at hr
      · cases hr
      · rename_i hd
        cases hr
        exact Device.read_error hd

/-- A write that succeeds stores the block and leaves the others alone. -/
theorem writeBlock_ok {disk disk' : Disk} {id : Nat} {b : Block}
    (h : writeBlock id b disk = .ok () disk') :
    disk'.device.block id = b ∧
      ∀ other, id ≠ other → disk'.device.block other = disk.device.block other := by
  simp only [writeBlock, ofDevice, Disk.write] at h
  split at h
  · rename_i hw
    cases h
    split at hw
    · cases hw
    · split at hw
      · rename_i hd
        cases hw
        exact ⟨Device.block_write hd, fun other hne => Device.block_write_ne hd hne⟩
      · cases hw
  · cases h

/-- A failed write does not reach the device. -/
theorem writeBlock_error {disk disk' : Disk} {id : Nat} {b : Block} {e : Error}
    (h : writeBlock id b disk = .error e disk') : disk'.device = disk.device := by
  simp only [writeBlock, ofDevice, Disk.write] at h
  split at h
  · cases h
  · rename_i hw
    cases h
    split at hw
    · cases hw; rfl
    · split at hw
      · cases hw
      · rename_i hd
        cases hw
        exact Device.write_error hd

end DiskM

end InodeVolume
