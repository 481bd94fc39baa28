import InodeVolume.Session.Command

/-!
# Sessions

A session holds a disk, what is mounted on it, the handles that were opened, each under a name, and one
record that is kept aside. Opening under a name that is taken drops the handle that had it, without
closing it.
-/

namespace InodeVolume

/-- An open handle of one of the three kinds. -/
inductive Handle where
  | inode (i : Inode)
  | directory (d : Directory)
  | file (f : File)
  deriving DecidableEq, Repr

/-- The open inode behind a handle. -/
def Handle.target : Handle → Inode
  | .inode i => i
  | .directory d => d.inode
  | .file f => f.inode

/-- How much is mounted. -/
inductive Mounted where
  | nothing
  /-- The space map and the registry, but no tree. -/
  | space
  | volume
  deriving DecidableEq, Repr

/-- The state of a session. While nothing is mounted, only the disk of `volume` has a meaning. -/
structure Session where
  volume : Volume
  mounted : Mounted := .nothing
  handles : Std.TreeMap String Handle := {}
  record : Record := .empty false

namespace Session

/-- A session at its start, over a device. -/
def start (device : Device) : Session where
  volume := { disk := { device := device }, space := { bits := 0 } }

/-! ## Actions of a session -/

/-- An action of a session. What it did before it halts stays done. -/
abbrev SessionM := EStateM Halt Session

/-- An action on the volume. -/
def onVolume {α : Type} (x : VolumeM α) : SessionM α := fun s =>
  let ⟨volume, mounted, handles, record⟩ := s
  match x volume with
  | .ok a volume => .ok a ⟨volume, mounted, handles, record⟩
  | .error (.failed e) volume => .error (.failed e) ⟨volume, mounted, handles, record⟩
  | .error (.misused rule) volume => .error (.misused rule) ⟨volume, mounted, handles, record⟩

/-- An action on the disk. -/
def onDisk {α : Type} (x : DiskM α) : SessionM α := onVolume (VolumeM.onDisk fun _ => x)

/-- An action on the disk that shows the device's own errors. -/
def onBareDisk {α : Type} (x : EStateM DeviceError Disk α) : SessionM α := do
  match ← onVolume (VolumeM.transfer fun disk =>
    match x disk with
    | .ok a disk => (Except.ok a, disk)
    | .error e disk => (Except.error e, disk)) with
  | .ok a => pure a
  | .error e => throw (.deviceFailed e)

/-- An action on the device, around the faults. -/
def onDevice {α : Type} (x : EStateM DeviceError Device α) : SessionM α :=
  onBareDisk fun ⟨device, faults⟩ =>
    match x device with
    | .ok a device => .ok a ⟨device, faults⟩
    | .error e device => .error e ⟨device, faults⟩

/-! ## Mounting -/

/-- Unmounts: handles and registry are forgotten. -/
def unmount : SessionM Unit :=
  modify fun s =>
    { s with
      volume := { s.volume with registry := {} }
      mounted := .nothing
      handles := {} }

/-- Mounts the space map; nothing is mounted if that fails. -/
def mountSpace (format : Bool) : SessionM Unit := do
  unmount
  let space ← onDisk (Volume.mountSpace format)
  modify fun s => { s with volume := { s.volume with space := space }, mounted := .space }

/-- Mounts the volume; nothing is mounted if that fails. -/
def mountVolume (format : Bool) : SessionM Unit := do
  mountSpace format
  match ← attempt (onVolume (Volume.prepare format)) with
  | .ok () => modify fun s => { s with mounted := .volume }
  | .error halt =>
    unmount
    throw halt

/-- Runs `x` if as much is mounted as it needs. -/
def needing {α : Type} (enough : Mounted → Bool) (x : SessionM α) : SessionM α := do
  if enough (← get).mounted then x else throw .inapplicable

/-! ## Handles -/

/-- The handle under a name. -/
def handle (name : String) : SessionM Handle := do
  match (← get).handles[name]? with
  | some h => pure h
  | none => throw .inapplicable

/-- The inode handle under a name. -/
def inodeHandle (name : String) : SessionM Inode := do
  match ← handle name with
  | .inode i => pure i
  | _ => throw .inapplicable

/-- The directory handle under a name. -/
def directoryHandle (name : String) : SessionM Directory := do
  match ← handle name with
  | .directory d => pure d
  | _ => throw .inapplicable

/-- The file handle under a name. -/
def fileHandle (name : String) : SessionM File := do
  match ← handle name with
  | .file f => pure f
  | _ => throw .inapplicable

/-- Keeps a handle under a name. -/
def keep (name : String) (h : Handle) : SessionM Unit :=
  modify fun s => { s with handles := s.handles.insert name h }

/-- Forgets the handle under a name. -/
def forget (name : String) : SessionM Unit :=
  modify fun s => { s with handles := s.handles.erase name }

/-- Keeps a handle that was just opened and shows it. -/
def keepOpened (name : String) (h : Handle) : SessionM Reply := do
  keep name h
  let node ← onVolume h.target.entry
  pure (.opened h.target.number node.openers)

end Session

end InodeVolume
