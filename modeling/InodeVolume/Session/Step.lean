import InodeVolume.Session.Basic

/-!
# Carrying commands out

`step` carries out one command and answers either a reply or the reason why there is none; `run` carries
out a list of them, up to the first that ends the session. `gauge` shows how much space is free and how
many inodes are open without any fault getting in the way.
-/

namespace InodeVolume

namespace Session

/-! ## The families of commands -/

/-- Every block of a device that can be read and is not zero, with its number. -/
def imageOf : EStateM DeviceError Device (List (Nat × Block)) := do
  let count := (← get).blockCount
  let found ← (List.range count).filterMapM fun id => do
    match ← (attempt (Device.read id blockSize) : EStateM DeviceError Device _) with
    | .ok b => pure (if b.isZero then none else some (id, b))
    | .error _ => pure none
  pure found

/-- Carries out a command on the disk. -/
def diskStep : DiskCommand → SessionM Reply
  | .countBlocks => do pure (.number (← onDisk DiskM.blockCount))
  | .read id size => do pure (.bytes (← onBareDisk (Disk.read id size)).bytes)
  | .write id data => do
    onBareDisk (Disk.write id data)
    pure .nothing
  | .setFaults faults => do
    onBareDisk (modify fun disk => { disk with faults := faults })
    pure .nothing
  | .accesses => do
    let device := (← get).volume.disk.device
    if device.medium = .memory then pure (.accesses device.reads device.writes)
    else throw .inapplicable
  | .setHostLength length => do
    if (← get).volume.disk.device.medium = .memory then throw .inapplicable
    onDevice (modify (Device.setHostLength length))
    pure .nothing
  | .peek id start size => do
    let b ← onDevice (Device.read id blockSize)
    pure (.bytes (b.slice start size))
  | .poke id start data => do
    onDevice do
      let b ← Device.read id blockSize
      Device.write id (b.patch start data).bytes
    pure .nothing
  | .image => do pure (.image (← onDevice imageOf))

/-- Carries out a command on the record kept aside. -/
def recordStep : RecordCommand → SessionM Reply
  | .reset isDirectory => do
    modify fun s => { s with record := .empty isDirectory }
    pure .nothing
  | .decode block => do
    match Record.decode block with
    | .ok r =>
      modify fun s => { s with record := r }
      pure .nothing
    | .error e => throw (.failed e)
  | .setLength length => do
    modify fun s => { s with record := { s.record with length := length } }
    pure .nothing
  | .encode => do pure (.bytes (← get).record.encode.bytes)
  | .blockAt index => do
    pure (.number (← onDisk ((← get).record.blockAt index)).toNat)
  | .blocksAt indices => do
    let r := (← get).record
    let ids ← indices.mapM fun index =>
      onDisk (attempt (r.blockAt index) : DiskM (Except Error UInt32))
    pure (.lookups ids)
  | .expand size first count commit => do
    let r := (← get).record
    let supply := (List.range count).map fun i => first + UInt32.ofNat i
    let (outcome, r) ← onVolume (VolumeM.transfer fun disk =>
      match r.expand size supply disk with
      | (outcome, r, disk) => ((outcome, r), disk))
    modify fun s => { s with record := r }
    match outcome with
    | .error e => throw (.failed e)
    | .ok () =>
      -- Extending an index leaves the length to its caller.
      if commit then
        modify fun s => { s with record := { r with length := UInt32.ofNat size } }
      pure .nothing
  | .clear => do
    let (ids, r) ← onDisk (← get).record.clear
    modify fun s => { s with record := r }
    pure (.blockNumbers ids)

/-- Carries out a command that mounts or unmounts. -/
def mountStep : MountCommand → SessionM Reply
  | .volume format => do
    mountVolume format
    pure (.mounted (← onDisk DiskM.blockCount))
  | .space format => do
    mountSpace format
    pure .nothing
  | .unmount => do
    unmount
    pure .nothing

/-- Carries out a command that takes paths. -/
def pathStep : PathCommand → SessionM Reply
  | .create path cwd size isDirectory => do
    onVolume (Volume.create path cwd size isDirectory)
    pure .nothing
  | .remove path cwd => do
    onVolume (Volume.remove path cwd)
    pure .nothing
  | .changeDirectory path cwd => do
    pure (.text (← onVolume (Volume.changeDirectory path cwd)))
  | .openInode path cwd name => do
    keepOpened name (.inode (← onVolume (Volume.openInode path cwd)))
  | .openDirectory path cwd name => do
    keepOpened name (.directory (← onVolume (Volume.openDirectory path cwd)))
  | .openFile path cwd mode name => do
    keepOpened name (.file (← onVolume (Volume.openFile path cwd mode)))
  | .tree order depth => do
    pure (.tree (← onVolume (VolumeM.attempt (Tree.ofVolume order depth))))
  | .pack source place => do
    let packing ← onVolume (HostTree.packSource place source)
    match packing.outcome with
    | .ok () => pure (.packed packing.lines)
    | .error e => throw (.packFailed e packing.lines)

/-- Carries out a command that takes block numbers. -/
def blockStep : BlockCommand → SessionM Reply
  | .createInode number length isDirectory => do
    onVolume (Inode.create number length isDirectory)
    pure .nothing
  | .openInode number name => do
    keepOpened name (.inode (← onVolume (Inode.acquire number)))
  | .countOpen => do pure (.openInodes (← onVolume VolumeM.registry).size)
  | .createDirectory number slots => do
    onVolume (Directory.create number slots)
    pure .nothing
  | .openRoot name => do
    keepOpened name (.directory (← onVolume Directory.openRoot))
  | .allocate count => do pure (.number (← onVolume (VolumeM.allocate count)).toNat)
  | .release first count => do
    onVolume (VolumeM.release first count)
    pure .nothing
  | .isFree id => do pure (.flag (← onDisk (SpaceMap.isFree id)))
  | .freeCount => do pure (.number (← onVolume VolumeM.freeCount))

/-- Closes a handle of any kind. -/
def closeHandle : Handle → VolumeM Unit
  | .inode i => i.close
  | .directory d => d.close
  | .file f => f.close

/-- Opens the same inode once more, by a handle of the same kind. -/
def reopenHandle : Handle → VolumeM Handle
  | .inode i => do pure (.inode (← i.reopen))
  | .directory d => do pure (.directory (← d.reopen))
  | .file f => do pure (.file (← f.reopen))

/-- What is shown of an open inode. -/
def infoOf (i : Inode) : VolumeM InodeInfo := do
  let node ← i.entry
  pure { status := ← i.status, removed := node.removed, openers := node.openers }

/-- Denies or allows writing again, by an inode itself or by a file of its own. -/
def changeDenial (name : String) (ofInode : Inode → VolumeM Unit) (ofFile : File → VolumeM File) :
    SessionM Reply := do
  match ← handle name with
  | .inode i => onVolume (ofInode i)
  | .file f => keep name (.file (← onVolume (ofFile f)))
  | .directory _ => throw .inapplicable
  pure .nothing

/-- Carries out a command on the handle under a name. -/
def handleStep (name : String) : HandleCommand → SessionM Reply
  | .close => do
    let h ← handle name
    forget name
    onVolume (closeHandle h)
    pure .nothing
  | .reopen other => do keepOpened other (← onVolume (reopenHandle (← handle name)))
  | .asDirectory other => do
    let i ← inodeHandle name
    forget name
    keepOpened other (.directory (← onVolume (Directory.ofInode i)))
  | .asFile other => do
    let i ← inodeHandle name
    forget name
    keepOpened other (.file (File.ofInode i))
  | .denyWrite => changeDenial name Inode.denyWrite File.denyWrite
  | .allowWrite => changeDenial name Inode.allowWrite File.allowWrite
  | .readAt offset count => do
    pure (.read (← onVolume ((← handle name).target.read offset count)) none)
  | .writeAt offset data => do
    pure (.written (← onVolume ((← handle name).target.write offset data)) none)
  | .grow target => do
    onVolume ((← handle name).target.grow target)
    pure .nothing
  | .clear => do
    onVolume (← handle name).target.clear
    pure .nothing
  | .markRemoved => do
    onVolume (← handle name).target.markRemoved
    pure .nothing
  | .blockOf position => do
    pure (.blockNumber (← onVolume ((← handle name).target.blockOf position)))
  | .same other => do
    pure (.flag ((← handle name).target == (← handle other).target))
  | .inodeInfo => do pure (.inodeInfo (← onVolume (infoOf (← handle name).target)))
  | .fileInfo => do
    let f ← fileHandle name
    pure (.fileInfo (← onVolume f.inode.status) f.position)
  | .read count => do
    let (data, f) ← onVolume ((← fileHandle name).read count)
    keep name (.file f)
    pure (.read data (some f.position))
  | .write data => do
    let (n, f) ← onVolume ((← fileHandle name).write data)
    keep name (.file f)
    pure (.written n (some f.position))
  | .seek position => do
    keep name (.file ((← fileHandle name).seek position))
    pure .nothing
  | .tell => do pure (.number (← fileHandle name).position)
  | .lookup entry => do
    pure (.blockNumber (← onVolume ((← directoryHandle name).lookup entry)))
  | .openEntry entry other => do
    keepOpened other (.inode (← onVolume ((← directoryHandle name).openEntry entry)))
  | .add entry number => do
    onVolume ((← directoryHandle name).add entry number)
    pure .nothing
  | .removeEntry entry => do
    onVolume ((← directoryHandle name).remove entry)
    pure .nothing
  | .readNext => do
    let (found, d) ← onVolume (← directoryHandle name).readNext
    keep name (.directory d)
    pure (.nextName found)
  | .names limit => do
    let (names, d) ← onVolume ((← directoryHandle name).names limit)
    keep name (.directory d)
    pure (.names names)
  | .isEmpty => do pure (.flag (← onVolume (← directoryHandle name).isEmpty))

/-! ## Commands and runs -/

/-- Carries out a command. -/
def perform : Command → SessionM Reply
  | .disk c => diskStep c
  | .record c => recordStep c
  | .mount c => mountStep c
  | .path c => needing (· == .volume) (pathStep c)
  | .block c => needing (· != .nothing) (blockStep c)
  | .handle name c => handleStep name c

/-- What came of a command. -/
abbrev Outcome := Except Halt Reply

/-- Carries out one command. -/
def step (c : Command) (s : Session) : Outcome × Session :=
  match perform c s with
  | .ok reply s => (.ok reply, s)
  | .error halt s => (.error halt, s)

/-- Carries out commands in order, up to the first that ends the session. -/
def run : List Command → Session → List Outcome × Session
  | [], s => ([], s)
  | c :: rest, s =>
    match step c s with
    | (.error halt, s) =>
      -- A broken calling rule is the last thing a session shows.
      if halt.endsSession then ([.error halt], s)
      else
        let (outcomes, s) := run rest s
        (.error halt :: outcomes, s)
    | (outcome, s) =>
      let (outcomes, s) := run rest s
      (outcome :: outcomes, s)

/-- How much of a mounted volume is in use. -/
structure Gauge where
  /-- How many blocks are free, or why they cannot be counted. -/
  free : Except Stop Nat
  /-- How many inodes are open. -/
  openInodes : Nat

/-- Shows how much of a mounted volume is in use, while no access fails; nothing if nothing is
mounted. To look is no command: even a map that cannot be counted leaves the session as it is. -/
def gauge : SessionM (Option Gauge) := do
  if (← get).mounted = .nothing then pure none
  else
    let free ← onVolume (attempt (VolumeM.withoutFaults VolumeM.freeCount))
    pure (some { free := free, openInodes := (← onVolume VolumeM.registry).size })

end Session

end InodeVolume
