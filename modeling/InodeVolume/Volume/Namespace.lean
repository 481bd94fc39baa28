import InodeVolume.Directory.Basic
import InodeVolume.File
import InodeVolume.Path

/-!
# The namespace of a volume

Operations that take paths. A relative path is taken from the current directory that the caller names.
The way to a directory goes down from the root, opening each directory on it and closing it again;
`.` and `..` are followed as the entries they are.

An operation of several steps either does all of them or takes back those it has done. What it opened
on the way is closed whatever happens, except the handle that it answers.
-/

namespace InodeVolume

namespace Volume

/-! ## Mounting -/

/-- For how many entries a new root directory has room. -/
def rootSlots : Nat := 16

/-- Writes an empty root directory, with its own two entries. -/
def formatRoot : VolumeM Unit := do
  Directory.create rootInode rootSlots
  let root ← Directory.openRoot
  let link : VolumeM Unit := do
    root.add "." rootInode
    root.add ".." rootInode
  link.andThen root.close

/-- Makes sure that there is a root directory. -/
def checkRoot : VolumeM Unit := do
  let root ← Directory.openRoot
  root.close

/-- The space map of a disk: a new one, or the one that is there. -/
def mountSpace (format : Bool) : DiskM SpaceMap :=
  if format then SpaceMap.format else SpaceMap.ofDevice

/-- What there is to do after a volume is put on a disk, before it can be used. -/
def prepare (format : Bool) : VolumeM Unit := do
  if format then formatRoot
  checkRoot

/-! ## Walking -/

/-- Opens the directory that the components lead to from `d`, which is closed. -/
def descend (d : Directory) : List String → VolumeM Directory
  | [] => pure d
  | name :: rest => do
    -- The directory above is closed whether or not the one below could be opened.
    let child ← (d.openEntry name).andThen d.close
    descend (← Directory.ofInode child) rest

/-- Opens the directory at an absolute path. -/
def walk (path : String) : VolumeM Directory := do
  descend (← Directory.openRoot) (Path.components path)

/-- Opens the directory at `path` while `x` uses it. -/
def within {α : Type} (path : String) (x : Directory → VolumeM α) : VolumeM α := do
  let d ← walk path
  (x d).andThen d.close

/-! ## Creating -/

/-- Gives up an inode that is linked nowhere: its contents, its tables and its record. -/
def giveUp (number : UInt32) : VolumeM Unit := VolumeM.ignoring do
  let i ← Inode.acquire number
  i.markRemoved
  i.close

/-- Links the two entries of its own into a new directory. -/
def linkDots (path : String) (number parent : UInt32) : VolumeM Unit :=
  within path fun d => do
    d.add "." number
    d.add ".." parent

/-- Runs `x`; if it reports an error, runs `undo` and then reports it. -/
def orUndo (x undo : VolumeM Unit) : VolumeM Unit := do
  match ← VolumeM.attempt x with
  | .ok () => pure ()
  | .error e =>
    undo
    VolumeM.fail e

/-- Creates an inode and links it as `name` into `d`, the directory at `parent`. -/
def createIn (d : Directory) (parent name : String) (size : Nat) (isDirectory : Bool) :
    VolumeM Unit := do
  if (← d.lookup name).isSome then VolumeM.fail .alreadyExists
  let number ← VolumeM.allocate 1
  -- Without a stored record there is no inode to give up, only the block meant for it.
  orUndo (if isDirectory then Directory.create number 0 else Inode.create number size false)
    (VolumeM.ignoring (VolumeM.release number 1))
  -- The inode is complete but has no name: it is given up as after its last close.
  orUndo (d.add name number) (giveUp number)
  if isDirectory then
    -- The name is linked by now, so removing it is what takes the rest back.
    orUndo (linkDots (parent ++ name) number d.inode.number) (VolumeM.ignoring (d.remove name))

/-- Creates a file of `size` zero bytes, or an empty directory, at a path where nothing is yet. -/
def create (path cwd : String) (size : Nat) (isDirectory : Bool) : VolumeM Unit := do
  let (parent, leaf) ← VolumeM.resume (Path.split path cwd)
  if nameMax < leaf.utf8ByteSize then VolumeM.fail .nameTooLong
  if leaf.isEmpty then VolumeM.fail .invalidName
  within parent fun d => createIn d parent leaf size isDirectory

/-! ## Opening -/

/-- Opens the inode at a path. The root is opened without looking at any entry. -/
def openInode (path cwd : String) : VolumeM Inode := do
  let (leaf, absolute) ← VolumeM.resume (Path.leaf path cwd)
  if Path.isRoot absolute then Inode.acquire rootInode
  else within (Path.parentPart absolute) (·.openEntry leaf)

/-- Opens the directory at a path. -/
def openDirectory (path cwd : String) : VolumeM Directory := do
  walk (← VolumeM.resume (Path.toAbsolute path cwd))

/-- How to open a file. -/
structure OpenMode where
  /-- Create the file if nothing is there. -/
  create : Bool := false
  /-- Empty the contents first, unless it is a directory. -/
  truncate : Bool := false
  deriving DecidableEq, Repr

/-- The number by which programs ask for a mode. -/
def OpenMode.bits (mode : OpenMode) : Nat :=
  (if mode.create then 0x200 else 0) + (if mode.truncate then 0x400 else 0)

/-- Opens the inode at a path, which may be made first. -/
def openOrCreate (path cwd : String) (create? : Bool) : VolumeM Inode := do
  match ← VolumeM.attempt (openInode path cwd) with
  | .ok i => pure i
  | .error e =>
    if e = .notFound ∧ create? then
      create path cwd 0 false
      openInode path cwd
    else VolumeM.fail e

/-- Opens the file at a path. -/
def openFile (path cwd : String) (mode : OpenMode) : VolumeM File := do
  let i ← openOrCreate path cwd mode.create
  -- The opener is not handed out if emptying fails, so it is closed.
  if mode.truncate && !(← i.isDirectory) then orUndo i.clear i.close
  pure (File.ofInode i)

/-! ## Removing and changing directory -/

/-- Unlinks what is at a path. Those who have it open can go on using it. -/
def remove (path cwd : String) : VolumeM Unit := do
  let (leaf, absolute) ← VolumeM.resume (Path.leaf path cwd)
  if Path.isRoot absolute then VolumeM.fail .isRoot
  within (Path.parentPart absolute) (·.remove leaf)

/-- Makes sure that a path names a directory, and answers its absolute form without dots, the new
current directory. -/
def changeDirectory (path cwd : String) : VolumeM String := do
  let absolute ← VolumeM.resume (Path.toAbsolute path cwd)
  let d ← walk absolute
  d.close
  match Path.normalize? absolute with
  | some place => pure place
  | none => VolumeM.misuse .relativePath

/-! ## Whole contents -/

/-- Creates a file at a path and writes all of its contents; `false` if the device cut it short. -/
def importFile (path : String) (data : ByteArray) : VolumeM Bool := do
  create path "/" data.size false
  let i ← openInode path "/"
  let n ← (i.write 0 data).andThen i.close
  pure (n = data.size)

end Volume

end InodeVolume
