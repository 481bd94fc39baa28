import InodeVolume.HostTree
import InodeVolume.Volume.Tree

/-!
# Commands of a session

A session is driven by commands. They fall into families by what they need: a disk, a record kept aside,
a mounted space map, a mounted volume, or a handle that was opened under a name before. Each command
that is carried out is answered by a `Reply`.
-/

namespace InodeVolume

namespace Session

/-! ## Commands -/

/-- Commands on the disk itself. The last four go around the faults. -/
inductive DiskCommand where
  | countBlocks
  | read (id size : Nat)
  | write (id : Nat) (data : ByteArray)
  /-- Replaces the pattern of faults. -/
  | setFaults (faults : Faults)
  /-- How many accesses have succeeded. -/
  | accesses
  /-- Lets the host change the length of the file underneath. -/
  | setHostLength (length : Nat)
  | peek (id start size : Nat)
  | poke (id start : Nat) (data : ByteArray)
  /-- All blocks that are not zero. -/
  | image

/-- Commands on the record kept aside. -/
inductive RecordCommand where
  | reset (isDirectory : Bool)
  | decode (block : Block)
  | setLength (length : UInt32)
  | encode
  | blockAt (index : Nat)
  | blocksAt (indices : List Nat)
  /-- Extends the index with `count` blocks from `first` on, and then sets the length too if `commit`. -/
  | expand (size : Nat) (first : UInt32) (count : Nat) (commit : Bool)
  | clear

/-- Commands that mount and unmount. -/
inductive MountCommand where
  /-- Mounts the volume on the disk, which is formatted first if asked for. -/
  | volume (format : Bool)
  /-- Mounts the space map alone. -/
  | space (format : Bool)
  | unmount

/-- Commands that take paths; they need a mounted volume. -/
inductive PathCommand where
  | create (path cwd : String) (size : Nat) (isDirectory : Bool)
  | remove (path cwd : String)
  | changeDirectory (path cwd : String)
  | openInode (path cwd name : String)
  | openDirectory (path cwd name : String)
  | openFile (path cwd : String) (mode : Volume.OpenMode) (name : String)
  | tree (order : Tree.NameOrder) (depth : Nat)
  | pack (source : Option HostTree) (place : String)

/-- Commands that take block numbers; they need a space map. -/
inductive BlockCommand where
  | createInode (number : UInt32) (length : Nat) (isDirectory : Bool)
  | openInode (number : UInt32) (name : String)
  | countOpen
  | createDirectory (number : UInt32) (slots : Nat)
  | openRoot (name : String)
  | allocate (count : Nat)
  | release (first : UInt32) (count : Nat)
  | isFree (id : UInt32)
  | freeCount

/-- Commands on a handle. -/
inductive HandleCommand where
  | close
  | reopen (name : String)
  /-- Turns an inode handle into a directory handle. -/
  | asDirectory (name : String)
  /-- Turns an inode handle into a file handle. -/
  | asFile (name : String)
  | denyWrite
  | allowWrite
  | readAt (offset count : Nat)
  | writeAt (offset : Nat) (data : ByteArray)
  | grow (target : Nat)
  | clear
  | markRemoved
  | blockOf (position : Nat)
  /-- Whether another handle is of the same inode. -/
  | same (other : String)
  | inodeInfo
  | fileInfo
  | read (count : Nat)
  | write (data : ByteArray)
  | seek (position : Nat)
  | tell
  | lookup (entry : String)
  | openEntry (entry name : String)
  | add (entry : String) (number : UInt32)
  | removeEntry (entry : String)
  | readNext
  | names (limit : Option Nat)
  | isEmpty

/-- A command of a session. -/
inductive Command where
  | disk (c : DiskCommand)
  | record (c : RecordCommand)
  | mount (c : MountCommand)
  | path (c : PathCommand)
  | block (c : BlockCommand)
  | handle (name : String) (c : HandleCommand)

/-! ## Replies -/

/-- What is shown of an open inode. -/
structure InodeInfo where
  status : Status
  removed : Bool
  openers : Nat
  deriving DecidableEq, Repr

/-- What a command that is carried out answers. -/
inductive Reply where
  | nothing
  | number (n : Nat)
  | blockNumber (id : Option UInt32)
  | flag (b : Bool)
  | text (t : String)
  | nextName (name : Option String)
  | names (names : List String)
  | bytes (data : ByteArray)
  | accesses (reads writes : Nat)
  | image (blocks : List (Nat × Block))
  | blockNumbers (ids : List UInt32)
  | lookups (ids : List (Except Error UInt32))
  | mounted (blocks : Nat)
  | opened (number : UInt32) (openers : Nat)
  | openInodes (count : Nat)
  /-- Bytes that were read, and where the file then is if it has a position. -/
  | read (data : ByteArray) (position : Option Nat)
  /-- How many bytes were written, and where the file then is if it has a position. -/
  | written (n : Nat) (position : Option Nat)
  | inodeInfo (info : InodeInfo)
  | fileInfo (status : Status) (position : Nat)
  | tree (tree : Except Error Tree)
  | packed (lines : List String)

/-- Why a command is not carried out to its end. -/
inductive Halt where
  | failed (error : Error)
  | deviceFailed (error : DeviceError)
  /-- Packing stopped; the lines were shown before. -/
  | packFailed (error : PackError) (lines : List String)
  /-- A calling rule was broken; the session ends. -/
  | misused (rule : Misuse)
  /-- Nothing is there that the command could work on. -/
  | inapplicable
  deriving DecidableEq, Repr

/-- Whether no command can follow. -/
def Halt.endsSession : Halt → Bool
  | .misused _ => true
  | _ => false

end Session

end InodeVolume
