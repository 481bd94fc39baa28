import InodeVolume.Inode

/-!
# Open files

A `File` is an open inode with a position of its own, where reading and writing take place and which
they move on. Each file denies writing at most once at a time, however often it is asked to, and takes
its denial back when it is closed; so the denials of an inode that come from files never outnumber its
openers.
-/

namespace InodeVolume

/-- An open file. -/
structure File where
  inode : Inode
  /-- Where the next read or write begins, in bytes. -/
  position : Nat := 0
  /-- Whether a denial of writing by this file is in force. -/
  denying : Bool := false
  deriving DecidableEq, Repr

namespace File

/-- The file over an open inode, which it takes over. -/
def ofInode (i : Inode) : File := { inode := i }

/-- Opens a file once more, at the start and without a denial. -/
def reopen (f : File) : VolumeM File := do
  pure (ofInode (← f.inode.reopen))

/-- Denies writing, unless this file does so already. -/
def denyWrite (f : File) : VolumeM File := do
  if f.denying then pure f
  else
    f.inode.denyWrite
    pure { f with denying := true }

/-- Takes this file's denial of writing back, if there is one. -/
def allowWrite (f : File) : VolumeM File := do
  if f.denying then
    f.inode.allowWrite
    pure { f with denying := false }
  else pure f

/-- Closes a file; its denial of writing ends. -/
def close (f : File) : VolumeM Unit := do
  let f ← f.allowWrite
  f.inode.close

/-- Reads up to `count` bytes and moves on past them. -/
def read (f : File) (count : Nat) : VolumeM (ByteArray × File) := do
  let bytes ← f.inode.read f.position count
  pure (bytes, { f with position := f.position + bytes.size })

/-- Writes `data` and moves on past what was written, whose length it answers. -/
def write (f : File) (data : ByteArray) : VolumeM (Nat × File) := do
  let n ← f.inode.write f.position data
  pure (n, { f with position := f.position + n })

/-- Moves to any position, past the end of the contents too. -/
def seek (f : File) (position : Nat) : File := { f with position := position }

end File

end InodeVolume
