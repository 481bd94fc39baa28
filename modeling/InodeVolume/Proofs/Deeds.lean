import InodeVolume.Proofs.HandleAccounts
import InodeVolume.Proofs.Operations

/-!
# Everything that can be done with a volume

Requests keep to paths and to open directories, and operations to open inodes. Beyond them inodes are
opened and stored by their numbers, entries are linked and unlinked in a directory that is open, and blocks
are taken from the space map and given back to it without any inode. `Deed.act` carries out any of these.

Nothing that a deed asks for has to make sense: it may store an inode over a block of another one, or link a
number under which nothing is stored.
-/

namespace InodeVolume

/-- What can be asked of a volume. Handles are named by their places. -/
inductive Deed where
  | request (r : Request)
  | operation (op : Operation)
  /-- Opens the inode with a number. -/
  | acquire (number : UInt32)
  | openRoot
  /-- Stores a new inode under a number. -/
  | storeInode (number : UInt32) (size : Nat) (isDirectory : Bool)
  /-- Stores a new directory with room for some entries under a number. -/
  | storeDirectory (number : UInt32) (slots : Nat)
  /-- Links a name to a number in a directory. -/
  | link (h : Nat) (name : String) (number : UInt32)
  /-- Unlinks a name from a directory and marks what it stood for as removed. -/
  | unlink (h : Nat) (name : String)
  | isEmpty (h : Nat)
  /-- The next names of the listing, all of them or not more than a limit. -/
  | names (h : Nat) (limit : Option Nat)
  | allocate (count : Nat)
  | release (first : UInt32) (count : Nat)
  | isFree (id : UInt32)

/-- What a deed answers. -/
inductive Finding where
  | response (r : Response)
  | report (r : Report)
  | number (id : UInt32)
  | flag (b : Bool)
  | names (l : List String)
  deriving DecidableEq

/-- The answer that says nothing. -/
def Finding.done : Finding := .response (.answer .done)

namespace Deed

/-- Works on the directory at place `h`, if there is one. -/
def onDirectory (handles : List Handle) (h : Nat) (f : Directory → VolumeM (Finding × List Handle)) :
    VolumeM (Finding × List Handle) :=
  match handles[h]? with
  | some (.directory d) => f d
  | _ => pure (.response (.answer .absent), handles)

/-- Carries out a deed; answers with the handles that are open then. -/
def act (handles : List Handle) : Deed → VolumeM (Finding × List Handle)
  | .request r => do
    let (a, handles) ← r.act handles
    pure (.response a, handles)
  | .operation op => do
    let (a, handles) ← op.act handles
    pure (.report a, handles)
  | .acquire number => do pure (.done, handles ++ [.inode (← Inode.acquire number)])
  | .openRoot => do pure (.done, handles ++ [.directory (← Directory.openRoot)])
  | .storeInode number size isDirectory => do
    Inode.create number size isDirectory
    pure (.done, handles)
  | .storeDirectory number slots => do
    Directory.create number slots
    pure (.done, handles)
  | .link h name number => onDirectory handles h fun d => do
    d.add name number
    pure (.done, handles)
  | .unlink h name => onDirectory handles h fun d => do
    d.remove name
    pure (.done, handles)
  | .isEmpty h => onDirectory handles h fun d => do pure (.flag (← d.isEmpty), handles)
  | .names h limit => onDirectory handles h fun d => do
    let (found, d) ← d.names limit
    pure (.names found, handles.set h (.directory d))
  | .allocate count => do pure (.number (← VolumeM.allocate count), handles)
  | .release first count => do
    VolumeM.release first count
    pure (.done, handles)
  | .isFree id => do pure (.flag (← VolumeM.onDisk fun _ => SpaceMap.isFree id), handles)

end Deed

namespace Client

/-- Carries out one deed. One that reports an error opens and closes nothing. -/
def perform (c : Client) (d : Deed) : Except Stop Finding × Client :=
  match d.act c.handles c.volume with
  | .ok (a, handles) v => (.ok a, { volume := v, handles := handles })
  | .error e v => (.error e, { c with volume := v })

/-- A request is a deed like any other. -/
theorem perform_request (c : Client) (r : Request) :
    c.perform (.request r) = ((c.ask r).1.map .response, (c.ask r).2) := by
  simp only [perform, ask, Deed.act, Bind.bind, EStateM.bind]
  cases r.act c.handles c.volume <;> rfl

end Client

end InodeVolume
