import InodeVolume.Proofs.Requests

/-!
# Operations on open inodes

An open inode can be asked more than the calls of a client say: it denies writing by itself, it tells what
it is and where it lies, it becomes a file, and it can be marked as removed while it still has its name.
`Operation.act` carries out a call or one of these, and `Client.Conducts` is a run of any length in which
the client keeps to some rule.
-/

namespace InodeVolume

/-- What a client can ask for, of open inodes too. Handles are named by their places. -/
inductive Operation where
  | call (q : Call)
  /-- Marks an inode as removed: its space is given up after its last close. -/
  | markRemoved (h : Nat)
  /-- Denies writing by the inode itself, not by a file of its own. -/
  | denyWrite (h : Nat)
  | allowWrite (h : Nat)
  /-- Uses an inode handle as a file handle. -/
  | asFile (h : Nat)
  /-- What there is to know about an inode. -/
  | inspect (h : Nat)
  /-- Which block holds a byte of the contents. -/
  | locate (h position : Nat)
  /-- Where a file is. -/
  | tell (h : Nat)
  /-- How many blocks are free. -/
  | countFree

/-- What an operation answers. -/
inductive Report where
  | answer (a : Answer)
  | info (i : Session.InodeInfo)
  | block (id : Option UInt32)
  | number (n : Nat)
  deriving DecidableEq

namespace Operation

/-- Asks something of the open inode behind the handle at place `h`, if there is one. -/
def onTarget (handles : List Handle) (h : Nat) (f : Inode → VolumeM Report) :
    VolumeM (Report × List Handle) :=
  match handles[h]? with
  | some x => do pure (← f x.target, handles)
  | none => pure (.answer .absent, handles)

/-- Carries out an operation; answers with the handles that are open then. -/
def act (handles : List Handle) : Operation → VolumeM (Report × List Handle)
  | .call q => do
    let (a, handles) ← q.act handles
    pure (.answer a, handles)
  | .markRemoved h => onTarget handles h fun i => do
    i.markRemoved
    pure (.answer .done)
  | .denyWrite h => onTarget handles h fun i => do
    i.denyWrite
    pure (.answer .done)
  | .allowWrite h => onTarget handles h fun i => do
    i.allowWrite
    pure (.answer .done)
  | .asFile h =>
    match handles[h]? with
    | some (.inode i) => pure (.answer .done, handles.set h (.file (File.ofInode i)))
    | _ => pure (.answer .absent, handles)
  | .inspect h => onTarget handles h fun i => do pure (.info (← Session.infoOf i))
  | .locate h position => onTarget handles h fun i => do pure (.block (← i.blockOf position))
  | .tell h =>
    match handles[h]? with
    | some (.file f) => pure (.number f.position, handles)
    | _ => pure (.answer .absent, handles)
  | .countFree => do pure (.number (← VolumeM.freeCount), handles)

end Operation

namespace Client

/-- Carries out one operation. One that reports an error opens and closes nothing. -/
def operate (c : Client) (op : Operation) : Except Stop Report × Client :=
  match op.act c.handles c.volume with
  | .ok (a, handles) v => (.ok a, { volume := v, handles := handles })
  | .error e v => (.error e, { c with volume := v })

/-- Contents are only changed, and inodes only marked as removed, through handles of regular files. -/
def OnFiles (c : Client) : Operation → Prop
  | .call q => ∀ h, q.changes = some h → c.Regular h
  | .markRemoved h => c.Regular h
  | _ => True

/-- As `OnFiles`, and an inode is only marked as removed if its name is gone already. -/
def Keeping (c : Client) (op : Operation) : Prop :=
  c.OnFiles op ∧ ∀ h x node, op = .markRemoved h → c.handles[h]? = some x →
    c.volume.registry[x.target.number]? = some node → node.removed = true

/-- A run: operations that the rule allows, with what they answered. -/
inductive Conducts (rule : Client → Operation → Prop) :
    Client → List (Operation × Except Stop Report) → Client → Prop
  | nil (c : Client) : Conducts rule c [] c
  | cons {c c' : Client} {l : List (Operation × Except Stop Report)} (op : Operation)
    (allowed : rule c op) (rest : Conducts rule (c.operate op).2 l c') :
    Conducts rule c ((op, (c.operate op).1) :: l) c'

end Client

end InodeVolume
