import InodeVolume.Proofs.Runs

/-!
# Requests through directory handles

A directory handle can be asked more than the calls of a client say: what a name stands for, to open what
it stands for, which name comes next. A directory can have been removed while it is open, and it answers
all the same. `Request.act` carries out a call or one of these.
-/

namespace InodeVolume

/-- What a client can ask for, directly of directories too. Handles are named by their places. -/
inductive Request where
  | call (q : Call)
  /-- Which inode a name stands for. -/
  | lookup (h : Nat) (name : String)
  /-- Opens the inode that a name stands for. -/
  | openEntry (h : Nat) (name : String)
  /-- The next name of the listing. -/
  | readNext (h : Nat)
  /-- Uses an inode handle as a directory handle; one that is of no directory is closed. -/
  | asDirectory (h : Nat)

/-- What a request answers. -/
inductive Response where
  | answer (a : Answer)
  | number (id : Option UInt32)
  | name (name : Option String)
  /-- The request failed, and its handle has been closed. -/
  | refused (e : Error)
  deriving DecidableEq

namespace Request

/-- Works on the directory at place `h`, if there is one. -/
def onDirectory (handles : List Handle) (h : Nat)
    (f : Directory → VolumeM (Response × List Handle)) : VolumeM (Response × List Handle) :=
  match handles[h]? with
  | some (.directory d) => f d
  | _ => pure (.answer .absent, handles)

/-- Works on the opening at place `h`, if there is one. -/
def onInode (handles : List Handle) (h : Nat) (f : Inode → VolumeM (Response × List Handle)) :
    VolumeM (Response × List Handle) :=
  match handles[h]? with
  | some (.inode i) => f i
  | _ => pure (.answer .absent, handles)

/-- Carries out a request; answers with the handles that are open then. -/
def act (handles : List Handle) : Request → VolumeM (Response × List Handle)
  | .call q => do
    let (a, handles) ← q.act handles
    pure (.answer a, handles)
  | .lookup h name => onDirectory handles h fun d => do
    pure (.number (← d.lookup name), handles)
  | .openEntry h name => onDirectory handles h fun d => do
    pure (.answer .done, handles ++ [.inode (← d.openEntry name)])
  | .readNext h => onDirectory handles h fun d => do
    let (name, d) ← d.readNext
    pure (.name name, handles.set h (.directory d))
  | .asDirectory h => onInode handles h fun i => do
    match ← VolumeM.attempt (Directory.ofInode i) with
    | .ok d => pure (.answer .done, handles.set h (.directory d))
    -- The handle is gone with the opening that it stood for.
    | .error e => pure (.refused e, handles.eraseIdx h)

/-- The handle that a request may close, if it is such a request. -/
def closes : Request → Option Nat
  | .call (.close h) | .asDirectory h => some h
  | _ => none

/-- The handles that are open after a request. -/
def kept {α : Type} (handles : List Handle) : Except Stop (α × List Handle) → List Handle
  | .ok (_, handles') => handles'
  | .error _ => handles

end Request

/-- Carries out one request. A request that reports an error opens and closes nothing. -/
def Client.ask (c : Client) (r : Request) : Except Stop Response × Client :=
  match r.act c.handles c.volume with
  | .ok (a, handles) v => (.ok a, { volume := v, handles := handles })
  | .error e v => (.error e, { c with volume := v })

/-- A call is a request like any other. -/
theorem Client.ask_call (c : Client) (q : Call) :
    c.ask (.call q) = ((c.step q).1.map .answer, (c.step q).2) := by
  simp only [ask, step, Request.act, Bind.bind, EStateM.bind]
  cases q.act c.handles c.volume <;> rfl

end InodeVolume
