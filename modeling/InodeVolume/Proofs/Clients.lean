import InodeVolume.Proofs.Formatting
import InodeVolume.Session.Step

/-!
# Clients

A client works on a mounted volume by calls, one after the other, and keeps a list of the handles that it
has open, which calls name by their places. `Client.step` carries out one call, `Client.Runs` is a run of
any length, and `Client.Reached` says that a client has come from a disk that was formatted for it.

What a call comes to is said of worlds (`Call.Comes`) and holds of every call (`Call.act_leads`).
-/

namespace InodeVolume

-- `^` on numbers is that of the core library, whatever else is known of them.
attribute [local instance (high)] instPowNat

-- Bytes are compared as the core library compares them.
attribute [local instance (high)] ByteArray.instDecidableEq

/-! ## Calls -/

/-- Whether a denial of writing by this handle is in force. -/
def Handle.denies : Handle → Bool
  | .file f => f.denying
  | _ => false

/-- What a client can ask for. Handles are named by their places in the list of the open ones. -/
inductive Call where
  | create (path cwd : String) (size : Nat) (isDirectory : Bool)
  | remove (path cwd : String)
  | changeDirectory (path cwd : String)
  | openInode (path cwd : String)
  | openDirectory (path cwd : String)
  | openFile (path cwd : String) (mode : Volume.OpenMode)
  | close (h : Nat)
  | reopen (h : Nat)
  | readAt (h offset count : Nat)
  | writeAt (h offset : Nat) (data : ByteArray)
  | grow (h target : Nat)
  | clear (h : Nat)
  /-- Reads where a file is, and moves on. -/
  | read (h count : Nat)
  /-- Writes where a file is, and moves on. -/
  | write (h : Nat) (data : ByteArray)
  | seek (h position : Nat)
  | denyWrite (h : Nat)
  | allowWrite (h : Nat)

/-- What a call answers. -/
inductive Answer where
  | done
  /-- There is no handle that the call could work on. -/
  | absent
  | place (path : String)
  | bytes (data : ByteArray)
  | count (n : Nat)
  deriving DecidableEq

namespace Call

/-- Works on the handle at place `h`, if there is one. -/
def onHandle (handles : List Handle) (h : Nat) (f : Handle → VolumeM (Answer × List Handle)) :
    VolumeM (Answer × List Handle) :=
  match handles[h]? with
  | some x => f x
  | none => pure (.absent, handles)

/-- Works on the file at place `h`, if there is one. -/
def onFile (handles : List Handle) (h : Nat) (f : File → VolumeM (Answer × List Handle)) :
    VolumeM (Answer × List Handle) :=
  onHandle handles h fun
    | .file x => f x
    | _ => pure (.absent, handles)

/-- The paths of a call have no zero characters. -/
def Clean : Call → Prop
  | .create path cwd _ _ | .remove path cwd | .changeDirectory path cwd | .openInode path cwd
  | .openDirectory path cwd | .openFile path cwd _ => NulFree path ∧ NulFree cwd
  | _ => True

/-- The handle through which a call changes contents, if it is such a call. -/
def changes : Call → Option Nat
  | .writeAt h _ _ | .grow h _ | .clear h | .write h _ => some h
  | _ => none

/-- Carries out a call; answers with the handles that are open then. -/
def act (handles : List Handle) : Call → VolumeM (Answer × List Handle)
  | .create path cwd size isDirectory => do
    Volume.create path cwd size isDirectory
    pure (.done, handles)
  | .remove path cwd => do
    Volume.remove path cwd
    pure (.done, handles)
  | .changeDirectory path cwd => do
    pure (.place (← Volume.changeDirectory path cwd), handles)
  | .openInode path cwd => do
    pure (.done, handles ++ [.inode (← Volume.openInode path cwd)])
  | .openDirectory path cwd => do
    pure (.done, handles ++ [.directory (← Volume.openDirectory path cwd)])
  | .openFile path cwd mode => do
    pure (.done, handles ++ [.file (← Volume.openFile path cwd mode)])
  | .close h => onHandle handles h fun x => do
    Session.closeHandle x
    pure (.done, handles.eraseIdx h)
  | .reopen h => onHandle handles h fun x => do
    pure (.done, handles ++ [← Session.reopenHandle x])
  | .readAt h offset count => onHandle handles h fun x => do
    pure (.bytes (← x.target.read offset count), handles)
  | .writeAt h offset data => onHandle handles h fun x => do
    pure (.count (← x.target.write offset data), handles)
  | .grow h target => onHandle handles h fun x => do
    x.target.grow target
    pure (.done, handles)
  | .clear h => onHandle handles h fun x => do
    x.target.clear
    pure (.done, handles)
  | .read h count => onFile handles h fun f => do
    let (data, f) ← f.read count
    pure (.bytes data, handles.set h (.file f))
  | .write h data => onFile handles h fun f => do
    let (n, f) ← f.write data
    pure (.count n, handles.set h (.file f))
  | .seek h position => onFile handles h fun f =>
    pure (.done, handles.set h (.file (f.seek position)))
  | .denyWrite h => onFile handles h fun f => do
    pure (.done, handles.set h (.file (← f.denyWrite)))
  | .allowWrite h => onFile handles h fun f => do
    pure (.done, handles.set h (.file (← f.allowWrite)))

end Call

/-! ## Runs -/

/-- A client: the volume that it works on and the handles that it has open. -/
structure Client where
  volume : Volume
  handles : List Handle := []

namespace Client

/-- Carries out one call. A call that fails opens and closes nothing. -/
def step (c : Client) (q : Call) : Except Stop Answer × Client :=
  match q.act c.handles c.volume with
  | .ok (a, handles) v => (.ok a, { volume := v, handles := handles })
  | .error e v => (.error e, { c with volume := v })

/-- The handle at place `h`, if there is one, is of a regular file. -/
def Regular (c : Client) (h : Nat) : Prop :=
  ∀ x node, c.handles[h]? = some x → c.volume.registry[x.target.number]? = some node →
    node.record.isDirectory = false

/-- The client may make this call: paths have no zero characters, and contents are only changed through
handles of regular files. -/
def Allows (c : Client) (q : Call) : Prop := q.Clean ∧ ∀ h, q.changes = some h → c.Regular h

/-- A run: calls that the client may make, with what they answered. -/
inductive Runs : Client → List (Call × Except Stop Answer) → Client → Prop
  | nil (c : Client) : Runs c [] c
  | cons {c c' : Client} {l : List (Call × Except Stop Answer)} (q : Call) (allowed : c.Allows q)
    (rest : Runs (c.step q).2 l c') : Runs c ((q, (c.step q).1) :: l) c'

end Client

/-- All blocks of the disk can be read, and written unless writes may fail. -/
structure Disk.Works (faulty : Prop) (disk : Disk) : Prop where
  holds : ∀ id, id < disk.device.blockCount → disk.device.holds id = true
  reads : ∀ n id, disk.faults.read n id = false
  writes : ¬faulty → ∀ n id, disk.faults.write n id = false

theorem Disk.Works.zeroed {faulty : Prop} {disk : Disk} (h : disk.Works faulty) :
    Zeroed ⟨disk.device.blockCount, faulty⟩ 0 disk :=
  ⟨rfl, h.holds, h.reads, h.writes, fun k hk => absurd hk (Nat.not_lt_zero k)⟩

/-- A client at its start: its disk has been formatted. -/
structure Client.Starts (faulty : Prop) (disk : Disk) (c : Client) : Prop where
  count_le : disk.device.blockCount ≤ 2 ^ (32 : Nat)
  works : disk.Works faulty
  formats : Formats disk c.volume
  handles : c.handles = []

/-- A client that has come from a disk that was formatted for it, by calls that it may make. -/
def Client.Reached (faulty : Prop) (c : Client) : Prop :=
  ∃ disk c₀ l, Starts faulty disk c₀ ∧ Runs c₀ l c

/-! ## What calls come to -/

/-- How often an inode is open follows from the handles that are open. -/
structure World.Tracks (W : World) (handles : List Handle) : Prop where
  openers : ∀ x, (W.opens x).elim 0 (·.openers) = handles.countP (·.target.number == x)
  denials : ∀ x, W.denials x = handles.countP fun h => h.target.number == x && h.denies

namespace Inode

/-- What writing comes to. -/
def Writes (K : Regime) (W : World) (id : UInt32) (n : Node) (o : Opening) (offset : Nat) (data : ByteArray)
    (res : Except Stop Nat) (W' : World) : Prop :=
  (0 < o.denials ∧ res = .error (.failed .writeDenied) ∧ W' = W) ∨
    (o.denials = 0 ∧ data.isEmpty = true ∧ res = .ok 0 ∧ W' = W) ∨
    (o.denials = 0 ∧ data.isEmpty = false ∧ ∃ k n', res = .ok k ∧ W.Becomes id n' W' ∧
      Wrote K W n offset data k n' W') ∨
    (o.denials = 0 ∧ data.isEmpty = false ∧ n.size < offset + data.size ∧
      ∃ e, res = .error (.failed e) ∧ W.Stays K W' ∧
        Pool.Refused K W.pool (offset + data.size)
          (Record.totalBlocks (offset + data.size) - Record.totalBlocks n.size) e)

/-- What growing comes to. -/
def Grows (K : Regime) (W : World) (id : UInt32) (n : Node) (target : Nat) (res : Except Stop Unit)
    (W' : World) : Prop :=
  (∃ n', res = .ok () ∧ W.Becomes id n' W' ∧ Grown K W n target n' W') ∨
    ∃ e, res = .error (.failed e) ∧ W.Stays K W' ∧
      Pool.Refused K W.pool target (Record.totalBlocks target - Record.totalBlocks n.size) e

/-- What emptying comes to. -/
def Clears (K : Regime) (W : World) (id : UInt32) (n : Node) (o : Opening) (res : Except Stop Unit)
    (W' : World) : Prop :=
  (0 < o.denials ∧ res = .error (.failed .writeDenied) ∧ W' = W) ∨
    (o.denials = 0 ∧ ∃ n', W.Becomes id n' W' ∧ n'.record.isDirectory = n.record.isDirectory ∧
      n'.size = 0 ∧ n'.byte = (fun _ => 0) ∧
      ((res = .ok () ∧ K.free W'.pool.store.used =
          K.free W.pool.store.used + Record.totalBlocks n.size) ∨
        (K.faulty ∧ (res = .ok () ∨ res = .error (.failed (.device .io)))))) ∨
    (o.denials = 0 ∧ K.faulty ∧ res = .error (.failed (.device .io)) ∧ W' = W)

end Inode

/-- How an inode is open after a denial of writing has been lifted, if `lift`. -/
def Opening.lifted (o : Opening) (lift : Bool) : Opening :=
  if lift then { o with denials := o.denials - 1 } else o

@[simp] theorem Opening.lifted_removed (o : Opening) (lift : Bool) : (o.lifted lift).removed = o.removed := by
  rw [lifted]
  split <;> rfl

@[simp] theorem Opening.lifted_openers (o : Opening) (lift : Bool) : (o.lifted lift).openers = o.openers := by
  rw [lifted]
  split <;> rfl

namespace World

/-- What a call on a handle comes to, where `P` says what it comes to if there is one. -/
def OnHandle (W : World) (handles : List Handle) (h : Nat)
    (P : Handle → Node → Opening → Except Stop (Answer × List Handle) → World → Prop)
    (res : Except Stop (Answer × List Handle)) (W' : World) : Prop :=
  (handles[h]? = none ∧ res = .ok (.absent, handles) ∧ W' = W) ∨
    ∃ x n o, handles[h]? = some x ∧ W.pool.nodes x.target.number = some n ∧
      W.opens x.target.number = some o ∧ P x n o res W'

/-- What a call on a file comes to, where `P` says what it comes to if there is one. -/
def OnFile (W : World) (handles : List Handle) (h : Nat)
    (P : File → Node → Opening → Except Stop (Answer × List Handle) → World → Prop) :
    Except Stop (Answer × List Handle) → World → Prop :=
  W.OnHandle handles h fun x n o res W' =>
    (∃ f, x = .file f ∧ P f n o res W') ∨ ((∀ f, x ≠ .file f) ∧ res = .ok (.absent, handles) ∧ W' = W)

end World

/-- The handle that opening `x` once more gives. -/
def Handle.again : Handle → Handle
  | .inode i => .inode i
  | .directory d => .directory { inode := d.inode }
  | .file f => .file (.ofInode f.inode)

namespace Call

/-- What a call comes to. -/
def Comes (K : Regime) (W : World) (T : Hierarchy) (handles : List Handle) :
    Call → Except Stop (Answer × List Handle) → World → Prop
  | .create path cwd size isDirectory, res, W' =>
    ∃ r, Volume.Creates K W T path cwd size isDirectory r W' ∧ res = r.map fun _ => (.done, handles)
  | .remove path cwd, res, W' =>
    ∃ r, Volume.Removes K W T path cwd r W' ∧ res = r.map fun _ => (.done, handles)
  | .changeDirectory path cwd, res, W' =>
    res = ((W.pool.names.place path cwd).map fun p => (.place p, handles)) ∧ W' = W
  | .openInode path cwd, res, W' =>
    W.Arrives (fun x => (.done, handles ++ [.inode ⟨x⟩]))
      ((Path.toAbsolute path cwd).bind W.pool.find) res W'
  | .openDirectory path cwd, res, W' =>
    W.Arrives (fun x => (.done, handles ++ [.directory (directoryAt x)]))
      ((Path.toAbsolute path cwd).bind fun a => W.pool.resolve rootInode (Path.components a)) res W'
  | .openFile path cwd mode, res, W' =>
    ∃ r, Volume.OpensFile K W T path cwd mode r W' ∧ res = r.map fun f => (.done, handles ++ [.file f])
  | .close h, res, W' => W.OnHandle handles h (fun x n o res W' =>
      res = .ok (.done, handles.eraseIdx h) ∧
        Inode.Closed K (W.setOpening x.target.number (some (o.lifted x.denies))) x.target.number
          (o.lifted x.denies) n W') res W'
  | .reopen h, res, W' => W.OnHandle handles h (fun x _ _ res W' =>
      res = .ok (.done, handles ++ [x.again]) ∧ W' = W.opened x.target.number) res W'
  | .readAt h offset count, res, W' => W.OnHandle handles h (fun _ n _ res W' =>
      res = .ok (.bytes (bytesFrom n.byte offset (min count (n.size - offset))), handles) ∧ W' = W) res W'
  | .writeAt h offset data, res, W' => W.OnHandle handles h (fun x n o res W' =>
      ∃ r, Inode.Writes K W x.target.number n o offset data r W' ∧
        res = r.map fun k => (.count k, handles)) res W'
  | .grow h target, res, W' => W.OnHandle handles h (fun x n _ res W' =>
      ∃ r, Inode.Grows K W x.target.number n target r W' ∧ res = r.map fun _ => (.done, handles)) res W'
  | .clear h, res, W' => W.OnHandle handles h (fun x n o res W' =>
      ∃ r, Inode.Clears K W x.target.number n o r W' ∧ res = r.map fun _ => (.done, handles)) res W'
  | .read h count, res, W' => W.OnFile handles h (fun f n _ res W' =>
      let data := bytesFrom n.byte f.position (min count (n.size - f.position))
      res = .ok (.bytes data, handles.set h (.file { f with position := f.position + data.size })) ∧
        W' = W) res W'
  | .write h data, res, W' => W.OnFile handles h (fun f n o res W' =>
      ∃ r, Inode.Writes K W f.inode.number n o f.position data r W' ∧
        res = r.map fun k => (.count k, handles.set h (.file { f with position := f.position + k }))) res W'
  | .seek h position, res, W' => W.OnFile handles h (fun f _ _ res W' =>
      res = .ok (.done, handles.set h (.file { f with position := position })) ∧ W' = W) res W'
  | .denyWrite h, res, W' => W.OnFile handles h (fun f _ o res W' =>
      res = .ok (.done, handles.set h (.file { f with denying := true })) ∧
        W' = W.setOpening f.inode.number
          (some { o with denials := if f.denying then o.denials else o.denials + 1 })) res W'
  | .allowWrite h, res, W' => W.OnFile handles h (fun f _ o res W' =>
      res = .ok (.done, handles.set h (.file { f with denying := false })) ∧
        W' = W.setOpening f.inode.number (some (o.lifted f.denying))) res W'

end Call

/-! ## Counting handles -/

section Counting

variable {handles : List Handle} {i : Nat} {x y : Handle}

theorem countP_of_getElem? (p : Handle → Bool) (h : handles[i]? = some x) :
    handles.countP p = (handles.eraseIdx i).countP p + if p x then 1 else 0 := by
  obtain ⟨hi, rfl⟩ := List.getElem?_eq_some_iff.1 h
  rw [← (List.getElem_cons_eraseIdx_perm hi).countP_eq, List.countP_cons]

theorem countP_set' (p : Handle → Bool) (y : Handle) (h : handles[i]? = some x) :
    (handles.set i y).countP p = (handles.eraseIdx i).countP p + if p y then 1 else 0 := by
  obtain ⟨hi, -⟩ := List.getElem?_eq_some_iff.1 h
  rw [(List.set_perm_cons_eraseIdx hi y).countP_eq, List.countP_cons]

end Counting

namespace World

variable {W W' : World} {handles : List Handle} {i : Nat} {x : Handle} {o : Opening}

/-- A handle keeps its inode open. -/
theorem Tracks.opened_of_handle (hT : W.Tracks handles) (h : handles[i]? = some x) :
    ∃ o, W.opens x.target.number = some o ∧ 0 < o.openers := by
  have hcount := hT.openers x.target.number
  rw [countP_of_getElem? _ h, if_pos (by simp)] at hcount
  cases ho : W.opens x.target.number with
  | none =>
    rw [ho] at hcount
    simp at hcount
  | some o =>
    rw [ho, Option.elim_some] at hcount
    exact ⟨o, rfl, by omega⟩

theorem denials_of_open {id : UInt32} (ho : W.opens id = some o) : W.denials id = o.denials := by
  simp [denials, ho]

/-- No more denials are in force than there are openers, and there is one for each handle that denies. -/
theorem Tracks.denials_le (hT : W.Tracks handles) (h : handles[i]? = some x)
    (ho : W.opens x.target.number = some o) :
    o.denials ≤ o.openers ∧ (x.denies = true → 0 < o.denials) ∧
      (x.denies = false → o.denials < o.openers) := by
  have hopeners := hT.openers x.target.number
  have hdenials := hT.denials x.target.number
  rw [ho, Option.elim_some, countP_of_getElem? _ h, if_pos (by simp)] at hopeners
  rw [denials_of_open ho, countP_of_getElem? _ h] at hdenials
  -- Of the other handles of this inode, those that deny are some.
  have hle := List.countP_mono_left (l := handles.eraseIdx i)
    (p := fun h => h.target.number == x.target.number && h.denies)
    (q := fun h => h.target.number == x.target.number) fun y _ hy => (Bool.and_eq_true_iff.1 hy).1
  cases hx : x.denies with
  | true =>
    rw [if_pos (by simp [hx])] at hdenials
    exact ⟨by omega, fun _ => by omega, nofun⟩
  | false =>
    rw [if_neg (by simp [hx])] at hdenials
    exact ⟨by omega, nofun, fun _ => by omega⟩

theorem setOpening_same {id : UInt32} (ho : W.opens id = some o) : W.setOpening id (some o) = W := by
  rw [← ho]
  simp [setOpening]

end World

/-! ## Every call comes to what is said of it -/

/-- An action and what is made of its value. -/
theorem Leads.mapBind {A α β : Type} {R : A → Volume → Prop} {a : A} {x : VolumeM α} {f : α → β}
    {post : Except Stop α → A → Prop} (hx : Leads R a x post) :
    Leads R a (x >>= fun v => Pure.pure (f v)) fun res b => ∃ r, post r b ∧ res = r.map f := by
  refine Leads.bind hx (fun v b hv => Leads.pure ⟨_, hv, rfl⟩) fun e b he => ⟨_, he, rfl⟩

namespace Call

variable {K : Regime} {W : World} {T : Hierarchy} {handles : List Handle}

theorem onHandle_leads {h : Nat} {f : Handle → VolumeM (Answer × List Handle)}
    {P : Handle → Node → Opening → Except Stop (Answer × List Handle) → World → Prop}
    (hT : W.Tracks handles)
    (hf : ∀ x n o, handles[h]? = some x → W.pool.nodes x.target.number = some n →
      W.opens x.target.number = some o → Leads (Mounts K) W (f x) (P x n o)) :
    Leads (Mounts K) W (onHandle handles h f) (W.OnHandle handles h P) := by
  unfold onHandle
  cases hx : handles[h]? with
  | none => exact Leads.pure (.inl ⟨hx, rfl, rfl⟩)
  | some x =>
    obtain ⟨o, ho, -⟩ := hT.opened_of_handle hx
    refine Leads.of_shown fun v hv => ?_
    obtain ⟨n, hn⟩ := Option.ne_none_iff_exists'.1 (hv.live x.target.number (by simp [ho]))
    exact Leads.mono (hf x n o hx hn ho) fun res W' hP => .inr ⟨x, n, o, hx, hn, ho, hP⟩

theorem onFile_leads {h : Nat} {f : File → VolumeM (Answer × List Handle)}
    {P : File → Node → Opening → Except Stop (Answer × List Handle) → World → Prop}
    (hT : W.Tracks handles)
    (hf : ∀ x n o, handles[h]? = some (.file x) → W.pool.nodes x.inode.number = some n →
      W.opens x.inode.number = some o → Leads (Mounts K) W (f x) (P x n o)) :
    Leads (Mounts K) W (onFile handles h f) (W.OnFile handles h P) := by
  refine onHandle_leads hT fun x n o hx hn ho => ?_
  cases x with
  | inode i => exact Leads.pure (.inr ⟨nofun, rfl, rfl⟩)
  | directory d => exact Leads.pure (.inr ⟨nofun, rfl, rfl⟩)
  | file x => exact Leads.mono (hf x n o hx hn ho) fun res W' hP => .inl ⟨x, rfl, hP⟩

/-- An inode that is open and has been removed is not the root, so its block can be given back. -/
theorem data_of_doomed {v : Volume} (hv : Mounts K W v) (hO : W.Ordered K T) {id : UInt32} {n : Node}
    (hn : W.pool.nodes id = some n) (hd : W.Doomed id) : K.IsData id.toNat :=
  (hv.disk.sound.place id (by simp [hn])).resolve_left (hO.root_ne hd)

/-- Opening an inode and keeping its handle. -/
theorem arrives_map {α β : Type} {x : VolumeM α} {f : UInt32 → α} {g : α → β} {r : Except Error UInt32}
    (h : Leads (Mounts K) W x (W.Arrives f r)) :
    Leads (Mounts K) W (x >>= fun v => pure (g v)) (W.Arrives (fun y => g (f y)) r) := by
  refine Leads.mono (Leads.mapBind (f := g) h) ?_
  rintro res W' ⟨r', hr, rfl⟩
  cases r with
  | error e =>
    obtain ⟨rfl, rfl⟩ := hr
    exact ⟨rfl, rfl⟩
  | ok y =>
    obtain ⟨rfl, rfl⟩ := hr
    exact ⟨rfl, rfl⟩

theorem closeHandle_leads (hK : K.Fits) (hO : W.Ordered K T) (hT : W.Tracks handles) {h : Nat} {x : Handle}
    {n : Node} {o : Opening} (hx : handles[h]? = some x) (hn : W.pool.nodes x.target.number = some n)
    (ho : W.opens x.target.number = some o) :
    Leads (Mounts K) W (Session.closeHandle x) fun res W' => res = .ok () ∧
      Inode.Closed K (W.setOpening x.target.number (some (o.lifted x.denies))) x.target.number
        (o.lifted x.denies) n W' := by
  refine Leads.of_shown fun v hv => ?_
  obtain ⟨hle, hpos, -⟩ := hT.denials_le hx ho
  have hdata (hr : o.removed = true) : K.IsData x.target.number.toNat :=
    data_of_doomed hv hO hn ⟨o, ho, hr⟩
  -- A handle that denies nothing closes its opening at once.
  have hplain (hd : x.denies = false) : Leads (Mounts K) W (Inode.close x.target) fun res W' => res = .ok () ∧
      Inode.Closed K (W.setOpening x.target.number (some (o.lifted x.denies))) x.target.number
        (o.lifted x.denies) n W' := by
    rw [hd, Opening.lifted, if_neg (by decide), World.setOpening_same ho]
    exact Inode.close_leads hK hn ho fun _ hr => hdata hr
  cases x with
  | inode i => exact hplain rfl
  | directory d => exact hplain rfl
  | file f =>
    obtain ⟨i, position, denying⟩ := f
    cases denying with
    | false => exact hplain rfl
    | true =>
      refine Yields.bind (Yields.trans (Inode.allowWrite_yields hn ho (hpos rfl) hle) Yields.pure) ?_
      exact Inode.close_leads (W := W.setOpening i.number _) hK hn (Function.update_self ..) fun _ hr => hdata hr

theorem reopenHandle_yields {x : Handle} {n : Node} {o : Opening}
    (hn : W.pool.nodes x.target.number = some n) (ho : W.opens x.target.number = some o) :
    Yields (Mounts K) W (Session.reopenHandle x) x.again (W.opened x.target.number) := by
  cases x with
  | inode i => exact Yields.trans (Inode.reopen_yields hn ho) Yields.pure
  | directory d =>
    exact Yields.trans (Yields.trans (Inode.reopen_yields hn ho) Yields.pure) Yields.pure
  | file f => exact Yields.trans (Yields.trans (Inode.reopen_yields hn ho) Yields.pure) Yields.pure

/-- Every call comes to what is said of it. -/
theorem act_leads (hK : K.Fits) (hO : W.Ordered K T) (hT : W.Tracks handles) (q : Call) (hq : q.Clean) :
    Leads (Mounts K) W (q.act handles) (q.Comes K W T handles) := by
  -- A call on a path is one of the volume. A call on a handle starts from the inode that the handle has
  -- open.
  cases q with
  | create path cwd size isDirectory =>
    exact Leads.mapBind (Volume.create_leads hK hO hq.1 hq.2 size isDirectory)
  | remove path cwd => exact Leads.mapBind (Volume.remove_leads hK hO path cwd)
  | changeDirectory path cwd =>
    refine Leads.mono (Leads.mapBind (Volume.changeDirectory_leads hK hO.rooted.walkable hO.attended path cwd)) ?_
    rintro res W' ⟨r, ⟨rfl, rfl⟩, rfl⟩
    exact ⟨rfl, rfl⟩
  | openInode path cwd => exact arrives_map (Volume.openInode_leads hK hO.rooted.walkable hO.attended path cwd)
  | openDirectory path cwd => exact arrives_map (Volume.openDirectory_leads hK hO.rooted.walkable hO.attended path cwd)
  | openFile path cwd mode => exact Leads.mapBind (Volume.openFile_leads hK hO hq.1 hq.2 mode)
  | close h =>
    refine onHandle_leads hT fun x n o hx hn ho => ?_
    refine Leads.bind (closeHandle_leads hK hO hT hx hn ho) ?_ ?_
    · rintro v W' ⟨-, hclosed⟩
      exact Leads.pure ⟨rfl, hclosed⟩
    · rintro e W' ⟨he, -⟩
      cases he
  | reopen h =>
    refine onHandle_leads hT fun x n o hx hn ho => ?_
    exact Yields.bind (reopenHandle_yields hn ho) (Leads.pure ⟨rfl, rfl⟩)
  | readAt h offset count =>
    refine onHandle_leads hT fun x n o hx hn ho => ?_
    exact Yields.bind (Inode.read_yields hn ho offset count) (Leads.pure ⟨rfl, rfl⟩)
  | writeAt h offset data =>
    refine onHandle_leads hT fun x n o hx hn ho => ?_
    exact Leads.mapBind (Inode.write_leads hK hn ho offset data)
  | grow h target =>
    refine onHandle_leads hT fun x n o hx hn ho => ?_
    exact Leads.mapBind (Inode.grow_leads hK hn ho target)
  | clear h =>
    refine onHandle_leads hT fun x n o hx hn ho => ?_
    exact Leads.mapBind (Inode.clear_leads hK hn ho)
  | read h count =>
    refine onFile_leads hT fun f n o hx hn ho => ?_
    exact Yields.bind (Yields.trans (Inode.read_yields hn ho f.position count) Yields.pure)
      (Leads.pure ⟨rfl, rfl⟩)
  | write h data =>
    refine onFile_leads hT fun f n o hx hn ho => ?_
    -- The position moves on by what has been written, so it is known only after the write.
    have hwrite : Leads (Mounts K) W (f.write data) fun res W' =>
        ∃ r, Inode.Writes K W f.inode.number n o f.position data r W' ∧
          res = r.map fun k => (k, { f with position := f.position + k }) :=
      Leads.mapBind (Inode.write_leads hK hn ho f.position data)
    refine Leads.bind hwrite ?_ ?_
    · rintro ⟨k, f'⟩ W' ⟨r, hr, hv⟩
      cases r with
      | error e => cases hv
      | ok k' =>
        cases hv
        exact Leads.pure ⟨_, hr, rfl⟩
    · rintro e W' ⟨r, hr, he⟩
      cases r with
      | error e' =>
        cases he
        exact ⟨_, hr, rfl⟩
      | ok k => cases he
  | seek h position =>
    refine onFile_leads hT fun f n o hx hn ho => ?_
    exact Leads.pure ⟨rfl, rfl⟩
  | denyWrite h =>
    refine onFile_leads hT fun f n o hx hn ho => ?_
    -- Only a handle that does not deny yet is counted anew, and then there are fewer denials than openers.
    obtain ⟨-, -, hlt⟩ := hT.denials_le hx ho
    obtain ⟨i, position, denying⟩ := f
    cases denying with
    | false =>
      exact Yields.bind (Yields.trans (Inode.denyWrite_yields hn ho (hlt rfl)) Yields.pure)
        (Leads.pure ⟨rfl, rfl⟩)
    | true =>
      refine Yields.bind Yields.pure (Leads.pure ⟨rfl, ?_⟩)
      exact (World.setOpening_same ho).symm
  | allowWrite h =>
    refine onFile_leads hT fun f n o hx hn ho => ?_
    obtain ⟨hle, hpos, -⟩ := hT.denials_le hx ho
    obtain ⟨i, position, denying⟩ := f
    cases denying with
    | false =>
      refine Yields.bind Yields.pure (Leads.pure ⟨rfl, ?_⟩)
      exact (World.setOpening_same ho).symm
    | true =>
      exact Yields.bind (Yields.trans (Inode.allowWrite_yields hn ho (hpos rfl) hle) Yields.pure)
        (Leads.pure ⟨rfl, rfl⟩)

end Call

end InodeVolume
