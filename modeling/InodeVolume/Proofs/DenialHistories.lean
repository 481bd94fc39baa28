import InodeVolume.Proofs.DeedAccounts
import InodeVolume.Proofs.Denials
import InodeVolume.Proofs.VolumeFrames
import Mathlib.Data.List.Forall2

/-!
# Histories of denials

For every open handle one may write down which calls to deny writing and to allow it again have been made
through it. Where writing is only denied by files (`Deed.ByFiles`), this history says all: an open inode has as
many denials in force as it has open files whose last call was to deny writing (`Client.deniers`), whatever else
is done to the inode and through other handles of it, and whichever accesses fail. So denials are never more
than openers, no rule of denying is broken, and writing to the inode and emptying it are refused as denied
exactly while there is such a file (`Client.denials_of_records`).
-/

namespace InodeVolume

/-! ## Histories -/

/-- A call that denies writing, or allows it again. -/
inductive Stance where
  | deny
  | allow
  deriving DecidableEq

/-- The last of the calls that have been made through a handle, of which the latest comes first, was to deny
writing. -/
def lastDenied (l : List Stance) : Bool := l.head? == some .deny

/-- The history belongs to the handle: only files have one, and its last call is in force. -/
def Handle.Recalls : Handle → List Stance → Prop
  | .file f, l => f.denying = lastDenied l
  | _, l => l = []

/-- Adds a call to the history of the handle at place `h`, if it is of a file. -/
def recorded (handles : List Handle) (h : Nat) (stance : Stance) (asked : List (List Stance)) :
    List (List Stance) :=
  match handles[h]? with
  | some (.file _) => asked.modify h (stance :: ·)
  | _ => asked

/-- Gives every handle that has come to the list an empty history. -/
def lengthened (handles handles' : List Handle) (asked : List (List Stance)) : List (List Stance) :=
  asked ++ List.replicate (handles'.length - handles.length) []

/-- The histories after a call that has left `handles'`. -/
def Call.recorded (handles handles' : List Handle) (asked : List (List Stance)) : Call → List (List Stance)
  | .denyWrite h => InodeVolume.recorded handles h .deny asked
  | .allowWrite h => InodeVolume.recorded handles h .allow asked
  | .close h => asked.eraseIdx h
  | _ => lengthened handles handles' asked

/-- The histories after a deed that has left `handles'`. -/
def Deed.recorded (handles handles' : List Handle) (asked : List (List Stance)) : Deed → List (List Stance)
  | .request (.call q) | .operation (.call q) => q.recorded handles handles' asked
  -- An inode that turns out to be no directory is closed.
  | .request (.asDirectory h) => if handles'.length < handles.length then asked.eraseIdx h else asked
  | _ => lengthened handles handles' asked

/-! ## Histories of a list of handles -/

section Lists

variable {α β : Type} {R : α → β → Prop} {l : List α} {m : List β}

/-- Related lists stay so when a member of each is replaced at the same place. -/
theorem forall₂_set_modify (h : List.Forall₂ R l m) (i : Nat) {y : α} {f : β → β}
    (hy : ∀ x b, l[i]? = some x → R x b → R y (f b)) : List.Forall₂ R (l.set i y) (m.modify i f) := by
  induction h generalizing i with
  | nil => simp
  | cons hx hrest ih =>
    cases i with
    | zero => exact .cons (hy _ _ rfl hx) hrest
    | succ i => exact .cons hx (ih i hy)

theorem forall₂_set (h : List.Forall₂ R l m) (i : Nat) {y : α} (hy : ∀ x b, l[i]? = some x → R x b → R y b) :
    List.Forall₂ R (l.set i y) m := by
  have hset := forall₂_set_modify h i (f := id) hy
  rwa [List.modify_id] at hset

theorem forall₂_eraseIdx (h : List.Forall₂ R l m) (i : Nat) :
    List.Forall₂ R (l.eraseIdx i) (m.eraseIdx i) := by
  induction h generalizing i with
  | nil => exact .nil
  | cons hx hrest ih =>
    cases i with
    | zero => exact hrest
    | succ i => exact .cons hx (ih i)

end Lists

/-- Every handle has its history. -/
abbrev Recall (handles : List Handle) (asked : List (List Stance)) : Prop :=
  List.Forall₂ Handle.Recalls handles asked

section Recall

variable {handles : List Handle} {asked : List (List Stance)} {h : Nat} {x y : Handle} {α : Type}

theorem lengthened_of_length {handles' : List Handle} (h : handles'.length = handles.length) :
    lengthened handles handles' asked = asked := by
  simp [lengthened, h]

theorem Recall.same (hr : Recall handles asked) : Recall handles (lengthened handles handles asked) := by
  rwa [lengthened_of_length rfl]

theorem Handle.recalls_nil (h : x.denies = false) : x.Recalls [] := by
  cases x with
  | file f => exact h
  | inode i => rfl
  | directory d => rfl

/-- A handle that has been handed out denies nothing, and nothing has been asked of it. -/
theorem Recall.opened (hr : Recall handles asked) (hy : y.denies = false) :
    Recall (handles ++ [y]) (lengthened handles (handles ++ [y]) asked) := by
  rw [lengthened, List.length_append, Nat.add_sub_cancel_left]
  exact List.rel_append hr (.cons (Handle.recalls_nil hy) .nil)

/-- A handle is replaced by one that has the same history. -/
theorem Recall.set (hr : Recall handles asked) (hx : handles[h]? = some x)
    (hy : ∀ l, x.Recalls l → y.Recalls l) : Recall (handles.set h y) (lengthened handles (handles.set h y) asked) := by
  rw [lengthened_of_length List.length_set]
  refine forall₂_set hr h fun x' l hx' => ?_
  rw [hx] at hx'
  cases hx'
  exact hy l

/-- A call that puts a file in its stance is the last one in its history. -/
theorem Recall.recorded (hr : Recall handles asked) {f f' : File} (hx : handles[h]? = some (.file f))
    {stance : Stance} (hf : f'.denying = decide (stance = .deny)) :
    Recall (handles.set h (.file f')) (recorded handles h stance asked) := by
  rw [InodeVolume.recorded, hx]
  refine forall₂_set_modify hr h fun _ l _ _ => ?_
  rw [Handle.Recalls, hf, lastDenied]
  cases stance <;> rfl

/-- Where there is no file, a call leaves the histories as they are. -/
theorem Recall.unrecorded (hr : Recall handles asked) {stance : Stance}
    (h' : ∀ f, handles[h]? ≠ some (.file f)) : Recall handles (InodeVolume.recorded handles h stance asked) := by
  unfold InodeVolume.recorded
  split
  · rename_i f hx
    exact absurd hx (h' f)
  · exact hr

end Recall

/-! ## What calls leave -/

theorem File.denyWrite_gives (f : File) : Gives f.denyWrite (·.denying = true) := by
  unfold denyWrite
  split
  · exact .pure ‹_›
  · exact .last fun _ => .pure rfl

theorem File.allowWrite_gives (f : File) : Gives f.allowWrite (·.denying = false) := by
  unfold allowWrite
  split
  · exact .last fun _ => .pure rfl
  · exact .pure (Bool.eq_false_of_not_eq_true ‹_›)

theorem reopenHandle_gives (x : Handle) : Gives (Session.reopenHandle x) (·.denies = false) := by
  cases x with
  | inode i => exact .last fun _ => .pure rfl
  | directory d => exact .last fun _ => .pure rfl
  | file f =>
    have hf : Gives f.reopen (·.denying = false) := .last fun _ => .pure rfl
    exact hf.bind fun _ hf' => .pure hf'

section Acts

variable {handles : List Handle} {asked : List (List Stance)} {h : Nat}

theorem Call.onHandle_gives {f : Handle → VolumeM (Answer × List Handle)} {P : Answer × List Handle → Prop}
    (hf : ∀ x, handles[h]? = some x → Gives (f x) P) (habsent : handles[h]? = none → P (.absent, handles)) :
    Gives (onHandle handles h f) P := by
  unfold onHandle
  cases hx : handles[h]? with
  | some x => exact hf x hx
  | none => exact .pure (habsent hx)

theorem Call.onFile_gives {f : File → VolumeM (Answer × List Handle)} {P : Answer × List Handle → Prop}
    (hf : ∀ x, handles[h]? = some (.file x) → Gives (f x) P)
    (habsent : (∀ x, handles[h]? ≠ some (.file x)) → P (.absent, handles)) :
    Gives (onFile handles h f) P := by
  refine onHandle_gives (fun x hx => ?_) fun hnone => habsent fun x hx => by
    rw [hnone] at hx
    cases hx
  cases x with
  | file x => exact hf x hx
  | inode i =>
    refine .pure (habsent fun x hx' => ?_)
    rw [hx] at hx'
    cases hx'
  | directory d =>
    refine .pure (habsent fun x hx' => ?_)
    rw [hx] at hx'
    cases hx'

/-- After a call, every handle that is open then has its history. -/
theorem Call.act_recorded (hr : Recall handles asked) (q : Call) :
    Gives (q.act handles) fun w => Recall w.2 (q.recorded handles w.2 asked) := by
  -- Only opening, closing and the two calls about denials change which histories there are or what is in
  -- them.
  cases q with
  | create path cwd size isDirectory => exact .last fun _ => .pure hr.same
  | remove path cwd => exact .last fun _ => .pure hr.same
  | changeDirectory path cwd => exact .last fun _ => .pure hr.same
  | openInode path cwd => exact .last fun i => .pure (hr.opened (y := .inode i) rfl)
  | openDirectory path cwd => exact .last fun d => .pure (hr.opened (y := .directory d) rfl)
  | openFile path cwd mode =>
    have hfile : Gives (Volume.openFile path cwd mode) (·.denying = false) := by
      refine .last fun i => .last fun isDirectory => ?_
      split
      · exact .last fun _ => .pure rfl
      · exact .pure rfl
    exact hfile.bind fun f hf => .pure (hr.opened (y := .file f) hf)
  | close h =>
    refine onHandle_gives (fun x _ => .last fun _ => .pure (forall₂_eraseIdx hr h)) fun hnone => ?_
    have hle : asked.length ≤ h := hr.length_eq ▸ List.getElem?_eq_none_iff.1 hnone
    show Recall handles (asked.eraseIdx h)
    rwa [List.eraseIdx_of_length_le hle]
  | reopen h =>
    exact onHandle_gives (fun x _ => (reopenHandle_gives x).bind fun y hy => .pure (hr.opened hy)) fun _ => hr.same
  | readAt h offset count => exact onHandle_gives (fun _ _ => .last fun _ => .pure hr.same) fun _ => hr.same
  | writeAt h offset data => exact onHandle_gives (fun _ _ => .last fun _ => .pure hr.same) fun _ => hr.same
  | grow h target => exact onHandle_gives (fun _ _ => .last fun _ => .pure hr.same) fun _ => hr.same
  | clear h => exact onHandle_gives (fun _ _ => .last fun _ => .pure hr.same) fun _ => hr.same
  | read h count =>
    refine onFile_gives (fun f hx => ?_) fun _ => hr.same
    have hread : Gives (f.read count) (·.2.denying = f.denying) := .last fun _ => .pure rfl
    exact hread.bind fun w hw => .pure (hr.set hx fun l hl => hw.trans hl)
  | write h data =>
    refine onFile_gives (fun f hx => ?_) fun _ => hr.same
    have hwrite : Gives (f.write data) (·.2.denying = f.denying) := .last fun _ => .pure rfl
    exact hwrite.bind fun w hw => .pure (hr.set hx fun l hl => hw.trans hl)
  | seek h position => exact onFile_gives (fun f hx => .pure (hr.set hx fun _ hl => hl)) fun _ => hr.same
  | denyWrite h =>
    exact onFile_gives (fun f hx => f.denyWrite_gives.bind fun f' hf => .pure (hr.recorded hx hf)) hr.unrecorded
  | allowWrite h =>
    exact onFile_gives (fun f hx => f.allowWrite_gives.bind fun f' hf => .pure (hr.recorded hx hf)) hr.unrecorded

theorem Request.onDirectory_gives {f : Directory → VolumeM (Response × List Handle)}
    {P : Response × List Handle → Prop} (hf : ∀ d, handles[h]? = some (.directory d) → Gives (f d) P)
    (habsent : P (.answer .absent, handles)) : Gives (onDirectory handles h f) P := by
  unfold onDirectory
  split
  · exact hf _ ‹_›
  · exact .pure habsent

theorem Operation.onTarget_gives {f : Inode → VolumeM Report} (hr : Recall handles asked) :
    Gives (onTarget handles h f) fun w => Recall w.2 (lengthened handles w.2 asked) := by
  unfold onTarget
  split
  · exact .last fun _ => .pure hr.same
  · exact .pure hr.same

theorem Deed.onDirectory_gives {f : Directory → VolumeM (Finding × List Handle)}
    {P : Finding × List Handle → Prop} (hf : ∀ d, handles[h]? = some (.directory d) → Gives (f d) P)
    (habsent : P (.response (.answer .absent), handles)) : Gives (onDirectory handles h f) P := by
  unfold onDirectory
  split
  · exact hf _ ‹_›
  · exact .pure habsent

/-- As `Call.act_recorded`, for requests. -/
theorem Request.act_recorded (hr : Recall handles asked) (r : Request) :
    Gives (r.act handles) fun w => Recall w.2 ((Deed.request r).recorded handles w.2 asked) := by
  cases r with
  | call q => exact (q.act_recorded hr).bind fun _ hw => .pure hw
  | lookup h name => exact onDirectory_gives (fun _ _ => .last fun _ => .pure hr.same) hr.same
  | openEntry h name =>
    exact onDirectory_gives (fun _ _ => .last fun i => .pure (hr.opened (y := .inode i) rfl)) hr.same
  | readNext h =>
    exact onDirectory_gives (fun _ hx => .last fun _ => .pure (hr.set hx fun _ hl => hl)) hr.same
  | asDirectory h =>
    show Gives (onInode handles h _) _
    unfold onInode
    split
    · rename_i i hx
      -- Whether the inode became a directory or was closed shows in how many handles there are.
      have hlt : h < handles.length := (List.getElem?_eq_some_iff.1 hx).1
      refine .last fun res => ?_
      cases res with
      | ok d =>
        refine .pure ?_
        have hset := hr.set hx (y := .directory d) fun _ hl => hl
        rw [lengthened_of_length List.length_set] at hset
        show Recall _ (if (handles.set h _).length < handles.length then _ else _)
        rwa [List.length_set, if_neg (Nat.lt_irrefl _)]
      | error e =>
        refine .pure ?_
        show Recall _ (if (handles.eraseIdx h).length < handles.length then _ else _)
        rw [List.length_eraseIdx_of_lt hlt, if_pos (by omega)]
        exact forall₂_eraseIdx hr h
    · refine .pure ?_
      show Recall handles (if handles.length < handles.length then _ else _)
      rwa [if_neg (Nat.lt_irrefl _)]

/-- As `Call.act_recorded`, for operations. -/
theorem Operation.act_recorded (hr : Recall handles asked) (op : Operation) :
    Gives (op.act handles) fun w => Recall w.2 ((Deed.operation op).recorded handles w.2 asked) := by
  cases op with
  | call q => exact (q.act_recorded hr).bind fun _ hw => .pure hw
  | markRemoved h | denyWrite h | allowWrite h | inspect h =>
    rw [act]
    exact onTarget_gives hr
  | asFile h =>
    rw [act]
    split
    · rename_i i hx
      -- An inode has no history, and a file that is made of it has not been asked anything.
      exact .pure (hr.set (y := .file (.ofInode i)) hx fun l hl => by rw [show l = [] from hl]; rfl)
    · exact .pure hr.same
  | locate h position =>
    rw [act]
    exact onTarget_gives hr
  | tell h =>
    rw [act]
    split
    · exact .pure hr.same
    · exact .pure hr.same
  | countFree => exact .last fun _ => .pure hr.same

/-- After a deed, every handle that is open then has its history. -/
theorem Deed.act_recorded (hr : Recall handles asked) (d : Deed) :
    Gives (d.act handles) fun w => Recall w.2 (d.recorded handles w.2 asked) := by
  -- A deed that is neither a request nor an operation does not touch the denials of a handle. At most a
  -- handle is added.
  cases d with
  | request r => exact (r.act_recorded hr).bind fun _ hw => .pure hw
  | operation op => exact (op.act_recorded hr).bind fun _ hw => .pure hw
  | acquire number => exact .last fun i => .pure (hr.opened (y := .inode i) rfl)
  | openRoot => exact .last fun d => .pure (hr.opened (y := .directory d) rfl)
  | storeInode number size isDirectory => exact .last fun _ => .pure hr.same
  | storeDirectory number slots => exact .last fun _ => .pure hr.same
  | link h name number => exact onDirectory_gives (fun _ _ => .last fun _ => .pure hr.same) hr.same
  | unlink h name => exact onDirectory_gives (fun _ _ => .last fun _ => .pure hr.same) hr.same
  | isEmpty h => exact onDirectory_gives (fun _ _ => .last fun _ => .pure hr.same) hr.same
  | names h limit =>
    exact onDirectory_gives (fun _ hx => .last fun _ => .pure (hr.set hx fun _ hl => hl)) hr.same
  | allocate count => exact .last fun _ => .pure hr.same
  | release first count => exact .last fun _ => .pure hr.same
  | isFree id => exact .last fun _ => .pure hr.same

end Acts

/-! ## Runs with their histories -/

namespace Client

variable {c : Client} {asked : List (List Stance)} {x : UInt32}

/-- The histories after a deed. One that reports an error changes none. -/
def recorded (c : Client) (asked : List (List Stance)) (d : Deed) : List (List Stance) :=
  match d.act c.handles c.volume with
  | .ok (_, handles) _ => d.recorded c.handles handles asked
  | .error _ _ => asked

/-- A client that has done any deeds, where writing is only denied by files, with the histories of its handles.
Meanwhile the volume may have been mounted again and the disk may have changed under its feet. -/
inductive Records : Client → List (List Stance) → Prop
  | start (disk : Disk) (space : SpaceMap) : Records ⟨⟨disk, space, {}⟩, []⟩ []
  | perform {c : Client} {asked : List (List Stance)} (h : Records c asked) (d : Deed) (byFiles : d.ByFiles) :
    Records (c.perform d).2 (c.recorded asked d)
  | mount {c : Client} {asked : List (List Stance)} (h : Records c asked) (format : Bool) :
    Records (c.mount format).2 []
  | disturbance {c : Client} {asked : List (List Stance)} (h : Records c asked) (disk : Disk) :
    Records { c with volume := { c.volume with disk := disk } } asked

/-- How many open files of inode `x` have been asked last to deny writing. -/
def deniers (c : Client) (asked : List (List Stance)) (x : UInt32) : Nat :=
  (c.handles.zip asked).countP fun
    | (.file f, l) => f.inode.number == x && lastDenied l
    | _ => false

theorem Tallied.perform (h : c.Tallied fun _ => False) {d : Deed} (hd : d.ByFiles) :
    (c.perform d).2.Tallied (fun _ => False) ∧ Fair (c.perform d).1 := by
  obtain ⟨A, hA, hv⟩ := h
  rcases (d.act_balances hA hd).run hv with
    ⟨⟨a, handles⟩, v, B, hact, hB, hfair, hhold⟩ | ⟨e, v, B, hact, hB, hfair, hhold⟩
  · rw [Client.perform, hact]
    exact ⟨⟨B, hhold, hB⟩, fair_ok⟩
  · rw [Client.perform, hact]
    exact ⟨⟨B, hhold, hB⟩, hfair.of_error⟩

theorem Records.tallied (h : c.Records asked) : c.Tallied fun _ => False := by
  induction h with
  | start disk space => exact tallied_blank disk space
  | perform _ d hd ih => exact (ih.perform hd).1
  | mount _ format _ => exact (tallied_mount _ format).1
  | disturbance _ disk ih => exact ih

theorem Records.recall (h : c.Records asked) : Recall c.handles asked := by
  induction h with
  | start disk space => exact .nil
  | @perform c asked _ d hd ih =>
    have hacted := d.act_recorded ih
    rw [recorded, Client.perform]
    cases hact : d.act c.handles c.volume with
    | ok w v => exact hacted _ _ _ hact
    | error e v => exact ih
  | mount _ format _ =>
    rw [(tallied_mount _ format).2.1]
    exact .nil
  | disturbance _ disk ih => exact ih

/-- These are the files that have a denial in force. -/
theorem deniers_eq (h : Recall c.handles asked) (x : UInt32) : c.deniers asked x = c.denials x := by
  unfold deniers denials
  generalize c.handles = handles at h
  -- By induction along the handles and their histories. Only a handle of a file can deny.
  induction h with
  | nil => rfl
  | @cons y l handles asked hy _ ih =>
    rw [List.zip_cons_cons, List.countP_cons, List.countP_cons, ih]
    cases y with
    | file f => simp only [Handle.target, Handle.denies, show f.denying = lastDenied l from hy]
    | inode i => simp only [Handle.denies, Bool.and_false]
    | directory d => simp only [Handle.denies, Bool.and_false]

/-- Requests are such deeds. -/
theorem Asked.records (h : c.Asked) : ∃ asked, c.Records asked := by
  obtain ⟨disk, ⟨v, handles⟩, hs, hr⟩ := h
  obtain rfl := hs.handles
  -- The volume was formatted, and mounting is itself a deed, by which all denials are forgotten.
  obtain ⟨space, disk', hmap, hprepare⟩ := hs.formats
  induction hr with
  | start =>
    have hmount := (Records.start disk ⟨0⟩).mount true
    rw [show (mount ⟨⟨disk, ⟨0⟩, {}⟩, []⟩ true).2 = ⟨v, []⟩ by simp only [mount, hmap, hprepare]] at hmount
    exact ⟨_, hmount⟩
  | ask run r permitted h ih =>
    obtain ⟨asked, hasked⟩ := ih
    have hdeed := hasked.perform (.request r) trivial
    rw [perform_request] at hdeed
    exact ⟨_, hdeed⟩

/-- As long as writing is only denied by files, an open inode has as many denials in force as it has open files
that were asked last to deny writing, and never more than openers. Writing to it and emptying it are refused as
denied exactly if there is one. Every handle has its inode open, and no deed and no mounting breaks a rule of
opening, closing or denying. -/
theorem denials_of_records (h : c.Records asked) :
    (∀ x node, c.volume.registry[x]? = some node →
      node.denials = c.deniers asked x ∧ node.denials ≤ node.openers ∧
      (∀ offset data, (outcome (Inode.write ⟨x⟩ offset data) c.volume).1 = .error (.failed .writeDenied) ↔
        0 < node.denials) ∧
      ((outcome (Inode.clear ⟨x⟩) c.volume).1 = .error (.failed .writeDenied) ↔ 0 < node.denials)) ∧
    (∀ y ∈ c.handles, c.volume.registry[y.target.number]? ≠ none) ∧
    (∀ d : Deed, d.ByFiles → Fair (c.perform d).1) ∧ ∀ format, Fair (c.mount format).1 := by
  obtain ⟨A, hA, hv⟩ := h.tallied
  -- The registry counts what the handles deny, and their histories say which of them do.
  have hcounted : c.Counted := .of_counts hA hv
  refine ⟨fun x node hnode => ?_, fun y hy => (hcounted.registered _).2 ⟨y, hy, rfl⟩,
    fun d hd => (h.tallied.perform hd).2, fun format => (tallied_mount c format).2.2.fair⟩
  have hdenials := hcounted.denials x node hnode
  have hopeners := hcounted.openers x
  rw [Client.openers, hnode] at hopeners
  refine ⟨hdenials.trans (deniers_eq h.recall x).symm, ?_, fun offset data => ?_, ?_⟩
  · rw [hdenials, show node.openers = _ from hopeners]
    exact List.countP_mono_left fun y _ hy => (Bool.and_eq_true_iff.1 hy).1
  · exact (Inode.write_guarded ⟨x⟩ offset data).denied_iff hnode
  · exact (Inode.clear_guarded ⟨x⟩).denied_iff hnode

/-- A file that has been made is opened and asked to deny writing. -/
theorem denials_of_made : ∃ (c : Client) (asked : List (List Stance)) (x : UInt32) (node : OpenInode),
    c.Records asked ∧ c.volume.registry[x]? = some node ∧ 0 < c.deniers asked x ∧
    node.denials = c.deniers asked x ∧ node.denials ≤ node.openers ∧
    ∀ offset data, (outcome (Inode.write ⟨x⟩ offset data) c.volume).1 = .error (.failed .writeDenied) := by
  obtain ⟨-, c, -, -, -, -, x, -, -, -, ha, -, -, hhandles⟩ := exists_denying
  have hpos : 0 < c.denials x := by simp [Client.denials, hhandles, Handle.target, Handle.denies]
  obtain ⟨asked, hrecords⟩ := ha.records
  obtain ⟨hregistered, hopen, -⟩ := denials_of_records hrecords
  obtain ⟨y, hy, hdenies⟩ := List.countP_pos_iff.1 hpos
  obtain ⟨rfl, -⟩ : y.target.number = x ∧ y.denies = true := by simpa using hdenies
  obtain ⟨node, hnode⟩ := Option.ne_none_iff_exists'.1 (hopen y hy)
  obtain ⟨hdenials, hle, hwrite, -⟩ := hregistered _ node hnode
  rw [← deniers_eq hrecords.recall] at hpos
  exact ⟨c, asked, _, node, hrecords, hnode, hpos, hdenials, hle,
    fun offset data => (hwrite offset data).2 (hdenials ▸ hpos)⟩

end Client

end InodeVolume
