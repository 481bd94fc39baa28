import InodeVolume.Proofs.Requests
import InodeVolume.Proofs.Tallies

/-!
# Handles and openers

On any disk, damaged in any way, and with accesses that fail in any pattern, the registry counts the
handles that clients hold: it has an entry for an inode exactly while there is a handle of it, and the
entry has as many openers as there are handles (`Client.Counted`). An event, be it a request that succeeds
or one that fails halfway, changes this only by the handles that it hands out and takes back
(`Client.Balanced`).

The first part counts the handles of a list (`holding`) and says what each request makes of a tally with
these counts (`Request.act_counts`); the second follows all events (`Client.Arises`).
-/

namespace InodeVolume

/-! ## Counting a list of handles -/

/-- The openers of every inode that a list of handles stands for. -/
def holding (handles : List Handle) (x : UInt32) : Hold where
  plain := handles.countP fun h => h.target.number == x && !h.denies
  denying := handles.countP fun h => h.target.number == x && h.denies

/-- The openers of every inode with those of one more handle. -/
def Handle.counted (h : Handle) (F : UInt32 → Hold) (x : UInt32) : Hold where
  plain := (F x).plain + if h.target.number == x && !h.denies then 1 else 0
  denying := (F x).denying + if h.target.number == x && h.denies then 1 else 0

theorem Handle.counted_of_ne {h : Handle} {F : UInt32 → Hold} {x : UInt32} (hx : x ≠ h.target.number) :
    h.counted F x = F x := by
  simp [counted, Ne.symm hx]

section Holding

variable {handles : List Handle} {i : Nat} {x y : Handle}

theorem holding_openers (handles : List Handle) (x : UInt32) :
    (holding handles x).openers = handles.countP (·.target.number == x) := by
  induction handles with
  | nil => rfl
  | cons h rest ih =>
    simp only [holding, Hold.openers, List.countP_cons] at ih ⊢
    rw [← ih]
    cases h.target.number == x <;> cases h.denies <;> simp <;> omega

theorem holding_append (handles : List Handle) (y : Handle) :
    holding (handles ++ [y]) = y.counted (holding handles) := by
  funext x
  simp only [holding, Handle.counted, List.countP_append, List.countP_singleton]

theorem holding_of_getElem? (h : handles[i]? = some x) :
    holding handles = x.counted (holding (handles.eraseIdx i)) := by
  funext z
  simp only [holding, Handle.counted, ← countP_of_getElem? _ h]

theorem holding_set (h : handles[i]? = some x) (y : Handle) :
    holding (handles.set i y) = y.counted (holding (handles.eraseIdx i)) := by
  funext z
  simp only [holding, Handle.counted, countP_set' _ y h]

/-- Another handle of the same inode, which denies writing if the first one does, counts the same. -/
theorem holding_set_same (h : handles[i]? = some x) (htarget : y.target = x.target)
    (hdenies : y.denies = x.denies) : holding (handles.set i y) = holding handles := by
  rw [holding_set h, holding_of_getElem? h]
  funext z
  simp only [Handle.counted, htarget, hdenies]

/-- A handle in the list counts. -/
theorem holding_pos (h : x ∈ handles) : 0 < (holding handles x.target.number).openers := by
  rw [holding_openers]
  exact List.countP_pos_iff.2 ⟨x, h, by simp⟩

end Holding

section Requests

variable {marked : UInt32 → Prop} {A B : Tally marked} {handles : List Handle} {i : Nat} {x : Handle}
  {α β : Type}

/-- The tally of a list of handles. -/
def Tally.ofHandles (handles : List Handle)
    (h : ∀ id, marked id → ∃ y ∈ handles, y.target.number = id) : Tally marked where
  hold := holding handles
  held id hid := by
    obtain ⟨y, hy, rfl⟩ := h id hid
    exact holding_pos hy

/-- A handle that does not deny writing is one opener more. -/
theorem Tally.opened_hold_eq (A : Tally marked) {x : Handle} (hx : x.denies = false) :
    (A.opened x.target.number).hold = x.counted A.hold := by
  funext z
  by_cases hz : z = x.target.number
  · rw [hz, A.opened_hold_self]
    simp [Hold.opened, Handle.counted, hx]
  · rw [A.opened_hold_of_ne hz, Handle.counted_of_ne hz]

theorem Tally.eq_opened {E : Tally marked} (hA : A.hold = x.counted E.hold) (hx : x.denies = false) :
    A = E.opened x.target.number :=
  Tally.ext (hA.trans (E.opened_hold_eq hx).symm)

/-- The inode of a handle in the list has an opener. -/
theorem Tally.open_of_handle (hA : A.hold = holding handles) (hx : handles[i]? = some x) :
    A.Open x.target.number := by
  rw [Tally.Open, hA]
  exact holding_pos (List.mem_of_getElem? hx)

/-! ## Denying writes -/

namespace Inode

/-- One opener denies writing from now on. -/
theorem denyWrite_counts {i : Inode} (hothers : ∀ j, j ≠ i.number → B.hold j = A.hold j)
    (hplain : (A.hold i.number).plain = (B.hold i.number).plain + 1)
    (hdenying : (B.hold i.number).denying = (A.hold i.number).denying + 1) :
    Yields Counts A i.denyWrite () B := by
  have hopen : A.Open i.number := by
    rw [Tally.Open, Hold.openers]
    omega
  refine Answers.bind (entry_counts hopen) fun node hnode => ?_
  obtain ⟨-, hopeners, hdenials, hremoved⟩ := hnode
  simp only [Hold.openers] at hopeners
  rw [if_pos (by omega)]
  exact insert_counts hothers ⟨by simp only [Hold.openers]; omega, by simp only [Hold.openers]; omega,
    by simp only; omega, hremoved⟩

/-- One opener does not deny writing any more. -/
theorem allowWrite_counts {i : Inode} (hothers : ∀ j, j ≠ i.number → B.hold j = A.hold j)
    (hplain : (B.hold i.number).plain = (A.hold i.number).plain + 1)
    (hdenying : (A.hold i.number).denying = (B.hold i.number).denying + 1) :
    Yields Counts A i.allowWrite () B := by
  have hopen : A.Open i.number := by
    rw [Tally.Open, Hold.openers]
    omega
  refine Answers.bind (entry_counts hopen) fun node hnode => ?_
  obtain ⟨-, hopeners, hdenials, hremoved⟩ := hnode
  simp only [Hold.openers] at hopeners
  rw [if_pos (by omega)]
  exact insert_counts hothers ⟨by simp only [Hold.openers]; omega, by simp only [Hold.openers]; omega,
    by simp only; omega, hremoved⟩

end Inode

namespace File

variable {f : File} {F : UInt32 → Hold}

/-- However often a file is asked to deny writing, it denies it once. -/
theorem denyWrite_counts (hA : A.hold = (Handle.file f).counted F)
    (hB : B.hold = (Handle.file { f with denying := true }).counted F) :
    Yields Counts A f.denyWrite { f with denying := true } B := by
  obtain ⟨i, position, denying⟩ := f
  cases denying with
  | true => exact Tally.ext (hA.trans hB.symm) ▸ Yields.pure
  | false =>
    refine Yields.trans (Inode.denyWrite_counts (fun j hj => ?_) ?_ ?_) Yields.pure
    · rw [hA, hB, Handle.counted_of_ne hj, Handle.counted_of_ne hj]
    · simp [hA, hB, Handle.counted, Handle.target, Handle.denies]
    · simp [hA, hB, Handle.counted, Handle.target, Handle.denies]

/-- A file that takes its denial back is an opener as any other. -/
theorem allowWrite_counts (hA : A.hold = (Handle.file f).counted F)
    (hB : B.hold = (Handle.file { f with denying := false }).counted F) :
    Yields Counts A f.allowWrite { f with denying := false } B := by
  obtain ⟨i, position, denying⟩ := f
  cases denying with
  | false => exact Tally.ext (hA.trans hB.symm) ▸ Yields.pure
  | true =>
    refine Yields.trans (Inode.allowWrite_counts (fun j hj => ?_) ?_ ?_) Yields.pure
    · rw [hA, hB, Handle.counted_of_ne hj, Handle.counted_of_ne hj]
    · simp [hA, hB, Handle.counted, Handle.target, Handle.denies]
    · simp [hA, hB, Handle.counted, Handle.target, Handle.denies]

end File

/-! ## Handles -/

/-- Closing a handle takes off the opener that it stands for, and the denial of writing that it has. -/
theorem closeHandle_counts {E : Tally marked} (hA : A.hold = x.counted E.hold) :
    Yields Counts A (Session.closeHandle x) () E := by
  cases x with
  | inode i => exact Tally.eq_opened hA rfl ▸ Inode.close_counts E i
  | directory d => exact Tally.eq_opened hA rfl ▸ Inode.close_counts E d.inode
  | file f =>
    have hB := E.opened_hold_eq (x := .file { f with denying := false }) rfl
    exact Yields.trans (File.allowWrite_counts hA hB) (Inode.close_counts E f.inode)

/-- The action opens one inode, by the handle that `f` makes of its answer, and nothing if it fails. -/
def HandsOut (A : Tally marked) (x : VolumeM α) (f : α → Handle) : Prop :=
  Leads Counts A x fun r B => Sober r ∧
    match r with
    | .ok v => B.hold = (f v).counted A.hold
    | .error _ => B = A

/-- An opener that is handed out becomes a handle that denies nothing. -/
theorem Settles.handsOut {x : VolumeM α} {number : α → UInt32} (hx : Hands A x number)
    (f : α → Handle) (hnumber : ∀ v, (f v).target.number = number v)
    (hdenies : ∀ v, (f v).denies = false) : HandsOut A x f := by
  refine Leads.mono hx ?_
  rintro (e | v) B ⟨hs, rfl⟩
  · exact ⟨hs, rfl⟩
  · refine ⟨hs, ?_⟩
    show (A.opened (number v)).hold = _
    rw [← hnumber, A.opened_hold_eq (hdenies v)]

theorem HandsOut.map {x : VolumeM α} {f : α → Handle} {g : α → β} {f' : β → Handle}
    (hx : HandsOut A x f) (h : ∀ v, f' (g v) = f v) :
    HandsOut A (x >>= fun v => pure (g v)) f' := by
  refine Leads.bind hx ?_ ?_
  · rintro v B ⟨-, hB⟩
    refine Leads.pure ⟨sober_ok, ?_⟩
    show B.hold = (f' (g v)).counted A.hold
    rw [h v]
    exact hB
  · rintro e B ⟨hs, rfl⟩
    exact ⟨sober_error hs, rfl⟩

/-- Opening once more is by a handle that denies nothing. -/
theorem reopenHandle_handsOut (h : A.Open x.target.number) :
    HandsOut A (Session.reopenHandle x) id := by
  -- The three kinds of handles open the inode once more in the same way.
  cases x with
  | inode i =>
    exact ((Inode.reopen_hands h).handsOut Handle.inode (fun _ => rfl) fun _ => rfl).map fun _ => rfl
  | directory d =>
    exact ((Directory.reopen_hands h).handsOut Handle.directory (fun _ => rfl) fun _ => rfl).map
      fun _ => rfl
  | file f =>
    have hfile : HandsOut A f.reopen Handle.file :=
      ((Inode.reopen_hands h).handsOut (fun i => .file (.ofInode i)) (fun _ => rfl) fun _ => rfl).map
        fun _ => rfl
    exact hfile.map fun _ => rfl

/-! ## Requests -/

/-- No calling rule was broken but one: a path that has to be absolute was relative. -/
def Ruly (res : Except Stop α) : Prop := ∀ rule, res = .error (.misused rule) → rule = .relativePath

theorem Ruly.of_sober {res : Except Stop α} (h : Sober res) : Ruly res :=
  fun rule hr => absurd hr (h rule)

theorem Ruly.of_error {e : Stop} (h : Ruly (.error e : Except Stop α)) : Ruly (.error e : Except Stop β) :=
  fun rule hr => h rule (by cases hr; rfl)

/-- The tally is that of the handles that are open after the request. -/
def Accounts (handles : List Handle) (res : Except Stop (α × List Handle)) (B : Tally marked) : Prop :=
  Ruly res ∧ B.hold = holding (Request.kept handles res)

section Accounting

variable {x : VolumeM α}

/-- A request that opens and closes nothing may move a handle to another place. -/
theorem Settles.accounts (hA : A.hold = holding handles) (hx : Keeps A x) (g : α → β × List Handle)
    (hg : ∀ v, holding (g v).2 = holding handles) :
    Leads Counts A (x >>= fun v => Pure.pure (g v)) (Accounts handles) := by
  refine Leads.bind hx ?_ ?_
  · rintro v B ⟨-, rfl⟩
    exact Leads.pure ⟨.of_sober sober_ok, hA.trans (hg v).symm⟩
  · rintro e B ⟨hs, rfl⟩
    exact ⟨.of_sober (sober_error hs), hA⟩

/-- A request that opens an inode hands its handle out. -/
theorem HandsOut.accounts (hA : A.hold = holding handles) {f : α → Handle} (hx : HandsOut A x f)
    (a : α → β) : Leads Counts A (x >>= fun v => pure (a v, handles ++ [f v])) (Accounts handles) := by
  refine Leads.bind hx ?_ ?_
  · rintro v B ⟨-, hB⟩
    refine Leads.pure ⟨.of_sober sober_ok, ?_⟩
    show B.hold = holding (handles ++ [f v])
    rw [holding_append, ← hA]
    exact hB
  · rintro e B ⟨hs, rfl⟩
    exact ⟨.of_sober (sober_error hs), hA⟩

/-- A request on a handle that is not there does nothing. -/
theorem absent_accounts (hA : A.hold = holding handles) (b : β) :
    Leads Counts A (pure (b, handles)) (Accounts handles) :=
  Leads.pure ⟨.of_sober sober_ok, hA⟩

end Accounting

/-- With another handle of the same inode at a place, every inode has as many openers. -/
theorem Tally.exists_replaced (hA : A.hold = holding handles) (hx : handles[i]? = some x) {y : Handle}
    (htarget : y.target = x.target) : ∃ B : Tally marked, B.hold = holding (handles.set i y) := by
  refine ⟨⟨holding (handles.set i y), fun id hid => ?_⟩, rfl⟩
  have hpos := A.held id hid
  rw [hA, holding_openers, countP_of_getElem? _ hx] at hpos
  rw [holding_openers, countP_set' _ y hx, htarget]
  exact hpos

namespace Volume

/-- A file is handed out without a denial; its opener is closed again if its contents should have been
emptied and could not be. -/
theorem openFile_handsOut (path cwd : String) (mode : OpenMode) :
    HandsOut A (openFile path cwd mode) Handle.file := by
  refine Leads.bind (openOrCreate_hands path cwd mode.create) ?_ ?_
  · rintro i B ⟨-, rfl⟩
    have hopen := A.opened_open i.number
    -- If emptying the file fails, it is closed again, so nothing has been handed out.
    have hclear : Settles (A.opened i.number) (orUndo i.clear i.close) A fun _ => A.opened i.number :=
      (Inode.clear_keeps hopen).orUndo (Inode.close_counts A i)
    have hhold := A.opened_hold_eq (x := .file (.ofInode i)) rfl
    refine Answers.bind (Inode.lookup_answers hopen _) fun isDirectory _ => ?_
    split
    · refine Leads.bind hclear ?_ ?_
      · rintro u B ⟨-, rfl⟩
        exact Leads.pure ⟨sober_ok, hhold⟩
      · rintro e B ⟨hs, rfl⟩
        exact ⟨sober_error hs, rfl⟩
    · exact Leads.pure ⟨sober_ok, hhold⟩
  · rintro e B ⟨hs, rfl⟩
    exact ⟨sober_error hs, rfl⟩

/-- The directory that is looked for is closed again before its path is folded. -/
theorem changeDirectory_counts (path cwd : String) :
    Leads Counts A (changeDirectory path cwd) fun r B => Ruly r ∧ B = A := by
  refine Leads.bind (Keeps.resume _) ?_ ?_
  · rintro absolute B ⟨-, rfl⟩
    refine Leads.bind (walk_hands absolute) ?_ ?_
    · rintro d B ⟨-, rfl⟩
      -- The directory is closed before its path is put into normal form.
      refine Yields.bind (Inode.close_counts _ d.inode) ?_
      cases Path.normalize? absolute with
      | some place => exact Leads.pure ⟨.of_sober sober_ok, rfl⟩
      | none => exact Leads.throw ⟨fun rule hr => by cases hr; rfl, rfl⟩
    · rintro e B ⟨hs, rfl⟩
      exact ⟨.of_sober (sober_error hs), rfl⟩
  · rintro e B ⟨hs, rfl⟩
    exact ⟨.of_sober (sober_error hs), rfl⟩

end Volume

namespace Call

theorem onHandle_counts {h : Nat} {f : Handle → VolumeM (Answer × List Handle)}
    (hA : A.hold = holding handles)
    (hf : ∀ x, handles[h]? = some x → A.Open x.target.number →
      Leads Counts A (f x) (Accounts handles)) :
    Leads Counts A (onHandle handles h f) (Accounts handles) := by
  unfold onHandle
  cases hx : handles[h]? with
  | none => exact absent_accounts hA _
  | some x => exact hf x hx (Tally.open_of_handle hA hx)

theorem onFile_counts {h : Nat} {f : File → VolumeM (Answer × List Handle)}
    (hA : A.hold = holding handles)
    (hf : ∀ x, handles[h]? = some (.file x) → A.Open x.inode.number →
      Leads Counts A (f x) (Accounts handles)) :
    Leads Counts A (onFile handles h f) (Accounts handles) := by
  refine onHandle_counts hA fun x hx hopen => ?_
  cases x with
  | inode i => exact absent_accounts hA _
  | directory d => exact absent_accounts hA _
  | file x => exact hf x hx hopen

/-- Every call leaves the openers of the handles that are open after it. -/
theorem act_counts (hA : A.hold = holding handles) (q : Call)
    (hkept : ∀ h, q = .close h → ∀ id, marked id → ∃ y ∈ handles.eraseIdx h, y.target.number = id) :
    Leads Counts A (q.act handles) (Accounts handles) := by
  -- Where no handle comes or goes, the openers are those of before and the lemma of the operation is
  -- enough.
  cases q with
  | create path cwd size isDirectory =>
    exact (Volume.create_keeps path cwd size isDirectory).accounts hA _ fun _ => rfl
  | remove path cwd => exact (Volume.remove_keeps path cwd).accounts hA _ fun _ => rfl
  | changeDirectory path cwd =>
    refine Leads.bind (Volume.changeDirectory_counts path cwd) ?_ ?_
    · rintro place B ⟨-, rfl⟩
      exact absent_accounts hA _
    · rintro e B ⟨hr, rfl⟩
      exact ⟨hr.of_error, hA⟩
  | openInode path cwd =>
    exact ((Volume.openInode_hands path cwd).handsOut Handle.inode (fun _ => rfl)
      fun _ => rfl).accounts hA _
  | openDirectory path cwd =>
    exact ((Volume.openDirectory_hands path cwd).handsOut Handle.directory (fun _ => rfl)
      fun _ => rfl).accounts hA _
  | openFile path cwd mode =>
    exact (Volume.openFile_handsOut path cwd mode).accounts hA _
  | close h =>
    refine onHandle_counts hA fun x hx _ => ?_
    -- The handle that is closed is counted apart from the others.
    have hE : A.hold = x.counted (Tally.ofHandles (handles.eraseIdx h) (hkept h rfl)).hold :=
      hA.trans (holding_of_getElem? hx)
    exact Yields.bind (closeHandle_counts hE) (Leads.pure ⟨.of_sober sober_ok, rfl⟩)
  | reopen h =>
    refine onHandle_counts hA fun x hx hopen => ?_
    exact (reopenHandle_handsOut hopen).accounts hA _
  | readAt h offset count =>
    refine onHandle_counts hA fun x hx hopen => ?_
    exact (Inode.read_keeps hopen offset count).accounts hA _ fun _ => rfl
  | writeAt h offset data =>
    refine onHandle_counts hA fun x hx hopen => ?_
    exact (Inode.write_keeps hopen offset data).accounts hA _ fun _ => rfl
  | grow h target =>
    refine onHandle_counts hA fun x hx hopen => ?_
    exact (Inode.grow_keeps hopen target).accounts hA _ fun _ => rfl
  | clear h =>
    refine onHandle_counts hA fun x hx hopen => ?_
    exact (Inode.clear_keeps hopen).accounts hA _ fun _ => rfl
  | read h count =>
    refine onFile_counts hA fun f hx hopen => ?_
    simp only [File.read, bind_assoc, pure_bind]
    exact (Inode.read_keeps hopen f.position count).accounts hA _ fun _ =>
      holding_set_same hx rfl rfl
  | write h data =>
    refine onFile_counts hA fun f hx hopen => ?_
    simp only [File.write, bind_assoc, pure_bind]
    exact (Inode.write_keeps hopen f.position data).accounts hA _ fun _ =>
      holding_set_same hx rfl rfl
  | seek h position =>
    refine onFile_counts hA fun f hx hopen => ?_
    exact Leads.pure ⟨.of_sober sober_ok, hA.trans (holding_set_same (y := .file (f.seek position)) hx rfl rfl).symm⟩
  | denyWrite h =>
    refine onFile_counts hA fun f hx hopen => ?_
    obtain ⟨B, hB⟩ := Tally.exists_replaced hA hx (y := .file { f with denying := true }) rfl
    exact Yields.bind (File.denyWrite_counts (hA.trans (holding_of_getElem? hx))
      (hB.trans (holding_set hx _))) (Leads.pure ⟨.of_sober sober_ok, hB⟩)
  | allowWrite h =>
    refine onFile_counts hA fun f hx hopen => ?_
    obtain ⟨B, hB⟩ := Tally.exists_replaced hA hx (y := .file { f with denying := false }) rfl
    exact Yields.bind (File.allowWrite_counts (hA.trans (holding_of_getElem? hx))
      (hB.trans (holding_set hx _))) (Leads.pure ⟨.of_sober sober_ok, hB⟩)

end Call

end Requests

end InodeVolume
