import InodeVolume.Proofs.World
import InodeVolume.Volume.Namespace

/-!
# Counting openers

Whatever is stored on the disk and however often the device fails, an operation on a volume opens and
closes in pairs: all that is left open is the opener that it hands out. To say so, a volume is seen as a
`Tally`, which says of every inode how many openers it has and how many of them deny writing. Nothing of
the disk is in a tally, so no step on the disk can change it (`onDisk_keeps`).

`Settles A x failed ok` says that `x`, begun at the tally `A`, ends at `ok v` when it answers `v` and at
`failed` when it reports an error, and that it breaks no calling rule. There is one such statement for
each operation.

Some inodes may be `marked`: those that are known to be marked as removed, and that have an opener all the
time. They stay so, which shows that the registry keeps their entries and never makes them anew.
-/

namespace InodeVolume

-- `^` on numbers is that of the core library, whatever else is known of them.
attribute [local instance (high)] instPowNat

/-! ## Tallies -/

/-- The openers of one inode: those that do not deny writing and those that do. -/
@[ext]
structure Hold where
  plain : Nat
  denying : Nat

namespace Hold

/-- How many openers there are. -/
def openers (h : Hold) : Nat := h.plain + h.denying

/-- One opener more. -/
def opened (h : Hold) : Hold := { h with plain := h.plain + 1 }

@[simp] theorem opened_openers (h : Hold) : h.opened.openers = h.openers + 1 := Nat.add_right_comm ..

/-- What the registry has for an inode with these openers. -/
def Counts (h : Hold) (marked : Prop) : Option OpenInode → Prop
  | none => h.openers = 0
  | some node => 0 < h.openers ∧ node.openers = h.openers ∧ node.denials = h.denying ∧
      (marked → node.removed = true)

end Hold

/-- The openers of every inode; each of the marked ones has an opener. -/
@[ext]
structure Tally (marked : UInt32 → Prop) where
  hold : UInt32 → Hold
  held : ∀ id, marked id → 0 < (hold id).openers

section Tallies

variable {marked : UInt32 → Prop} {A B : Tally marked} {id : UInt32} {α β : Type}

namespace Tally

/-- The inode has an opener. -/
def Open (A : Tally marked) (id : UInt32) : Prop := 0 < (A.hold id).openers

/-- One opener more for inode `id`. -/
def opened (A : Tally marked) (id : UInt32) : Tally marked where
  hold := Function.update A.hold id (A.hold id).opened
  held i hi := by
    rw [Function.update_apply]
    split
    · rw [Hold.opened_openers]
      exact Nat.succ_pos _
    · exact A.held i hi

@[simp] theorem opened_hold_self (A : Tally marked) (id : UInt32) :
    (A.opened id).hold id = (A.hold id).opened := Function.update_self ..

theorem opened_hold_of_ne (A : Tally marked) {i : UInt32} (h : i ≠ id) :
    (A.opened id).hold i = A.hold i := Function.update_of_ne h ..

theorem opened_open (A : Tally marked) (id : UInt32) : (A.opened id).Open id := by
  rw [Open, opened_hold_self, Hold.opened_openers]
  exact Nat.succ_pos _

theorem Open.opened (h : A.Open id) (i : UInt32) : (A.opened i).Open id := by
  by_cases hi : id = i
  · exact hi ▸ A.opened_open id
  · rw [Open, A.opened_hold_of_ne hi]
    exact h

/-- In which order two are opened makes no difference. -/
theorem opened_comm (A : Tally marked) (i j : UInt32) : (A.opened i).opened j = (A.opened j).opened i := by
  ext1
  by_cases h : i = j
  · rw [h]
  · simp only [opened, Function.update_of_ne h, Function.update_of_ne (Ne.symm h)]
    exact Function.update_comm h _ _ _

end Tally

/-- The registry of the volume counts the openers of every inode. -/
def Counts (A : Tally marked) (v : Volume) : Prop := ∀ id, (A.hold id).Counts (marked id) v.registry[id]?

/-! ## Settling -/

/-- A failure that breaks no rule is passed on. -/
theorem sober_error {e : Stop} (h : Sober (.error e : Except Stop α)) :
    Sober (.error e : Except Stop β) :=
  fun rule hr => h rule (by cases hr; rfl)

/-- The tally that an outcome leaves. -/
def Tally.after (failed : Tally marked) (ok : α → Tally marked) : Except Stop α → Tally marked
  | .ok v => ok v
  | .error _ => failed

/-- Begun at the tally `A`, the action `x` ends at `ok v` when it answers `v` and at `failed` when it
reports an error. It breaks no calling rule. -/
def Settles (A : Tally marked) (x : VolumeM α) (failed : Tally marked) (ok : α → Tally marked) : Prop :=
  Leads Counts A x fun r B => Sober r ∧ B = Tally.after failed ok r

/-- The action leaves the tally as it is. -/
abbrev Keeps (A : Tally marked) (x : VolumeM α) : Prop := Settles A x A fun _ => A

/-- The action opens one inode, which its answer names, and nothing if it fails. -/
abbrev Hands (A : Tally marked) (x : VolumeM α) (number : α → UInt32) : Prop :=
  Settles A x A fun v => A.opened (number v)

namespace Settles

variable {x : VolumeM α} {f : α → VolumeM β} {failed failed' : Tally marked} {ok : α → Tally marked}
  {ok' : β → Tally marked}

theorem pure {v : α} (h : ok v = A) : Settles A (pure v) failed ok :=
  Leads.pure ⟨sober_ok, h.symm⟩

theorem fail {e : Error} : Settles A (VolumeM.fail e) A ok :=
  Leads.fail ⟨sober_failed, rfl⟩

theorem bind (hx : Settles A x failed ok) (hf : ∀ v, Settles (ok v) (f v) failed ok') :
    Settles A (x >>= f) failed ok' := by
  refine Leads.bind hx ?_ ?_
  · rintro v B ⟨-, rfl⟩
    exact hf v
  · rintro e B ⟨hs, rfl⟩
    exact ⟨sober_error hs, rfl⟩

theorem congr {ok₁ : α → Tally marked} (hx : Settles A x failed ok) (h : ∀ v, ok v = ok₁ v) :
    Settles A x failed ok₁ :=
  funext h ▸ hx

/-- Going on from a value of which something is known. -/
theorem answersBind {P : α → Prop} (hx : Answers Counts A x P)
    (hf : ∀ v, P v → Settles A (f v) failed ok') : Settles A (x >>= f) failed ok' :=
  Answers.bind hx hf

theorem yieldsBind {v : α} (hx : Yields Counts A x v B) (hf : Settles B (f v) failed ok') :
    Settles A (x >>= f) failed ok' :=
  Yields.bind hx hf

theorem of_yields {v : α} (hx : Yields Counts A x v B) (h : ok v = B) :
    Settles A x failed ok :=
  Leads.mono hx fun r c hr => ⟨by rw [hr.1]; exact sober_ok, by rw [hr.1, hr.2]; exact h.symm⟩

/-- Going on from the outcome of an action, whatever it is. -/
theorem attemptBind {g : Except Error α → VolumeM β} (hx : Settles A x failed ok)
    (hok : ∀ v, Settles (ok v) (g (.ok v)) failed' ok')
    (herr : ∀ e, Settles failed (g (.error e)) failed' ok') :
    Settles A (VolumeM.attempt x >>= g) failed' ok' := by
  refine Leads.attemptVolumeBind hx (fun _ _ hr => hr.1) ?_ ?_
  · rintro v B ⟨-, rfl⟩
    exact hok v
  · rintro e B ⟨-, rfl⟩
    exact herr e

/-- What is done to clean up when an action is over is done in any case. -/
theorem andThen {cleanup : VolumeM Unit} {ok'' : α → Tally marked} (hx : Settles A x failed ok)
    (hok : ∀ v, Yields Counts (ok v) cleanup () (ok'' v))
    (herr : Yields Counts failed cleanup () failed') : Settles A (x.andThen cleanup) failed' ok'' :=
  attemptBind hx (fun v => yieldsBind (hok v) (pure rfl)) fun _ => yieldsBind herr fail

theorem orUndo {x undo : VolumeM Unit} {ok : Unit → Tally marked} (hx : Settles A x failed ok)
    (hundo : Yields Counts failed undo () failed') : Settles A (Volume.orUndo x undo) failed' ok :=
  attemptBind hx (fun _ => pure rfl) fun _ => yieldsBind hundo fail

end Settles

theorem Keeps.ignoring {x : VolumeM Unit} (hx : Keeps A x) : Yields Counts A (VolumeM.ignoring x) () A :=
  Leads.ignoring (Leads.mono hx fun r B hr => ⟨hr.1, by cases r <;> exact hr.2⟩)

theorem Keeps.resume (r : Except Error α) : Keeps A (VolumeM.resume r) := by
  cases r with
  | ok v => exact Settles.pure rfl
  | error e => exact Settles.fail

section Choices

variable {p : Prop} [Decidable p] {f : Unit → VolumeM β} {failed : Tally marked} {ok : β → Tally marked}

/-- A check that fails or does nothing. -/
theorem Keeps.check (e : Error) : Keeps A (if p then VolumeM.fail e else (Pure.pure () : VolumeM Unit)) := by
  split
  · exact Settles.fail
  · exact Settles.pure rfl

/-- Going on after a step that is taken only in some cases. -/
theorem Settles.whenBind {x : VolumeM Unit} (hx : Settles A x failed fun _ => A)
    (hf : Settles A (f ()) failed ok) : Settles A (if p then x >>= f else f ()) failed ok := by
  split
  · exact hx.bind fun _ => hf
  · exact hf

/-- Going on after a check that was passed. -/
theorem Settles.checkBind (e : Error) (hf : Settles A (f ()) A ok) :
    Settles A (if p then VolumeM.fail e >>= f else f ()) A ok :=
  .whenBind .fail hf

end Choices

/-! ## Steps that leave the registry alone -/

/-- Whatever is done on the disk, the registry stays as it is. -/
theorem onDisk_keeps (x : SpaceMap → DiskM α) : Keeps A (VolumeM.onDisk x) := by
  rintro ⟨disk, space, registry⟩ hv
  simp only [VolumeM.onDisk]
  cases x space disk with
  | ok v disk' => exact ⟨A, hv, sober_ok, rfl⟩
  | error e disk' => exact ⟨A, hv, sober_failed, rfl⟩

theorem transfer_keeps (x : DiskAction α) : Keeps A (VolumeM.transfer x) := by
  rintro ⟨disk, space, registry⟩ hv
  exact ⟨A, hv, sober_ok, rfl⟩

/-! ## The registry -/

theorem registry_counts :
    Answers Counts A VolumeM.registry fun r => ∀ id, (A.hold id).Counts (marked id) r[id]? :=
  fun v hv => ⟨A, hv, ⟨v.registry, rfl, hv⟩, rfl⟩

/-- A new entry for one inode, which counts its openers. -/
theorem insert_counts {node : OpenInode} (hothers : ∀ i, i ≠ id → B.hold i = A.hold i)
    (hnode : (B.hold id).Counts (marked id) (some node)) :
    Yields Counts A (VolumeM.changeRegistry (·.insert id node)) () B := by
  rintro ⟨disk, space, registry⟩ hv
  refine ⟨B, fun i => ?_, rfl, rfl⟩
  show (B.hold i).Counts _ (registry.insert id node)[i]?
  rw [Registry.getElem?_insert]
  split
  · rename_i hi
    exact hi ▸ hnode
  · rename_i hi
    exact hothers i hi ▸ hv i

/-- The entry of an inode that has no opener any more goes. -/
theorem erase_counts (hothers : ∀ i, i ≠ id → B.hold i = A.hold i) (hnone : (B.hold id).openers = 0) :
    Yields Counts A (VolumeM.changeRegistry (·.erase id)) () B := by
  rintro ⟨disk, space, registry⟩ hv
  refine ⟨B, fun i => ?_, rfl, rfl⟩
  show (B.hold i).Counts _ (registry.erase id)[i]?
  rw [Registry.getElem?_erase]
  split
  · rename_i hi
    exact hi ▸ hnone
  · rename_i hi
    exact hothers i hi ▸ hv i

namespace Inode

variable {i : Inode}

/-- An inode that has an opener has an entry. -/
theorem entry_counts (h : A.Open i.number) :
    Answers Counts A i.entry fun node => (A.hold i.number).Counts (marked i.number) (some node) := by
  refine Answers.bind registry_counts fun r hr => ?_
  have hi := hr i.number
  cases hnode : r[i.number]? with
  | none =>
    rw [hnode] at hi
    exact absurd hi (Nat.ne_of_gt h)
  | some node => exact Answers.pure (hnode ▸ hi)

theorem entry_keeps (h : A.Open i.number) : Keeps A i.entry :=
  Leads.mono (entry_counts h) fun r B hr => by
    obtain ⟨⟨node, rfl, -⟩, rfl⟩ := hr
    exact ⟨sober_ok, rfl⟩

/-- Looking something up in an entry does not fail. -/
theorem lookup_answers (h : A.Open i.number) (f : OpenInode → α) :
    Answers Counts A (i.entry >>= fun node => (pure (f node) : VolumeM α)) fun _ => True :=
  (entry_counts h).bind fun _ _ => Answers.pure trivial

/-- A new entry with as many openers and denials. -/
theorem setEntry_counts {node : OpenInode}
    (h : (A.hold i.number).Counts (marked i.number) (some node)) :
    Yields Counts A (i.setEntry node) () A :=
  insert_counts (fun _ _ => rfl) h

/-! ## Opening and closing -/

/-- Opening an inode adds an opener, unless it is not open yet and its record cannot be read. -/
theorem acquire_hands (number : UInt32) : Hands A (acquire number) (·.number) := by
  refine Settles.answersBind registry_counts fun r hr => ?_
  have hcounts := hr number
  cases hnode : r[number]? with
  | some node =>
    rw [hnode] at hcounts
    obtain ⟨-, hopeners, hdenials, hremoved⟩ := hcounts
    refine Settles.yieldsBind (insert_counts (B := A.opened number)
      (fun i hi => A.opened_hold_of_ne hi) ?_) (Settles.pure rfl)
    rw [A.opened_hold_self]
    exact ⟨A.opened_hold_self number ▸ A.opened_open number,
      by rw [Hold.opened_openers, ← hopeners], hdenials, hremoved⟩
  | none =>
    rw [hnode] at hcounts
    refine Settles.bind (onDisk_keeps _) fun record => ?_
    refine Settles.yieldsBind (insert_counts (B := A.opened number)
      (fun i hi => A.opened_hold_of_ne hi) ?_) (Settles.pure rfl)
    rw [A.opened_hold_self]
    have hzero : (A.hold number).openers = 0 := hcounts
    -- A marked inode has an opener, so this one is not marked.
    refine ⟨A.opened_hold_self number ▸ A.opened_open number, ?_, ?_, fun hm => ?_⟩
    · rw [Hold.opened_openers, hzero]
    · simp only [Hold.openers] at hzero
      simp only [Hold.opened]
      omega
    · exact absurd hzero (Nat.ne_of_gt (A.held number hm))

theorem reopen_hands (h : A.Open i.number) : Hands A i.reopen (·.number) := by
  refine Settles.answersBind (entry_counts h) fun node hnode => ?_
  obtain ⟨-, hopeners, hdenials, hremoved⟩ := hnode
  refine Settles.yieldsBind (insert_counts (B := A.opened i.number)
    (fun j hj => A.opened_hold_of_ne hj) ?_) (Settles.pure rfl)
  rw [A.opened_hold_self]
  exact ⟨A.opened_hold_self i.number ▸ A.opened_open i.number,
    by rw [Hold.opened_openers, ← hopeners], hdenials, hremoved⟩

/-- Closing takes one opener off. The entry goes with the last one, and not before. -/
theorem close_counts (A : Tally marked) (i : Inode) :
    Yields Counts (A.opened i.number) i.close () A := by
  have hothers (j : UInt32) (hj : j ≠ i.number) : A.hold j = (A.opened i.number).hold j :=
    (A.opened_hold_of_ne hj).symm
  refine Answers.bind (entry_counts (A.opened_open i.number)) fun node hnode => ?_
  rw [A.opened_hold_self] at hnode
  obtain ⟨-, hopeners, hdenials, hremoved⟩ := hnode
  rw [Hold.opened_openers] at hopeners
  -- One opener fewer, or the last one, with whom the entry goes.
  split
  · rename_i hmore
    exact insert_counts hothers ⟨by omega, by show node.openers - 1 = _; omega, hdenials, hremoved⟩
  · refine Yields.bind (erase_counts hothers (by omega)) ?_
    split
    · exact (onDisk_keeps _).ignoring
    · exact Yields.pure

theorem markRemoved_keeps (h : A.Open i.number) : Keeps A i.markRemoved := by
  refine Settles.answersBind (entry_counts h) fun node hnode => ?_
  exact .of_yields (setEntry_counts ⟨hnode.1, hnode.2.1, hnode.2.2.1, fun _ => rfl⟩) rfl

/-! ## Contents -/

theorem read_keeps (h : A.Open i.number) (offset count : Nat) : Keeps A (i.read offset count) :=
  (entry_keeps h).bind fun _ => transfer_keeps _

/-- A new record in the entry counts the same openers. -/
theorem setRecord_counts {node : OpenInode} (r : Record)
    (h : (A.hold i.number).Counts (marked i.number) (some node)) :
    Yields Counts A (i.setEntry { node with record := r }) () A :=
  setEntry_counts h

theorem grow_keeps (h : A.Open i.number) (target : Nat) : Keeps A (i.grow target) := by
  refine Settles.answersBind (entry_counts h) fun node hnode => ?_
  exact (onDisk_keeps _).bind fun record => .of_yields (setRecord_counts record hnode) rfl

theorem checkWritable_keeps (h : A.Open i.number) : Keeps A i.checkWritable :=
  (entry_keeps h).bind fun _ => Keeps.check _

theorem write_keeps (h : A.Open i.number) (offset : Nat) (data : ByteArray) :
    Keeps A (i.write offset data) := by
  refine (checkWritable_keeps h).bind fun _ => ?_
  split
  · exact .pure rfl
  · refine .answersBind (lookup_answers h _) fun length _ => ?_
    exact .whenBind (grow_keeps h _) ((entry_keeps h).bind fun _ => transfer_keeps _)

theorem clear_keeps (h : A.Open i.number) : Keeps A i.clear := by
  refine (checkWritable_keeps h).bind fun _ => ?_
  refine Settles.answersBind (entry_counts h) fun node hnode => ?_
  refine (onDisk_keeps _).bind fun cleared => ?_
  exact .yieldsBind (setRecord_counts cleared.2 hnode) (onDisk_keeps _)

end Inode

namespace Directory

variable {d : Directory}

/-! ## Directories -/

/-- A table whose size fits in 64 bits can be asked for. -/
theorem create_keeps (number : UInt32) {slots : Nat} (h : slots * slotSize < 2 ^ (64 : Nat)) :
    Keeps A (create number slots) := by
  rw [create, if_neg (Nat.not_le.2 h)]
  exact onDisk_keeps _

theorem ofInode_settles (A : Tally marked) (i : Inode) :
    Settles (A.opened i.number) (ofInode i) A fun d => A.opened d.inode.number := by
  have hopen := A.opened_open i.number
  refine .answersBind (Inode.lookup_answers hopen _) fun isDirectory _ => ?_
  split
  · exact .pure rfl
  · exact .yieldsBind (Inode.close_counts A i) .fail

theorem openRoot_hands : Hands A openRoot (·.inode.number) :=
  (Inode.acquire_hands rootInode).bind (ofInode_settles A)

theorem reopen_hands (h : A.Open d.inode.number) : Hands A d.reopen (·.inode.number) :=
  (Inode.reopen_hands h).bind fun _ => .pure rfl

theorem search_keeps (h : A.Open d.inode.number) (f : Record → DiskAction α) : Keeps A (d.search f) :=
  (Inode.entry_keeps h).bind fun _ => transfer_keeps _

theorem lookup_keeps (h : A.Open d.inode.number) (name : String) : Keeps A (d.lookup name) :=
  (search_keeps h _).bind fun _ => .pure rfl

theorem openEntry_hands (h : A.Open d.inode.number) (name : String) :
    Hands A (d.openEntry name) (·.number) := by
  refine Settles.bind (search_keeps h _) fun found => ?_
  cases found with
  | none => exact .fail
  | some place => exact Inode.acquire_hands _

theorem writeSlot_keeps (h : A.Open d.inode.number) (offset : Nat) (slot : Slot) :
    Keeps A (d.writeSlot offset slot) :=
  (Inode.write_keeps h _ _).bind fun _ => Keeps.check _

theorem add_keeps (h : A.Open d.inode.number) (name : String) (number : UInt32) :
    Keeps A (d.add name number) := by
  unfold add
  split
  · exact .fail
  · split
    · refine (Inode.entry_keeps h).bind fun node => .checkBind _ ?_
      refine (search_keeps h _).bind fun found => .checkBind _ ?_
      exact (search_keeps h _).bind fun offset => writeSlot_keeps h _ _
    · exact .fail

theorem isEmpty_keeps (h : A.Open d.inode.number) : Keeps A d.isEmpty :=
  (search_keeps h _).bind fun _ => .pure rfl

theorem unlink_keeps {child : Inode} (h : A.Open d.inode.number) (hchild : A.Open child.number)
    (offset : Nat) (slot : Slot) : Keeps A (d.unlink offset slot child) := by
  refine .answersBind (Inode.lookup_answers hchild _) fun isDirectory _ => ?_
  have hfreed : Keeps A (d.writeSlot offset slot.freed >>= fun _ => child.markRemoved) :=
    (writeSlot_keeps h _ _).bind fun _ => Inode.markRemoved_keeps hchild
  dsimp only
  split
  · exact (isEmpty_keeps hchild).bind fun empty => .checkBind _ hfreed
  · exact hfreed

theorem remove_keeps (h : A.Open d.inode.number) (name : String) : Keeps A (d.remove name) := by
  unfold remove
  refine .checkBind _ ?_
  refine (search_keeps h _).bind fun found => ?_
  cases found with
  | none => exact .fail
  | some place =>
    refine (Inode.acquire_hands _).bind fun child => ?_
    exact (unlink_keeps (h.opened _) (A.opened_open _) _ _).andThen
      (fun _ => Inode.close_counts A child) (Inode.close_counts A child)

end Directory

namespace Volume

/-! ## Walking -/

/-- Each directory on the way is closed before the next step, also when that step fails. -/
theorem descend_settles (A : Tally marked) (d : Directory) (names : List String) :
    Settles (A.opened d.inode.number) (descend d names) A fun d' => A.opened d'.inode.number := by
  induction names generalizing d with
  | nil => exact .pure rfl
  | cons name rest ih =>
    have hchild : Settles (A.opened d.inode.number) ((d.openEntry name).andThen d.close) A
        fun child => A.opened child.number := by
      refine (Directory.openEntry_hands (A.opened_open _) name).andThen (fun child => ?_)
        (Inode.close_counts A d.inode)
      rw [A.opened_comm]
      exact Inode.close_counts (A.opened child.number) d.inode
    exact hchild.bind fun child => (Directory.ofInode_settles A child).bind fun d' => ih d'

theorem walk_hands (path : String) : Hands A (walk path) (·.inode.number) :=
  Directory.openRoot_hands.bind fun d => descend_settles A d _

/-- What is done in a directory while it is open. -/
theorem within_settles {x : Directory → VolumeM α} {ok : α → Tally marked} (path : String)
    (hx : ∀ d, Settles (A.opened d.inode.number) (x d) (A.opened d.inode.number)
      fun v => (ok v).opened d.inode.number) : Settles A (within path x) A ok :=
  (walk_hands path).bind fun d => (hx d).andThen (fun v => Inode.close_counts (ok v) d.inode)
    (Inode.close_counts A d.inode)

/-! ## Creating -/

theorem giveUp_counts (A : Tally marked) (number : UInt32) : Yields Counts A (giveUp number) () A := by
  refine Keeps.ignoring ((Inode.acquire_hands number).bind fun i => ?_)
  -- Marking fails in no case, so that the inode is closed again in every case.
  refine Settles.yieldsBind (v := ()) (B := A.opened i.number) ?_ (.of_yields (Inode.close_counts A i) rfl)
  refine Answers.bind (Inode.entry_counts (A.opened_open i.number)) fun node hnode => ?_
  exact Inode.setEntry_counts ⟨hnode.1, hnode.2.1, hnode.2.2.1, fun _ => rfl⟩

theorem linkDots_keeps (path : String) (number parent : UInt32) :
    Keeps A (linkDots path number parent) :=
  within_settles path fun _ => (Directory.add_keeps (A.opened_open _) _ _).bind fun _ =>
    Directory.add_keeps (A.opened_open _) _ _

/-- Creating in an open directory leaves every count as it was. -/
theorem createIn_keeps {d : Directory} (h : A.Open d.inode.number) (parent name : String) (size : Nat)
    (isDirectory : Bool) : Keeps A (createIn d parent name size isDirectory) := by
  refine (Directory.lookup_keeps h name).bind fun found => .checkBind _ ?_
  refine (onDisk_keeps _).bind fun number => ?_
  -- The new inode is stored without being opened.
  have hstored : Keeps A (if isDirectory then Directory.create number 0
      else Inode.create number size false) := by
    split
    · exact Directory.create_keeps number (by decide)
    · exact onDisk_keeps _
  refine (hstored.orUndo (onDisk_keeps _).ignoring).bind fun _ => ?_
  refine ((Directory.add_keeps h name number).orUndo (giveUp_counts A number)).bind fun _ => ?_
  split
  · exact (linkDots_keeps _ _ _).orUndo (Directory.remove_keeps h name).ignoring
  · exact .pure rfl

theorem create_keeps (path cwd : String) (size : Nat) (isDirectory : Bool) :
    Keeps A (create path cwd size isDirectory) := by
  refine (Keeps.resume _).bind fun parts => ?_
  refine .checkBind _ (.checkBind _ ?_)
  exact within_settles _ fun d => createIn_keeps (A.opened_open _) _ _ _ _

/-! ## Opening -/

theorem openInode_hands (path cwd : String) : Hands A (openInode path cwd) (·.number) := by
  refine (Keeps.resume _).bind fun place => ?_
  dsimp only
  split
  · exact Inode.acquire_hands rootInode
  · refine within_settles _ fun d => ?_
    exact (Directory.openEntry_hands (A.opened_open _) place.1).congr fun i => A.opened_comm _ _

theorem openDirectory_hands (path cwd : String) : Hands A (openDirectory path cwd) (·.inode.number) :=
  (Keeps.resume _).bind fun _ => walk_hands _

theorem openOrCreate_hands (path cwd : String) (create? : Bool) :
    Hands A (openOrCreate path cwd create?) (·.number) := by
  refine Settles.attemptBind (openInode_hands path cwd) (fun _ => .pure rfl) fun e => ?_
  dsimp only
  split
  · exact (create_keeps _ _ _ _).bind fun _ => openInode_hands path cwd
  · exact .fail

theorem remove_keeps (path cwd : String) : Keeps A (remove path cwd) := by
  refine (Keeps.resume _).bind fun place => .checkBind _ ?_
  exact within_settles _ fun d => Directory.remove_keeps (A.opened_open _) _

/-! ## Mounting -/

theorem formatRoot_keeps : Keeps A formatRoot := by
  refine (Directory.create_keeps rootInode (by decide)).bind fun _ => ?_
  refine Directory.openRoot_hands.bind fun root => ?_
  have hlink : Keeps (A.opened root.inode.number)
      (root.add "." rootInode >>= fun _ => root.add ".." rootInode) :=
    (Directory.add_keeps (A.opened_open _) _ _).bind fun _ => Directory.add_keeps (A.opened_open _) _ _
  exact hlink.andThen (fun _ => Inode.close_counts A root.inode) (Inode.close_counts A root.inode)

/-- Mounting leaves nothing open, whether it succeeds or not. -/
theorem prepare_keeps (format : Bool) : Keeps A (prepare format) := by
  have hcheck : Keeps A checkRoot := Directory.openRoot_hands.bind fun root =>
    Settles.of_yields (Inode.close_counts A root.inode) rfl
  unfold prepare
  exact .whenBind formatRoot_keeps hcheck

end Volume

end Tallies

end InodeVolume
