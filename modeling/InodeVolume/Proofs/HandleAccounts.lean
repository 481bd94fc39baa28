import InodeVolume.Proofs.HandleCounts
import InodeVolume.Proofs.SuccessfulCalls

/-!
# Accounts of handles

A client may meet any sequence of events on a disk of any contents, whose accesses fail in any pattern: it
makes requests, it mounts the volume, and the disk may change under its feet (`Client.Arises`). Between
any two events the registry counts its handles (`Client.Counted`), and every event is balanced
(`Client.Balanced`): it breaks no rule of opening and closing, what takes paths adds the one handle that
it answers, and no inode that keeps a handle loses its entry.
-/

namespace InodeVolume

/-! ## Requests -/

namespace Request

variable {marked : UInt32 → Prop} {A : Tally marked} {handles : List Handle}

theorem onDirectory_counts {h : Nat} {f : Directory → VolumeM (Response × List Handle)}
    (hA : A.hold = holding handles)
    (hf : ∀ d, handles[h]? = some (.directory d) → A.Open d.inode.number →
      Leads Counts A (f d) (Accounts handles)) :
    Leads Counts A (onDirectory handles h f) (Accounts handles) := by
  unfold onDirectory
  split
  · rename_i d hx
    exact hf d hx (Tally.open_of_handle hA hx)
  · exact absent_accounts hA _

/-- Every request leaves the openers of the handles that are open after it. -/
theorem act_counts (hA : A.hold = holding handles) (r : Request)
    (hkept : ∀ h, r.closes = some h →
      ∀ id, marked id → ∃ y ∈ handles.eraseIdx h, y.target.number = id) :
    Leads Counts A (r.act handles) (Accounts handles) := by
  cases r with
  | call q =>
    have hcall := Call.act_counts hA q fun h hq => hkept h (by rw [hq]; rfl)
    refine Leads.bind hcall ?_ fun e B hB => ⟨hB.1.of_error, hB.2⟩
    rintro ⟨a, handles'⟩ B ⟨-, hB⟩
    exact Leads.pure ⟨.of_sober sober_ok, hB⟩
  | lookup h name =>
    refine onDirectory_counts hA fun d hx hopen => ?_
    exact (Directory.lookup_keeps hopen name).accounts hA _ fun _ => rfl
  | openEntry h name =>
    refine onDirectory_counts hA fun d hx hopen => ?_
    exact ((Directory.openEntry_hands hopen name).handsOut Handle.inode (fun _ => rfl)
      fun _ => rfl).accounts hA _
  | readNext h =>
    refine onDirectory_counts hA fun d hx hopen => ?_
    have hmoved (position : Nat) :
        holding (handles.set h (.directory { d with position := position })) = holding handles :=
      holding_set_same hx rfl rfl
    simp only [Directory.readNext, bind_assoc]
    refine Leads.bind (Directory.search_keeps hopen _) ?_ fun e B hB => ⟨.of_sober (sober_error hB.1), ?_⟩
    · rintro ⟨offset, slot⟩ B ⟨-, rfl⟩
      cases slot <;> exact Leads.pure ⟨.of_sober sober_ok, hA.trans (hmoved _).symm⟩
    · exact hB.2 ▸ hA
  | asDirectory h =>
    show Leads Counts A (onInode handles h _) _
    unfold onInode
    split
    · rename_i i hx
      -- The other handles make a tally of their own, to which the opener of this one is added.
      have hE := hA.trans (holding_of_getElem? hx)
      rw [Tally.eq_opened (E := Tally.ofHandles (handles.eraseIdx h) (hkept h rfl)) hE rfl]
      refine Leads.attemptVolumeBind (Directory.ofInode_settles _ i) (fun _ _ hr => hr.1) ?_ ?_
      · rintro d B ⟨-, rfl⟩
        refine Leads.pure ⟨.of_sober sober_ok, ?_⟩
        exact (Tally.opened_hold_eq _ (x := .directory d) rfl).trans (holding_set hx _).symm
      · rintro e B ⟨-, rfl⟩
        exact Leads.pure ⟨.of_sober sober_ok, rfl⟩
    · exact absent_accounts hA _

/-- Whether a request takes a path. -/
def TakesPath : Request → Prop
  | .call (.create ..) | .call (.remove ..) | .call (.changeDirectory ..) | .call (.openInode ..)
  | .call (.openDirectory ..) | .call (.openFile ..) => True
  | _ => False

/-- Where an answer has come from. -/
theorem exists_of_ok {α β : Type} {x : VolumeM α} {g : α → β} {v v' : Volume} {w : β}
    (h : (x >>= fun a => pure (g a)) v = .ok w v') : ∃ a, x v = .ok a v' ∧ w = g a := by
  simp only [Bind.bind, EStateM.bind] at h
  split at h
  · rename_i hx
    cases h
    exact ⟨_, hx, rfl⟩
  · cases h

/-- A request that takes a path hands out one handle at most. -/
theorem act_of_takesPath {r : Request} (hr : r.TakesPath) {v v' : Volume}
    {w : Response × List Handle} (h : r.act handles v = .ok w v') :
    ∃ l : List Handle, l.length ≤ 1 ∧ w.2 = handles ++ l := by
  -- Only calls take paths. Three of them open something, and these add its handle.
  match r, hr with
  | .call q, hr =>
    obtain ⟨⟨a, hs⟩, hq, rfl⟩ := exists_of_ok h
    show ∃ l : List Handle, l.length ≤ 1 ∧ hs = handles ++ l
    cases q with
    | create path cwd size isDirectory | remove path cwd | changeDirectory path cwd =>
      obtain ⟨u, -, hw⟩ := exists_of_ok hq
      cases hw
      exact ⟨[], Nat.zero_le 1, (List.append_nil handles).symm⟩
    | openInode path cwd | openDirectory path cwd | openFile path cwd mode =>
      obtain ⟨y, -, hw⟩ := exists_of_ok hq
      cases hw
      exact ⟨[_], Nat.le_refl 1, rfl⟩
    | _ => exact hr.elim

end Request

/-! ## Events -/

/-- What can happen to a client. -/
inductive Event where
  | request (r : Request)
  /-- The volume is mounted, and formatted first if asked for. What was open before belongs to the volume
  that was mounted before, and is of no account any more. -/
  | mount (format : Bool)
  /-- The disk becomes another one: other contents, other accesses that will fail. -/
  | disturbance (disk : Disk)

namespace Client

/-- Mounts the volume that is on the disk. -/
def mount (c : Client) (format : Bool) : Except Stop Response × Client :=
  match Volume.mountSpace format c.volume.disk with
  | .error e disk => (.error (.failed e), ⟨⟨disk, c.volume.space, {}⟩, []⟩)
  | .ok space disk =>
    match Volume.prepare format ⟨disk, space, {}⟩ with
    | .ok () v => (.ok (.answer .done), ⟨v, []⟩)
    | .error e v => (.error e, ⟨v, []⟩)

/-- What an event answers and what it leaves. -/
def meet (c : Client) : Event → Except Stop Response × Client
  | .request r => c.ask r
  | .mount format => c.mount format
  | .disturbance disk => (.ok (.answer .done), { c with volume := { c.volume with disk := disk } })

/-- A client that has met any events, from a disk on which nothing was mounted. -/
inductive Arises : Client → Prop
  | start (disk : Disk) (space : SpaceMap) : Arises ⟨⟨disk, space, {}⟩, []⟩
  | meet {c : Client} (h : Arises c) (e : Event) : Arises (c.meet e).2

/-- How many openers an inode has. -/
def openers (c : Client) (x : UInt32) : Nat := (c.volume.registry[x]?).elim 0 (·.openers)

/-- The registry counts the handles of the client. -/
structure Counted (c : Client) : Prop where
  /-- What has an entry has a handle, and what has a handle has an entry. -/
  registered : ∀ x, c.volume.registry[x]? ≠ none ↔ ∃ h ∈ c.handles, h.target.number = x
  openers : ∀ x, c.openers x = c.handles.countP (·.target.number == x)
  denials : ∀ x node, c.volume.registry[x]? = some node →
    node.denials = c.handles.countP fun h => h.target.number == x && h.denies
  /-- Handles of the same inode are openings of the same entry. -/
  shared : ∀ h ∈ c.handles, ∀ h' ∈ c.handles, h.target.number = h'.target.number →
    ∃ node, h.target.entry c.volume = .ok node c.volume ∧ h'.target.entry c.volume = .ok node c.volume

/-- What an event does to the handles and their entries. -/
structure Balanced (c : Client) (e : Event) : Prop where
  /-- No rule of opening and closing is broken. -/
  ruly : ∀ rule, (c.meet e).1 = .error (.misused rule) → rule = .relativePath
  /-- A request that takes a path adds the handle that it hands out, if any. -/
  handed : ∀ r, e = .request r → r.TakesPath → ∃ l : List Handle, l.length ≤ 1 ∧
    (c.meet e).2.handles = c.handles ++ l ∧ (∀ err, (c.meet e).1 = .error err → l = []) ∧
    ∀ x, (c.meet e).2.openers x = c.openers x + l.countP (·.target.number == x)
  /-- An entry lives on while a handle of its inode is kept: a mark of removal in it stays. -/
  lasting : ∀ r, e = .request r → ∀ x node, c.volume.registry[x]? = some node → node.removed = true →
    (∃ i h, c.handles[i]? = some h ∧ h.target.number = x ∧ r.closes ≠ some i) →
    ∃ node', (c.meet e).2.volume.registry[x]? = some node' ∧ node'.removed = true
  /-- Mounting leaves nothing open, whether it succeeds or not. -/
  mounted : ∀ format, e = .mount format → ∀ x : UInt32, (c.meet e).2.volume.registry[x]? = none

section Accounts

variable {marked : UInt32 → Prop} {A : Tally marked} {c : Client}

/-- An inode has no entry and no handle, or an entry that counts its handles. -/
theorem entry_cases (hA : A.hold = holding c.handles) (hv : Counts A c.volume) (x : UInt32) :
    (c.volume.registry[x]? = none ∧ c.handles.countP (·.target.number == x) = 0) ∨
      ∃ node, c.volume.registry[x]? = some node ∧ 0 < c.handles.countP (·.target.number == x) ∧
        node.openers = c.handles.countP (·.target.number == x) ∧
        (node.denials = c.handles.countP fun h => h.target.number == x && h.denies) ∧
        (marked x → node.removed = true) := by
  have hx := hv x
  rw [hA] at hx
  rw [← holding_openers]
  -- An inode is in the registry just if some handle has it open.
  cases hnode : c.volume.registry[x]? with
  | none =>
    rw [hnode] at hx
    exact .inl ⟨rfl, hx⟩
  | some node =>
    rw [hnode] at hx
    exact .inr ⟨node, rfl, hx⟩

/-- The entry of a handle is found by it. -/
theorem entry_of_registry {i : Inode} {v : Volume} {node : OpenInode}
    (h : v.registry[i.number]? = some node) : i.entry v = .ok node v := by
  simp only [Inode.entry, Bind.bind, EStateM.bind, VolumeM.registry, h]
  rfl

/-- A registry that counts the openers of the handles counts the handles. -/
theorem Counted.of_counts (hA : A.hold = holding c.handles) (hv : Counts A c.volume) : c.Counted := by
  -- An inode has an entry exactly if the tally has an opener for it, and the tally counts handles.
  have hregistered (x : UInt32) :
      c.volume.registry[x]? ≠ none ↔ ∃ h ∈ c.handles, h.target.number = x := by
    rcases entry_cases hA hv x with ⟨hnone, hzero⟩ | ⟨node, hsome, hpos, -⟩
    · simp only [hnone, ne_eq, not_true_eq_false, false_iff, not_exists, not_and]
      intro h hh hx
      exact List.countP_eq_zero.1 hzero h hh (by simpa using hx)
    · simp only [hsome, ne_eq, reduceCtorEq, not_false_eq_true, true_iff]
      simpa using List.countP_pos_iff.1 hpos
  refine ⟨hregistered, fun x => ?_, fun x node hnode => ?_, fun h hh h' hh' hsame => ?_⟩
  · rcases entry_cases hA hv x with ⟨hnone, hzero⟩ | ⟨node, hsome, -, hcount, -⟩
    · rw [Client.openers, hnone, hzero]
      rfl
    · rw [Client.openers, hsome, ← hcount]
      rfl
  · rcases entry_cases hA hv x with ⟨hnone, -⟩ | ⟨node', hsome, -, -, hdenials, -⟩
    · rw [hnone] at hnode
      cases hnode
    · rw [hsome] at hnode
      cases hnode
      exact hdenials
  · obtain ⟨node, hnode⟩ := Option.ne_none_iff_exists'.1 ((hregistered _).2 ⟨h, hh, rfl⟩)
    exact ⟨node, entry_of_registry hnode, entry_of_registry (hsame ▸ hnode)⟩

/-! ## Every event -/

/-- The registry counts the openers of the handles; of the inodes in `marked`, each has a handle and is
marked as removed. -/
def Tallied (c : Client) (marked : UInt32 → Prop) : Prop :=
  ∃ A : Tally marked, A.hold = holding c.handles ∧ Counts A c.volume

/-- A request leaves the registry counting, and breaks no rule of opening and closing. -/
theorem Tallied.ask (h : c.Tallied marked) (r : Request)
    (hkept : ∀ i, r.closes = some i →
      ∀ id, marked id → ∃ y ∈ c.handles.eraseIdx i, y.target.number = id) :
    (c.ask r).2.Tallied marked ∧ Ruly (c.ask r).1 := by
  obtain ⟨A, hA, hv⟩ := h
  rcases (Request.act_counts hA r hkept).run hv with
    ⟨⟨a, handles⟩, v, B, hact, hB, hruly, hhold⟩ | ⟨e, v, B, hact, hB, hruly, hhold⟩
  · rw [Client.ask, hact]
    exact ⟨⟨B, hhold, hB⟩, fun rule hr => by cases hr⟩
  · rw [Client.ask, hact]
    exact ⟨⟨B, hhold, hB⟩, hruly.of_error⟩

/-- On a volume that has just been mounted nothing is open. -/
theorem tallied_blank (disk : Disk) (space : SpaceMap) :
    Tallied ⟨⟨disk, space, {}⟩, []⟩ fun _ => False :=
  ⟨⟨holding [], fun _ => False.elim⟩, rfl, fun id => by
    show (holding [] id).Counts _ (∅ : Registry)[id]?
    simp [Hold.Counts, holding, Hold.openers]⟩

/-- Mounting leaves the registry counting that nothing is open, whether it succeeds or not. -/
theorem tallied_mount (c : Client) (format : Bool) :
    (c.mount format).2.Tallied (fun _ => False) ∧ (c.mount format).2.handles = [] ∧
      Ruly (c.mount format).1 := by
  unfold mount
  -- Mounting starts with an empty registry, whether or not it gets as far as the root.
  split
  · exact ⟨tallied_blank _ _, rfl, fun rule hr => by cases hr⟩
  · rename_i space disk _
    obtain ⟨A, hA, hv⟩ := tallied_blank disk space
    rcases (Volume.prepare_keeps format).run hv with ⟨u, v, B, hx, hB, -, hBA⟩ | ⟨e, v, B, hx, hB, hs, hBA⟩
    · rw [hx]
      exact ⟨⟨B, by rw [hBA]; exact hA, hB⟩, rfl, fun rule hr => by cases hr⟩
    · rw [hx]
      exact ⟨⟨B, by rw [hBA]; exact hA, hB⟩, rfl, .of_sober (sober_error hs)⟩

theorem Arises.tallied (h : c.Arises) : c.Tallied fun _ => False := by
  induction h with
  | start disk space => exact tallied_blank disk space
  | meet _ e ih =>
    cases e with
    | request r => exact (ih.ask r fun _ _ _ => False.elim).1
    | mount format => exact (tallied_mount _ format).1
    | disturbance disk => exact ih

/-- In a registry that counts, some inodes that are marked as removed and have a handle may be looked at. -/
theorem Tallied.marks (h : c.Tallied fun _ => False)
    (hmarked : ∀ x, marked x → (∃ y ∈ c.handles, y.target.number = x) ∧
      ∀ node, c.volume.registry[x]? = some node → node.removed = true) : c.Tallied marked := by
  obtain ⟨A, hA, hv⟩ := h
  -- The same handles are counted, with some of their inodes known to be marked.
  refine ⟨.ofHandles c.handles fun x hx => (hmarked x hx).1, rfl, fun x => ?_⟩
  have hx := hv x
  rw [hA] at hx
  show (holding c.handles x).Counts _ _
  cases hnode : c.volume.registry[x]? with
  | none =>
    rw [hnode] at hx
    exact hx
  | some node =>
    rw [hnode] at hx
    exact ⟨hx.1, hx.2.1, hx.2.2.1, fun hm => (hmarked x hm).2 node hnode⟩

end Accounts

/-- A request that takes a path adds one handle at most, and none if it fails. -/
theorem ask_of_takesPath (c : Client) {r : Request} (hr : r.TakesPath) :
    ∃ l : List Handle, l.length ≤ 1 ∧ (c.ask r).2.handles = c.handles ++ l ∧
      ∀ err, (c.ask r).1 = .error err → l = [] := by
  unfold ask
  cases hact : r.act c.handles c.volume with
  | ok w v =>
    obtain ⟨l, hl, hw⟩ := Request.act_of_takesPath hr hact
    exact ⟨l, hl, hw, fun err he => by cases he⟩
  | error e v => exact ⟨[], Nat.zero_le 1, (List.append_nil c.handles).symm, fun _ _ => rfl⟩

/-- In every state between events the registry counts the handles, and every event is balanced. -/
theorem counted_of_arises {c : Client} (h : c.Arises) : c.Counted ∧ ∀ e, c.Balanced e := by
  have hcounted {c : Client} (h : c.Arises) : c.Counted := by
    obtain ⟨A, hA, hv⟩ := h.tallied
    exact .of_counts hA hv
  refine ⟨hcounted h, fun e => ⟨fun rule hrule => ?_, ?_, ?_, ?_⟩⟩
  · cases e with
    | request r => exact (h.tallied.ask r fun _ _ _ => False.elim).2 rule hrule
    | mount format => exact (tallied_mount c format).2.2 rule hrule
    | disturbance disk => cases hrule
  · rintro r rfl hr
    have hafter := hcounted (h.meet (.request r))
    obtain ⟨l, hl, hhandles, herror⟩ := ask_of_takesPath c hr
    refine ⟨l, hl, hhandles, herror, fun x => ?_⟩
    rw [hafter.openers x, (hcounted h).openers x, ← List.countP_append, ← hhandles]
    rfl
  · rintro r rfl x node hnode hremoved ⟨i, y, hy, rfl, hne⟩
    -- Only the inode in question is marked; its other handle keeps it open through the request.
    have hmarks : c.Tallied (· = y.target.number) := h.tallied.marks fun x hx => by
      subst hx
      refine ⟨⟨y, List.mem_of_getElem? hy, rfl⟩, fun node' hnode' => ?_⟩
      rw [hnode] at hnode'
      cases hnode'
      exact hremoved
    obtain ⟨⟨A, hA, hv⟩, -⟩ := hmarks.ask r fun j hj x hx => by
      refine ⟨y, List.mem_eraseIdx_iff_getElem?.2 ⟨i, ?_, hy⟩, hx.symm⟩
      rintro rfl
      exact hne hj
    rcases entry_cases hA hv y.target.number with ⟨-, hzero⟩ | ⟨node', hsome, -, -, -, hmark⟩
    · have hpos := A.held y.target.number rfl
      rw [hA, holding_openers, hzero] at hpos
      exact absurd hpos (Nat.lt_irrefl 0)
    · exact ⟨node', hsome, hmark rfl⟩
  · rintro format rfl x
    have hnone := (hcounted (h.meet (.mount format))).registered x
    have hhandles : (c.meet (.mount format)).2.handles = [] := (tallied_mount c format).2.1
    rw [hhandles] at hnone
    simpa using hnone

/-! ## Events that follow each other -/

/-- What the events answer one after the other, and what they leave. -/
def meets : Client → List Event → List (Except Stop Response) × Client
  | c, [] => ([], c)
  | c, e :: rest => ((c.meet e).1 :: (meets (c.meet e).2 rest).1, (meets (c.meet e).2 rest).2)

theorem Arises.meets {c : Client} (h : c.Arises) (events : List Event) : (c.meets events).2.Arises := by
  induction events generalizing c with
  | nil => exact h
  | cons e rest ih => exact ih (h.meet e)

theorem meets_cons {c c' c'' : Client} {e : Event} {events : List Event} {a : Except Stop Response}
    {answers : List (Except Stop Response)} (he : c.meet e = (a, c')) (h : c'.meets events = (answers, c'')) :
    c.meets (e :: events) = (a :: answers, c'') := by
  rw [meets, he, h]

/-- A volume that can be mounted is. -/
theorem meet_mount {c : Client} {format : Bool} {space : SpaceMap} {disk : Disk} {v : Volume}
    (hmap : Volume.mountSpace format c.volume.disk = .ok space disk)
    (hprepare : Volume.prepare format { disk := disk, space := space } = .ok () v) :
    c.meet (.mount format) = (.ok (.answer .done), ⟨v, []⟩) := by
  simp only [meet, mount, hmap, hprepare]

/-- The root is opened without a look at any entry. -/
theorem ask_openRoot (c : Client) : c.ask (.call (.openInode "/" "/")) =
    match Inode.acquire rootInode c.volume with
    | .ok i v => (.ok (.answer .done), ⟨v, c.handles ++ [.inode i]⟩)
    | .error e v => (.error e, ⟨v, c.handles⟩) := by
  have habs : Path.toAbsolute "/" "/" = .ok "/" := by decide
  have hopen : Volume.openInode "/" "/" = Inode.acquire rootInode := by
    rw [Volume.openInode, Volume.leaf_eq, habs]
    rfl
  rw [ask_call]
  simp only [step, Call.act, hopen, Bind.bind, EStateM.bind]
  cases Inode.acquire rootInode c.volume <;> rfl

/-- Opening what is open already needs no access. -/
theorem ask_openRoot_again {c : Client} {node : OpenInode} (h : c.volume.registry[rootInode]? = some node) :
    ∃ v, c.ask (.call (.openInode "/" "/")) = (.ok (.answer .done), ⟨v, c.handles ++ [.inode ⟨rootInode⟩]⟩) := by
  rw [ask_openRoot]
  simp [Inode.acquire, VolumeM.registry, VolumeM.changeRegistry, h, Bind.bind, EStateM.bind, pure, EStateM.pure]

/-- What is not open cannot be opened where no block can be read. -/
theorem ask_openRoot_unread {c : Client} (h : c.volume.registry[rootInode]? = none)
    (hdead : ∀ n id, c.volume.disk.faults.read n id = true) :
    ∃ disk, c.ask (.call (.openInode "/" "/")) =
      (.error (.failed (.device .io)), ⟨{ c.volume with disk := disk }, c.handles⟩) := by
  rw [ask_openRoot]
  simp [Inode.acquire, VolumeM.registry, VolumeM.onDisk, Record.load, DiskM.readBlock, DiskM.ofDevice, Disk.read,
    hdead, h, Bind.bind, EStateM.bind]

/-- A disk on which every access fails. -/
def deadDisk : Disk := { device := .inMemory 8, faults := .from (some 0) (some 0) [] [] }

/-- The events of a client that opens the root whether or not its disk answers: while it does not, while it does,
and while it does not any more. -/
def hindered (good : Disk) : List Event :=
  [.mount true, .disturbance deadDisk, .request (.call (.openInode "/" "/")), .disturbance good,
    .request (.call (.openInode "/" "/")), .disturbance deadDisk, .request (.call (.openInode "/" "/"))]

/-- Of the three openings the first fails, and the last one needs no access. -/
theorem exists_hindered : ∃ (good : Disk) (c : Client),
    (⟨⟨{ device := .inMemory 8 }, ⟨0⟩, {}⟩, []⟩ : Client).meets (hindered good) =
      ([.ok (.answer .done), .ok (.answer .done), .error (.failed (.device .io)), .ok (.answer .done),
        .ok (.answer .done), .ok (.answer .done), .ok (.answer .done)], c) ∧
    c.handles = [.inode ⟨rootInode⟩, .inode ⟨rootInode⟩] := by
  have hfits : Regime.Fits ⟨8, False⟩ := ⟨by decide, by decide⟩
  obtain ⟨⟨v, handles⟩, W, m, hstarts, hs, hopens, -⟩ := exists_starts_bare hfits
  obtain rfl := hstarts.handles
  obtain ⟨space, disk, hmap, hprepare⟩ := hstarts.formats
  have hmount : (⟨⟨{ device := .inMemory 8 }, ⟨0⟩, {}⟩, []⟩ : Client).meet (.mount true) =
      (.ok (.answer .done), ⟨v, []⟩) := meet_mount hmap hprepare
  have hnone : v.registry[rootInode]? = none := by
    show (⟨v, []⟩ : Client).volume.registry[rootInode]? = none
    rw [hs.mounts.registry, World.entry, hopens]
    rfl
  -- On the dead disk the root cannot be opened, and the registry stays as it is. On the good one it can.
  obtain ⟨disk', hfails⟩ := ask_openRoot_unread (c := ⟨{ v with disk := deadDisk }, []⟩) hnone fun _ _ => rfl
  have habs : Path.toAbsolute "/" "/" = .ok "/" := by decide
  have hfind : W.pool.find "/" = .ok rootInode := (Pool.find_eq W.pool "/").trans (if_pos (by decide))
  obtain ⟨c', T, hopen, hhandles, hs'⟩ := hs.does_openInode (by decide) (by decide) habs hfind
  have hget : c'.handles[0]? = some (.inode ⟨rootInode⟩) := by
    rw [hhandles]
    rfl
  have hopens' : (⟨v, []⟩ : Client).meet (.request (.call (.openInode "/" "/"))) = (.ok (.answer .done), c') := by
    show ask ⟨v, []⟩ _ = _
    rw [ask_call, hopen.step]
    rfl
  -- By then it has an entry, which is all that the last opening asks for.
  obtain ⟨node, hnode⟩ := hs'.entry_of_handle hget
  obtain ⟨v', hagain⟩ := ask_openRoot_again (c := ⟨{ c'.volume with disk := deadDisk }, c'.handles⟩) hnode
  refine ⟨v.disk, _, meets_cons hmount (meets_cons rfl (meets_cons hfails (meets_cons rfl
    (meets_cons hopens' (meets_cons rfl (meets_cons hagain rfl)))))), ?_⟩
  rw [hhandles]
  rfl

/-- The root is open twice, though its disk has answered to one opening only. -/
theorem counted_of_hindered : ∃ (good : Disk) (c : Client),
    (⟨⟨{ device := .inMemory 8 }, ⟨0⟩, {}⟩, []⟩ : Client).meets (hindered good) =
      ([.ok (.answer .done), .ok (.answer .done), .error (.failed (.device .io)), .ok (.answer .done),
        .ok (.answer .done), .ok (.answer .done), .ok (.answer .done)], c) ∧
    c.Arises ∧ c.handles = [.inode ⟨rootInode⟩, .inode ⟨rootInode⟩] ∧ c.openers rootInode = 2 ∧
    c.Counted ∧ ∀ e, c.Balanced e := by
  obtain ⟨good, c, hmeets, hhandles⟩ := exists_hindered
  have harises : c.Arises := by
    -- All seven deeds are accounted for, those that met a fault included.
    have hall := (Arises.start { device := .inMemory 8 } ⟨0⟩).meets (hindered good)
    rwa [hmeets] at hall
  obtain ⟨hcounted, hbalanced⟩ := counted_of_arises harises
  refine ⟨good, c, hmeets, harises, hhandles, ?_, hcounted, hbalanced⟩
  rw [hcounted.openers, hhandles]
  decide

end Client

end InodeVolume
