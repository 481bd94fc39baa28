import InodeVolume.Proofs.Clients

/-!
# Runs

What holds between any two calls of a client. Its volume shows a world in order, in which every inode is
open as often as there are handles of it (`Client.Stands`). A client stands so at its start
(`Client.Starts.stands`), every call that it may make leaves it so (`Client.Stands.step`), and so it does
after every run (`Client.Reached.stands`).
-/

namespace InodeVolume

namespace World

variable {K : Regime} {W W' : World} {T : Hierarchy} {handles handles' : List Handle} {id : UInt32}
  {i : Nat} {x y : Handle} {n : Node} {o : Opening}

/-! ## Handles and openings -/

theorem Tracks.of_opens (hT : W.Tracks handles) (h : W'.opens = W.opens) : W'.Tracks handles := by
  refine ⟨fun x => ?_, fun x => ?_⟩
  · rw [h]
    exact hT.openers x
  · rw [World.denials, h]
    exact hT.denials x

/-- A change of how one inode is open, together with the handles of it. -/
theorem Tracks.of_counts (hT : W.Tracks handles) (hopens : ∀ x, x ≠ id → W'.opens x = W.opens x)
    (hothers : ∀ x, x ≠ id → ∀ p : Handle → Bool,
      handles'.countP (fun h => h.target.number == x && p h) =
        handles.countP fun h => h.target.number == x && p h)
    (hopeners : (W'.opens id).elim 0 (·.openers) = handles'.countP (·.target.number == id))
    (hdenials : W'.denials id = handles'.countP fun h => h.target.number == id && h.denies) :
    W'.Tracks handles' := by
  refine ⟨fun x => ?_, fun x => ?_⟩
  · by_cases hx : x = id
    · rw [hx, hopeners]
    · have hsame := hothers x hx fun _ => true
      simp only [Bool.and_true] at hsame
      rw [hopens x hx, hsame, hT.openers x]
  · by_cases hx : x = id
    · rw [hx, hdenials]
    · rw [World.denials, hopens x hx, hothers x hx Handle.denies, ← hT.denials x, World.denials]

theorem Tracks.opened (hT : W.Tracks handles) (x : Handle) (hx : x.denies = false) :
    (W.opened x.target.number).Tracks (handles ++ [x]) := by
  refine hT.of_counts (fun y hy => W.opened_opens_of_ne hy) (fun y hy p => ?_) ?_ ?_
  · rw [List.countP_append, List.countP_singleton, if_neg, Nat.add_zero]
    simp [Ne.symm hy]
  · rw [W.opened_opens_self, List.countP_append, ← hT.openers, Option.elim_some,
      List.countP_singleton, if_pos (by simp)]
    cases W.opens x.target.number <;> rfl
  · rw [World.denials, W.opened_opens_self, Option.elim_some, W.moreOpen_denials, List.countP_append,
      ← hT.denials, List.countP_singleton, if_neg (by simp [hx]), Nat.add_zero]

/-- Another handle of the same inode, which may deny writing or not. -/
theorem Tracks.replaced (hT : W.Tracks handles) (hx : handles[i]? = some x)
    (ho : W.opens x.target.number = some o) (hy : y.target = x.target) {denials : Nat}
    (hd : denials + (if x.denies then 1 else 0) = o.denials + if y.denies then 1 else 0) :
    (W.setOpening x.target.number (some { o with denials := denials })).Tracks (handles.set i y) := by
  have hopeners := hT.openers x.target.number
  have hdenials := hT.denials x.target.number
  rw [ho, Option.elim_some, countP_of_getElem? _ hx] at hopeners
  rw [denials_of_open ho, countP_of_getElem? _ hx] at hdenials
  simp only [beq_self_eq_true, Bool.true_and] at hopeners hdenials
  -- The new handle is of the same inode, so only the number of denials may differ.
  refine hT.of_counts (fun z hz => Function.update_of_ne hz _ _) (fun z hz p => ?_) ?_ ?_
  · rw [countP_set' _ y hx, countP_of_getElem? _ hx, hy]
    simp [Ne.symm hz]
  · rw [setOpening_opens, Function.update_self, Option.elim_some, countP_set' _ y hx, hy]
    simp only [beq_self_eq_true]
    exact hopeners
  · rw [denials_of_open (Function.update_self ..), countP_set' _ y hx, hy]
    simp only [beq_self_eq_true, Bool.true_and]
    omega

/-- Closing a handle. -/
theorem Tracks.closed (hT : W.Tracks handles) (hx : handles[i]? = some x)
    (ho : W.opens x.target.number = some o)
    (hc : Inode.Closed K (W.setOpening x.target.number (some (o.lifted x.denies))) x.target.number
      (o.lifted x.denies) n W') : W'.Tracks (handles.eraseIdx i) := by
  have hopeners := hT.openers x.target.number
  have hdenials := hT.denials x.target.number
  rw [ho, Option.elim_some, countP_of_getElem? _ hx, if_pos (by simp)] at hopeners
  rw [denials_of_open ho, countP_of_getElem? _ hx] at hdenials
  simp only [beq_self_eq_true, Bool.true_and] at hdenials
  have hcount := o.lifted_openers x.denies
  have hdenials' : (o.lifted x.denies).denials =
      (handles.eraseIdx i).countP fun h => h.target.number == x.target.number && h.denies := by
    rw [Opening.lifted]
    cases hd : x.denies with
    | false =>
      rw [hd, if_neg (by decide)] at hdenials
      rw [if_neg (by decide)]
      omega
    | true =>
      rw [hd, if_pos rfl] at hdenials
      rw [if_pos rfl]
      show o.denials - 1 = _
      omega
  -- The handle that goes is of one inode, so the counts of the others do not change.
  have hothers (z : UInt32) (hz : z ≠ x.target.number) (p : Handle → Bool) :
      (handles.eraseIdx i).countP (fun h => h.target.number == z && p h) =
        handles.countP fun h => h.target.number == z && p h := by
    rw [countP_of_getElem? _ hx, if_neg, Nat.add_zero]
    simp [Ne.symm hz]
  by_cases hmore : 1 < (o.lifted x.denies).openers
  · rw [hc.more hmore]
    refine hT.of_counts (fun z hz => ?_) hothers ?_ ?_
    · rw [setOpening_opens, Function.update_of_ne hz, setOpening_opens, Function.update_of_ne hz]
    · rw [setOpening_opens, Function.update_self, Option.elim_some]
      show (o.lifted x.denies).openers - 1 = _
      omega
    · rw [denials_of_open (Function.update_self ..)]
      exact hdenials'
  · -- That was the only handle of its inode.
    have hopens : W'.opens = Function.update W.opens x.target.number none := by
      by_cases hr : (o.lifted x.denies).removed = true
      · rw [(hc.gone (Nat.le_of_not_lt hmore) hr).1, setOpening_opens, Function.update_idem]
      · rw [hc.last (Nat.le_of_not_lt hmore) (by simpa using hr), setOpening_opens, setOpening_opens,
          Function.update_idem]
    have hnone : (handles.eraseIdx i).countP (·.target.number == x.target.number) = 0 := by omega
    have hle := List.countP_mono_left (l := handles.eraseIdx i)
      (p := fun h => h.target.number == x.target.number && h.denies)
      (q := fun h => h.target.number == x.target.number) fun y _ hy => (Bool.and_eq_true_iff.1 hy).1
    refine hT.of_counts (fun z hz => by rw [hopens, Function.update_of_ne hz]) hothers ?_ ?_
    · rw [hopens, Function.update_self, Option.elim_none, hnone]
    · rw [World.denials, hopens, Function.update_self, Option.elim_none]
      omega

/-- Removing an inode leaves it open as often as it was. -/
theorem Tracks.erased (hT : W.Tracks handles) {absolute : String} {t z : UInt32} {n' m : Node}
    (he : W.Erased K T absolute t n z m n' W') : W'.Tracks handles := by
  -- Unlinking changes neither who has an inode open nor who denies writing to it.
  have hu := he.unlinked
  refine hT.of_counts (fun y (hy : y ≠ z) => hu.opens y hy) (fun _ _ _ => rfl) ?_ ?_
  · rw [← hT.openers z]
    cases hz : W.opens z with
    | none => rw [(hu.gone hz).1]
    | some o => rw [(hu.marked o hz).1]; rfl
  · rw [← hT.denials z, World.denials, World.denials]
    cases hz : W.opens z with
    | none => rw [(hu.gone hz).1]
    | some o => rw [(hu.marked o hz).1]; rfl

end World

/-! ## What every call leaves -/

namespace Call

variable {K : Regime} {W W' : World} {T : Hierarchy} {handles : List Handle} {q : Call}
  {res : Except Stop (Answer × List Handle)}

/-- The handles that are open after a call. -/
def kept (handles : List Handle) : Except Stop (Answer × List Handle) → List Handle
  | .ok (_, handles') => handles'
  | .error _ => handles

/-- Contents are only changed through handles of regular files. -/
def Proper (W : World) (handles : List Handle) (q : Call) : Prop :=
  ∀ h x n, q.changes = some h → handles[h]? = some x → W.pool.nodes x.target.number = some n →
    n.record.isDirectory = false

/-- A world in order with the handles that are open in it. -/
structure Good (K : Regime) (W : World) (T : Hierarchy) (handles : List Handle) : Prop where
  ordered : W.Ordered K T
  tracks : W.Tracks handles

/-- What is open has a handle, and what has a handle is open. -/
theorem Good.open_iff {x : UInt32} (h : Good K W T handles) :
    (∃ y ∈ handles, y.target.number = x) ↔ W.opens x ≠ none := by
  -- An inode has as many openers as there are handles of it.
  have hopeners := h.tracks.openers x
  constructor
  · rintro ⟨y, hy, hyx⟩ hnone
    rw [hnone, Option.elim_none, eq_comm, List.countP_eq_zero] at hopeners
    exact hopeners y hy (beq_iff_eq.2 hyx)
  · intro hx
    obtain ⟨o, ho⟩ := Option.ne_none_iff_exists'.1 hx
    have hpos := h.ordered.attended x o ho
    rw [ho, Option.elim_some] at hopeners
    rw [hopeners, List.countP_pos_iff] at hpos
    simpa using hpos

theorem kept_map {α : Type} (r : Except Stop α) (a : α → Answer) :
    kept handles (r.map fun v => (a v, handles)) = handles := by
  cases r <;> rfl

theorem answer_map {α : Type} (r : Except Stop α) (a : α → Answer) (hs : α → List Handle) :
    (r.map fun v => (a v, hs v)).map Prod.fst = r.map a := by
  cases r <;> rfl

/-- A regular file that has changed leaves the world in order. -/
theorem Good.becomes {id : UInt32} {n n' : Node} (h : Good K W T handles) (hb : W.Becomes id n' W')
    (hn : W.pool.nodes id = some n) (hfile : n.record.isDirectory = false)
    (hdir : n'.record.isDirectory = n.record.isDirectory) : Good K W' T handles := by
  refine ⟨h.ordered.becomes hb hn hdir fun hd => ?_, h.tracks.of_opens hb.opens⟩
  rw [hfile] at hd
  cases hd

theorem Good.stays (h : Good K W T handles) (hs : W.Stays K W') : Good K W' T handles :=
  ⟨h.ordered.stays hs, h.tracks.of_opens hs.opens⟩

theorem Good.undone (h : Good K W T handles) (hu : W.Undone K T W') : ∃ T', Good K W' T' handles := by
  rcases hu.order with ⟨hO, -⟩ | ⟨-, T', hO⟩
  · exact ⟨T, hO, h.tracks.of_opens hu.opens⟩
  · exact ⟨T', hO, h.tracks.of_opens hu.opens⟩

theorem Good.arrives {a : Answer} {f : UInt32 → Handle} {r : Except Error UInt32} (h : Good K W T handles)
    (hf : ∀ x, (f x).target.number = x ∧ (f x).denies = false)
    (ha : W.Arrives (fun x => (a, handles ++ [f x])) r res W') : Good K W' T (kept handles res) := by
  cases r with
  | error e =>
    obtain ⟨rfl, rfl⟩ := ha
    exact h
  | ok x =>
    obtain ⟨rfl, rfl⟩ := ha
    have ht := h.tracks.opened (f x) (hf x).2
    rw [(hf x).1] at ht
    exact ⟨h.ordered.opened x, ht⟩

theorem Good.writes {id : UInt32} {n : Node} {o : Opening} {offset : Nat} {data : ByteArray}
    {r : Except Stop Nat} (h : Good K W T handles) (hn : W.pool.nodes id = some n)
    (hfile : n.record.isDirectory = false) (hw : Inode.Writes K W id n o offset data r W') :
    Good K W' T handles := by
  rcases hw with ⟨-, -, rfl⟩ | ⟨-, -, -, rfl⟩ | ⟨-, -, k, n', -, hb, hwrote⟩ | ⟨-, -, -, e, -, hs, -⟩
  · exact h
  · exact h
  · exact h.becomes hb hn hfile hwrote.isDirectory
  · exact h.stays hs

/-- Another place of a file changes nothing about what is open. -/
theorem Good.moved {i : Nat} {f : File} (h : Good K W T handles) (hx : handles[i]? = some (.file f))
    (position : Nat) : Good K W T (handles.set i (.file { f with position := position })) := by
  obtain ⟨o, ho, -⟩ := h.tracks.opened_of_handle hx
  have ht := h.tracks.replaced (y := .file { f with position := position }) hx ho rfl
    (rfl : o.denials + _ = _)
  rw [World.setOpening_same ho] at ht
  exact ⟨h.ordered, ht⟩

/-- Another handle of the same inode, with a denial more or less. -/
theorem Good.replaced {i : Nat} {x y : Handle} {o : Opening} {denials : Nat} (h : Good K W T handles)
    (hx : handles[i]? = some x) (ho : W.opens x.target.number = some o) (hy : y.target = x.target)
    (hd : denials + (if x.denies then 1 else 0) = o.denials + if y.denies then 1 else 0) :
    Good K (W.setOpening x.target.number (some { o with denials := denials })) T (handles.set i y) := by
  refine ⟨h.ordered.setOpening (h.ordered.attended _ o ho) ?_, h.tracks.replaced hx ho hy hd⟩
  simp [World.Doomed, ho]

/-- A call on a handle leaves the world in order if it does where there is a handle. -/
theorem Good.onHandle {i : Nat}
    {P : Handle → Node → Opening → Except Stop (Answer × List Handle) → World → Prop} (h : Good K W T handles)
    (hc : W.OnHandle handles i P res W')
    (hP : ∀ x n o, handles[i]? = some x → W.pool.nodes x.target.number = some n →
      W.opens x.target.number = some o → P x n o res W' → ∃ T', Good K W' T' (kept handles res)) :
    ∃ T', Good K W' T' (kept handles res) := by
  rcases hc with ⟨-, rfl, rfl⟩ | ⟨x, n, o, hx, hn, ho, hc⟩
  · exact ⟨T, h⟩
  · exact hP x n o hx hn ho hc

/-- A call on a file leaves the world in order if it does where there is a file. -/
theorem Good.onFile {i : Nat}
    {P : File → Node → Opening → Except Stop (Answer × List Handle) → World → Prop} (h : Good K W T handles)
    (hc : W.OnFile handles i P res W')
    (hP : ∀ f n o, handles[i]? = some (.file f) → W.pool.nodes f.inode.number = some n →
      W.opens f.inode.number = some o → P f n o res W' → ∃ T', Good K W' T' (kept handles res)) :
    ∃ T', Good K W' T' (kept handles res) := by
  refine h.onHandle hc ?_
  rintro x n o hx hn ho (⟨f, rfl, hc⟩ | ⟨-, rfl, rfl⟩)
  · exact hP f n o hx hn ho hc
  · exact ⟨T, h⟩

/-- What a call comes to is a world in order, with the handles that are open in it. -/
theorem Comes.good (h : Good K W T handles) (hproper : q.Proper W handles)
    (hc : q.Comes K W T handles res W') : ∃ T', Good K W' T' (kept handles res) := by
  -- Calls on a path may change the tree. Calls on a handle keep it and change one inode or one handle.
  cases q with
  | create path cwd size isDirectory =>
    obtain ⟨r, hr, rfl⟩ := hc
    rw [kept_map]
    rcases hr with ⟨-, absolute, t, n, b, n', m, -, ha⟩ | ⟨-, -, hu⟩
    · exact ⟨_, ha.ordered, h.tracks.of_opens ha.opens⟩
    · exact h.undone hu
  | remove path cwd =>
    obtain ⟨r, hr, rfl⟩ := hc
    rw [kept_map]
    rcases hr with ⟨-, absolute, t, n, x, m, n', -, he⟩ | ⟨-, -, hu⟩
    · exact ⟨_, he.ordered, h.tracks.erased he⟩
    · exact h.undone hu
  | changeDirectory path cwd =>
    obtain ⟨rfl, rfl⟩ := hc
    rw [kept_map]
    exact ⟨T, h⟩
  | openInode path cwd => exact ⟨T, h.arrives (fun _ => ⟨rfl, rfl⟩) hc⟩
  | openDirectory path cwd => exact ⟨T, h.arrives (fun _ => ⟨rfl, rfl⟩) hc⟩
  | openFile path cwd mode =>
    obtain ⟨r, hr, rfl⟩ := hc
    rcases hr with ⟨x, W₁, T₁, W₂, rfl, hopens, htruncates, hO, rfl⟩ | ⟨⟨e, rfl, -⟩, hu⟩
    · have hsame : W₂.opens = W.opens := by
        refine Eq.trans ?_ hopens.opens
        cases htruncates with
        | kept _ _ => rfl
        | emptied _ _ _ _ hb _ _ _ => exact hb.opens
      exact ⟨T₁, hO.opened x, (h.tracks.of_opens hsame).opened (.file (.ofInode ⟨x⟩)) rfl⟩
    · exact h.undone hu
  | close i =>
    rw [Comes] at hc
    refine h.onHandle hc ?_
    rintro x n o hx hn ho ⟨rfl, hclosed⟩
    -- What the handle denies is lifted before its inode is closed.
    have hO : (W.setOpening x.target.number (some (o.lifted x.denies))).Ordered K T := by
      refine h.ordered.setOpening (by rw [o.lifted_openers]; exact h.ordered.attended _ o ho) ?_
      simp [World.Doomed, ho]
    exact ⟨T, hO.closed (Function.update_self ..) hclosed, h.tracks.closed hx ho hclosed⟩
  | reopen i =>
    rw [Comes] at hc
    refine h.onHandle hc ?_
    rintro x n o hx hn ho ⟨rfl, rfl⟩
    have htarget : x.again.target.number = x.target.number := by cases x <;> rfl
    have ht := h.tracks.opened x.again (by cases x <;> rfl)
    rw [htarget] at ht
    exact ⟨T, h.ordered.opened _, ht⟩
  | readAt i offset count =>
    rw [Comes] at hc
    refine h.onHandle hc ?_
    rintro x n o hx hn ho ⟨rfl, rfl⟩
    exact ⟨T, h⟩
  | writeAt i offset data =>
    rw [Comes] at hc
    refine h.onHandle hc ?_
    rintro x n o hx hn ho ⟨r, hr, rfl⟩
    rw [kept_map]
    exact ⟨T, h.writes hn (hproper i x n rfl hx hn) hr⟩
  | grow i target =>
    rw [Comes] at hc
    refine h.onHandle hc ?_
    rintro x n o hx hn ho ⟨r, hr, rfl⟩
    rw [kept_map]
    rcases hr with ⟨n', -, hb, hgrown⟩ | ⟨e, -, hs, -⟩
    · exact ⟨T, h.becomes hb hn (hproper i x n rfl hx hn) hgrown.isDirectory⟩
    · exact ⟨T, h.stays hs⟩
  | clear i =>
    rw [Comes] at hc
    refine h.onHandle hc ?_
    rintro x n o hx hn ho ⟨r, hr, rfl⟩
    rw [kept_map]
    rcases hr with ⟨-, -, rfl⟩ | ⟨-, n', hb, hdir, -⟩ | ⟨-, -, -, rfl⟩
    · exact ⟨T, h⟩
    · exact ⟨T, h.becomes hb hn (hproper i x n rfl hx hn) hdir⟩
    · exact ⟨T, h⟩
  | read i count =>
    refine h.onFile hc ?_
    rintro f n o hx hn ho ⟨rfl, rfl⟩
    exact ⟨T, h.moved hx _⟩
  | write i data =>
    refine h.onFile hc ?_
    rintro f n o hx hn ho ⟨r, hr, rfl⟩
    have hgood := h.writes hn (hproper i _ n rfl hx hn) hr
    cases r with
    | error e => exact ⟨T, hgood⟩
    | ok k => exact ⟨T, hgood.moved hx _⟩
  | seek i position =>
    refine h.onFile hc ?_
    rintro f n o hx hn ho ⟨rfl, rfl⟩
    exact ⟨T, h.moved hx _⟩
  | denyWrite i =>
    refine h.onFile hc ?_
    rintro f n o hx hn ho ⟨rfl, rfl⟩
    refine ⟨T, h.replaced (y := .file { f with denying := true }) hx ho rfl ?_⟩
    simp only [Handle.denies]
    split <;> simp_all
  | allowWrite i =>
    refine h.onFile hc ?_
    rintro ⟨inode, position, denying⟩ n o hx hn ho ⟨rfl, rfl⟩
    -- A handle that denies is among those that its inode counts, so the count is not zero.
    have hpos := (h.tracks.denials_le hx ho).2.1
    cases denying with
    | false => exact ⟨T, h.replaced (y := .file ⟨inode, position, false⟩) hx ho rfl rfl⟩
    | true =>
      have hsum : o.denials - 1 + 1 = o.denials := Nat.sub_add_cancel (hpos rfl)
      exact ⟨T, h.replaced (y := .file ⟨inode, position, false⟩) hx ho rfl hsum⟩

end Call

/-! ## Runs -/

namespace Client

variable {K : Regime} {W W' : World} {T T' : Hierarchy} {faulty : Prop} {disk : Disk} {c c' : Client} {q : Call}

/-- The client's volume shows a world in order, in which is open what its handles say. -/
structure Stands (K : Regime) (W : World) (T : Hierarchy) (c : Client) : Prop where
  fits : K.Fits
  mounts : Mounts K W c.volume
  good : Call.Good K W T c.handles

/-- On a disk that has been formatted, the root is all that is stored, and nothing is open. -/
theorem Starts.stands_founded (h : Starts faulty disk c) :
    ∃ W m, c.Stands ⟨disk.device.blockCount, faulty⟩ W Hierarchy.rootOnly ∧
      Volume.Founded ⟨disk.device.blockCount, faulty⟩ W m ∧
      Regime.free ⟨disk.device.blockCount, faulty⟩ W.pool.store.used +
        (Regime.dataStart ⟨disk.device.blockCount, faulty⟩ + 1) = disk.device.blockCount := by
  obtain ⟨hK, W, m, hW, hfounded, hfree⟩ := formats_founded h.count_le h.works.zeroed h.formats
  refine ⟨W, m, ⟨hK, hW, hfounded.ordered, fun x => ?_, fun x => ?_⟩, hfounded, hfree⟩
  · rw [hfounded.opens, h.handles]
    rfl
  · rw [World.denials, hfounded.opens, h.handles]
    rfl

/-- On a disk that has been formatted, the tree is the root alone. -/
theorem Starts.stands (h : Starts faulty disk c) :
    ∃ W, c.Stands ⟨disk.device.blockCount, faulty⟩ W Hierarchy.rootOnly ∧ W.opens = fun _ => none := by
  obtain ⟨W, m, hW, hfounded, -⟩ := h.stands_founded
  exact ⟨W, hW, hfounded.opens⟩

/-- A call that the client may make changes contents of regular files only. -/
theorem Stands.proper (h : c.Stands K W T) (hq : c.Allows q) : q.Proper W c.handles := by
  intro i x n hi hx hn
  obtain ⟨o, ho, -⟩ := h.good.tracks.opened_of_handle hx
  have hentry : c.volume.registry[x.target.number]? = _ :=
    (h.mounts.registry _).trans (World.entry_of_some ho hn)
  exact hq.2 i hi x _ hx hentry

/-- A step is what its call comes to, with the handles that are open then. -/
theorem step_of_leads {post : Except Stop (Answer × List Handle) → World → Prop}
    (hv : Mounts K W c.volume) (hq : Leads (Mounts K) W (q.act c.handles) post) : ∃ res W', post res W' ∧
      (c.step q).1 = res.map Prod.fst ∧ (c.step q).2.handles = Call.kept c.handles res ∧
        Mounts K W' (c.step q).2.volume := by
  rcases hq.run hv with ⟨⟨a, handles⟩, v, W', hact, hv', hpost⟩ | ⟨e, v, W', hact, hv', hpost⟩
  · exact ⟨_, W', hpost, by simp [Client.step, hact, Except.map, Call.kept, hv']⟩
  · exact ⟨_, W', hpost, by simp [Client.step, hact, Except.map, Call.kept, hv']⟩

/-- A call comes to what is said of it, and leaves the world in order. -/
theorem Stands.step (h : c.Stands K W T) (hq : c.Allows q) : ∃ res W' T',
    q.Comes K W T c.handles res W' ∧ (c.step q).1 = res.map Prod.fst ∧
      (c.step q).2.handles = Call.kept c.handles res ∧ (c.step q).2.Stands K W' T' := by
  obtain ⟨res, W', hcomes, hanswer, hhandles, hmounts⟩ :=
    step_of_leads h.mounts (Call.act_leads h.fits h.good.ordered h.good.tracks q hq.1)
  obtain ⟨T', hgood⟩ := Call.Comes.good h.good (h.proper hq) hcomes
  exact ⟨res, W', T', hcomes, hanswer, hhandles, h.fits, hmounts, hhandles ▸ hgood⟩

/-- Every run leaves the world in order. -/
theorem Runs.stands {l : List (Call × Except Stop Answer)} (hr : Runs c l c') (h : c.Stands K W T) :
    ∃ W' T', c'.Stands K W' T' := by
  induction hr generalizing W T with
  | nil c => exact ⟨W, T, h⟩
  | cons q allowed rest ih =>
    obtain ⟨res, W', T', -, -, -, h'⟩ := h.step allowed
    exact ih h'

theorem Reached.stands (h : Reached faulty c) : ∃ K W T, K.faulty = faulty ∧ c.Stands K W T := by
  obtain ⟨disk, c₀, l, hs, hr⟩ := h
  obtain ⟨W, hW, -⟩ := hs.stands
  obtain ⟨W', T', h'⟩ := hr.stands hW
  exact ⟨_, W', T', rfl, h'⟩

/-! ## Clients exist -/

/-- A zeroed device in memory that has a block to spare can be formatted for a client. -/
theorem exists_starts {count : Nat} (hK : Regime.Fits ⟨count, False⟩) :
    ∃ c, Starts False { device := .inMemory count } c := by
  have hcount : (Device.inMemory count).blockCount = count := by
    simp [Device.inMemory, Device.blockCount]
  have hzeroed : Zeroed ⟨count, False⟩ 0 { device := .inMemory count } :=
    ⟨hcount, fun _ _ => rfl, fun _ _ => rfl, fun _ _ _ => rfl, fun k hk => absurd hk (Nat.not_lt_zero k)⟩
  obtain ⟨v, hv⟩ := formats_exists hK id hzeroed
  exact ⟨⟨v, []⟩, (Nat.le_of_eq hcount).trans hK.count_le,
    ⟨fun _ _ => rfl, fun _ _ => rfl, fun _ _ _ => rfl⟩, hv, rfl⟩

/-- A client at its start on a zeroed device in memory, with what its device shows. -/
theorem exists_starts_bare {count : Nat} (hK : Regime.Fits ⟨count, False⟩) : ∃ (c : Client) (W : World) (m : Node),
    Starts False { device := .inMemory count } c ∧ c.Stands ⟨count, False⟩ W Hierarchy.rootOnly ∧
      (W.opens = fun _ => none) ∧ W.Bare m ∧
      Regime.free ⟨count, False⟩ W.pool.store.used + (Regime.dataStart ⟨count, False⟩ + 1) = count := by
  have hcount : (Device.inMemory count).blockCount = count := by
    simp [Device.inMemory, Device.blockCount]
  obtain ⟨c, hs⟩ := exists_starts hK
  obtain ⟨W, m, hW, hfounded, hfree⟩ := hs.stands_founded
  rw [hcount] at hW hfree
  exact ⟨c, W, m, hs, hW, hfounded.opens, hfounded.bare, hfree⟩

end Client

end InodeVolume
