import InodeVolume.Proofs.World

/-!
# Failing reads and failing writes

An action that only reads up to some point and then writes may as well fail in the write as in a read
before it: nothing has been stored either way. So what can be said of a disk whose writes fail can be said of
one whose reads fail too, if no read is left without a write after it.

`Mimics Q x y` says that for every run of `x` there is a run of `y` whose reads all succeed, that stores the
same, and whose outcome is related by `Q`. The failures of its writes are a list that the run of `x` determines
(`Scripted`), so that lists are put one behind the other as actions are (`Mimics.bind`). An action that
reads may stand before one that stores nothing once its writes fail (`Reads.before`).
-/

namespace InodeVolume

/-! ## Outcomes -/

section Outcome

variable {ε δ σ α β : Type} {x : EStateM ε σ α} {f : α → EStateM ε σ β} {s s' : σ} {v : α} {e : ε}

/-- What an action comes to, and the state that it leaves. -/
def outcome (x : EStateM ε σ α) (s : σ) : Except ε α × σ :=
  match x s with
  | .ok v s' => (.ok v, s')
  | .error e s' => (.error e, s')

theorem outcome_bind_ok (h : outcome x s = (.ok v, s')) : outcome (x >>= f) s = outcome (f v) s' := by
  unfold outcome at h
  cases hx : x s with
  | ok w t =>
    rw [hx] at h
    cases h
    simp only [outcome, Bind.bind, EStateM.bind, hx]
  | error e t =>
    rw [hx] at h
    cases h

theorem outcome_bind_error (h : outcome x s = (.error e, s')) :
    outcome (x >>= f) s = (.error e, s') := by
  unfold outcome at h
  cases hx : x s with
  | ok w t =>
    rw [hx] at h
    cases h
  | error e t =>
    rw [hx] at h
    cases h
    simp only [outcome, Bind.bind, EStateM.bind, hx]

theorem outcome_attempt_bind (f : Except ε α → EStateM δ σ β) :
    outcome ((attempt x : EStateM δ σ (Except ε α)) >>= f) s =
      outcome (f (outcome x s).1) (outcome x s).2 := by
  simp only [outcome, Bind.bind, EStateM.bind, attempt]
  cases x s <;> rfl

/-- What is said of an action holds of its outcome. -/
theorem Leads.comes {A : Type} {R : A → σ → Prop} {a : A} {post : Except ε α → A → Prop} (h : Leads R a x post)
    (hs : R a s) : ∃ b, R b (outcome x s).2 ∧ post (outcome x s).1 b := by
  unfold outcome
  rcases h.run hs with ⟨v, s', b, hr, hb, hpost⟩ | ⟨e, s', b, hr, hb, hpost⟩
  · rw [hr]
    exact ⟨b, hb, hpost⟩
  · rw [hr]
    exact ⟨b, hb, hpost⟩

end Outcome

/-! ## Disks that follow a script -/

/-- No read fails, and the next writes fail where the list says so. -/
structure Disk.Scripted (l : List Bool) (t : Disk) : Prop where
  read : ∀ n id, t.faults.read n id = false
  write : ∀ i b id, l[i]? = some b → t.faults.write (t.faults.writesSeen + i) id = b

/-- States that hold a disk. -/
class HoldsDisk (σ : Type) where
  disk : σ → Disk
  /-- The states are the same, but for the faults of their disks and how many accesses have been counted. -/
  Like : σ → σ → Prop
  like_equivalence : Equivalence Like
  /-- A state like this one whose disk follows the script. -/
  scripted : List Bool → σ → σ
  like_scripted : ∀ l s, Like s (scripted l s)
  scripted_scripted : ∀ l s, (disk (scripted l s)).Scripted l

export HoldsDisk (disk Like scripted)

section Like

variable {σ : Type} [HoldsDisk σ] {s t u : σ}

theorem like_symm (h : Like s t) : Like t s := HoldsDisk.like_equivalence.symm h

theorem like_trans (h : Like s t) (h' : Like t u) : Like s u := HoldsDisk.like_equivalence.trans h h'

end Like

/-- The disks store the same. -/
structure Disk.Same (s t : Disk) : Prop where
  blocks : t.device.blocks = s.device.blocks
  medium : t.device.medium = s.device.medium

theorem Disk.Same.refl (s : Disk) : s.Same s := ⟨rfl, rfl⟩

theorem Disk.Same.symm {s t : Disk} (h : s.Same t) : t.Same s := ⟨h.blocks.symm, h.medium.symm⟩

theorem Disk.Same.trans {s t u : Disk} (h : s.Same t) (h' : t.Same u) : s.Same u :=
  ⟨h'.blocks.trans h.blocks, h'.medium.trans h.medium⟩

/-- The volumes store the same and have the same open. -/
structure Volume.Same (v w : Volume) : Prop where
  disk : v.disk.Same w.disk
  space : w.space = v.space
  registry : w.registry = v.registry

instance : HoldsDisk Disk where
  disk s := s
  Like := Disk.Same
  like_equivalence := ⟨Disk.Same.refl, Disk.Same.symm, Disk.Same.trans⟩
  scripted l s :=
    { device := s.device
      faults :=
        { read := fun _ _ => false
          write := fun n _ => l[n - s.faults.writesSeen]?.getD false
          readsSeen := s.faults.readsSeen
          writesSeen := s.faults.writesSeen } }
  like_scripted _ _ := ⟨rfl, rfl⟩
  scripted_scripted l s :=
    ⟨fun _ _ => rfl, fun i b id h => by simp only [Nat.add_sub_cancel_left, h, Option.getD_some]⟩

instance : HoldsDisk Volume where
  disk := Volume.disk
  Like := Volume.Same
  like_equivalence :=
    { refl := fun _ => ⟨.refl _, rfl, rfl⟩
      symm := fun h => ⟨h.disk.symm, h.space.symm, h.registry.symm⟩
      trans := fun h h' =>
        ⟨h.disk.trans h'.disk, h'.space.trans h.space, h'.registry.trans h.registry⟩ }
  scripted l v := { v with disk := scripted l v.disk }
  like_scripted _ _ := ⟨⟨rfl, rfl⟩, rfl, rfl⟩
  scripted_scripted l v := HoldsDisk.scripted_scripted l v.disk

/-! ## Counterparts -/

section Rules

variable {ε ε' σ α α' β β' : Type} [HoldsDisk σ]

/-- For every run of `x` there is a list of failures with which `y`, all of whose reads succeed, leaves the
same, and `Q` relates the outcomes. -/
def Mimics (Q : Except ε α → Except ε' α' → Prop) (x : EStateM ε σ α) (y : EStateM ε' σ α') : Prop :=
  ∀ s : σ, ∃ l r, Q (outcome x s).1 r ∧
    (disk (outcome x s).2).faults.read = (disk s).faults.read ∧
    ∀ l' t, Like s t → (disk t).Scripted (l ++ l') →
      (outcome y t).1 = r ∧ Like (outcome x s).2 (outcome y t).2 ∧ (disk (outcome y t).2).Scripted l'

/-- From a state like `s`, all of whose next writes fail, the action comes to `r` and stores nothing. -/
def Unmoved (x : EStateM ε σ α) (s : σ) (r : Except ε α) : Prop :=
  ∃ n, ∀ l' t, Like s t → (disk t).Scripted (List.replicate n true ++ l') →
    (outcome x t).1 = r ∧ Like s (outcome x t).2 ∧ (disk (outcome x t).2).Scripted l'

/-- Where all writes fail, the action stores nothing. -/
def Inert (x : EStateM ε σ α) : Prop := ∀ s, ∃ r, Unmoved x s r

/-- Where all writes fail, the action fails and stores nothing. -/
def Dies (x : EStateM ε σ α) : Prop := ∀ s, ∃ e, Unmoved x s (.error e)

variable {x : EStateM ε σ α} {y : EStateM ε' σ α'} {f : α → EStateM ε σ β} {f' : α' → EStateM ε' σ β'}
  {Q : Except ε α → Except ε' α' → Prop} {Q' : Except ε β → Except ε' β' → Prop} {s : σ}

theorem Dies.inert (h : Dies x) : Inert x := fun s => (h s).imp' .error fun _ he => he

theorem Unmoved.pure (v : α) (s : σ) : Unmoved (pure v : EStateM ε σ α) s (.ok v) :=
  ⟨0, fun _ _ hlike hl => ⟨rfl, hlike, hl⟩⟩

theorem Unmoved.throw (e : ε) (s : σ) : Unmoved (throw e : EStateM ε σ α) s (.error e) :=
  ⟨0, fun _ _ hlike hl => ⟨rfl, hlike, hl⟩⟩

theorem Unmoved.bind {v : α} {r : Except ε β} (hx : Unmoved x s (.ok v)) (hf : Unmoved (f v) s r) :
    Unmoved (x >>= f) s r := by
  obtain ⟨n, hx⟩ := hx
  obtain ⟨m, hf⟩ := hf
  refine ⟨n + m, fun l' t hlike hl => ?_⟩
  rw [← List.replicate_append_replicate, List.append_assoc] at hl
  obtain ⟨hr, hlike', hl'⟩ := hx _ t hlike hl
  rw [outcome_bind_ok (Prod.ext hr rfl)]
  exact hf l' _ hlike' hl'

theorem Unmoved.bind_error {e : ε} (hx : Unmoved x s (.error e)) : Unmoved (x >>= f) s (.error e) := by
  obtain ⟨n, hx⟩ := hx
  refine ⟨n, fun l' t hlike hl => ?_⟩
  obtain ⟨hr, hrest⟩ := hx l' t hlike hl
  rw [outcome_bind_error (Prod.ext hr rfl)]
  exact ⟨rfl, hrest⟩

theorem Unmoved.attempt_bind {δ : Type} {r : Except ε α} {r' : Except δ β} {g : Except ε α → EStateM δ σ β}
    (hx : Unmoved x s r) (hg : Unmoved (g r) s r') :
    Unmoved ((attempt x : EStateM δ σ (Except ε α)) >>= g) s r' := by
  obtain ⟨n, hx⟩ := hx
  obtain ⟨m, hg⟩ := hg
  refine ⟨n + m, fun l' t hlike hl => ?_⟩
  rw [← List.replicate_append_replicate, List.append_assoc] at hl
  obtain ⟨hr, hlike', hl'⟩ := hx _ t hlike hl
  rw [outcome_attempt_bind, hr]
  exact hg l' _ hlike' hl'

theorem Inert.pure (v : α) : Inert (pure v : EStateM ε σ α) := fun s => ⟨_, Unmoved.pure v s⟩

theorem Inert.throw (e : ε) : Inert (throw e : EStateM ε σ α) := fun s => ⟨_, Unmoved.throw e s⟩

theorem Inert.bind (hx : Inert x) (hf : ∀ v, Inert (f v)) : Inert (x >>= f) := by
  intro s
  obtain ⟨e | v, hr⟩ := hx s
  · exact ⟨_, hr.bind_error⟩
  · obtain ⟨r, hr'⟩ := hf v s
    exact ⟨r, hr.bind hr'⟩

theorem Inert.attempt_bind {δ : Type} {g : Except ε α → EStateM δ σ β} (hx : Inert x)
    (hg : ∀ r, Inert (g r)) : Inert ((attempt x : EStateM δ σ (Except ε α)) >>= g) := by
  intro s
  obtain ⟨r, hr⟩ := hx s
  obtain ⟨r', hr'⟩ := hg r s
  exact ⟨r', hr.attempt_bind hr'⟩

theorem Dies.throw (e : ε) : Dies (throw e : EStateM ε σ α) := fun s => ⟨e, Unmoved.throw e s⟩

/-- It is enough that what comes last fails. -/
theorem Inert.bind_dies (hx : Inert x) (hf : ∀ v, Dies (f v)) : Dies (x >>= f) := by
  intro s
  obtain ⟨e | v, hr⟩ := hx s
  · exact ⟨e, hr.bind_error⟩
  · obtain ⟨e, he⟩ := hf v s
    exact ⟨e, hr.bind he⟩

theorem Inert.attempt_bind_dies {δ : Type} {g : Except ε α → EStateM δ σ β} (hx : Inert x)
    (hg : ∀ r, Dies (g r)) : Dies ((attempt x : EStateM δ σ (Except ε α)) >>= g) := by
  intro s
  obtain ⟨r, hr⟩ := hx s
  obtain ⟨e, he⟩ := hg r s
  exact ⟨e, hr.attempt_bind he⟩

theorem Dies.bind (hx : Dies x) : Dies (x >>= f) := by
  intro s
  obtain ⟨e, he⟩ := hx s
  exact ⟨e, he.bind_error⟩

theorem Mimics.pure {v : α} {w : α'} (h : Q (.ok v) (.ok w)) :
    Mimics Q (pure v : EStateM ε σ α) (pure w : EStateM ε' σ α') :=
  fun _ => ⟨[], _, h, rfl, fun _ _ hlike hl => ⟨rfl, hlike, hl⟩⟩

theorem Mimics.throw {e : ε} {e' : ε'} (h : Q (.error e) (.error e')) :
    Mimics Q (throw e : EStateM ε σ α) (throw e' : EStateM ε' σ α') :=
  fun _ => ⟨[], _, h, rfl, fun _ _ hlike hl => ⟨rfl, hlike, hl⟩⟩

/-- Going on from outcomes that are related. -/
theorem Mimics.attemptBind {δ δ' : Type} {g : Except ε α → EStateM δ σ β} {g' : Except ε' α' → EStateM δ' σ β'}
    {R : Except δ β → Except δ' β' → Prop} (hx : Mimics Q x y)
    (hg : ∀ r r', Q r r' → Mimics R (g r) (g' r')) :
    Mimics R ((attempt x : EStateM δ σ (Except ε α)) >>= g)
      ((attempt y : EStateM δ' σ (Except ε' α')) >>= g') := by
  intro s
  obtain ⟨l, r, hQ, hread, hy⟩ := hx s
  obtain ⟨m, r', hR, hread', hg'⟩ := hg _ r hQ (outcome x s).2
  rw [outcome_attempt_bind]
  refine ⟨l ++ m, r', hR, hread'.trans hread, fun l' t hlike hl => ?_⟩
  rw [List.append_assoc] at hl
  obtain ⟨hr, hlike', hl'⟩ := hy _ t hlike hl
  rw [outcome_attempt_bind, hr]
  exact hg' l' _ hlike' hl'

/-- One action after another. -/
theorem Mimics.bind (hx : Mimics Q x y)
    (hf : ∀ v w, Q (.ok v) (.ok w) → Mimics Q' (f v) (f' w))
    (herr : ∀ e e', Q (.error e) (.error e') → Q' (.error e) (.error e'))
    (hsame : ∀ r r', Q r r' → r.isOk = r'.isOk) : Mimics Q' (x >>= f) (y >>= f') := by
  intro s
  obtain ⟨l, r, hQ, hread, hy⟩ := hx s
  -- Both first actions end well or both fail, so the two programs go on together.
  cases hrun : outcome x s with
  | mk q s' =>
    rw [hrun] at hQ hread hy
    have hok := hsame _ _ hQ
    match q, r, hok with
    | .ok v, .ok w, _ =>
      obtain ⟨m, r', hQ', hread', hf'⟩ := hf v w hQ s'
      rw [outcome_bind_ok hrun]
      refine ⟨l ++ m, r', hQ', hread'.trans hread, fun l' t hlike hl => ?_⟩
      rw [List.append_assoc] at hl
      obtain ⟨hr, hlike', hl'⟩ := hy _ t hlike hl
      rw [outcome_bind_ok (Prod.ext hr rfl)]
      exact hf' l' _ hlike' hl'
    | .error e, .error e', _ =>
      rw [outcome_bind_error hrun]
      refine ⟨l, .error e', herr e e' hQ, hread, fun l' t hlike hl => ?_⟩
      obtain ⟨hr, hrest⟩ := hy l' t hlike hl
      rw [outcome_bind_error (Prod.ext hr rfl)]
      exact ⟨rfl, hrest⟩

end Rules

/-! ## Actions on a disk -/

/-- The outcomes are the same, but where the second fails the first may report a failure of the medium
instead. -/
inductive Reported {α : Type} : Except Error α → Except Error α → Prop
  | ok (v : α) : Reported (.ok v) (.ok v)
  | same (e : Error) : Reported (.error e) (.error e)
  | io (e : Error) : Reported (.error (.device .io)) (.error e)

theorem Reported.isOk_eq {α : Type} {r r' : Except Error α} (h : Reported r r') : r.isOk = r'.isOk := by
  cases h <;> rfl

theorem Reported.error_bind {α β : Type} {e e' : Error}
    (h : Reported (.error e : Except Error α) (.error e')) :
    Reported (.error e : Except Error β) (.error e') := by
  cases h with
  | same => exact .same e
  | io => exact .io e'

namespace DiskM

variable {α β : Type} {x : DiskM α} {f : α → DiskM β}

/-- An action that can stand in for itself where only writes fail. -/
abbrev Faithful (x : DiskM α) : Prop := Mimics Reported x x

theorem Faithful.pure (v : α) : Faithful (pure v : DiskM α) := Mimics.pure (.ok v)

theorem Faithful.throw (e : Error) : Faithful (throw e : DiskM α) := Mimics.throw (.same e)

theorem Faithful.bind (hx : Faithful x) (hf : ∀ v, Faithful (f v)) : Faithful (x >>= f) := by
  refine Mimics.bind hx ?_ (fun _ _ h => h.error_bind) fun _ _ h => h.isOk_eq
  rintro v w ⟨⟩
  exact hf v

/-- An action that may come before one that stores nothing once its writes fail. -/
structure Reads (x : DiskM α) : Prop where
  inert : Inert x
  before : ∀ {β : Type} {f : α → DiskM β}, (∀ v, Faithful (f v)) → (∀ v, Dies (f v)) →
    Faithful (x >>= f)

theorem Faithful.reads (h : Faithful x) (hq : Inert x) : Reads x :=
  ⟨hq, fun hf _ => h.bind hf⟩

theorem Reads.pure (v : α) : Reads (pure v : DiskM α) := (Faithful.pure v).reads (Inert.pure v)

theorem Reads.throw (e : Error) : Reads (throw e : DiskM α) := (Faithful.throw e).reads (Inert.throw e)

theorem Reads.bind (hx : Reads x) (hf : ∀ v, Reads (f v)) : Reads (x >>= f) where
  inert := hx.inert.bind fun v => (hf v).inert
  before hg hd := by
    rw [bind_assoc]
    exact hx.before (fun v => (hf v).before hg hd) fun v => (hf v).inert.bind_dies hd

theorem Reads.forM {γ : Type} {g : γ → DiskM PUnit} {l : List γ} (h : ∀ p, Reads (g p)) :
    Reads (l.forM g) := by
  induction l with
  | nil => exact Reads.pure _
  | cons p l ih => exact (h p).bind fun _ => ih

theorem Reads.mapM {γ : Type} {g : γ → DiskM α} {l : List γ} (h : ∀ p, Reads (g p)) :
    Reads (l.mapM g) := by
  induction l with
  | nil => exact Reads.pure _
  | cons p l ih =>
    rw [List.mapM_cons]
    exact (h p).bind fun _ => ih.bind fun _ => Reads.pure _

/-! ## Reading and writing a block -/

/-- What a device answers to a read of one of its blocks. -/
def answered (d : Device) (id : Nat) : Except Error Block :=
  match d.refusal id blockSize with
  | some e => .error (.device e)
  | none => if d.holds id then .ok (d.block id) else .error (.device .io)

theorem answered_of_like {s t : Disk} (h : s.Same t) (id : Nat) :
    answered t.device id = answered s.device id := by
  simp only [answered, Device.refusal, Device.holds, Device.block, Device.blockCount, h.blocks, h.medium]
  rfl

/-- A read fails by a fault, or comes to what the device answers. It stores nothing. -/
theorem outcome_readBlock (id : Nat) (s : Disk) :
    (outcome (readBlock id) s).1 =
        (if s.faults.read s.faults.readsSeen id then .error (.device .io) else answered s.device id) ∧
      s.Same (outcome (readBlock id) s).2 ∧
      (outcome (readBlock id) s).2.faults = { s.faults with readsSeen := s.faults.readsSeen + 1 } := by
  obtain ⟨device, ⟨read, write, reads, writes⟩⟩ := s
  by_cases hfault : read reads id = true
  · simp only [outcome, readBlock, ofDevice, Disk.read, hfault, ↓reduceIte]
    exact ⟨trivial, ⟨rfl, rfl⟩, trivial⟩
  · simp only [outcome, readBlock, ofDevice, Disk.read, hfault, Device.read, answered]
    cases device.refusal id blockSize with
    | some e => exact ⟨rfl, ⟨rfl, rfl⟩, rfl⟩
    | none => cases device.holds id <;> exact ⟨rfl, ⟨rfl, rfl⟩, rfl⟩

/-- Where no read fails, a read comes to what the device answers and takes no part of the script. -/
theorem readBlock_scripted (id : Nat) {s t : Disk} {l : List Bool} (hlike : s.Same t) (hl : t.Scripted l) :
    (outcome (readBlock id) t).1 = answered s.device id ∧ s.Same (outcome (readBlock id) t).2 ∧
      (outcome (readBlock id) t).2.Scripted l := by
  obtain ⟨hr, hstored, hfaults⟩ := outcome_readBlock id t
  rw [hl.read, if_neg Bool.false_ne_true, answered_of_like hlike] at hr
  refine ⟨hr, hlike.trans hstored, ?_, ?_⟩
  · rw [hfaults]
    exact hl.read
  · rw [hfaults]
    exact hl.write

/-- A read of which the fault is not seen before a write. -/
theorem readBlock_reads (id : Nat) : Reads (readBlock id) where
  inert s := by
    refine ⟨answered s.device id, 0, fun l' t hlike hl => ?_⟩
    exact readBlock_scripted id hlike hl
  before := by
    intro β f hf hd s
    obtain ⟨hr, hlike, hfaults⟩ := outcome_readBlock id s
    cases hrun : outcome (readBlock id) s with
    | mk q s' =>
      rw [hrun] at hr hlike hfaults
      have hread : s'.faults.read = s.faults.read := by rw [hfaults]
      cases ha : answered s.device id with
      | error e =>
        -- The device refuses, whether or not a fault comes first.
        have hq : q = .error (.device .io) ∨ q = .error e := by
          rw [ha] at hr
          split at hr
          · exact .inl hr
          · exact .inr hr
        have hrep : ∃ e', q = .error e' ∧ Reported (.error e' : Except Error β) (.error e) := by
          rcases hq with rfl | rfl
          · exact ⟨_, rfl, .io e⟩
          · exact ⟨_, rfl, .same e⟩
        obtain ⟨e', rfl, hrep⟩ := hrep
        rw [outcome_bind_error hrun]
        refine ⟨[], .error e, hrep, hread, fun l' t hlike' hl => ?_⟩
        obtain ⟨hr', hstored, hl'⟩ := readBlock_scripted id hlike' hl
        rw [outcome_bind_error (Prod.ext (hr'.trans ha) rfl)]
        exact ⟨rfl, Disk.Same.trans (Disk.Same.symm hlike) hstored, hl'⟩
      | ok b =>
        cases hfault : s.faults.read s.faults.readsSeen id with
        | false =>
          rw [hfault, if_neg Bool.false_ne_true, ha] at hr
          obtain rfl : q = .ok b := hr
          rw [outcome_bind_ok hrun]
          obtain ⟨l, r, hrep, hread', hrest⟩ := hf b s'
          refine ⟨l, r, hrep, hread'.trans hread, fun l' t hlike' hl => ?_⟩
          obtain ⟨hr', hstored, hl'⟩ := readBlock_scripted id hlike' hl
          rw [outcome_bind_ok (Prod.ext (hr'.trans ha) rfl)]
          exact hrest l' _ (Disk.Same.trans (Disk.Same.symm hlike) hstored) hl'
        | true =>
          -- The counterpart reads on, and then no write of it succeeds.
          rw [hfault, if_pos rfl] at hr
          obtain rfl : q = .error (.device .io) := hr
          rw [outcome_bind_error hrun]
          obtain ⟨e, n, hdies⟩ := hd b s
          refine ⟨List.replicate n true, .error e, .io e, hread, fun l' t hlike' hl => ?_⟩
          obtain ⟨hr', hstored, hl'⟩ := readBlock_scripted id hlike' hl
          rw [outcome_bind_ok (Prod.ext (hr'.trans ha) rfl)]
          obtain ⟨he, hstored', hrest⟩ := hdies l' _ hstored hl'
          exact ⟨he, Disk.Same.trans (Disk.Same.symm hlike) hstored', hrest⟩

/-- Disks that store the same store the same after a write, and answer it alike. -/
theorem write_like {s t : Disk} (h : s.Same t) (id : Nat) (data : ByteArray) :
    (outcome (Device.write id data) t.device).1 = (outcome (Device.write id data) s.device).1 ∧
      (outcome (Device.write id data) t.device).2.blocks =
        (outcome (Device.write id data) s.device).2.blocks ∧
      (outcome (Device.write id data) t.device).2.medium =
        (outcome (Device.write id data) s.device).2.medium := by
  -- What a device refuses depends on its blocks and its medium alone.
  have hrefusal : t.device.refusal id data.size = s.device.refusal id data.size := by
    simp only [Device.refusal, Device.blockCount, h.blocks, h.medium]
    rfl
  simp only [outcome, Device.write, hrefusal]
  cases s.device.refusal id data.size with
  | some e => exact ⟨rfl, h.blocks, h.medium⟩
  | none =>
    by_cases hs : data.size = blockSize
    · simp only [dif_pos hs, h.blocks, h.medium, and_self]
    · simp only [dif_neg hs, h.blocks, h.medium, and_self]

/-- What a write comes to: a fault, or what it does to the device. -/
theorem outcome_writeBlock (id : Nat) (b : Block) (s : Disk) :
    outcome (writeBlock id b) s =
      (let seen : Faults := { s.faults with writesSeen := s.faults.writesSeen + 1 }
       if s.faults.write s.faults.writesSeen id then (.error (.device .io), ⟨s.device, seen⟩)
       else ((outcome (Device.write id b.bytes) s.device).1.mapError .device,
          ⟨(outcome (Device.write id b.bytes) s.device).2, seen⟩)) := by
  obtain ⟨device, ⟨read, write, reads, writes⟩⟩ := s
  by_cases hfault : write writes id = true
  · simp only [outcome, writeBlock, ofDevice, Disk.write, hfault, ↓reduceIte]
  · simp only [outcome, writeBlock, ofDevice, Disk.write, hfault]
    cases Device.write id b.bytes device <;> rfl

/-- A script after its first write. -/
theorem scripted_tail {t : Disk} {b : Bool} {l : List Bool} {d : Device} (h : t.Scripted (b :: l)) :
    (⟨d, { t.faults with writesSeen := t.faults.writesSeen + 1 }⟩ : Disk).Scripted l where
  read := h.read
  write i b' id hb := by
    have hnext := h.write (i + 1) b' id (by simpa using hb)
    simpa [Nat.add_comm, Nat.add_left_comm] using hnext

/-- A write fails in its counterpart exactly if it fails by a fault, or the device refuses. -/
theorem writeBlock_faithful (id : Nat) (b : Block) : Faithful (writeBlock id b) := by
  intro s
  refine ⟨[s.faults.write s.faults.writesSeen id], (outcome (writeBlock id b) s).1, ?_, ?_,
    fun l' t hlike hl => ?_⟩
  · cases (outcome (writeBlock id b) s).1 with
    | ok v => exact .ok v
    | error e => exact .same e
  · rw [outcome_writeBlock]
    dsimp only
    -- The script says whether this write fails. If it does not, the device is the only one to refuse it.
    split <;> rfl
  · have hfault : t.faults.write t.faults.writesSeen id = s.faults.write s.faults.writesSeen id :=
      hl.write 0 _ id rfl
    obtain ⟨hr, hblocks, hmedium⟩ := write_like hlike id b.bytes
    rw [outcome_writeBlock, outcome_writeBlock, ← hfault]
    dsimp only [disk] at hl ⊢
    split
    · exact ⟨rfl, ⟨hlike.blocks, hlike.medium⟩, scripted_tail hl⟩
    · exact ⟨by rw [hr], ⟨hblocks, hmedium⟩, scripted_tail hl⟩

/-- A write that fails stores nothing. -/
theorem writeBlock_dies (id : Nat) (b : Block) : Dies (writeBlock id b) := by
  intro s
  refine ⟨.device .io, 1, fun l' t hlike hl => ?_⟩
  have hfault : t.faults.write t.faults.writesSeen id = true := hl.write 0 _ id rfl
  rw [outcome_writeBlock]
  dsimp only [disk] at hl ⊢
  rw [if_pos hfault]
  exact ⟨rfl, ⟨hlike.blocks, hlike.medium⟩, scripted_tail hl⟩

/-- An action that cannot fail, as one that could. -/
def ofAction (x : DiskAction α) : DiskM α := fun disk => .ok (x disk).1 (x disk).2

theorem ofAction_bind {β : Type} (x : DiskAction α) (f : α → DiskAction β) :
    ofAction (x >>= f) = ofAction x >>= fun a => ofAction (f a) := rfl

/-- A transfer of bytes that are read goes on to the next piece, or stops at one that cannot be read. -/
theorem ofAction_readPieces_cons (r : Record) (found : ByteArray) (p : Piece) (rest : List Piece) :
    ofAction (r.readPieces found (p :: rest)) = (do
      match ← attempt (r.readPiece p) with
      | .error _ => pure found
      | .ok bytes => ofAction (r.readPieces (found ++ bytes) rest)) := by
  funext disk
  simp only [ofAction, Record.readPieces, Bind.bind, EStateM.bind, attempt]
  cases r.readPiece p disk <;> rfl

/-- A transfer of bytes that are written goes on to the next piece, or stops at one that cannot be written. -/
theorem ofAction_writePieces_cons (r : Record) (data : ByteArray) (done : Nat) (p : Piece) (rest : List Piece) :
    ofAction (r.writePieces data done (p :: rest)) = (do
      match ← attempt (r.writePiece p (data.extract done (done + p.size))) with
      | .error _ => pure done
      | .ok () => ofAction (r.writePieces data (done + p.size) rest)) := by
  funext disk
  simp only [ofAction, Record.writePieces, Bind.bind, EStateM.bind, attempt]
  cases r.writePiece p (data.extract done (done + p.size)) disk <;> rfl

end DiskM

/-! ## Actions on a volume -/

/-- The outcomes are the same, but where the second reports a failure the first may report one of the medium
instead. -/
inductive Told {α : Type} : Except Stop α → Except Stop α → Prop
  | ok (v : α) : Told (.ok v) (.ok v)
  | same (e : Stop) : Told (.error e) (.error e)
  | io (e : Error) : Told (.error (.failed (.device .io))) (.error (.failed e))

theorem Told.isOk_eq {α : Type} {r r' : Except Stop α} (h : Told r r') : r.isOk = r'.isOk := by
  cases h <;> rfl

theorem Told.of_ok {α : Type} {r : Except Stop α} {v : α} (h : Told r (.ok v)) : r = .ok v := by
  cases h
  rfl

theorem Told.of_failed {α : Type} {r : Except Stop α} {e : Error} (h : Told r (.error (.failed e))) :
    ∃ e', r = .error (.failed e') := by
  cases h <;> exact ⟨_, rfl⟩

theorem Reported.raised {α : Type} {r r' : Except Error α} (h : Reported r r') :
    Told (InodeVolume.raised r) (InodeVolume.raised r') := by
  cases h with
  | ok v => exact .ok v
  | same e => exact .same (.failed e)
  | io e => exact .io e

theorem Told.error_bind {α β : Type} {e e' : Stop} (h : Told (.error e : Except Stop α) (.error e')) :
    Told (.error e : Except Stop β) (.error e') := by
  cases h with
  | same => exact .same e
  | io e' => exact .io e'

namespace VolumeM

variable {α β : Type} {x : VolumeM α} {f : α → VolumeM β}

/-- An action that can stand in for itself where only writes fail. -/
abbrev Faithful (x : VolumeM α) : Prop := Mimics Told x x

theorem Faithful.pure (v : α) : Faithful (Pure.pure v : VolumeM α) := Mimics.pure (.ok v)

theorem Faithful.throw (e : Stop) : Faithful (MonadExcept.throw e : VolumeM α) := Mimics.throw (.same e)

theorem Faithful.fail (e : Error) : Faithful (VolumeM.fail e : VolumeM α) := Faithful.throw (.failed e)

theorem Faithful.bind (hx : Faithful x) (hf : ∀ v, Faithful (f v)) : Faithful (x >>= f) := by
  refine Mimics.bind hx ?_ (fun _ _ h => h.error_bind) fun _ _ h => h.isOk_eq
  rintro v w ⟨⟩
  exact hf v

theorem Faithful.registry : Faithful VolumeM.registry := fun v =>
  ⟨[], .ok v.registry, .ok v.registry, rfl, fun _ _ hlike hl =>
    ⟨congrArg Except.ok hlike.registry, hlike, hl⟩⟩

theorem Faithful.changeRegistry (g : Registry → Registry) : Faithful (VolumeM.changeRegistry g) := fun _ =>
  ⟨[], .ok (), .ok (), rfl, fun _ _ hlike hl =>
    ⟨rfl, ⟨hlike.disk, hlike.space, congrArg g hlike.registry⟩, hl⟩⟩

theorem outcome_onDisk (x : SpaceMap → DiskM α) (v : Volume) :
    outcome (VolumeM.onDisk x) v = (raised (outcome (x v.space) v.disk).1,
       ⟨(outcome (x v.space) v.disk).2, v.space, v.registry⟩) := by
  obtain ⟨disk, space, registry⟩ := v
  simp only [outcome, VolumeM.onDisk]
  cases x space disk <;> rfl

theorem Faithful.onDisk {x : SpaceMap → DiskM α} (h : ∀ m, DiskM.Faithful (x m)) :
    Faithful (VolumeM.onDisk x) := by
  intro v
  obtain ⟨l, r, hrep, hread, hrest⟩ := h v.space v.disk
  rw [outcome_onDisk]
  refine ⟨l, raised r, ?_, hread, fun l' w hlike hl => ?_⟩
  · exact hrep.raised
  · obtain ⟨hr, hsame, hl'⟩ := hrest l' w.disk hlike.disk hl
    rw [outcome_onDisk, hlike.space, hr]
    exact ⟨rfl, ⟨hsame, rfl, hlike.registry⟩, hl'⟩

/-- A transfer is an action on the disk that does not fail. -/
theorem transfer_eq (x : DiskAction α) :
    VolumeM.transfer x = VolumeM.onDisk fun _ => DiskM.ofAction x := rfl

theorem Faithful.transfer {x : DiskAction α} (h : DiskM.Faithful (DiskM.ofAction x)) :
    Faithful (VolumeM.transfer x) := by
  rw [transfer_eq]
  exact Faithful.onDisk fun _ => h

theorem outcome_attempt (x : VolumeM α) (v : Volume) :
    outcome (VolumeM.attempt x) v = (handled (outcome x v).1, (outcome x v).2) := by
  simp only [outcome, VolumeM.attempt]
  cases x v with
  | ok a v => rfl
  | error e v => cases e <;> rfl

/-- Handling what `x` reports. -/
theorem Faithful.attempt (h : Faithful x) :
    Mimics (fun r r' => ∃ q q', Told q q' ∧ r = handled q ∧ r' = handled q') (VolumeM.attempt x)
      (VolumeM.attempt x) := by
  intro v
  obtain ⟨l, r, htold, hread, hrest⟩ := h v
  rw [outcome_attempt]
  refine ⟨l, handled r, ⟨_, _, htold, rfl, rfl⟩, hread, fun l' w hlike hl => ?_⟩
  obtain ⟨hr, hsame⟩ := hrest l' w hlike hl
  rw [outcome_attempt, hr]
  exact ⟨rfl, hsame⟩

/-- Going on from what `x` reports. -/
theorem Faithful.attemptBind {f : Except Error α → VolumeM β} (hx : Faithful x)
    (hf : ∀ q q', Reported q q' → Mimics Told (f q) (f q')) : Faithful (VolumeM.attempt x >>= f) := by
  -- What is told of a failure is caught on both sides alike; a misuse is caught on neither.
  refine Mimics.bind hx.attempt ?_ ?_ ?_
  · rintro v w ⟨q, q', htold, hq, hq'⟩
    cases htold with
    | ok a =>
      cases hq
      cases hq'
      exact hf _ _ (.ok a)
    | same e =>
      cases e <;> cases hq
      cases hq'
      exact hf _ _ (.same _)
    | io e =>
      cases hq
      cases hq'
      exact hf _ _ (.io e)
  · rintro e e' ⟨q, q', htold, hq, hq'⟩
    cases htold with
    | ok a => cases hq
    | same e =>
      cases e <;> cases hq
      cases hq'
      exact .same _
    | io e => cases hq
  · rintro r r' ⟨q, q', htold, rfl, rfl⟩
    cases htold with
    | ok a => rfl
    | same e => rfl
    | io e => rfl

theorem Faithful.ignoring {x : VolumeM Unit} (h : Faithful x) : Faithful (VolumeM.ignoring x) :=
  h.attemptBind fun _ _ _ => Faithful.pure ()

end VolumeM

/-! ## What is said of failing writes holds of failing reads -/

section Transfer

variable {ε σ α A : Type} [HoldsDisk σ] {R : A → σ → Prop} {a : A} {x : EStateM ε σ α}
  {Q : Except ε α → Except ε α → Prop} {post : Except ε α → A → Prop} {bad : Nat → Prop}

/-- The relation takes no account of how writes fail. -/
def Blind (R : A → σ → Prop) : Prop :=
  ∀ a s t, R a s → Like s t → (∀ n id, (disk t).faults.read n id = false) → R a t

/-- The state shows `a` but for failing reads, of blocks of `bad` only. -/
structure Partly (bad : Nat → Prop) (R : A → σ → Prop) (a : A) (s : σ) : Prop where
  shows : R a (scripted [] s)
  reads : ∀ n id, (disk s).faults.read n id = true → bad id

/-- An action that has a counterpart comes with failing reads to what it comes to with failing writes. -/
theorem Leads.of_mimics (hR : Blind R) (hx : Mimics Q x x) (h : Leads R a x post) :
    Leads (Partly bad R) a x fun r b => ∃ r', Q r r' ∧ post r' b := by
  intro s hs
  obtain ⟨l, r, hQ, hread, hrest⟩ := hx s
  have hl : (disk (scripted l s)).Scripted (l ++ []) := by
    rw [List.append_nil]
    exact HoldsDisk.scripted_scripted l s
  obtain ⟨hr, hlike, hl'⟩ := hrest [] _ (HoldsDisk.like_scripted l s) hl
  have hstart : R a (scripted l s) := hR a _ _ hs.shows
    (like_trans (like_symm (HoldsDisk.like_scripted [] s)) (HoldsDisk.like_scripted l s)) hl.read
  -- The state that is left differs from that of the counterpart in its faults only.
  have hend : ∀ b, R b (outcome x (scripted l s)).2 → Partly bad R b (outcome x s).2 := fun b hb =>
    ⟨hR b _ _ hb (like_trans (like_symm hlike) (HoldsDisk.like_scripted [] _))
        (HoldsDisk.scripted_scripted [] _).read,
      fun n id hn => hs.reads n id (by rwa [hread] at hn)⟩
  have hpost : ∃ b, R b (outcome x (scripted l s)).2 ∧ post r b := by
    rcases h.run hstart with ⟨v, s', b, hrun, hb, hp⟩ | ⟨e, s', b, hrun, hb, hp⟩
    · simp only [outcome, hrun] at hr ⊢
      exact ⟨b, hb, hr ▸ hp⟩
    · simp only [outcome, hrun] at hr ⊢
      exact ⟨b, hb, hr ▸ hp⟩
  obtain ⟨b, hb, hp⟩ := hpost
  have hlast := hend b hb
  unfold outcome at hQ hlast
  cases hrun : x s with
  | ok v s' =>
    rw [hrun] at hQ hlast
    exact ⟨b, hlast, r, hQ, hp⟩
  | error e s' =>
    rw [hrun] at hQ hlast
    exact ⟨b, hlast, r, hQ, hp⟩

end Transfer

end InodeVolume
