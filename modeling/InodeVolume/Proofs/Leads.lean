import InodeVolume.Volume.Basic
import Mathlib.Tactic.Common

/-!
# Actions seen through an abstraction

An action works on a concrete state: a disk, a volume. What is worth saying about it is said in terms of
an abstract state that a relation ties to the concrete one. `Leads R a x post` says: whenever `x` is run
from a state that shows `a`, it ends, with a value or an error, in a state that shows some `b`, and
`post` holds of the outcome and `b`.

The outcome is kept as one `Except` value, so an action that handles the failure of another one is
treated like any other.
-/

namespace InodeVolume

section Rules

variable {ε δ σ α β A : Type} {R : A → σ → Prop} {a b : A}

/-- From every state that shows `a`, the action `x` comes to an outcome and a state that shows some
abstract state, and `post` holds of both. -/
def Leads (R : A → σ → Prop) (a : A) (x : EStateM ε σ α) (post : Except ε α → A → Prop) : Prop :=
  ∀ s, R a s →
    match x s with
    | .ok v s' => ∃ b, R b s' ∧ post (.ok v) b
    | .error e s' => ∃ b, R b s' ∧ post (.error e) b

/-- The action `x` leads from `a` to `b` with the value `v`, whatever else is true. -/
def Yields (R : A → σ → Prop) (a : A) (x : EStateM ε σ α) (v : α) (b : A) : Prop :=
  Leads R a x fun r c => r = .ok v ∧ c = b

/-- The action `x` comes to a value of which `P` holds and leaves the abstract state as it is. -/
def Answers (R : A → σ → Prop) (a : A) (x : EStateM ε σ α) (P : α → Prop) : Prop :=
  Leads R a x fun r b => (∃ v, r = .ok v ∧ P v) ∧ b = a

/-- What leads to one thing leads to whatever follows from it. -/
theorem Leads.mono {x : EStateM ε σ α} {post post' : Except ε α → A → Prop}
    (h : Leads R a x post) (hp : ∀ r b, post r b → post' r b) : Leads R a x post' := by
  intro s hs
  have hx := h s hs
  cases hr : x s with
  | ok v s' =>
    rw [hr] at hx
    obtain ⟨b, hb, hpost⟩ := hx
    exact ⟨b, hb, hp _ _ hpost⟩
  | error e s' =>
    rw [hr] at hx
    obtain ⟨b, hb, hpost⟩ := hx
    exact ⟨b, hb, hp _ _ hpost⟩

/-- That some concrete state shows `a` may be used. -/
theorem Leads.of_shown {x : EStateM ε σ α} {post : Except ε α → A → Prop}
    (h : ∀ s, R a s → Leads R a x post) : Leads R a x post :=
  fun s hs => h s hs s hs

/-- A state may be seen as another abstract state first. -/
theorem Leads.of_view {c : A} {x : EStateM ε σ α} {post : Except ε α → A → Prop}
    (h : ∀ s, R a s → R c s) (hx : Leads R c x post) : Leads R a x post :=
  fun s hs => hx s (h s hs)

theorem Leads.pure {v : α} {post : Except ε α → A → Prop} (h : post (.ok v) a) :
    Leads R a (pure v : EStateM ε σ α) post :=
  fun _ hs => ⟨a, hs, h⟩

theorem Leads.throw {e : ε} {post : Except ε α → A → Prop} (h : post (.error e) a) :
    Leads R a (throw e : EStateM ε σ α) post :=
  fun _ hs => ⟨a, hs, h⟩

/-- What leads on from each outcome of the first action leads on from both. -/
theorem Leads.bind {x : EStateM ε σ α} {f : α → EStateM ε σ β}
    {M : Except ε α → A → Prop} {post : Except ε β → A → Prop} (hx : Leads R a x M)
    (hok : ∀ v b, M (.ok v) b → Leads R b (f v) post)
    (herr : ∀ e b, M (.error e) b → post (.error e) b) : Leads R a (x >>= f) post := by
  intro s hs
  have hx := hx s hs
  -- The second action runs only if the first has a value.
  cases hr : x s with
  | ok v s' =>
    rw [hr] at hx
    obtain ⟨b, hb, hmid⟩ := hx
    have hf := hok v b hmid s' hb
    simpa only [Bind.bind, EStateM.bind, hr] using hf
  | error e s' =>
    rw [hr] at hx
    obtain ⟨b, hb, hmid⟩ := hx
    simpa only [Bind.bind, EStateM.bind, hr] using ⟨b, hb, herr e b hmid⟩

/-- What follows an error is not carried out. -/
theorem Leads.throwBind {e : ε} {f : α → EStateM ε σ β} {post : Except ε β → A → Prop}
    (h : post (.error e) a) : Leads R a ((MonadExcept.throw e : EStateM ε σ α) >>= f) post :=
  Leads.bind (M := fun r b => r = .error e ∧ b = a) (Leads.throw ⟨rfl, rfl⟩)
    (fun _ _ hr => by cases hr.1) fun _ _ hr => by cases hr.1; exact hr.2 ▸ h

theorem Yields.bind {x : EStateM ε σ α} {v : α} {f : α → EStateM ε σ β}
    {post : Except ε β → A → Prop} (hx : Yields R a x v b) (hf : Leads R b (f v) post) :
    Leads R a (x >>= f) post := by
  refine Leads.bind hx ?_ ?_
  · rintro w c ⟨hw, rfl⟩
    cases hw
    exact hf
  · rintro e c ⟨he, -⟩
    cases he

theorem Answers.bind {x : EStateM ε σ α} {P : α → Prop} {f : α → EStateM ε σ β}
    {post : Except ε β → A → Prop} (hx : Answers R a x P) (hf : ∀ v, P v → Leads R a (f v) post) :
    Leads R a (x >>= f) post := by
  refine Leads.bind hx ?_ ?_
  · rintro v b ⟨⟨w, hw, hP⟩, rfl⟩
    cases hw
    exact hf v hP
  · rintro e b ⟨⟨w, hw, -⟩, -⟩
    cases hw

theorem Answers.pure {v : α} {P : α → Prop} (h : P v) :
    Answers R a (Pure.pure v : EStateM ε σ α) P :=
  Leads.pure ⟨⟨v, rfl, h⟩, rfl⟩

theorem Yields.pure {v : α} : Yields R a (pure v : EStateM ε σ α) v a :=
  Leads.pure ⟨rfl, rfl⟩

theorem Yields.trans {x : EStateM ε σ α} {v : α} {f : α → EStateM ε σ β} {w : β} {c : A}
    (hx : Yields R a x v b) (hf : Yields R b (f v) w c) : Yields R a (x >>= f) w c :=
  Yields.bind hx hf

theorem Yields.map {x : EStateM ε σ α} {v : α} {f : α → β}
    (hx : Yields R a x v b) : Yields R a (x >>= fun v => Pure.pure (f v)) (f v) b :=
  Yields.bind hx Yields.pure

/-- Carrying out an action for each member of a list. -/
theorem Yields.mapM {f : β → EStateM ε σ α} {g : β → α} {l : List β}
    (h : ∀ p ∈ l, Yields R a (f p) (g p) a) : Yields R a (l.mapM f) (l.map g) a := by
  induction l with
  | nil => exact Yields.pure
  | cons p l ih =>
    rw [List.mapM_cons]
    refine Yields.trans (h p (List.mem_cons_self ..)) ?_
    exact Yields.trans (ih fun q hq => h q (List.mem_cons_of_mem p hq)) Yields.pure

theorem Yields.leads {x : EStateM ε σ α} {v : α} {post : Except ε α → A → Prop}
    (hx : Yields R a x v b) (h : post (.ok v) b) : Leads R a x post := by
  refine Leads.mono hx ?_
  rintro r c ⟨rfl, rfl⟩
  exact h

theorem Leads.attempt {x : EStateM ε σ α} {post : Except δ (Except ε α) → A → Prop}
    (h : Leads R a x fun r b => post (.ok r) b) :
    Leads R a (InodeVolume.attempt x : EStateM δ σ (Except ε α)) post := by
  intro s hs
  have hx := h s hs
  cases hr : x s with
  | ok v s' =>
    rw [hr] at hx
    simpa only [InodeVolume.attempt, hr] using hx
  | error e s' =>
    rw [hr] at hx
    simpa only [InodeVolume.attempt, hr] using hx

/-- Going on from the outcome of an action, whatever it is. -/
theorem Leads.attemptBind {x : EStateM ε σ α} {f : Except ε α → EStateM δ σ β}
    {mid : Except ε α → A → Prop} {post : Except δ β → A → Prop} (hx : Leads R a x mid)
    (hf : ∀ r b, mid r b → Leads R b (f r) post) :
    Leads R a ((InodeVolume.attempt x : EStateM δ σ (Except ε α)) >>= f) post := by
  refine Leads.bind (M := fun r b => ∃ r', r = .ok r' ∧ mid r' b)
    (Leads.attempt (Leads.mono hx fun r b hr => ⟨r, rfl, hr⟩)) ?_ ?_
  · rintro r b ⟨r', hr, hmid⟩
    cases hr
    exact hf r b hmid
  · rintro e b ⟨r', he, -⟩
    cases he

theorem Leads.resume {r : Except ε α} {post : Except ε α → A → Prop} (h : post r a) :
    Leads R a (InodeVolume.resume r : EStateM ε σ α) post := by
  cases r with
  | ok v => exact Leads.pure h
  | error e => exact Leads.throw h

end Rules

section Runs

variable {ε σ α A : Type} {R : A → σ → Prop} {a b : A}

/-- What a run comes to, with the two outcomes told apart. -/
theorem Leads.run {x : EStateM ε σ α} {post : Except ε α → A → Prop} (h : Leads R a x post) {s : σ}
    (hs : R a s) : (∃ v s' b, x s = .ok v s' ∧ R b s' ∧ post (.ok v) b) ∨
      (∃ e s' b, x s = .error e s' ∧ R b s' ∧ post (.error e) b) := by
  have hx := h s hs
  cases hr : x s with
  | ok v s' =>
    rw [hr] at hx
    obtain ⟨b, hb, hpost⟩ := hx
    exact .inl ⟨v, s', b, rfl, hb, hpost⟩
  | error e s' =>
    rw [hr] at hx
    obtain ⟨b, hb, hpost⟩ := hx
    exact .inr ⟨e, s', b, rfl, hb, hpost⟩

theorem Yields.run {x : EStateM ε σ α} {v : α} (h : Yields R a x v b) {s : σ} (hs : R a s) :
    ∃ s', x s = .ok v s' ∧ R b s' := by
  rcases Leads.run h hs with ⟨w, s', c, hr, hc, hw, rfl⟩ | ⟨e, s', c, -, -, he, -⟩
  · cases hw
    exact ⟨s', hr, hc⟩
  · cases he

end Runs

/-! ## Actions that cannot fail -/

section Replies

variable {σ α β A : Type} {R : A → σ → Prop} {a : A}

/-- From every state that shows `a`, the action `x` comes to a value and a state that shows some
abstract state, and `post` holds of both. -/
def Replies (R : A → σ → Prop) (a : A) (x : StateM σ α) (post : α → A → Prop) : Prop :=
  ∀ s, R a s → ∃ v s' b, x s = (v, s') ∧ R b s' ∧ post v b

theorem Replies.pure {v : α} {post : α → A → Prop} (h : post v a) :
    Replies R a (pure v : StateM σ α) post :=
  fun s hs => ⟨v, s, a, rfl, hs, h⟩

theorem Replies.bind {x : StateM σ α} {f : α → StateM σ β} {mid : α → A → Prop}
    {post : β → A → Prop} (hx : Replies R a x mid)
    (hf : ∀ v b, mid v b → Replies R b (f v) post) : Replies R a (x >>= f) post := by
  intro s hs
  obtain ⟨v, s', b, hr, hb, hmid⟩ := hx s hs
  obtain ⟨w, s'', c, hr', hc, hpost⟩ := hf v b hmid s' hb
  refine ⟨w, s'', c, ?_, hc, hpost⟩
  simp only [Bind.bind, StateT.bind, hr]
  exact hr'

theorem Replies.mono {x : StateM σ α} {post post' : α → A → Prop} (h : Replies R a x post)
    (hp : ∀ v b, post v b → post' v b) : Replies R a x post' := by
  intro s hs
  obtain ⟨v, s', b, hr, hb, hpost⟩ := h s hs
  exact ⟨v, s', b, hr, hb, hp v b hpost⟩

/-- The action `x` replies with `v` and leaves the abstract state as it is. -/
def Tells (R : A → σ → Prop) (a : A) (x : StateM σ α) (v : α) : Prop :=
  Replies R a x fun w b => w = v ∧ b = a

theorem Tells.pure {v : α} : Tells R a (pure v : StateM σ α) v := Replies.pure ⟨rfl, rfl⟩

theorem Tells.bind {x : StateM σ α} {v : α} {f : α → StateM σ β} {post : β → A → Prop}
    (hx : Tells R a x v) (hf : Replies R a (f v) post) : Replies R a (x >>= f) post := by
  refine Replies.bind hx ?_
  rintro w b ⟨rfl, rfl⟩
  exact hf

end Replies

/-! ## Handling reported errors of a volume -/

section Volume

variable {α A : Type} {R : A → Volume → Prop} {a : A}

/-- What handling the reported errors makes of an outcome. A misuse is not handled. -/
def handled {α : Type} : Except Stop α → Except Stop (Except Error α)
  | .ok v => .ok (.ok v)
  | .error (.failed e) => .ok (.error e)
  | .error (.misused rule) => .error (.misused rule)

theorem Leads.fail {e : Error} {post : Except Stop α → A → Prop} (h : post (.error (.failed e)) a) :
    Leads R a (VolumeM.fail e) post :=
  Leads.throw h

/-- What follows a reported error is not carried out. -/
theorem Leads.failBind {β : Type} {e : Error} {f : α → VolumeM β} {post : Except Stop β → A → Prop}
    (h : post (.error (.failed e)) a) : Leads R a (VolumeM.fail e >>= f) post :=
  Leads.throwBind h

/-- An attempt hands on what the action comes to, with an error as a value. -/
theorem Leads.attemptVolume {x : VolumeM α} {Q : Except Stop (Except Error α) → A → Prop}
    (h : Leads R a x fun r b => Q (handled r) b) : Leads R a (VolumeM.attempt x) Q := by
  intro v hv
  have hx := h v hv
  unfold VolumeM.attempt
  cases hr : x v with
  | ok w v' =>
    rw [hr] at hx
    exact hx
  | error e v' =>
    rw [hr] at hx
    cases e with
    | failed e => exact hx
    | misused rule => exact hx

/-- An outcome that is not a misuse. -/
def Sober {α : Type} (r : Except Stop α) : Prop := ∀ rule, r ≠ .error (.misused rule)

theorem sober_ok {v : α} : Sober (.ok v : Except Stop α) := fun _ h => by cases h

theorem sober_failed {e : Error} : Sober (.error (.failed e) : Except Stop α) := fun _ h => by cases h

/-- Going on from the outcome of an action that breaks no rule. -/
theorem Leads.attemptVolumeBind {β : Type} {x : VolumeM α} {f : Except Error α → VolumeM β}
    {mid : Except Stop α → A → Prop} {post : Except Stop β → A → Prop} (hx : Leads R a x mid)
    (hsober : ∀ r b, mid r b → Sober r) (hok : ∀ v b, mid (.ok v) b → Leads R b (f (.ok v)) post)
    (herr : ∀ e b, mid (.error (.failed e)) b → Leads R b (f (.error e)) post) :
    Leads R a (VolumeM.attempt x >>= f) post := by
  refine Leads.bind (M := fun r b => ∃ r', r = handled r' ∧ mid r' b)
    (Leads.attemptVolume (Leads.mono hx fun r b hr => ⟨r, rfl, hr⟩)) ?_ ?_
  · rintro r b ⟨r', hr, hmid⟩
    -- A broken rule is not caught, and does not occur here.
    rcases r' with (e | rule) | v
    · cases hr
      exact herr e b hmid
    · cases hr
    · cases hr
      exact hok v b hmid
  · rintro e b ⟨r', hr, hmid⟩
    rcases r' with (e | rule) | v
    · cases hr
    · exact absurd rfl (hsober _ b hmid rule)
    · cases hr

theorem Leads.ignoring {x : VolumeM Unit} {post : A → Prop}
    (h : Leads R a x fun r b => Sober r ∧ post b) :
    Leads R a (VolumeM.ignoring x) fun r b => r = .ok () ∧ post b :=
  Leads.attemptVolumeBind h (fun _ _ hr => hr.1) (fun _ _ hr => Leads.pure ⟨rfl, hr.2⟩)
    fun _ _ hr => Leads.pure ⟨rfl, hr.2⟩

/-- An action and what is done after it in any case. -/
theorem Leads.andThen {x : VolumeM α} {cleanup : VolumeM Unit} {mid post : Except Stop α → A → Prop}
    (hx : Leads R a x mid) (hsober : ∀ r b, mid r b → Sober r)
    (hclean : ∀ r b, mid r b → Leads R b cleanup fun u c => u = .ok () ∧ post r c) :
    Leads R a (x.andThen cleanup) post := by
  refine Leads.attemptVolumeBind hx hsober (fun v b hmid => ?_) fun e b hmid => ?_
  · refine Leads.bind (hclean _ b hmid) (fun u c hc => Leads.pure hc.2) fun e c hc => by cases hc.1
  · refine Leads.bind (hclean _ b hmid) (fun u c hc => Leads.fail hc.2) fun e c hc => by cases hc.1

end Volume

end InodeVolume
