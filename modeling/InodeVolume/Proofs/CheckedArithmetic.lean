import InodeVolume.Volume.Basic

/-!
# Checked arithmetic

The definitions of this library compute with numbers of any size, and a place past the end of a table is one
that reads as zero. A machine has 64 bits for a number and no place past the end. A `Checked` action says what
becomes of it there: every sum, difference and product, every place of an array and every part of one is
checked, and an action whose check does not hold panics. A loop has a number of rounds that it must not use up.

A panic is neither a value nor an error that is reported, and nothing handles it. `Agrees T Q g x` says that
the checked action `g` does what the unchecked action `x` does, so that it never panics. There is one rule for
each way of composing actions, and one for loops (`Agrees.rounds`): the action that a loop comes to is given by
the state it begins with, and each round gives it by that of the next.
-/

namespace InodeVolume

/-! ## Panics -/

/-- Why a checked action breaks off. -/
inductive Panic where
  /-- A sum or a product has more than 64 bits. -/
  | overflow
  /-- A difference is negative, or a shift goes past the end of a word. -/
  | underflow
  /-- A number that is to be kept in 32 bits has more of them. -/
  | truncated
  /-- An array has no such place, or no such part. -/
  | outOfBounds
  /-- Bytes are copied to a place of another size. -/
  | unequalSizes
  /-- A loop has not ended in the rounds it was given. -/
  | unbounded
  deriving DecidableEq, Repr

/-- Why a checked action did not finish. -/
inductive Break (ε : Type) where
  | failed (error : ε)
  | panicked (cause : Panic)
  deriving DecidableEq, Repr

/-- An action whose arithmetic is checked. -/
abbrev Checked (ε σ : Type) := EStateM (Break ε) σ

/-- What one round of a loop comes to: the state of the next round, or the result. -/
inductive Round (β γ : Type) where
  | again (b : β)
  | done (c : γ)

namespace Checked

variable {ε δ σ α β γ : Type}

/-- Breaks off. -/
def stop (cause : Panic) : Checked ε σ α := throw (.panicked cause)

/-- Reports an error. -/
def fail (e : ε) : Checked ε σ α := throw (.failed e)

/-- An action in which there is nothing to check. -/
def plain (x : EStateM ε σ α) : Checked ε σ α := fun s =>
  match x s with
  | .ok a s => .ok a s
  | .error e s => .error (.failed e) s

/-- Runs `x` to its end and hands its outcome to the caller. A panic is not handed on. -/
def attempt (x : Checked ε σ α) : Checked δ σ (Except ε α) := fun s =>
  match x s with
  | .ok a s => .ok (.ok a) s
  | .error (.failed e) s => .ok (.error e) s
  | .error (.panicked cause) s => .error (.panicked cause) s

/-! ## Numbers -/

/-- A sum. -/
def add (a b : Nat) : Checked ε σ Nat := if a + b < UInt64.size then pure (a + b) else stop .overflow

/-- A sum, if it is one that a machine has. -/
def sum? (a b : Nat) : Option Nat := if a + b < UInt64.size then some (a + b) else none

/-- A difference. -/
def sub (a b : Nat) : Checked ε σ Nat := if b ≤ a then pure (a - b) else stop .underflow

/-- A product. -/
def mul (a b : Nat) : Checked ε σ Nat := if a * b < UInt64.size then pure (a * b) else stop .overflow

/-- A quotient rounded up. -/
def divUp (a b : Nat) : Checked ε σ Nat := if a % b = 0 then pure (a / b) else add (a / b) 1

/-- A number in 32 bits. -/
def narrow (a : Nat) : Checked ε σ UInt32 :=
  if a < UInt32.size then pure (UInt32.ofNat a) else stop .truncated

/-- A bit of a 64-bit word is asked for by shifting. -/
def shift (k : Nat) : Checked ε σ Unit := if k < 64 then pure () else stop .underflow

/-! ## Arrays -/

/-- Member `i` of an array with `n` members. -/
def item (n : Nat) (f : Nat → α) (i : Nat) : Checked ε σ α :=
  if i < n then pure (f i) else stop .outOfBounds

/-- Place `i` of an array with `n` places. -/
def place (n i : Nat) : Checked ε σ Unit := if i < n then pure () else stop .outOfBounds

/-- The part from `start` to `last` of an array with `n` members. -/
def part (n start last : Nat) : Checked ε σ Unit :=
  if start ≤ last ∧ last ≤ n then pure () else stop .outOfBounds

/-- Copying `n` bytes to a place of `m`. -/
def copy (n m : Nat) : Checked ε σ Unit := if n = m then pure () else stop .unequalSizes

/-- Room for a list of `n` block numbers, which must not take more than half of all addresses. -/
def room (n : Nat) : Checked ε σ Unit := if 4 * n < UInt64.size / 2 then pure () else stop .overflow

/-! ## Loops -/

/-- What follows a round: the next one, or nothing. -/
def follow (go : β → Checked ε σ γ) : Round β γ → Checked ε σ γ
  | .again b => go b
  | .done c => pure c

/-- Carries out `body` round after round, at most a given number of times. -/
def rounds (body : β → Checked ε σ (Round β γ)) : Nat → β → Checked ε σ γ
  | 0, _ => stop .unbounded
  | n + 1, b => body b >>= follow (rounds body n)

/-- Carries out `body` for `n` numbers from `i` on, unless it ends the loop before. -/
def steps (body : Nat → β → Checked ε σ (Round β γ)) (i : Nat) : Nat → β → Checked ε σ (Round β γ)
  | 0, b => pure (.again b)
  | n + 1, b => body i b >>= fun r =>
    match r with
    | .again b => steps body (i + 1) n b
    | .done c => pure (.done c)

/-! ## Checks that hold -/

section Checks

variable {a b n m start last k : Nat}

theorem add_eq (h : a + b < UInt64.size) : (add a b : Checked ε σ Nat) = pure (a + b) := if_pos h

theorem sub_eq (h : b ≤ a) : (sub a b : Checked ε σ Nat) = pure (a - b) := if_pos h

theorem mul_eq (h : a * b < UInt64.size) : (mul a b : Checked ε σ Nat) = pure (a * b) := if_pos h

/-- Rounding up adds less than one divisor before dividing. -/
theorem divUp_eq (hb : 1 < b) (ha : a < UInt64.size) :
    (divUp a b : Checked ε σ Nat) = pure ((a + (b - 1)) / b) := by
  have hdiv := Nat.div_add_mod' a b
  have hmod := Nat.mod_lt a (Nat.zero_lt_of_lt hb)
  unfold divUp
  split
  · rename_i hexact
    have hquot : (a + (b - 1)) / b = a / b :=
      Nat.div_eq_of_lt_le (by omega) (by rw [Nat.succ_mul]; omega)
    rw [hquot]
  · rename_i hrest
    -- The quotient is smaller than the number, so there is room for one more.
    have hquot : (a + (b - 1)) / b = a / b + 1 :=
      Nat.div_eq_of_lt_le (by rw [Nat.succ_mul]; omega) (by rw [Nat.succ_mul, Nat.succ_mul]; omega)
    have hless : a / b < a := Nat.div_lt_self (Nat.pos_of_ne_zero fun h0 => hrest (by simp [h0])) hb
    rw [hquot, add_eq (by omega)]

theorem narrow_eq (h : a < UInt32.size) : (narrow a : Checked ε σ UInt32) = pure (UInt32.ofNat a) := if_pos h

theorem shift_eq (h : k < 64) : (shift k : Checked ε σ Unit) = pure () := if_pos h

theorem item_eq {f : Nat → α} (h : k < n) : (item n f k : Checked ε σ α) = pure (f k) := if_pos h

theorem place_eq (h : k < n) : (place n k : Checked ε σ Unit) = pure () := if_pos h

theorem part_eq (h : start ≤ last) (hn : last ≤ n) : (part n start last : Checked ε σ Unit) = pure () :=
  if_pos ⟨h, hn⟩

theorem copy_eq (h : n = m) : (copy n m : Checked ε σ Unit) = pure () := if_pos h

theorem room_eq (h : 4 * n < UInt64.size / 2) : (room n : Checked ε σ Unit) = pure () := if_pos h

end Checks

@[simp] theorem fail_bind (e : ε) (k : α → Checked ε σ β) : fail e >>= k = fail e := rfl

@[simp] theorem follow_again (go : β → Checked ε σ γ) (b : β) : follow go (.again b) = go b := rfl

@[simp] theorem follow_done (go : β → Checked ε σ γ) (c : γ) : follow go (.done c) = pure c := rfl

/-- What follows a loop over numbers follows its first step and then the others. -/
theorem steps_follow (body : Nat → β → Checked ε σ (Round β γ)) (i n : Nat) (b : β) (go : β → Checked ε σ γ) :
    steps body i (n + 1) b >>= follow go =
      body i b >>= follow fun b => steps body (i + 1) n b >>= follow go := by
  rw [steps, bind_assoc]
  refine bind_congr fun r => ?_
  cases r with
  | again b => rfl
  | done c => rw [pure_bind]; rfl

end Checked

/-! ## Agreement with unchecked actions -/

/-- What is known of the states between two steps, and of the errors that are reported. -/
structure Terms (ε σ : Type) where
  state : σ → Prop
  error : ε → Prop

/-- Nothing is known. -/
def Terms.any {ε σ : Type} : Terms ε σ := ⟨fun _ => True, fun _ => True⟩

section Agreement

variable {ε δ σ α β γ : Type} {T : Terms ε σ} {P : α → Prop} {Q : β → Prop} {c : Prop} [Decidable c]

/-- On these terms the checked action `g` does what `x` does, and `P` holds of what it answers. -/
def Agrees (T : Terms ε σ) (P : α → Prop) (g : Checked ε σ α) (x : EStateM ε σ α) : Prop :=
  ∀ s, T.state s → g s = Checked.plain x s ∧
    match x s with
    | .ok a s' => T.state s' ∧ P a
    | .error e s' => T.state s' ∧ T.error e

/-- From every state the checked action `g` does what `x` does. -/
abbrev Follows (g : Checked ε σ α) (x : EStateM ε σ α) : Prop := Agrees .any (fun _ => True) g x

namespace Agrees

variable {g : Checked ε σ α} {x : EStateM ε σ α} {k : α → Checked ε σ β} {f : α → EStateM ε σ β}

theorem pure {a : α} (h : P a) : Agrees T P (Pure.pure a) (Pure.pure a) :=
  fun _ hs => ⟨rfl, hs, h⟩

theorem fail {e : ε} (h : T.error e) : Agrees T P (Checked.fail e) (throw e) :=
  fun _ hs => ⟨rfl, hs, h⟩

/-- An error is reported where the unchecked action reports it without having done anything. -/
theorem fail_of {e : ε} (h : T.error e) (hx : ∀ s, T.state s → x s = .error e s) :
    Agrees T P (Checked.fail e) x := by
  intro s hs
  simp only [Checked.plain, hx s hs]
  exact ⟨rfl, hs, h⟩

/-- An action that keeps to the terms needs no check. -/
theorem plain (h : ∀ s, T.state s → match x s with
    | .ok a s' => T.state s' ∧ P a
    | .error e s' => T.state s' ∧ T.error e) : Agrees T P (Checked.plain x) x :=
  fun s hs => ⟨rfl, h s hs⟩

theorem bind (hx : Agrees T P g x) (hf : ∀ a, P a → Agrees T Q (k a) (f a)) :
    Agrees T Q (g >>= k) (x >>= f) := by
  intro s hs
  obtain ⟨heq, hpost⟩ := hx s hs
  simp only [Bind.bind, EStateM.bind, Checked.plain, heq]
  cases hr : x s with
  | ok a s' =>
    rw [hr] at hpost
    exact hf a hpost.2 s' hpost.1
  | error e s' =>
    rw [hr] at hpost
    exact ⟨rfl, hpost⟩

/-- A check that holds is passed over. -/
theorem check {g : Checked ε σ γ} {a : γ} {k : γ → Checked ε σ α} (hg : g = Pure.pure a)
    (h : Agrees T P (k a) x) : Agrees T P (g >>= k) x := by
  rw [hg, pure_bind]
  exact h

theorem ite {g' : Checked ε σ α} {x' : EStateM ε σ α} (hthen : c → Agrees T P g x)
    (helse : ¬c → Agrees T P g' x') : Agrees T P (if c then g else g') (if c then x else x') := by
  split
  · exact hthen ‹_›
  · exact helse ‹_›

/-- What follows a choice is the same after both. -/
theorem iteBind {x' : EStateM ε σ α} (hx : Agrees T P g (if c then x else x'))
    (hf : ∀ a, P a → Agrees T Q (k a) (f a)) :
    Agrees T Q (g >>= k) (if c then x >>= f else x' >>= f) := by
  rw [← apply_ite (· >>= f)]
  exact hx.bind hf

theorem mono {P' : α → Prop} (h : Agrees T P g x) (hP : ∀ a, P a → P' a) : Agrees T P' g x := by
  intro s hs
  obtain ⟨heq, hpost⟩ := h s hs
  refine ⟨heq, ?_⟩
  cases hr : x s with
  | ok a s' =>
    rw [hr] at hpost
    exact ⟨hpost.1, hP a hpost.2⟩
  | error e s' =>
    rw [hr] at hpost
    exact hpost

/-- What else is known of the answers of the unchecked action may be used. -/
theorem gives {P' : α → Prop} (h : Agrees T P g x)
    (hx : ∀ s, T.state s → ∀ a s', x s = .ok a s' → P' a) : Agrees T P' g x := by
  intro s hs
  obtain ⟨heq, hpost⟩ := h s hs
  refine ⟨heq, ?_⟩
  cases hr : x s with
  | ok a s' =>
    rw [hr] at hpost
    exact ⟨hpost.1, hx s hs a s' hr⟩
  | error e s' =>
    rw [hr] at hpost
    exact hpost

/-- Carrying out an action for each member of a list, with what came of those before. -/
theorem foldlM {l : List γ} {k : β → γ → Checked ε σ β} {f : β → γ → EStateM ε σ β}
    (h : ∀ b, ∀ c ∈ l, Q b → Agrees T Q (k b c) (f b c)) {b : β} (hb : Q b) :
    Agrees T Q (l.foldlM k b) (l.foldlM f b) := by
  induction l generalizing b with
  | nil => exact pure hb
  | cons c l ih =>
    simp only [List.foldlM_cons]
    apply bind (h b c (List.mem_cons_self ..) hb)
    intro b' hb'
    exact ih (fun b d hd => h b d (List.mem_cons_of_mem c hd)) hb'

theorem mapM {l : List γ} {k : γ → Checked ε σ β} {f : γ → EStateM ε σ β}
    (h : ∀ c ∈ l, Agrees T (fun _ => True) (k c) (f c)) :
    Agrees T (fun _ => True) (l.mapM k) (l.mapM f) := by
  induction l with
  | nil => exact pure trivial
  | cons c l ih =>
    simp only [List.mapM_cons]
    apply bind (h c (List.mem_cons_self ..))
    intro b _
    apply bind (ih fun d hd => h d (List.mem_cons_of_mem c hd))
    intro bs _
    exact pure trivial

/-- A loop comes to what `f` makes of its state: in each round, if it does so for every state that the
invariant `I` holds of and that is smaller by the measure `μ`. It then ends in as many rounds as the measure
says and one more. -/
theorem rounds {body : α → Checked ε σ (Round α β)} (I : α → Prop) (μ : α → Nat)
    (hbody : ∀ a go, I a → (∀ b, I b → μ b < μ a → Agrees T Q (go b) (f b)) →
      Agrees T Q (body a >>= Checked.follow go) (f a)) :
    ∀ {n : Nat} {a : α}, I a → μ a < n → Agrees T Q (Checked.rounds body n a) (f a) := by
  -- By induction on the rounds that are allowed: the measure says that one more is left for each state.
  intro n
  induction n with
  | zero =>
    intro a _ hn
    exact absurd hn (Nat.not_lt_zero _)
  | succ n ih =>
    intro a ha hn
    apply hbody a _ ha
    intro b hb hless
    exact ih hb (by omega)

/-- A loop over numbers, where `I` holds of the number and the state before each step. -/
theorem steps {body : Nat → γ → Checked ε σ (Round γ β)} {f : Nat → γ → EStateM ε σ β} {go : γ → Checked ε σ β}
    {last : Nat} (I : Nat → γ → Prop)
    (hbody : ∀ i c go, i < last → I i c → (∀ d, I (i + 1) d → Agrees T Q (go d) (f (i + 1) d)) →
      Agrees T Q (body i c >>= Checked.follow go) (f i c))
    (hgo : ∀ c, I last c → Agrees T Q (go c) (f last c)) {n : Nat} :
    ∀ {i : Nat} {c : γ}, i + n = last → I i c → Agrees T Q (Checked.steps body i n c >>= Checked.follow go) (f i c) := by
  induction n with
  | zero =>
    rintro i c rfl hi
    rw [Checked.steps, pure_bind]
    exact hgo c hi
  | succ n ih =>
    intro i c hlast hi
    rw [Checked.steps_follow]
    apply hbody i c _ (by omega) hi
    intro d hd
    exact ih (by omega) hd

end Agrees

namespace Follows

variable {g : Checked ε σ α} {x : EStateM ε σ α}

theorem plain (x : EStateM ε σ α) : Follows (Checked.plain x) x := by
  intro s _
  refine ⟨rfl, ?_⟩
  cases x s <;> exact ⟨trivial, trivial⟩

theorem fail {e : ε} : Agrees .any P (Checked.fail e : Checked ε σ α) (throw e) := Agrees.fail trivial

/-- The outcome of an action is handed on as it is. -/
theorem attempt (h : Agrees .any P g x) : Agrees .any (fun r => ∀ a, r = .ok a → P a)
    (Checked.attempt g : Checked δ σ (Except ε α)) (InodeVolume.attempt x) := by
  intro s hs
  obtain ⟨heq, hpost⟩ := h s hs
  simp only [Checked.attempt, Checked.plain, InodeVolume.attempt, heq]
  cases hr : x s with
  | ok a s' =>
    rw [hr] at hpost
    refine ⟨rfl, trivial, fun b hb => ?_⟩
    cases hb
    exact hpost.2
  | error e s' => exact ⟨rfl, trivial, fun b hb => by cases hb⟩

end Follows

end Agreement

end InodeVolume
