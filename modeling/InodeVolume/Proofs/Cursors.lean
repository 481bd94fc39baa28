import InodeVolume.Proofs.Normalization

/-!
# Taking components off a path

A cursor is asked whether a component is left and for the next component, in any order. To an observer it is a
list of which the first member is taken off at a time, and the list is that of the pieces between the separators
of the path, the empty ones left out.

Main statement: a cursor at the start of a path answers all questions as that list does, and goes on saying that
nothing is left after its end (`answers_ofPath`).
-/

namespace InodeVolume

namespace Path

/-- The pieces that the separators of a path cut it into, but the empty ones. -/
def segments (path : String) : List (List Char) := (path.toList.splitOn separator).filter (· ≠ [])

/-! ## Questions and answers -/

/-- What can be asked while components are taken off. -/
inductive Question where
  | hasNext
  | next
  deriving DecidableEq

/-- What is answered. -/
inductive Answer where
  | hasNext (left : Bool)
  | next (word : Option (List Char))
  deriving DecidableEq

/-- The answers that a list gives from which the first member is taken off at a time. -/
def listed (words : List (List Char)) : List Question → List Answer
  | [] => []
  | .hasNext :: rest => .hasNext (!words.isEmpty) :: listed words rest
  | .next :: rest => .next words.head? :: listed words.tail rest

namespace Cursor

/-- The answers of a cursor. It is moved by taking a component off, and not by looking for one. -/
def answers (c : Cursor) : List Question → List Answer
  | [] => []
  | .hasNext :: rest => .hasNext c.hasNext :: c.answers rest
  | .next :: rest => .next c.next.1 :: c.next.2.answers rest

/-- The cursor after `n` components have been asked for. -/
def after (c : Cursor) : Nat → Cursor
  | 0 => c
  | n + 1 => (c.after n).next.2

/-! ## Cursors as lists -/

theorem hasNext_eq (c : Cursor) : c.hasNext = !c.toList.isEmpty := by
  cases h : c.trimmed with
  | nil => simp [hasNext, h, toList_of_nil h]
  | cons a t => simp [hasNext, h, toList_of_cons h]

/-- The next component is the first of those that are left. -/
theorem next_fst (c : Cursor) : c.next.1 = c.toList.head? := by
  cases h : c.trimmed with
  | nil => simp [next, h, toList_of_nil h]
  | cons a t => simp [next, h, toList_of_cons h]

/-- The others are left behind it. -/
theorem toList_next (c : Cursor) : c.next.2.toList = c.toList.tail := by
  cases h : c.trimmed with
  | nil =>
    have hend : trimmed ⟨[]⟩ = [] := rfl
    simp [next, h, toList_of_nil h, toList_of_nil hend]
  | cons a t => simp [next, h, toList_of_cons h]

theorem toList_after (c : Cursor) (n : Nat) : (c.after n).toList = c.toList.drop n := by
  induction n with
  | zero => rfl
  | succ n ih => rw [after, toList_next, ih, List.tail_drop]

/-- The components that are left are all that can be learnt from a cursor. -/
theorem answers_eq (c : Cursor) (questions : List Question) :
    c.answers questions = listed c.toList questions := by
  -- A question for the next component moves the cursor, and the list along with it.
  induction questions generalizing c with
  | nil => rfl
  | cons q rest ih =>
    cases q with
    | hasNext => rw [answers, listed, hasNext_eq, ih]
    | next => rw [answers, listed, next_fst, ih, toList_next]

/-- The components of a path are its pieces but the empty ones. -/
theorem toList_ofPath (path : String) : (ofPath path).toList = segments path := by
  have h := congrArg (List.map String.toList) (components_eq_filter path)
  simpa [components, pieces, segments, List.filter_map, Function.comp_def] using h

end Cursor

/-- From the start of a path on, the segments of the path are answered one after the other and then, for ever,
that there is none. Whenever it is asked, there is said to be a next one exactly if one would be answered, and
asking so, however often, changes no later answer. -/
theorem answers_ofPath (path : String) :
    (∀ n, ((Cursor.ofPath path).after n).next.1 = (segments path)[n]?) ∧
      (∀ n, ((Cursor.ofPath path).after n).hasNext = true ↔
        ((Cursor.ofPath path).after n).next.1.isSome = true) ∧
      ∀ questions, (Cursor.ofPath path).answers questions = listed (segments path) questions := by
  refine ⟨fun n => ?_, fun n => ?_, fun questions => ?_⟩
  · rw [Cursor.next_fst, Cursor.toList_after, Cursor.toList_ofPath, List.head?_drop]
  · rw [Cursor.hasNext_eq, Cursor.next_fst]
    cases ((Cursor.ofPath path).after n).toList <;> simp
  · rw [Cursor.answers_eq, Cursor.toList_ofPath]

end Path

end InodeVolume
