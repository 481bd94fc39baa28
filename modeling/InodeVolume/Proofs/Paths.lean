import InodeVolume.Path
import InodeVolume.Proofs.Slots
import Mathlib.Data.List.TakeWhile

/-!
# Components and leaves

An absolute path is cut behind its last separator into a parent and a leaf. Walking to the whole path is
walking to the parent and then following the leaf (`components_append`), since the parent ends with a
separator or is empty (`parentPart_closed`) and the leaf has none (`leafPart_word`).
-/

namespace InodeVolume

namespace Path

/-- Nothing can be added to the last component of this text, because a separator follows it. -/
def Closed (l : List Char) : Prop := l = [] ∨ ∃ l', l = l' ++ [separator]

/-- A text without separators. -/
def Word (l : List Char) : Prop := ∀ c ∈ l, isSeparator c = false

instance (l : List Char) : Decidable (Word l) := List.decidableBAll (fun c => isSeparator c = false) l

/-! ## Taking components off -/

namespace Cursor

theorem toList_of_nil {c : Cursor} (h : c.trimmed = []) : c.toList = [] := by
  have hno : ¬c.hasNext = true := by simp [hasNext, h]
  rw [toList, dif_neg hno]

theorem toList_of_cons {c : Cursor} {a : Char} {t : List Char} (h : c.trimmed = a :: t) :
    c.toList = (a :: t).takeWhile (!isSeparator ·) ::
      toList ⟨(a :: t).dropWhile (!isSeparator ·)⟩ := by
  have hyes : c.hasNext = true := by simp [hasNext, h]
  have hnext : c.next = (some ((a :: t).takeWhile (!isSeparator ·)),
      ⟨(a :: t).dropWhile (!isSeparator ·)⟩) := by
    simp only [next, h]
  rw [toList, dif_pos hyes]
  simp only [hnext]

theorem trimmed_head {c : Cursor} {a : Char} {t : List Char} (h : c.trimmed = a :: t) :
    isSeparator a = false := by
  have := List.head?_dropWhile_not isSeparator c.rest
  rw [show c.rest.dropWhile isSeparator = a :: t from h] at this
  simpa using this

end Cursor

theorem Closed.dropWhile {l : List Char} (h : Closed l) (p : Char → Bool) : Closed (l.dropWhile p) := by
  rcases h with rfl | ⟨l', rfl⟩
  · exact .inl rfl
  · rw [List.dropWhile_append]
    split
    · by_cases hp : p separator = true
      · exact .inl (by simp [hp])
      · exact .inr ⟨[], by simp [hp]⟩
    · exact .inr ⟨_, rfl⟩

theorem Word.dropWhile {w : List Char} (h : Word w) : w.dropWhile isSeparator = w := by
  cases w with
  | nil => rfl
  | cons a w => rw [List.dropWhile_cons_of_neg (by simp [h a (List.mem_cons_self ..)])]

theorem Word.takeWhile {w : List Char} (h : Word w) : w.takeWhile (!isSeparator ·) = w :=
  List.takeWhile_eq_self_iff.2 fun c hc => by simp [h c hc]

theorem Word.dropWhile_not {w : List Char} (h : Word w) : w.dropWhile (!isSeparator ·) = [] :=
  List.dropWhile_eq_nil_iff.2 fun c hc => by simp [h c hc]

/-- A word behind a closed text is its last component. -/
theorem Cursor.toList_append {l w : List Char} (hl : Closed l) (hw : Word w) (hne : w ≠ []) :
    toList ⟨l ++ w⟩ = toList ⟨l⟩ ++ [w] := by
  -- By induction on the length: each step takes one component off the front.
  induction hn : l.length using Nat.strong_induction_on generalizing l with
  | _ n ih =>
    cases ht : trimmed ⟨l⟩ with
    | nil =>
      obtain ⟨a, t, rfl⟩ := List.exists_cons_of_ne_nil hne
      have htrim : trimmed ⟨l ++ a :: t⟩ = a :: t := by
        have hd : l.dropWhile isSeparator = [] := ht
        rw [trimmed, List.dropWhile_append, hd, List.isEmpty_nil, if_pos rfl, hw.dropWhile]
      rw [toList_of_cons htrim, toList_of_nil ht, hw.takeWhile, hw.dropWhile_not,
        toList_of_nil (c := ⟨[]⟩) rfl]
      rfl
    | cons a t =>
      have hd : l.dropWhile isSeparator = a :: t := ht
      have htrim : trimmed ⟨l ++ w⟩ = a :: (t ++ w) := by
        rw [trimmed, List.dropWhile_append, hd, if_neg (by simp), List.cons_append]
      -- The front component ends inside the closed text.
      have hclosed : Closed (a :: t) := hd ▸ hl.dropWhile isSeparator
      have hsep : ∃ c ∈ a :: t, isSeparator c = true := by
        rcases hclosed with hnil | ⟨l', hl'⟩
        · cases hnil
        · exact ⟨separator, by rw [hl']; simp, rfl⟩
      have htake : (a :: (t ++ w)).takeWhile (!isSeparator ·) = (a :: t).takeWhile (!isSeparator ·) := by
        rw [← List.cons_append, List.takeWhile_append, if_neg]
        intro hlen
        obtain ⟨c, hc, hcs⟩ := hsep
        have hall := List.takeWhile_eq_self_iff.1
          ((List.takeWhile_prefix (!isSeparator ·)).eq_of_length hlen) c hc
        simp [hcs] at hall
      have hdrop : (a :: (t ++ w)).dropWhile (!isSeparator ·) =
          (a :: t).dropWhile (!isSeparator ·) ++ w := by
        rw [← List.cons_append, List.dropWhile_append, if_neg]
        intro hempty
        obtain ⟨c, hc, hcs⟩ := hsep
        have hall := List.dropWhile_eq_nil_iff.1 (List.isEmpty_iff.1 hempty) c hc
        simp [hcs] at hall
      have hlt : ((a :: t).dropWhile (!isSeparator ·)).length < n := by
        have h₁ : (a :: t).length ≤ l.length := hd ▸ (List.dropWhile_suffix _).length_le
        have h₂ : (t.dropWhile (!isSeparator ·)).length ≤ t.length := (List.dropWhile_suffix _).length_le
        rw [List.dropWhile_cons_of_pos (by simp [trimmed_head ht])]
        simp only [List.length_cons] at h₁
        omega
      rw [toList_of_cons htrim, toList_of_cons ht, htake, hdrop,
        ih _ hlt (hclosed.dropWhile _) rfl, List.cons_append]

/-- Walking to a path is walking to its parent and then following its leaf. -/
theorem components_append {path name : String} (hpath : Closed path.toList) (hname : Word name.toList)
    (hne : name.isEmpty = false) : components (path ++ name) = components path ++ [name] := by
  have hnil : name.toList ≠ [] := by
    intro h
    rw [String.toList_eq_nil_iff] at h
    simp [h] at hne
  simp only [components, Cursor.ofPath, String.toList_append, Cursor.toList_append hpath hname hnil,
    List.map_append, List.map_cons, List.map_nil, String.ofList_toList]

/-! ## Parents and leaves -/

theorem parentPart_closed (path : String) : Closed (parentPart path).toList := by
  rw [parentPart, String.toList_ofList]
  cases h : path.toList.reverse.dropWhile (!isSeparator ·) with
  | nil => exact .inl rfl
  | cons a t =>
    have ha := List.head?_dropWhile_not (!isSeparator ·) path.toList.reverse
    rw [h] at ha
    have ha : a = separator := by simpa [isSeparator] using ha
    exact .inr ⟨t.reverse, by rw [List.reverse_cons, ha]⟩

theorem leafPart_word (path : String) : Word (leafPart path).toList := by
  intro c hc
  rw [leafPart, String.toList_ofList, List.mem_reverse] at hc
  simpa using List.mem_takeWhile_imp hc

/-- A leaf that is not empty is the last component. -/
theorem components_leaf {path : String} (h : leafPart path ≠ "") :
    components path = components (parentPart path) ++ [leafPart path] := by
  have hne : (leafPart path).isEmpty = false := by simpa using h
  rw [← components_append (parentPart_closed path) (leafPart_word path) hne, parent_append_leaf]

theorem nulFree_leafPart {path : String} (h : NulFree path) : NulFree (leafPart path) := by
  intro hc
  rw [leafPart, String.toList_ofList, List.mem_reverse] at hc
  exact h (List.mem_reverse.1 ((List.takeWhile_prefix _).subset hc))

theorem nulFree_append {a b : String} (ha : NulFree a) (hb : NulFree b) : NulFree (a ++ b) := by
  intro hc
  rw [String.toList_append, List.mem_append] at hc
  exact hc.elim ha hb

theorem nulFree_join {cwd path : String} (hcwd : NulFree cwd) (hpath : NulFree path) :
    NulFree (join cwd path) := by
  unfold join
  split
  · exact nulFree_append hcwd hpath
  · refine nulFree_append (nulFree_append hcwd ?_) hpath
    unfold NulFree
    decide

/-- A path made absolute has no NUL, if neither it nor the current directory has one. -/
theorem nulFree_toAbsolute {path cwd absolute : String} (hpath : NulFree path) (hcwd : NulFree cwd)
    (h : toAbsolute path cwd = .ok absolute) : NulFree absolute := by
  have hboth : NulFree (if isAbsolute path then path else join cwd path) := by
    split
    · exact hpath
    · exact nulFree_join hcwd hpath
  rw [toAbsolute] at h
  generalize (if isAbsolute path then path else join cwd path) = whole at h hboth
  by_cases hlong : pathMax < whole.utf8ByteSize
  · rw [if_pos hlong] at h
    cases h
  · rw [if_neg hlong] at h
    cases h
    exact hboth

end Path

end InodeVolume
