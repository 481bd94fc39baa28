import InodeVolume.Proofs.Paths
import Mathlib.Algebra.GroupWithZero.Nat
import Mathlib.Algebra.Order.BigOperators.Group.List
import Mathlib.Algebra.Order.Group.Nat

/-!
# Paths in normal form

A path is what its separators cut it into (`Path.pieces`), and its components are the pieces that are not
empty (`components_eq_filter`). Behind another path its components follow those of the first
(`components_separated`, `components_join`).

Main statements: the normal form of an absolute path is canonical (`canonical_normalize`) and no longer than
the path (`utf8ByteSize_normalize_le`), and its components are what is left of those of the path when the
dots have been followed (`components_normalize`).
-/

namespace InodeVolume

namespace Path

/-- What the separators of a path cut it into; nothing stands between two in a row. -/
def pieces (path : String) : List String := (path.toList.splitOn separator).map String.ofList

/-- An absolute path without anything to fold or to leave out. -/
structure Canonical (path : String) : Prop where
  absolute : isAbsolute path = true
  /-- Each separator has a name behind it, which is not one of the dots. The root has no name. -/
  named : path ≠ "/" → ∀ piece ∈ (pieces path).tail, piece ≠ "" ∧ isDotName piece = false
  ended : path ≠ "/" → path.toList.getLast? ≠ some separator

/-! ## Pieces -/

theorem word_iff {l : List Char} : Word l ↔ separator ∉ l := by
  constructor
  · intro h hmem
    exact absurd (h separator hmem) (by decide)
  · intro h c hc
    simp only [isSeparator, beq_eq_false_iff_ne]
    rintro rfl
    exact h hc

/-- A path is a word, or a word with a separator and another path behind it. -/
@[elab_as_elim]
theorem piecewise {motive : String → Prop} (word : ∀ w, Word w.toList → motive w)
    (separated : ∀ w rest, Word w.toList → motive rest → motive (w ++ "/" ++ rest)) (path : String) :
    motive path := by
  induction hn : path.toList.length using Nat.strong_induction_on generalizing path with
  | _ n ih =>
    by_cases hw : separator ∈ path.toList
    · -- The cut is made at the first separator.
      obtain ⟨w, rest, hpath, hword⟩ := List.eq_append_cons_of_mem hw
      have heq : path = String.ofList w ++ "/" ++ String.ofList rest := by
        apply String.toList_injective
        simpa [separator] using hpath
      rw [heq]
      apply separated
      · simpa using word_iff.2 hword
      · apply ih _ _ _ rfl
        rw [← hn, hpath]
        simp
        omega
    · exact word path (word_iff.2 hw)

theorem pieces_word {w : String} (h : Word w.toList) : pieces w = [w] := by
  simp [pieces, List.splitOn_eq_singleton (word_iff.1 h)]

theorem pieces_separated (a b : String) : pieces (a ++ "/" ++ b) = pieces a ++ pieces b := by
  have hlist : (a ++ "/" ++ b).toList = a.toList ++ separator :: b.toList := by simp [separator]
  rw [pieces, hlist, List.splitOn_append_cons_self, List.map_append, pieces, pieces]

theorem pieces_ne_nil (path : String) : pieces path ≠ [] := by
  simp [pieces, List.splitOn_ne_nil]

/-- A piece has no separator in it. -/
theorem word_of_mem_pieces {path piece : String} (h : piece ∈ pieces path) : Word piece.toList := by
  induction path using piecewise with
  | word w hw =>
    rw [pieces_word hw, List.mem_singleton] at h
    rwa [h]
  | separated w rest hw ih =>
    rw [pieces_separated, pieces_word hw, List.singleton_append, List.mem_cons] at h
    rcases h with rfl | h
    · exact hw
    · exact ih h

/-- The pieces and the separators between them are all of a path. -/
theorem sum_pieces (path : String) :
    ((pieces path).map (·.utf8ByteSize + 1)).sum = path.utf8ByteSize + 1 := by
  induction path using piecewise with
  | word w hw => simp [pieces_word hw]
  | separated w rest hw ih =>
    have hsize : (w ++ "/" ++ rest).utf8ByteSize = w.utf8ByteSize + 1 + rest.utf8ByteSize := by
      simp [String.utf8ByteSize_append]
      rfl
    rw [pieces_separated, List.map_append, List.sum_append, ih, pieces_word hw, hsize]
    simp
    omega

/-! ## Components -/

theorem toList_word {w : List Char} (h : Word w) (hne : w ≠ []) : Cursor.toList ⟨w⟩ = [w] := by
  simpa [Cursor.toList_of_nil (c := ⟨[]⟩) rfl] using Cursor.toList_append (.inl rfl) h hne

theorem toList_separated {w : List Char} (h : Word w) (rest : List Char) :
    Cursor.toList ⟨w ++ separator :: rest⟩ = [w].filter (!·.isEmpty) ++ Cursor.toList ⟨rest⟩ := by
  -- A separator in front is passed over.
  have hfront : Cursor.toList ⟨separator :: rest⟩ = Cursor.toList ⟨rest⟩ := by
    have htrim : Cursor.trimmed ⟨separator :: rest⟩ = Cursor.trimmed ⟨rest⟩ := rfl
    cases hrest : Cursor.trimmed ⟨rest⟩ with
    | nil => rw [Cursor.toList_of_nil hrest, Cursor.toList_of_nil (htrim.trans hrest)]
    | cons a t => rw [Cursor.toList_of_cons hrest, Cursor.toList_of_cons (htrim.trans hrest)]
  cases w with
  | nil => simpa using hfront
  | cons a t =>
    have ha : isSeparator a = false := h a List.mem_cons_self
    have htrim : Cursor.trimmed ⟨a :: t ++ separator :: rest⟩ = a :: (t ++ separator :: rest) := by
      simp [Cursor.trimmed, ha]
    have htake : (a :: (t ++ separator :: rest)).takeWhile (!isSeparator ·) = a :: t := by
      rw [← List.cons_append, List.takeWhile_append_of_pos fun c hc => by simp [h c hc]]
      simp [isSeparator]
    have hdrop : (a :: (t ++ separator :: rest)).dropWhile (!isSeparator ·) = separator :: rest := by
      rw [← List.cons_append, List.dropWhile_append_of_pos fun c hc => by simp [h c hc]]
      simp [isSeparator]
    rw [Cursor.toList_of_cons htrim, htake, hdrop, hfront]
    rfl

/-- The components of a path are its pieces but the empty ones. -/
theorem components_eq_filter (path : String) : components path = (pieces path).filter (· ≠ "") := by
  induction path using piecewise with
  | word w hw =>
    -- Only the empty word is no component.
    by_cases hempty : w = ""
    · subst hempty
      rw [pieces_word hw, components, Cursor.ofPath, Cursor.toList_of_nil rfl]
      rfl
    · have hne : w.toList ≠ [] := by simpa using hempty
      rw [pieces_word hw, components, Cursor.ofPath, toList_word hw hne]
      simp [hempty]
  | separated w rest hw ih =>
    have hlist : (w ++ "/" ++ rest).toList = w.toList ++ separator :: rest.toList := by simp [separator]
    rw [pieces_separated, List.filter_append, ← ih, pieces_word hw, components, Cursor.ofPath, hlist,
      toList_separated hw, List.map_append, components, Cursor.ofPath]
    -- Both sides take the rest alike, and differ only in whether the first word counts.
    congr 1
    by_cases hempty : w = "" <;> simp [hempty]

/-- Behind another path the components follow those of the first. -/
theorem components_separated (a b : String) :
    components (a ++ "/" ++ b) = components a ++ components b := by
  simp [components_eq_filter, pieces_separated]

theorem components_empty : components "" = [] := by
  rw [components_eq_filter, pieces_word (by simp [Word])]
  rfl

/-- A path that ends with a separator is another one with the separator behind it. -/
theorem exists_of_ends {path : String} (h : path.toList.getLast? = some separator) :
    ∃ front, path = front ++ "/" ++ "" := by
  obtain ⟨l, hl⟩ := List.getLast?_eq_some_iff.1 h
  refine ⟨String.ofList l, String.toList_injective ?_⟩
  simpa [separator] using hl

theorem components_join (cwd path : String) :
    components (join cwd path) = components cwd ++ components path := by
  unfold join
  split
  · rename_i hends
    have hlast : cwd.toList.getLast? = some separator := by
      simpa [Option.any_eq_true, isSeparator] using hends
    obtain ⟨front, rfl⟩ := exists_of_ends hlast
    rw [components_separated, components_empty, String.append_empty, components_separated, List.append_nil]
  · exact components_separated cwd path

theorem word_of_mem_components {path name : String} (h : name ∈ components path) :
    name ≠ "" ∧ Word name.toList := by
  rw [components_eq_filter, List.mem_filter] at h
  exact ⟨by simpa using h.2, word_of_mem_pieces h.1⟩

/-! ## Paths of components -/

theorem pieces_joined {v : String} {words : List String} (hv : Word v.toList)
    (hwords : ∀ w ∈ words, Word w.toList) :
    pieces (v ++ String.join (words.map ("/" ++ ·))) = v :: words := by
  induction words generalizing v with
  | nil => simpa using pieces_word hv
  | cons w words ih =>
    have hrest := ih (hwords w List.mem_cons_self) fun u hu => hwords u (List.mem_cons_of_mem w hu)
    have heq : v ++ String.join ((w :: words).map ("/" ++ ·)) =
        v ++ "/" ++ (w ++ String.join (words.map ("/" ++ ·))) := by
      simp [String.append_assoc]
    rw [heq, pieces_separated, pieces_word hv, hrest, List.singleton_append]

theorem pieces_ofComponents {words : List String} (hne : words ≠ []) (h : ∀ w ∈ words, Word w.toList) :
    pieces (ofComponents words) = "" :: words := by
  have hjoined := pieces_joined (v := "") (by simp [Word]) h
  rwa [ofComponents, if_neg (by simpa using hne), ← String.empty_append (s := String.join _)]

theorem components_ofComponents {words : List String} (h : ∀ w ∈ words, w ≠ "" ∧ Word w.toList) :
    components (ofComponents words) = words := by
  cases words with
  | nil =>
    show components ("" ++ "/" ++ "") = []
    rw [components_separated, components_empty, List.append_nil]
  | cons w words =>
    rw [components_eq_filter, pieces_ofComponents (List.cons_ne_nil _ _) fun u hu => (h u hu).2]
    simpa using ⟨(h w List.mem_cons_self).1, fun u hu => (h u (List.mem_cons_of_mem w hu)).1⟩

/-- A path of components that are names is canonical. -/
theorem canonical_ofComponents {words : List String}
    (h : ∀ w ∈ words, w ≠ "" ∧ Word w.toList ∧ isDotName w = false) : Canonical (ofComponents words) := by
  cases words with
  | nil => exact ⟨by decide, fun hne => absurd rfl hne, fun hne => absurd rfl hne⟩
  | cons w words =>
    have hpieces := pieces_ofComponents (List.cons_ne_nil w words) fun u hu => (h u hu).2.1
    -- Behind the leading separator there are exactly the given words.
    have hnamed (u : String) (hu : u ∈ (pieces (ofComponents (w :: words))).tail) :
        u ≠ "" ∧ isDotName u = false := by
      rw [hpieces, List.tail_cons] at hu
      exact ⟨(h u hu).1, (h u hu).2.2⟩
    refine ⟨?_, fun _ => hnamed, fun _ hends => ?_⟩
    · simp [isAbsolute, ofComponents, isSeparator, separator]
    · -- A separator at the end would have nothing behind it.
      obtain ⟨front, hfront⟩ := exists_of_ends hends
      have hempty : "" ∈ (pieces (ofComponents (w :: words))).tail := by
        rw [hfront, pieces_separated, List.tail_append_of_ne_nil (pieces_ne_nil front),
          pieces_word (w := "") (by simp [Word])]
        simp
      exact (hnamed "" hempty).1 rfl

/-! ## Following dots -/

/-- What is left when dots are followed stood in the path in the same order. -/
theorem sublist_foldl_follow (words place : List String) :
    (words.foldl follow place).reverse.Sublist (place.reverse ++ words) := by
  induction words generalizing place with
  | nil => simp
  | cons w words ih =>
    -- One word is put behind the place, or none is, or the last one is taken away.
    have hstep : (follow place w).reverse.Sublist (place.reverse ++ [w]) := by
      unfold follow
      split
      · exact (place.tail_sublist.reverse).trans (List.sublist_append_left _ _)
      · split
        · exact List.sublist_append_left _ _
        · simp
    have hrest := (ih (follow place w)).trans (hstep.append_right words)
    simpa using hrest

theorem isDotName_foldl_follow {words place : List String} (h : ∀ w ∈ place, isDotName w = false) :
    ∀ w ∈ words.foldl follow place, isDotName w = false := by
  induction words generalizing place with
  | nil => exact h
  | cons v words ih =>
    apply ih
    intro w hw
    unfold follow at hw
    -- A step back shortens the place, a dot keeps it, and any other word is put in front.
    split at hw
    · exact h w (List.mem_of_mem_tail hw)
    · split at hw
      · exact h w hw
      · rcases List.mem_cons.1 hw with rfl | hw
        · simp_all [isDotName]
        · exact h w hw

/-- The components of a path from which the dots have been followed. -/
def folded (path : String) : List String := ((components path).foldl follow []).reverse

theorem folded_sublist (path : String) : (folded path).Sublist (components path) := by
  simpa [folded] using sublist_foldl_follow (components path) []

theorem of_mem_folded {path name : String} (h : name ∈ folded path) :
    name ≠ "" ∧ Word name.toList ∧ isDotName name = false := by
  obtain ⟨hne, hword⟩ := word_of_mem_components ((folded_sublist path).subset h)
  have hnil : ∀ w ∈ ([] : List String), isDotName w = false := by simp
  exact ⟨hne, hword, isDotName_foldl_follow hnil name (List.mem_reverse.1 h)⟩

theorem components_normalize (path : String) : components (normalize path) = folded path :=
  components_ofComponents fun _ hw => ⟨(of_mem_folded hw).1, (of_mem_folded hw).2.1⟩

theorem canonical_normalize (path : String) : Canonical (normalize path) :=
  canonical_ofComponents fun _ hw => of_mem_folded hw

theorem pieces_of_isAbsolute {path : String} (h : isAbsolute path = true) :
    pieces path = "" :: (pieces path).tail := by
  induction path using piecewise with
  | word w hw =>
    obtain ⟨c, hc, hsep⟩ := (Option.any_eq_true _ _).1 h
    have hmem : c ∈ w.toList := List.mem_of_mem_head? hc
    rw [hw c hmem] at hsep
    cases hsep
  | separated w rest hw ih =>
    -- What stands before the first separator of an absolute path is empty.
    have hempty : w = "" := by
      by_contra hne
      obtain ⟨a, t, hat⟩ := List.exists_cons_of_ne_nil (show w.toList ≠ [] by simpa using hne)
      have ha := hw a (by simp [hat])
      simp [isAbsolute, hat, ha] at h
    rw [pieces_separated, pieces_word hw, hempty]
    rfl

/-- The normal form of an absolute path is no longer than the path. -/
theorem utf8ByteSize_normalize_le {path : String} (h : isAbsolute path = true) :
    (normalize path).utf8ByteSize ≤ path.utf8ByteSize := by
  have hpath := sum_pieces path
  rw [pieces_of_isAbsolute h] at hpath
  simp only [List.map_cons, List.sum_cons, String.utf8ByteSize_empty] at hpath
  -- The words of the normal form are some of the words of the path, each with the slash before it.
  have hsub : (folded path).Sublist (pieces path).tail := by
    have hcomponents := folded_sublist path
    rw [components_eq_filter, pieces_of_isAbsolute h] at hcomponents
    simpa using hcomponents.trans (List.filter_sublist (l := (pieces path).tail))
  have hle := (hsub.map (·.utf8ByteSize + 1)).sum_le_sum fun _ _ => Nat.zero_le _
  by_cases hnil : folded path = []
  · have hroot : normalize path = "/" := by
      show ofComponents (folded path) = "/"
      rw [hnil]
      rfl
    have hne : path ≠ "" := by
      rintro rfl
      simp [isAbsolute] at h
    have hpos : path.utf8ByteSize ≠ 0 := by simpa using hne
    rw [hroot]
    exact Nat.one_le_iff_ne_zero.2 hpos
  · have hsum := sum_pieces (normalize path)
    have hpieces : pieces (normalize path) = "" :: folded path :=
      pieces_ofComponents hnil fun _ hw => (of_mem_folded hw).2.1
    rw [hpieces] at hsum
    simp only [List.map_cons, List.sum_cons, String.utf8ByteSize_empty] at hsum
    omega

end Path

end InodeVolume
