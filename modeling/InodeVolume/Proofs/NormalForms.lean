import InodeVolume.Proofs.AbsolutePaths

/-!
# Normal forms of paths

Folding dots away is climbing about from the root by the letters of the path: a name goes down, `..` goes up
as long as there is somewhere to go up to, and `.` stays (`climb`). What is left is spelled out from the root
with one separator before each name (`NormalForm`).

Main statement: every absolute path has a normal form, which is its own normal form, and it makes no difference
to the normal form of a path whether the current directory was in normal form before (`normalForm_normalize`).
The latter comes from the fold: from where a first path has led, the same ways lead on as from where its names
lead (`folded_toAbsolute_normalize`).
-/

namespace InodeVolume

namespace Path

variable {path cwd absolute other name : String} {words place : List String}

/-! ## Climbing -/

/-- Goes from a place, given by its names from the root on, along one component. -/
def climb (place : List String) : String → List String
  | ".." => place.dropLast
  | "." => place
  | name => place ++ [name]

theorem climb_of_name (h : isDotName name = false) : climb place name = place ++ [name] := by
  simp only [isDotName, Bool.or_eq_false_iff, beq_eq_false_iff_ne] at h
  unfold climb
  split
  · exact absurd rfl h.2
  · exact absurd rfl h.1
  · rfl

/-- Following a component is climbing along it, with the last name first. -/
theorem reverse_follow (place : List String) (component : String) :
    (follow place component).reverse = climb place.reverse component := by
  unfold follow
  -- A place is kept from its end, and here it is read from its start.
  split
  · rename_i h
    rw [h, climb, List.dropLast_reverse]
  · split
    · rename_i h
      rw [h, climb]
    · rename_i hup hstay
      rw [List.reverse_cons, climb_of_name]
      simp [isDotName, hup, hstay]

theorem reverse_foldl_follow (words place : List String) :
    (words.foldl follow place).reverse = words.foldl climb place.reverse := by
  induction words generalizing place with
  | nil => rfl
  | cons w words ih => rw [List.foldl_cons, List.foldl_cons, ih, reverse_follow]

theorem folded_eq_foldl_climb (path : String) : folded path = (components path).foldl climb [] :=
  reverse_foldl_follow (components path) []

/-- Names only lead down. -/
theorem foldl_climb_of_names (h : ∀ w ∈ words, isDotName w = false) : words.foldl climb place = place ++ words := by
  induction words generalizing place with
  | nil => simp
  | cons w words ih =>
    rw [List.foldl_cons, climb_of_name (h w List.mem_cons_self), ih fun u hu => h u (List.mem_cons_of_mem w hu),
      List.append_assoc, List.singleton_append]

/-- A path without dots is climbed along to where its names say. -/
theorem folded_of_names (h : ∀ w ∈ components path, isDotName w = false) : folded path = components path := by
  rw [folded_eq_foldl_climb, foldl_climb_of_names h, List.nil_append]

/-! ## Normal forms -/

/-- How the normal form of an absolute path is related to the path. -/
structure NormalForm (path normal : String) : Prop where
  /-- It is the root, or each of its names stands behind a separator of its own. -/
  spelled : normal = "/" ∨ ∃ names : List String, names ≠ [] ∧
    (∀ name ∈ names, name ≠ "" ∧ Word name.toList ∧ name ≠ "." ∧ name ≠ "..") ∧
    normal = String.join (names.map ("/" ++ ·))
  /-- Its components are where the components of the path lead to from the root. -/
  climbed : components normal = (components path).foldl climb []
  /-- It takes no more bytes. -/
  size_le : normal.utf8ByteSize ≤ path.utf8ByteSize
  /-- It is its own normal form. -/
  steady : normalize? normal = some normal

theorem normalize_eq (path : String) : normalize path = ofComponents (folded path) := rfl

/-- The normal form is its own normal form. -/
theorem normalize_normalize (path : String) : normalize (normalize path) = normalize path := by
  rw [normalize_eq (normalize path), folded_of_names, components_normalize, normalize_eq]
  intro w hw
  rw [components_normalize] at hw
  exact (of_mem_folded hw).2.2

theorem normalize?_of_isAbsolute (h : isAbsolute path = true) : normalize? path = some (normalize path) :=
  if_pos h

theorem spelled_normalize (path : String) : normalize path = "/" ∨ ∃ names : List String, names ≠ [] ∧
    (∀ name ∈ names, name ≠ "" ∧ Word name.toList ∧ name ≠ "." ∧ name ≠ "..") ∧
    normalize path = String.join (names.map ("/" ++ ·)) := by
  by_cases hnil : folded path = []
  · left
    rw [normalize_eq, hnil]
    rfl
  · refine .inr ⟨folded path, hnil, fun name hname => ?_, ?_⟩
    · obtain ⟨hne, hword, hdots⟩ := of_mem_folded hname
      simp only [isDotName, Bool.or_eq_false_iff, beq_eq_false_iff_ne] at hdots
      exact ⟨hne, hword, hdots.1, hdots.2⟩
    · rw [normalize_eq, ofComponents, if_neg (by simpa using hnil)]

theorem NormalForm.of_isAbsolute (h : isAbsolute path = true) : NormalForm path (normalize path) where
  spelled := spelled_normalize path
  climbed := by rw [components_normalize, folded_eq_foldl_climb]
  size_le := utf8ByteSize_normalize_le h
  steady := by rw [normalize?_of_isAbsolute (canonical_normalize path).absolute, normalize_normalize]

/-! ## Current directories in normal form -/

/-- Where a path leads from the current directory, it leads from the normal form of the directory. -/
theorem folded_toAbsolute_normalize (h : toAbsolute path cwd = .ok absolute)
    (hother : toAbsolute path (normalize cwd) = .ok other) : folded other = folded absolute := by
  have hplace : (folded cwd).foldl climb [] = (components cwd).foldl climb [] := by
    rw [foldl_climb_of_names fun w hw => (of_mem_folded hw).2.2, List.nil_append, folded_eq_foldl_climb]
  rw [folded_eq_foldl_climb, folded_eq_foldl_climb, components_toAbsolute h, components_toAbsolute hother]
  split
  · rfl
  · rw [List.foldl_append, List.foldl_append, components_normalize, hplace]

/-- Every absolute path has a normal form. A path from an absolute current directory has the same one as from the
normal form of that directory, where both are short enough. -/
theorem normalForm_normalize :
    (∀ path, isAbsolute path = true → ∃ normal, normalize? path = some normal ∧ NormalForm path normal) ∧
      ∀ path cwd here absolute other, isAbsolute cwd = true → normalize? cwd = some here →
        toAbsolute path cwd = .ok absolute → toAbsolute path here = .ok other →
          ∃ normal, normalize? other = some normal ∧ normalize? absolute = some normal := by
  refine ⟨fun path h => ⟨_, normalize?_of_isAbsolute h, .of_isAbsolute h⟩, ?_⟩
  intro path cwd here absolute other hcwd hhere habsolute hother
  -- Both forms of the path begin at the root, and their components fold to the same names.
  rw [normalize?_of_isAbsolute hcwd, Option.some_inj] at hhere
  subst hhere
  have hplace : isAbsolute (normalize cwd) = true := (canonical_normalize cwd).absolute
  refine ⟨normalize absolute, ?_, normalize?_of_isAbsolute (isAbsolute_toAbsolute hcwd habsolute)⟩
  rw [normalize?_of_isAbsolute (isAbsolute_toAbsolute hplace hother),
    normalize_eq, folded_toAbsolute_normalize habsolute hother, normalize_eq]

/-- The path `../x` leads from `/a//./b` where it leads from `/a/b`. -/
theorem normalForm_of_dots : (∃ normal, normalize? "/a//./b" = some normal ∧ NormalForm "/a//./b" normal) ∧
    ∃ normal, normalize? "/a/b/../x" = some normal ∧ normalize? "/a//./b/../x" = some normal := by
  have hhere : normalize? "/a//./b" = some "/a/b" := by
    rw [normalize?, normalize, components_eq_filter]
    decide
  constructor
  · exact normalForm_normalize.1 "/a//./b" (by decide)
  · exact normalForm_normalize.2 "../x" "/a//./b" "/a/b" "/a//./b/../x" "/a/b/../x" (by decide) hhere (by decide)
      (by decide)

end Path

end InodeVolume
