import InodeVolume.Error

/-!
# Paths

Paths are texts in which `/` separates components. Nothing here touches a device.

* A `Cursor` yields the components of a path one by one; separators in a row count as one, and one at
  the end makes no component.
* `toAbsolute` puts a relative path behind the current directory. Absolute paths have at most
  `pathMax` bytes.
* `split`, `leaf` and `leafInto` cut an absolute path behind its last separator.
* `normalize` folds `.` and `..` away by the letters of the path alone.

Main statements: a cursor has a next component exactly when it yields one (`hasNext_iff`), and cutting
a path loses nothing (`parent_append_leaf`).
-/

namespace InodeVolume

namespace Path

/-- The longest absolute path, in bytes of UTF-8. -/
def pathMax : Nat := 255

/-- The character between components. -/
def separator : Char := '/'

/-- Whether a character separates components. -/
def isSeparator (c : Char) : Bool := c == separator

/-! ## Components -/

/-- What is left of a path while its components are taken off it. -/
structure Cursor where
  rest : List Char
  deriving DecidableEq, Repr

namespace Cursor

/-- The cursor at the start of a path. -/
def ofPath (path : String) : Cursor := ⟨path.toList⟩

/-- What is left, without the separators in front. -/
def trimmed (c : Cursor) : List Char := c.rest.dropWhile isSeparator

/-- Whether a component is left. -/
def hasNext (c : Cursor) : Bool := !c.trimmed.isEmpty

/-- The next component, if one is left, and the cursor behind it. -/
def next (c : Cursor) : Option (List Char) × Cursor :=
  match c.trimmed with
  | [] => (none, ⟨[]⟩)
  | l => (some (l.takeWhile (!isSeparator ·)), ⟨l.dropWhile (!isSeparator ·)⟩)

/-- A cursor has a next component exactly when it yields one. -/
theorem hasNext_iff (c : Cursor) : c.hasNext = true ↔ ∃ word, c.next.1 = some word := by
  unfold hasNext next
  split
  · simp_all
  · rename_i h
    simp only [Bool.not_eq_true', Option.some.injEq, exists_eq', iff_true]
    cases hl : c.trimmed with
    | nil => exact absurd hl h
    | cons => rfl

/-- Taking a component off leaves less behind. -/
theorem length_next {c : Cursor} (h : c.hasNext = true) : c.next.2.rest.length < c.rest.length := by
  have hle : c.trimmed.length ≤ c.rest.length := (List.dropWhile_suffix _).length_le
  cases hl : c.trimmed with
  | nil => simp [hasNext, hl] at h
  | cons a as =>
    -- What is left after the separators begins with another character, so the component is not empty.
    have ha : isSeparator a = false := by
      have := List.head?_dropWhile_not isSeparator c.rest
      rw [show c.rest.dropWhile isSeparator = a :: as from hl] at this
      simpa using this
    have hdrop : (as.dropWhile (!isSeparator ·)).length ≤ as.length :=
      (List.dropWhile_suffix _).length_le
    rw [hl] at hle
    simp only [next, hl, List.dropWhile_cons, ha, Bool.not_false, ↓reduceIte]
    simp only [List.length_cons] at hle
    omega

/-- All components that are left, in order. -/
def toList (c : Cursor) : List (List Char) :=
  if h : c.hasNext = true then
    have := length_next h
    match c.next.1 with
    | some word => word :: toList c.next.2
    | none => []
  else []
termination_by c.rest.length

end Cursor

/-- The components of a path. -/
def components (path : String) : List String :=
  (Cursor.ofPath path).toList.map String.ofList

/-! ## Absolute paths -/

/-- Whether a path begins at the root. -/
def isAbsolute (path : String) : Bool := path.toList.head?.any isSeparator

/-- Whether a path names the root: it is absolute and has no components. -/
def isRoot (path : String) : Bool := isAbsolute path && !(Cursor.ofPath path).hasNext

/-- A relative path behind a current directory, with one separator between them. -/
def join (cwd path : String) : String :=
  if cwd.toList.getLast?.any isSeparator then cwd ++ path else cwd ++ "/" ++ path

/-- The absolute form of a path: an absolute path itself, any other behind the current directory. -/
def toAbsolute (path cwd : String) : Except Error String :=
  let absolute := if isAbsolute path then path else join cwd path
  if pathMax < absolute.utf8ByteSize then .error .pathTooLong else .ok absolute

/-! ## Parent and leaf -/

/-- A path up to its last separator, with it; empty if there is none. -/
def parentPart (path : String) : String :=
  String.ofList (path.toList.reverse.dropWhile (!isSeparator ·)).reverse

/-- What follows the last separator of a path; all of it if there is none. -/
def leafPart (path : String) : String :=
  String.ofList (path.toList.reverse.takeWhile (!isSeparator ·)).reverse

/-- The parent and the leaf of the absolute form of a path. -/
def split (path cwd : String) : Except Error (String × String) := do
  let absolute ← toAbsolute path cwd
  pure (parentPart absolute, leafPart absolute)

/-- The leaf of the absolute form of a path, and that form. -/
def leaf (path cwd : String) : Except Error (String × String) := do
  let absolute ← toAbsolute path cwd
  pure (leafPart absolute, absolute)

/-- The leaf of the absolute form of a path. The form takes the place of a text that the caller keeps; if there
is none, the text stays as it was. -/
def leafInto (path cwd : String) : EStateM Error String String := do
  set (← resume (toAbsolute path cwd))
  pure (leafPart (← get))

/-- Cutting a path behind its last separator loses nothing. -/
theorem parent_append_leaf (path : String) : parentPart path ++ leafPart path = path := by
  rw [parentPart, leafPart, ← String.ofList_append, ← List.reverse_append,
    List.takeWhile_append_dropWhile, List.reverse_reverse, String.ofList_toList]

/-! ## Folding dots -/

/-- Follows one component from a place given by its components, the last one first: `.` stays, `..`
goes up unless there is nowhere to go, any other name goes down. -/
def follow (place : List String) (component : String) : List String :=
  if component = ".." then place.tail
  else if component = "." then place
  else component :: place

/-- The absolute path with the given components: the root if there are none. -/
def ofComponents (components : List String) : String :=
  if components.isEmpty then "/" else String.join (components.map ("/" ++ ·))

/-- The absolute path that is left when `.` and `..` are followed from the root. -/
def normalize (path : String) : String :=
  ofComponents ((components path).foldl follow []).reverse

/-- The normal form of a path, which has to be absolute. -/
def normalize? (path : String) : Option String :=
  if isAbsolute path then some (normalize path) else none

end Path

end InodeVolume
