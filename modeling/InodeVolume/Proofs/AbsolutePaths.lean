import InodeVolume.Proofs.Cursors

/-!
# Absolute paths

The absolute form of a path has the components of the path, behind those of the current directory if the path
is not absolute itself (`components_toAbsolute`). Where a name is put behind the path of a directory it is the
leaf, and the parent leads to where the directory does (`IsEntry.of_toAbsolute`).

There are two views of an absolute path: the cut behind its last separator, for which every character counts, and
its components, for which any number of separators is like one. They agree, since the parent ends with a separator
and there is none in the leaf (`CutInto.of_isAbsolute`).

Main statement: making a path absolute and cutting it fails only for its length in bytes, and then everywhere and
without a trace; otherwise nothing is lost (`parts_of_isAbsolute`).
-/

namespace InodeVolume

namespace Path

variable {path cwd absolute q place name : String}

/-- The absolute form of a path, however long it is. -/
def absoluteForm (path cwd : String) : String := if isAbsolute path then path else join cwd path

theorem toAbsolute_of_lt (h : pathMax < (absoluteForm path cwd).utf8ByteSize) :
    toAbsolute path cwd = .error .pathTooLong :=
  if_pos h

theorem toAbsolute_of_le (h : (absoluteForm path cwd).utf8ByteSize ≤ pathMax) :
    toAbsolute path cwd = .ok (absoluteForm path cwd) :=
  if_neg (Nat.not_lt.2 h)

/-- An absolute form is short enough and is either the path or what stands behind the current directory. -/
theorem toAbsolute_eq_ok (h : toAbsolute path cwd = .ok absolute) :
    absolute = absoluteForm path cwd ∧ absolute.utf8ByteSize ≤ pathMax := by
  by_cases hlong : pathMax < (absoluteForm path cwd).utf8ByteSize
  · rw [toAbsolute_of_lt hlong] at h
    cases h
  · rw [toAbsolute_of_le (Nat.le_of_not_lt hlong)] at h
    cases h
    exact ⟨rfl, Nat.le_of_not_lt hlong⟩

theorem toAbsolute_of_isAbsolute (h : isAbsolute path = true) (hsize : path.utf8ByteSize ≤ pathMax) :
    toAbsolute path cwd = .ok path := by
  simp [toAbsolute, h, hsize]

theorem isAbsolute_append (q : String) (h : isAbsolute path = true) : isAbsolute (path ++ q) = true := by
  obtain ⟨c, hc, hsep⟩ := (Option.any_eq_true _ _).1 h
  simp [isAbsolute, String.toList_append, List.head?_append, Option.mem_def.1 hc, hsep]

/-- From an absolute current directory every path has an absolute form that begins at the root. -/
theorem isAbsolute_absoluteForm (path : String) (hcwd : isAbsolute cwd = true) :
    isAbsolute (absoluteForm path cwd) = true := by
  unfold absoluteForm
  split
  · assumption
  · unfold join
    split
    · exact isAbsolute_append path hcwd
    · exact isAbsolute_append path (isAbsolute_append "/" hcwd)

theorem isAbsolute_toAbsolute (hcwd : isAbsolute cwd = true) (h : toAbsolute path cwd = .ok absolute) :
    isAbsolute absolute = true := by
  rw [(toAbsolute_eq_ok h).1]
  exact isAbsolute_absoluteForm path hcwd

theorem components_absoluteForm (path cwd : String) :
    components (absoluteForm path cwd) = (if isAbsolute path then [] else components cwd) ++ components path := by
  unfold absoluteForm
  split
  · simp
  · exact components_join cwd path

theorem components_toAbsolute (h : toAbsolute path cwd = .ok absolute) :
    components absolute = (if isAbsolute path then [] else components cwd) ++ components path := by
  rw [(toAbsolute_eq_ok h).1, components_absoluteForm]

theorem components_root : components "/" = [] := by
  show components ("" ++ "/" ++ "") = []
  rw [components_separated, components_empty, List.append_nil]

theorem components_word (hword : Word name.toList) (hne : name ≠ "") : components name = [name] := by
  rw [components_eq_filter, pieces_word hword]
  simp [hne]

/-- The root is the absolute path without components. -/
theorem isRoot_iff : isRoot absolute = true ↔ isAbsolute absolute = true ∧ components absolute = [] := by
  rw [isRoot, Cursor.hasNext_eq, Bool.not_not, Bool.and_eq_true, List.isEmpty_iff, components, List.map_eq_nil_iff]

/-- From the root a path leads where its components lead. -/
theorem components_toAbsolute_root (h : toAbsolute path "/" = .ok absolute) :
    components absolute = components path := by
  rw [components_toAbsolute h, components_root, ite_self, List.nil_append]

theorem isAbsolute_separated (hne : path ≠ "") : isAbsolute (path ++ "/" ++ q) = isAbsolute path := by
  obtain ⟨a, t, hat⟩ := List.exists_cons_of_ne_nil (show path.toList ≠ [] by simpa using hne)
  simp [isAbsolute, hat]

/-- A path behind another one names what the first one names, and then goes on. -/
theorem components_toAbsolute_separated {whole : String} (hne : path ≠ "")
    (h : toAbsolute path cwd = .ok absolute) (hwhole : toAbsolute (path ++ "/" ++ q) cwd = .ok whole) :
    components whole = components absolute ++ components q := by
  rw [components_toAbsolute hwhole, components_toAbsolute h, isAbsolute_separated hne,
    components_separated, List.append_assoc]

/-- A path whose components have no zero characters has none. -/
theorem nulFree_of_components (h : ∀ w ∈ components path, NulFree w) : NulFree path := by
  -- The pieces that are no components are empty, and a separator is no NUL either.
  have hpieces : ∀ w ∈ pieces path, NulFree w := by
    intro w hw
    by_cases hempty : w = ""
    · rw [hempty]
      decide
    · apply h
      rw [components_eq_filter]
      simpa using ⟨hw, hempty⟩
  clear h
  induction path using piecewise with
  | word w hw =>
    apply hpieces
    simp [pieces_word hw]
  | separated w rest hw ih =>
    rw [pieces_separated, pieces_word hw] at hpieces
    have hfirst := hpieces w (by simp)
    have hrest := ih fun v hv => hpieces v (by simp [hv])
    exact nulFree_append (nulFree_append hfirst (by decide)) hrest

/-! ## Parents and leaves -/

theorem leafPart_separated (path : String) (h : Word name.toList) : leafPart (path ++ "/" ++ name) = name := by
  have hword : ∀ c ∈ name.toList.reverse, (!isSeparator c) = true := by
    intro c hc
    simp [h c (List.mem_reverse.1 hc)]
  apply String.toList_injective
  simp only [leafPart, String.toList_ofList, String.toList_append, List.reverse_append]
  rw [List.takeWhile_append_of_pos hword]
  simp [isSeparator, separator]

theorem parentPart_separated (path : String) (h : Word name.toList) :
    parentPart (path ++ "/" ++ name) = path ++ "/" := by
  have hword : ∀ c ∈ name.toList.reverse, (!isSeparator c) = true := by
    intro c hc
    simp [h c (List.mem_reverse.1 hc)]
  apply String.toList_injective
  simp only [parentPart, String.toList_ofList, String.toList_append, List.reverse_append]
  rw [List.dropWhile_append_of_pos hword]
  simp [isSeparator, separator]

/-- The absolute path `absolute` is that of the entry `name` of the directory at `place`. -/
structure IsEntry (place name absolute : String) : Prop where
  leaf : leafPart absolute = name
  parent : components (parentPart absolute) = components place
  below : isRoot absolute = false

theorem isEntry_separated (path : String) (h : Word name.toList) (hne : name ≠ "") :
    IsEntry path name (path ++ "/" ++ name) := by
  have hcomponents : components (path ++ "/" ++ name) ≠ [] := by
    rw [components_separated, components_word h hne]
    simp
  constructor
  · exact leafPart_separated path h
  · rw [parentPart_separated path h]
    simpa [components_empty] using components_separated path ""
  · by_contra hroot
    exact hcomponents (isRoot_iff.1 (by simpa using hroot)).2

/-- A name behind the path of a directory is that of an entry of the directory. -/
theorem IsEntry.of_toAbsolute (h : toAbsolute (join place name) "/" = .ok absolute) (hword : Word name.toList)
    (hne : name ≠ "") : IsEntry place name absolute := by
  -- What stands before the name ends with a separator, in whatever way the two are joined.
  obtain ⟨front, hfront, hjoin⟩ : ∃ front, components front = components place ∧
      join place name = front ++ "/" ++ name := by
    unfold join
    split
    · rename_i hends
      have hlast : place.toList.getLast? = some separator := by
        simpa [Option.any_eq_true, isSeparator] using hends
      obtain ⟨front, rfl⟩ := exists_of_ends hlast
      refine ⟨front, ?_, by simp⟩
      rw [components_separated, components_empty, List.append_nil]
    · exact ⟨place, rfl, rfl⟩
  have hentry {front' : String} (hc : components front' = components place) :
      IsEntry place name (front' ++ "/" ++ name) := by
    obtain ⟨hleaf, hparent, hbelow⟩ := isEntry_separated front' hword hne
    exact ⟨hleaf, hparent.trans hc, hbelow⟩
  rw [(toAbsolute_eq_ok h).1, hjoin, absoluteForm]
  split
  · exact hentry hfront
  · have hroot : join "/" (front ++ "/" ++ name) = "/" ++ front ++ "/" ++ name := by
      show "/" ++ (front ++ "/" ++ name) = _
      simp [String.append_assoc]
    rw [hroot]
    apply hentry
    rw [← hfront]
    show components ("" ++ "/" ++ front) = _
    rw [components_separated, components_empty, List.nil_append]

/-! ## Cutting loses nothing -/

/-- A path has been cut behind its last separator. -/
structure CutInto (absolute parent leaf : String) : Prop where
  joined : parent ++ leaf = absolute
  ended : parent.toList.getLast? = some separator
  word : separator ∉ leaf.toList
  /-- A leaf that is empty names nothing. -/
  named : components absolute = components parent ++ if leaf = "" then [] else [leaf]

/-- What an absolute path is cut into. -/
theorem CutInto.of_isAbsolute (h : isAbsolute absolute = true) :
    CutInto absolute (parentPart absolute) (leafPart absolute) where
  joined := parent_append_leaf absolute
  ended := by
    rcases parentPart_closed absolute with hnil | ⟨front, hfront⟩
    · -- There is a separator, the first character of the path.
      have hleaf : leafPart absolute = absolute := by
        simpa [String.toList_eq_nil_iff.1 hnil] using parent_append_leaf absolute
      obtain ⟨c, hc, hsep⟩ := (Option.any_eq_true _ _).1 h
      have hfalse := leafPart_word absolute c (by rw [hleaf]; exact List.mem_of_head? hc)
      rw [hsep] at hfalse
      cases hfalse
    · rw [hfront, List.getLast?_concat]
  word := word_iff.1 (leafPart_word absolute)
  named := by
    split
    · rename_i hempty
      have hparent : parentPart absolute = absolute := by simpa [hempty] using parent_append_leaf absolute
      rw [hparent, List.append_nil]
    · rename_i hne
      exact components_leaf hne

/-- The path is too long for whatever makes it absolute, and the text that the caller keeps is left alone. -/
structure TooLong (path cwd kept : String) : Prop where
  form : toAbsolute path cwd = .error .pathTooLong
  split : split path cwd = .error .pathTooLong
  leaf : leaf path cwd = .error .pathTooLong
  into : leafInto path cwd kept = .error .pathTooLong kept

/-- The path has an absolute form with these two parts. -/
structure Parts (path cwd kept absolute parent name : String) : Prop where
  form : toAbsolute path cwd = .ok absolute
  split : split path cwd = .ok (parent, name)
  leaf : leaf path cwd = .ok (name, absolute)
  /-- The absolute form takes the place of the text that the caller keeps. -/
  into : leafInto path cwd kept = .ok name absolute
  cut : CutInto absolute parent name
  root : isRoot absolute = true ↔ components absolute = []
  steady : ∀ place, toAbsolute absolute place = .ok absolute
  named : components absolute = (if isAbsolute path then [] else components cwd) ++ components path

theorem TooLong.of_lt (h : pathMax < (absoluteForm path cwd).utf8ByteSize) (kept : String) :
    TooLong path cwd kept := by
  have habs := toAbsolute_of_lt h
  constructor
  · exact habs
  · rw [Path.split, habs]
    rfl
  · rw [Path.leaf, habs]
    rfl
  · rw [Path.leafInto, habs]
    rfl

/-- The absolute form of a path is refused for its length and for nothing else. If it is short enough, cutting
it loses nothing, and the components of the path are those of its parts. -/
theorem parts_of_isAbsolute (path kept : String) (hcwd : isAbsolute cwd = true) :
    (pathMax < (absoluteForm path cwd).utf8ByteSize → TooLong path cwd kept) ∧
      ((absoluteForm path cwd).utf8ByteSize ≤ pathMax →
        ∃ parent name, Parts path cwd kept (absoluteForm path cwd) parent name) := by
  refine ⟨fun hlong => .of_lt hlong kept, fun hshort => ?_⟩
  have habs := toAbsolute_of_le hshort
  have hfront := isAbsolute_absoluteForm path hcwd
  refine ⟨parentPart (absoluteForm path cwd), leafPart (absoluteForm path cwd), ?_⟩
  -- All parts are read off the absolute form, which begins with a separator as the current directory does.
  constructor
  case form => exact habs
  case split =>
    rw [Path.split, habs]
    rfl
  case leaf =>
    rw [Path.leaf, habs]
    rfl
  case into =>
    rw [Path.leafInto, habs]
    rfl
  case cut => exact .of_isAbsolute hfront
  case root => rw [isRoot_iff, and_iff_right hfront]
  case steady => exact fun place => toAbsolute_of_isAbsolute hfront hshort
  case named => exact components_absoluteForm path cwd

/-- An absolute form in which separators meet, in front of a character of four bytes. -/
theorem parts_of_slashes : isAbsolute "/a//" = true ∧
    ∃ parent name, Parts "b//𝄞" "/a//" "/" (absoluteForm "b//𝄞" "/a//") parent name := by
  have hcwd : isAbsolute "/a//" = true := by decide
  have hshort : (absoluteForm "b//𝄞" "/a//").utf8ByteSize ≤ pathMax := by decide
  exact ⟨hcwd, (parts_of_isAbsolute "b//𝄞" "/" hcwd).2 hshort⟩

end Path

end InodeVolume
