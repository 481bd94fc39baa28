import InodeVolume.Proofs.Clients

/-!
# Files as byte arrays

A model of what a client can see of a volume, in which there are no blocks. An inode is an array of bytes,
or names with the inodes that they stand for; each handle has a place of its own in its file, and all
handles of an inode share its array (`Model`). `Model.Step` says what a call answers and what it changes.
What may fail for want of room may fail at any time here, and then changes nothing; all other answers are
determined.

Main statement: no call changes the array of a file but one that writes to it, through a handle of it or
by opening it for that, and an array goes only with the last handle of a file that has no name any more
(`Model.Step.keeps`).
-/

namespace InodeVolume

/-! ## Byte arrays -/

/-- So many zero bytes. -/
def zeros (n : Nat) : ByteArray := bytesFrom (fun _ => 0) 0 n

/-- The bytes of `data` with `buf` over them from `offset` on; zeros are put between them if there is a
gap. -/
def patched (data : ByteArray) (offset : Nat) (buf : ByteArray) : ByteArray :=
  bytesFrom (overwrite (byteOf data) offset buf buf.size) 0 (max data.size (offset + buf.size))

/-- The bytes of `data`, with zeros behind them up to `target` bytes in all. -/
def extended (data : ByteArray) (target : Nat) : ByteArray :=
  bytesFrom (byteOf data) 0 (max data.size target)

/-! ## The model -/

/-- What an inode is to a client. -/
inductive Object where
  | file (data : ByteArray)
  | directory (entries : String → Option UInt32)

/-- What a client can see: inodes, which of them have been removed and are still open, and its handles. -/
structure Model where
  objects : UInt32 → Option Object
  removed : UInt32 → Prop
  handles : List Handle

namespace Call

/-- The handle that a call works on, if it is such a call. -/
def works : Call → Option Nat
  | .close h | .reopen h | .readAt h _ _ | .writeAt h _ _ | .grow h _ | .clear h | .read h _ | .write h _
  | .seek h _ | .denyWrite h | .allowWrite h => some h
  | _ => none

/-- The call is only for handles that have a place in a file. -/
def needsFile : Call → Bool
  | .read .. | .write .. | .seek .. | .denyWrite .. | .allowWrite .. => true
  | _ => false

end Call

namespace Model

/-- A volume that has just been formatted: the root with the two entries of its own, and nothing open. -/
def blank : Model where
  objects := Function.update (fun _ => none) rootInode (some (.directory (Volume.dots rootInode rootInode)))
  removed _ := False
  handles := []

/-- The names of the model. -/
def names (M : Model) : Names where
  child d name :=
    match M.objects d with
    | some (.directory entries) => entries name
    | _ => none
  isDirectory x :=
    match M.objects x with
    | some (.directory _) => true
    | _ => false

/-- Where a path leads. -/
def find (M : Model) (path cwd : String) : Except Error UInt32 :=
  (Path.toAbsolute path cwd).bind M.names.find

/-- The model with another object under `x`, or none. -/
def put (M : Model) (x : UInt32) (o : Option Object) : Model :=
  { M with objects := Function.update M.objects x o }

/-- The model with one handle more. -/
def opened (M : Model) (h : Handle) : Model := { M with handles := M.handles ++ [h] }

/-- The model with another handle at place `i`. -/
def changed (M : Model) (i : Nat) (h : Handle) : Model := { M with handles := M.handles.set i h }

/-- Some handle of `x` denies writing to it. -/
def Denied (M : Model) (x : UInt32) : Prop := ∃ h ∈ M.handles, h.target.number = x ∧ h.denies = true

/-- Some handle of `x` is open. -/
def Opened (M : Model) (x : UInt32) : Prop := ∃ h ∈ M.handles, h.target.number = x

theorem blank_objects : blank.objects =
    Function.update (fun _ => none) rootInode (some (.directory (Volume.dots rootInode rootInode))) := rfl

@[simp] theorem put_objects (M : Model) (x : UInt32) (o : Option Object) :
    (M.put x o).objects = Function.update M.objects x o := rfl

/-- A new inode `b` has been created at a path: a file of zeros, or a directory with the two entries of its
own. -/
inductive Creates (M : Model) (path cwd : String) (size : Nat) (isDirectory : Bool) : UInt32 → Model → Prop
  | intro {absolute : String} {t b : UInt32} {entries : String → Option UInt32}
    (absolute_eq : Path.toAbsolute path cwd = .ok absolute)
    (parent : M.names.resolve rootInode (Path.components (Path.parentPart absolute)) = .ok t)
    (table : M.objects t = some (.directory entries)) (new : entries (Path.leafPart absolute) = none)
    (fresh : M.objects b = none) :
    Creates M path cwd size isDirectory b
      ((M.put b (some (if isDirectory then .directory (Volume.dots b t) else .file (zeros size)))).put t
        (some (.directory (Function.update entries (Path.leafPart absolute) (some b)))))

/-- Writing `buf` at `offset` to a file: all of it or nothing. -/
inductive Writes (M : Model) (x : UInt32) (offset : Nat) (buf : ByteArray) : Except Stop Nat → Model → Prop
  | denied (denied : M.Denied x) : Writes M x offset buf (.error (.failed .writeDenied)) M
  | nothing (allowed : ¬M.Denied x) (empty : buf.isEmpty = true) : Writes M x offset buf (.ok 0) M
  | all {data : ByteArray} (allowed : ¬M.Denied x) (full : buf.isEmpty = false)
    (file : M.objects x = some (.file data)) :
    Writes M x offset buf (.ok buf.size) (M.put x (some (.file (patched data offset buf))))
  | refused {data : ByteArray} (e : Error) (allowed : ¬M.Denied x) (file : M.objects x = some (.file data))
    (beyond : data.size < offset + buf.size) : Writes M x offset buf (.error (.failed e)) M

/-- What a call answers, and what it makes of the model. -/
inductive Step (M : Model) : Call → Except Stop Answer → Model → Prop
  /-- There is no handle to work on. -/
  | absent {q : Call} {i : Nat} (works : q.works = some i)
    (none : ∀ x, M.handles[i]? = some x → q.needsFile = true ∧ ∀ f, x ≠ .file f) : Step M q (.ok .absent) M
  | created {path cwd : String} {size : Nat} {isDirectory : Bool} {b : UInt32} {M' : Model}
    (creates : M.Creates path cwd size isDirectory b M') :
    Step M (.create path cwd size isDirectory) (.ok .done) M'
  | notCreated {path cwd : String} {size : Nat} {isDirectory : Bool} (e : Error) :
    Step M (.create path cwd size isDirectory) (.error (.failed e)) M
  /-- A name has gone, and its inode with it, as it is not open. -/
  | removed {path cwd absolute : String} {t x : UInt32} {entries : String → Option UInt32}
    (absolute_eq : Path.toAbsolute path cwd = .ok absolute)
    (parent : M.names.resolve rootInode (Path.components (Path.parentPart absolute)) = .ok t)
    (table : M.objects t = some (.directory entries)) (entry : entries (Path.leafPart absolute) = some x)
    (named : isDotName (Path.leafPart absolute) = false) (closed : ¬M.Opened x) :
    Step M (.remove path cwd) (.ok .done)
      ((M.put t (some (.directory (Function.update entries (Path.leafPart absolute) none)))).put x none)
  /-- A name has gone, and its inode stays for those who have it open. -/
  | unlinked {path cwd absolute : String} {t x : UInt32} {entries : String → Option UInt32}
    (absolute_eq : Path.toAbsolute path cwd = .ok absolute)
    (parent : M.names.resolve rootInode (Path.components (Path.parentPart absolute)) = .ok t)
    (table : M.objects t = some (.directory entries)) (entry : entries (Path.leafPart absolute) = some x)
    (named : isDotName (Path.leafPart absolute) = false) (opened : M.Opened x) :
    Step M (.remove path cwd) (.ok .done)
      { M.put t (some (.directory (Function.update entries (Path.leafPart absolute) none))) with
        removed := fun y => y = x ∨ M.removed y }
  | notRemoved {path cwd : String} (e : Error) : Step M (.remove path cwd) (.error (.failed e)) M
  | changedDirectory (path cwd : String) :
    Step M (.changeDirectory path cwd) ((M.names.place path cwd).map .place) M
  | openedInode {path cwd : String} {x : UInt32} (found : M.find path cwd = .ok x) :
    Step M (.openInode path cwd) (.ok .done) (M.opened (.inode ⟨x⟩))
  | noInode {path cwd : String} {e : Error} (missing : M.find path cwd = .error e) :
    Step M (.openInode path cwd) (.error (.failed e)) M
  | openedDirectory {path cwd absolute : String} {x : UInt32}
    (absolute_eq : Path.toAbsolute path cwd = .ok absolute)
    (found : M.names.resolve rootInode (Path.components absolute) = .ok x) :
    Step M (.openDirectory path cwd) (.ok .done) (M.opened (.directory { inode := ⟨x⟩ }))
  | noDirectory {path cwd : String} {e : Error}
    (missing : ((Path.toAbsolute path cwd).bind fun absolute =>
      M.names.resolve rootInode (Path.components absolute)) = .error e) :
    Step M (.openDirectory path cwd) (.error (.failed e)) M
  /-- A file at the start, as it is. -/
  | openedFile {path cwd : String} {mode : Volume.OpenMode} {x : UInt32} (found : M.find path cwd = .ok x)
    (keep : mode.truncate = true → M.names.isDirectory x = true) :
    Step M (.openFile path cwd mode) (.ok .done) (M.opened (.file { inode := ⟨x⟩ }))
  | emptiedFile {path cwd : String} {mode : Volume.OpenMode} {x : UInt32} {data : ByteArray}
    (found : M.find path cwd = .ok x) (asked : mode.truncate = true) (file : M.objects x = some (.file data))
    (allowed : ¬M.Denied x) : Step M (.openFile path cwd mode) (.ok .done)
      ((M.put x (some (.file (zeros 0)))).opened (.file { inode := ⟨x⟩ }))
  | madeFile {path cwd : String} {mode : Volume.OpenMode} {b : UInt32} {M' : Model}
    (missing : M.find path cwd = .error .notFound) (asked : mode.create = true)
    (creates : M.Creates path cwd 0 false b M') :
    Step M (.openFile path cwd mode) (.ok .done) (M'.opened (.file { inode := ⟨b⟩ }))
  | noFile {path cwd : String} {mode : Volume.OpenMode} {e : Error} (missing : M.find path cwd = .error e)
    (notAsked : ¬(e = .notFound ∧ mode.create = true)) :
    Step M (.openFile path cwd mode) (.error (.failed e)) M
  | fileNotMade {path cwd : String} {mode : Volume.OpenMode} (e : Error)
    (missing : M.find path cwd = .error .notFound) (asked : mode.create = true) :
    Step M (.openFile path cwd mode) (.error (.failed e)) M
  | fileDenied {path cwd : String} {mode : Volume.OpenMode} {x : UInt32} {data : ByteArray}
    (found : M.find path cwd = .ok x) (asked : mode.truncate = true) (file : M.objects x = some (.file data))
    (denied : M.Denied x) : Step M (.openFile path cwd mode) (.error (.failed .writeDenied)) M
  | closed {i : Nat} {x : Handle} (handle : M.handles[i]? = some x)
    (stays : ¬M.removed x.target.number ∨ ∃ h ∈ M.handles.eraseIdx i, h.target.number = x.target.number) :
    Step M (.close i) (.ok .done) { M with handles := M.handles.eraseIdx i }
  /-- The last handle of an inode that has been removed takes it along. -/
  | dropped {i : Nat} {x : Handle} (handle : M.handles[i]? = some x) (doomed : M.removed x.target.number)
    (last : ∀ h ∈ M.handles.eraseIdx i, h.target.number ≠ x.target.number) :
    Step M (.close i) (.ok .done)
      { objects := Function.update M.objects x.target.number none
        removed := fun y => y ≠ x.target.number ∧ M.removed y
        handles := M.handles.eraseIdx i }
  | reopened {i : Nat} {x : Handle} (handle : M.handles[i]? = some x) :
    Step M (.reopen i) (.ok .done) (M.opened x.again)
  /-- The bytes from `offset` on, `count` of them or as many as there are. -/
  | readAt {i offset count : Nat} {x : Handle} {data : ByteArray} (handle : M.handles[i]? = some x)
    (file : M.objects x.target.number = some (.file data)) :
    Step M (.readAt i offset count) (.ok (.bytes (data.extract offset (offset + count)))) M
  | readTableAt {i offset count : Nat} {x : Handle} (bytes : ByteArray) (handle : M.handles[i]? = some x)
    (directory : M.names.isDirectory x.target.number = true) :
    Step M (.readAt i offset count) (.ok (.bytes bytes)) M
  | wroteAt {i offset : Nat} {buf : ByteArray} {x : Handle} {r : Except Stop Nat} {M' : Model}
    (handle : M.handles[i]? = some x) (writes : M.Writes x.target.number offset buf r M') :
    Step M (.writeAt i offset buf) (r.map .count) M'
  | grew {i target : Nat} {x : Handle} {data : ByteArray} (handle : M.handles[i]? = some x)
    (file : M.objects x.target.number = some (.file data)) :
    Step M (.grow i target) (.ok .done) (M.put x.target.number (some (.file (extended data target))))
  | notGrown {i target : Nat} {x : Handle} {data : ByteArray} (e : Error) (handle : M.handles[i]? = some x)
    (file : M.objects x.target.number = some (.file data)) (beyond : data.size < target) :
    Step M (.grow i target) (.error (.failed e)) M
  | cleared {i : Nat} {x : Handle} {data : ByteArray} (handle : M.handles[i]? = some x)
    (file : M.objects x.target.number = some (.file data)) (allowed : ¬M.Denied x.target.number) :
    Step M (.clear i) (.ok .done) (M.put x.target.number (some (.file (zeros 0))))
  | notCleared {i : Nat} {x : Handle} (handle : M.handles[i]? = some x) (denied : M.Denied x.target.number) :
    Step M (.clear i) (.error (.failed .writeDenied)) M
  /-- The bytes from the handle's place on, and then the place behind them. -/
  | read {i count : Nat} {f : File} {data : ByteArray} (handle : M.handles[i]? = some (.file f))
    (file : M.objects f.inode.number = some (.file data)) :
    Step M (.read i count) (.ok (.bytes (data.extract f.position (f.position + count))))
      (M.changed i (.file { f with
        position := f.position + (data.extract f.position (f.position + count)).size }))
  | readTable {i count : Nat} {f : File} (bytes : ByteArray) (handle : M.handles[i]? = some (.file f))
    (directory : M.names.isDirectory f.inode.number = true) :
    Step M (.read i count) (.ok (.bytes bytes))
      (M.changed i (.file { f with position := f.position + bytes.size }))
  | wrote {i k : Nat} {buf : ByteArray} {f : File} {M' : Model} (handle : M.handles[i]? = some (.file f))
    (writes : M.Writes f.inode.number f.position buf (.ok k) M') :
    Step M (.write i buf) (.ok (.count k)) (M'.changed i (.file { f with position := f.position + k }))
  | notWritten {i : Nat} {buf : ByteArray} {f : File} {e : Stop} {M' : Model}
    (handle : M.handles[i]? = some (.file f))
    (writes : M.Writes f.inode.number f.position buf (.error e) M') : Step M (.write i buf) (.error e) M'
  | sought {i position : Nat} {f : File} (handle : M.handles[i]? = some (.file f)) :
    Step M (.seek i position) (.ok .done) (M.changed i (.file { f with position := position }))
  | deniedWriting {i : Nat} {f : File} (handle : M.handles[i]? = some (.file f)) :
    Step M (.denyWrite i) (.ok .done) (M.changed i (.file { f with denying := true }))
  | allowedWriting {i : Nat} {f : File} (handle : M.handles[i]? = some (.file f)) :
    Step M (.allowWrite i) (.ok .done) (M.changed i (.file { f with denying := false }))

/-- A run of the model. -/
inductive Runs : Model → List (Call × Except Stop Answer) → Model → Prop
  | nil (M : Model) : Runs M [] M
  | cons {M M' M'' : Model} {q : Call} {res : Except Stop Answer} {l : List (Call × Except Stop Answer)}
    (step : M.Step q res M') (rest : Runs M' l M'') : Runs M ((q, res) :: l) M''

/-! ## What a call leaves alone -/

/-- A call may change the array of `x`: it writes to it through a handle, or opens it to be emptied. -/
def Aims (M : Model) (q : Call) (x : UInt32) : Prop :=
  (∃ i h, q.changes = some i ∧ M.handles[i]? = some h ∧ h.target.number = x) ∨
    ∃ path cwd mode, q = .openFile path cwd mode ∧ mode.truncate = true ∧ M.find path cwd = .ok x

variable {M M' : Model} {q : Call} {res : Except Stop Answer} {x y : UInt32} {data : ByteArray}

theorem Creates.keeps {path cwd : String} {size : Nat} {isDirectory : Bool} {b : UInt32}
    (h : M.Creates path cwd size isDirectory b M') (hx : M.objects x = some (.file data)) :
    M'.objects x = some (.file data) := by
  obtain ⟨-, -, table, -, fresh⟩ := h
  rw [put_objects, Function.update_of_ne, put_objects, Function.update_of_ne, hx]
  · rintro rfl
    rw [fresh] at hx
    cases hx
  · rintro rfl
    rw [table] at hx
    cases hx

theorem Writes.keeps {offset : Nat} {buf : ByteArray} {r : Except Stop Nat} (h : M.Writes y offset buf r M')
    (hne : x ≠ y) : M'.objects x = M.objects x := by
  cases h with
  | denied _ => rfl
  | nothing _ _ => rfl
  | all _ _ _ => exact Function.update_of_ne hne _ _
  | refused _ _ _ _ => rfl

/-- No call changes the array of a file that it does not write to. Removing or closing may drop it, if it
has no handle any more. -/
theorem Step.keeps (h : M.Step q res M') (hx : M.objects x = some (.file data)) (haims : ¬M.Aims q x) :
    M'.objects x = some (.file data) ∨ (M'.objects x = none ∧ ¬M'.Opened x) := by
  have hother {i : Nat} {h : Handle} (hq : q.changes = some i) (hh : M.handles[i]? = some h) :
      x ≠ h.target.number := fun he => haims (.inl ⟨i, h, hq, hh, he.symm⟩)
  cases h with
  | created creates => exact .inl (creates.keeps hx)
  | @removed path cwd absolute t y entries absolute_eq parent table entry named closed =>
    by_cases hy : x = y
    · subst hy
      exact .inr ⟨Function.update_self .., closed⟩
    · refine .inl ?_
      rw [put_objects, Function.update_of_ne hy, put_objects, Function.update_of_ne, hx]
      rintro rfl
      rw [table] at hx
      cases hx
  | @unlinked path cwd absolute t y entries absolute_eq parent table entry named opened =>
    refine .inl ((Function.update_of_ne ?_ _ _).trans hx)
    rintro rfl
    rw [table] at hx
    cases hx
  | @emptiedFile path cwd mode y old found asked file allowed =>
    refine .inl ((Function.update_of_ne ?_ _ _).trans hx)
    rintro rfl
    exact haims (.inr ⟨path, cwd, mode, rfl, asked, found⟩)
  | madeFile missing asked creates => exact .inl (creates.keeps hx)
  | @dropped i h handle doomed last =>
    -- A removed file goes with its last handle, so it has none left.
    by_cases hy : x = h.target.number
    · subst hy
      refine .inr ⟨Function.update_self .., ?_⟩
      rintro ⟨h', hmem, he⟩
      exact last h' hmem he
    · exact .inl ((Function.update_of_ne hy _ _).trans hx)
  | wroteAt handle writes => exact .inl ((writes.keeps (hother rfl handle)).trans hx)
  | grew handle file => exact .inl ((Function.update_of_ne (hother rfl handle) _ _).trans hx)
  | cleared handle file allowed => exact .inl ((Function.update_of_ne (hother rfl handle) _ _).trans hx)
  | wrote handle writes => exact .inl ((writes.keeps (hother rfl handle)).trans hx)
  | notWritten handle writes => exact .inl ((writes.keeps (hother rfl handle)).trans hx)
  | _ => exact .inl hx

end Model

end InodeVolume
