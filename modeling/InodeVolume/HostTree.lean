import InodeVolume.Volume.Namespace

/-!
# Packing a tree of the host

A `HostTree` is a listing of a directory of the host: files with their contents, directories with their
own listings, and symbolic links, in the order in which the host lists them. Packing copies it into a
directory of a volume. Passed over are links and entries whose name the volume cannot hold: one that is
not UTF-8 or is too long.

Every entry that is copied is announced by a line, which stands even if copying it then fails.
-/

namespace InodeVolume

/-- A listing of a directory of the host. A name that is not UTF-8 is `none`. -/
inductive HostTree where
  | empty
  | file (name : Option String) (data : ByteArray) (rest : HostTree)
  | directory (name : Option String) (inside : HostTree) (rest : HostTree)
  | link (name : Option String) (rest : HostTree)
  deriving Inhabited

/-- Why packing stopped. -/
inductive PackError where
  /-- The directory to be packed does not exist. -/
  | noSource
  /-- The volume reported an error. -/
  | volume (error : Error)
  /-- The device cut the contents of this file short. -/
  | shortWrite (path : String)
  deriving DecidableEq, Repr

/-- The text shown to a person. -/
def PackError.message : PackError → String
  | .noSource => "No such file or directory (os error 2)"
  | .volume error => error.message
  | .shortWrite path => "short write to " ++ path

namespace HostTree

/-- The name under which the volume can hold an entry, if it can. -/
def fittingName (name : Option String) : Option String :=
  name.filter (·.utf8ByteSize ≤ nameMax)

/-- What packing has announced so far, and whether it stopped. -/
structure Packing where
  lines : List String
  outcome : Except PackError Unit

/-- Announces an entry and copies it by `copy`; then, unless that stopped, goes on with `rest`. -/
def announce (line : String) (copy : VolumeM Packing) (rest : VolumeM Packing) :
    VolumeM Packing := do
  let copied ← copy
  match copied.outcome with
  -- The line was shown before copying began.
  | .error e => pure ⟨line :: copied.lines, .error e⟩
  | .ok () => do
    let others ← rest
    pure ⟨line :: copied.lines ++ others.lines, others.outcome⟩

/-- Copies one file. -/
def packFile (path : String) (data : ByteArray) : VolumeM Packing := do
  match ← VolumeM.attempt (Volume.importFile path data) with
  | .error e => pure ⟨[], .error (.volume e)⟩
  | .ok false => pure ⟨[], .error (.shortWrite path)⟩
  | .ok true => pure ⟨[], .ok ()⟩

/-- Creates one directory and then fills it by `fill`. -/
def packDirectory (path : String) (fill : VolumeM Packing) : VolumeM Packing := do
  match ← VolumeM.attempt (Volume.create path "/" 0 true) with
  | .error e => pure ⟨[], .error (.volume e)⟩
  | .ok () => fill

/-- Copies a listing into the directory `place` of the volume. -/
def pack (place : String) : HostTree → VolumeM Packing
  | .empty => pure ⟨[], .ok ()⟩
  | .link _ rest => pack place rest
  | .file name data rest =>
    match fittingName name with
    | none => pack place rest
    | some name =>
      let path := Path.join place name
      announce ("file: " ++ path) (packFile path data) (pack place rest)
  | .directory name inside rest =>
    match fittingName name with
    | none => pack place rest
    | some name =>
      let path := Path.join place name
      announce ("dir: " ++ path) (packDirectory path (pack path inside)) (pack place rest)

/-- Copies the source, if it exists, into the directory `place` of the volume. -/
def packSource (place : String) : Option HostTree → VolumeM Packing
  | none => pure ⟨[], .error .noSource⟩
  | some tree => pack place tree

end HostTree

end InodeVolume
