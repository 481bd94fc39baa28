/-!
# Errors and misuse

An operation that does not finish stops for one of two reasons.

* A reported `Error`: the device refused an access, the space ran out, a name is taken, and so on.
  The caller may react to it, and whatever was stored before it stays stored.
* A `Misuse`: a calling rule was broken, such as one more denial of writing than there are openers.
  Nothing sensible can follow, so a misuse ends the run.

`Error.message` is the only place where an error is put into words.
-/

namespace InodeVolume

/-! ## Reported errors -/

/-- Why a device refuses an access to one block. -/
inductive DeviceError where
  /-- The block number is not below the number of blocks. -/
  | outOfRange
  /-- The buffer is not exactly one block long. -/
  | badBuffer
  /-- The medium itself failed. -/
  | io
  deriving DecidableEq, Repr

/-- The short name of a device error, as it appears inside messages. -/
def DeviceError.name : DeviceError → String
  | .outOfRange => "OutOfRange"
  | .badBuffer => "BadBuffer"
  | .io => "Io"

/-- Why an operation on a volume reports failure. -/
inductive Error where
  | notFound
  | alreadyExists
  | nameTooLong
  | pathTooLong
  | invalidName
  | outOfSpace
  | fileTooLarge
  | writeDenied
  | corruptRecord
  | notADirectory
  | directoryNotEmpty
  | isRoot
  /-- The device underneath refused an access. -/
  | device (cause : DeviceError)
  deriving DecidableEq, Repr

/-- The text shown to a person. -/
def Error.message : Error → String
  | .notFound => "no such file or directory"
  | .alreadyExists => "file exists"
  | .nameTooLong => "file name too long"
  | .pathTooLong => "path too long"
  | .invalidName => "invalid file name"
  | .outOfSpace => "no space left on device"
  | .fileTooLarge => "file too large"
  | .writeDenied => "file is denying writes"
  | .corruptRecord => "corrupt inode record"
  | .notADirectory => "not a directory"
  | .directoryNotEmpty => "directory not empty"
  | .isRoot => "cannot remove the root directory"
  | .device cause => "block device error: " ++ cause.name

/-! ## Broken calling rules -/

/-- The calling rules that an operation checks and that end the run when broken. -/
inductive Misuse where
  /-- A handle was used after the last opener of its inode had closed it. -/
  | notOpen
  /-- Writing was denied more often than the inode has openers. -/
  | deniedTooOften
  /-- Writing was allowed again without a denial in force, or with more denials than openers. -/
  | allowedTooOften
  /-- The byte count of a new directory's table does not fit in 64 bits. -/
  | tableTooLong
  /-- A path that has to be absolute is relative. -/
  | relativePath
  /-- More bits are set in the space map than the device has blocks. -/
  | overfullMap
  deriving DecidableEq, Repr

/-- Why an operation on a mounted volume did not finish. -/
inductive Stop where
  /-- A reported error, which callers may handle. -/
  | failed (error : Error)
  /-- A broken calling rule, which nothing handles. -/
  | misused (rule : Misuse)
  deriving DecidableEq, Repr

/-! ## Actions whose effects outlive a failure -/

/-- Runs `x` to its end and hands its outcome to the caller; what `x` did to the state before it
failed stays done. -/
def attempt {ε δ σ α : Type} (x : EStateM ε σ α) : EStateM δ σ (Except ε α) := fun s =>
  match x s with
  | .ok a s => .ok (.ok a) s
  | .error e s => .ok (.error e) s

/-- Takes up an outcome again: its value, or its failure. -/
def resume {ε σ α : Type} : Except ε α → EStateM ε σ α
  | .ok a => pure a
  | .error e => throw e

end InodeVolume
