import InodeVolume.CommandLine.Options
import InodeVolume.CommandLine.Quoted
import InodeVolume.HostTree

/-!
# Packing a host directory into an image

The packing program makes an image file of the wanted size, writes an empty volume on it and copies a
directory of the host into its root. What it needs of the host is given by a `Host`, so that the program
is the same over any host; the image is a disk in its hands until it is done.
-/

namespace InodeVolume

-- `^` on numbers is that of the core library, whatever else is known of them.
attribute [local instance (high)] instPowNat

namespace CommandLine

/-- What the program asks of the host. -/
structure Host (m : Type → Type) where
  /-- Makes or empties the image file in a directory; `false` if that cannot be done. -/
  makeImage (outDir : String) : m Bool
  /-- Gives the image file its length in bytes, all of them zero; `false` if that cannot be done. -/
  sizeImage (outDir : String) (bytes : Nat) : m Bool
  /-- The listing of a directory, if there is one. -/
  listing (source : String) : m (Option HostTree)

/-- What came of a run: the exit code, the lines that were shown, and the image, if one was made. -/
structure Outcome where
  exitCode : Nat
  lines : List String
  image : Option Disk := none

/-- The exit codes of the program. -/
inductive Ending where
  | success
  | failure
  | badArguments
  /-- A calling rule was broken. -/
  | abort
  deriving DecidableEq, Repr

/-- The number that the host is told. -/
def Ending.code : Ending → Nat
  | .success => 0
  | .failure => 1
  | .badArguments => 2
  | .abort => 101

/-- How a run ends when an action on the volume did not finish. -/
def Ending.ofStop : Stop → Ending
  | .failed _ => .failure
  | .misused _ => .abort

/-- What is shown first: the two directories, as they were given. -/
def Options.lines (o : Options) : List String :=
  ["source=" ++ Quoted.encode o.source, "out_dir=" ++ Quoted.encode o.outDir]

/-- Fills a new volume with a listing; answers the lines shown on the way and how it ended. -/
def fill (blocks : Nat) (source : Option HostTree) : VolumeM (List String × Ending) := do
  Volume.prepare true
  let packing ← HostTree.packSource "/" source
  match packing.outcome with
  | .error _ => pure (packing.lines, .failure)
  | .ok () =>
    match ← VolumeM.attempt VolumeM.freeCount with
    | .error _ => pure (packing.lines, .failure)
    | .ok free => pure (packing.lines ++ [s!"{free} of {blocks} blocks free"], .success)

/-- Writes a volume that holds a listing on a new image of `blocks` blocks. -/
def buildImage (blocks : Nat) (source : Option HostTree) : Outcome :=
  let disk : Disk := { device := .onHostFile (blocks * blockSize) }
  match SpaceMap.format disk with
  | .error _ disk => { exitCode := Ending.failure.code, lines := [], image := some disk }
  | .ok space disk =>
    match fill blocks source { disk := disk, space := space } with
    | .ok (lines, ending) v => { exitCode := ending.code, lines := lines, image := some v.disk }
    | .error stop v =>
      { exitCode := (Ending.ofStop stop).code, lines := [], image := some v.disk }

/-- Carries out the options. The length of the image has to fit in 64 bits. The source is listed only
once the image has its length, so an image made inside the source is listed with it. -/
def Options.run {m : Type → Type} [Monad m] (host : Host m) (o : Options) : m Outcome := do
  let bytes := o.blocks * blockSize
  if !(← host.makeImage o.outDir) then
    pure { exitCode := Ending.failure.code, lines := o.lines }
  else if 2 ^ (64 : Nat) ≤ bytes then
    pure { exitCode := Ending.abort.code, lines := o.lines }
  else if !(← host.sizeImage o.outDir bytes) then
    pure { exitCode := Ending.failure.code, lines := o.lines }
  else
    let outcome := buildImage o.blocks (← host.listing o.source)
    pure { outcome with lines := o.lines ++ outcome.lines }

/-- The whole program. -/
def run {m : Type → Type} [Monad m] (host : Host m) (args : List String) : m Outcome :=
  match Options.ofArgs args with
  | .ok o => o.run host
  | .error .help => pure { exitCode := Ending.success.code, lines := [] }
  | .error .usage => pure { exitCode := Ending.badArguments.code, lines := [] }

end CommandLine

end InodeVolume
