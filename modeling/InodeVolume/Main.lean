import InodeVolume.CommandLine.Run

/-!
# The packing program

Runs the packing program on the machine's own files: reads the arguments and the source directory, shows
the lines, and writes the image.
-/

namespace InodeVolume

-- `^` on numbers is that of the core library, whatever else is known of them.
attribute [local instance (high)] instPowNat

namespace CommandLine

/-- The name of the image file in the output directory. -/
def imageName : String := "fs.img"

/-- The listing of a directory of the machine; nothing if it cannot be read. -/
partial def listDirectory (path : String) : IO (Option HostTree) := do
  let directory := (← IO.currentDir) / path
  try
    let mut listing := HostTree.empty
    for entry in (← directory.readDir).reverse do
      let name := some entry.fileName
      match (← entry.path.symlinkMetadata).type with
      | .dir =>
        match ← listDirectory entry.path.toString with
        | some inside => listing := .directory name inside listing
        | none => throw (IO.userError "unreadable directory")
      | .file => listing := .file name (← IO.FS.readBinFile entry.path) listing
      | .symlink | .other => listing := .link name listing
    pure (some listing)
  catch _ => pure none

/-- Writes `count` blocks of zeros. -/
def writeZeros (file : IO.FS.Handle) (count : Nat) : IO Unit :=
  count.forM fun _ _ => file.write Block.zero.bytes

/-- The machine as a host. It takes no length of 63 bits or more. -/
def machine : Host IO where
  makeImage outDir := do
    try
      IO.FS.writeBinFile ((← IO.currentDir) / outDir / imageName) ByteArray.empty
      pure true
    catch _ => pure false
  sizeImage outDir bytes := do
    if 2 ^ (63 : Nat) ≤ bytes then pure false
    else
      try
        let file ← IO.FS.Handle.mk ((← IO.currentDir) / outDir / imageName) .write
        writeZeros file (bytes / blockSize)
        pure true
      catch _ => pure false
  listing := listDirectory

/-- Writes all blocks of an image to its file. -/
def writeImage (outDir : String) (image : Disk) : IO Unit := do
  let file ← IO.FS.Handle.mk ((← IO.currentDir) / outDir / imageName) .write
  for b in image.device.blocks do
    file.write b.bytes

end CommandLine

end InodeVolume

/-- Packs a directory into an image, as the arguments say. -/
def main (args : List String) : IO UInt32 := do
  let outcome ← InodeVolume.CommandLine.run InodeVolume.CommandLine.machine args
  for line in outcome.lines do
    IO.println line
  match outcome.image, InodeVolume.CommandLine.Options.ofArgs args with
  | some image, .ok options => InodeVolume.CommandLine.writeImage options.outDir image
  | _, _ => pure ()
  pure (UInt32.ofNat outcome.exitCode)
