import InodeVolume.Volume.Namespace

/-!
# The tree of a volume

A `Tree` is what a volume shows from its root down: every directory with the names it lists, every file
with its contents. An entry that cannot be opened is shown with the error. Entries can lead back up, so
a tree has a depth limit; directories below it are shown without their entries.
-/

namespace InodeVolume

/-- What an inode shows of itself and of what is below it. -/
inductive Tree where
  | file (status : Status) (data : ByteArray)
  /-- A directory whose entries are shown. -/
  | directory (status : Status) (entries : List (String × Except Error Tree))
  /-- A directory below the depth limit. -/
  | cutOff (status : Status)

namespace Tree

/-- At most this many bytes of a file are shown. -/
def dataLimit : Nat := 9000000

/-- Whether names are shown as they are listed or in the order of their characters. -/
inductive NameOrder where
  | listed
  | sorted
  deriving DecidableEq, Repr

/-- Puts names into an order. -/
def NameOrder.arrange : NameOrder → List String → List String
  | .listed, names => names
  | .sorted, names => names.mergeSort fun a b => decide (a ≤ b)

/-- The tree below an open inode, `depth` levels of it. -/
def ofInode (order : NameOrder) : Nat → Inode → VolumeM Tree
  | 0, i => do
    let status ← i.status
    if status.isDirectory then pure (.cutOff status)
    else pure (.file status (← i.read 0 (min status.size dataLimit)))
  | depth + 1, i => do
    let status ← i.status
    if status.isDirectory then
      let d : Directory := { inode := i }
      let (names, _) ← d.names none
      let entries ← (order.arrange names).mapM fun name => do
        let entry : VolumeM Tree := do
          let child ← d.openEntry name
          (ofInode order depth child).andThen child.close
        pure (name, ← VolumeM.attempt entry)
      pure (.directory status entries)
    else pure (.file status (← i.read 0 (min status.size dataLimit)))

/-- The tree of the whole volume, `depth` levels of it, read while no access fails. -/
def ofVolume (order : NameOrder) (depth : Nat) : VolumeM Tree := VolumeM.withoutFaults do
  let root ← Directory.openRoot
  (ofInode order depth root.inode).andThen root.close

end Tree

end InodeVolume
