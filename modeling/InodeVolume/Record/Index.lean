import InodeVolume.Record.Basic
import InodeVolume.Span

/-!
# The index of a record

The contents of an inode are cut into pieces of one block. The index says on which block each piece
lies, in three tiers: pointers in the record itself, pointers in the singly indirect table, and
pointers in the inner tables that the doubly indirect table points at.

* `blockAt` looks a piece up.
* `expand` extends the index for a longer length, taking the new blocks from a supply: a block for
  each new piece and for each new table, a table always directly before the first piece it is for.
* `clear` lists all blocks that the index refers to and empties it.

None of them touches the space map; taking blocks from it and giving them back is the caller's part.
-/

namespace InodeVolume

namespace Record

/-! ## Looking a piece up -/

/-- The block of piece `i` of the contents, 0 when there is none. A missing table is never read. -/
def blockAt (r : Record) (i : Nat) : DiskM UInt32 :=
  if h : i < directCount then pure r.direct[i]
  else if i < singleReach then
    if r.single = 0 then pure 0
    else do
      let table ← DiskM.readBlock r.single.toNat
      pure (table.word (i - directCount))
  else if i < maxBlocks then
    if r.double = 0 then pure 0
    else do
      let outer ← DiskM.readBlock r.double.toNat
      let inner := outer.word ((i - singleReach) / blockWords)
      if inner = 0 then pure 0
      else do
        let table ← DiskM.readBlock inner.toNat
        pure (table.word ((i - singleReach) % blockWords))
  else throw .fileTooLarge

end Record

/-! ## Extending the index -/

/-- What extending an index works on: the disk, the record, and the blocks still to be used. -/
structure Growth where
  disk : Disk
  record : Record
  supply : List UInt32

/-- A step of extending an index. A step that fails keeps what was done before. -/
abbrev GrowthM := EStateM Error Growth

namespace Growth

/-- An action on the disk alone. -/
def onDisk {α : Type} (x : DiskM α) : GrowthM α := fun g =>
  let ⟨disk, record, supply⟩ := g
  match x disk with
  | .ok a disk => .ok a ⟨disk, record, supply⟩
  | .error e disk => .error e ⟨disk, record, supply⟩

/-- The next block of the supply. -/
def next : GrowthM UInt32 := fun g =>
  match g with
  | ⟨disk, record, []⟩ => .error .outOfSpace ⟨disk, record, []⟩
  | ⟨disk, record, b :: rest⟩ => .ok b ⟨disk, record, rest⟩

/-- Changes the record. -/
def change (f : Record → Record) : GrowthM Unit := fun g =>
  let ⟨disk, record, supply⟩ := g
  .ok () ⟨disk, f record, supply⟩

/-- The record as it is now. -/
def current : GrowthM Record := fun g => .ok g.record g

/-- Gives the next `n` pieces their pointers in the record, from piece `i` on. -/
def fillDirect (i : Nat) : Nat → GrowthM Unit
  | 0 => pure ()
  | n + 1 => do
    let b ← next
    change fun r => { r with direct := r.direct.setIfInBounds i b }
    fillDirect (i + 1) n

/-- Puts the next `n` blocks into a table, from word `i` on. -/
def fillTable (table : Block) (i : Nat) : Nat → GrowthM Block
  | 0 => pure table
  | n + 1 => do
    let b ← next
    fillTable (table.setWord i b) (i + 1) n

/-- Extends the singly indirect table from piece `first` up to piece `last`. A table that is new takes
a block of its own and starts empty; any other is read. -/
def extendSingle (first last : Nat) : GrowthM Unit := do
  let table ←
    -- No piece of this tier exists yet, so neither does its table.
    if first = directCount then do
      let b ← next
      change fun r => { r with single := b }
      pure Block.zero
    else do
      onDisk (DiskM.readBlock (← current).single.toNat)
  let table ← fillTable table (first - directCount) (min last singleReach - first)
  onDisk (DiskM.writeBlock (← current).single.toNat table)

/-- Extends the inner table of one piece `p` of the doubly indirect tier, and answers the outer table,
which points at it. -/
def extendInner (outer : Block) (p : Piece) : GrowthM Block := do
  let (outer, id, table) ←
    -- The first piece below an inner table brings the table with it.
    if p.start = 0 then do
      let b ← next
      pure (outer.setWord p.cell b, b, Block.zero)
    else do
      let id := outer.word p.cell
      pure (outer, id, ← onDisk (DiskM.readBlock id.toNat))
  let table ← fillTable table p.start p.size
  onDisk (DiskM.writeBlock id.toNat table)
  pure outer

/-- Extends the doubly indirect tier from piece `first` up to piece `last`. -/
def extendDouble (first last : Nat) : GrowthM Unit := do
  let outer ←
    -- No piece of this tier exists yet, so neither does the outer table.
    if first = singleReach then do
      let b ← next
      change fun r => { r with double := b }
      pure Block.zero
    else do
      onDisk (DiskM.readBlock (← current).double.toNat)
  let outer ← (pieces blockWords (first - singleReach) (last - first)).foldlM extendInner outer
  onDisk (DiskM.writeBlock (← current).double.toNat outer)

/-- Extends the index up to piece `last`, one tier after the other; `first` is the number of pieces it
has. -/
def extend (first last : Nat) : GrowthM Unit := do
  if maxBlocks < last then throw .fileTooLarge
  -- A tier that has all its pieces already gets none: the differences stop at zero.
  fillDirect first (min last directCount - first)
  let first := max first (min last directCount)
  if first = last then return
  if first < singleReach then extendSingle first last
  let first := max first (min last singleReach)
  if first = last then return
  extendDouble first last

end Growth

namespace Record

/-- Extends the index of `r` for `size` bytes with the blocks of `supply`. Answers what came of it and
the record as it was left, which after a failure may hold some of the new pointers. The length is for
the caller to change. -/
def expand (r : Record) (size : Nat) (supply : List UInt32) (disk : Disk) :
    Except Error Unit × Record × Disk :=
  match Growth.extend (dataBlocks r.length.toNat) (dataBlocks size) ⟨disk, r, supply⟩ with
  | .ok () g => (.ok (), g.record, g.disk)
  | .error e g => (.error e, g.record, g.disk)

/-- The record with its index extended for `size` bytes and that length. -/
def expanded (r : Record) (size : Nat) (supply : List UInt32) : DiskM Record := fun disk =>
  match r.expand size supply disk with
  | (.ok (), r, disk) => .ok { r with length := UInt32.ofNat size } disk
  | (.error e, _, disk) => .error e disk

/-! ## Emptying the index -/

/-- The first `n` words of the table in block `id`, followed by the block itself. -/
def tableBlocks (id : UInt32) (n : Nat) : DiskM (List UInt32) := do
  let table ← DiskM.readBlock id.toNat
  pure ((List.range n).map table.word ++ [id])

/-- All blocks of the doubly indirect tier for `n` pieces, each inner table after the pieces it points
at and the outer table last. -/
def doubleBlocks (id : UInt32) (n : Nat) : DiskM (List UInt32) := do
  let outer ← DiskM.readBlock id.toNat
  let inner ← (pieces blockWords 0 (min n (blockWords * blockWords))).mapM fun p =>
    tableBlocks (outer.word p.cell) p.size
  pure (inner.flatten ++ [id])

/-- Every block that the index refers to: the pieces in order, each table after its pieces. -/
def ownedBlocks (r : Record) : DiskM (List UInt32) := do
  let count := dataBlocks r.length.toNat
  let direct := r.direct.toList.take count
  let single ←
    if directCount < count then tableBlocks r.single (min (count - directCount) blockWords)
    else pure []
  let double ←
    if singleReach < count then doubleBlocks r.double (count - singleReach)
    else pure []
  pure (direct ++ single ++ double)

/-- Lists every block of the index and empties the record; its kind stays. -/
def clear (r : Record) : DiskM (List UInt32 × Record) := do
  pure (← r.ownedBlocks, empty r.isDirectory)

end Record

end InodeVolume
