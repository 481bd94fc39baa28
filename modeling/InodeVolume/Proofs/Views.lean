import InodeVolume.Proofs.Places
import InodeVolume.Proofs.Runs

/-!
# What a device shows

The inodes of a device are read off its blocks alone (`Device.node`), and with them all that can be said
of a pool: where names lead, what can be reached, which blocks belong to what (`Device.pool`). Where the
volume on it shows a world in order, everything in the tree of that world and everything that is open is
stored on the device as the world has it (`Stands.node`), so that the device has the same tree
(`Stands.rooted`).
-/

namespace InodeVolume

/-- The contents of an inode. -/
def Node.contents (n : Node) : ByteArray := bytesFrom n.byte 0 n.size

/-- The inode of a record, with the blocks as `D` has them. -/
def Record.nodeOn (D : Nat → Block) (r : Record) : Node where
  record := r
  owned := r.blocksIn D (dataBlocks r.length.toNat)
  byte i := if i < r.length.toNat then r.byteIn D i else 0

namespace Device

/-- The inode whose record is in block `id`, if there is a record. -/
def node (d : Device) (id : UInt32) : Option Node :=
  match Record.decode (d.block id.toNat) with
  | .ok r => some (r.nodeOn d.block)
  | .error _ => none

/-- All inodes of a device. -/
def pool (d : Device) : Pool where
  store := ⟨SpaceMap.bit d, d.block⟩
  nodes := d.node
  held := []

/-- The conditions that a device is used under. -/
def regime (d : Device) (faulty : Prop) : Regime := ⟨d.blockCount, faulty⟩

/-- The blocks that no inode has: the first one and those of the space map. -/
def reserved (d : Device) : Nat := (d.regime False).dataStart

/-- How many blocks of the device are free. -/
def free (d : Device) : Nat := (d.regime False).free (SpaceMap.bit d)

end Device

/-- An inode that is stored is what its record says. -/
theorem Stored.nodeOn_eq {K : Regime} {D : Nat → Block} {id : UInt32} {n : Node} (h : Stored K D id n) :
    n.record.nodeOn D = n := by
  have hbyte : (n.record.nodeOn D).byte = n.byte := by
    funext i
    show (if i < n.size then n.record.byteIn D i else 0) = n.byte i
    split
    · exact h.byte i ((Nat.div_lt_iff_lt_mul (by decide)).1 (Record.piece_lt ‹_›))
    · exact (h.tail i (Nat.le_of_not_lt ‹_›)).symm
  obtain ⟨record, owned, byte⟩ := n
  rw [Record.nodeOn, Node.mk.injEq]
  exact ⟨rfl, h.owned.symm, hbyte⟩

/-- An inode that is stored is the one that the device shows. -/
theorem Stored.node {K : Regime} {d : Device} {id : UInt32} {n : Node} (h : Stored K d.block id n) :
    d.node id = some n := by
  rw [Device.node, h.record]
  exact congrArg some h.nodeOn_eq

section Holds

variable {K : Regime} {P : Pool} {disk : Disk} {id : UInt32} {n : Node}

/-- A disk shows every inode of the pool that it holds. -/
theorem Holds.stored (hK : K.Fits) (h : Holds K P disk) (hn : P.nodes id = some n) :
    Stored K disk.device.block id n := by
  have hstored := h.sound.stored id n hn
  refine hstored.congr ?_ fun b hb => h.shows.data _ (hstored.owned_data hb).plain
  exact h.shows.data _ ((h.sound.place id (by simp [hn])).plain hK)

theorem Holds.node (hK : K.Fits) (h : Holds K P disk) (hn : P.nodes id = some n) :
    disk.device.node id = some n := (h.stored hK hn).node

theorem Holds.bit (h : Holds K P disk) {i : Nat} (hi : i < K.count) :
    SpaceMap.bit disk.device i = P.store.used i :=
  h.shows.used i (Nat.lt_of_lt_of_le hi K.count_le_bits)

theorem Holds.free (h : Holds K P disk) : disk.device.free = K.free P.store.used := by
  have hcount : (disk.device.regime False).count = K.count := h.shows.count
  rw [Device.free, Regime.free, Regime.free, hcount]
  congr 1
  refine Finset.filter_congr fun i hi => ?_
  rw [h.bit (Finset.mem_range.1 hi)]

theorem Holds.reserved (h : Holds K P disk) : disk.device.reserved = K.dataStart := by
  have hcount : (disk.device.regime False).count = K.count := h.shows.count
  simp only [Device.reserved, Regime.dataStart, Regime.space, hcount]

end Holds

/-! ## Clients -/

namespace Client

variable {K : Regime} {W : World} {T : Hierarchy} {c : Client} {x : UInt32} {n : Node}

/-- The device of a client. -/
abbrev device (c : Client) : Device := c.volume.disk.device

/-- All inodes that a client's device shows. -/
abbrev pool (c : Client) : Pool := c.device.pool

/-- How many handles of inode `x` deny writing to it. -/
def denials (c : Client) (x : UInt32) : Nat :=
  c.handles.countP fun h => h.target.number == x && h.denies

theorem Stands.denials_eq (h : c.Stands K W T) : W.denials = c.denials :=
  funext h.good.tracks.denials

/-- The device shows what is stored in the world. -/
theorem pool_node (hK : K.Fits) (hv : Mounts K W c.volume) (hn : W.pool.nodes x = some n) :
    c.pool.nodes x = some n :=
  hv.disk.node hK hn

theorem Stands.node (h : c.Stands K W T) (hn : W.pool.nodes x = some n) : c.pool.nodes x = some n :=
  pool_node h.fits h.mounts hn

theorem Stands.nodes_eq (h : c.Stands K W T) (hx : W.pool.nodes x ≠ none) :
    c.pool.nodes x = W.pool.nodes x := by
  obtain ⟨n, hn⟩ := Option.ne_none_iff_exists'.1 hx
  rw [hn, h.node hn]

/-- What is linked is on the device as in the world. -/
theorem Stands.nodes_linked (h : c.Stands K W T) (hx : T.linked x) : c.pool.nodes x = W.pool.nodes x :=
  h.nodes_eq (h.good.ordered.rooted.stored x hx)

theorem Stands.alike (h : c.Stands K W T) (hx : T.linked x) : Pool.Alike W.pool c.pool x :=
  Pool.Alike.of_eq (h.nodes_linked hx)

/-- The device has the tree of the world. -/
theorem Stands.rooted (h : c.Stands K W T) : c.pool.Rooted T :=
  h.good.ordered.rooted.of_alike fun _ hx => h.alike hx

theorem Stands.reachable_iff (h : c.Stands K W T) : c.pool.Reachable x ↔ T.linked x :=
  h.rooted.reachable_iff

theorem Stands.tree_eq (h : c.Stands K W T) : c.pool.tree = W.pool.tree :=
  h.good.ordered.rooted.tree_congr fun _ hx => (h.alike hx).child

/-- Names lead on the device to where they lead in the world. -/
theorem Stands.resolve_eq (h : c.Stands K W T) (hx : T.linked x) (l : List String) :
    c.pool.resolve x l = W.pool.resolve x l :=
  h.good.ordered.rooted.resolve_alike (fun _ hy => h.alike hy) hx l

/-- On the device a path leads where it leads in the world. -/
theorem Stands.find_eq (h : c.Stands K W T) (absolute : String) : c.pool.find absolute = W.pool.find absolute := by
  have hR := h.good.ordered.rooted
  rw [Pool.find_eq, Pool.find_eq, h.resolve_eq hR.root]
  split
  · rfl
  · cases ht : W.pool.resolve rootInode (Path.components (Path.parentPart absolute)) with
    | error e => rfl
    | ok t =>
      have hl := (hR.linked_resolve hR.root hR.rootDirectory ht).1
      simp only [Except.bind, (h.alike hl).child]

end Client

end InodeVolume
