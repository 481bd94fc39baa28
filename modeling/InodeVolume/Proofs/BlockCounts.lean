import InodeVolume.Proofs.Echoes
import InodeVolume.Proofs.FreeBlocks
import InodeVolume.Proofs.Remounting
import InodeVolume.Proofs.VolumeFrames

/-!
# Counting and taking blocks on a map that was found

A space map that was found on a device may hold anything, also in the bits past the number of blocks, which a
search never comes to but a count does. So the number that is counted as free is less by these bits than the
number of blocks that can be taken one after the other, and counting ends in a misuse where there are more of
them than free blocks (`Volume.freeCount_of_found`).
-/

namespace InodeVolume

/-! ## Volumes by the blocks of their disk -/

/-- The volume has its space map on a disk that stores `st`, whatever is open. -/
structure Carries (K : Regime) (st : Store) (v : Volume) : Prop where
  stores : Stores K st v.disk
  space : v.space = K.space

section Carries

variable {K : Regime} {st : Store} {v : Volume} {α : Type}

theorem onDisk_carries {x : SpaceMap → DiskM α} {post : Except Error α → Store → Prop}
    (h : Leads (Stores K) st (x K.space) post) :
    Leads (Carries K) st (VolumeM.onDisk x) fun res st' => ∃ r, res = raised r ∧ post r st' := by
  rintro ⟨disk, space, registry⟩ ⟨hd, rfl⟩
  rcases h.run hd with ⟨w, disk', st', hx, hs', hpost⟩ | ⟨e, disk', st', hx, hs', hpost⟩
  · simp only [VolumeM.onDisk, hx]
    exact ⟨st', ⟨hs', rfl⟩, .ok w, rfl, hpost⟩
  · simp only [VolumeM.onDisk, hx]
    exact ⟨st', ⟨hs', rfl⟩, .error e, rfl, hpost⟩

/-- Counting answers how many blocks are free, less by how many bits past their number are set. -/
theorem VolumeM.freeCount_leads (hM : K.Mapped) : Leads (Carries K) st freeCount fun res st' =>
    st' = st ∧ res = if K.spare st.used ≤ K.free st.used then .ok (K.free st.used - K.spare st.used)
      else .error (.misused .overfullMap) := by
  have hbits : K.space.bits = K.count := rfl
  refine Leads.bind (onDisk_carries (Yields.map (f := fun used => (K.space.bits, used))
    (SpaceMap.Stores.countUsed_yields hM))) ?_ ?_
  · rintro ⟨bits, used⟩ st' ⟨r, hr, rfl, rfl⟩
    cases hr
    -- Used and free bits are all bits of the map, those behind the last block included.
    have hcount := K.countP_add_free st'.used
    dsimp only
    by_cases hle : K.spare st'.used ≤ K.free st'.used
    · rw [if_pos (by omega), if_pos hle]
      exact Leads.pure ⟨rfl, congrArg Except.ok (by omega)⟩
    · rw [if_neg (by omega), if_neg hle]
      exact Leads.throw ⟨rfl, rfl⟩
  · rintro e st' ⟨r, hr, rfl, -⟩
    cases hr

/-- One block is taken as long as any is free. -/
theorem VolumeM.allocate_one_leads (hM : K.Mapped) (hf : ¬K.faulty) :
    Leads (Carries K) st (allocate 1) fun res st' =>
      (∃ b, res = .ok b ∧ K.free st'.used + 1 = K.free st.used) ∨
        (res = .error (.failed .outOfSpace) ∧ st' = st ∧ K.free st.used = 0) := by
  refine Leads.mono (onDisk_carries (SpaceMap.Stores.take_leads hM Nat.one_pos)) ?_
  rintro res st' ⟨r, rfl, ⟨s, rfl, hrun, rfl⟩ | ⟨rfl, rfl, hnone⟩ | ⟨hfaulty, -⟩⟩
  · obtain ⟨hlt, hfree, -⟩ := hrun.of_one
    refine .inl ⟨_, rfl, ?_⟩
    rw [Store.mark_used, SpaceMap.rangeSet_one]
    exact K.free_update hlt hfree
  · exact .inr ⟨rfl, rfl, K.free_eq_zero hnone.of_none⟩
  · exact absurd hfaulty hf

end Carries

/-! ## Taking blocks until there are none left -/

/-- Exactly `k` times one block can be taken; then there is none left. -/
def Volume.Grants : Nat → Volume → Prop
  | 0, v => (outcome (VolumeM.allocate 1) v).1 = .error (.failed .outOfSpace)
  | k + 1, v => (∃ b, (outcome (VolumeM.allocate 1) v).1 = .ok b) ∧ (outcome (VolumeM.allocate 1) v).2.Grants k

/-- As many blocks can be taken as are free, whatever the bits past the number of blocks are. -/
theorem Carries.grants_iff {K : Regime} {st : Store} {v : Volume} (h : Carries K st v) (hM : K.Mapped)
    (hf : ¬K.faulty) (k : Nat) : v.Grants k ↔ k = K.free st.used := by
  -- What is left to be taken is one less after each block.
  induction k generalizing st v with
  | zero =>
    obtain ⟨st', -, ⟨b, hb, hfree⟩ | ⟨hr, -, hfree⟩⟩ := (VolumeM.allocate_one_leads hM hf).comes h
    · simp only [Volume.Grants, hb, reduceCtorEq, false_iff]
      omega
    · simp only [Volume.Grants, hr, true_iff]
      exact hfree.symm
  | succ k ih =>
    obtain ⟨st', hst', ⟨b, hb, hfree⟩ | ⟨hr, -, hfree⟩⟩ := (VolumeM.allocate_one_leads hM hf).comes h
    · rw [Volume.Grants, ih hst']
      constructor
      · rintro ⟨-, rfl⟩
        exact hfree
      · intro hk
        exact ⟨⟨b, hb⟩, by omega⟩
    · simp only [Volume.Grants, hr, reduceCtorEq, exists_false, false_and, false_iff]
      omega

/-! ## Volumes that are found on a disk -/

/-- How many bits past the number of blocks are set in the space map of the device. -/
def Device.spare (d : Device) : Nat := (d.regime False).spare (SpaceMap.bit d)

/-- The volume has been put on the disk as the disk was found: its space map alone, or all of it. -/
inductive Volume.Found (disk : Disk) : Volume → Prop
  | space {m : SpaceMap} {disk' : Disk} (h : mountSpace false disk = .ok m disk') :
    Found disk { disk := disk', space := m }
  | volume {v : Volume} (h : Remounts disk v) : Found disk v

namespace Inode

variable {v v' : Volume}

/-- Opening an inode that is not open reads its record. -/
theorem acquire_of_closed {number : UInt32} {i : Inode} (hv : v.registry[number]? = none)
    (h : acquire number v = .ok i v') : i = ⟨number⟩ ∧ v'.disk.device.blocks = v.disk.device.blocks ∧
      ∃ record, v'.registry[number]? = some ⟨1, false, 0, record⟩ := by
  obtain ⟨disk, space, registry⟩ := v
  simp only at hv
  simp only [acquire, Bind.bind, EStateM.bind, VolumeM.registry, hv, VolumeM.onDisk, Record.load] at h
  -- Nobody has the inode open, so its record is read from its block.
  cases hr : DiskM.readBlock number.toNat disk with
  | error e disk' =>
    simp only [hr] at h
    cases h
  | ok b disk' =>
    have hblocks := (DiskM.readBlock_ok hr).2.1
    cases hb : Record.decode b with
    | error e =>
      simp only [hr, hb] at h
      cases h
    | ok record =>
      simp only [hr, hb] at h
      cases h
      exact ⟨rfl, hblocks, record, by simp⟩

/-- The last close of an inode that is not to be given up changes no block. -/
theorem close_of_last {i : Inode} {record : Record} (hv : v.registry[i.number]? = some ⟨1, false, 0, record⟩) :
    i.close v = .ok () { v with registry := v.registry.erase i.number } := by
  simp only [close, entry, Bind.bind, EStateM.bind, VolumeM.registry, hv]
  rfl

end Inode

/-- Making sure that there is a root directory changes no block. -/
theorem Volume.checkRoot_blocks {disk : Disk} {m : SpaceMap} {v : Volume}
    (h : checkRoot { disk := disk, space := m } = .ok () v) : v.disk.device.blocks = disk.device.blocks := by
  have hnone : (({} : Registry))[rootInode]? = none := Std.TreeMap.getElem?_emptyc
  simp only [checkRoot, Directory.openRoot, Bind.bind, EStateM.bind] at h
  -- Opening the root reads its record, and closing it again writes nothing.
  cases hi : Inode.acquire rootInode { disk := disk, space := m } with
  | error e w =>
    simp only [hi] at h
    cases h
  | ok i w =>
    obtain ⟨rfl, hblocks, record, hentry⟩ := Inode.acquire_of_closed hnone hi
    cases hd : Directory.ofInode ⟨rootInode⟩ w with
    | error e w' =>
      simp only [hi, hd] at h
      cases h
    | ok d w' =>
      obtain ⟨rfl, rfl, -⟩ := Directory.ofInode_eq_ok_iff.1 hd
      simp only [hi, hd, Directory.close, Inode.close_of_last (i := ⟨rootInode⟩) hentry] at h
      cases h
      exact hblocks

/-- A volume that has been put on a disk has its space map there, as it was found. -/
theorem Volume.Found.carries {disk : Disk} {v : Volume} (h : Found disk v) (hw : disk.Works False) :
    Carries ⟨disk.device.blockCount, False⟩ ⟨SpaceMap.bit disk.device, disk.device.block⟩ v := by
  have hspace {m : SpaceMap} {disk' : Disk} (hm : mountSpace false disk = .ok m disk') :
      m = ⟨disk.device.blockCount⟩ ∧ disk' = disk := by
    cases hm
    exact ⟨rfl, rfl⟩
  have hfound := SpaceMap.stores_found rfl hw
  -- Finding a map reads nothing. Finding a volume also reads its root.
  cases h with
  | space hm =>
    obtain ⟨rfl, rfl⟩ := hspace hm
    exact ⟨hfound, rfl⟩
  | volume hm =>
    obtain ⟨m, disk', hm, hprepare⟩ := hm
    obtain ⟨rfl, rfl⟩ := hspace hm
    have hk := checkRoot_framed.of_ok hprepare
    have hblock : v.disk.device.block = disk'.device.block := by
      funext id
      rw [Device.block, Device.block, checkRoot_blocks hprepare]
    exact ⟨hfound.of_kept hk.disk hblock, hk.space⟩

/-- On a disk whose accesses succeed and on which all blocks of the space map lie, whatever they hold: exactly
the free blocks can be taken one after the other. Counting answers their number less by how many bits past the
number of blocks are set, and is a misuse if these are more. So it answers how many blocks can be taken exactly
if none of these bits is set. -/
theorem Volume.freeCount_of_found {disk : Disk} {v : Volume} (hw : disk.Works False)
    (hmap : ∀ k, k < SpaceMap.blockCount ⟨disk.device.blockCount⟩ →
      SpaceMap.firstBlock + k < disk.device.blockCount) (h : Found disk v) :
    (∀ k, (outcome VolumeM.freeCount v).2.Grants k ↔ k = disk.device.free) ∧
      (outcome VolumeM.freeCount v).1 =
        (if disk.device.spare ≤ disk.device.free then .ok (disk.device.free - disk.device.spare)
          else .error (.misused .overfullMap)) ∧
      ((outcome VolumeM.freeCount v).1 = .ok disk.device.free ↔ disk.device.spare = 0) := by
  have hM : Regime.Mapped ⟨disk.device.blockCount, False⟩ := hmap
  obtain ⟨st, hst, rfl, hres⟩ := (VolumeM.freeCount_leads hM).comes (h.carries hw)
  refine ⟨hst.grants_iff hM id, hres, ?_⟩
  rw [hres]
  show (if disk.device.spare ≤ disk.device.free then Except.ok (disk.device.free - disk.device.spare)
    else Except.error (Stop.misused .overfullMap)) = _ ↔ _
  split
  · simp only [Except.ok.injEq]
    omega
  · simp only [reduceCtorEq, false_iff]
    omega

/-- A device of two blocks, both free, whose map has one bit set past them: two blocks can be taken, and one is
counted. -/
theorem Volume.freeCount_of_found_overfull : ∃ disk v, disk.Works False ∧
    (∀ k, k < SpaceMap.blockCount ⟨disk.device.blockCount⟩ →
      SpaceMap.firstBlock + k < disk.device.blockCount) ∧ Found disk v ∧
    (outcome VolumeM.freeCount v).1 = .ok 1 ∧ (outcome VolumeM.freeCount v).2.Grants 2 := by
  have hdevice (b : Block) :
      ∃ d : Device, d.blockCount = 2 ∧ d.medium = .memory ∧ d.block SpaceMap.firstBlock = b :=
    ⟨{ blocks := #[.zero, b], medium := .memory }, rfl, rfl, rfl⟩
  -- From here on the device is any with this one block of the map: nothing below has to compute with its
  -- bytes.
  obtain ⟨d, hcount, hmedium, hblock⟩ := hdevice (Block.zero.setBit 2 true)
  have hbit (i : Nat) (hi : i < blockBits) : SpaceMap.bit d i = decide (2 = i) := by
    rw [SpaceMap.bit, Nat.div_eq_of_lt hi, Nat.mod_eq_of_lt hi, Nat.add_zero, hblock,
      Block.bit_setBit _ _ _ hi, bit_zero]
    by_cases h : 2 = i <;> simp [h]
  have hregime : d.regime False = ⟨2, False⟩ := by rw [Device.regime, hcount]
  have hfree : d.free = 2 := by
    rw [Device.free, Regime.free, hregime]
    refine (congrArg Finset.card (Finset.filter_true_of_mem fun i hi => ?_)).trans (Finset.card_range 2)
    have hi : i < 2 := Finset.mem_range.1 hi
    rw [hbit i (by simp only [blockBits]; omega), decide_eq_false (by omega)]
  have hspare : d.spare = 1 := by
    have hbits : (Regime.space ⟨2, False⟩).blockCount * blockBits = blockBits := by decide
    rw [Device.spare, Regime.spare, hregime, hbits]
    refine Finset.card_eq_one.2 ⟨2, Finset.eq_singleton_iff_unique_mem.2 ⟨?_, fun i hi => ?_⟩⟩
    · exact Finset.mem_filter.2 ⟨Finset.mem_Ico.2 ⟨Nat.le_refl 2, by decide⟩, hbit 2 (by decide)⟩
    · obtain ⟨hi, hset⟩ := Finset.mem_filter.1 hi
      rw [hbit i (Finset.mem_Ico.1 hi).2] at hset
      exact (of_decide_eq_true hset).symm
  have hw : Disk.Works False { device := d } :=
    ⟨fun id _ => by simp [Device.holds, hmedium], fun _ _ => rfl, fun _ _ _ => rfl⟩
  have hmap : ∀ k, k < SpaceMap.blockCount ⟨d.blockCount⟩ → SpaceMap.firstBlock + k < d.blockCount := by
    rw [hcount]
    decide
  have hfound : Found { device := d } { disk := { device := d }, space := ⟨d.blockCount⟩ } := .space rfl
  obtain ⟨hgrants, hres, -⟩ := freeCount_of_found hw hmap hfound
  rw [hfree, hspare] at hres
  exact ⟨_, _, hw, hmap, hfound, hres, (hgrants 2).2 hfree.symm⟩

end InodeVolume
