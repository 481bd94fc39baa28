import InodeVolume.Proofs.Leads
import InodeVolume.SpaceMap
import Mathlib.Logic.Function.Basic

/-!
# What a disk stores

A disk whose reads succeed is seen as a `Store`: which blocks the space map has as used, and what the
blocks outside the map hold. `Regime` says how many blocks there are and whether writes may fail. Above
this module no proof looks at bits of the map, at counters of accesses or at patterns of faults.

* `readBlock_yields`: a read answers what is stored;
* `writeBlock_leads`: a write replaces one block, or fails and changes nothing, the latter only where
  writes may fail.
-/

namespace InodeVolume

-- `^` on numbers is that of the core library, whatever else is known of them.
attribute [local instance (high)] instPowNat

/-- The conditions that a disk works under. -/
structure Regime where
  /-- How many blocks the device has. -/
  count : Nat
  /-- Whether writes may fail. -/
  faulty : Prop

namespace Regime

/-- The space map of such a disk. -/
def space (K : Regime) : SpaceMap := ⟨K.count⟩

/-- The first block behind the space map. -/
def dataStart (K : Regime) : Nat := SpaceMap.firstBlock + K.space.blockCount

/-- The space map takes block `id`. -/
def InMap (K : Regime) (id : Nat) : Prop := SpaceMap.firstBlock ≤ id ∧ id < K.dataStart

/-- Block `id` is there and does not belong to the space map. -/
def Plain (K : Regime) (id : Nat) : Prop := id < K.count ∧ ¬K.InMap id

/-- Block `id` lies behind the space map, where files have their blocks. -/
def IsData (K : Regime) (id : Nat) : Prop := K.dataStart ≤ id ∧ id < K.count

/-- Block numbers fit in a word, and there is room for the map and more. -/
structure Fits (K : Regime) : Prop where
  count_le : K.count ≤ 2 ^ (32 : Nat)
  room : K.dataStart < K.count

/-- All blocks of the space map are there. -/
def Mapped (K : Regime) : Prop := ∀ k, k < K.space.blockCount → SpaceMap.firstBlock + k < K.count

theorem Fits.mapped {K : Regime} (h : K.Fits) : K.Mapped := by
  intro k hk
  have := h.room
  simp only [dataStart] at this
  omega

theorem IsData.plain {K : Regime} {id : Nat} (h : K.IsData id) : K.Plain id :=
  ⟨h.2, fun hm => by have := hm.2; have := h.1; omega⟩

theorem dataStart_pos (K : Regime) : 0 < K.dataStart := by
  simp only [dataStart, SpaceMap.firstBlock]
  omega

theorem Fits.plain_zero {K : Regime} (h : K.Fits) : K.Plain 0 := by
  refine ⟨?_, fun hm => ?_⟩
  · have := h.room
    omega
  · have := hm.1
    simp [SpaceMap.firstBlock] at this

theorem IsData.pos {K : Regime} {id : Nat} (h : K.IsData id) : 0 < id :=
  Nat.lt_of_lt_of_le K.dataStart_pos h.1

/-- The map has a bit for every block. -/
theorem count_le_bits (K : Regime) : K.count ≤ K.space.blockCount * blockBits := by
  simp only [space, SpaceMap.blockCount, blockBits]
  omega

end Regime

/-- What the blocks of a disk hold. -/
structure Store where
  /-- Which blocks the space map has as used. -/
  used : Nat → Bool
  /-- What the blocks outside the map hold. -/
  data : Nat → Block

namespace Store

/-- The store after block `id` has been written. -/
def write (st : Store) (id : Nat) (b : Block) : Store :=
  { st with data := Function.update st.data id b }

/-- The store after the space map has changed. -/
def mark (st : Store) (used : Nat → Bool) : Store := { st with used := used }

@[simp] theorem write_used (st : Store) (id : Nat) (b : Block) : (st.write id b).used = st.used := rfl

@[simp] theorem write_data (st : Store) (id : Nat) (b : Block) :
    (st.write id b).data = Function.update st.data id b := rfl

@[simp] theorem mark_used (st : Store) (used : Nat → Bool) : (st.mark used).used = used := rfl

@[simp] theorem mark_data (st : Store) (used : Nat → Bool) : (st.mark used).data = st.data := rfl

end Store

/-! ## Accesses and the faults around them -/

/-- What accesses leave as it is: the number of blocks, the pattern of faults, and that a block lies
inside the medium. -/
structure Disk.Kept (disk disk' : Disk) : Prop where
  count : disk'.device.blockCount = disk.device.blockCount
  reads : disk'.faults.read = disk.faults.read
  writes : disk'.faults.write = disk.faults.write
  holds : ∀ id, disk.device.holds id = true → disk'.device.holds id = true

/-- Writing a block takes none of the others away. -/
theorem Device.holds_write {d d' : Device} {id : Nat} {data : ByteArray}
    (h : Device.write id data d = .ok () d') (other : Nat) (ho : d.holds other = true) :
    d'.holds other = true := by
  unfold Device.write at h
  split at h
  · cases h
  · split at h
    · cases h
      -- Memory holds all its blocks, and a file gets longer at most.
      cases hm : d.medium with
      | memory => simp [holds, Medium.stretch]
      | hostFile length =>
        simp only [holds, hm, decide_eq_true_eq, Medium.stretch] at ho ⊢
        omega
    · cases h

theorem Device.blockCount_write {d d' : Device} {id : Nat} {data : ByteArray}
    (h : Device.write id data d = .ok () d') : d'.blockCount = d.blockCount := by
  unfold Device.write at h
  split at h
  · cases h
  · split at h
    · cases h
      simp [blockCount]
    · cases h

/-- A read that the faults and the medium let through succeeds. -/
theorem DiskM.readBlock_of_steady {disk : Disk} {id : Nat} (hid : id < disk.device.blockCount)
    (hr : ∀ n id, disk.faults.read n id = false) (hh : disk.device.holds id = true) :
    ∃ disk', readBlock id disk = .ok (disk.device.block id) disk' ∧ disk.Kept disk' ∧
      disk'.device.blocks = disk.device.blocks := by
  obtain ⟨device, ⟨read, write, reads, writes⟩⟩ := disk
  have hno : device.refusal id blockSize = none :=
    (Device.refusal_eq_none_iff device id blockSize).2 ⟨rfl, hid⟩
  have hread : read reads id = false := hr reads id
  have hhold : device.holds id = true := hh
  refine ⟨⟨{ device with reads := device.reads + 1 }, ⟨read, write, reads + 1, writes⟩⟩, ?_, ?_, rfl⟩
  · simp [readBlock, ofDevice, Disk.read, hread, Device.read, hno, hhold]
  · exact ⟨rfl, rfl, rfl, fun _ h => h⟩

/-- A write of a block that exists stores it, or fails by a fault and does not reach the device. -/
theorem DiskM.writeBlock_cases {disk : Disk} {id : Nat} (hid : id < disk.device.blockCount)
    (b : Block) :
    (∃ disk', writeBlock id b disk = .ok () disk' ∧ disk.Kept disk' ∧
        disk'.device.block = Function.update disk.device.block id b) ∨
      (∃ disk', writeBlock id b disk = .error (.device .io) disk' ∧ disk.Kept disk' ∧
        disk'.device = disk.device ∧ ∃ n, disk.faults.write n id = true) := by
  obtain ⟨device, ⟨read, write, reads, writes⟩⟩ := disk
  -- The block exists and has the right size, so the script of faults alone decides.
  cases hw : write writes id with
  | true =>
    refine .inr ⟨⟨device, ⟨read, write, reads, writes + 1⟩⟩, ?_, ⟨rfl, rfl, rfl, fun _ h => h⟩, rfl,
      writes, hw⟩
    simp [writeBlock, ofDevice, Disk.write, hw]
  | false =>
    have hno : device.refusal id b.bytes.size = none :=
      (Device.refusal_eq_none_iff device id b.bytes.size).2 ⟨b.size_bytes, hid⟩
    have hdev : ∃ device', Device.write id b.bytes device = .ok () device' := by
      unfold Device.write
      rw [hno]
      exact ⟨_, dif_pos b.size_bytes⟩
    obtain ⟨device', hdev⟩ := hdev
    refine .inl ⟨⟨device', ⟨read, write, reads, writes + 1⟩⟩, ?_, ?_, ?_⟩
    · simp [writeBlock, ofDevice, Disk.write, hw, hdev]
    · exact ⟨Device.blockCount_write hdev, rfl, rfl, Device.holds_write hdev⟩
    · funext other
      by_cases ho : other = id
      · subst ho
        simp [Device.block_write hdev]
      · rw [Function.update_of_ne ho]
        exact Device.block_write_ne hdev (Ne.symm ho)

/-! ## Disks that show a store -/

/-- The disk works under the conditions of `K` and stores `st`. -/
structure Shows (K : Regime) (st : Store) (disk : Disk) : Prop where
  count : disk.device.blockCount = K.count
  holds : ∀ id, id < K.count → disk.device.holds id = true
  reads : ∀ n id, disk.faults.read n id = false
  writes : ¬K.faulty → ∀ n id, disk.faults.write n id = false
  data : ∀ id, K.Plain id → disk.device.block id = st.data id
  used : ∀ i, i < K.space.blockCount * blockBits → SpaceMap.bit disk.device i = st.used i
  /-- Bits past the number of blocks are clear. -/
  spare : ∀ i, K.count ≤ i → st.used i = false

variable {K : Regime} {st : Store}

/-- As `Shows`, but the bits past the number of blocks may be anything. -/
structure Stores (K : Regime) (st : Store) (disk : Disk) : Prop where
  count : disk.device.blockCount = K.count
  holds : ∀ id, id < K.count → disk.device.holds id = true
  reads : ∀ n id, disk.faults.read n id = false
  writes : ¬K.faulty → ∀ n id, disk.faults.write n id = false
  data : ∀ id, K.Plain id → disk.device.block id = st.data id
  used : ∀ i, i < K.space.blockCount * blockBits → SpaceMap.bit disk.device i = st.used i

theorem Shows.stores {disk : Disk} (h : Shows K st disk) : Stores K st disk :=
  ⟨h.count, h.holds, h.reads, h.writes, h.data, h.used⟩

theorem Stores.shows {disk : Disk} (h : Stores K st disk) (hspare : ∀ i, K.count ≤ i → st.used i = false) :
    Shows K st disk :=
  ⟨h.count, h.holds, h.reads, h.writes, h.data, h.used, hspare⟩

theorem Stores.of_kept {disk disk' : Disk} (h : Stores K st disk) (hk : disk.Kept disk')
    (hb : disk'.device.block = disk.device.block) : Stores K st disk' where
  count := hk.count.trans h.count
  holds id hid := hk.holds id (h.holds id hid)
  reads n id := by rw [hk.reads]; exact h.reads n id
  writes hf n id := by rw [hk.writes]; exact h.writes hf n id
  data id hid := by rw [hb]; exact h.data id hid
  used i hi := by
    rw [← h.used i hi]
    simp only [SpaceMap.bit, hb]

theorem Shows.of_kept {disk disk' : Disk} (h : Shows K st disk) (hk : disk.Kept disk')
    (hb : disk'.device.block = disk.device.block) : Shows K st disk' :=
  (h.stores.of_kept hk hb).shows h.spare

/-- An action that leaves the bits past the number of blocks alone leaves them clear. -/
theorem Leads.of_stores {α : Type} {x : DiskM α} {post : Except Error α → Store → Prop}
    (h : Leads (Stores K) st x post)
    (hspare : ∀ r st', post r st' → ∀ i, K.count ≤ i → st'.used i = st.used i) :
    Leads (Shows K) st x post := by
  intro disk hs
  -- The bits behind the last block were clear and have not been touched.
  have hclear (r : Except Error α) (st' : Store) (hpost : post r st') (i : Nat) (hi : K.count ≤ i) :
      st'.used i = false := by
    rw [hspare r st' hpost i hi]
    exact hs.spare i hi
  rcases h.run hs.stores with ⟨v, disk', st', hx, hs', hpost⟩ | ⟨e, disk', st', hx, hs', hpost⟩
  · rw [hx]
    exact ⟨st', hs'.shows (hclear _ _ hpost), hpost⟩
  · rw [hx]
    exact ⟨st', hs'.shows (hclear _ _ hpost), hpost⟩

/-- A read of a block outside the map answers what is stored. -/
theorem readBlock_yields {id : Nat} (hid : K.Plain id) :
    Yields (Shows K) st (DiskM.readBlock id) (st.data id) st := by
  intro disk hs
  obtain ⟨disk', hr, hk, hb⟩ := DiskM.readBlock_of_steady (by rw [hs.count]; exact hid.1) hs.reads
    (hs.holds id hid.1)
  have hblock : disk'.device.block = disk.device.block := by
    funext i
    simp only [Device.block, hb]
  rw [hr, hs.data id hid]
  exact ⟨st, hs.of_kept hk hblock, rfl, rfl⟩

/-- A write of a block outside the map replaces it, or fails where writes may fail. -/
theorem writeBlock_leads {id : Nat} (hid : K.Plain id) (b : Block) :
    Leads (Shows K) st (DiskM.writeBlock id b) fun r st' =>
      (r = .ok () ∧ st' = st.write id b) ∨ (K.faulty ∧ r = .error (.device .io) ∧ st' = st) := by
  intro disk hs
  have hlt : id < disk.device.blockCount := by
    rw [hs.count]
    exact hid.1
  rcases DiskM.writeBlock_cases hlt b with ⟨disk', hw, hk, hb⟩ | ⟨disk', hw, hk, hd, n, hn⟩
  · rw [hw]
    refine ⟨st.write id b, ?_, .inl ⟨rfl, rfl⟩⟩
    exact
      { count := hk.count.trans hs.count
        holds := fun i hi => hk.holds i (hs.holds i hi)
        reads := fun n i => by rw [hk.reads]; exact hs.reads n i
        writes := fun hf n i => by rw [hk.writes]; exact hs.writes hf n i
        data := fun i hi => by
          rw [hb, Store.write_data]
          by_cases h : i = id
          · subst h
            simp
          · simp [h, hs.data i hi]
        used := fun i hi => by
          -- The block of a bit lies inside the map, and `id` does not.
          have hmap : K.InMap (SpaceMap.firstBlock + i / blockBits) := by
            refine ⟨Nat.le_add_right _ _, ?_⟩
            have : i / blockBits < K.space.blockCount := Nat.div_lt_of_lt_mul (by rwa [Nat.mul_comm])
            simp only [Regime.dataStart]
            omega
          have hne : SpaceMap.firstBlock + i / blockBits ≠ id := by
            rintro rfl
            exact hid.2 hmap
          rw [Store.write_used, ← hs.used i hi]
          simp only [SpaceMap.bit, hb, Function.update_of_ne hne]
        spare := hs.spare }
  · rw [hw]
    have hblock : disk'.device.block = disk.device.block := by rw [hd]
    refine ⟨st, hs.of_kept hk hblock, .inr ⟨?_, rfl, rfl⟩⟩
    by_contra hf
    rw [hs.writes hf n id] at hn
    cases hn

end InodeVolume
