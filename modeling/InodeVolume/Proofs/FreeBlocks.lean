import InodeVolume.Proofs.Clients
import Mathlib.Order.Bounds.Defs
import Mathlib.Order.CompletePartialOrder
import Mathlib.Order.Interval.Set.Defs

/-!
# The space map as a set of free blocks

Whatever the blocks of a space map hold, the blocks that it has as free are a set, and taking and giving back
are what one expects of such a set (`SpaceMap.Serves`): the lowest run is taken, and only blocks that are not
free are given back. A run of demands on the map is a run on the set (`refines_of_mounted`), and no other bit
and no other block changes.
-/

namespace InodeVolume

-- `^` on numbers is that of the core library, whatever else is known of them.
attribute [local instance (high)] instPowNat

namespace SpaceMap

/-! ## Demands on a space map -/

/-- What is demanded of a space map. -/
inductive Demand where
  | allocate (count : Nat)
  | release (first : UInt32) (count : Nat)

namespace Demand

/-- A run that is taken is not empty. -/
def Proper : Demand → Prop
  | allocate count => 0 < count
  | release _ _ => True

/-- Carries out a demand; answers with the first of the blocks that it took, if it did. -/
def act (m : SpaceMap) : Demand → DiskM (Option UInt32)
  | allocate count => do pure (some (← m.allocate count))
  | release first count => do
    m.release first count
    pure none

end Demand

/-- Carries out one demand on the map of a disk. -/
def serve (m : SpaceMap) (q : Demand) (disk : Disk) : Except Error (Option UInt32) × Disk :=
  match q.act m disk with
  | .ok a disk => (.ok a, disk)
  | .error e disk => (.error e, disk)

/-- A run: demands on the map of a disk, with what they answered. -/
inductive Runs (m : SpaceMap) : Disk → List (Demand × Except Error (Option UInt32)) → Disk → Prop
  | nil (disk : Disk) : Runs m disk [] disk
  | cons {disk disk' : Disk} {l : List (Demand × Except Error (Option UInt32))} (q : Demand)
    (proper : q.Proper) (rest : Runs m (m.serve q disk).2 l disk') :
    Runs m disk ((q, (m.serve q disk).1) :: l) disk'

/-! ## Sets of free blocks -/

/-- The blocks that the map of a device has as free. -/
def freeSet (m : SpaceMap) (d : Device) : Set Nat := {id | m.Free d id}

/-- Where a run of `count` blocks starts that lies below `n` and is in `F` altogether. -/
def starts (n : Nat) (F : Set Nat) (count : Nat) : Set Nat :=
  {s | s + count ≤ n ∧ Set.Ico s (s + count) ⊆ F}

/-- What a demand comes to, if `F` are the free ones of `n` blocks. -/
inductive Serves (n : Nat) (F : Set Nat) : Demand → Except Error (Option UInt32) → Set Nat → Prop
  | allocated {count : Nat} {b : UInt32} (lowest : IsLeast (starts n F count) b.toNat) :
    Serves n F (.allocate count) (.ok (some b)) (F \ Set.Ico b.toNat (b.toNat + count))
  | exhausted {count : Nat} (full : starts n F count = ∅) :
    Serves n F (.allocate count) (.error .outOfSpace) F
  | released {first : UInt32} {count : Nat} (inside : first.toNat + count ≤ n)
    (used : Disjoint (Set.Ico first.toNat (first.toNat + count)) F) :
    Serves n F (.release first count) (.ok none) (F ∪ Set.Ico first.toNat (first.toNat + count))
  | refused {first : UInt32} {count : Nat} (bad : ¬(first.toNat + count ≤ n ∧
      Disjoint (Set.Ico first.toNat (first.toNat + count)) F)) :
    Serves n F (.release first count) (.error .corruptRecord) F

/-- A run on the set of the free ones of `n` blocks. -/
inductive SetRuns (n : Nat) : Set Nat → List (Demand × Except Error (Option UInt32)) → Set Nat → Prop
  | nil (F : Set Nat) : SetRuns n F [] F
  | cons {F F' F'' : Set Nat} {l : List (Demand × Except Error (Option UInt32))} {q : Demand}
    {a : Except Error (Option UInt32)} (head : Serves n F q a F') (rest : SetRuns n F' l F'') :
    SetRuns n F ((q, a) :: l) F''

/-! ## Used blocks and free blocks -/

/-- The free ones of `n` blocks, by which are in use. -/
def unused (n : Nat) (used : Nat → Bool) : Set Nat := {i | i < n ∧ used i = false}

section Unused

variable {K : Regime} {n start count : Nat} {used : Nat → Bool}

theorem mem_unused {i : Nat} : i ∈ unused n used ↔ i < n ∧ used i = false := Iff.rfl

/-- A run starts where all its bits are clear. -/
theorem mem_starts_unused : start ∈ starts n (unused n used) count ↔
    start + count ≤ n ∧ FreeRun used start count := by
  simp only [starts, Set.mem_ofPred_eq, FreeRun]
  constructor
  · rintro ⟨hend, hsub⟩
    exact ⟨hend, fun i hi hi' => (hsub ⟨hi, hi'⟩).2⟩
  · rintro ⟨hend, hrun⟩
    refine ⟨hend, fun i hi => ?_⟩
    exact ⟨Nat.lt_of_lt_of_le hi.2 hend, hrun i hi.1 hi.2⟩

theorem isLeast_of_lowestRun (h : LowestRun K used count (some start)) :
    IsLeast (starts K.count (unused K.count used) count) start := by
  obtain ⟨hend, hrun, hleast⟩ := h
  constructor
  · exact mem_starts_unused.2 ⟨hend, hrun⟩
  · intro s hs
    by_contra hlt
    exact hleast s (Nat.lt_of_not_le hlt) (mem_starts_unused.1 hs).2

theorem starts_of_lowestRun (h : LowestRun K used count none) :
    starts K.count (unused K.count used) count = ∅ := by
  apply Set.eq_empty_of_forall_notMem
  intro s hs
  obtain ⟨hend, hrun⟩ := mem_starts_unused.1 hs
  exact h s hend hrun

/-- Taking a range takes it out of the free blocks. -/
theorem unused_taken : unused n (rangeSet used start count true) =
    unused n used \ Set.Ico start (start + count) := by
  ext i
  by_cases hi : start ≤ i ∧ i < start + count
  · simp [mem_unused, rangeSet, hi]
  · simp [mem_unused, rangeSet, hi]

/-- Giving a range back adds it to the free blocks. -/
theorem unused_returned (hend : start + count ≤ n) : unused n (rangeSet used start count false) =
    unused n used ∪ Set.Ico start (start + count) := by
  ext i
  by_cases hi : start ≤ i ∧ i < start + count
  · have hlt : i < n := by omega
    simp [mem_unused, rangeSet, hi, hlt]
  · simp [mem_unused, rangeSet, hi]

theorem disjoint_unused_iff (hend : start + count ≤ n) :
    Disjoint (Set.Ico start (start + count)) (unused n used) ↔
      ∀ i, start ≤ i → i < start + count → used i ≠ false := by
  rw [Set.disjoint_left]
  constructor
  · intro h i hi hi' hclear
    exact h ⟨hi, hi'⟩ ⟨by omega, hclear⟩
  · intro h i hi hfree
    exact h i hi.1 hi.2 hfree.2

end Unused

/-! ## One demand -/

variable {K : Regime} {st : Store} {q : Demand}

/-- What a demand leaves: another set of free blocks, and everything else as it was. -/
structure Served (K : Regime) (st : Store) (q : Demand) (a : Except Error (Option UInt32)) (st' : Store) :
    Prop where
  serves : Serves K.count (unused K.count st.used) q a (unused K.count st'.used)
  data : st'.data = st.data
  spare : ∀ i, K.count ≤ i → st'.used i = st.used i

/-- Taking blocks serves the demand: the least run that is free, or none and no change. -/
theorem allocate_served (hM : K.Mapped) (hcount : K.count ≤ 2 ^ (32 : Nat)) (hf : ¬K.faulty) {count : Nat}
    (hc : 0 < count) :
    Leads (Stores K) st ((Demand.allocate count).act K.space) (Served K st (.allocate count)) := by
  apply Leads.bind (Stores.allocate_leads hM hcount hc)
  · rintro b st' (⟨s, hb, hrun, rfl⟩ | ⟨hb, -⟩ | ⟨-, hb, -⟩)
    · cases hb
      have hend := hrun.1
      apply Leads.pure
      refine ⟨?_, rfl, fun i hi => rangeSet_of_le _ _ (by omega)⟩
      rw [Store.mark_used, unused_taken]
      exact .allocated (isLeast_of_lowestRun hrun)
    · cases hb
    · cases hb
  · rintro e st' (⟨s, he, -⟩ | ⟨he, rfl, hnone⟩ | ⟨hfaulty, -⟩)
    · cases he
    · cases he
      exact ⟨.exhausted (starts_of_lowestRun hnone), rfl, fun _ _ => rfl⟩
    · exact absurd hfaulty hf

/-- Giving blocks back serves the demand: all of them, or none if one of them is not in use. -/
theorem release_served (hM : K.Mapped) (hf : ¬K.faulty) (first : UInt32) (count : Nat) :
    Leads (Stores K) st ((Demand.release first count).act K.space) (Served K st (.release first count)) := by
  apply Leads.bind (Stores.setRange_leads hM first.toNat count false)
  · rintro v st' (⟨-, hend, hused, rfl⟩ | ⟨hv, -⟩ | ⟨-, hv, -⟩)
    · apply Leads.pure
      refine ⟨?_, rfl, fun i hi => rangeSet_of_le _ _ (by omega)⟩
      rw [Store.mark_used, unused_returned hend]
      exact .released hend ((disjoint_unused_iff hend).2 hused)
    · cases hv
    · cases hv
  · rintro e st' (⟨he, -⟩ | ⟨he, rfl, hbad⟩ | ⟨hfaulty, -⟩)
    · cases he
    · cases he
      refine ⟨.refused ?_, rfl, fun _ _ => rfl⟩
      rintro ⟨hend, hdisjoint⟩
      -- The range ends behind the map, or one of its blocks is free already.
      rcases hbad with hlong | ⟨i, hi, hi', hclear⟩
      · omega
      · exact (disjoint_unused_iff hend).1 hdisjoint i hi hi' hclear
    · exact absurd hfaulty hf

/-- A demand is served from the set of free blocks. -/
theorem act_served (hM : K.Mapped) (hcount : K.count ≤ 2 ^ (32 : Nat)) (hf : ¬K.faulty) (hq : q.Proper) :
    Leads (Stores K) st (q.act K.space) (Served K st q) := by
  cases q with
  | allocate count => exact allocate_served hM hcount hf hq
  | release first count => exact release_served hM hf first count

/-! ## Runs -/

theorem serve_served {disk : Disk} (hM : K.Mapped) (hcount : K.count ≤ 2 ^ (32 : Nat)) (hf : ¬K.faulty)
    (hq : q.Proper) (hs : Stores K st disk) :
    ∃ st', Stores K st' (K.space.serve q disk).2 ∧ Served K st q (K.space.serve q disk).1 st' := by
  rcases (act_served hM hcount hf hq).run hs with ⟨a, disk', st', hx, hs', h⟩ | ⟨e, disk', st', hx, hs', h⟩
  · exact ⟨st', by simpa [serve, hx] using ⟨hs', h⟩⟩
  · exact ⟨st', by simpa [serve, hx] using ⟨hs', h⟩⟩

/-- A run of demands is a run on the set of free blocks. -/
theorem Runs.served {disk disk' : Disk} {l : List (Demand × Except Error (Option UInt32))} (hM : K.Mapped)
    (hcount : K.count ≤ 2 ^ (32 : Nat)) (hf : ¬K.faulty) (hr : Runs K.space disk l disk')
    (hs : Stores K st disk) :
    ∃ st', Stores K st' disk' ∧ SetRuns K.count (unused K.count st.used) l (unused K.count st'.used) ∧
      st'.data = st.data ∧ ∀ i, K.count ≤ i → st'.used i = st.used i := by
  generalize hm : K.space = m at hr
  induction hr generalizing st with
  | nil disk => exact ⟨st, hs, .nil _, rfl, fun _ _ => rfl⟩
  | cons q proper rest ih =>
    subst hm
    obtain ⟨st₁, hs₁, hserved⟩ := serve_served hM hcount hf proper hs
    obtain ⟨st', hs', hruns, hdata, hspare⟩ := ih hs₁
    refine ⟨st', hs', .cons hserved.serves hruns, hdata.trans hserved.data, fun i hi => ?_⟩
    rw [hspare i hi, hserved.spare i hi]

theorem freeSet_of_stores {disk : Disk} (hs : Stores K st disk) :
    K.space.freeSet disk.device = unused K.count st.used := by
  ext i
  have hbits : K.space.bits = K.count := rfl
  simp only [freeSet, Free, Set.mem_ofPred_eq, mem_unused, hbits]
  apply and_congr_right
  intro hi
  rw [hs.used i (Nat.lt_of_lt_of_le hi K.count_le_bits)]

/-- A disk as it is found: the map may hold anything. -/
theorem stores_found {n : Nat} {disk : Disk} (hn : disk.device.blockCount = n) (hw : disk.Works False) :
    Stores ⟨n, False⟩ ⟨bit disk.device, disk.device.block⟩ disk := by
  subst hn
  exact ⟨rfl, hw.holds, hw.reads, hw.writes, fun _ _ => rfl, fun _ _ => rfl⟩

/-- The map that a disk is mounted with describes all its blocks, and the disk goes on working. -/
theorem works_of_mounted {disk disk' : Disk} {m : SpaceMap} {format : Bool}
    (hn : disk.device.blockCount ≤ 2 ^ (32 : Nat)) (hw : disk.Works False)
    (hm : Volume.mountSpace format disk = .ok m disk') :
    m = ⟨disk.device.blockCount⟩ ∧ disk'.device.blockCount = disk.device.blockCount ∧ disk'.Works False := by
  -- A map that is found is not looked at. A new one is written, which keeps the disk working.
  cases format with
  | false =>
    cases hm
    exact ⟨rfl, rfl, hw⟩
  | true =>
    have hzeroed : Mapping ⟨disk.device.blockCount, False⟩ none disk :=
      ⟨rfl, hw.holds, hw.reads, hw.writes, fun k hk => absurd hk (Nat.not_lt_zero k)⟩
    have hformat := map_leads hn disk hzeroed
    rw [show SpaceMap.format disk = .ok m disk' from hm] at hformat
    obtain ⟨o, ho, ⟨hr, -, data, rfl⟩ | ⟨-, e, he⟩⟩ := hformat
    · cases hr
      exact ⟨rfl, ho.count, fun id hid => ho.holds id (ho.count ▸ hid), ho.reads, ho.writes⟩
    · cases he

theorem block_of_le {d : Device} {id : Nat} (h : d.blockCount ≤ id) : d.block id = .zero := by
  rw [Device.block, Array.getElem?_eq_none h]
  rfl

/-- On a device that works and on which the blocks of the map lie, a run of demands on a map that has just been
written or was found on the device is a run on its set of free blocks: the lowest run of free blocks is taken,
and blocks are given back exactly if none of them is free. Nothing else changes, neither the bits past the
number of blocks nor a block outside the map. -/
theorem refines_of_mounted {disk disk₁ disk₂ : Disk} {m : SpaceMap} {format : Bool}
    {l : List (Demand × Except Error (Option UInt32))} (hn : disk.device.blockCount ≤ 2 ^ (32 : Nat))
    (hw : disk.Works False) (hm : Volume.mountSpace format disk = .ok m disk₁)
    (hmap : ∀ k, k < m.blockCount → firstBlock + k < disk.device.blockCount) (hr : Runs m disk₁ l disk₂) :
    m.bits = disk.device.blockCount ∧
      SetRuns m.bits (m.freeSet disk₁.device) l (m.freeSet disk₂.device) ∧
      (∀ i, m.bits ≤ i → bit disk₂.device i = bit disk₁.device i) ∧
      ∀ id, ¬(firstBlock ≤ id ∧ id < firstBlock + m.blockCount) →
        disk₂.device.block id = disk₁.device.block id := by
  obtain ⟨rfl, hcount, hw₁⟩ := works_of_mounted hn hw hm
  have hM : Regime.Mapped ⟨disk.device.blockCount, False⟩ := hmap
  have hs₁ := stores_found hcount hw₁
  obtain ⟨st, hs₂, hruns, hdata, hspare⟩ := Runs.served hM hn id hr hs₁
  rw [← freeSet_of_stores hs₁, ← freeSet_of_stores hs₂] at hruns
  have hblocks (id : Nat)
      (hid : ¬(firstBlock ≤ id ∧ id < firstBlock + blockCount ⟨disk.device.blockCount⟩)) :
      disk₂.device.block id = disk₁.device.block id := by
    by_cases hlt : id < disk.device.blockCount
    · rw [hs₂.data id ⟨hlt, hid⟩, hdata]
    · have hle := Nat.le_of_not_lt hlt
      rw [block_of_le (hs₂.count.trans_le hle), block_of_le (by omega)]
  refine ⟨rfl, hruns, fun i hi => ?_, hblocks⟩
  -- A bit past the number of blocks is in the last block of the map or outside it.
  by_cases hlast : i < blockCount ⟨disk.device.blockCount⟩ * blockBits
  · rw [hs₂.used i hlast, hspare i hi]
  · have hout : blockCount ⟨disk.device.blockCount⟩ ≤ i / blockBits :=
      (Nat.le_div_iff_mul_le (by decide)).2 (Nat.le_of_not_lt hlast)
    rw [bit, bit, hblocks _ (by omega)]

/-- On a device of five thousand blocks a run is taken that goes through both blocks of the map, and its end is
given back. -/
theorem refines_of_found : ∃ disk a b disk₂, Volume.mountSpace false disk = .ok ⟨5000⟩ disk ∧
    Runs ⟨5000⟩ disk [(.allocate 4500, a), (.release 4000 500, b)] disk₂ ∧
      SetRuns 5000 (freeSet ⟨5000⟩ disk.device) [(.allocate 4500, a), (.release 4000 500, b)]
        (freeSet ⟨5000⟩ disk₂.device) := by
  have hcount : (Device.inMemory 5000).blockCount = 5000 := by simp [Device.inMemory, Device.blockCount]
  have hmount : Volume.mountSpace false { device := .inMemory 5000 } =
      .ok ⟨5000⟩ { device := .inMemory 5000 } := by
    show EStateM.Result.ok (⟨(Device.inMemory 5000).blockCount⟩ : SpaceMap) _ = _
    rw [hcount]
  -- The run that is taken reaches over the first block of the map, and the one given back lies across the
  -- two.
  have hruns : Runs ⟨5000⟩ { device := .inMemory 5000 } _ _ :=
    .cons (.allocate 4500) (show 0 < 4500 by decide) (.cons (.release 4000 500) trivial (.nil _))
  have hsize : ({ device := .inMemory 5000 } : Disk).device.blockCount ≤ 2 ^ (32 : Nat) :=
    hcount.trans_le (by decide)
  have h := refines_of_mounted hsize ⟨fun _ _ => rfl, fun _ _ => rfl, fun _ _ _ => rfl⟩ hmount ?_ hruns
  · exact ⟨_, _, _, _, hmount, hruns, h.2.1⟩
  · intro k hk
    have hblocks : blockCount ⟨5000⟩ = 2 := by decide
    rw [hcount]
    simp only [firstBlock]
    omega

end SpaceMap

end InodeVolume
