import InodeVolume.Proofs.Remounting
import InodeVolume.Proofs.TwinRuns

/-!
# Formatting forgets

Formatting needs three blocks and no more. What it leaves is the same on every disk of a size, whatever the disk
held before: the map and the block of the root directory are the only blocks in use (`Volume.New`), and what
lies in the other ones never shows, not in any later operation (`formats_forgets`).

The two new maps leave the disks alike but for the block of the root, which is written next. From there on the
two volumes are twins.
-/

namespace InodeVolume

open Record SpaceMap

variable {K : Regime} {W : World} {m : Node} {s t : Disk} {v w : Volume}

/-! ## How many blocks it takes -/

/-- How many blocks the map of a device of `count` blocks takes. -/
theorem blockCount_space (count : Nat) (faulty : Prop) :
    (Regime.space ⟨count, faulty⟩).blockCount = (count + 4095) / 4096 := rfl

/-- Formatting a disk of one or two blocks is refused before anything is written. -/
theorem mountSpace_few (h : s.device.blockCount < 3) : Volume.mountSpace true s = .error .outOfSpace s := by
  have hfull : s.device.blockCount ≤ firstBlock + SpaceMap.blockCount ⟨s.device.blockCount⟩ := by
    rw [show SpaceMap.blockCount ⟨s.device.blockCount⟩ = (s.device.blockCount + 4095) / 4096 from rfl, firstBlock]
    omega
  have hof : SpaceMap.ofDevice s = .ok ⟨s.device.blockCount⟩ s := rfl
  show SpaceMap.format s = _
  rw [SpaceMap.format, bind, Monad.toBind, EStateM.instMonad]
  simp only [EStateM.bind, hof]
  rw [if_pos hfull]
  rfl

theorem fits_of_three_le {count : Nat} (hcount : count ≤ 2 ^ (32 : Nat)) (h : 3 ≤ count) :
    Regime.Fits ⟨count, False⟩ := by
  refine ⟨hcount, ?_⟩
  simp only [Regime.dataStart, firstBlock, blockCount_space]
  omega

/-! ## Two disks -/

/-- New maps are alike, and but for block 0 they are all that is in use. -/
theorem blankStore_alike (data data' : Nat → Block) :
    (blankStore data K).Alike K [rootInode] (blankStore data' K) := by
  refine ⟨rfl, fun i hi hu hX => ?_⟩
  have hlt : i < K.dataStart := of_decide_eq_true hu
  have h0 : i ≠ 0 := fun h0 => hX rootInode (List.mem_singleton_self _) h0.symm
  exact absurd ⟨Nat.pos_of_ne_zero h0, hlt⟩ hi.2

theorem Pool.Walkable.onStore {P : Pool} {L : UInt32 → Prop} (h : P.Walkable L) (st : Store) :
    (P.onStore st).Walkable L := ⟨h.root, h.rootDirectory, h.stored, h.child⟩

namespace Volume

theorem createRoot_twins (hK : K.Fits) (hf : ¬K.faulty) (hheld : W.pool.held = [rootInode]) :
    Echoes (Volume.Twins K [rootInode] W) (Directory.create rootInode rootSlots)
      fun res => Volume.Paired K (InodeVolume.Twins K (unstored [rootInode] [] res)) := by
  rw [createRoot_eq]
  exact Inode.create_twins hK hf hheld _ _

theorem checkRoot_twinned (hK : K.Fits) (hf : ¬K.faulty) {L : UInt32 → Prop} (hR : W.pool.Walkable L)
    (hW : W.Attended) : Twinned K W checkRoot := by
  refine Twinned.seek hK hf (W.opened rootInode)
    (fun st => openRoot_yields (W := W.onStore st) hK (hR.onStore st) hW) rfl ?_
  exact Inode.close_twinned hK hf (by simp [World.opened_opens_self])

/-- Putting the two names into a new root comes to the same on both disks. -/
theorem linkRoot_twinned (hK : K.Fits) (hf : ¬K.faulty) (h : W.Planted K m) : Twinned K W (do
    let root ← Directory.openRoot
    let link : VolumeM Unit := do
      root.add "." rootInode
      root.add ".." rootInode
    link.andThen root.close) := by
  refine Twinned.seek hK hf (W.opened rootInode)
    (fun st => openRoot_yields hK (rooted_root (P := W.pool.onStore st) h.node h.bud).walkable h.attended) rfl ?_
  have hlink := addDots_leads (W := W.opened rootInode) (t := rootInode) hK h.node h.opened rfl rfl h.isDirectory
    h.blank.1 h.blank.2
  refine Twinned.andThen hlink (addDots_twinned (W := W.opened rootInode) hK hf h.node h.opened rootInode) ?_
  rintro r W₁ ⟨m', hbecomes, -⟩
  exact Inode.close_twinned hK hf (by simp [hbecomes.opens, h.opened])

/-- Preparing two formatted disks makes them twins. -/
theorem prepare_twins (hK : K.Fits) (hf : ¬K.faulty) (hnodes : W.pool.nodes = fun _ => none)
    (hopens : W.opens = fun _ => none) (hheld : W.pool.held = [rootInode])
    (hfree : 0 < K.free W.pool.store.used) :
    Echoes (Volume.Twins K [rootInode] W) (prepare true) fun _ => Volume.Paired K (InodeVolume.Twins K []) := by
  -- The block of the root is left out of account until its record is stored in it.
  have hformat : Echoes (Volume.Twins K [rootInode] W) formatRoot
      fun _ => Volume.Paired K (InodeVolume.Twins K []) := by
    refine Echoes.leadsBind (createRoot_leads hK hnodes hopens hheld hfree) (createRoot_twins hK hf hheld) ?_ ?_
    · rintro u W₁ (⟨-, m, h, -⟩ | ⟨-, e, he⟩)
      · exact linkRoot_twinned hK hf h
      · cases he
    · rintro e W₁ v w (⟨he, -⟩ | ⟨hfaulty, -⟩)
      · cases he
      · exact absurd hfaulty hf
  refine Echoes.leadsBind (formatRoot_leads hK hnodes hopens hheld hfree) hformat ?_ fun _ _ _ _ _ h => h
  rintro u W₁ (⟨-, m, h, -⟩ | ⟨-, e, he⟩)
  · exact checkRoot_twinned hK hf h.ordered.rooted.walkable h.ordered.attended
  · cases he

end Volume

/-- Two disks of the same size are twins once they are formatted, whatever they held before. -/
theorem Formats.paired (hK : K.Fits) (hf : ¬K.faulty) (hs : Zeroed K 0 s) (ht : Zeroed K 0 t) (hv : Formats s v)
    (hw : Formats t w) : Volume.Paired K (Twins K []) v w := by
  obtain ⟨space, s', hmap, hprepare⟩ := hv
  obtain ⟨space', t', hmap', hprepare'⟩ := hw
  obtain ⟨s'', data, hmap₁, hs'⟩ := mountSpace_formats hK hf hs
  obtain ⟨t'', data', hmap₂, ht'⟩ := mountSpace_formats hK hf ht
  cases hmap.symm.trans hmap₁
  cases hmap'.symm.trans hmap₂
  -- All that the disks held before is in `data` and `data'`, behind blocks that are not in use.
  have htwins : Volume.Twins K [rootInode] ⟨blankPool data K, fun _ => none⟩
      { disk := s', space := K.space } { disk := t', space := K.space } :=
    ⟨blank_mounts hs', .of_shows hf hs' ht' (blankStore_alike data data'), rfl, rfl, fun _ => rfl⟩
  obtain ⟨-, hpaired⟩ := Volume.prepare_twins hK hf rfl rfl rfl (blank_free hK data) _ _ htwins
  rw [outcome, hprepare, outcome, hprepare'] at hpaired
  exact hpaired

/-- Clients that start on such disks are matched. -/
theorem Formats.matched (hcount : s.device.blockCount ≤ 2 ^ (32 : Nat)) (hs : s.Works False) (ht : t.Works False)
    (hsame : t.device.blockCount = s.device.blockCount) (hv : Formats s v) (hw : Formats t w) :
    Client.Matched ⟨s.device.blockCount, False⟩ ⟨v, []⟩ ⟨w, []⟩ := by
  have hstarts : Client.Starts False s ⟨v, []⟩ := ⟨hcount, hs, hv, rfl⟩
  obtain ⟨W, m, hW, -⟩ := hstarts.stands_founded
  obtain ⟨slot, hslotted⟩ := hW.good.ordered.slotted hW.good.tracks
  exact ⟨hW.fits, id, rfl, W, hslotted.upheld, hW.mounts,
    hv.paired hW.fits id hs.zeroed (hsame ▸ ht.zeroed) hw⟩

/-! ## What formatting leaves -/

/-- But for its own two, the root has no names. -/
theorem World.Bare.search_eq_none (h : W.Bare m) : m.search Node.lists 0 = none := by
  cases hs : m.search Node.lists 0 with
  | none => rfl
  | some j =>
    obtain ⟨-, hlt, hp, -⟩ := Node.search_some hs
    rw [Node.lists, Bool.and_eq_true, Bool.not_eq_true'] at hp
    have hc := h.tidy.child_eq (x := (m.slot j).number) ⟨hlt, hp.1, rfl, rfl⟩
    rw [h.child, Volume.dots_none hp.2] at hc
    cases hc

/-- Two of the slots of the root are in use. -/
theorem World.Bare.card_vacant (h : W.Bare m) :
    ((Finset.range m.slots).filter fun j => (m.slot j).inUse = false).card = 14 := by
  have htaken : m.taken.card = 2 := by rw [← h.tidy.card_names, Volume.card_names_dots h.child]
  have hsum := Finset.card_filter_add_card_filter_not (s := Finset.range m.slots) fun j => (m.slot j).inUse = true
  simp only [Bool.not_eq_true] at hsum
  rw [← Node.taken, htaken, Finset.card_range, h.slots] at hsum
  rw [h.slots]
  exact Nat.add_left_cancel hsum

/-- The blocks in use are those up to the first one behind the map. -/
theorem Volume.Founded.used_iff (h : Volume.Founded K W m) (hP : W.pool.Sound K) (hf : ¬K.faulty) (i : Nat) :
    W.pool.store.used i = true ↔ i ≤ K.dataStart := by
  have hlength : m.owned.length = 1 := by
    rw [(hP.stored rootInode m h.bare.node).length_owned, h.bare.size]
    decide
  obtain ⟨b, hb⟩ := List.length_eq_one_iff.1 hlength
  have hplace : b.toNat = K.dataStart := h.place hf b (by rw [hb]; exact List.mem_singleton_self b)
  rw [used_of_root hP hf h.bare.nodes h.ordered.held, hb]
  simp only [List.mem_singleton, exists_eq_left, hplace]
  omega

/-- A volume of `count` blocks as formatting leaves it: nothing is open, the map and the block of the root are in
use, and the root has room for 14 names but none of them. -/
structure Volume.New (v : Volume) (count : Nat) : Prop where
  blocks : v.disk.device.blockCount = count
  closed : ∀ id : UInt32, v.registry[id]? = none
  used : ∀ i, i < count → (bit v.disk.device i = true ↔ i ≤ (count + 4095) / 4096 + 1)
  free : (outcome VolumeM.freeCount v).1 = .ok (count - 2 - (count + 4095) / 4096)
  root : ∃ n, v.disk.device.pool.nodes rootInode = some n ∧ n.record.isDirectory = true ∧ n.slots = 16 ∧
    ((Finset.range n.slots).filter fun j => (n.slot j).inUse = false).card = 14
  names : let root := directoryAt rootInode
    let (res, v') := outcome Directory.openRoot v
    res = .ok root ∧ (outcome (root.lookup ".") v').1 = .ok (some rootInode) ∧
      (outcome (root.lookup "..") v').1 = .ok (some rootInode) ∧ (outcome root.isEmpty v').1 = .ok true ∧
      (outcome (root.names none) v').1.map Prod.fst = .ok []

theorem Formats.new (hcount : s.device.blockCount ≤ 2 ^ (32 : Nat)) (hs : s.Works False) (hv : Formats s v) :
    v.New s.device.blockCount := by
  have hstarts : Client.Starts False s ⟨v, []⟩ := ⟨hcount, hs, hv, rfl⟩
  obtain ⟨W, m, hW, hfounded, hfree⟩ := hstarts.stands_founded
  have hmounts : Mounts _ W v := hW.mounts
  have hbare := hfounded.bare
  have hstart : Regime.dataStart ⟨s.device.blockCount, False⟩ = (s.device.blockCount + 4095) / 4096 + 1 := by
    rw [Regime.dataStart, blockCount_space, firstBlock, Nat.add_comm]
  refine ⟨hmounts.disk.shows.count, fun x => ?_, fun i hi => ?_, ?_, ⟨m, ?_, hbare.isDirectory, hbare.slots,
    hbare.card_vacant⟩, ?_⟩
  · rw [hmounts.registry, World.entry_of_none (by rw [hfounded.opens])]
  · rw [hmounts.disk.bit hi, hfounded.used_iff hmounts.disk.sound id, hstart]
  · obtain ⟨W', -, hres, -⟩ := (VolumeM.freeCount_yields hW.fits).comes hmounts
    rw [hres]
    congr 1
    omega
  · exact hmounts.disk.node hW.fits hbare.node
  · -- The rest is what the root answers once it is open.
    have hopen := Volume.openRoot_yields hW.fits hfounded.ordered.rooted.walkable hfounded.ordered.attended
    obtain ⟨W', hv', hres, rfl⟩ := hopen.comes hmounts
    generalize outcome Directory.openRoot v = p at hv' hres
    obtain ⟨res, v'⟩ := p
    have hn : (W.opened rootInode).pool.nodes rootInode = some m := hbare.node
    have ho := W.opened_opens_self rootInode
    have hlookup (name : String) : (outcome ((directoryAt rootInode).lookup name) v').1 = .ok (m.child name) := by
      obtain ⟨W'', -, hres, -⟩ := (Directory.lookup_yields (d := directoryAt rootInode) rfl hn ho name).comes hv'
      exact hres
    refine ⟨hres, ?_, ?_, ?_, ?_⟩
    · rw [hlookup, hbare.child]
      rfl
    · rw [hlookup, hbare.child]
      rfl
    · obtain ⟨W'', -, hres, -⟩ := (Directory.isEmpty_scans (d := directoryAt rootInode) rfl hn ho).comes hv'
      have hnone : m.search (fun s => s.inUse && !isDotName s.name) 0 = none := hbare.search_eq_none
      rw [hres, hnone]
      rfl
    · obtain ⟨W'', -, ⟨found, hres, hfound⟩, -⟩ := (Directory.names_answers hn ho).comes hv'
      rw [Node.listed, Node.listedFrom_none hbare.search_eq_none] at hfound
      rw [hres, Except.map, hfound]

/-- Formatting a device of fewer than three blocks is refused, and nothing is written. Every other device can be
formatted. What is in use then, and all that comes of operations by clients that keep to the rules, is the same
whatever the device held before. -/
theorem formats_forgets (hcount : s.device.blockCount ≤ 2 ^ (32 : Nat)) (hs : s.Works False) :
    (Volume.mountSpace true s = .error .outOfSpace s ↔ s.device.blockCount < 3) ∧
    (3 ≤ s.device.blockCount → ∃ v, Formats s v ∧ v.New s.device.blockCount ∧
      ∀ t w, t.Works False → t.device.blockCount = s.device.blockCount → Formats t w →
        v.SameInUse w ∧ ∀ l c, Client.Conducts Client.Keeping ⟨v, []⟩ l c →
          ∃ c', Client.Conducts Client.Keeping ⟨w, []⟩ l c' ∧ c'.handles = c.handles ∧
            c.volume.SameInUse c'.volume) := by
  have hformats (h : 3 ≤ s.device.blockCount) : ∃ v, Formats s v :=
    formats_exists (fits_of_three_le hcount h) id hs.zeroed
  refine ⟨⟨fun hfull => ?_, mountSpace_few⟩, fun h => ?_⟩
  · by_contra h
    obtain ⟨v, space, s', hmap, -⟩ := hformats (Nat.le_of_not_lt h)
    cases hfull.symm.trans hmap
  · obtain ⟨v, hv⟩ := hformats h
    refine ⟨v, hv, hv.new hcount hs, fun t w ht hsame hw => ?_⟩
    -- What was on the disk before cannot be told from any later answer.
    have hmatched := hv.matched hcount hs ht hsame hw
    refine ⟨hmatched.sameInUse, fun l c hc => ?_⟩
    obtain ⟨c', hc', hmatched'⟩ := hmatched.conducts hc
    exact ⟨c', hc', hmatched'.handles, hmatched'.sameInUse⟩

/-- A device of eight blocks of zeros, and one that was full of ones. -/
theorem formats_forgets_ones : ∃ v w,
    Formats { device := .inMemory 8 } v ∧ v.New 8 ∧
    Formats { device := ⟨Array.replicate 8 (.ofFn fun _ => 255), .memory, 0, 0⟩ } w ∧ v.SameInUse w ∧
    ∀ l c, Client.Conducts Client.Keeping ⟨v, []⟩ l c →
      ∃ c', Client.Conducts Client.Keeping ⟨w, []⟩ l c' ∧ c'.handles = c.handles ∧
        c.volume.SameInUse c'.volume := by
  have hworks (b : Block) : Disk.Works False { device := ⟨Array.replicate 8 b, .memory, 0, 0⟩ } :=
    ⟨fun _ _ => rfl, fun _ _ => rfl, fun _ _ _ => rfl⟩
  have hcount (b : Block) :
      (Disk.mk ⟨Array.replicate 8 b, .memory, 0, 0⟩ .never).device.blockCount = 8 := by
    simp [Device.blockCount]
  have hforgets (b : Block) := (formats_forgets (by rw [hcount]; decide) (hworks b)).2 (by rw [hcount]; decide)
  obtain ⟨v, hv, hnew, hsame⟩ := hforgets .zero
  obtain ⟨w, hw, -⟩ := hforgets (.ofFn fun _ => 255)
  rw [hcount] at hnew
  obtain ⟨hinUse, hlater⟩ := hsame _ w (hworks _) (by rw [hcount, hcount]) hw
  exact ⟨v, w, hv, hnew, hw, hinUse, hlater⟩

end InodeVolume
