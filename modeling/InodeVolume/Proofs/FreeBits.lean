import InodeVolume.Proofs.BlockCounts
import InodeVolume.Proofs.Entries

/-!
# Asking whether a block is free and giving it back

Giving a block back compares its number with the number of blocks; asking whether it is free looks its bit up
wherever on the device that would be. Below the number of blocks the two agree: what is said not to be free can
be given back, and nothing else. Past it nothing can be given back, but the bits of the last block of the space
map are clear, so that such blocks are said to be free, and further bits belong to whatever is stored behind
the map (`Client.isFree_release_of_lives`).
-/

namespace InodeVolume

namespace SpaceMap

/-- A new map describes the whole device, and there is room behind it. -/
theorem of_format {disk disk' : Disk} {m : SpaceMap} (h : format disk = .ok m disk') :
    m = ⟨disk.device.blockCount⟩ ∧ firstBlock + m.blockCount < m.bits := by
  simp only [format, ofDevice, DiskM.blockCount, Bind.bind, EStateM.bind, pure, EStateM.pure] at h
  by_cases hroom : disk.device.blockCount ≤ firstBlock + blockCount ⟨disk.device.blockCount⟩
  · rw [if_pos hroom] at h
    cases h
  · rw [if_neg hroom] at h
    -- The map is written and marked in three steps, each of which must have succeeded.
    simp only [EStateM.bind] at h
    split at h
    swap
    · cases h
    split at h
    swap
    · cases h
    split at h
    swap
    · cases h
    cases h
    exact ⟨rfl, Nat.lt_of_not_le hroom⟩

end SpaceMap

/-! ## Volumes on disks that work -/

/-- No access to the disk of the volume fails, and the space map describes all its blocks and lies on it. -/
structure Volume.Lies (v : Volume) : Prop where
  works : v.disk.Works False
  space : v.space = ⟨v.disk.device.blockCount⟩
  mapped : Regime.Mapped ⟨v.disk.device.blockCount, False⟩

namespace Volume

variable {disk : Disk} {v v' : Volume}

theorem Lies.of_kept (h : v.Lies) (hk : v.Kept v') : v'.Lies where
  works := h.works.of_kept hk.disk
  space := by rw [hk.space, h.space, hk.disk.count]
  mapped := by
    rw [hk.disk.count]
    exact h.mapped

theorem lies_of_formats (hw : disk.Works False) (h : Formats disk v) : v.Lies := by
  obtain ⟨m, disk', hm, hprepare⟩ := h
  obtain ⟨rfl, hroom⟩ := SpaceMap.of_format hm
  have hk : disk.Kept disk' := SpaceMap.format_tame.of_ok hm
  have hfresh : Lies { disk := disk', space := ⟨disk.device.blockCount⟩ } := by
    refine ⟨hw.of_kept hk, congrArg _ hk.count.symm, fun k hlt => ?_⟩
    rw [hk.count] at hlt ⊢
    exact Nat.lt_trans (Nat.add_lt_add_left hlt _) hroom
  exact hfresh.of_kept ((prepare_framed true).of_ok hprepare)

theorem Lies.of_remounts (h : v.Lies) (hr : Remounts v.disk v') : v'.Lies := by
  obtain ⟨m, disk', hm, hprepare⟩ := hr
  cases hm
  have hfresh : Lies { disk := v.disk, space := ⟨v.disk.device.blockCount⟩ } := ⟨h.works, rfl, h.mapped⟩
  exact hfresh.of_kept ((prepare_framed false).of_ok hprepare)

theorem Lies.carries (h : v.Lies) :
    Carries ⟨v.disk.device.blockCount, False⟩ ⟨SpaceMap.bit v.disk.device, v.disk.device.block⟩ v :=
  ⟨SpaceMap.stores_found rfl h.works, h.space⟩

end Volume

/-! ## Giving one block back -/

/-- A block is given back if it is one of the device and in use, and refused otherwise. -/
theorem VolumeM.release_one_leads {K : Regime} {st : Store} (hM : K.Mapped) (hf : ¬K.faulty) (s : UInt32) :
    Leads (Carries K) st (release s 1) fun res _ =>
      res = if s.toNat < K.count ∧ st.used s.toNat = true then .ok () else .error (.failed .corruptRecord) := by
  refine Leads.mono (onDisk_carries (SpaceMap.Stores.setRange_leads hM s.toNat 1 false)) ?_
  rintro res st' ⟨r, rfl, ⟨rfl, hend, hused, -⟩ | ⟨rfl, -, hbad⟩ | ⟨hfaulty, -⟩⟩
  · have hset := hused s.toNat (Nat.le_refl _) (Nat.lt_succ_self _)
    rw [if_pos ⟨hend, by simpa using hset⟩]
    rfl
  · rw [if_neg]
    · rfl
    · rintro ⟨hlt, hset⟩
      -- A range of one block that is refused ends past the map or has this block free.
      obtain hend | ⟨i, hi, hi', hclear⟩ := hbad
      · omega
      · rw [show i = s.toNat by omega, hset] at hclear
        cases hclear
  · exact absurd hfaulty hf

/-! ## Asking whether a block is free -/

/-- A read of a block that the device does not have is refused. -/
theorem DiskM.readBlock_of_outside {disk : Disk} {id : Nat} (hid : disk.device.blockCount ≤ id)
    (hr : ∀ n id, disk.faults.read n id = false) :
    (outcome (readBlock id) disk).1 = .error (.device .outOfRange) := by
  obtain ⟨device, ⟨read, write, reads, writes⟩⟩ := disk
  have hread : read reads id = false := hr reads id
  have hno : device.refusal id blockSize = some .outOfRange := by
    have hid : device.blockCount ≤ id := hid
    unfold Device.refusal
    split <;> simp [hid]
  simp [outcome, readBlock, ofDevice, Disk.read, hread, Device.read, hno]

/-- The bit of a block is looked up in whichever block it would be in. -/
theorem SpaceMap.isFree_of_works {disk : Disk} (hw : disk.Works False) (s : UInt32) :
    (outcome (isFree s) disk).1 =
      if firstBlock + s.toNat / blockBits < disk.device.blockCount then .ok (!bit disk.device s.toNat)
      else .error (.device .outOfRange) := by
  rw [isFree, load]
  -- The number is not checked. What counts is whether the block that its bit would lie in exists.
  split
  · rename_i hid
    obtain ⟨disk', hrun, -⟩ := DiskM.readBlock_of_steady hid hw.reads (hw.holds _ hid)
    have hread : outcome (DiskM.readBlock (firstBlock + s.toNat / blockBits)) disk =
        (.ok (disk.device.block (firstBlock + s.toNat / blockBits)), disk') := by rw [outcome, hrun]
    rw [outcome_bind_ok hread]
    rfl
  · rename_i hid
    have hrefused := DiskM.readBlock_of_outside (Nat.le_of_not_lt hid) hw.reads
    rw [outcome_bind_error (Prod.ext hrefused rfl)]

namespace Client

variable {c : Client}

/-- A deed that leaves the handles alone answers what its action comes to. -/
theorem perform_of_act {α : Type} {d : Deed} {x : VolumeM α} {g : α → Finding}
    (h : d.act c.handles = x >>= fun a => pure (g a, c.handles)) :
    (c.perform d).1 = (outcome x c.volume).1.map g := by
  simp only [perform, h, outcome, Bind.bind, EStateM.bind]
  cases x c.volume <;> rfl

theorem perform_release (h : c.volume.Lies) (s : UInt32) :
    (c.perform (.release s 1)).1 =
      if s.toNat < c.device.blockCount ∧ SpaceMap.bit c.device s.toNat = true then .ok .done
      else .error (.failed .corruptRecord) := by
  obtain ⟨st, -, hres⟩ := (VolumeM.release_one_leads h.mapped id s).comes h.carries
  rw [perform_of_act (x := VolumeM.release s 1) (g := fun _ => .done) rfl, hres]
  show Except.map _ (if s.toNat < c.device.blockCount ∧ SpaceMap.bit c.device s.toNat = true then _ else _) = _
  split <;> rfl

theorem perform_isFree (h : c.volume.Lies) (s : UInt32) :
    (c.perform (.isFree s)).1 =
      if SpaceMap.firstBlock + s.toNat / blockBits < c.device.blockCount then
        .ok (.flag (!SpaceMap.bit c.device s.toNat))
      else .error (.failed (.device .outOfRange)) := by
  have hraised : (outcome (VolumeM.onDisk fun _ => SpaceMap.isFree s) c.volume).1 =
      raised (outcome (SpaceMap.isFree s) c.volume.disk).1 := by
    simp only [outcome, VolumeM.onDisk]
    cases SpaceMap.isFree s c.volume.disk <;> rfl
  rw [perform_of_act (x := VolumeM.onDisk fun _ => SpaceMap.isFree s) (g := .flag) rfl, hraised,
    SpaceMap.isFree_of_works h.works]
  split <;> rfl

/-! ## All that happens to a formatted volume -/

/-- A client of a volume that was formatted on a disk whose accesses succeed, after any deeds, and after
the disk has been mounted again. -/
inductive Lives : Client → Prop
  | formatted {disk : Disk} {v : Volume} (works : disk.Works False) (formats : Formats disk v) : Lives ⟨v, []⟩
  | perform {c : Client} (h : Lives c) (d : Deed) : Lives (c.perform d).2
  | remounted {c : Client} (h : Lives c) {v : Volume} (remounts : Remounts c.volume.disk v) : Lives ⟨v, []⟩

theorem perform_kept (c : Client) (d : Deed) : c.volume.Kept (c.perform d).2.volume := by
  have hframed : VolumeM.Framed (d.act c.handles) := d.act_framed
  unfold perform
  split
  · rename_i hr
    exact hframed.of_ok hr
  · rename_i hr
    exact hframed.of_error hr

theorem Lives.lies (h : c.Lives) : c.volume.Lies := by
  induction h with
  | formatted works formats => exact Volume.lies_of_formats works formats
  | perform h d ih => exact ih.of_kept (perform_kept _ d)
  | remounted h remounts ih => exact ih.of_remounts remounts

/-- A client that has made requests that it may make is one of these. -/
theorem Asked.lives (h : c.Asked) : c.Lives := by
  obtain ⟨disk, ⟨v, handles⟩, hs, hr⟩ := h
  obtain rfl := hs.handles
  induction hr with
  | start => exact .formatted hs.works hs.formats
  | ask run r permitted h ih =>
    have hdeed := ih.perform (.request r)
    rw [perform_request] at hdeed
    exact hdeed

/-- As long as only such requests are made, the bits past the number of blocks stay clear. -/
theorem Asked.spare (h : c.Asked) {i : Nat} (hi : c.device.blockCount ≤ i)
    (hmap : i < SpaceMap.blockCount ⟨c.device.blockCount⟩ * blockBits) : SpaceMap.bit c.device i = false := by
  obtain ⟨K, W, T, -, ha⟩ := h.abides
  have hshows := ha.stands.mounts.disk.shows
  have hcount : c.device.blockCount = K.count := hshows.count
  rw [hcount] at hi hmap
  rw [hshows.used i hmap, hshows.spare i hi]

/-- Of the blocks of the device, exactly those that are said not to be free can be given back. No other
number can be given back. Asking for one answers a bit of whatever block the map would have there, and is
refused if the device has no such block; in the last block of the map these bits say free, as long as no deed
but requests has been done. -/
theorem isFree_release_of_lives (h : c.Lives) (s : UInt32) :
    (s.toNat < c.device.blockCount →
      ((c.perform (.isFree s)).1 = .ok (.flag false) ↔ (c.perform (.release s 1)).1 = .ok .done)) ∧
    (c.perform (.release s 1)).1 =
      (if s.toNat < c.device.blockCount ∧ SpaceMap.bit c.device s.toNat = true then .ok .done
        else .error (.failed .corruptRecord)) ∧
    (c.perform (.isFree s)).1 =
      (if SpaceMap.firstBlock + s.toNat / blockBits < c.device.blockCount then
          .ok (.flag (!SpaceMap.bit c.device s.toNat))
        else .error (.failed (.device .outOfRange))) ∧
    (c.Asked → c.device.blockCount ≤ s.toNat →
      s.toNat < SpaceMap.blockCount ⟨c.device.blockCount⟩ * blockBits →
      (c.perform (.isFree s)).1 = .ok (.flag true)) := by
  have hlies := h.lies
  have hfree := perform_isFree hlies s
  have hrelease := perform_release hlies s
  -- What the map has a bit for is looked up inside the map.
  have hinside (hmap : s.toNat < SpaceMap.blockCount ⟨c.device.blockCount⟩ * blockBits) :
      SpaceMap.firstBlock + s.toNat / blockBits < c.device.blockCount :=
    hlies.mapped _ (Nat.div_lt_of_lt_mul (by rwa [Nat.mul_comm]))
  refine ⟨fun hlt => ?_, hrelease, hfree, fun ha hle hmap => ?_⟩
  · have hmap := Nat.lt_of_lt_of_le hlt (Regime.count_le_bits ⟨c.device.blockCount, False⟩)
    rw [hfree, hrelease, if_pos (hinside hmap)]
    cases hbit : SpaceMap.bit c.device s.toNat <;> simp [hlt]
  · rw [hfree, if_pos (hinside hmap), ha.spare hle hmap]
    rfl

/-- On a formatted device of eight blocks the block with number eight is said to be free, although there is no
such block to be given back. -/
theorem isFree_release_past_end : ∃ c : Client, c.Lives ∧ c.Asked ∧ c.device.blockCount ≤ (8 : UInt32).toNat ∧
    (c.perform (.isFree 8)).1 = .ok (.flag true) ∧
    (c.perform (.release 8 1)).1 = .error (.failed .corruptRecord) := by
  have hfits : Regime.Fits ⟨8, False⟩ := ⟨by decide, by decide⟩
  obtain ⟨c, W, -, hs, hW, -⟩ := exists_starts_bare hfits
  have ha : c.Asked := ⟨_, c, hs, .start trivial⟩
  have hcount : c.device.blockCount = 8 := hW.mounts.disk.shows.count
  have height : (8 : UInt32).toNat = 8 := rfl
  obtain ⟨-, hrelease, -, hspare⟩ := isFree_release_of_lives ha.lives 8
  rw [hcount, height] at hspare
  rw [hcount, height, if_neg (by omega)] at hrelease
  exact ⟨c, ha.lives, ha, by rw [hcount, height], hspare ha (Nat.le_refl 8) (by decide), hrelease⟩

end Client

end InodeVolume
