import InodeVolume.Proofs.FreeBlocks

/-!
# A space map on a disk that fails

Before anything is stored, a range that is to be taken or given back is looked at as a whole, so that a demand
which is refused changes nothing. The blocks of the map are then stored one after the other. Where a read or a
write fails in between, those stored before it stay as they are: of the range a first part has been turned over,
which ends with a block of the map (`CutShort`).

Main statement: whatever the map holds and whichever accesses fail, a demand that fails leaves every bit as it
was, or a device error has cut it short (`kept_or_cutShort_of_failed`). This happens to ranges only whose bits
are in more than one block of the map (`CutShort.crosses`), and never to a single block, as files demand it.
-/

namespace InodeVolume

namespace SpaceMap

/-! ## Disks by the bits of their map -/

/-- The bits that are set on the disk, from the first block of the map on, are these. -/
def HasBits (used : Nat → Bool) (disk : Disk) : Prop := bit disk.device = used

/-- An error that a device reports. -/
def FromDevice (e : Error) : Prop := ∃ cause, e = .device cause

section HasBits

variable {used : Nat → Bool}

/-- Whichever accesses fail, the bits are read as they are and change by what is stored only. -/
theorem hasBits_reached : Reached HasBits (fun _ => True) FromDevice FromDevice where
  loads {used k} _ disk hs := by
    have hs : bit disk.device = used := hs
    cases hx : load k disk with
    | ok b disk' =>
      obtain ⟨rfl, hblocks, -⟩ := DiskM.readBlock_ok hx
      have hbits : bit disk'.device = used := by
        rw [← hs]
        funext i
        simp only [bit, Device.block, hblocks]
      refine ⟨used, hbits, rfl, .inl ⟨_, rfl, fun j hj => ?_⟩⟩
      -- Bit `j` of block `k` is where the map looks for bit `k * blockBits + j`.
      have hpos : 0 < blockBits := Nat.zero_lt_of_lt hj
      rw [← hs, bit, Nat.mul_comm, Nat.mul_add_div hpos, Nat.div_eq_of_lt hj, Nat.mul_add_mod,
        Nat.mod_eq_of_lt hj, Nat.add_zero]
    | error e disk' =>
      have hbits : bit disk'.device = used := by rw [DiskM.readBlock_error hx, hs]
      exact ⟨used, hbits, rfl, .inr ⟨e, rfl, DiskM.ofDevice_error hx⟩⟩
  stores {used k b} _ after hin hout disk hs := by
    have hs : bit disk.device = used := hs
    cases hx : store k b disk with
    | ok u disk' =>
      obtain ⟨hblock, hother⟩ := DiskM.writeBlock_ok hx
      refine ⟨after, funext fun i => ?_, .inl ⟨rfl, rfl⟩⟩
      by_cases hk : i / blockBits = k
      · have hbit := hin (i % blockBits) (Nat.mod_lt i (by decide))
        rw [← hk, Nat.mul_comm, Nat.div_add_mod] at hbit
        rw [bit, hk, hblock, hbit]
      · have hne : firstBlock + k ≠ firstBlock + i / blockBits := by omega
        rw [bit, hother _ hne, hout i hk, ← hs, bit]
    | error e disk' =>
      have hbits : bit disk'.device = used := by rw [DiskM.writeBlock_error hx, hs]
      exact ⟨used, hbits, .inr ⟨e, rfl, DiskM.ofDevice_error hx, rfl⟩⟩

/-- A search changes nothing, and fails only where a block of the map cannot be read. -/
theorem findFrom_hasBits (m : SpaceMap) (wanted k run left : Nat) :
    Leads HasBits used (m.findFrom wanted k run left) fun r used' =>
      used' = used ∧ ∀ e, r = .error e → FromDevice e := by
  -- By induction on the blocks of the map that are left. Each is only read.
  induction left generalizing k run with
  | zero => exact Leads.pure ⟨rfl, fun e he => by cases he⟩
  | succ left ih =>
    rw [findFrom]
    refine Leads.bind (hasBits_reached.loads trivial) ?_ ?_
    · rintro b used' ⟨rfl, -⟩
      split
      · exact Leads.pure ⟨rfl, fun e he => by cases he⟩
      · exact ih _ _
    · rintro e used' ⟨rfl, ⟨b, he, -⟩ | ⟨e', he, hfault⟩⟩
      · cases he
      · cases he
        exact ⟨rfl, fun e' he => by cases he; exact hfault⟩

end HasBits

/-! ## Demands that are cut short -/

namespace Demand

/-- What a demand sets bits to: blocks that are taken are in use. -/
def value : Demand → Bool
  | allocate _ => true
  | release _ _ => false

/-- The range of `count` blocks from `start` on may be the one that is demanded. -/
def Concerns : Demand → Nat → Nat → Prop
  | allocate wanted, _, count => count = wanted
  | release first wanted, start, count => start = first.toNat ∧ count = wanted

end Demand

/-- Of the range that is demanded, every bit of which had the other value, a first part has been turned over. It
ends with a block of the map, and is neither empty nor all of the range. -/
inductive CutShort (m : SpaceMap) (q : Demand) (before : Nat → Bool) : (Nat → Bool) → Prop
  | intro {start count n : Nat} (concerns : q.Concerns start count) (inside : start + count ≤ m.bits)
    (other : ∀ i, start ≤ i → i < start + count → before i ≠ q.value) (pos : 0 < n) (lt : n < count)
    (cut : (start + n) % blockBits = 0) : CutShort m q before (rangeSet before start n q.value)

variable {m : SpaceMap} {q : Demand} {before after used : Nat → Bool}

/-- Only a range that reaches into a second block of the map is cut short. -/
theorem CutShort.crosses (h : CutShort m q before after) :
    ∃ start count, q.Concerns start count ∧ start / blockBits < (start + count - 1) / blockBits := by
  -- The boundary at the cut has bits of the range on both sides.
  obtain @⟨start, count, n, concerns, -, -, pos, lt, cut⟩ := h
  refine ⟨start, count, concerns, ?_⟩
  unfold blockBits at cut ⊢
  omega

/-- Setting a range that is demanded fails without a trace, or is cut short by the device. -/
theorem setRange_cutShort {start count : Nat} (hq : q.Concerns start count) :
    Leads HasBits used (m.setRange start count q.value) fun r used' =>
      ∀ e, r = .error e → used' = used ∨ FromDevice e ∧ CutShort m q used used' := by
  refine Leads.mono (hasBits_reached.setRange_leads (fun _ _ => trivial) start count q.value) ?_
  rintro r used' (⟨rfl, -⟩ | ⟨-, rfl, -⟩ | ⟨e, rfl, hend, ⟨-, rfl⟩ | ⟨hfault, hother, n, hn, hcut, rfl⟩⟩) e' he
  · cases he
  · exact .inl rfl
  · exact .inl rfl
  · cases he
    -- A range that is cut at its start has not been touched.
    rcases Nat.eq_zero_or_pos n with rfl | hpos
    · exact .inl (rangeSet_zero used start q.value)
    · have hcut := hcut.resolve_left (Nat.ne_of_gt hpos)
      exact .inr ⟨hfault.elim id id, .intro hq hend hother hpos hn hcut⟩

theorem allocate_cutShort (m : SpaceMap) (wanted : Nat) :
    Leads HasBits used (m.allocate wanted) fun r used' =>
      ∀ e, r = .error e → used' = used ∨ FromDevice e ∧ CutShort m (.allocate wanted) used used' := by
  refine Leads.bind (findFrom_hasBits m wanted 0 0 m.blockCount) ?_ ?_
  · rintro (- | start) used' ⟨rfl, -⟩
    · exact Leads.throw fun _ _ => .inl rfl
    · refine Leads.bind (setRange_cutShort (q := .allocate wanted) rfl) ?_ ?_
      · exact fun _ _ _ => Leads.pure fun e he => by cases he
      · rintro e used'' h e' he
        exact h e' (by cases he; rfl)
  · rintro e used' ⟨rfl, -⟩ e' -
    exact .inl rfl

theorem act_cutShort (m : SpaceMap) (q : Demand) :
    Leads HasBits used (q.act m) fun r used' =>
      ∀ e, r = .error e → used' = used ∨ FromDevice e ∧ CutShort m q used used' := by
  -- What a demand answers with once it has succeeded is no error.
  have hanswer {α : Type} {x : DiskM α} {g : α → Option UInt32}
      (h : Leads HasBits used x fun r used' =>
        ∀ e, r = .error e → used' = used ∨ FromDevice e ∧ CutShort m q used used') :
      Leads HasBits used (x >>= fun v => pure (g v)) fun r used' =>
        ∀ e, r = .error e → used' = used ∨ FromDevice e ∧ CutShort m q used used' := by
    refine Leads.bind h (fun _ _ _ => Leads.pure fun e he => by cases he) ?_
    rintro e used' h e' he
    exact h e' (by cases he; rfl)
  cases q with
  | allocate wanted => exact hanswer (allocate_cutShort m wanted)
  | release first wanted => exact hanswer (setRange_cutShort (q := .release first wanted) ⟨rfl, rfl⟩)

/-- Whatever the map holds and whichever accesses fail, a demand that fails leaves every bit as it was, unless
it is cut short by an error of the device. -/
theorem kept_or_cutShort_of_failed {disk : Disk} {e : Error} (h : (m.serve q disk).1 = .error e) :
    bit (m.serve q disk).2.device = bit disk.device ∨
      FromDevice e ∧ CutShort m q (bit disk.device) (bit (m.serve q disk).2.device) := by
  obtain ⟨v, disk', used', hx, -, -⟩ | ⟨e', disk', used', hx, hs, hpost⟩ :=
    (act_cutShort m q).run (s := disk) (a := bit disk.device) rfl
  · simp [serve, hx] at h
  · simp only [serve, hx, Except.error.injEq] at h ⊢
    subst h
    rw [show bit disk'.device = used' from hs]
    exact hpost e' rfl

/-! ## A demand that is cut short -/

/-- A memory of which every write but the first fails. -/
def failingDisk (blocks : Array Block) : Disk := ⟨{ blocks := blocks, medium := .memory }, .from none (some 1) [] []⟩

/-- Giving back two blocks whose bits are in different blocks of the map stores the first of these and fails at
the second. -/
theorem serve_failingDisk {blocks : Array Block} {x y : Block} (hsize : blocks.size = 5000)
    (hx : blocks[1]? = some x) (hy : blocks[2]? = some y) (hused : x.bit 4095 = true ∧ y.bit 0 = true) :
    (serve ⟨5000⟩ (.release 4095 2) (failingDisk blocks)).1 = .error (.device .io) ∧
      (serve ⟨5000⟩ (.release 4095 2) (failingDisk blocks)).2.device.block 1 = x.setBit 4095 false := by
  have hpieces : pieces blockBits 4095 2 = [⟨0, 4095, 1⟩, ⟨1, 0, 1⟩] := by simp [pieces, blockBits]
  obtain ⟨hone, hx⟩ := Array.getElem?_eq_some_iff.1 hx
  obtain ⟨htwo, hy⟩ := Array.getElem?_eq_some_iff.1 hy
  simp [serve, Demand.act, release, setRange, hpieces, turnPiece, Block.turn?, hused, load, store,
    firstBlock, DiskM.readBlock, DiskM.writeBlock, DiskM.ofDevice, Disk.read, Disk.write, Device.read,
    Device.write, Device.refusal, Device.holds, Device.Medium.stretch, Device.block, Device.blockCount,
    Block.size_bytes, blockSize, failingDisk, hsize, hx, hy, Faults.from, Bind.bind, EStateM.bind, pure,
    EStateM.pure]

/-- Five thousand blocks, of which 4095 and 4096 are in use. -/
def straddled : Array Block :=
  ((Array.replicate 5000 .zero).setIfInBounds 1 (Block.zero.setBit 4095 true)).setIfInBounds 2
    (Block.zero.setBit 0 true)

theorem serve_straddled : (serve ⟨5000⟩ (.release 4095 2) (failingDisk straddled)).1 = .error (.device .io) ∧
    bit (failingDisk straddled).device 4095 = true ∧
      bit (serve ⟨5000⟩ (.release 4095 2) (failingDisk straddled)).2.device 4095 = false := by
  have hsize : straddled.size = 5000 := by simp [straddled]
  have hx : straddled[1]? = some (Block.zero.setBit 4095 true) := by simp [straddled]
  have hy : straddled[2]? = some (Block.zero.setBit 0 true) := by simp [straddled]
  have hlow : (Block.zero.setBit 4095 true).bit 4095 = true := Block.bit_setBit _ _ _ (by decide)
  have hhigh : (Block.zero.setBit 0 true).bit 0 = true := Block.bit_setBit _ _ _ (by decide)
  -- Bit 4095 is the last one of the first block of the map, and only that block has been stored.
  have hplace (d : Device) : bit d 4095 = (d.block 1).bit 4095 := rfl
  obtain ⟨hfailed, hblock⟩ := serve_failingDisk hsize hx hy ⟨hlow, hhigh⟩
  refine ⟨hfailed, ?_, ?_⟩
  · have hbefore : (failingDisk straddled).device.block 1 = Block.zero.setBit 4095 true := by
      rw [failingDisk, Device.block, hx, Option.getD_some]
    rw [hplace, hbefore, hlow]
  · rw [hplace, hblock, Block.bit_setBit _ _ _ (by decide), if_pos rfl]

/-- Giving back two blocks on either side of a boundary is cut short. -/
theorem kept_or_cutShort_of_straddled :
    (serve ⟨5000⟩ (.release 4095 2) (failingDisk straddled)).1 = .error (.device .io) ∧
      (bit (serve ⟨5000⟩ (.release 4095 2) (failingDisk straddled)).2.device =
          bit (failingDisk straddled).device ∨
        FromDevice (.device .io) ∧ CutShort ⟨5000⟩ (.release 4095 2) (bit (failingDisk straddled).device)
          (bit (serve ⟨5000⟩ (.release 4095 2) (failingDisk straddled)).2.device)) :=
  ⟨serve_straddled.1, kept_or_cutShort_of_failed serve_straddled.1⟩

/-- A demand that fails does not always leave every bit as it was, even if the map is that of the device. -/
theorem failed_release_clears_bit : ¬∀ (disk : Disk) (q : Demand) (e : Error),
    (serve ⟨disk.device.blockCount⟩ q disk).1 = .error e →
      ∀ i, bit (serve ⟨disk.device.blockCount⟩ q disk).2.device i = bit disk.device i := by
  intro h
  have hcount : (failingDisk straddled).device.blockCount = 5000 := by
    simp [failingDisk, straddled, Device.blockCount]
  obtain ⟨hfailed, hbefore, hafter⟩ := serve_straddled
  have hsame := h (failingDisk straddled) (.release 4095 2) (.device .io) (by rw [hcount]; exact hfailed) 4095
  rw [hcount, hafter, hbefore] at hsame
  cases hsame

end SpaceMap

end InodeVolume
