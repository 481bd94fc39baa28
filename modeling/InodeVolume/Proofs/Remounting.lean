import InodeVolume.Proofs.ShownTrees
import InodeVolume.Proofs.WornDisks

/-!
# Mounting again

A volume keeps nothing to itself: whatever is open, and however many writes have failed, its blocks alone
say what it shows. Mounted once more, the device shows the same tree and has as many blocks free
(`Client.remount_of_reached`).
-/

namespace InodeVolume

/-! ## Counting free blocks -/

/-- How many bits past the number of blocks are set in the blocks of the map. -/
def Regime.spare (K : Regime) (used : Nat → Bool) : Nat :=
  ((Finset.Ico K.count (K.space.blockCount * blockBits)).filter fun i => used i = true).card

/-- The bits that are set are those of the blocks that are not free, and those past the number of
blocks. -/
theorem Regime.countP_add_free (K : Regime) (used : Nat → Bool) :
    (List.range (K.space.blockCount * blockBits)).countP used + K.free used = K.count + K.spare used := by
  have hfree : K.free used = (List.range K.count).countP fun i => used i = false := by
    rw [Regime.free, List.countP_eq_length_filter]
    rfl
  have hspare : K.spare used =
      ((List.range (K.space.blockCount * blockBits - K.count)).map (K.count + ·)).countP used := by
    rw [← List.range'_eq_map_range, List.countP_eq_length_filter]
    exact congrArg List.length (List.filter_congr fun i _ => Bool.decide_eq_true)
  -- The bits up to the number of blocks are free or in use, and all others are spare.
  have hsplit := List.length_eq_countP_add_countP used (l := List.range K.count)
  rw [List.length_range] at hsplit
  simp only [Bool.not_eq_true] at hsplit
  rw [← Nat.add_sub_cancel' K.count_le_bits, List.range_add, List.countP_append, hspare, hfree]
  omega

theorem Regime.spare_eq_zero {K : Regime} {used : Nat → Bool} (h : ∀ i, K.count ≤ i → used i = false) :
    K.spare used = 0 := by
  rw [spare, Finset.card_eq_zero, Finset.filter_eq_empty_iff]
  intro i hi hused
  rw [h i (Finset.mem_Ico.1 hi).1] at hused
  cases hused

section Count

variable {K : Regime} {st : Store} {W : World}

/-- Counting block by block answers how many bits are set, those past the number of blocks included. -/
theorem SpaceMap.Stores.countUsed_yields (hM : K.Mapped) : Yields (Stores K) st K.space.countUsed
    ((List.range (K.space.blockCount * blockBits)).countP st.used) st := by
  unfold countUsed
  -- The first `k` blocks of the map have been counted.
  suffices h : ∀ k, k ≤ K.space.blockCount → Yields (Stores K) st
      ((List.range k).foldlM (fun used k => do
        let b ← load k
        pure (used + b.countOnes)) 0)
      ((List.range (k * blockBits)).countP st.used) st from h _ (Nat.le_refl _)
  intro k
  induction k with
  | zero =>
    intro _
    rw [Nat.zero_mul]
    exact Yields.pure
  | succ k ih =>
    intro hk
    rw [List.range_succ, List.foldlM_append]
    refine Yields.bind (ih (Nat.le_of_succ_le hk)) ?_
    rw [List.foldlM_cons]
    simp only [bind_assoc, pure_bind, List.foldlM_nil]
    refine Answers.bind (Stores.load_answers hM hk) fun b hb => ?_
    have hones : b.countOnes = ((List.range blockBits).map (k * blockBits + ·)).countP st.used := by
      rw [Block.countOnes, List.countP_map]
      refine List.countP_congr fun j hj => ?_
      rw [hb j (List.mem_range.1 hj)]
      rfl
    rw [hones, ← List.countP_append, ← List.range_add, ← Nat.succ_mul]
    exact Yields.pure

theorem SpaceMap.countUsed_yields (hK : K.Fits) : Yields (Shows K) st K.space.countUsed
    ((List.range (K.space.blockCount * blockBits)).countP st.used) st :=
  Leads.of_stores (Stores.countUsed_yields hK.mapped) fun _ _ h _ _ => by rw [h.2]

/-- As many blocks are counted as free as are free. -/
theorem VolumeM.freeCount_yields (hK : K.Fits) :
    Yields (Mounts K) W freeCount (K.free W.pool.store.used) W := by
  refine Leads.of_shown fun v hv => ?_
  have hcount := K.countP_add_free W.pool.store.used
  rw [Regime.spare_eq_zero hv.disk.shows.spare] at hcount
  have hused : Yields (Holds K) W.pool K.space.countUsed _ W.pool :=
    Pool.leads_of_shows fun hP => Leads.mono (SpaceMap.countUsed_yields hK) fun _ _ h =>
      ⟨W.pool, h.2.symm, hP, h.1, rfl⟩
  refine Yields.bind (onDisk_yields (Yields.map (f := fun used => (K.space.bits, used)) hused)) ?_
  have hbits : K.space.bits = K.count := rfl
  dsimp only
  rw [if_pos (by omega), show K.space.bits - _ = K.free W.pool.store.used by omega]
  exact Yields.pure

end Count

/-! ## Mounting again -/

/-- A volume that has been put on a disk as the disk was found. -/
def Remounts (disk : Disk) (v : Volume) : Prop :=
  ∃ space disk', Volume.mountSpace false disk = .ok space disk' ∧
    Volume.prepare false { disk := disk', space := space } = .ok () v

/-- An action answers the same on both volumes. -/
def AnswersOnBoth {α : Type} (v v' : Volume) (x : VolumeM α) (a : α) : Prop :=
  (∃ w, x v = .ok a w) ∧ ∃ w, x v' = .ok a w

section Remount

variable {K : Regime} {W : World} {T : Hierarchy} {v v' : Volume} {faults : Faults}

/-- What is stored is there behind any faults that let reads through, and nothing is open. -/
theorem Mounts.closed (h : Mounts K W v) (hf : K.faulty) (hreads : ∀ n id, faults.read n id = false) :
    Mounts K ⟨W.pool, fun _ => none⟩ { disk := ⟨v.disk.device, faults⟩, space := K.space } where
  disk :=
    { shows := { h.disk.shows with reads := hreads, writes := fun hno => absurd hf hno }
      sound := h.disk.sound }
  space := rfl
  registry id := by simp [World.entry]
  live _ hx := absurd rfl hx

/-- A disk on which a tree is stored can be mounted. -/
theorem Mounts.remount (h : Mounts K W v) (hK : K.Fits) (hf : K.faulty) (hR : W.pool.Rooted T)
    (hreads : ∀ n id, faults.read n id = false) :
    ∃ v', Remounts ⟨v.disk.device, faults⟩ v' ∧ Mounts K ⟨W.pool, fun _ => none⟩ v' := by
  have hspace : Volume.mountSpace false ⟨v.disk.device, faults⟩ = .ok K.space ⟨v.disk.device, faults⟩ := by
    rw [Regime.space, ← h.disk.shows.count]
    rfl
  obtain ⟨v', hprepare, hv'⟩ := (Volume.checkRoot_yields (W := ⟨W.pool, fun _ => none⟩) hK hR
    fun _ _ ho => by cases ho).run (h.closed hf hreads)
  exact ⟨v', ⟨K.space, _, hspace, hprepare⟩, hv'⟩

theorem Yields.answersOnBoth {α : Type} {W' : World} {x : VolumeM α} {a : α} (hv : Mounts K W v)
    (hv' : Mounts K W' v') (hx : Yields (Mounts K) W x a W) (hx' : Yields (Mounts K) W' x a W') :
    AnswersOnBoth v v' x a := by
  obtain ⟨w, hw, -⟩ := hx.run hv
  obtain ⟨w', hw', -⟩ := hx'.run hv'
  exact ⟨⟨w, hw⟩, ⟨w', hw'⟩⟩

end Remount

namespace Client

variable {c : Client} {faults : Faults}

/-- After every run, whatever is open and whichever writes have failed, the device can be mounted again.
It shows the same tree then as the volume in use, and as many free blocks. -/
theorem remount_of_reached (h : c.Reached True) (hreads : ∀ n id, faults.read n id = false) :
    ∃ v, Remounts ⟨c.device, faults⟩ v ∧
      (∀ order depth, ∃ t, c.pool.shown order depth rootInode = .ok t ∧
        AnswersOnBoth c.volume v (Tree.ofVolume order depth) t) ∧
      AnswersOnBoth c.volume v VolumeM.freeCount c.device.free := by
  obtain ⟨K, W, T, hK, hs⟩ := h.stands
  have hf : K.faulty := hK ▸ trivial
  have hR := hs.good.ordered.rooted
  -- Nobody has anything open on the new volume, and it stands for the same pool.
  obtain ⟨v, hv, hmounts⟩ := hs.mounts.remount hs.fits hf hR hreads
  refine ⟨v, hv, fun order depth => ?_, ?_⟩
  · obtain ⟨t, ht⟩ := Pool.exists_shown (hR.stored _ hR.root) order depth
    refine ⟨t, (hR.shown_congr (fun _ hx => hs.nodes_linked hx) order depth hR.root).trans ht, ?_⟩
    exact Yields.answersOnBoth hs.mounts hmounts
      (Tree.ofVolume_yields hs.fits hR hs.good.ordered.attended order depth ht)
      (Tree.ofVolume_yields (W := ⟨W.pool, fun _ => none⟩) hs.fits hR (fun _ _ ho => by cases ho)
        order depth ht)
  · rw [hs.mounts.disk.free]
    exact Yields.answersOnBoth hs.mounts hmounts (VolumeM.freeCount_yields hs.fits)
      (VolumeM.freeCount_yields hs.fits)

/-- A disk that has worn out with a file open is read as it is. -/
theorem remount_of_worn : ∃ (k : Nat) (c₀ c : Client),
    Starts True { device := .inMemory 8, faults := .from none (some k) [] [] } c₀ ∧ Runs c₀ wearing c ∧
    c.Reached True ∧ (∀ n id, (Faults.from none (some k) [] []).read n id = false) ∧
    ∃ v, Remounts ⟨c.device, .from none (some k) [] []⟩ v ∧
      (∀ order depth, ∃ t, c.pool.shown order depth rootInode = .ok t ∧
        AnswersOnBoth c.volume v (Tree.ofVolume order depth) t) ∧
      AnswersOnBoth c.volume v VolumeM.freeCount c.device.free := by
  obtain ⟨k, c₀, c, x, e, hs, hr, -⟩ := exists_worn
  have hc : c.Reached True := ⟨_, c₀, _, hs, hr⟩
  have hreads : ∀ n id, (Faults.from none (some k) [] []).read n id = false := fun _ _ => rfl
  exact ⟨k, c₀, c, hs, hr, hc, hreads, remount_of_reached hc hreads⟩

end Client

end InodeVolume
