import InodeVolume.Proofs.Store

/-!
# The space map as a set of used blocks

What searching, turning, taking and giving back do to the set of used blocks. A search answers the
lowest free run (`Stores.find_answers`), and turning a range over changes exactly its bits
(`setRange_leads`). A failing write can leave a range turned over in part only, and only if the range goes
through more than one block of the map.

A range is first looked at and then turned over, block by block, and all that is used of a disk on the way is how
one block of the map is read and how one is stored. This is said once (`Reached`), for disks of every kind.

What is said of a map whose spare bits may be anything (`Stores`) is carried over to those whose spare bits
are clear, as formatting leaves them. The two operations that the layers above use are `allocate_one` and
`release_one`.
-/

namespace InodeVolume

-- `^` on numbers is that of the core library, whatever else is known of them.
attribute [local instance (high)] instPowNat

/-! ## Runs of free blocks -/

/-- The bits from `start` on, `count` of them, set to `value`. -/
def rangeSet (used : Nat → Bool) (start count : Nat) (value : Bool) : Nat → Bool := fun i =>
  if start ≤ i ∧ i < start + count then value else used i

/-- The `count` bits from `start` on are clear. -/
def FreeRun (used : Nat → Bool) (start count : Nat) : Prop :=
  ∀ i, start ≤ i → i < start + count → used i = false

/-- A search that has come to bit `pos` without success knows that the last `run` bits are clear and
cannot be a longer clear run, and that no clear run of the wanted length ends here or before. -/
structure Searched (used : Nat → Bool) (wanted pos run : Nat) : Prop where
  le : run ≤ pos
  short : run < wanted
  clear : FreeRun used (pos - run) run
  bounded : run = pos ∨ used (pos - run - 1) = true
  none_before : ∀ s, s + wanted ≤ pos → ¬FreeRun used s wanted

section Search

variable {used : Nat → Bool} {wanted pos run : Nat}

theorem Searched.start (h : 0 < wanted) : Searched used wanted 0 0 where
  le := Nat.le_refl 0
  short := h
  clear := fun _ _ hi => by omega
  bounded := .inl rfl
  none_before := fun s hs _ => by omega

/-- A set bit ends the run. -/
theorem Searched.set (h : Searched used wanted pos run) (hb : used pos = true) :
    Searched used wanted (pos + 1) 0 where
  le := Nat.zero_le _
  short := by have := h.short; omega
  clear := fun i hi hi' => by omega
  bounded := .inr (by simpa using hb)
  none_before := fun s hs hrun => by
    have := h.short
    rcases Nat.lt_or_ge pos (s + wanted) with hlt | hge
    · have hlast := hrun pos (by omega) hlt
      rw [hb] at hlast
      cases hlast
    · exact h.none_before s hge hrun

/-- Every window of the wanted length that ends directly behind a clear bit reaches back over the
whole run. -/
theorem Searched.window_start (h : Searched used wanted pos run) {s : Nat} (hs : s + wanted ≤ pos + 1)
    (hrun : FreeRun used s wanted) : s + wanted = pos + 1 ∧ pos ≤ s + run := by
  have hend : s + wanted = pos + 1 := by
    rcases Nat.lt_or_ge pos (s + wanted) with hlt | hge
    · omega
    · exact absurd hrun (h.none_before s hge)
  refine ⟨hend, ?_⟩
  rcases h.bounded with hall | hset
  · omega
  · by_contra hlt
    have hclear := hrun (pos - run - 1) (by omega) (by omega)
    rw [hset] at hclear
    cases hclear

/-- A clear bit that does not complete the run makes it longer. -/
theorem Searched.extend (h : Searched used wanted pos run) (hb : used pos = false)
    (hne : run + 1 ≠ wanted) : Searched used wanted (pos + 1) (run + 1) where
  le := by have := h.le; omega
  short := by have := h.short; omega
  clear := fun i hi hi' => by
    have := h.le
    rcases Nat.lt_or_ge i pos with hlt | hge
    · exact h.clear i (by omega) (by omega)
    · rw [show i = pos by omega]
      exact hb
  bounded := by
    have := h.le
    rcases h.bounded with hall | hset
    · exact .inl (by omega)
    · refine .inr ?_
      rwa [show pos + 1 - (run + 1) - 1 = pos - run - 1 by omega]
  none_before := fun s hs hrun => by
    obtain ⟨hend, hle⟩ := h.window_start hs hrun
    have := h.short
    omega

/-- A clear bit that completes the run ends the search with the lowest run there is. -/
theorem Searched.complete (h : Searched used wanted pos run) (hb : used pos = false)
    (he : run + 1 = wanted) :
    FreeRun used (pos + 1 - wanted) wanted ∧
      ∀ s, s < pos + 1 - wanted → ¬FreeRun used s wanted := by
  have := h.le
  refine ⟨fun i hi hi' => ?_, fun s hs hrun => ?_⟩
  · rcases Nat.lt_or_ge i pos with hlt | hge
    · exact h.clear i (by omega) (by omega)
    · rw [show i = pos by omega]
      exact hb
  · have := h.window_start (by omega) hrun
    omega

end Search

/-! ## One block of the map -/

namespace Block

/-- The eight bits of a full byte are set. -/
theorem bit_of_full {b : Block} {i : Nat} (hi : i % 8 = 0) (h : b.byte (i / 8) = 255) {j : Nat}
    (hj : j < 8) : b.bit (i + j) = true := by
  rw [bit, show (i + j) / 8 = i / 8 by omega, show (i + j) % 8 = j by omega, h]
  rcases (by omega : j = 0 ∨ j = 1 ∨ j = 2 ∨ j = 3 ∨ j = 4 ∨ j = 5 ∨ j = 6 ∨ j = 7) with
    rfl | rfl | rfl | rfl | rfl | rfl | rfl | rfl <;> decide

/-- Passing over a full byte is passing over its bits. -/
theorem searched_full {used : Nat → Bool} {wanted pos run : Nat} (h : Searched used wanted pos run)
    (n : Nat) (hn : ∀ j, j < n → used (pos + j) = true) :
    n = 0 ∨ Searched used wanted (pos + n) 0 := by
  induction n with
  | zero => exact .inl rfl
  | succ n ih =>
    refine .inr ?_
    have hlast := hn n (Nat.lt_succ_self n)
    rcases ih (fun j hj => hn j (by omega)) with rfl | h'
    · exact h.set hlast
    · exact h'.set hlast

/-- A scan of `n` bits from bit `i` on carries the search on, or ends it. -/
theorem scan_searched {used : Nat → Bool} {wanted : Nat} (b : Block) (base n i run : Nat)
    (hbits : ∀ j, i ≤ j → j < i + n → b.bit j = used (base + j))
    (h : Searched used wanted (base + i) run) :
    match b.scan wanted n i run with
    | .found stop => stop ≤ i + n ∧ wanted ≤ base + stop ∧
        FreeRun used (base + stop - wanted) wanted ∧
          ∀ s, s < base + stop - wanted → ¬FreeRun used s wanted
    | .unfinished run' => Searched used wanted (base + (i + n)) run' := by
  fun_induction b.scan wanted n i run with
  | case1 i run => exact h
  | case2 n i run hn hfull ih =>
    -- Eight set bits at once are eight steps of the search.
    have hset := searched_full h 8 fun j hj => by
      rw [Nat.add_assoc, ← hbits (i + j) (by omega) (by omega)]
      exact bit_of_full hfull.2.1 hfull.2.2 hj
    have hset := hset.resolve_left (by omega)
    rw [Nat.add_assoc] at hset
    have hih := ih (fun j hj hj' => hbits j (by omega) (by omega)) hset
    rw [show i + 8 + (n - 8) = i + n by omega] at hih
    exact hih
  | case3 n i run hn hfull hbit ih =>
    have hset := h.set (by rw [← hbits i (by omega) (by omega)]; exact hbit)
    have hih := ih (fun j hj hj' => hbits j (by omega) (by omega)) hset
    rw [show i + 1 + (n - 1) = i + n by omega] at hih
    exact hih
  | case4 n i run hn hfull hbit hrun =>
    have hclear : used (base + i) = false := by
      rw [← hbits i (by omega) (by omega)]
      simpa using hbit
    have hle := h.le
    have hdone := h.complete hclear hrun
    rw [Nat.add_assoc] at hdone
    exact ⟨by omega, by omega, hdone⟩
  | case5 n i run hn hfull hbit hrun ih =>
    have hclear : used (base + i) = false := by
      rw [← hbits i (by omega) (by omega)]
      simpa using hbit
    have hih := ih (fun j hj hj' => hbits j (by omega) (by omega)) (h.extend hclear hrun)
    rw [show i + 1 + (n - 1) = i + n by omega] at hih
    exact hih

/-- Turning bits over succeeds exactly when each of them has the other value. -/
theorem turn?_cases (value : Bool) (b : Block) (i n : Nat) (hn : i + n ≤ blockBits) :
    (∃ b', b.turn? value i n = some b' ∧ (∀ j, i ≤ j → j < i + n → b.bit j ≠ value) ∧
        ∀ j, j < blockBits → b'.bit j = if i ≤ j ∧ j < i + n then value else b.bit j) ∨
      (b.turn? value i n = none ∧ ∃ j, i ≤ j ∧ j < i + n ∧ b.bit j = value) := by
  induction n generalizing b i with
  | zero =>
    refine .inl ⟨b, rfl, fun j hj hj' => by omega, fun j _ => ?_⟩
    rw [if_neg (by omega)]
  | succ n ih =>
    simp only [turn?]
    by_cases hb : b.bit i = value
    · rw [if_pos hb]
      exact .inr ⟨rfl, i, Nat.le_refl i, by omega, hb⟩
    · rw [if_neg hb]
      -- Turning bit `i` leaves those behind it as they were.
      have hother (j : Nat) (hj : i + 1 ≤ j) (hj' : j < blockBits) :
          (b.setBit i value).bit j = b.bit j := by
        rw [bit_setBit _ _ _ hj', if_neg (by omega)]
      rcases ih (b.setBit i value) (i + 1) (by omega) with ⟨b', hb', hflip, hbits⟩ | ⟨hnone, j, hj⟩
      · refine .inl ⟨b', hb', fun j hj hj' => ?_, fun j hj => ?_⟩
        · rcases Nat.eq_or_lt_of_le hj with rfl | hlt
          · exact hb
          · rw [← hother j hlt (by omega)]
            exact hflip j hlt (by omega)
        · rw [hbits j hj, bit_setBit _ _ _ hj]
          by_cases he : i = j
          · subst he
            rw [if_neg (by omega), if_pos rfl, if_pos (by omega)]
          · rw [if_neg he]
            by_cases hin : i + 1 ≤ j ∧ j < i + 1 + n
            · rw [if_pos hin, if_pos (by omega)]
            · rw [if_neg hin, if_neg (by omega)]
      · refine .inr ⟨hnone, j, by omega, by omega, ?_⟩
        rw [← hother j hj.1 (by omega)]
        exact hj.2.2

end Block

/-! ## Blocks of the map on a disk -/

namespace SpaceMap

variable {K : Regime} {st : Store}

/-- Block `k` of the map holds the bits of the blocks that it describes. -/
theorem Stores.load_answers (hM : K.Mapped) {k : Nat} (hk : k < K.space.blockCount) :
    Answers (Stores K) st (load k) fun b =>
      ∀ j, j < blockBits → b.bit j = st.used (k * blockBits + j) := by
  intro disk hs
  have hid : firstBlock + k < K.count := hM k hk
  obtain ⟨disk', hr, hk', hb⟩ := DiskM.readBlock_of_steady (by rw [hs.count]; exact hid) hs.reads
    (hs.holds _ hid)
  have hblock : disk'.device.block = disk.device.block := by
    funext i
    simp only [Device.block, hb]
  rw [load, hr]
  refine ⟨st, hs.of_kept hk' hblock, ⟨_, rfl, ?_⟩, rfl⟩
  intro j hj
  simp only [blockBits] at hj hk
  -- The bit lies on a block of the map, so what is stored there is what the map says.
  have hlt : k * blockBits + j < K.space.blockCount * blockBits := by
    simp only [blockBits]
    have := Nat.mul_le_mul_right 4096 (Nat.succ_le_of_lt hk)
    omega
  rw [← hs.used _ hlt, bit, blockBits, show (k * 4096 + j) / 4096 = k by omega,
    show (k * 4096 + j) % 4096 = j by omega]

/-- Storing block `k` of the map changes the bits that it holds, or fails and changes none. -/
theorem Stores.store_leads (hM : K.Mapped) {k : Nat} (hk : k < K.space.blockCount) {b : Block}
    (used : Nat → Bool) (hin : ∀ j, j < blockBits → used (k * blockBits + j) = b.bit j)
    (hout : ∀ i, i / blockBits ≠ k → used i = st.used i) :
    Leads (Stores K) st (store k b) fun r st' =>
      (r = .ok () ∧ st' = st.mark used) ∨ (K.faulty ∧ r = .error (.device .io) ∧ st' = st) := by
  intro disk hs
  have hid : firstBlock + k < disk.device.blockCount := by
    rw [hs.count]
    exact hM k hk
  rw [store]
  rcases DiskM.writeBlock_cases hid b with ⟨disk', hw, hk', hb⟩ | ⟨disk', hw, hk', hd, n, hn⟩
  · rw [hw]
    refine ⟨st.mark used, ?_, .inl ⟨rfl, rfl⟩⟩
    exact
      { count := hk'.count.trans hs.count
        holds := fun i hi => hk'.holds i (hs.holds i hi)
        reads := fun n i => by rw [hk'.reads]; exact hs.reads n i
        writes := fun hf n i => by rw [hk'.writes]; exact hs.writes hf n i
        data := fun i hi => by
          -- A plain block is not one of the map.
          have hne : i ≠ firstBlock + k := by
            rintro rfl
            refine hi.2 ⟨Nat.le_add_right _ _, ?_⟩
            simp only [Regime.dataStart]
            omega
          rw [hb, Function.update_of_ne hne]
          exact hs.data i hi
        used := fun i hi => by
          rw [Store.mark_used]
          by_cases he : i / blockBits = k
          · have hmod := hin (i % blockBits) (Nat.mod_lt _ (by decide))
            rw [← he, Nat.mul_comm, Nat.div_add_mod] at hmod
            rw [hmod, bit, hb, he, Function.update_self]
          · have hne : firstBlock + i / blockBits ≠ firstBlock + k := by omega
            rw [hout i he, ← hs.used i hi]
            simp only [bit, hb, Function.update_of_ne hne] }
  · rw [hw]
    have hblock : disk'.device.block = disk.device.block := by rw [hd]
    refine ⟨st, hs.of_kept hk' hblock, .inr ⟨?_, rfl, rfl⟩⟩
    by_contra hf
    rw [hs.writes hf n (firstBlock + k)] at hn
    cases hn

/-! ## Searching -/

/-- The lowest run of `wanted` free blocks of the device; none if there is no such run. -/
def LowestRun (K : Regime) (used : Nat → Bool) (wanted : Nat) : Option Nat → Prop
  | some s => s + wanted ≤ K.count ∧ FreeRun used s wanted ∧ ∀ s', s' < s → ¬FreeRun used s' wanted
  | none => ∀ s, s + wanted ≤ K.count → ¬FreeRun used s wanted

/-- The search through the blocks of the map finds the lowest run, if there is one. -/
theorem Stores.findFrom_answers (hM : K.Mapped) {wanted : Nat} (k run left : Nat)
    (hk : k + left = K.space.blockCount)
    (h : Searched st.used wanted (min K.count (k * blockBits)) run) :
    Answers (Stores K) st (K.space.findFrom wanted k run left) (LowestRun K st.used wanted) := by
  induction left generalizing k run with
  | zero =>
    refine Answers.pure ?_
    have hall : min K.count (k * blockBits) = K.count := by
      have := K.count_le_bits
      rw [← hk] at this
      exact Nat.min_eq_left this
    rw [hall] at h
    exact h.none_before
  | succ left ih =>
    rw [findFrom]
    refine Answers.bind (Stores.load_answers hM (by omega : k < K.space.blockCount)) ?_
    intro b hbits
    -- Before the last block of the map every bit describes a block.
    have hfull : k * blockBits < K.count := by
      have hle : K.space.blockCount * blockBits < K.count + blockBits := by
        simp only [Regime.space, blockCount, blockBits]
        omega
      have := Nat.mul_le_mul_right blockBits (show k + 1 ≤ K.space.blockCount by omega)
      rw [Nat.succ_mul] at this
      omega
    rw [Nat.min_eq_right (Nat.le_of_lt hfull)] at h
    have hspace : K.space.bits = K.count := rfl
    rw [hspace]
    have hscan := b.scan_searched (k * blockBits)
      (min blockBits (K.count - k * blockBits)) 0 run (fun j _ hj => hbits j (by omega))
      (by rwa [Nat.add_zero])
    cases hr : b.scan wanted (min blockBits (K.count - k * blockBits)) 0 run with
    | found stop =>
      rw [hr] at hscan
      obtain ⟨hstop, hle, hrun, hleast⟩ := hscan
      exact Answers.pure ⟨by omega, hrun, hleast⟩
    | unfinished run' =>
      rw [hr] at hscan
      refine ih (k + 1) run' (by omega) ?_
      have hpos : min K.count ((k + 1) * blockBits) =
          k * blockBits + (0 + min blockBits (K.count - k * blockBits)) := by
        rw [Nat.succ_mul]
        omega
      rw [hpos]
      exact hscan

/-- A search answers the lowest run of clear bits, if there is one. -/
theorem Stores.find_answers (hM : K.Mapped) {wanted : Nat} (hw : 0 < wanted) :
    Answers (Stores K) st (K.space.find wanted) (LowestRun K st.used wanted) := by
  refine Stores.findFrom_answers hM 0 0 _ (Nat.zero_add _) ?_
  rw [Nat.zero_mul, Nat.min_zero]
  exact Searched.start hw

/-! ## Turning ranges over -/

/-- Setting a range and then what follows it is setting both. -/
theorem rangeSet_append (used : Nat → Bool) (first n m : Nat) (value : Bool) :
    rangeSet (rangeSet used first n value) (first + n) m value =
      rangeSet used first (n + m) value := by
  funext i
  simp only [rangeSet]
  by_cases h₁ : first + n ≤ i ∧ i < first + n + m
  · rw [if_pos h₁, if_pos (by omega)]
  · rw [if_neg h₁]
    by_cases h₂ : first ≤ i ∧ i < first + n
    · rw [if_pos h₂, if_pos (by omega)]
    · rw [if_neg h₂, if_neg (by omega)]

theorem rangeSet_zero (used : Nat → Bool) (first : Nat) (value : Bool) :
    rangeSet used first 0 value = used := by
  funext i
  rw [rangeSet, if_neg (by omega)]

/-- `R` ties disks to the bits that their map has set. A block of the map is loaded as these bits say, and
storing one changes the bits in it. Loading may fail with an error of which `unread` holds, storing with one
of which `unwritten` holds, and neither then changes anything. -/
structure Reached (R : (Nat → Bool) → Disk → Prop) (inMap : Nat → Prop) (unread unwritten : Error → Prop) :
    Prop where
  loads {used : Nat → Bool} {k : Nat} (hk : inMap k) :
    Leads R used (load k) fun r used' => used' = used ∧
      ((∃ b, r = .ok b ∧ ∀ j, j < blockBits → b.bit j = used (k * blockBits + j)) ∨
        ∃ e, r = .error e ∧ unread e)
  stores {used : Nat → Bool} {k : Nat} {b : Block} (hk : inMap k) (after : Nat → Bool)
    (hin : ∀ j, j < blockBits → after (k * blockBits + j) = b.bit j)
    (hout : ∀ i, i / blockBits ≠ k → after i = used i) :
    Leads R used (store k b) fun r used' =>
      (r = .ok () ∧ used' = after) ∨ ∃ e, r = .error e ∧ unwritten e ∧ used' = used

section Reached

variable {R : (Nat → Bool) → Disk → Prop} {inMap : Nat → Prop} {unread unwritten : Error → Prop}
  {used : Nat → Bool} {first count : Nat}

/-- Looking at the pieces of a range tells whether all its bits have the other value. -/
theorem Reached.check_leads (hR : Reached R inMap unread unwritten) (value : Bool)
    (hmap : ∀ i, first ≤ i → i < first + count → inMap (i / blockBits)) :
    Leads R used ((pieces blockBits first count).forM (turnPiece value fun _ _ => pure ())) fun r used' =>
      used' = used ∧ ((r = .ok () ∧ ∀ i, first ≤ i → i < first + count → used i ≠ value) ∨
        (r = .error .corruptRecord ∧ ∃ i, first ≤ i ∧ i < first + count ∧ used i = value) ∨
        ∃ e, r = .error e ∧ unread e) := by
  -- By induction on the pieces of the range. A piece is looked at in its own block of the map, where the
  -- bits are counted from the start of the block.
  fun_induction pieces blockBits first count with
  | case1 first count h =>
    have hcount : count = 0 := h.resolve_left (by decide)
    exact Leads.pure ⟨rfl, .inl ⟨rfl, fun i hi hi' => by omega⟩⟩
  | case2 first count h size ih =>
    have hcount : count ≠ 0 := fun hc => h (.inr hc)
    have hsize : size = min count (blockBits - first % blockBits) := rfl
    simp only [blockBits] at hsize
    rw [List.forM_eq_forM, List.forM_cons]
    simp only [turnPiece, bind_assoc]
    refine Leads.bind (hR.loads (hmap first (Nat.le_refl first) (by omega))) ?_ ?_
    swap
    · rintro e used' ⟨rfl, ⟨b, he, -⟩ | ⟨e', he, hunread⟩⟩
      · cases he
      · cases he
        exact ⟨rfl, .inr (.inr ⟨e, rfl, hunread⟩)⟩
    rintro b used' ⟨rfl, ⟨b', hb, hbits⟩ | ⟨e, he, -⟩⟩
    swap
    · cases he
    cases hb
    simp only [blockBits] at hbits
    -- Either all bits of this piece can be turned and the rest decides, or one of them has the value
    -- already.
    rcases Block.turn?_cases value b (first % blockBits) size (by simp only [blockBits]; omega) with
      ⟨b', hturn, hflip, -⟩ | ⟨hturn, j, hj, hj', hbit⟩
    · simp only [hturn, pure_bind]
      refine Leads.mono (ih fun i hi hi' => hmap i (by omega) (by omega)) ?_
      rintro r used'' ⟨rfl, ⟨rfl, hall⟩ | ⟨rfl, i, hi, hi', hused⟩ | hunread⟩
      · refine ⟨rfl, .inl ⟨rfl, fun i hi hi' => ?_⟩⟩
        rcases Nat.lt_or_ge i (first + size) with hlt | hge
        · simp only [blockBits] at hflip
          have hb := hflip (i - first / 4096 * 4096) (by omega) (by omega)
          rwa [hbits _ (by omega), show first / 4096 * 4096 + (i - first / 4096 * 4096) = i by omega] at hb
        · exact hall i hge (by omega)
      · exact ⟨rfl, .inr (.inl ⟨rfl, i, by omega, by omega, hused⟩)⟩
      · exact ⟨rfl, .inr (.inr hunread)⟩
    · simp only [blockBits] at hturn hj hj'
      simp only [blockBits, hturn]
      refine Leads.throwBind ⟨rfl, .inr (.inl ⟨rfl, first / 4096 * 4096 + j, by omega, by omega, ?_⟩)⟩
      rw [← hbits j (by omega)]
      exact hbit

/-- Turning over a range whose bits all have the other value. Where an access fails, the part of the range that
lies in the blocks before it stays turned over. -/
theorem Reached.turn_leads (hR : Reached R inMap unread unwritten) (value : Bool)
    (hmap : ∀ i, first ≤ i → i < first + count → inMap (i / blockBits))
    (hflip : ∀ i, first ≤ i → i < first + count → used i ≠ value) :
    Leads R used ((pieces blockBits first count).forM (turnPiece value store)) fun r used' =>
      (r = .ok () ∧ used' = rangeSet used first count value) ∨
        ∃ e, r = .error e ∧ (unread e ∨ unwritten e) ∧ ∃ n, n < count ∧
          (n = 0 ∨ (first + n) % blockBits = 0) ∧ used' = rangeSet used first n value := by
  -- The pieces behind the first see a map in which the first is turned over.
  fun_induction pieces blockBits first count generalizing used with
  | case1 first count h =>
    have hcount : count = 0 := h.resolve_left (by decide)
    subst hcount
    exact Leads.pure (.inl ⟨rfl, (rangeSet_zero used first value).symm⟩)
  | case2 first count h size =>
    rename_i ih
    have hcount : count ≠ 0 := fun hc => h (.inr hc)
    have hsize : size = min count (blockBits - first % blockBits) := rfl
    have hkept : (0 : Nat) < count ∧ used = rangeSet used first 0 value :=
      ⟨Nat.pos_of_ne_zero hcount, (rangeSet_zero used first value).symm⟩
    rw [List.forM_eq_forM, List.forM_cons]
    simp only [turnPiece, bind_assoc]
    have hcell := hmap first (Nat.le_refl first) (by omega)
    refine Leads.bind (hR.loads hcell) ?_ ?_
    swap
    · rintro e used' ⟨rfl, ⟨b, he, -⟩ | ⟨e', he, hunread⟩⟩
      · cases he
      · cases he
        exact .inr ⟨e, rfl, .inl hunread, 0, hkept.1, .inl rfl, hkept.2⟩
    rintro b used' ⟨rfl, ⟨b', hb, hbits⟩ | ⟨e, he, -⟩⟩
    swap
    · cases he
    cases hb
    simp only [blockBits] at hsize hbits
    obtain ⟨b', hturn, -, hbits'⟩ | ⟨-, j, hj, hj', hbit⟩ :=
      Block.turn?_cases value b (first % blockBits) size (by simp only [blockBits]; omega)
    swap
    · -- All bits of the range have the other value, so this piece cannot be refused.
      simp only [blockBits] at hj hj'
      rw [hbits j (by omega)] at hbit
      exact absurd hbit (hflip _ (by omega) (by omega))
    simp only [hturn]
    refine Leads.bind (hR.stores hcell (rangeSet used' first size value) (fun j hj => ?_) (fun i hi => ?_)) ?_ ?_
    · rw [hbits' j hj, hbits j hj, rangeSet]
      by_cases hin : first % blockBits ≤ j ∧ j < first % blockBits + size
      · rw [if_pos hin, if_pos (by simp only [blockBits] at hin ⊢; omega)]
      · rw [if_neg hin, if_neg (by simp only [blockBits] at hin hj ⊢; omega)]
        rfl
    · simp only [blockBits] at hi
      rw [rangeSet, if_neg (by omega)]
    · rintro v used'' (⟨-, rfl⟩ | ⟨e, he, -⟩)
      swap
      · cases he
      refine Leads.mono (ih (fun i hi hi' => hmap i (by omega) (by omega)) fun i hi hi' => ?_) ?_
      · rw [rangeSet, if_neg (by omega)]
        exact hflip i (by omega) (by omega)
      · rintro r after (⟨rfl, rfl⟩ | ⟨e, rfl, hfault, n, hn, hcut, rfl⟩)
        · refine .inl ⟨rfl, ?_⟩
          rw [rangeSet_append, Nat.add_sub_cancel' (by omega)]
        · -- Something of the range is left, so the first piece ends with its block.
          refine .inr ⟨e, rfl, hfault, size + n, by omega, .inr ?_, rangeSet_append ..⟩
          simp only [blockBits] at hcut ⊢
          omega
    · rintro e used'' (⟨he, -⟩ | ⟨e', he, hunwritten, rfl⟩)
      · cases he
      · exact .inr ⟨e', he, .inr hunwritten, 0, hkept.1, .inl rfl, hkept.2⟩

/-- Setting a range succeeds when all its bits have the other value and lie inside the map. Otherwise it is
refused and changes nothing, or an access fails, and then a first part of the range may be changed that ends
with a block of the map. -/
theorem Reached.setRange_leads (hR : Reached R inMap unread unwritten) {m : SpaceMap}
    (hmap : ∀ i, i < m.bits → inMap (i / blockBits)) (start count : Nat) (value : Bool) :
    Leads R used (m.setRange start count value) fun r used' =>
      (r = .ok () ∧ start + count ≤ m.bits ∧ (∀ i, start ≤ i → i < start + count → used i ≠ value) ∧
          used' = rangeSet used start count value) ∨
        (r = .error .corruptRecord ∧ used' = used ∧
          (m.bits < start + count ∨ ∃ i, start ≤ i ∧ i < start + count ∧ used i = value)) ∨
        ∃ e, r = .error e ∧ start + count ≤ m.bits ∧ (unread e ∧ used' = used ∨
          (unread e ∨ unwritten e) ∧ (∀ i, start ≤ i → i < start + count → used i ≠ value) ∧
            ∃ n, n < count ∧ (n = 0 ∨ (start + n) % blockBits = 0) ∧
              used' = rangeSet used start n value) := by
  rw [setRange]
  by_cases hlong : m.bits < start + count
  · rw [if_pos hlong]
    exact Leads.throwBind (.inr (.inl ⟨rfl, rfl, .inl hlong⟩))
  rw [if_neg hlong]
  have hend : start + count ≤ m.bits := Nat.le_of_not_lt hlong
  have hrange (i : Nat) (_ : start ≤ i) (hi : i < start + count) : inMap (i / blockBits) :=
    hmap i (Nat.lt_of_lt_of_le hi hend)
  -- Nothing is written before the whole range has been looked at, so a refusal changes nothing.
  refine Leads.bind (hR.check_leads value hrange) ?_ ?_
  · rintro v used' ⟨rfl, ⟨-, hflip⟩ | ⟨hv, -⟩ | ⟨e, he, -⟩⟩
    · refine Leads.mono (hR.turn_leads value hrange hflip) ?_
      rintro r used'' (⟨rfl, rfl⟩ | ⟨e, rfl, hfault, hcut⟩)
      · exact .inl ⟨rfl, hend, hflip, rfl⟩
      · exact .inr (.inr ⟨e, rfl, hend, .inr ⟨hfault, hflip, hcut⟩⟩)
    · cases hv
    · cases he
  · rintro e used' ⟨rfl, ⟨he, -⟩ | ⟨he, hbad⟩ | ⟨e', he, hunread⟩⟩
    · cases he
    · cases he
      exact .inr (.inl ⟨rfl, rfl, .inr hbad⟩)
    · exact .inr (.inr ⟨e', he, hend, .inl ⟨hunread, rfl⟩⟩)

end Reached

/-- As far as the map goes, the disks that store a given thing behind it are known by the bits that are set. -/
theorem Stores.reached (hM : K.Mapped) (st : Store) :
    Reached (fun used => Stores K (st.mark used)) (· < K.space.blockCount) (fun _ => False)
      (fun e => K.faulty ∧ e = .device .io) where
  loads {used k} hk disk hs := by
    obtain ⟨b, disk', st', hx, hs', ⟨b', hb, hbits⟩, rfl⟩ | ⟨e, disk', st', -, -, ⟨b', he, -⟩, -⟩ :=
      (Stores.load_answers hM hk).run hs
    · rw [hx]
      exact ⟨used, hs', rfl, .inl ⟨b', hb, hbits⟩⟩
    · cases he
  stores {used k b} hk after hin hout disk hs := by
    have hout' : ∀ i, i / blockBits ≠ k → after i = (st.mark used).used i := hout
    obtain ⟨v, disk', st', hx, hs', h⟩ | ⟨e, disk', st', hx, hs', h⟩ :=
      (Stores.store_leads hM hk after hin hout').run hs
    · rw [hx]
      obtain ⟨hv, rfl⟩ | ⟨-, hv, -⟩ := h
      · exact ⟨after, hs', .inl ⟨hv, rfl⟩⟩
      · cases hv
    · rw [hx]
      obtain ⟨he, -⟩ | ⟨hf, he, rfl⟩ := h
      · cases he
      · exact ⟨used, hs', .inr ⟨e, rfl, ⟨hf, by cases he; rfl⟩, rfl⟩⟩

/-- Setting a range succeeds when all its bits have the other value and lie inside the map; otherwise
it is refused and changes nothing. Where writes may fail, a first part of the range may be all that is
changed; a single bit is changed or not. -/
theorem Stores.setRange_leads (hM : K.Mapped) (start count : Nat) (value : Bool) :
    Leads (Stores K) st (K.space.setRange start count value) fun r st' =>
      (r = .ok () ∧ start + count ≤ K.count ∧
          (∀ i, start ≤ i → i < start + count → st.used i ≠ value) ∧
          st' = st.mark (rangeSet st.used start count value)) ∨
        (r = .error .corruptRecord ∧ st' = st ∧
          (K.count < start + count ∨ ∃ i, start ≤ i ∧ i < start + count ∧ st.used i = value)) ∨
        (K.faulty ∧ r = .error (.device .io) ∧ start + count ≤ K.count ∧ ∃ n, n ≤ count ∧
          st' = st.mark (rangeSet st.used start n value) ∧ (count ≤ 1 → n = 0)) := by
  have hmap (i : Nat) (hi : i < K.space.bits) : i / blockBits < K.space.blockCount :=
    Nat.div_lt_of_lt_mul (by rw [Nat.mul_comm]; exact Nat.lt_of_lt_of_le hi K.count_le_bits)
  -- All blocks of the map can be read here, so of the faults only a failing write is left.
  intro disk hs
  obtain ⟨v, disk', used', hx, hs', h⟩ | ⟨e, disk', used', hx, hs', h⟩ :=
    ((Stores.reached hM st).setRange_leads hmap start count value).run (a := st.used) hs
  · rw [hx]
    obtain ⟨hv, hend, hflip, rfl⟩ | ⟨hv, -⟩ | ⟨e, hv, -⟩ := h
    · exact ⟨_, hs', .inl ⟨hv, hend, hflip, rfl⟩⟩
    · cases hv
    · cases hv
  · rw [hx]
    obtain ⟨he, -⟩ | ⟨he, rfl, hbad⟩ | ⟨e', he, hend, ⟨hno, -⟩ | ⟨hno | ⟨hf, rfl⟩, -, n, hn, -, rfl⟩⟩ := h
    · cases he
    · exact ⟨st, hs', .inr (.inl ⟨he, rfl, hbad⟩)⟩
    · exact hno.elim
    · exact hno.elim
    · exact ⟨_, hs', .inr (.inr ⟨hf, he, hend, n, Nat.le_of_lt hn, rfl, fun hc => by omega⟩)⟩

/-! ## Taking and giving back -/

/-- Taking a run takes the lowest one, and fails exactly when there is none or a write fails. -/
theorem Stores.take_leads (hM : K.Mapped) {count : Nat} (hc : 0 < count) :
    Leads (Stores K) st (K.space.allocate count) fun r st' =>
      (∃ s, r = .ok (UInt32.ofNat s) ∧ LowestRun K st.used count (some s) ∧
          st' = st.mark (rangeSet st.used s count true)) ∨
        (r = .error .outOfSpace ∧ st' = st ∧ LowestRun K st.used count none) ∨
        (K.faulty ∧ r = .error (.device .io) ∧ ∃ s n, n ≤ count ∧
          LowestRun K st.used count (some s) ∧ st' = st.mark (rangeSet st.used s n true) ∧
          (count ≤ 1 → n = 0)) := by
  -- Looking for a run writes nothing. Marking it may stop after some of its blocks.
  refine Answers.bind (Stores.find_answers hM hc) ?_
  rintro (- | s) hrun
  · exact Leads.throw (.inr (.inl ⟨rfl, rfl, hrun⟩))
  · have hclear := hrun.2.1
    refine Leads.bind (Stores.setRange_leads hM s count true) ?_ ?_
    · rintro v st' (⟨-, -, -, rfl⟩ | ⟨hv, -⟩ | ⟨-, hv, -⟩)
      · exact Leads.pure (.inl ⟨s, rfl, hrun, rfl⟩)
      · cases hv
      · cases hv
    · rintro e st' (⟨he, -⟩ | ⟨he, -, hbad⟩ | ⟨hf, he, -, n, hn, rfl, hone⟩)
      · cases he
      · -- The run that was found is clear, so it is not refused.
        rcases hbad with hend | ⟨i, hi, hi', hused⟩
        · have := hrun.1
          omega
        · rw [hclear i hi hi'] at hused
          cases hused
      · cases he
        exact .inr (.inr ⟨hf, rfl, s, n, hn, hrun, rfl, hone⟩)

/-- As `Stores.take_leads`, where the number of a block fits in a word. -/
theorem Stores.allocate_leads (hM : K.Mapped) (hcount : K.count ≤ 2 ^ (32 : Nat)) {count : Nat}
    (hc : 0 < count) :
    Leads (Stores K) st (K.space.allocate count) fun r st' =>
      (∃ b, r = .ok b ∧ LowestRun K st.used count (some b.toNat) ∧
          st' = st.mark (rangeSet st.used b.toNat count true)) ∨
        (r = .error .outOfSpace ∧ st' = st ∧ LowestRun K st.used count none) ∨
        (K.faulty ∧ r = .error (.device .io) ∧ ∃ s n, n ≤ count ∧
          LowestRun K st.used count (some s) ∧ st' = st.mark (rangeSet st.used s n true) ∧
          (count ≤ 1 → n = 0)) := by
  refine Leads.mono (Stores.take_leads hM hc) ?_
  rintro r st' (⟨s, rfl, hrun, rfl⟩ | h)
  · have hs : s < 2 ^ 32 := by
      have := hrun.1
      omega
    have hto : (UInt32.ofNat s).toNat = s := UInt32.toNat_ofNat_of_lt' hs
    refine .inl ⟨_, rfl, ?_, ?_⟩
    · rw [hto]
      exact hrun
    · rw [hto]
  · exact .inr h

/-! ## Maps whose spare bits are clear -/

theorem rangeSet_of_le (used : Nat → Bool) {start n i : Nat} (value : Bool) (h : start + n ≤ i) :
    rangeSet used start n value i = used i := by
  rw [rangeSet, if_neg (by omega)]

/-- Setting a range succeeds when all its bits have the other value and lie inside the map; otherwise
it is refused and changes nothing. Where writes may fail, a first part of the range may be all that is
changed; a single bit is changed or not. -/
theorem setRange_leads (hK : K.Fits) (start count : Nat) (value : Bool) :
    Leads (Shows K) st (K.space.setRange start count value) fun r st' =>
      (r = .ok () ∧ start + count ≤ K.count ∧
          (∀ i, start ≤ i → i < start + count → st.used i ≠ value) ∧
          st' = st.mark (rangeSet st.used start count value)) ∨
        (r = .error .corruptRecord ∧ st' = st ∧
          (K.count < start + count ∨ ∃ i, start ≤ i ∧ i < start + count ∧ st.used i = value)) ∨
        (K.faulty ∧ r = .error (.device .io) ∧ ∃ n, n ≤ count ∧
          st' = st.mark (rangeSet st.used start n value) ∧ (count ≤ 1 → n = 0)) := by
  refine Leads.mono (Leads.of_stores (Stores.setRange_leads hK.mapped start count value) ?_) ?_
  · rintro r st' (⟨-, hend, -, rfl⟩ | ⟨-, rfl, -⟩ | ⟨-, -, hend, n, hn, rfl, -⟩) i hi
    · exact rangeSet_of_le _ _ (by omega)
    · rfl
    · exact rangeSet_of_le _ _ (by omega)
  · rintro r st' (h | h | ⟨hf, hr, -, h⟩)
    · exact .inl h
    · exact .inr (.inl h)
    · exact .inr (.inr ⟨hf, hr, h⟩)

/-- Taking a run takes the lowest one, and fails exactly when there is none or a write fails. -/
theorem allocate_leads (hK : K.Fits) {count : Nat} (hc : 0 < count) :
    Leads (Shows K) st (K.space.allocate count) fun r st' =>
      (∃ b, r = .ok b ∧ LowestRun K st.used count (some b.toNat) ∧
          st' = st.mark (rangeSet st.used b.toNat count true)) ∨
        (r = .error .outOfSpace ∧ st' = st ∧ LowestRun K st.used count none) ∨
        (K.faulty ∧ r = .error (.device .io) ∧ ∃ s n, n ≤ count ∧
          LowestRun K st.used count (some s) ∧ st' = st.mark (rangeSet st.used s n true) ∧
          (count ≤ 1 → n = 0)) := by
  refine Leads.of_stores (Stores.allocate_leads hK.mapped hK.count_le hc) ?_
  rintro r st' (⟨b, -, hrun, rfl⟩ | ⟨-, rfl, -⟩ | ⟨-, -, s, n, hn, hrun, rfl, -⟩) i hi
  · have := hrun.1
    exact rangeSet_of_le _ _ (by omega)
  · rfl
  · have := hrun.1
    exact rangeSet_of_le _ _ (by omega)

theorem rangeSet_one (used : Nat → Bool) (i : Nat) (value : Bool) :
    rangeSet used i 1 value = Function.update used i value := by
  funext j
  simp only [rangeSet, Function.update_apply]
  by_cases h : j = i
  · rw [if_pos (by omega), if_pos h]
  · rw [if_neg (by omega), if_neg h]

/-- The lowest run of one block is the lowest free block. -/
theorem LowestRun.of_one {used : Nat → Bool} {s : Nat} (h : LowestRun K used 1 (some s)) :
    s < K.count ∧ used s = false ∧ ∀ i, i < s → used i = true := by
  obtain ⟨hlt, hfree, hleast⟩ := h
  refine ⟨hlt, hfree s (Nat.le_refl _) (Nat.lt_succ_self _), fun i hi => ?_⟩
  by_contra hne
  refine hleast i hi fun j hj hj' => ?_
  rw [show j = i by omega]
  simpa using hne

/-- Without a run of one block no block is free. -/
theorem LowestRun.of_none {used : Nat → Bool} (h : LowestRun K used 1 none) :
    ∀ i, i < K.count → used i = true := by
  intro i hi
  by_contra hne
  refine h i hi fun j hj hj' => ?_
  rw [show j = i by omega]
  simpa using hne

/-- Taking one block takes the lowest free one. It fails when no block is free, or by a fault, and then
changes nothing. -/
theorem allocate_one (hK : K.Fits) :
    Leads (Shows K) st (K.space.allocate 1) fun r st' =>
      (∃ b, r = .ok b ∧ b.toNat < K.count ∧ st.used b.toNat = false ∧
          (∀ i, i < b.toNat → st.used i = true) ∧
          st' = st.mark (Function.update st.used b.toNat true)) ∨
        (r = .error .outOfSpace ∧ st' = st ∧ ∀ i, i < K.count → st.used i = true) ∨
        (K.faulty ∧ r = .error (.device .io) ∧ st' = st) := by
  refine Leads.mono (allocate_leads hK Nat.one_pos) ?_
  rintro r st' (⟨b, rfl, hrun, rfl⟩ | ⟨rfl, rfl, hnone⟩ | ⟨hf, rfl, s, n, -, -, rfl, hone⟩)
  · obtain ⟨hlt, hfree, hleast⟩ := hrun.of_one
    refine .inl ⟨b, rfl, hlt, hfree, hleast, ?_⟩
    rw [rangeSet_one]
  · exact .inr (.inl ⟨rfl, rfl, hnone.of_none⟩)
  · refine .inr (.inr ⟨hf, rfl, ?_⟩)
    rw [hone (Nat.le_refl 1), rangeSet_zero]
    rfl

/-- Giving a used block back frees it, or fails by a fault and changes nothing. -/
theorem release_one (hK : K.Fits) {b : UInt32} (hb : b.toNat < K.count)
    (hused : st.used b.toNat = true) :
    Leads (Shows K) st (K.space.release b 1) fun r st' =>
      (r = .ok () ∧ st' = st.mark (Function.update st.used b.toNat false)) ∨
        (K.faulty ∧ r = .error (.device .io) ∧ st' = st) := by
  refine Leads.mono (setRange_leads hK b.toNat 1 false) ?_
  rintro r st' (⟨rfl, -, -, rfl⟩ | ⟨-, -, hbad⟩ | ⟨hf, rfl, n, -, rfl, hone⟩)
  · refine .inl ⟨rfl, ?_⟩
    rw [rangeSet_one]
  · rcases hbad with hend | ⟨i, hi, hi', hclear⟩
    · omega
    · rw [show i = b.toNat by omega, hused] at hclear
      cases hclear
  · refine .inr ⟨hf, rfl, ?_⟩
    rw [hone (Nat.le_refl 1), rangeSet_zero]
    rfl

end SpaceMap

end InodeVolume
