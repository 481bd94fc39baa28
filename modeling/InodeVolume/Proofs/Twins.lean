import InodeVolume.Proofs.Echoes

/-!
# Disks alike in what is in use

Two disks are twins if they hold the same in the space map and in every block that is in use. Blocks that have
been taken and not written yet are left out of account, as long as they are listed (`Twins`). What a volume
does with its blocks never lets twins be told apart: a block is filled before it is read, and a block that is
given back is not read any more.

Where what an action comes to is known from the blocks in use, it comes to the same on both disks
(`twins_of_leads`). Only the extension of an index is run side by side.
-/

namespace InodeVolume

open Record SpaceMap

/-! ## What is known of a run -/

section Beside

variable {ε δ σ α β A : Type} {R : A → σ → Prop} {a : A} {T : σ → σ → Prop} {x : EStateM ε σ α}
  {M : Except ε α → A → Prop} {T₁ : Except ε α → σ → σ → Prop}

/-- The first of two states that `T` relates shows `a`. -/
def Beside (R : A → σ → Prop) (a : A) (T : σ → σ → Prop) (s t : σ) : Prop := R a s ∧ T s t

/-- What is known of a single run is known of the first of two. -/
theorem Echoes.leads (hl : Leads R a x M) (hx : Echoes (Beside R a T) x T₁) :
    Echoes (Beside R a T) x fun r s t => ∃ b, M r b ∧ Beside R b (T₁ r) s t := by
  rintro s t ⟨hs, hT⟩
  obtain ⟨hr, hT₁⟩ := hx s t ⟨hs, hT⟩
  obtain ⟨b, hb, hM⟩ := hl.comes hs
  exact ⟨hr, b, hM, hb, hT₁⟩

theorem Echoes.leadsBind {f : α → EStateM ε σ β} {T' : Except ε β → σ → σ → Prop} (hl : Leads R a x M)
    (hx : Echoes (Beside R a T) x T₁)
    (hok : ∀ v b, M (.ok v) b → Echoes (Beside R b (T₁ (.ok v))) (f v) T')
    (herr : ∀ e b s t, M (.error e) b → T₁ (.error e) s t → T' (.error e) s t) :
    Echoes (Beside R a T) (x >>= f) T' := by
  refine Echoes.bind (Echoes.leads hl hx) (fun v => ?_) ?_
  · rintro s t ⟨b, hM, hs⟩
    exact hok v b hM s t hs
  · rintro e s t ⟨b, hM, -, hT⟩
    exact herr e b s t hM hT

theorem Echoes.leadsAttempt {g : Except ε α → EStateM δ σ β} {T' : Except δ β → σ → σ → Prop}
    (hl : Leads R a x M) (hx : Echoes (Beside R a T) x T₁)
    (hg : ∀ r b, M r b → Echoes (Beside R b (T₁ r)) (g r) T') :
    Echoes (Beside R a T) ((attempt x : EStateM δ σ (Except ε α)) >>= g) T' := by
  refine Echoes.attemptBind (Echoes.leads hl hx) fun r => ?_
  rintro s t ⟨b, hM, hs⟩
  exact hg r b hM s t hs

end Beside

/-! ## Stores and disks -/

variable {K : Regime} {X Y : List UInt32} {st st' : Store} {s t : Disk} {α : Type}

/-- The blocks of the map and those in use, but for the blocks of `X`. -/
def Store.Known (K : Regime) (X : List UInt32) (st : Store) (i : Nat) : Prop :=
  i < K.count ∧ (K.InMap i ∨ (st.used i = true ∧ ∀ b ∈ X, b.toNat ≠ i))

/-- The same blocks are in use, and they hold the same, but for the blocks of `X`. -/
structure Store.Alike (K : Regime) (X : List UInt32) (st st' : Store) : Prop where
  used : st'.used = st.used
  data : ∀ i, K.Plain i → st.used i = true → (∀ b ∈ X, b.toNat ≠ i) → st'.data i = st.data i

/-- The disks hold the same in the map and in the blocks in use, but for the blocks of `X`. -/
def Twins (K : Regime) (X : List UInt32) (s t : Disk) : Prop :=
  ∃ st, Shows K st s ∧ Disk.Agree K (st.Known K X) s t

theorem Store.Alike.refl (st : Store) : st.Alike K X st := ⟨rfl, fun _ _ _ _ => rfl⟩

theorem Disk.Agree.mono {A B : Nat → Prop} (h : Disk.Agree K A s t) (hB : ∀ i, B i → A i) :
    Disk.Agree K B s t :=
  ⟨h.left, h.right, h.count, h.count', fun i hi => h.inside i (hB i hi), fun i hi => h.data i (hB i hi)⟩

theorem Shows.works (hf : ¬K.faulty) (h : Shows K st s) : s.Works False where
  holds id hid := h.holds id (by rwa [h.count] at hid)
  reads := h.reads
  writes _ := h.writes hf

/-- A disk tells which blocks are in use. -/
theorem Shows.used_eq (h : Shows K st s) (h' : Shows K st' s) : st'.used = st.used := by
  funext i
  by_cases hi : i < K.space.blockCount * blockBits
  · rw [← h'.used i hi, h.used i hi]
  · have hle := K.count_le_bits
    rw [h.spare i (by omega), h'.spare i (by omega)]

theorem Store.Known.congr {i : Nat} (h : st.Known K X i) (hused : st'.used = st.used) : st'.Known K X i := by
  rw [Store.Known, hused]
  exact h

theorem Twins.agree (h : Shows K st s) (ht : Twins K X s t) : Disk.Agree K (st.Known K X) s t := by
  obtain ⟨st', h', ha⟩ := ht
  exact ha.mono fun i hi => hi.congr (h.used_eq h')

theorem Twins.of_agree {A : Nat → Prop} (h : Shows K st s) (ha : Disk.Agree K A s t)
    (hA : ∀ i, st.Known K X i → A i) : Twins K X s t := ⟨st, h, ha.mono hA⟩

/-- A block is determined by its bits. -/
theorem Block.ext_bit {a b : Block} (h : ∀ i, i < blockBits → a.bit i = b.bit i) : a = b := by
  refine Block.ext_byte fun i hi => ?_
  refine UInt8.toNat.inj (Nat.eq_of_testBit_eq fun j => ?_)
  by_cases hj : j < 8
  · have hbit := h (i * 8 + j) (by simp only [blockSize, blockBits] at hi ⊢; omega)
    simp only [Block.bit] at hbit
    rwa [show (i * 8 + j) / 8 = i by omega, show (i * 8 + j) % 8 = j by omega] at hbit
  · have hsmall (x : UInt8) : x.toNat.testBit j = false :=
      Nat.testBit_lt_two_pow (Nat.lt_of_lt_of_le x.toNat_lt (Nat.pow_le_pow_right (by decide) (by omega)))
    rw [hsmall, hsmall]

/-- A block of the map holds the bits of the blocks that it describes. -/
theorem Shows.map_bit (h : Shows K st s) {i j : Nat} (hi : K.InMap i) (hj : j < blockBits) :
    (s.device.block i).bit j = st.used ((i - firstBlock) * blockBits + j) := by
  obtain ⟨hfirst, hlast⟩ := hi
  simp only [Regime.dataStart] at hlast
  rw [← h.used]
  · simp only [SpaceMap.bit]
    rw [Nat.add_comm ((i - firstBlock) * blockBits), Nat.add_mul_div_right _ _ (by decide),
      Nat.add_mul_mod_self_right, Nat.div_eq_of_lt hj, Nat.mod_eq_of_lt hj, Nat.zero_add,
      Nat.add_sub_cancel' hfirst]
  · have hk : i - firstBlock < K.space.blockCount := by omega
    have := Nat.mul_le_mul_right blockBits (Nat.succ_le_of_lt hk)
    rw [Nat.succ_mul] at this
    omega

/-- The twin of a disk shows a store that is alike. -/
theorem Twins.shows (hM : K.Mapped) (h : Shows K st s) (ht : Twins K X s t) :
    ∃ st', Shows K st' t ∧ st.Alike K X st' := by
  have ha := ht.agree h
  refine ⟨⟨st.used, t.device.block⟩, ?_, rfl, fun i hi hu hX => ?_⟩
  · refine ⟨ha.count', fun id hid => ha.right.holds id (by rwa [ha.count']), ha.right.reads,
      fun _ => ha.right.writes not_false, fun _ _ => rfl, fun i hi => ?_, h.spare⟩
    have hk : i / blockBits < K.space.blockCount := Nat.div_lt_of_lt_mul (by rwa [Nat.mul_comm])
    have hin : K.InMap (firstBlock + i / blockBits) :=
      ⟨Nat.le_add_right _ _, by simp only [Regime.dataStart]; omega⟩
    rw [← h.used i hi]
    simp only [SpaceMap.bit]
    rw [ha.data _ ⟨hM _ hk, .inl hin⟩]
  · rw [← h.data i hi]
    exact ha.data i ⟨hi.1, .inr ⟨hu, hX⟩⟩

/-- Disks that show stores alike are twins. -/
theorem Twins.of_shows (hf : ¬K.faulty) (h : Shows K st s) (h' : Shows K st' t) (ha : st.Alike K X st') :
    Twins K X s t := by
  refine ⟨st, h, h.works hf, h'.works hf, h.count, h'.count, fun i hi => hi.1, fun i hi => ?_⟩
  by_cases hin : K.InMap i
  · refine Block.ext_bit fun j hj => ?_
    rw [h.map_bit hin hj, h'.map_bit hin hj, ha.used]
  · obtain ⟨hu, hX⟩ := hi.2.resolve_left hin
    rw [h.data i ⟨hi.1, hin⟩, h'.data i ⟨hi.1, hin⟩, ha.data i ⟨hi.1, hin⟩ hu hX]

/-! ## What is known from the blocks in use -/

/-- An action comes to the same on twins if it comes to the same from stores that are alike. -/
theorem twins_of_leads {ε : Type} {x : EStateM ε Disk α} {Q : Store → Except ε α → Store → Prop}
    {after : Except ε α → List UInt32} (hM : K.Mapped) (hf : ¬K.faulty)
    (h : ∀ st', st.Alike K X st' → Leads (Shows K) st' x (Q st'))
    (hsame : ∀ st' r b r' b', st.Alike K X st' → Q st r b → Q st' r' b' →
      r' = r ∧ b.Alike K (after r) b') :
    Echoes (Beside (Shows K) st (Twins K X)) x fun r => Twins K (after r) := by
  rintro s t ⟨hs, ht⟩
  obtain ⟨st', hs', ha⟩ := ht.shows hM hs
  obtain ⟨b, hb, hp⟩ := (h st (.refl st)).comes hs
  obtain ⟨b', hb', hp'⟩ := (h st' ha).comes hs'
  obtain ⟨hr, halike⟩ := hsame st' _ b _ b' ha hp hp'
  exact ⟨hr, .of_shows hf hb hb' halike⟩

theorem twins_of_yields {ε : Type} {x : EStateM ε Disk α} {v : α} (hM : K.Mapped) (hf : ¬K.faulty)
    (h : ∀ st', st.Alike K X st' → Yields (Shows K) st' x v st') :
    Echoes (Beside (Shows K) st (Twins K X)) x fun _ => Twins K X := by
  refine twins_of_leads (Q := fun st₀ r b => r = .ok v ∧ b = st₀) hM hf h ?_
  rintro st' r b r' b' ha ⟨rfl, rfl⟩ ⟨rfl, rfl⟩
  exact ⟨rfl, ha⟩

/-- A block that is written is the same on both disks then. -/
theorem writeBlock_twins (hM : K.Mapped) (hf : ¬K.faulty) {id : Nat} (hid : K.Plain id) (b : Block)
    (hX : ∀ x ∈ X, x.toNat = id ∨ x ∈ Y) :
    Echoes (Beside (Shows K) st (Twins K X)) (DiskM.writeBlock id b) fun _ => Twins K Y := by
  refine twins_of_leads hM hf (fun st' _ => writeBlock_leads hid b) ?_
  rintro st' r st₁ r' st₁' ha (⟨rfl, rfl⟩ | ⟨hfaulty, -⟩) (⟨rfl, rfl⟩ | ⟨hfaulty, -⟩)
  · refine ⟨rfl, ha.used, fun i hi hu hY => ?_⟩
    simp only [Store.write_data]
    by_cases he : i = id
    · rw [he, Function.update_self, Function.update_self]
    · rw [Function.update_of_ne he, Function.update_of_ne he]
      refine ha.data i hi hu fun x hx hxi => ?_
      exact (hX x hx).elim (fun h => he (hxi.symm.trans h)) fun h => hY x h hxi
  all_goals exact absurd hfaulty hf

/-! ## Taking and giving back -/

/-- The blocks left out of account after a block has been taken, or not. -/
def taken {ε : Type} (X : List UInt32) : Except ε UInt32 → List UInt32
  | .ok b => b :: X
  | .error _ => X

theorem allocate_twins (hK : K.Fits) (hf : ¬K.faulty) :
    Echoes (Beside (Shows K) st (Twins K X)) (K.space.allocate 1) fun r => Twins K (taken X r) := by
  refine twins_of_leads hK.mapped hf (fun st' _ => allocate_one hK) ?_
  rintro st' r st₁ r' st₁' ha
    (⟨b, rfl, hb, hfree, hlow, rfl⟩ | ⟨rfl, rfl, hnone⟩ | ⟨hfaulty, -⟩)
    (⟨b', rfl, hb', hfree', hlow', rfl⟩ | ⟨rfl, rfl, hnone'⟩ | ⟨hfaulty, -⟩)
  · rw [ha.used] at hfree' hlow'
    -- Both are the lowest free block.
    have he : b' = b := by
      refine UInt32.toNat.inj (Nat.le_antisymm (Nat.le_of_not_lt fun h => ?_) (Nat.le_of_not_lt fun h => ?_))
      · rw [hlow' _ h] at hfree
        cases hfree
      · rw [hlow _ h] at hfree'
        cases hfree'
    subst he
    refine ⟨rfl, ?_, fun i hi hu hX => ?_⟩
    · simp only [Store.mark_used, ha.used]
    · have hne : i ≠ b'.toNat := fun h => hX b' (List.mem_cons_self ..) h.symm
      rw [Store.mark_used, Function.update_of_ne hne] at hu
      exact ha.data i hi hu fun x hx => hX x (List.mem_cons_of_mem _ hx)
  · have := hnone' _ hb
    rw [ha.used, hfree] at this
    cases this
  · exact absurd hfaulty hf
  · have := hnone _ hb'
    rw [ha.used, this] at hfree'
    cases hfree'
  · exact ⟨rfl, ha⟩
  all_goals exact absurd hfaulty hf

theorem marked_alike (ha : st.Alike K X st') (l : List UInt32) :
    (st.mark (marked st.used l false)).Alike K X (st'.mark (marked st'.used l false)) := by
  refine ⟨by simp only [Store.mark_used, ha.used], fun i hi hu hX => ha.data i hi ?_ hX⟩
  rw [Store.mark_used, marked] at hu
  split at hu
  · cases hu
  · exact hu

theorem releaseEach_twins (hK : K.Fits) (hf : ¬K.faulty) {l : List UInt32} (hn : l.Nodup)
    (hl : ∀ b ∈ l, b.toNat < K.count ∧ st.used b.toNat = true) :
    Echoes (Beside (Shows K) st (Twins K X)) (K.space.releaseEach l) fun _ => Twins K X := by
  refine twins_of_leads hK.mapped hf
    (fun st' ha => releaseEach_leads hK hn fun b hb => by rw [ha.used]; exact hl b hb) ?_
  rintro st' r st₁ r' st₁' ha ⟨l₁, -, rfl, ⟨rfl, rfl⟩ | ⟨hfaulty, -⟩⟩ ⟨l₂, -, rfl, ⟨rfl, rfl⟩ | ⟨hfaulty, -⟩⟩
  · exact ⟨rfl, marked_alike ha _⟩
  all_goals exact absurd hfaulty hf

theorem discardEach_twins (hK : K.Fits) (hf : ¬K.faulty) {l : List UInt32} (hn : l.Nodup)
    (hl : ∀ b ∈ l, b.toNat < K.count ∧ st.used b.toNat = true) :
    Echoes (Beside (Shows K) st (Twins K X)) (K.space.discardEach l) fun _ => Twins K X := by
  refine twins_of_leads hK.mapped hf
    (fun st' ha => discardEach_leads hK hn fun b hb => by rw [ha.used]; exact hl b hb) ?_
  rintro st' r st₁ r' st₁' ha ⟨rfl, l₁, -, rfl, h₁⟩ ⟨rfl, l₂, -, rfl, h₂⟩
  rw [h₁ hf, h₂ hf]
  exact ⟨rfl, marked_alike ha l⟩

theorem release_twins (hK : K.Fits) (hf : ¬K.faulty) {b : UInt32} (hb : b.toNat < K.count)
    (hused : st.used b.toNat = true) (hX : ∀ x ∈ X, x = b ∨ x ∈ Y) :
    Echoes (Beside (Shows K) st (Twins K X)) (K.space.release b 1) fun _ => Twins K Y := by
  refine twins_of_leads hK.mapped hf (fun st' ha => release_one hK hb (by rw [ha.used]; exact hused)) ?_
  rintro st' r st₁ r' st₁' ha (⟨rfl, rfl⟩ | ⟨hfaulty, -⟩) (⟨rfl, rfl⟩ | ⟨hfaulty, -⟩)
  · refine ⟨rfl, by simp only [Store.mark_used, ha.used], fun i hi hu hY => ?_⟩
    rw [Store.mark_used] at hu
    by_cases he : i = b.toNat
    · rw [he, Function.update_self] at hu
      cases hu
    · rw [Function.update_of_ne he] at hu
      exact ha.data i hi hu fun x hx hxi =>
        (hX x hx).elim (fun h => he (by rw [← hxi, h])) fun h => hY x h hxi
  all_goals exact absurd hfaulty hf

/-- A free block is none of the map. -/
theorem plain_of_free (hres : ∀ i, i < K.dataStart → st.used i = true) {i : Nat} (hi : i < K.count)
    (hfree : st.used i = false) : K.Plain i := by
  refine ⟨hi, fun hin => ?_⟩
  rw [hres i hin.2] at hfree
  cases hfree

/-- Every block that is taken is filled with zeros before the next one is taken. -/
theorem takeZeroed_twins (hK : K.Fits) (hf : ¬K.faulty) (hres : ∀ i, i < K.dataStart → st.used i = true)
    (before : List UInt32) (n : Nat) :
    Echoes (Beside (Shows K) st (Twins K X)) (K.space.takeZeroed before n) fun _ => Twins K X := by
  -- By induction on the number of blocks that are still to be taken. Each of them is marked and zeroed on
  -- both disks.
  induction n generalizing st before with
  | zero => exact Echoes.pure fun _ _ h => h.2
  | succ n ih =>
    refine Echoes.leadsAttempt (allocate_one hK) (allocate_twins hK hf) ?_
    rintro r st₁ (⟨b, rfl, hb, hfree, -, rfl⟩ | ⟨rfl, rfl, -⟩ | ⟨hfaulty, -⟩)
    · have hplain := plain_of_free hres hb hfree
      refine Echoes.leadsAttempt (writeBlock_leads hplain .zero)
        (writeBlock_twins (Y := X) hK.mapped hf hplain .zero ?_) ?_
      · intro x hx
        exact (List.mem_cons.1 hx).imp_left fun h => by rw [h]
      · rintro r st₂ (⟨rfl, rfl⟩ | ⟨hfaulty, -⟩)
        · refine ih (fun i hi => ?_) (b :: before)
          rw [Store.write_used, Store.mark_used, Function.update_apply]
          split
          · rfl
          · exact hres i hi
        · exact absurd hfaulty hf
    · exact Echoes.throw fun _ _ h => h.2
    · exact absurd hfaulty hf

theorem allocateZeroed_twins (hK : K.Fits) (hf : ¬K.faulty) (hres : ∀ i, i < K.dataStart → st.used i = true)
    (n : Nat) :
    Echoes (Beside (Shows K) st (Twins K X)) (K.space.allocateZeroed n) fun _ => Twins K X := by
  refine Echoes.leadsAttempt (takeZeroed_leads hK hres [] n) (takeZeroed_twins hK hf hres [] n) ?_
  rintro r st₁ ⟨l, hfresh, -, ⟨rfl, -⟩ | ⟨e, rfl, -⟩⟩
  · exact Echoes.pure fun _ _ h => h.2
  · have hready (b : UInt32) (hb : b ∈ l) : b.toNat < K.count ∧ st₁.used b.toNat = true :=
      ⟨(hfresh.free b hb).1, by rw [hfresh.used, marked_of_mem hb]⟩
    exact Echoes.leadsBind (discardEach_leads hK hfresh.nodup hready)
      (discardEach_twins hK hf hfresh.nodup hready) (fun _ _ _ => Echoes.throw fun _ _ h => h.2)
      fun _ _ _ _ _ h => h

end InodeVolume
