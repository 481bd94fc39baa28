import InodeVolume.Storage
import InodeVolume.Proofs.Allocation
import Mathlib.Data.Finset.Card
import Mathlib.Data.Finset.Range
import Mathlib.Data.Finset.Filter

/-!
# Supplies of blocks

Taking several blocks at a time and giving them back. How many blocks can be had is the number of free
ones, wherever they lie (`Regime.free`). Blocks that were taken are zeroed, were free before, and come
only once (`allocateZeroed_leads`); blocks are given back one by one, all of them unless writes fail
(`releaseEach_leads`). A failure that takes back what it took leaves the map as it was, but for blocks
that a failing write keeps from being given back (`Leak`).
-/

namespace InodeVolume

/-! ## Marking many blocks -/

/-- The map with the blocks of a list turned to `value`. -/
def marked (used : Nat → Bool) (l : List UInt32) (value : Bool) (i : Nat) : Bool :=
  if i ∈ l.map UInt32.toNat then value else used i

variable {used used' : Nat → Bool} {l : List UInt32} {b : UInt32} {value : Bool} {i : Nat}

@[simp] theorem marked_nil (used : Nat → Bool) (value : Bool) : marked used [] value = used := by
  funext i
  simp [marked]

theorem marked_of_mem (h : b ∈ l) : marked used l value b.toNat = value :=
  if_pos (List.mem_map_of_mem h)

theorem marked_of_not_mem (h : ∀ b ∈ l, b.toNat ≠ i) : marked used l value i = used i := by
  refine if_neg fun hm => ?_
  obtain ⟨b, hb, he⟩ := List.mem_map.1 hm
  exact h b hb he

theorem marked_eq_true (h : ∀ b ∈ l, used b.toNat = false) (hi : used i = true) :
    marked used l value i = true := by
  rw [marked_of_not_mem, hi]
  rintro b hb rfl
  rw [h b hb] at hi
  cases hi

theorem marked_cons (used : Nat → Bool) (b : UInt32) (l : List UInt32) (value : Bool) :
    marked used (b :: l) value = marked (Function.update used b.toNat value) l value := by
  funext i
  simp only [marked, List.map_cons, List.mem_cons, Function.update_apply]
  by_cases h₁ : i ∈ l.map UInt32.toNat
  · rw [if_pos (.inr h₁), if_pos h₁]
  · by_cases h₂ : i = b.toNat
    · rw [if_pos (.inl h₂), if_neg h₁, if_pos h₂]
    · rw [if_neg (by tauto), if_neg h₁, if_neg h₂]

theorem marked_marked (used : Nat → Bool) (l : List UInt32) (h : ∀ b ∈ l, used b.toNat = value) :
    marked (marked used l (!value)) l value = used := by
  funext i
  simp only [marked]
  by_cases hi : i ∈ l.map UInt32.toNat
  · obtain ⟨b, hb, rfl⟩ := List.mem_map.1 hi
    rw [if_pos hi, h b hb]
  · rw [if_neg hi, if_neg hi]

/-! ## Free blocks -/

/-- How many blocks are free. -/
def Regime.free (K : Regime) (used : Nat → Bool) : Nat :=
  ((Finset.range K.count).filter fun i => used i = false).card

variable {K : Regime} {st : Store}

theorem Regime.free_update (h : i < K.count) (hi : used i = false) :
    K.free (Function.update used i true) + 1 = K.free used := by
  have hmem : i ∈ (Finset.range K.count).filter fun j => used j = false := by
    simp [h, hi]
  rw [free, free, ← Finset.card_erase_add_one hmem]
  congr 2
  ext j
  simp only [Finset.mem_filter, Finset.mem_range, Finset.mem_erase, Function.update_apply]
  by_cases he : j = i
  · simp [he]
  · simp [he]

theorem Regime.free_eq_zero (h : ∀ i, i < K.count → used i = true) : K.free used = 0 := by
  rw [free, Finset.card_eq_zero, Finset.filter_eq_empty_iff]
  intro i hi hf
  rw [h i (Finset.mem_range.1 hi)] at hf
  cases hf

/-- Marking free blocks leaves as many fewer free. -/
theorem Regime.free_marked (hn : l.Nodup) (h : ∀ b ∈ l, b.toNat < K.count ∧ used b.toNat = false) :
    K.free (marked used l true) + l.length = K.free used := by
  induction l generalizing used with
  | nil => simp
  | cons b l ih =>
    obtain ⟨hb, hn⟩ := List.nodup_cons.1 hn
    have hfirst := h b (List.mem_cons_self ..)
    -- The others are not the first block, so they are still free when it is marked.
    have hrest (b' : UInt32) (hb' : b' ∈ l) :
        b'.toNat < K.count ∧ Function.update used b.toNat true b'.toNat = false := by
      have hne : b'.toNat ≠ b.toNat := fun he => hb (UInt32.toNat_inj.1 he ▸ hb')
      rw [Function.update_of_ne hne]
      exact h b' (List.mem_cons_of_mem b hb')
    rw [marked_cons, List.length_cons, ← Nat.add_assoc, ih hn hrest]
    exact K.free_update hfirst.1 hfirst.2

theorem Regime.free_returned (hn : l.Nodup) (h : ∀ b ∈ l, b.toNat < K.count ∧ used b.toNat = true) :
    K.free (marked used l false) = K.free used + l.length := by
  have hback := marked_marked used l fun b hb => (h b hb).2
  have hclear (b : UInt32) (hb : b ∈ l) : b.toNat < K.count ∧ marked used l false b.toNat = false :=
    ⟨(h b hb).1, marked_of_mem hb⟩
  rw [← K.free_marked hn hclear]
  exact congrArg (K.free · + l.length) hback

/-- After an action that failed, the map is as before, but for blocks that were lost to failing
writes. -/
structure Leak (K : Regime) (used used' : Nat → Bool) : Prop where
  kept : ∀ i, used i = true → used' i = true
  exact : ¬K.faulty → used' = used

theorem Leak.refl (used : Nat → Bool) : Leak K used used := ⟨fun _ h => h, fun _ => rfl⟩

/-- Giving back what was taken leaves at most a leak. -/
theorem Leak.of_returned {l' : List UInt32} (hfree : ∀ b ∈ l, used b.toNat = false)
    (hsub : l'.Sublist l) (hall : ¬K.faulty → l' = l) :
    Leak K used (marked (marked used l true) l' false) := by
  refine ⟨fun i hi => ?_, fun hf => ?_⟩
  · rw [marked_of_not_mem, marked_eq_true hfree hi]
    rintro b hb rfl
    rw [hfree b (hsub.subset hb)] at hi
    cases hi
  · rw [hall hf]
    exact marked_marked used l hfree

/-- The blocks `l` were free and have been taken, before any that lie behind them. -/
structure Fresh (K : Regime) (st : Store) (l : List UInt32) (st' : Store) : Prop where
  nodup : l.Nodup
  free : ∀ b ∈ l, b.toNat < K.count ∧ st.used b.toNat = false
  used : st'.used = marked st.used l true
  least : ∀ b ∈ l, ∀ i, i < b.toNat → st'.used i = true

theorem Fresh.nil (st : Store) : Fresh K st [] st := ⟨List.nodup_nil, by simp, by simp, by simp⟩

theorem Fresh.mono {st₁ st' : Store} {l : List UInt32} (h : Fresh K st l st₁)
    (hst : st'.used = st₁.used) : Fresh K st l st' :=
  ⟨h.nodup, h.free, hst.trans h.used, by rw [hst]; exact h.least⟩

/-- A free block below which all are in use may be put before blocks that are new after it. -/
theorem Fresh.cons {st₁ st' : Store} {l : List UInt32} (hb : b.toNat < K.count)
    (hfree : st.used b.toNat = false) (hlow : ∀ i, i < b.toNat → st.used i = true)
    (hst : st₁.used = Function.update st.used b.toNat true) (h : Fresh K st₁ l st') :
    Fresh K st (b :: l) st' := by
  -- The others were free when the first was in use already.
  have hne (b' : UInt32) (hb' : b' ∈ l) : b'.toNat ≠ b.toNat := by
    intro he
    have hclear := (h.free b' hb').2
    rw [hst, he, Function.update_self] at hclear
    cases hclear
  refine ⟨List.nodup_cons.2 ⟨fun hm => hne b hm rfl, h.nodup⟩, fun b' hb' => ?_, ?_, fun b' hb' i hi => ?_⟩
  · rcases List.mem_cons.1 hb' with rfl | hb'
    · exact ⟨hb, hfree⟩
    · have hclear := h.free b' hb'
      rw [hst, Function.update_of_ne (hne b' hb')] at hclear
      exact hclear
  · rw [h.used, hst, marked_cons]
  · rcases List.mem_cons.1 hb' with rfl | hb'
    · rw [h.used]
      refine marked_eq_true (fun b' hb' => (h.free b' hb').2) ?_
      rw [hst, Function.update_of_ne (Nat.ne_of_lt hi)]
      exact hlow i hi
    · exact h.least b' hb' i hi

/-- Of the used blocks `l`, the blocks `l'` have been given back: all of them, or an error is reported. -/
structure Returned (K : Regime) (st : Store) (l : List UInt32) (res : Except Error Unit) (l' : List UInt32)
    (st' : Store) : Prop where
  sublist : l'.Sublist l
  store : st' = st.mark (marked st.used l' false)
  outcome : (res = .ok () ∧ l' = l) ∨ (K.faulty ∧ l' ≠ l ∧ res = .error (.device .io))

theorem Returned.all {st' : Store} {res : Except Error Unit} {l' : List UInt32} (h : Returned K st l res l' st')
    (hf : ¬K.faulty) : l' = l := by
  rcases h.outcome with ⟨-, he⟩ | ⟨hf', -⟩
  · exact he
  · exact absurd hf' hf

namespace SpaceMap

/-! ## Giving back -/

/-- The fold behind `releaseEach`, when some blocks have been given back with the outcome `before`. -/
theorem releases_yield (hK : K.Fits) (l : List UInt32) (before : Except Error Unit) (hn : l.Nodup)
    (hl : ∀ b ∈ l, b.toNat < K.count ∧ st.used b.toNat = true) :
    Leads (Shows K) st (l.foldlM (fun (outcome : Except Error Unit) b => do
        let released ← (attempt (K.space.release b 1) : DiskM (Except Error Unit))
        pure (outcome *> released)) before)
      fun res st' => ∃ l', l'.Sublist l ∧ st' = st.mark (marked st.used l' false) ∧
        ((res = .ok before ∧ l' = l) ∨
          (K.faulty ∧ l' ≠ l ∧ res = .ok (before *> .error (.device .io)))) := by
  -- Blocks are given back one by one; `before` says whether one of them has failed already.
  induction l generalizing st before with
  | nil =>
    refine Leads.pure ⟨[], List.Sublist.refl _, ?_, .inl ⟨rfl, rfl⟩⟩
    rw [marked_nil]
    rfl
  | cons b l ih =>
    obtain ⟨hb, hn⟩ := List.nodup_cons.1 hn
    have hfirst := hl b (List.mem_cons_self ..)
    rw [List.foldlM_cons]
    refine Leads.bind (M := fun res st' =>
        (res = .ok before ∧ st' = st.mark (Function.update st.used b.toNat false)) ∨
          (K.faulty ∧ res = .ok (before *> .error (.device .io)) ∧ st' = st)) ?_ ?_ ?_
    · refine Leads.attemptBind (release_one hK hfirst.1 hfirst.2) ?_
      rintro r st' (⟨rfl, rfl⟩ | ⟨hf, rfl, rfl⟩)
      · refine Leads.pure (.inl ⟨?_, rfl⟩)
        cases before <;> rfl
      · exact Leads.pure (.inr ⟨hf, rfl, rfl⟩)
    · rintro r st' (⟨hr, rfl⟩ | ⟨hf, hr, rfl⟩) <;> cases hr
      · refine Leads.mono (ih before hn fun b' hb' => ?_) ?_
        · have hne : b'.toNat ≠ b.toNat := fun he => hb (UInt32.toNat_inj.1 he ▸ hb')
          rw [Store.mark_used, Function.update_of_ne hne]
          exact hl b' (List.mem_cons_of_mem b hb')
        · rintro res st' ⟨l', hsub, rfl, hres⟩
          refine ⟨b :: l', hsub.cons_cons b, ?_, ?_⟩
          · rw [marked_cons]
            rfl
          · rcases hres with ⟨hres, rfl⟩ | ⟨hf, hne, hres⟩
            · exact .inl ⟨hres, rfl⟩
            · exact .inr ⟨hf, fun he => hne (List.cons.inj he).2, hres⟩
      · refine Leads.mono (ih _ hn fun b' hb' => hl b' (List.mem_cons_of_mem b hb')) ?_
        rintro res st' ⟨l', hsub, rfl, hres⟩
        have hshort : l' ≠ b :: l := fun he => by
          have := hsub.length_le
          rw [he, List.length_cons] at this
          omega
        refine ⟨l', hsub.cons b, rfl, .inr ⟨hf, hshort, ?_⟩⟩
        rcases hres with ⟨hres, -⟩ | ⟨-, -, hres⟩
        · exact hres
        · rw [hres]
          cases before <;> rfl
    · rintro e st' (⟨he, -⟩ | ⟨-, he, -⟩) <;> cases he

/-- Giving used blocks back frees each of them, unless writes fail. -/
theorem releaseEach_leads (hK : K.Fits) (hn : l.Nodup)
    (hl : ∀ b ∈ l, b.toNat < K.count ∧ st.used b.toNat = true) :
    Leads (Shows K) st (K.space.releaseEach l) fun res st' => ∃ l', Returned K st l res l' st' := by
  refine Leads.bind (releases_yield hK l (.ok ()) hn hl) ?_ ?_
  · rintro outcome st' ⟨l', hsub, rfl, hres⟩
    refine Leads.resume ⟨l', hsub, rfl, ?_⟩
    rcases hres with ⟨hres, rfl⟩ | ⟨hf, hne, hres⟩ <;> cases hres
    · exact .inl ⟨rfl, rfl⟩
    · exact .inr ⟨hf, hne, rfl⟩
  · rintro e st' ⟨l', -, -, ⟨he, -⟩ | ⟨-, -, he⟩⟩ <;> cases he

theorem discardEach_leads (hK : K.Fits) (hn : l.Nodup)
    (hl : ∀ b ∈ l, b.toNat < K.count ∧ st.used b.toNat = true) :
    Leads (Shows K) st (K.space.discardEach l) fun res st' =>
      res = .ok () ∧ ∃ l', l'.Sublist l ∧ st' = st.mark (marked st.used l' false) ∧
        (¬K.faulty → l' = l) := by
  refine Leads.attemptBind (releaseEach_leads hK hn hl) ?_
  rintro res st' ⟨l', hl'⟩
  exact Leads.pure ⟨rfl, l', hl'.sublist, hl'.store, hl'.all⟩

/-! ## Taking -/

/-- Taking `n` zeroed blocks, when `taken` have been taken before. -/
theorem takeZeroed_leads (hK : K.Fits) (hres : ∀ i, i < K.dataStart → st.used i = true)
    (taken : List UInt32) (n : Nat) :
    Leads (Shows K) st (K.space.takeZeroed taken n) fun res st' => ∃ l, Fresh K st l st' ∧
      (∀ i, (∀ b ∈ l, b.toNat ≠ i) → st'.data i = st.data i) ∧
      ((res = .ok (taken.reverse ++ l) ∧ l.length = n ∧ ∀ b ∈ l, st'.data b.toNat = .zero) ∨
        ∃ e, res = .error (e, taken.reverse ++ l) ∧
          ((e = .outOfSpace ∧ K.free st.used < n) ∨ (K.faulty ∧ e = .device .io))) := by
  -- Blocks are taken one by one, each from a map in which those before it are used.
  induction n generalizing st taken with
  | zero =>
    refine Leads.pure ⟨[], Fresh.nil st, fun i _ => rfl, .inl ⟨?_, rfl, by simp⟩⟩
    rw [List.append_nil]
  | succ n ih =>
    refine Leads.attemptBind (allocate_one hK) ?_
    rintro res st' (⟨b, rfl, hb, hfree, hlow, rfl⟩ | ⟨rfl, rfl, hnone⟩ | ⟨hf, rfl, rfl⟩)
    · -- The block was free, so it is none of those that hold the map.
      have hplain : K.Plain b.toNat := by
        refine ⟨hb, fun hm => ?_⟩
        rw [hres _ hm.2] at hfree
        cases hfree
      refine Leads.attemptBind (writeBlock_leads hplain .zero) ?_
      rintro res st' (⟨rfl, rfl⟩ | ⟨hf, rfl, rfl⟩)
      · refine Leads.mono (ih (fun i hi => ?_) (b :: taken)) ?_
        · simp only [Store.write_used, Store.mark_used, Function.update_apply]
          split
          · rfl
          · exact hres i hi
        · rintro res st' ⟨l, hl, hdata, hres⟩
          -- What is taken later is not taken again, so its zeroing leaves this block as it is.
          have hbl : ∀ b' ∈ l, b'.toNat ≠ b.toNat := by
            intro b' hb' he
            have hclear := (hl.free b' hb').2
            rw [Store.write_used, Store.mark_used, he, Function.update_self] at hclear
            cases hclear
          refine ⟨b :: l, hl.cons hb hfree hlow rfl, fun i hi => ?_, ?_⟩
          · rw [hdata i fun b' hb' => hi b' (List.mem_cons_of_mem b hb')]
            exact Function.update_of_ne (Ne.symm (hi b (List.mem_cons_self ..))) _ _
          · rw [List.reverse_cons, List.append_assoc, List.singleton_append] at hres
            rcases hres with ⟨rfl, hlen, hzero⟩ | ⟨e, rfl, he⟩
            · refine .inl ⟨rfl, by rw [List.length_cons, hlen], fun b' hb' => ?_⟩
              rcases List.mem_cons.1 hb' with rfl | hb'
              · rw [hdata _ hbl]
                exact Function.update_self ..
              · exact hzero b' hb'
            · refine .inr ⟨e, rfl, ?_⟩
              rcases he with ⟨he, hlt⟩ | he
              · refine .inl ⟨he, ?_⟩
                have hcount := K.free_update hb hfree
                simp only [Store.write_used, Store.mark_used] at hlt
                omega
              · exact .inr he
      · have hone : Fresh K st [b] (st.mark (Function.update st.used b.toNat true)) :=
          (Fresh.nil (st.mark _)).cons hb hfree hlow rfl
        refine Leads.throw ⟨[b], hone, fun i _ => rfl, .inr ⟨_, ?_, .inr ⟨hf, rfl⟩⟩⟩
        rw [List.reverse_cons]
    · refine Leads.throw ⟨[], Fresh.nil _, fun i _ => rfl, .inr ⟨_, ?_, .inl ⟨rfl, ?_⟩⟩⟩
      · rw [List.append_nil]
      · rw [K.free_eq_zero hnone]
        exact Nat.succ_pos n
    · refine Leads.throw ⟨[], Fresh.nil _, fun i _ => rfl, .inr ⟨_, ?_, .inr ⟨hf, rfl⟩⟩⟩
      rw [List.append_nil]

/-- Taking `n` zeroed blocks takes blocks that were free, or fails because there are too few or because
of a failing write, and then takes none but for a leak. -/
theorem allocateZeroed_leads (hK : K.Fits) (hres : ∀ i, i < K.dataStart → st.used i = true) (n : Nat) :
    Leads (Shows K) st (K.space.allocateZeroed n) fun res st' =>
      (∀ i, st.used i = true → st'.data i = st.data i) ∧
        ((∃ l, res = .ok l ∧ l.length = n ∧ Fresh K st l st' ∧ ∀ b ∈ l, st'.data b.toNat = .zero) ∨
          ∃ e, res = .error e ∧ Leak K st.used st'.used ∧
            ((e = .outOfSpace ∧ K.free st.used < n) ∨ (K.faulty ∧ e = .device .io))) := by
  refine Leads.attemptBind (takeZeroed_leads hK hres [] n) ?_
  rintro res st' ⟨l, hl, hdata, hres⟩
  have hsame (i : Nat) (hi : st.used i = true) : st'.data i = st.data i := by
    refine hdata i ?_
    rintro b hb rfl
    rw [(hl.free b hb).2] at hi
    cases hi
  rcases hres with ⟨rfl, hlen, hzero⟩ | ⟨e, rfl, he⟩
  · exact Leads.pure ⟨hsame, .inl ⟨l, rfl, hlen, hl, hzero⟩⟩
  · have hused (b : UInt32) (hb : b ∈ l) : b.toNat < K.count ∧ st'.used b.toNat = true := by
      rw [hl.used]
      exact ⟨(hl.free b hb).1, marked_of_mem hb⟩
    -- What has been taken is given back, which never fails but may leave a leak.
    refine Leads.bind (discardEach_leads hK hl.nodup hused) ?_ ?_
    · rintro v st'' ⟨-, l', hsub, rfl, hall⟩
      refine Leads.throw ⟨hsame, .inr ⟨e, rfl, ?_, he⟩⟩
      rw [Store.mark_used, hl.used]
      exact Leak.of_returned (fun b hb => (hl.free b hb).2) hsub hall
    · rintro e st'' ⟨hv, -⟩
      cases hv

end SpaceMap

end InodeVolume
