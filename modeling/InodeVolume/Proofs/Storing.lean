import InodeVolume.Proofs.Extension
import InodeVolume.Proofs.Pool

/-!
# Storing inodes

What the actions on stored inodes do to a sound pool. Each changes one inode, and keeps the pool sound
even when it fails: a new inode is stored completely or not at all (`create_leads`), contents grow
completely or not at all (`grow_leads`), and an inode that is given up is gone whatever happens to its
blocks (`dissolve_leads`).
-/

namespace InodeVolume

open Record SpaceMap

variable {K : Regime} {st : Store} {r : Record} {id : UInt32}

namespace Record

theorem blocksIn_withLength (D : Nat → Block) (r : Record) (length : UInt32) (c : Nat) :
    blocksIn D { r with length := length } c = blocksIn D r c := rfl

theorem pieceIn_withLength (D : Nat → Block) (r : Record) (length : UInt32) (i : Nat) :
    pieceIn D { r with length := length } i = pieceIn D r i := rfl

section Extended

variable {D D' : Nat → Block} {r' : Record} {c c' i : Nat} {u : List UInt32}

theorem Extended.indexed (h : Extended D r c u D' r' c') (hmax : c' ≤ maxBlocks)
    (hnodup : (blocksIn D r c ++ u).Nodup) (hdata : ∀ b ∈ blocksIn D r c ++ u, K.IsData b.toNat) :
    Indexed K D' r' c' :=
  ⟨hmax, fun b hb => hdata b (h.owned.mem_iff.1 hb), h.owned.nodup_iff.2 hnodup⟩

/-- No piece is written by an extension. -/
theorem Extended.data_piece (h : Extended D r c u D' r' c') (hx : Indexed K D' r' c') (hi : i < c') :
    D' (pieceIn D' r' i).toNat = D (pieceIn D' r' i).toNat :=
  h.frame _ fun _ ht he => hx.piece_ne_table hi ht (UInt32.toNat_inj.1 he).symm

/-- A piece that was not there lies on a new block. -/
theorem Extended.new_piece_mem (h : Extended D r c u D' r' c') (hx : Indexed K D' r' c') (hi : c ≤ i)
    (hi' : i < c') : pieceIn D' r' i ∈ u := by
  rcases List.mem_append.1 (h.owned.mem_iff.1 (pieceIn_mem hi')) with hold | hnew
  · rcases List.mem_append.1 hold with hpiece | htable
    · obtain ⟨j, hj, he⟩ := List.mem_map.1 hpiece
      have hj := List.mem_range.1 hj
      rw [← h.pieceIn_eq hj] at he
      have := hx.piece_inj (by omega) hi' he
      omega
    · exact absurd rfl (hx.piece_ne_table hi' (h.tablesIn_subset htable))
  · exact hnew

theorem Extended.byteIn_old (h : Extended D r c u D' r' c') (hx : Indexed K D' r' c')
    (hi : i < c * blockSize) : byteIn D' r' i = byteIn D r i := by
  have hc : i / blockSize < c := Nat.div_lt_of_lt_mul (by rwa [Nat.mul_comm])
  rw [byteIn, byteIn, h.data_piece hx (Nat.lt_of_lt_of_le hc h.le), h.pieceIn_eq hc]

theorem Extended.byteIn_new (h : Extended D r c u D' r' c') (hx : Indexed K D' r' c')
    (hzero : ∀ b ∈ u, D b.toNat = .zero) (hi : c * blockSize ≤ i) (hi' : i < c' * blockSize) :
    byteIn D' r' i = 0 := by
  have hc : c ≤ i / blockSize := (Nat.le_div_iff_mul_le (by decide)).2 hi
  have hc' : i / blockSize < c' := Nat.div_lt_of_lt_mul (by rwa [Nat.mul_comm])
  rw [byteIn, h.data_piece hx hc', hzero _ (h.new_piece_mem hx hc hc'), Block.byte_zero]

end Extended

end Record

theorem byteIn_withLength (D : Nat → Block) (r : Record) (length : UInt32) (i : Nat) :
    byteIn D { r with length := length } i = byteIn D r i := rfl

/-- An index says the same where its blocks have not changed. -/
theorem sameIndex_of_blocks {D D' : Nat → Block} {c : Nat}
    (h : ∀ b ∈ blocksIn D r c, D' b.toNat = D b.toNat) : SameIndex D D' r c := by
  refine ⟨fun i hi => pieceIn_congr (fun t ht => h t (table_mem ht)) hi, ?_⟩
  by_cases hd : singleReach < c
  · rw [h _ (table_mem (double_mem hd))]
  · simp [show c - singleReach = 0 by omega]

/-! ## Extending a stored record -/

/-- What is left of the blocks when a record has been extended and stored. -/
structure ExtendedTo (K : Regime) (st : Store) (id : UInt32) (r : Record) (size : Nat)
    (l : List UInt32) (r' : Record) (st' : Store) : Prop where
  fresh : Fresh K st l st'
  count : l.length + totalBlocks r.length.toNat = totalBlocks size
  length : r'.length.toNat = size
  isDirectory : r'.isDirectory = r.isDirectory
  record : decode (st'.data id.toNat) = .ok r'
  owned : (blocksIn st'.data r' (dataBlocks size)).Perm
    (blocksIn st.data r (dataBlocks r.length.toNat) ++ l)
  /-- What was there keeps its blocks. -/
  pieces : ∀ i, i < dataBlocks r.length.toNat → pieceIn st'.data r' i = pieceIn st.data r i
  old : ∀ i, i < dataBlocks r.length.toNat * blockSize → byteIn st'.data r' i = byteIn st.data r i
  new : ∀ i, dataBlocks r.length.toNat * blockSize ≤ i → i < dataBlocks size * blockSize →
    byteIn st'.data r' i = 0
  frame : ∀ i, st.used i = true → i ≠ id.toNat →
    (∀ b ∈ blocksIn st.data r (dataBlocks r.length.toNat), b.toNat ≠ i) → st'.data i = st.data i

/-- What is left when a record could not be extended: all blocks in use but tables of the record hold
what they held, and the record says what it said. -/
structure NotExtended (K : Regime) (st : Store) (r : Record) (st' : Store) : Prop where
  leak : Leak K st.used st'.used
  same : SameIndex st.data st'.data r (dataBlocks r.length.toNat)
  frame : ∀ i, st.used i = true →
    (∀ t ∈ tablesIn st.data r (dataBlocks r.length.toNat), t.toNat ≠ i) → st'.data i = st.data i

section Extend

variable {size count : Nat}

/-- Extending the index and storing the record, once the blocks have been taken. -/
theorem expandAndStore_leads {l : List UInt32} {c : Nat} (hc : dataBlocks r.length.toNat = c)
    (hle : r.length.toNat ≤ size) (hmax : size ≤ maxFileSize)
    (hcount : l.length + totalBlocks r.length.toNat = totalBlocks size)
    (hnodup : (blocksIn st.data r c ++ l).Nodup) (hall : ∀ b ∈ blocksIn st.data r c ++ l, K.IsData b.toNat)
    (hid : K.Plain id.toNat) :
    Leads (Shows K) st (do
        let grown ← r.expanded size l
        grown.store id
        pure grown) fun res st' => st'.used = st.used ∧
      ((∃ D r', res = .ok { r' with length := UInt32.ofNat size } ∧
          Extended st.data r c l D r' (dataBlocks size) ∧
          st'.data = Function.update D id.toNat { r' with length := UInt32.ofNat size }.encode) ∨
        (K.faulty ∧ res = .error (.device .io) ∧ SameIndex st.data st'.data r c ∧
          ∀ i, (∀ t ∈ tablesIn st.data r c, t.toNat ≠ i) → (∀ t ∈ l, t.toNat ≠ i) →
            st'.data i = st.data i)) := by
  subst hc
  refine Leads.bind (expanded_leads hle hmax hcount hnodup hall) ?_ ?_
  · rintro r₂ st₂ ⟨hused, ⟨r', hr, hext⟩ | ⟨-, hr, -⟩⟩
    swap
    · cases hr
    cases hr
    refine Leads.bind (writeBlock_leads hid _) ?_ ?_
    · rintro v st₃ (⟨-, rfl⟩ | ⟨-, hv, -⟩)
      · exact Leads.pure ⟨hused, .inl ⟨st₂.data, r', rfl, hext, rfl⟩⟩
      · cases hv
    · rintro e st₃ (⟨he, -⟩ | ⟨hf, he, rfl⟩)
      · cases he
      · cases he
        -- The index has been extended but the record that is stored does not say so, so it reads as before.
        refine ⟨hused, .inr ⟨hf, rfl, hext.same, fun i hold hnew => hext.frame i fun t ht => ?_⟩⟩
        rcases hext.table_old_or_new hnodup ht with ht | ht
        · exact hold t ht
        · exact hnew t ht
  · rintro e st₂ ⟨hused, ⟨r', hr, -⟩ | ⟨hf, he, hint⟩⟩
    · cases hr
    · cases he
      exact ⟨hused, .inr ⟨hf, rfl, hint.same, hint.frame⟩⟩

/-- New blocks `l` have been taken for record `r`, whose own blocks are as they were. -/
structure Taken (K : Regime) (st : Store) (id : UInt32) (r : Record) (c : Nat) (l : List UInt32)
    (st₁ : Store) : Prop where
  fresh : Fresh K st l st₁
  data : ∀ i, st.used i = true → st₁.data i = st.data i
  zero : ∀ b ∈ l, st₁.data b.toNat = .zero
  apart : ∀ b, st.used b.toNat = true → b ∉ l
  old : ∀ b ∈ blocksIn st.data r c, st₁.data b.toNat = st.data b.toNat
  blocks : blocksIn st₁.data r c = blocksIn st.data r c
  nodup : (blocksIn st₁.data r c ++ l).Nodup
  all : ∀ b ∈ blocksIn st₁.data r c ++ l, K.IsData b.toNat
  record : id ∉ blocksIn st₁.data r c ++ l

section Taken

variable {st₁ st₂ : Store} {l : List UInt32} {c : Nat} {r' : Record} {D : Nat → Block}

/-- The blocks of a record are in use, so taking others leaves them alone. -/
theorem taken_of_fresh (hres : ∀ i, i < K.dataStart → st.used i = true) (hx : Indexed K st.data r c)
    (hused : ∀ b ∈ blocksIn st.data r c, st.used b.toNat = true) (hidUsed : st.used id.toNat = true)
    (hidNot : id ∉ blocksIn st.data r c) (hfresh : Fresh K st l st₁)
    (hdata : ∀ i, st.used i = true → st₁.data i = st.data i) (hzero : ∀ b ∈ l, st₁.data b.toNat = .zero) :
    Taken K st id r c l st₁ := by
  have hold (b : UInt32) (hb : b ∈ blocksIn st.data r c) : st₁.data b.toNat = st.data b.toNat :=
    hdata _ (hused b hb)
  have hblocks : blocksIn st₁.data r c = blocksIn st.data r c :=
    blocksIn_congr fun t ht => hold t (table_mem ht)
  -- What was in use is not among the new blocks, as these were free.
  have hapart (b : UInt32) (hb : st.used b.toNat = true) : b ∉ l := fun hm => by
    rw [(hfresh.free b hm).2] at hb
    cases hb
  refine ⟨hfresh, hdata, hzero, hapart, hold, hblocks, ?_, fun b hb => ?_, fun hm => ?_⟩
  · rw [hblocks, List.nodup_append]
    exact ⟨hx.nodup, hfresh.nodup, fun b hb b' hb' he => hapart b (hused b hb) (he ▸ hb')⟩
  · rcases List.mem_append.1 hb with hb | hb
    · exact hx.data b (hblocks ▸ hb)
    · have hfree := hfresh.free b hb
      refine ⟨?_, hfree.1⟩
      by_contra hlt
      rw [hres _ (Nat.lt_of_not_le hlt)] at hfree
      cases hfree.2
  · rw [hblocks] at hm
    rcases List.mem_append.1 hm with hm | hm
    · exact hidNot hm
    · exact hapart id hidUsed hm

/-- The record has been extended by the new blocks, and stored. -/
theorem Taken.extendedTo (h : Taken K st id r (dataBlocks r.length.toNat) l st₁) (hmax : size ≤ maxFileSize)
    (hcount : l.length + totalBlocks r.length.toNat = totalBlocks size)
    (hext : Extended st₁.data r (dataBlocks r.length.toNat) l D r' (dataBlocks size))
    (hst : st₂.used = st₁.used)
    (hD : st₂.data = Function.update D id.toNat { r' with length := UInt32.ofNat size }.encode) :
    ExtendedTo K st id r size l { r' with length := UInt32.ofNat size } st₂ := by
  have hx' := hext.indexed (dataBlocks_le_maxBlocks hmax) h.nodup h.all
  -- The record lies in a block of its own, so storing it changes no block of the index.
  have hidOut (b : UInt32) (hb : b ∈ blocksIn D r' (dataBlocks size)) : st₂.data b.toNat = D b.toNat := by
    rw [hD, Function.update_of_ne]
    exact fun he => h.record (hext.owned.mem_iff.1 (UInt32.toNat_inj.1 he ▸ hb))
  refine ⟨h.fresh.mono hst, hcount, toNat_ofNat_size hmax, hext.continues.isDirectory, ?_, ?_,
    fun i hi => ?_, fun i hi => ?_, fun i hi hi' => ?_, fun i hi hne hout => ?_⟩
  · rw [hD, Function.update_self]
    exact decode_encode _
  · rw [← h.blocks, blocksIn_withLength, blocksIn_congr fun t ht => hidOut t (table_mem ht)]
    exact hext.owned
  · rw [pieceIn_withLength, pieceIn_congr (fun t ht => hidOut t (table_mem ht)) (Nat.lt_of_lt_of_le hi hext.le),
      hext.pieceIn_eq hi]
    exact pieceIn_congr (fun t ht => h.old t (table_mem ht)) hi
  · have hi' : i < dataBlocks size * blockSize :=
      Nat.lt_of_lt_of_le hi (Nat.mul_le_mul_right _ hext.le)
    rw [byteIn_withLength, byteIn_congr hidOut hi', hext.byteIn_old hx' hi]
    exact byteIn_congr h.old hi
  · rw [byteIn_withLength, byteIn_congr hidOut hi']
    exact hext.byteIn_new hx' h.zero hi hi'
  · rw [hD, Function.update_of_ne hne, hext.frame i, h.data i hi]
    intro t ht
    rcases hext.table_old_or_new h.nodup ht with ht | ht
    · exact hout t (h.blocks ▸ table_mem ht)
    · rintro rfl
      exact h.apart t hi ht

/-- The record could not be extended, and the new blocks have been given back, as far as that was possible. -/
theorem Taken.notExtended {l' : List UInt32}
    (h : Taken K st id r (dataBlocks r.length.toNat) l st₁) (hst : st₂.used = st₁.used)
    (hsame : SameIndex st₁.data st₂.data r (dataBlocks r.length.toNat))
    (hframe : ∀ i, (∀ t ∈ tablesIn st₁.data r (dataBlocks r.length.toNat), t.toNat ≠ i) →
      (∀ t ∈ l, t.toNat ≠ i) → st₂.data i = st₁.data i)
    (hsub : l'.Sublist l) (hback : ¬K.faulty → l' = l) :
    NotExtended K st r (st₂.mark (marked st₂.used l' false)) := by
  refine ⟨?_, (sameIndex_of_blocks h.old).trans hsame, fun i hi hout => ?_⟩
  · rw [Store.mark_used, hst, h.fresh.used]
    exact Leak.of_returned (fun b hb => (h.fresh.free b hb).2) hsub hback
  · rw [Store.mark_data, hframe i, h.data i hi]
    · intro t ht
      exact hout t (tablesIn_congr (fun t ht => h.old t (table_mem ht)) ▸ ht)
    · rintro t ht rfl
      exact h.apart t hi ht

end Taken

/-- Extending a stored record takes as many new blocks as needed, or fails and keeps none of them. -/
theorem extendStored_leads (hK : K.Fits) (hres : ∀ i, i < K.dataStart → st.used i = true)
    (hle : r.length.toNat ≤ size) (hmax : size ≤ maxFileSize)
    (hcount : count + totalBlocks r.length.toNat = totalBlocks size)
    (hx : Indexed K st.data r (dataBlocks r.length.toNat))
    (hused : ∀ b ∈ blocksIn st.data r (dataBlocks r.length.toNat), st.used b.toNat = true)
    (hid : K.Plain id.toNat) (hidUsed : st.used id.toNat = true)
    (hidNot : id ∉ blocksIn st.data r (dataBlocks r.length.toNat)) :
    Leads (Shows K) st (r.extendStored K.space id size count) fun res st' =>
      (∃ r' l, res = .ok r' ∧ ExtendedTo K st id r size l r' st') ∨
        ∃ e, res = .error e ∧ NotExtended K st r st' ∧
          ((e = .outOfSpace ∧ K.free st.used < count) ∨ (K.faulty ∧ e = .device .io)) := by
  refine Leads.bind (allocateZeroed_leads hK hres count) ?_ ?_
  · rintro l st₁ ⟨hdata, ⟨l', hl, hlen, hfresh, hzero⟩ | ⟨e, he, -⟩⟩
    swap
    · cases he
    cases hl
    have h := taken_of_fresh hres hx hused hidUsed hidNot hfresh hdata hzero
    refine Leads.attemptBind (expandAndStore_leads rfl hle hmax (by rwa [hlen]) h.nodup h.all hid) ?_
    rintro res st₂ ⟨hst, ⟨D, r', rfl, hext, hD⟩ | ⟨hf, rfl, hsame, hframe⟩⟩
    · exact Leads.pure (.inl ⟨_, l, rfl, h.extendedTo hmax (by rwa [hlen]) hext hst hD⟩)
    · -- The new blocks are given back; without faults this gives back all of them.
      have hrelease (b : UInt32) (hb : b ∈ l) : b.toNat < K.count ∧ st₂.used b.toNat = true := by
        rw [hst, hfresh.used]
        exact ⟨(hfresh.free b hb).1, marked_of_mem hb⟩
      refine Leads.bind (discardEach_leads hK hfresh.nodup hrelease) ?_ ?_
      · rintro v st₃ ⟨-, l', hsub, rfl, hback⟩
        exact Leads.throw (.inr ⟨_, rfl, h.notExtended hst hsame hframe hsub hback, .inr ⟨hf, rfl⟩⟩)
      · rintro e st₃ ⟨hv, -⟩
        cases hv
  · rintro e st₁ ⟨hdata, ⟨l, he, -⟩ | ⟨e', he, hleak, hwhy⟩⟩
    · cases he
    · cases he
      exact .inr ⟨e, rfl, ⟨hleak, sameIndex_of_blocks fun b hb => hdata _ (hused b hb),
        fun i hi _ => hdata i hi⟩, hwhy⟩

end Extend

end InodeVolume
