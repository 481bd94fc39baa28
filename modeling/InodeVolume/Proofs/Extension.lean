import InodeVolume.Proofs.Growth

/-!
# Longer indexes

The relation between a record and its extension. `Extended` says that the longer index has the blocks of
the shorter one and the new ones, that the old pieces stay where they are, and that only tables were
written. `Interrupted` is what is left of an extension that a failing write has stopped: the old record
says what it said before.

Main statement: with as many fresh blocks as it needs, an extension succeeds or is interrupted
(`expanded_leads`).
-/

namespace InodeVolume

namespace Record

variable {D D₁ D₂ D' : Nat → Block} {r r₁ r₂ r' : Record} {c c₁ c₂ c' : Nat} {u v : List UInt32}

/-- A length that is allowed fits the word that it is stored in. -/
theorem toNat_ofNat_size {size : Nat} (h : size ≤ maxFileSize) : (UInt32.ofNat size).toNat = size :=
  UInt32.toNat_ofNat_of_lt' (Nat.lt_of_le_of_lt h (by decide))

/-! ## Relations between indexes -/

/-- The record `r'` has the pointers of `r` for its first `c` pieces. -/
structure Continues (r r' : Record) (c : Nat) : Prop where
  length : r'.length = r.length
  isDirectory : r'.isDirectory = r.isDirectory
  direct : ∀ i, i < c → i < directCount → r'.directAt i = r.directAt i
  single : directCount < c → r'.single = r.single
  double : singleReach < c → r'.double = r.double

/-- The first `c` pieces of `r` and their tables are the same with the blocks `D` and `D'`. -/
structure SameIndex (D D' : Nat → Block) (r : Record) (c : Nat) : Prop where
  pieces : ∀ i, i < c → pieceIn D' r i = pieceIn D r i
  inner : (D' r.double.toNat).words (tableCount (c - singleReach)) =
    (D r.double.toNat).words (tableCount (c - singleReach))

/-- The record `r'` with `c'` pieces is an extension of `r` with `c` pieces by the blocks `u`. -/
structure Extended (D : Nat → Block) (r : Record) (c : Nat) (u : List UInt32) (D' : Nat → Block)
    (r' : Record) (c' : Nat) : Prop where
  le : c ≤ c'
  continues : Continues r r' c
  same : SameIndex D D' r c
  owned : (blocksIn D' r' c').Perm (blocksIn D r c ++ u)
  frame : ∀ id, (∀ t ∈ tablesIn D' r' c', t.toNat ≠ id) → D' id = D id

/-- An extension of `r` by blocks of `u` that was stopped: only tables of `r` and blocks of `u` have
changed, and `r` refers to the same blocks. -/
structure Interrupted (D : Nat → Block) (r : Record) (c : Nat) (u : List UInt32)
    (D' : Nat → Block) : Prop where
  same : SameIndex D D' r c
  frame : ∀ id, (∀ t ∈ tablesIn D r c, t.toNat ≠ id) → (∀ t ∈ u, t.toNat ≠ id) → D' id = D id

theorem Continues.pieceIn_eq (h : Continues r r' c) {i : Nat} (hi : i < c) :
    pieceIn D r' i = pieceIn D r i := by
  unfold pieceIn
  split
  · exact h.direct i hi ‹_›
  · split
    · rw [h.single (by omega)]
    · rw [h.double (by omega)]

/-- A record that continues another one has its tables. -/
theorem Continues.tablesIn_eq (h : Continues r r' c) : tablesIn D r' c = tablesIn D r c := by
  unfold tablesIn
  by_cases hs : directCount < c
  · rw [h.single hs]
    by_cases hd : singleReach < c
    · rw [h.double hd]
    · simp only [if_neg hd]
  · have hd : ¬singleReach < c := by
      simp only [singleReach]
      omega
    simp only [if_neg hs, if_neg hd]

theorem SameIndex.refl (D : Nat → Block) (r : Record) (c : Nat) : SameIndex D D r c :=
  ⟨fun _ _ => rfl, rfl⟩

theorem SameIndex.tablesIn_eq (h : SameIndex D D' r c) : tablesIn D' r c = tablesIn D r c := by
  unfold tablesIn
  rw [h.inner]

theorem SameIndex.blocksIn_eq (h : SameIndex D D' r c) : blocksIn D' r c = blocksIn D r c := by
  rw [blocksIn, blocksIn, h.tablesIn_eq]
  refine congrArg (· ++ _) (List.map_congr_left fun i hi => h.pieces i (List.mem_range.1 hi))

/-- A change that leaves a longer index alone leaves the shorter one alone. -/
theorem SameIndex.of_continues (h : SameIndex D D' r' c') (hr : Continues r r' c) (hc : c ≤ c') :
    SameIndex D D' r c := by
  refine ⟨fun i hi => ?_, ?_⟩
  · rw [← hr.pieceIn_eq hi, ← hr.pieceIn_eq hi]
    exact h.pieces i (Nat.lt_of_lt_of_le hi hc)
  · by_cases hd : singleReach < c
    · rw [← hr.double hd]
      exact Block.words_prefix h.inner (tableCount_mono (by omega))
    · simp [show c - singleReach = 0 by omega]

theorem SameIndex.trans (h₁ : SameIndex D D₁ r c) (h₂ : SameIndex D₁ D₂ r c) : SameIndex D D₂ r c :=
  ⟨fun i hi => (h₂.pieces i hi).trans (h₁.pieces i hi), h₂.inner.trans h₁.inner⟩

theorem Continues.trans (h₁ : Continues r r₁ c) (h₂ : Continues r₁ r₂ c₁) (hc : c ≤ c₁) :
    Continues r r₂ c where
  length := h₂.length.trans h₁.length
  isDirectory := h₂.isDirectory.trans h₁.isDirectory
  direct := fun i hi hd => (h₂.direct i (by omega) hd).trans (h₁.direct i hi hd)
  single := fun hs => (h₂.single (by omega)).trans (h₁.single hs)
  double := fun hd => (h₂.double (by omega)).trans (h₁.double hd)

theorem Extended.refl (D : Nat → Block) (r : Record) (c : Nat) : Extended D r c [] D r c where
  le := Nat.le_refl c
  continues := ⟨rfl, rfl, fun _ _ _ => rfl, fun _ => rfl, fun _ => rfl⟩
  same := SameIndex.refl D r c
  owned := by rw [List.append_nil]
  frame := fun _ _ => rfl

/-- The pieces that were there keep their blocks. -/
theorem Extended.pieceIn_eq (h : Extended D r c u D' r' c') {i : Nat} (hi : i < c) :
    pieceIn D' r' i = pieceIn D r i :=
  (h.continues.pieceIn_eq hi).trans (h.same.pieces i hi)

/-- The tables that were there are still tables. -/
theorem Extended.tablesIn_subset (h : Extended D r c u D' r' c') {t : UInt32}
    (ht : t ∈ tablesIn D r c) : t ∈ tablesIn D' r' c' := by
  rw [← h.same.tablesIn_eq, ← h.continues.tablesIn_eq] at ht
  have hle := h.le
  simp only [tablesIn, List.mem_append] at ht ⊢
  -- The table of the second tier is kept, and the outer table only gets more words.
  rcases ht with ht | ht
  · refine .inl ?_
    by_cases hs : directCount < c
    · rw [if_pos hs] at ht
      rwa [if_pos (by omega)]
    · simp [if_neg hs] at ht
  · refine .inr ?_
    by_cases hd : singleReach < c
    · rw [if_pos hd] at ht
      rw [if_pos (by omega)]
      rcases List.mem_cons.1 ht with rfl | ht
      · exact List.mem_cons_self ..
      · exact List.mem_cons_of_mem _ (Block.mem_words_of_le (tableCount_mono (by omega)) ht)
    · simp [if_neg hd] at ht

theorem Extended.trans (h₁ : Extended D r c u D₁ r₁ c₁) (h₂ : Extended D₁ r₁ c₁ v D₂ r₂ c₂) :
    Extended D r c (u ++ v) D₂ r₂ c₂ where
  le := Nat.le_trans h₁.le h₂.le
  continues := h₁.continues.trans h₂.continues h₁.le
  same := h₁.same.trans (h₂.same.of_continues h₁.continues h₁.le)
  owned := by
    rw [← List.append_assoc]
    exact h₂.owned.trans (h₁.owned.append_right v)
  frame := fun id hid => by
    rw [h₂.frame id hid]
    exact h₁.frame id fun t ht => hid t (h₂.tablesIn_subset ht)

/-- A table of the longer index is a table of the shorter one or a new block: it holds no old piece. -/
theorem Extended.table_old_or_new (h : Extended D r c u D' r' c')
    (hnodup : (blocksIn D r c ++ u).Nodup) {t : UInt32} (ht : t ∈ tablesIn D' r' c') :
    t ∈ tablesIn D r c ∨ t ∈ u := by
  have hn : (blocksIn D' r' c').Nodup := h.owned.nodup_iff.2 hnodup
  have hmem := h.owned.mem_iff.1 (table_mem ht)
  rcases List.mem_append.1 hmem with hold | hnew
  · rcases List.mem_append.1 hold with hpiece | htable
    · obtain ⟨i, hi, rfl⟩ := List.mem_map.1 hpiece
      have hi := List.mem_range.1 hi
      have hle := h.le
      refine absurd ?_ ((List.nodup_append.1 hn).2.2 _
        (List.mem_map.2 ⟨i, List.mem_range.2 (by omega : i < c'), rfl⟩) _ ht)
      exact h.pieceIn_eq hi
    · exact .inl htable
  · exact .inr hnew

theorem Extended.nodup_append (h : Extended D r c u D' r' c')
    (hnodup : (blocksIn D r c ++ (u ++ v)).Nodup) : (blocksIn D' r' c' ++ v).Nodup := by
  rw [← List.append_assoc] at hnodup
  exact (h.owned.append_right v).nodup_iff.2 hnodup

theorem Extended.mem_append (h : Extended D r c u D' r' c') {b : UInt32}
    (hb : b ∈ blocksIn D' r' c' ++ v) : b ∈ blocksIn D r c ++ (u ++ v) := by
  rw [← List.append_assoc]
  exact (h.owned.append_right v).mem_iff.1 hb

theorem Interrupted.refl (D : Nat → Block) (r : Record) (c : Nat) (u : List UInt32) :
    Interrupted D r c u D :=
  ⟨SameIndex.refl D r c, fun _ _ _ => rfl⟩

/-- An extension that goes on and is then stopped is a stopped extension. -/
theorem Extended.interrupted (h₁ : Extended D r c u D₁ r₁ c₁) (h₂ : Interrupted D₁ r₁ c₁ v D₂)
    (hnodup : (blocksIn D r c ++ u).Nodup) : Interrupted D r c (u ++ v) D₂ where
  same := h₁.same.trans (h₂.same.of_continues h₁.continues h₁.le)
  frame := fun id hold hnew => by
    have htables (t : UInt32) (ht : t ∈ tablesIn D₁ r₁ c₁) : t.toNat ≠ id := by
      rcases h₁.table_old_or_new hnodup ht with h | h
      · exact hold t h
      · exact hnew t (List.mem_append_left _ h)
    rw [h₂.frame id htables fun t ht => hnew t (List.mem_append_right _ ht)]
    exact h₁.frame id htables

/-! ## The three tiers -/

theorem blocksIn_direct (hc : c ≤ directCount) :
    blocksIn D r c = (List.range c).map r.directAt := by
  have hs : ¬singleReach < c := by
    simp only [singleReach]
    omega
  rw [blocksIn, tablesIn, if_neg (by omega), if_neg hs, List.append_nil, List.append_nil]
  refine List.map_congr_left fun i hi => ?_
  have := List.mem_range.1 hi
  rw [pieceIn, if_pos (by omega)]

/-- Pointers in the record are a step of their own. -/
theorem extended_direct (D : Nat → Block) (r : Record) (c : Nat) (u : List UInt32)
    (h : c + u.length ≤ directCount) :
    Extended D r c u D (r.putDirect c u) (c + u.length) := by
  obtain ⟨hlength, hdir, hsingle, hdouble⟩ := putDirect_fields r c u
  have hdirect := directAt_putDirect r c u h
  refine ⟨Nat.le_add_right _ _, ⟨hlength, hdir, fun i hi _ => ?_, fun _ => hsingle,
    fun _ => hdouble⟩, SameIndex.refl D r c, ?_, fun _ _ => rfl⟩
  · have hget := congrArg (fun l => l[i]?) hdirect
    simpa [hi, show i < c + u.length by omega] using hget
  · rw [blocksIn_direct h, blocksIn_direct (by omega), hdirect]

/-- The blocks of the tier below the singly indirect table and of those before it. -/
theorem blocksIn_single (hd : directCount ≤ c) (hc : c ≤ singleReach) :
    (blocksIn D r c).Perm ((List.range directCount).map r.directAt ++
      (D r.single.toNat).words (c - directCount) ++ if directCount < c then [r.single] else []) := by
  have hmin : min (c - directCount) blockWords = c - directCount := by
    simp only [singleReach] at hc
    omega
  rw [blocksIn, pieces_by_tier, tablesIn, Nat.min_eq_right hd, hmin, if_neg (by omega : ¬singleReach < c),
    show c - singleReach = 0 by omega]
  simp

/-- Pointers in the singly indirect table are a step of their own. -/
theorem extended_single {id : UInt32} {table : Block} {new ws : List UInt32}
    (hd : directCount ≤ c) (hws : 0 < ws.length) (hc : c + ws.length ≤ singleReach)
    (hid : c = directCount ∧ new = [id] ∨ directCount < c ∧ id = r.single ∧ new = [])
    (htable : table.words (c - directCount + ws.length) = (D id.toNat).words (c - directCount) ++ ws) :
    Extended D r c (new ++ ws) (Function.update D id.toNat table) { r with single := id }
      (c + ws.length) := by
  have hword (j : Nat) (hj : j < c - directCount) : table.word j = (D id.toNat).word j :=
    Block.word_of_words_append htable hj
  refine ⟨Nat.le_add_right _ _, ⟨rfl, rfl, fun _ _ _ => rfl, fun hs => ?_, fun _ => rfl⟩,
    ⟨fun i hi => ?_, ?_⟩, ?_, fun i hi => ?_⟩
  · rcases hid with ⟨he, -⟩ | ⟨-, he, -⟩
    · omega
    · exact he
  · rw [pieceIn, pieceIn]
    by_cases h₁ : i < directCount
    · rw [if_pos h₁, if_pos h₁]
    · have hsingle : id = r.single := by
        rcases hid with ⟨he, -⟩ | ⟨-, he, -⟩
        · omega
        · exact he
      rw [if_neg h₁, if_neg h₁, if_pos (by omega), if_pos (by omega), ← hsingle,
        Function.update_self]
      exact hword _ (by omega)
  · simp [show c - singleReach = 0 by omega]
  · refine (blocksIn_single (by omega) hc).trans ?_
    refine List.Perm.trans ?_ ((blocksIn_single hd (by omega)).append_right _).symm
    simp only [Function.update_self, if_pos (show directCount < c + ws.length by omega)]
    rw [show c + ws.length - directCount = c - directCount + ws.length by omega, htable]
    have hdirect : (List.range directCount).map (directAt { r with single := id }) =
        (List.range directCount).map r.directAt := rfl
    rw [hdirect, List.perm_iff_count]
    intro b
    -- The table itself counts as new only if the index has had none so far.
    rcases hid with ⟨rfl, rfl⟩ | ⟨hlt, rfl, rfl⟩
    · simp only [Nat.sub_self, Block.words, List.range_zero, List.map_nil, Nat.lt_irrefl, if_false,
        List.count_append, List.count_cons, List.count_nil]
      omega
    · simp only [if_pos hlt, List.count_append, List.count_cons, List.count_nil]
      omega
  · have hne : i ≠ id.toNat := fun he => hi id (single_mem (by omega)) he.symm
    rw [Function.update_of_ne hne]

/-- The blocks of the tiers in front of the doubly indirect one, when they are full. -/
def frontBlocks (D : Nat → Block) (r : Record) : List UInt32 :=
  (List.range directCount).map r.directAt ++ ((D r.single.toNat).words blockWords ++ [r.single])

/-- The blocks of an index that fills the first two tiers. -/
theorem blocksIn_double (outer : Block) (hc : singleReach ≤ c)
    (houter : singleReach < c → outer = D r.double.toNat) :
    (blocksIn D r c).Perm (frontBlocks D r ++ (outerBlocks D outer (c - singleReach) ++
      if singleReach < c then [r.double] else [])) := by
  refine (tiersIn_perm D r c).symm.trans ?_
  have hd : directCount < c := by
    simp only [singleReach, blockWords] at hc
    omega
  have h₁ : min c directCount = directCount := by omega
  have h₂ : min (c - directCount) blockWords = blockWords := by
    simp only [singleReach] at hc
    omega
  rw [tiersIn, h₁, h₂, if_pos hd, frontBlocks]
  -- At the boundary there is no outer table yet, and nothing under it.
  by_cases hlt : singleReach < c
  · rw [if_pos hlt, if_pos hlt, houter hlt]
  · simp [outerBlocks, if_neg hlt, show c - singleReach = 0 by omega]

section Double

variable {outer outer' : Block} {q' : Nat}

/-- Everything that an outer table leads to after some steps was there or is new. -/
theorem threaded_perm (hc : singleReach ≤ c) (houter : singleReach < c → outer = D r.double.toNat)
    (h : Threaded D outer (c - singleReach) u D' outer' q') :
    (blocksIn D r c ++ u).Perm (frontBlocks D r ++ (outerBlocks D' outer' q' ++
      if singleReach < c then [r.double] else [])) := by
  refine ((blocksIn_double _ hc houter).append_right u).trans ?_
  have howned := h.owned
  rw [List.perm_iff_count] at howned ⊢
  intro b
  have := howned b
  simp only [List.count_append] at this ⊢
  omega

/-- An inner table after some steps was one before or is new. -/
theorem threaded_table (hc : singleReach ≤ c) (houter : singleReach < c → outer = D r.double.toNat)
    (h : Threaded D outer (c - singleReach) u D' outer' q') (hnodup : (blocksIn D r c ++ u).Nodup)
    {t : UInt32} (ht : t ∈ outer'.words (tableCount q')) : t ∈ tablesIn D r c ∨ t ∈ u := by
  have hn := (threaded_perm hc houter h).nodup_iff.1 hnodup
  have hinner : (outerBlocks D' outer' q').Nodup :=
    (List.nodup_append.1 (List.nodup_append.1 hn).2.1).1
  rcases List.mem_append.1 (h.owned.mem_iff.1 (List.mem_append_right _ ht)) with hold | hnew
  · refine .inl ?_
    -- A block that was a piece of the index before is one now, so it is no table.
    rcases List.mem_append.1 hold with hpiece | htable
    · obtain ⟨j, hj, rfl⟩ := List.mem_map.1 hpiece
      have hj := List.mem_range.1 hj
      have hle := h.le
      refine absurd (h.pieces j hj) ((List.nodup_append.1 hinner).2.2 _
        (List.mem_map.2 ⟨j, List.mem_range.2 (by omega : j < q'), rfl⟩) _ ht)
    · by_cases hlt : singleReach < c
      · rw [houter hlt] at htable
        exact inner_mem hlt htable
      · rw [show c - singleReach = 0 by omega] at htable
        simp at htable
  · exact .inr hnew

/-- The singly indirect table is none of the blocks that steps behind it write. -/
theorem threaded_single (hc : singleReach ≤ c) (houter : singleReach < c → outer = D r.double.toNat)
    (h : Threaded D outer (c - singleReach) u D' outer' q') (hnodup : (blocksIn D r c ++ u).Nodup) :
    D' r.single.toNat = D r.single.toNat := by
  have hn := (threaded_perm hc houter h).nodup_iff.1 hnodup
  refine h.frame _ fun t ht he => ?_
  have hne := (List.nodup_append.1 hn).2.2 r.single (by simp [frontBlocks]) t
    (List.mem_append_left _ (List.mem_append_right _ ht))
  exact hne (UInt32.toNat_inj.1 he).symm

/-- Steps below an outer table that is not stored yet can be interrupted. -/
theorem threaded_interrupted (hc : singleReach ≤ c)
    (houter : singleReach < c → outer = D r.double.toNat)
    (h : Threaded D outer (c - singleReach) u D' outer' q') (hnodup : (blocksIn D r c ++ u).Nodup) :
    Interrupted D r c u D' := by
  have hsingle := threaded_single hc houter h hnodup
  -- The record still names the old outer table, and none of the new blocks is in its place.
  have hdouble (hlt : singleReach < c) : D' r.double.toNat = D r.double.toNat := by
    have hn := (threaded_perm hc houter h).nodup_iff.1 hnodup
    rw [if_pos hlt] at hn
    refine h.frame _ fun t ht he => ?_
    have hne := (List.nodup_append.1 (List.nodup_append.1 hn).2.1).2.2 t
      (List.mem_append_right _ ht) r.double (List.mem_singleton.2 rfl)
    exact hne (UInt32.toNat_inj.1 he)
  refine ⟨⟨fun i hi => ?_, ?_⟩, fun id hold hnew => ?_⟩
  · rw [pieceIn, pieceIn]
    by_cases h₁ : i < directCount
    · rw [if_pos h₁, if_pos h₁]
    · rw [if_neg h₁, if_neg h₁]
      by_cases h₂ : i < singleReach
      · rw [if_pos h₂, if_pos h₂, hsingle]
      · have hlt : singleReach < c := by omega
        have hj : i - singleReach < c - singleReach := by omega
        rw [if_neg h₂, if_neg h₂, hdouble hlt, ← houter hlt, ← h.pieces _ hj, outerPiece, outerPiece]
        have hget := congrArg (fun l => l[(i - singleReach) / blockWords]?) h.tables
        have hcell := cell_lt_tableCount hj
        simp only [Block.words, List.getElem?_map, List.getElem?_range hcell, Option.map_some,
          Option.some.injEq] at hget
        rw [hget]
  · by_cases hlt : singleReach < c
    · rw [hdouble hlt]
    · simp [show c - singleReach = 0 by omega]
  · refine h.frame id fun t ht => ?_
    rcases threaded_table hc houter h hnodup ht with ht | ht
    · exact hold t ht
    · exact hnew t ht

/-- Pointers below the doubly indirect table are a step of their own. -/
theorem extended_double {id : UInt32} {new : List UInt32} (hc : singleReach ≤ c) (hlt : c < c')
    (hid : c = singleReach ∧ new = [id] ∨ singleReach < c ∧ id = r.double ∧ new = [])
    (houter : singleReach < c → outer = D r.double.toNat)
    (h : Threaded D outer (c - singleReach) u D₁ outer' (c' - singleReach))
    (hnodup : (blocksIn D r c ++ (new ++ u)).Nodup) :
    Extended D r c (new ++ u) (Function.update D₁ id.toNat outer') { r with double := id } c' := by
  have hnodup' : (blocksIn D r c ++ u).Nodup :=
    hnodup.sublist (List.Sublist.append_left (List.sublist_append_right new u) _)
  have hint := threaded_interrupted hc houter h hnodup'
  have hsingle := threaded_single hc houter h hnodup'
  -- Counted block by block: the outer table is either new or was already part of the index.
  have hperm : (blocksIn D r c ++ (new ++ u)).Perm
      (frontBlocks D r ++ (outerBlocks D₁ outer' (c' - singleReach) ++ [id])) := by
    have hp := threaded_perm hc houter h
    rw [List.perm_iff_count] at hp ⊢
    intro b
    have := hp b
    rcases hid with ⟨rfl, rfl⟩ | ⟨hd, rfl, rfl⟩
    · simp only [Nat.lt_irrefl, if_false, List.count_append, List.count_nil] at this ⊢
      omega
    · simp only [if_pos hd, List.count_append, List.count_nil] at this ⊢
      omega
  have hall := hperm.nodup_iff.1 hnodup
  -- The outer table is neither one of its inner tables nor the singly indirect one, so storing it leaves
  -- those alone.
  have hid_inner (t : UInt32) (ht : t ∈ outer'.words (tableCount (c' - singleReach))) :
      t.toNat ≠ id.toNat := by
    have hne := (List.nodup_append.1 (List.nodup_append.1 hall).2.1).2.2 t
      (List.mem_append_right _ ht) id (List.mem_singleton.2 rfl)
    exact fun he => hne (UInt32.toNat_inj.1 he)
  have hid_single : r.single.toNat ≠ id.toNat := by
    have hne := (List.nodup_append.1 hall).2.2 r.single (by simp [frontBlocks]) id (by simp)
    exact fun he => hne (UInt32.toNat_inj.1 he)
  have hold : ∀ j, j < c - singleReach → outerPiece (Function.update D₁ id.toNat outer') outer' j =
      outerPiece D outer j := by
    intro j hj
    rw [outerPiece_congr (D := D₁) (n := c' - singleReach) (fun t ht => Function.update_of_ne
      (hid_inner t ht) _ _) (by omega)]
    exact h.pieces j hj
  refine ⟨Nat.le_of_lt hlt, ⟨rfl, rfl, fun _ _ _ => rfl, fun _ => rfl, fun hd => ?_⟩,
    ⟨fun i hi => ?_, ?_⟩, ?_, fun i hi => ?_⟩
  · rcases hid with ⟨he, -⟩ | ⟨-, he, -⟩
    · omega
    · exact he
  · rw [pieceIn, pieceIn]
    by_cases h₁ : i < directCount
    · rw [if_pos h₁, if_pos h₁]
    · rw [if_neg h₁, if_neg h₁]
      by_cases h₂ : i < singleReach
      · rw [if_pos h₂, if_pos h₂, Function.update_of_ne hid_single, hsingle]
      · have hd : singleReach < c := by omega
        obtain ⟨he, -⟩ | ⟨-, he, -⟩ := hid
        · omega
        · rw [if_neg h₂, if_neg h₂, ← houter hd, ← he, Function.update_self]
          exact hold _ (by omega)
  · rcases hid with ⟨he, -⟩ | ⟨hd, he, -⟩
    · simp [show c - singleReach = 0 by omega]
    · rw [← houter hd, ← he, Function.update_self]
      exact h.tables
  · refine List.Perm.trans ?_ hperm.symm
    refine (blocksIn_double outer' (by omega) fun _ => ?_).trans ?_
    · rw [Function.update_self]
    · rw [if_pos (by omega : singleReach < c')]
      have hfront : frontBlocks (Function.update D₁ id.toNat outer') { r with double := id } =
          frontBlocks D r := by
        have hdirect : directAt { r with double := id } = r.directAt := rfl
        rw [frontBlocks, hdirect]
        simp only [Function.update_of_ne hid_single, hsingle]
        rw [frontBlocks]
      have hbelow : outerBlocks (Function.update D₁ id.toNat outer') outer' (c' - singleReach) =
          outerBlocks D₁ outer' (c' - singleReach) :=
        outerBlocks_congr fun t ht => Function.update_of_ne (hid_inner t ht) _ _
      rw [hfront, hbelow]
  · have hne : i ≠ id.toNat := fun he => hi id (double_mem (by omega)) he.symm
    rw [Function.update_of_ne hne]
    refine h.frame i fun t ht => hi t (inner_mem (by omega) ?_)
    rw [Function.update_self]
    exact ht

end Double

end Record

/-! ## Carrying an extension out -/

/-- A longer index takes no fewer blocks. -/
theorem Record.indexSize_mono {c c' : Nat} (h : c ≤ c') : Record.indexSize c ≤ Record.indexSize c' := by
  refine Nat.add_le_add (Nat.add_le_add h ?_) ?_
  · by_cases hs : directCount < c
    · exact Nat.le_of_eq (by rw [if_pos hs, if_pos (by omega)])
    · rw [if_neg hs]
      exact Nat.zero_le _
  · by_cases hd : singleReach < c
    · rw [if_pos hd, if_pos (by omega)]
      exact Nat.add_le_add_left (tableCount_mono (by omega)) 1
    · rw [if_neg hd]
      exact Nat.zero_le _

theorem Record.indexSize_direct {c : Nat} (h : c ≤ directCount) : Record.indexSize c = c := by
  have hs : ¬singleReach < c := by
    simp only [singleReach]
    omega
  rw [Record.indexSize, if_neg (by omega), if_neg hs, Nat.add_zero]

theorem Record.indexSize_single {c : Nat} (hc : c ≤ singleReach) :
    Record.indexSize c = c + if directCount < c then 1 else 0 := by
  rw [Record.indexSize, if_neg (by omega : ¬singleReach < c), Nat.add_zero]

namespace Growth

open Record

variable {K : Regime} {st : Store} {r : Record} {c c₁ c' : Nat} {u u₁ u₂ s : List UInt32}

/-- An extension from `c` to `c'` pieces by the blocks `u` has succeeded, or a write has failed. -/
def Grew (K : Regime) (st : Store) (r : Record) (c : Nat) (u : List UInt32) (c' : Nat)
    (s : List UInt32) (res : Except Error Unit) (g : Growing Store) : Prop :=
  (∃ st' r', res = .ok () ∧ g = ⟨st', r', s⟩ ∧ st'.used = st.used ∧
      Extended st.data r c u st'.data r' c') ∨
    (K.faulty ∧ res = .error (.device .io) ∧ g.store.used = st.used ∧
      Interrupted st.data r c u g.store.data)

/-- One extension after another is one extension. -/
theorem grew_bind (c₁ : Nat) {x f : GrowthM Unit} (hnodup : (blocksIn st.data r c ++ (u₁ ++ u₂)).Nodup)
    (hx : Leads (ShowsGrowth (Shows K)) ⟨st, r, u₁ ++ (u₂ ++ s)⟩ x (Grew K st r c u₁ c₁ (u₂ ++ s)))
    (hf : ∀ st₁ r₁, st₁.used = st.used → Extended st.data r c u₁ st₁.data r₁ c₁ →
      Leads (ShowsGrowth (Shows K)) ⟨st₁, r₁, u₂ ++ s⟩ f (Grew K st₁ r₁ c₁ u₂ c' s)) :
    Leads (ShowsGrowth (Shows K)) ⟨st, r, u₁ ++ u₂ ++ s⟩ (do x; f) (Grew K st r c (u₁ ++ u₂) c' s) := by
  -- The blocks for the second part are not in use while the first part is done.
  have hnodup₁ : (blocksIn st.data r c ++ u₁).Nodup :=
    hnodup.sublist (List.Sublist.append_left (List.sublist_append_left u₁ u₂) _)
  rw [List.append_assoc]
  refine Leads.bind hx ?_ ?_
  · rintro v g (⟨st₁, r₁, -, rfl, hused, hext⟩ | ⟨-, hv, -⟩)
    swap
    · cases hv
    refine Leads.mono (hf st₁ r₁ hused hext) ?_
    rintro res g (⟨st', r', rfl, rfl, hused', hext'⟩ | ⟨hfault, rfl, hused', hint⟩)
    · exact .inl ⟨st', r', rfl, rfl, hused'.trans hused, hext.trans hext'⟩
    · exact .inr ⟨hfault, rfl, hused'.trans hused, hext.interrupted hint hnodup₁⟩
  · rintro e g (⟨st₁, r₁, he, -⟩ | ⟨hfault, he, hused, hint⟩)
    · cases he
    · cases he
      refine .inr ⟨hfault, rfl, hused, hint.same, fun id hold hnew => ?_⟩
      exact hint.frame id hold fun t ht => hnew t (List.mem_append_left _ ht)

/-- Doing nothing is an extension by no block. -/
theorem grew_pure : Leads (ShowsGrowth (Shows K)) ⟨st, r, s⟩ (pure ()) (Grew K st r c [] c s) :=
  Leads.pure (.inl ⟨st, r, rfl, rfl, rfl, Extended.refl st.data r c⟩)

/-- The tier of the pointers in the record. -/
theorem fillDirect_leads (hc : c + u.length ≤ directCount ∨ u = []) :
    Leads (ShowsGrowth (Shows K)) ⟨st, r, u ++ s⟩ (fillDirect c u.length)
      (Grew K st r c u (c + u.length) s) := by
  rcases hc with hc | rfl
  · exact Yields.leads (fillDirect_yields u c)
      (.inl ⟨st, _, rfl, rfl, rfl, extended_direct st.data r c u hc⟩)
  · exact grew_pure

/-- Filling the singly indirect table, once that is known. -/
theorem fillSingle_leads {id : UInt32} {ws : List UInt32} {table : Block} (new : List UInt32)
    (hd : directCount ≤ c) (hlt : c < c') (hc : c < singleReach) (hid : K.IsData id.toNat)
    (hlen : ws.length = min c' singleReach - c)
    (hnew : c = directCount ∧ new = [id] ∨ directCount < c ∧ id = r.single ∧ new = [])
    (htable : table.words (c - directCount) = (st.data id.toNat).words (c - directCount)) :
    Leads (ShowsGrowth (Shows K)) ⟨st, { r with single := id }, ws ++ s⟩
      (do
        let table ← fillTable table (c - directCount) (min c' singleReach - c)
        onDisk (DiskM.writeBlock (← current).single.toNat table))
      (Grew K st r c (new ++ ws) (min c' singleReach) s) := by
  rw [← hlen]
  have hsum : c + ws.length = min c' singleReach := by omega
  have hfit : c - directCount + ws.length ≤ blockWords := by
    simp only [singleReach] at hsum hc
    omega
  -- The pointers are put into the table in memory, and a single write stores it.
  refine Leads.bind (fillTable_leads table ws _ hfit) ?_ ?_
  · rintro t g ⟨⟨t', ht', ht⟩, rfl⟩
    cases ht'
    rw [htable] at ht
    refine Yields.bind current_yields (Leads.mono (writeBlock_onDisk hid.plain t) ?_)
    rintro res g (⟨rfl, rfl⟩ | ⟨hfault, rfl, rfl⟩)
    · rw [← hsum]
      exact .inl ⟨_, _, rfl, rfl, rfl, extended_single hd (by omega) (by omega) hnew ht⟩
    · exact .inr ⟨hfault, rfl, rfl, Interrupted.refl _ _ _ _⟩
  · rintro e g ⟨⟨t, he, -⟩, -⟩
    cases he

/-- The tier below the singly indirect table. -/
theorem extendSingle_leads (hd : directCount ≤ c) (hlt : c < c') (hc : c < singleReach)
    (hu : u.length = min c' singleReach - c + if c = directCount then 1 else 0)
    (hdata : ∀ b ∈ blocksIn st.data r c ++ u, K.IsData b.toNat) :
    Leads (ShowsGrowth (Shows K)) ⟨st, r, u ++ s⟩ (extendSingle c c')
      (Grew K st r c u (min c' singleReach) s) := by
  unfold extendSingle
  -- The table of this tier is the first new block if the index was direct until now.
  by_cases h0 : c = directCount
  · rw [if_pos h0]
    obtain ⟨b, ws, rfl⟩ : ∃ b ws, u = b :: ws := by
      cases u with
      | nil => simp [h0] at hu
      | cons b ws => exact ⟨b, ws, rfl⟩
    rw [List.length_cons, if_pos h0] at hu
    refine Yields.bind (next_yields b) (Yields.bind (change_yields _) (Yields.bind Yields.pure ?_))
    refine fillSingle_leads [b] hd hlt hc (hdata b (by simp)) (by omega) (.inl ⟨h0, rfl⟩) ?_
    rw [h0, Nat.sub_self, Block.words_zero, Block.words_zero]
  · rw [if_neg h0]
    rw [if_neg h0, Nat.add_zero] at hu
    have hsingle : K.IsData r.single.toNat :=
      hdata _ (List.mem_append_left _ (table_mem (single_mem (by omega))))
    refine Yields.bind current_yields (Yields.bind (readBlock_onDisk hsingle.plain) ?_)
    exact fillSingle_leads [] hd hlt hc hsingle hu (.inr ⟨by omega, rfl, rfl⟩) rfl

/-- Filling the tables below the doubly indirect one, and that, once it is known. -/
theorem fillDouble_leads {id : UInt32} {us : List UInt32} {outer : Block} (new : List UInt32)
    (hc : singleReach ≤ c) (hlt : c < c') (hmax : c' ≤ maxBlocks) (hid : K.IsData id.toNat)
    (hnew : c = singleReach ∧ new = [id] ∨ singleReach < c ∧ id = r.double ∧ new = [])
    (houter : singleReach < c → outer = st.data r.double.toNat)
    (hlen : us.length + tableCount (c - singleReach) = c' - c + tableCount (c' - singleReach))
    (hnodup : (blocksIn st.data r c ++ (new ++ us)).Nodup)
    (hdata : ∀ b ∈ blocksIn st.data r c ++ (new ++ us), K.IsData b.toNat) :
    Leads (ShowsGrowth (Shows K)) ⟨st, { r with double := id }, us ++ s⟩
      (do
        let outer ← (pieces blockWords (c - singleReach) (c' - c)).foldlM extendInner outer
        onDisk (DiskM.writeBlock (← current).double.toNat outer))
      (Grew K st r c (new ++ us) c' s) := by
  have hsub : (blocksIn st.data r c ++ us).Nodup :=
    hnodup.sublist (List.Sublist.append_left (List.sublist_append_right new us) _)
  have hperm := ((blocksIn_double _ hc houter).append_right us)
  -- The inner tables see only the blocks below the outer one.
  have hbelow : List.Sublist (outerBlocks st.data outer (c - singleReach) ++ us)
      (frontBlocks st.data r ++ (outerBlocks st.data outer (c - singleReach) ++
        if singleReach < c then [r.double] else []) ++ us) := by
    refine List.Sublist.append_right ?_ us
    exact (List.sublist_append_left _ _).trans (List.sublist_append_right _ _)
  have hsum : c - singleReach + (c' - c) = c' - singleReach := by omega
  refine Leads.bind (extendInners_leads (fun p hp => piece_in_cell hp)
    (pieces_tile (by decide) _ _) ?_ ?_ ((hperm.nodup_iff.1 hsub).sublist hbelow)
    fun b hb => hdata b ?_) ?_ ?_
  · rw [hsum]
    simp only [maxBlocks] at hmax
    omega
  · rw [hsum]
    omega
  · have hmem := hperm.mem_iff.2 (hbelow.subset hb)
    rcases List.mem_append.1 hmem with hmem | hmem
    · exact List.mem_append_left _ hmem
    · exact List.mem_append_right _ (List.mem_append_right _ hmem)
  · rintro outer₁ g (⟨outer', st₁, hres, rfl, hused, hstep⟩ | ⟨-, hres, -⟩)
    swap
    · cases hres
    cases hres
    rw [hsum] at hstep
    refine Yields.bind current_yields (Leads.mono (writeBlock_onDisk hid.plain outer₁) ?_)
    rintro res g (⟨rfl, rfl⟩ | ⟨hfault, rfl, rfl⟩)
    · exact .inl ⟨_, _, rfl, rfl, hused, extended_double hc hlt hnew houter hstep hnodup⟩
    · -- The inner tables are written but not the outer one, so the index reads as before.
      have hint := threaded_interrupted hc houter hstep hsub
      refine .inr ⟨hfault, rfl, hused, hint.same, fun i hold hfresh => ?_⟩
      exact hint.frame i hold fun t ht => hfresh t (List.mem_append_right _ ht)
  · rintro e g (⟨outer', st₁, hres, -⟩ | ⟨hfault, hres, hused, outer', q', u', v, rfl, hstep⟩)
    · cases hres
    · cases hres
      have hint := threaded_interrupted hc houter hstep
        (hsub.sublist (List.Sublist.append_left (List.sublist_append_left u' v) _))
      refine .inr ⟨hfault, rfl, hused, hint.same, fun i hold hfresh => ?_⟩
      exact hint.frame i hold fun t ht =>
        hfresh t (List.mem_append_right _ (List.mem_append_left _ ht))

/-- How many blocks the tier below the doubly indirect table takes, beside the outer table. -/
theorem length_double (hc : singleReach ≤ c) (hlt : c < c') (hu : u.length + indexSize c = indexSize c') :
    u.length + tableCount (c - singleReach) =
      c' - c + tableCount (c' - singleReach) + if c = singleReach then 1 else 0 := by
  have hdirect : directCount < c := by
    simp only [singleReach, blockWords] at hc
    omega
  simp only [indexSize] at hu
  rw [if_pos hdirect, if_pos (by omega : directCount < c'), if_pos (by omega : singleReach < c')] at hu
  -- The outer table is one of the new blocks just if the index ended with the second tier.
  by_cases he : c = singleReach
  · rw [if_neg (by omega : ¬singleReach < c)] at hu
    rw [if_pos he, show c - singleReach = 0 by omega, tableCount_zero]
    omega
  · rw [if_pos (by omega : singleReach < c)] at hu
    rw [if_neg he]
    omega

/-- The tier below the doubly indirect table. -/
theorem extendDouble_leads (hc : singleReach ≤ c) (hlt : c < c') (hmax : c' ≤ maxBlocks)
    (hu : u.length + indexSize c = indexSize c')
    (hnodup : (blocksIn st.data r c ++ u).Nodup)
    (hdata : ∀ b ∈ blocksIn st.data r c ++ u, K.IsData b.toNat) :
    Leads (ShowsGrowth (Shows K)) ⟨st, r, u ++ s⟩ (extendDouble c c') (Grew K st r c u c' s) := by
  -- Of the supply the outer table takes one block if there is none yet; the inner tables and the data take
  -- the rest.
  have hsize := length_double hc hlt hu
  unfold extendDouble
  by_cases h0 : c = singleReach
  · rw [if_pos h0]
    rw [if_pos h0] at hsize
    obtain ⟨b, us, rfl⟩ : ∃ b us, u = b :: us := by
      cases u with
      | nil =>
        rw [List.length_nil] at hsize
        have := tableCount_mono (n := c - singleReach) (m := c' - singleReach) (by omega)
        omega
      | cons b us => exact ⟨b, us, rfl⟩
    rw [List.length_cons] at hsize
    refine Yields.bind (next_yields b) (Yields.bind (change_yields _) (Yields.bind Yields.pure ?_))
    exact fillDouble_leads [b] hc hlt hmax (hdata b (by simp)) (.inl ⟨h0, rfl⟩) (fun h => by omega)
      (by omega) hnodup hdata
  · rw [if_neg h0]
    rw [if_neg h0, Nat.add_zero] at hsize
    have hdouble : K.IsData r.double.toNat :=
      hdata _ (List.mem_append_left _ (table_mem (double_mem (by omega))))
    refine Yields.bind current_yields (Yields.bind (readBlock_onDisk hdouble.plain) ?_)
    exact fillDouble_leads [] hc hlt hmax hdouble (.inr ⟨by omega, rfl, rfl⟩) (fun _ => rfl) hsize
      hnodup hdata

/-- A supply is divided as the pieces are that it is for. -/
theorem divide_supply (h₁ : c ≤ c₁) (h₂ : c₁ ≤ c') (hu : u.length + indexSize c = indexSize c') :
    ∃ u₁ u₂, u = u₁ ++ u₂ ∧ u₁.length + indexSize c = indexSize c₁ ∧
      u₂.length + indexSize c₁ = indexSize c' := by
  have hle₁ := indexSize_mono h₁
  have hle₂ := indexSize_mono h₂
  obtain ⟨u₁, u₂, rfl, hu₁⟩ := exists_supplies (u := u) (k := indexSize c₁ - indexSize c) (by omega)
  rw [List.length_append] at hu
  exact ⟨u₁, u₂, rfl, by omega, by omega⟩

theorem extend_eq (first : Nat) {last : Nat} (h : last ≤ maxBlocks) :
    extend first last = (do
      fillDirect first (min last directCount - first)
      if max first (min last directCount) = last then pure ()
      else
        (if max first (min last directCount) < singleReach then
          extendSingle (max first (min last directCount)) last else pure ()) >>= fun _ =>
        if max (max first (min last directCount)) (min last singleReach) = last then pure ()
        else extendDouble (max (max first (min last directCount)) (min last singleReach)) last) := by
  unfold extend
  rw [if_neg (by omega)]
  refine bind_congr fun _ => ?_
  dsimp only
  refine ite_congr rfl (fun _ => rfl) fun _ => ?_
  by_cases hs : max first (min last directCount) < singleReach
  · rw [if_pos hs, if_pos hs]
  · rw [if_neg hs, if_neg hs, pure_bind]

/-- What has to be known of the tiers to know it of the whole: `P a r c u s c' x` says of the action `x`,
from the state `a` and the record `r`, how it takes an index of `c` pieces to one of `c'` pieces by the
blocks `u` and leaves `s`. -/
structure TierRules {σ : Type} (data : σ → Nat → Block) (ok : UInt32 → Prop)
    (P : σ → Record → Nat → List UInt32 → List UInt32 → Nat → GrowthM Unit → Prop) : Prop where
  nothing : ∀ {a r c s}, P a r c [] s c (pure ())
  andThen : ∀ {a r c c' u₁ u₂ s x f} (c₁ : Nat), (blocksIn (data a) r c ++ (u₁ ++ u₂)).Nodup →
    P a r c u₁ (u₂ ++ s) c₁ x →
    (∀ a₁ r₁, Extended (data a) r c u₁ (data a₁) r₁ c₁ → P a₁ r₁ c₁ u₂ s c' f) →
    P a r c (u₁ ++ u₂) s c' (do x; f)
  direct : ∀ {a r c u s}, c + u.length ≤ directCount ∨ u = [] →
    P a r c u s (c + u.length) (fillDirect c u.length)
  single : ∀ {a r c c' u s}, directCount ≤ c → c < c' → c < singleReach →
    u.length = min c' singleReach - c + (if c = directCount then 1 else 0) →
    (∀ b ∈ blocksIn (data a) r c ++ u, ok b) → P a r c u s (min c' singleReach) (extendSingle c c')
  double : ∀ {a r c c' u s}, singleReach ≤ c → c < c' → c' ≤ maxBlocks →
    u.length + indexSize c = indexSize c' → (blocksIn (data a) r c ++ u).Nodup →
    (∀ b ∈ blocksIn (data a) r c ++ u, ok b) → P a r c u s c' (extendDouble c c')

/-- An index is extended tier by tier. -/
theorem TierRules.extend {σ : Type} {data : σ → Nat → Block} {ok : UInt32 → Prop}
    {P : σ → Record → Nat → List UInt32 → List UInt32 → Nat → GrowthM Unit → Prop}
    (h : TierRules data ok P) {a : σ} (hle : c ≤ c') (hmax : c' ≤ maxBlocks)
    (hu : u.length + indexSize c = indexSize c') (hnodup : (blocksIn (data a) r c ++ u).Nodup)
    (hok : ∀ b ∈ blocksIn (data a) r c ++ u, ok b) : P a r c u s c' (Growth.extend c c') := by
  -- The supply is divided at the ends of the tiers, and each tier is filled from its part.
  rw [extend_eq c hmax]
  have h₁ : c ≤ max c (min c' directCount) := Nat.le_max_left _ _
  have h₁' : max c (min c' directCount) ≤ c' := by omega
  obtain ⟨u₁, v, rfl, hu₁, hv⟩ := divide_supply h₁ h₁' hu
  have hfill : c + u₁.length = max c (min c' directCount) ∧
      (c + u₁.length ≤ directCount ∨ u₁ = []) := by
    by_cases hc : c ≤ directCount
    · have hs : max c (min c' directCount) ≤ directCount := by omega
      rw [indexSize_direct hc, indexSize_direct hs] at hu₁
      exact ⟨by omega, .inl (by omega)⟩
    · have he : max c (min c' directCount) = c := by omega
      rw [he] at hu₁ ⊢
      have h0 : u₁ = [] := List.eq_nil_of_length_eq_zero (by omega)
      exact ⟨by simp [h0], .inr h0⟩
  have hlen : min c' directCount - c = u₁.length := by omega
  rw [hlen, ← hfill.1]
  rw [← hfill.1] at h₁' hv
  generalize hc₁ : c + u₁.length = c₁ at *
  refine h.andThen c₁ hnodup (hc₁ ▸ h.direct (hc₁.symm ▸ hfill.2)) fun a₁ r₁ hext => ?_
  have hnodup₁ := hext.nodup_append hnodup
  have hok₁ : ∀ b ∈ blocksIn (data a₁) r₁ c₁ ++ v, ok b := fun b hb => hok b (hext.mem_append hb)
  by_cases hdone : c₁ = c'
  · subst hdone
    have h0 : v = [] := List.eq_nil_of_length_eq_zero (by omega)
    rw [if_pos rfl, h0]
    exact h.nothing
  rw [if_neg hdone]
  have hd : directCount ≤ c₁ := by omega
  have h₂ : c₁ ≤ max c₁ (min c' singleReach) := Nat.le_max_left _ _
  obtain ⟨u₂, u₃, rfl, hu₂, hu₃⟩ := divide_supply h₂ (by omega) hv
  refine h.andThen (max c₁ (min c' singleReach)) hnodup₁ ?_ fun a₂ r₂ hext₂ => ?_
  · by_cases hs : c₁ < singleReach
    · have he : max c₁ (min c' singleReach) = min c' singleReach := by omega
      rw [if_pos hs, he]
      rw [he] at hu₂
      refine h.single hd (by omega) hs ?_ fun b hb => hok₁ b ?_
      · rw [indexSize_single (by omega), indexSize_single (by omega)] at hu₂
        rw [if_pos (by omega : directCount < min c' singleReach)] at hu₂
        by_cases he : c₁ = directCount
        · rw [if_neg (by omega)] at hu₂
          rw [if_pos he]
          omega
        · rw [if_pos (by omega)] at hu₂
          rw [if_neg he]
          omega
      · rcases List.mem_append.1 hb with hb | hb
        · exact List.mem_append_left _ hb
        · exact List.mem_append_right _ (List.mem_append_left _ hb)
    · -- The index is already past the singly indirect tier, which then takes nothing.
      have he : max c₁ (min c' singleReach) = c₁ := by omega
      rw [he] at hu₂ ⊢
      have h0 : u₂ = [] := List.eq_nil_of_length_eq_zero (by omega)
      rw [if_neg hs, h0]
      exact h.nothing
  · by_cases hdone₂ : max c₁ (min c' singleReach) = c'
    · rw [hdone₂] at hu₃
      have h0 : u₃ = [] := List.eq_nil_of_length_eq_zero (by omega)
      rw [if_pos hdone₂, h0, hdone₂]
      exact h.nothing
    · rw [if_neg hdone₂]
      exact h.double (by omega) (by omega) hmax hu₃ (hext₂.nodup_append hnodup₁)
        fun b hb => hok₁ b (hext₂.mem_append hb)

/-- An index with enough new blocks is extended, unless a write fails. -/
theorem extend_leads (hle : c ≤ c') (hmax : c' ≤ maxBlocks)
    (hu : u.length + indexSize c = indexSize c') (hnodup : (blocksIn st.data r c ++ u).Nodup)
    (hdata : ∀ b ∈ blocksIn st.data r c ++ u, K.IsData b.toNat) :
    Leads (ShowsGrowth (Shows K)) ⟨st, r, u ++ s⟩ (extend c c') (Grew K st r c u c' s) := by
  have hrules : TierRules Store.data (fun b => K.IsData b.toNat) fun st r c u s c' x =>
      Leads (ShowsGrowth (Shows K)) ⟨st, r, u ++ s⟩ x (Grew K st r c u c' s) :=
    { nothing := grew_pure
      andThen := fun c₁ hnodup hx hf => grew_bind c₁ hnodup hx fun st₁ r₁ _ hext => hf st₁ r₁ hext
      direct := fillDirect_leads
      single := extendSingle_leads
      double := extendDouble_leads }
  exact hrules.extend hle hmax hu hnodup hdata

end Growth

namespace Record

variable {K : Regime} {st : Store} {r : Record} {u : List UInt32} {size : Nat}

theorem dataBlocks_mono {size size' : Nat} (h : size ≤ size') : dataBlocks size ≤ dataBlocks size' := by
  simp only [dataBlocks]
  exact Nat.div_le_div_right (by omega)

theorem totalBlocks_mono {size size' : Nat} (h : size ≤ size') : totalBlocks size ≤ totalBlocks size' := by
  rw [totalBlocks_eq, totalBlocks_eq]
  exact indexSize_mono (dataBlocks_mono h)

theorem dataBlocks_le_maxBlocks (h : size ≤ maxFileSize) : dataBlocks size ≤ maxBlocks := by
  simp only [dataBlocks, maxFileSize, blockSize] at h ⊢
  omega

/-- A record with as many new blocks as a longer length needs is extended to that length, unless a write
fails. -/
theorem expanded_leads (hle : r.length.toNat ≤ size) (hmax : size ≤ maxFileSize)
    (hu : u.length + totalBlocks r.length.toNat = totalBlocks size)
    (hnodup : (blocksIn st.data r (dataBlocks r.length.toNat) ++ u).Nodup)
    (hdata : ∀ b ∈ blocksIn st.data r (dataBlocks r.length.toNat) ++ u, K.IsData b.toNat) :
    Leads (Shows K) st (r.expanded size u) fun res st' =>
      st'.used = st.used ∧
        ((∃ r', res = .ok { r' with length := UInt32.ofNat size } ∧
            Extended st.data r (dataBlocks r.length.toNat) u st'.data r' (dataBlocks size)) ∨
          (K.faulty ∧ res = .error (.device .io) ∧
            Interrupted st.data r (dataBlocks r.length.toNat) u st'.data)) := by
  intro disk hs
  -- The supply is as long as it has to be, so nothing is left of it in the end.
  have hstart : ShowsGrowth (Shows K) ⟨st, r, u ++ []⟩ ⟨disk, r, u⟩ := ⟨hs, rfl, (List.append_nil u).symm⟩
  have hgrow := Growth.extend_leads (dataBlocks_mono hle) (dataBlocks_le_maxBlocks hmax) hu hnodup
    hdata _ hstart
  cases hres : Growth.extend (dataBlocks r.length.toNat) (dataBlocks size) ⟨disk, r, u⟩ with
  | ok v g =>
    rw [hres] at hgrow
    obtain ⟨g', hg, ⟨st', r', -, rfl, hused, hext⟩ | ⟨-, he, -⟩⟩ := hgrow
    · simp only [expanded, expand, hres]
      exact ⟨st', hg.store, hused, .inl ⟨r', by rw [hg.record], hext⟩⟩
    · cases he
  | error e g =>
    rw [hres] at hgrow
    obtain ⟨g', hg, ⟨st', r', he, -⟩ | ⟨hfault, he, hused, hint⟩⟩ := hgrow
    · cases he
    · cases he
      simp only [expanded, expand, hres]
      exact ⟨g'.store, hg.store, hused, .inr ⟨hfault, trivial, hint⟩⟩

end Record

end InodeVolume
