import InodeVolume.Proofs.Index

/-!
# Extending an index

What `Growth.extend` does to a sound index when it is given as many fresh blocks as the longer index
needs: all of them become part of the index and nothing else does (`Extended.owned`), the pieces that
were there keep their blocks, and only tables are written. If a write fails on the way, the record as it
was still says what it said (`Interrupted`).

The three tiers are three steps of one relation, `Extended`, which composes (`Extended.trans`). Inside
the doubly indirect tier the outer table is only in memory until the end, so that tier has a relation of
its own for its steps, `Threaded`.
-/

namespace InodeVolume

/-! ## Filling tables -/

namespace Block

theorem words_setWord (b : Block) {i : Nat} (w : UInt32) (hi : i < blockWords) :
    (b.setWord i w).words (i + 1) = b.words i ++ [w] := by
  rw [words_succ]
  refine congrArg₂ (· ++ ·) (words_congr fun j hj => ?_) ?_
  · rw [word_setWord _ _ (by omega), if_neg (by omega)]
  · rw [word_setWord _ _ hi, if_pos rfl]

/-- The block after words have been put into it from word `i` on. -/
def putWords (b : Block) (i : Nat) : List UInt32 → Block
  | [] => b
  | w :: ws => (b.setWord i w).putWords (i + 1) ws

/-- The words put in follow those that were there. -/
theorem words_putWords (b : Block) (ws : List UInt32) (i : Nat) (h : i + ws.length ≤ blockWords) :
    (b.putWords i ws).words (i + ws.length) = b.words i ++ ws := by
  induction ws generalizing b i with
  | nil => rw [putWords, List.length_nil, Nat.add_zero, List.append_nil]
  | cons w ws ih =>
    rw [List.length_cons] at h ⊢
    have hrest := ih (b.setWord i w) (i + 1) (by omega)
    rw [words_setWord _ _ (by omega), List.append_assoc, List.singleton_append] at hrest
    rwa [putWords, show i + (ws.length + 1) = i + 1 + ws.length by omega]

theorem word_of_words_append {b : Block} {n : Nat} {ws : List UInt32} {c : Block}
    (h : b.words (n + ws.length) = c.words n ++ ws) {j : Nat} (hj : j < n) : b.word j = c.word j := by
  have hget := congrArg (fun l => l[j]?) h
  simpa [words, hj, show j < n + ws.length by omega] using hget

theorem drop_of_words_append {b c : Block} {n : Nat} {ws : List UInt32}
    (h : b.words (n + ws.length) = c.words n ++ ws) :
    (List.range ws.length).map (fun t => b.word (n + t)) = ws := by
  have hdrop := congrArg (List.drop n) h
  rw [words, List.range_add, List.map_append, List.map_map] at hdrop
  simpa [words, Function.comp_def] using hdrop

end Block

namespace Record

/-- The record after pointers have been put into it from pointer `i` on. -/
def putDirect (r : Record) (i : Nat) : List UInt32 → Record
  | [] => r
  | b :: bs => putDirect { r with direct := r.direct.setIfInBounds i b } (i + 1) bs

theorem putDirect_fields (r : Record) (i : Nat) (bs : List UInt32) :
    (r.putDirect i bs).length = r.length ∧ (r.putDirect i bs).isDirectory = r.isDirectory ∧
      (r.putDirect i bs).single = r.single ∧ (r.putDirect i bs).double = r.double := by
  induction bs generalizing r i with
  | nil => exact ⟨rfl, rfl, rfl, rfl⟩
  | cons b bs ih => exact ih { r with direct := r.direct.setIfInBounds i b } (i + 1)

theorem directAt_setIfInBounds (r : Record) (i : Nat) (b : UInt32) (j : Nat) :
    directAt { r with direct := r.direct.setIfInBounds i b } j =
      if i = j ∧ i < directCount then b else r.directAt j := by
  simp only [directAt, Vector.getElem?_setIfInBounds]
  by_cases h : i = j
  · subst h
    by_cases hi : i < directCount
    · rw [if_pos rfl, if_pos hi, if_pos ⟨rfl, hi⟩]
      rfl
    · rw [if_pos rfl, if_neg hi, if_neg fun hc => hi hc.2, Vector.getElem?_eq_none (by omega)]
  · rw [if_neg h, if_neg fun hc => h hc.1]

/-- The pointers put in follow those that were there. -/
theorem directAt_putDirect (r : Record) (i : Nat) (bs : List UInt32)
    (h : i + bs.length ≤ directCount) :
    (List.range (i + bs.length)).map (r.putDirect i bs).directAt =
      (List.range i).map r.directAt ++ bs := by
  -- By induction on the numbers. The next one is put behind what has been put already.
  induction bs generalizing r i with
  | nil => simp [putDirect]
  | cons b bs ih =>
    simp only [List.length_cons] at h
    have hnext := ih { r with direct := r.direct.setIfInBounds i b } (i + 1) (by omega)
    rw [List.length_cons, show i + (bs.length + 1) = i + 1 + bs.length by omega, putDirect, hnext,
      List.range_succ, List.map_append, List.map_singleton, List.append_assoc]
    refine congrArg₂ (· ++ ·) (List.map_congr_left fun j hj => ?_) ?_
    · have := List.mem_range.1 hj
      rw [directAt_setIfInBounds, if_neg (by omega)]
    · rw [directAt_setIfInBounds, if_pos ⟨rfl, by omega⟩]
      rfl

end Record

/-! ## Steps of growth, seen from outside -/

/-- What extending an index works on, with the disk seen through a relation. -/
structure Growing (A : Type) where
  store : A
  record : Record
  supply : List UInt32

/-- The growth shows these. -/
structure ShowsGrowth {A : Type} (R : A → Disk → Prop) (g : Growing A) (growth : Growth) : Prop where
  store : R g.store growth.disk
  record : growth.record = g.record
  supply : growth.supply = g.supply

namespace Growth

section Seen

variable {A : Type} {R : A → Disk → Prop} {a : A} {r : Record} {s : List UInt32}

theorem onDisk_leads {α : Type} {x : DiskM α} {post : Except Error α → A → Prop}
    (h : Leads R a x post) :
    Leads (ShowsGrowth R) ⟨a, r, s⟩ (onDisk x) fun res g => ∃ b, g = ⟨b, r, s⟩ ∧ post res b := by
  rintro ⟨disk, record, supply⟩ ⟨hs, hr, hu⟩
  simp only at hr hu
  subst hr hu
  have hx := h disk hs
  cases hres : x disk with
  | ok v disk' =>
    rw [hres] at hx
    simp only [onDisk, hres]
    obtain ⟨b, hs', hpost⟩ := hx
    exact ⟨⟨b, record, supply⟩, ⟨hs', rfl, rfl⟩, b, rfl, hpost⟩
  | error e disk' =>
    rw [hres] at hx
    simp only [onDisk, hres]
    obtain ⟨b, hs', hpost⟩ := hx
    exact ⟨⟨b, record, supply⟩, ⟨hs', rfl, rfl⟩, b, rfl, hpost⟩

theorem onDisk_yields {α : Type} {x : DiskM α} {v : α} {b : A} (h : Yields R a x v b) :
    Yields (ShowsGrowth R) ⟨a, r, s⟩ (onDisk x) v ⟨b, r, s⟩ := by
  refine Leads.mono (onDisk_leads h) ?_
  rintro res g ⟨b', rfl, rfl, rfl⟩
  exact ⟨rfl, rfl⟩

theorem next_yields (b : UInt32) :
    Yields (ShowsGrowth R) ⟨a, r, b :: s⟩ next b ⟨a, r, s⟩ := by
  rintro ⟨disk, record, supply⟩ ⟨hs, hr, hu⟩
  simp only at hr hu
  subst hr hu
  exact ⟨⟨a, record, s⟩, ⟨hs, rfl, rfl⟩, rfl, rfl⟩

theorem change_yields (f : Record → Record) :
    Yields (ShowsGrowth R) ⟨a, r, s⟩ (change f) () ⟨a, f r, s⟩ := by
  rintro ⟨disk, record, supply⟩ ⟨hs, hr, hu⟩
  simp only at hr hu
  subst hr hu
  exact ⟨⟨a, f record, supply⟩, ⟨hs, rfl, rfl⟩, rfl, rfl⟩

theorem current_yields : Yields (ShowsGrowth R) ⟨a, r, s⟩ current r ⟨a, r, s⟩ := by
  rintro ⟨disk, record, supply⟩ ⟨hs, hr, hu⟩
  simp only at hr hu
  subst hr hu
  exact ⟨⟨a, record, supply⟩, ⟨hs, rfl, rfl⟩, rfl, rfl⟩

theorem fillDirect_yields (u : List UInt32) (i : Nat) :
    Yields (ShowsGrowth R) ⟨a, r, u ++ s⟩ (fillDirect i u.length) () ⟨a, r.putDirect i u, s⟩ := by
  induction u generalizing r i with
  | nil => exact Yields.pure
  | cons b u ih => exact Yields.trans (next_yields b) (Yields.trans (change_yields _) (ih (i + 1)))

theorem fillTable_yields (table : Block) (u : List UInt32) (i : Nat) :
    Yields (ShowsGrowth R) ⟨a, r, u ++ s⟩ (fillTable table i u.length) (table.putWords i u)
      ⟨a, r, s⟩ := by
  induction u generalizing table i with
  | nil => exact Yields.pure
  | cons b u ih =>
    rw [Block.putWords]
    exact Yields.trans (next_yields b) (ih (table.setWord i b) (i + 1))

/-- Filling a table appends the new words to those that were there. -/
theorem fillTable_leads (table : Block) (u : List UInt32) (i : Nat) (h : i + u.length ≤ blockWords) :
    Leads (ShowsGrowth R) ⟨a, r, u ++ s⟩ (fillTable table i u.length) fun res g =>
      (∃ t, res = .ok t ∧ t.words (i + u.length) = table.words i ++ u) ∧ g = ⟨a, r, s⟩ :=
  Yields.leads (fillTable_yields table u i) ⟨⟨_, rfl, table.words_putWords u i h⟩, rfl⟩

end Seen

variable {K : Regime} {st : Store} {r : Record} {s : List UInt32}

theorem readBlock_onDisk {id : Nat} (hid : K.Plain id) :
    Yields (ShowsGrowth (Shows K)) ⟨st, r, s⟩ (onDisk (DiskM.readBlock id)) (st.data id) ⟨st, r, s⟩ :=
  onDisk_yields (readBlock_yields hid)

theorem writeBlock_onDisk {id : Nat} (hid : K.Plain id) (b : Block) :
    Leads (ShowsGrowth (Shows K)) ⟨st, r, s⟩ (onDisk (DiskM.writeBlock id b)) fun res g =>
      (res = .ok () ∧ g = ⟨st.write id b, r, s⟩) ∨
        (K.faulty ∧ res = .error (.device .io) ∧ g = ⟨st, r, s⟩) := by
  refine Leads.mono (onDisk_leads (writeBlock_leads hid b)) ?_
  rintro res g ⟨st', rfl, ⟨rfl, rfl⟩ | ⟨hf, rfl, rfl⟩⟩
  · exact .inl ⟨rfl, rfl⟩
  · exact .inr ⟨hf, rfl, rfl⟩

end Growth

/-! ## Steps of the doubly indirect tier -/

/-- From an outer table with `q` pieces to one with `q'` pieces, by the blocks `u`: the pieces stay,
the blocks `u` are added, and only inner tables are written. -/
structure Threaded (D : Nat → Block) (outer : Block) (q : Nat) (u : List UInt32) (D' : Nat → Block)
    (outer' : Block) (q' : Nat) : Prop where
  le : q ≤ q'
  tables : outer'.words (tableCount q) = outer.words (tableCount q)
  pieces : ∀ j, j < q → outerPiece D' outer' j = outerPiece D outer j
  owned : (outerBlocks D' outer' q').Perm (outerBlocks D outer q ++ u)
  frame : ∀ id, (∀ t ∈ outer'.words (tableCount q'), t.toNat ≠ id) → D' id = D id

theorem tableCount_mono {n m : Nat} (h : n ≤ m) : tableCount n ≤ tableCount m :=
  Nat.div_le_div_right (by omega)

theorem Block.words_prefix {b c : Block} {n m : Nat} (h : b.words n = c.words n) (hm : m ≤ n) :
    b.words m = c.words m := by
  refine words_congr fun j hj => ?_
  have hget := congrArg (fun l => l[j]?) h
  simpa [words, show j < n by omega] using hget

theorem Block.mem_words_of_le {b : Block} {n m : Nat} (hm : m ≤ n) {w : UInt32} (h : w ∈ b.words m) :
    w ∈ b.words n := by
  obtain ⟨j, hj, hw⟩ := mem_words.1 h
  exact mem_words.2 ⟨j, by omega, hw⟩

/-- Inside an inner table the pieces before need that table too. -/
theorem tableCount_position {p : Piece} (h0 : p.start ≠ 0) (h : p.start ≤ blockWords) :
    tableCount (p.position blockWords) = p.cell + 1 := by
  simp only [Piece.position, tableCount, blockWords] at *
  omega

namespace Threaded

variable {D D₁ D₂ : Nat → Block} {outer outer₁ outer₂ : Block} {q q₁ q₂ : Nat} {u u₁ u₂ : List UInt32}

theorem refl (D : Nat → Block) (outer : Block) (q : Nat) : Threaded D outer q [] D outer q where
  le := Nat.le_refl q
  tables := rfl
  pieces := fun _ _ => rfl
  owned := by rw [List.append_nil]
  frame := fun _ _ => rfl

/-- Two steps of threading tables make one. -/
theorem trans (h₁ : Threaded D outer q u₁ D₁ outer₁ q₁) (h₂ : Threaded D₁ outer₁ q₁ u₂ D₂ outer₂ q₂) :
    Threaded D outer q (u₁ ++ u₂) D₂ outer₂ q₂ where
  le := Nat.le_trans h₁.le h₂.le
  tables := (Block.words_prefix h₂.tables (tableCount_mono h₁.le)).trans h₁.tables
  pieces := fun j hj => (h₂.pieces j (Nat.lt_of_lt_of_le hj h₁.le)).trans (h₁.pieces j hj)
  owned := by
    rw [← List.append_assoc]
    exact h₂.owned.trans (h₁.owned.append_right u₂)
  frame := fun id hid => by
    rw [h₂.frame id hid]
    refine h₁.frame id fun t ht => hid t ?_
    rw [← h₂.tables] at ht
    exact Block.mem_words_of_le (tableCount_mono h₂.le) ht

/-- Writing pointers into one inner table, new or not. -/
theorem step {p : Piece} {id : UInt32} {table : Block} {new ws : List UInt32} {outer' : Block}
    (hsize : 0 < ws.length) (hcell : p.start + ws.length ≤ blockWords)
    (hid : outer'.word p.cell = id)
    (htables : outer'.words (p.cell + 1) = outer.words (tableCount (p.position blockWords)) ++ new)
    (hnodup : (outer'.words (p.cell + 1)).Nodup)
    (htable : table.words (p.start + ws.length) = (D id.toNat).words p.start ++ ws) :
    Threaded D outer (p.position blockWords) (new ++ ws) (Function.update D id.toNat table) outer'
      (p.position blockWords + ws.length) := by
  simp only [Piece.position, blockWords] at *
  have hcount : tableCount (p.cell * 128 + p.start + ws.length) = p.cell + 1 := by
    simp only [tableCount, blockWords]
    omega
  have hle : tableCount (p.cell * 128 + p.start) ≤ p.cell + 1 := by
    simp only [tableCount, blockWords]
    omega
  -- The tables that were there come first and stay the same; a new one is behind them.
  have hprefix : outer'.words (tableCount (p.cell * 128 + p.start)) =
      outer.words (tableCount (p.cell * 128 + p.start)) := by
    have htake := congrArg (List.take (tableCount (p.cell * 128 + p.start))) htables
    simpa [Block.words, List.take_range, Nat.min_eq_left hle, ← List.map_take] using htake
  have hword (j : Nat) (hj : j < tableCount (p.cell * 128 + p.start)) : outer'.word j = outer.word j := by
    have hget := congrArg (fun l => l[j]?) hprefix
    simpa [Block.words, hj] using hget
  have hkeep (j : Nat) (hj : j < p.cell * 128 + p.start) :
      outerPiece (Function.update D id.toNat table) outer' j = outerPiece D outer j := by
    have hlt := cell_lt_tableCount hj
    rw [outerPiece, outerPiece, ← hword _ hlt]
    simp only [blockWords] at hlt ⊢
    by_cases hj' : j / 128 = p.cell
    · -- The piece lies in the table that is written, before the words that change.
      rw [hj', hid, Function.update_self]
      exact Block.word_of_words_append htable (by omega)
    · have hne : (outer'.word (j / 128)).toNat ≠ id.toNat := by
        rw [← hid]
        intro he
        have hinj := List.inj_on_of_nodup_map hnodup (List.mem_range.2 (by omega : j / 128 < p.cell + 1))
          (List.mem_range.2 (by omega : p.cell < p.cell + 1)) (UInt32.toNat_inj.1 he)
        exact hj' hinj
      rw [Function.update_of_ne hne]
  refine ⟨Nat.le_add_right _ _, hprefix, hkeep, ?_, fun i hi => ?_⟩
  · have hpieces : (List.range (p.cell * 128 + p.start + ws.length)).map
        (outerPiece (Function.update D id.toNat table) outer') =
          (List.range (p.cell * 128 + p.start)).map (outerPiece D outer) ++ ws := by
      rw [List.range_add, List.map_append, List.map_map]
      refine congrArg₂ (· ++ ·) (List.map_congr_left fun j hj => hkeep j (List.mem_range.1 hj)) ?_
      conv_rhs => rw [← Block.drop_of_words_append htable]
      refine List.map_congr_left fun t ht => ?_
      have := List.mem_range.1 ht
      simp only [Function.comp, outerPiece, blockWords]
      rw [show (p.cell * 128 + p.start + t) / 128 = p.cell by omega,
        show (p.cell * 128 + p.start + t) % 128 = p.start + t by omega, hid, Function.update_self]
    -- Pieces and tables are listed apart, so the new ones are counted rather than appended.
    rw [outerBlocks, hpieces, hcount, htables, outerBlocks, List.perm_iff_count]
    intro b
    simp only [List.count_append]
    omega
  · rw [hcount] at hi
    have hne : i ≠ id.toNat := by
      rintro rfl
      exact hi id (Block.mem_words.2 ⟨p.cell, Nat.lt_succ_self _, hid⟩) rfl
    rw [Function.update_of_ne hne]

/-- The first pieces below a new inner table `b`. -/
theorem opened {p : Piece} {b : UInt32} {ws : List UInt32} {t : Block} (h0 : p.start = 0)
    (hcell : p.cell < blockWords) (hsize : 0 < ws.length) (hfit : ws.length ≤ blockWords)
    (hnodup : (outer.words (tableCount (p.position blockWords)) ++ b :: ws).Nodup)
    (ht : t.words (0 + ws.length) = ws) :
    Threaded D outer (p.position blockWords) (b :: ws) (Function.update D b.toNat t)
      (outer.setWord p.cell b) (p.position blockWords + ws.length) := by
  have hcount : tableCount (p.position blockWords) = p.cell := by
    simp only [Piece.position, tableCount, h0, blockWords]
    omega
  -- The new table is the last one that the outer table names.
  have htables : (outer.setWord p.cell b).words (p.cell + 1) =
      outer.words (tableCount (p.position blockWords)) ++ [b] := by
    rw [hcount]
    exact outer.words_setWord b hcell
  refine Threaded.step hsize (by omega) (by rw [Block.word_setWord _ _ hcell, if_pos rfl]) htables ?_ ?_
  · rw [htables]
    exact hnodup.sublist (List.Sublist.append_left (by simp) _)
  · rw [h0, ht]
    simp

/-- Further pieces below the last inner table. -/
theorem filled {p : Piece} {ws : List UInt32} {t : Block} (h0 : p.start ≠ 0) (hsize : 0 < ws.length)
    (hfit : p.start + ws.length ≤ blockWords)
    (hnodup : (outer.words (tableCount (p.position blockWords)) ++ ws).Nodup)
    (ht : t.words (p.start + ws.length) = (D (outer.word p.cell).toNat).words p.start ++ ws) :
    Threaded D outer (p.position blockWords) ws (Function.update D (outer.word p.cell).toNat t) outer
      (p.position blockWords + ws.length) := by
  have hcount := tableCount_position h0 (by omega : p.start ≤ blockWords)
  have htables : outer.words (p.cell + 1) = outer.words (tableCount (p.position blockWords)) ++ [] := by
    rw [hcount, List.append_nil]
  exact Threaded.step hsize hfit rfl htables (hcount ▸ (List.nodup_append.1 hnodup).1) ht

end Threaded

namespace Growth

variable {K : Regime} {st : Store} {r : Record} {s : List UInt32}

/-- The last part of a step: a table is filled and written, the outer table handed on. -/
theorem fill_and_write {id : UInt32} (hid : K.IsData id.toNat) (table outer : Block) {i : Nat}
    {ws : List UInt32} (h : i + ws.length ≤ blockWords) :
    Leads (ShowsGrowth (Shows K)) ⟨st, r, ws ++ s⟩
      (do
        let table ← fillTable table i ws.length
        onDisk (DiskM.writeBlock id.toNat table)
        pure outer) fun res g =>
      (res = .ok outer ∧ ∃ t, t.words (i + ws.length) = table.words i ++ ws ∧
          g = ⟨st.write id.toNat t, r, s⟩) ∨
        (K.faulty ∧ res = .error (.device .io) ∧ g.store = st) := by
  refine Leads.bind (fillTable_leads table ws i h) ?_ ?_
  swap
  · rintro e g ⟨⟨t, he, -⟩, -⟩
    cases he
  rintro t g ⟨⟨t', ht', ht⟩, rfl⟩
  cases ht'
  refine Leads.bind (writeBlock_onDisk hid.plain _) ?_ ?_
  · rintro v g (⟨-, rfl⟩ | ⟨-, hv, -⟩)
    · exact Leads.pure (.inl ⟨rfl, t, ht, rfl⟩)
    · cases hv
  · rintro e g (⟨he, -⟩ | ⟨hf, he, rfl⟩)
    · cases he
    · cases he
      exact .inr ⟨hf, rfl, rfl⟩

/-- Extending one inner table makes one step, or changes nothing. -/
theorem extendInner_leads {outer : Block} {p : Piece} {u : List UInt32}
    (hsize : 0 < p.size) (hstart : p.start + p.size ≤ blockWords) (hcell : p.cell < blockWords)
    (hu : u.length = p.size + if p.start = 0 then 1 else 0)
    (hnodup : (outerBlocks st.data outer (p.position blockWords) ++ u).Nodup)
    (hdata : ∀ b ∈ outerBlocks st.data outer (p.position blockWords) ++ u, K.IsData b.toNat) :
    Leads (ShowsGrowth (Shows K)) ⟨st, r, u ++ s⟩ (extendInner outer p) fun res g =>
      (∃ outer' st', res = .ok outer' ∧ g = ⟨st', r, s⟩ ∧ st'.used = st.used ∧
          Threaded st.data outer (p.position blockWords) u st'.data outer'
            (p.position blockWords + p.size)) ∨
        (K.faulty ∧ res = .error (.device .io) ∧ g.store = st) := by
  have houter : (outer.words (tableCount (p.position blockWords)) ++ u).Nodup := by
    rw [outerBlocks, List.append_assoc] at hnodup
    exact (List.nodup_append.1 hnodup).2.1
  unfold extendInner
  by_cases h0 : p.start = 0
  · rw [if_pos h0]
    -- A new inner table takes the first of the new blocks.
    obtain ⟨b, ws, rfl⟩ : ∃ b ws, u = b :: ws := by
      cases u with
      | nil => simp [h0] at hu
      | cons b ws => exact ⟨b, ws, rfl⟩
    have hlen : ws.length = p.size := by
      simpa [h0] using hu
    refine Yields.bind (next_yields b) (Yields.bind Yields.pure ?_)
    simp only [h0]
    rw [← hlen]
    refine Leads.mono (fill_and_write (hdata b (by simp)) Block.zero (outer.setWord p.cell b)
      (by omega : 0 + ws.length ≤ blockWords)) ?_
    rintro res g (⟨rfl, t, ht, rfl⟩ | hfault)
    · exact .inl ⟨_, _, rfl, rfl, rfl, Threaded.opened h0 hcell (by omega) (by omega) houter ht⟩
    · exact .inr hfault
  · rw [if_neg h0]
    have hlen : u.length = p.size := by
      simpa [h0] using hu
    have hmem : outer.word p.cell ∈ outer.words (tableCount (p.position blockWords)) := by
      rw [tableCount_position h0 (by omega)]
      exact Block.mem_words.2 ⟨p.cell, Nat.lt_succ_self _, rfl⟩
    have hid : K.IsData (outer.word p.cell).toNat :=
      hdata _ (List.mem_append_left _ (List.mem_append_right _ hmem))
    refine Yields.bind (readBlock_onDisk hid.plain) (Yields.bind Yields.pure ?_)
    simp only
    rw [← hlen]
    refine Leads.mono (fill_and_write hid _ outer (by omega : p.start + u.length ≤ blockWords)) ?_
    rintro res g (⟨rfl, t, ht, rfl⟩ | hfault)
    · exact .inl ⟨_, _, rfl, rfl, rfl, Threaded.filled h0 (by omega) (by omega) houter ht⟩
    · exact .inr hfault

/-- A supply can be divided behind its first `k` blocks. -/
theorem exists_supplies {u : List UInt32} {k : Nat} (h : k ≤ u.length) :
    ∃ u₁ u₂, u = u₁ ++ u₂ ∧ u₁.length = k :=
  ⟨u.take k, u.drop k, (List.take_append_drop k u).symm, List.length_take_of_le h⟩

/-- How many inner tables a piece adds. -/
theorem tableCount_piece {p : Piece} (hsize : 0 < p.size) (hstart : p.start + p.size ≤ blockWords) :
    tableCount (p.position blockWords + p.size) =
      tableCount (p.position blockWords) + if p.start = 0 then 1 else 0 := by
  simp only [Piece.position, tableCount, blockWords] at *
  split <;> omega

/-- Extending all inner tables of a span. Where a write fails, the tables before it are extended. -/
theorem extendInners_leads {outer : Block} {parts : List Piece} {q n : Nat} {u : List UInt32}
    (hin : ∀ p ∈ parts, 0 < p.size ∧ p.start + p.size ≤ blockWords)
    (htiles : Tiles blockWords q n parts) (hend : q + n ≤ blockWords * blockWords)
    (hu : tableCount q + u.length = n + tableCount (q + n))
    (hnodup : (outerBlocks st.data outer q ++ u).Nodup)
    (hdata : ∀ b ∈ outerBlocks st.data outer q ++ u, K.IsData b.toNat) :
    Leads (ShowsGrowth (Shows K)) ⟨st, r, u ++ s⟩ (parts.foldlM extendInner outer) fun res g =>
      (∃ outer' st', res = .ok outer' ∧ g = ⟨st', r, s⟩ ∧ st'.used = st.used ∧
          Threaded st.data outer q u st'.data outer' (q + n)) ∨
        (K.faulty ∧ res = .error (.device .io) ∧ g.store.used = st.used ∧ ∃ outer' q' u' v,
          u = u' ++ v ∧ Threaded st.data outer q u' g.store.data outer' q') := by
  induction parts generalizing st outer q n u with
  | nil =>
    have hn : n = 0 := htiles
    subst hn
    have hnil : u = [] := by
      rw [Nat.add_zero] at hu
      have : u.length = 0 := by omega
      simpa using this
    subst hnil
    exact Leads.pure (.inl ⟨outer, st, rfl, rfl, rfl, Threaded.refl _ _ _⟩)
  | cons p parts ih =>
    obtain ⟨hp, hle, hrest⟩ := htiles
    obtain ⟨hsize, hstart⟩ := hin p (List.mem_cons_self ..)
    subst hp
    have htables := tableCount_piece hsize hstart
    have hcell : p.cell < blockWords := Piece.cell_lt (w := blockWords) hsize (by omega)
    have hmore := tableCount_mono (n := p.position blockWords + p.size)
      (m := p.position blockWords + n) (by omega)
    -- The new blocks are split where the first inner table has all of its own.
    obtain ⟨u₁, u₂, rfl, hu₁⟩ := exists_supplies (u := u) (k := p.size + if p.start = 0 then 1 else 0) (by omega)
    rw [List.length_append] at hu
    rw [List.foldlM_cons, List.append_assoc]
    refine Leads.bind (extendInner_leads hsize hstart hcell hu₁
      (hnodup.sublist (by simp)) fun b hb => hdata b ?_) ?_ ?_
    · rw [← List.append_assoc]
      exact List.mem_append_left _ hb
    · rintro outer₁ g (⟨outer₁', st₁, hres, rfl, hused, hstep⟩ | ⟨-, hres, -⟩)
      swap
      · cases hres
      cases hres
      have hperm := hstep.owned.append_right u₂
      rw [List.append_assoc] at hperm
      refine Leads.mono (ih (n := n - p.size)
        (fun q hq => hin q (List.mem_cons_of_mem p hq)) hrest (by omega) ?_
        (hperm.nodup_iff.2 hnodup) fun b hb => hdata b (hperm.mem_iff.1 hb)) ?_
      · rw [show p.position blockWords + p.size + (n - p.size) = p.position blockWords + n by omega]
        omega
      rintro res g (⟨outer', st', rfl, rfl, hused', hsteps⟩ | ⟨hf, rfl, hused', outer', q', u', v,
        rfl, hsteps⟩)
      · rw [show p.position blockWords + p.size + (n - p.size) = p.position blockWords + n by omega]
          at hsteps
        exact .inl ⟨outer', st', rfl, rfl, hused'.trans hused, hstep.trans hsteps⟩
      · refine .inr ⟨hf, rfl, hused'.trans hused, outer', q', u₁ ++ u', v, ?_, hstep.trans hsteps⟩
        rw [List.append_assoc]
    · rintro e g (⟨outer₁', st₁, hres, -⟩ | ⟨hf, hres, hstore⟩)
      · cases hres
      · cases hres
        refine .inr ⟨hf, rfl, by rw [hstore], outer, p.position blockWords, [], u₁ ++ u₂, rfl, ?_⟩
        rw [hstore]
        exact Threaded.refl _ _ _

end Growth

end InodeVolume
