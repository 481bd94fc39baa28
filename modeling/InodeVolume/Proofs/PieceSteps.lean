import InodeVolume.Proofs.Extension

/-!
# Growing by one piece after another

`Growth.extend` goes through the tiers of an index and keeps the table that it is filling in memory. Seen
from outside it does the same as placing one piece after another, each time with everything stored:
`Layout.place` opens the tables that a piece is the first of and then points at the piece. So where a
growth stops and is taken up again makes no difference.

* `Growth.extend_places`: on a disk on which every access succeeds, extending an index is placing its new
  pieces in turn, and the longer index extends the shorter one.
* `Layout.placed_append`: placing pieces can be interrupted anywhere.
* `Layout.placed_relength`: what is placed does not depend on the length in the record.
-/

namespace InodeVolume

/-! ## Disks on which every access succeeds -/

/-- All blocks of the disk are there, and none of its accesses fails. -/
structure Disk.Flawless (disk : Disk) : Prop where
  holds : ∀ id, id < disk.device.blockCount → disk.device.holds id = true
  reads : ∀ n id, disk.faults.read n id = false
  writes : ∀ n id, disk.faults.write n id = false

/-- Every access to the `count` blocks of the disk succeeds, and they hold `D`. -/
structure Disk.Bears (count : Nat) (D : Nat → Block) (disk : Disk) : Prop where
  flawless : disk.Flawless
  count : disk.device.blockCount = count
  block : disk.device.block = D

section Accesses

variable {count id : Nat} {D : Nat → Block} {disk disk' : Disk}

theorem Disk.Flawless.bears (h : disk.Flawless) :
    disk.Bears disk.device.blockCount disk.device.block := ⟨h, rfl, rfl⟩

theorem Disk.Flawless.of_kept (h : disk.Flawless) (hk : disk.Kept disk') : disk'.Flawless where
  holds id hid := hk.holds id (h.holds id (hk.count ▸ hid))
  reads n id := by rw [hk.reads]; exact h.reads n id
  writes n id := by rw [hk.writes]; exact h.writes n id

theorem DiskM.readBlock_of_bears (hid : id < count) :
    Yields (Disk.Bears count) D (DiskM.readBlock id) (D id) D := by
  rintro disk ⟨hf, rfl, rfl⟩
  obtain ⟨disk', hr, hk, hb⟩ := DiskM.readBlock_of_steady hid hf.reads (hf.holds id hid)
  rw [hr]
  refine ⟨disk.device.block, ⟨hf.of_kept hk, hk.count, ?_⟩, rfl, rfl⟩
  funext i
  simp only [Device.block, hb]

theorem DiskM.writeBlock_of_bears (hid : id < count) (b : Block) :
    Yields (Disk.Bears count) D (DiskM.writeBlock id b) () (Function.update D id b) := by
  rintro disk ⟨hf, rfl, rfl⟩
  rcases DiskM.writeBlock_cases hid b with ⟨disk', hw, hk, hb⟩ | ⟨disk', -, -, -, n, hn⟩
  · rw [hw]
    exact ⟨_, ⟨hf.of_kept hk, hk.count, hb⟩, rfl, rfl⟩
  · rw [hf.writes n id] at hn
    cases hn

end Accesses

/-! ## Placing pieces -/

/-- A growing index with everything stored: what the blocks hold, the record, and the blocks still to be
used. -/
abbrev Layout := Growing (Nat → Block)

namespace Layout

/-- Takes the next block for a singly indirect table, which starts empty. -/
def openSingle : Layout → Layout
  | ⟨D, r, t :: s⟩ => ⟨Function.update D t.toNat .zero, { r with single := t }, s⟩
  | a => a

/-- Takes the next block for a doubly indirect table, which starts empty. -/
def openDouble : Layout → Layout
  | ⟨D, r, t :: s⟩ => ⟨Function.update D t.toNat .zero, { r with double := t }, s⟩
  | a => a

/-- Takes the next block for inner table `k`, which starts empty. -/
def openInner (k : Nat) : Layout → Layout
  | ⟨D, r, t :: s⟩ =>
    ⟨Function.update (Function.update D t.toNat .zero) r.double.toNat
      ((D r.double.toNat).setWord k t), r, s⟩
  | a => a

/-- Opens the table of the tier that piece `i` is the first of. -/
def openTier (a : Layout) (i : Nat) : Layout :=
  if i = directCount then a.openSingle else if i = singleReach then a.openDouble else a

/-- Opens the inner table that piece `i` is the first of. -/
def openBelow (a : Layout) (i : Nat) : Layout :=
  if singleReach ≤ i ∧ (i - singleReach) % blockWords = 0 then
    a.openInner ((i - singleReach) / blockWords)
  else a

/-- Points at the next block as piece `i`, in a table that is open. -/
def point (a : Layout) (i : Nat) : Layout :=
  match a with
  | ⟨D, r, b :: s⟩ =>
    if i < directCount then ⟨D, { r with direct := r.direct.setIfInBounds i b }, s⟩
    else if i < singleReach then
      ⟨Function.update D r.single.toNat ((D r.single.toNat).setWord (i - directCount) b), r, s⟩
    else
      let t := ((D r.double.toNat).word ((i - singleReach) / blockWords)).toNat
      ⟨Function.update D t ((D t).setWord ((i - singleReach) % blockWords) b), r, s⟩
  | a => a

/-- Places piece `i` in a tier whose own table is open. -/
def lay (a : Layout) (i : Nat) : Layout := (a.openBelow i).point i

/-- Places piece `i`. -/
def place (a : Layout) (i : Nat) : Layout := (a.openTier i).lay i

/-- Places the `n` pieces from piece `c` on. -/
def placed (a : Layout) (c n : Nat) : Layout := (List.range' c n).foldl place a

variable {a : Layout} {D : Nat → Block} {r : Record} {s : List UInt32} {c i n m : Nat}

/-- Placing pieces can be interrupted anywhere. -/
theorem placed_append (a : Layout) (c n m : Nat) :
    a.placed c (n + m) = (a.placed c n).placed (c + n) m := by
  rw [placed, ← List.range'_append_1, List.foldl_append]
  rfl

/-- What has nothing to do after the first piece may be done at once. -/
theorem foldl_range'_of_quiet {f g : Layout → Nat → Layout}
    (hg : ∀ i, c < i → i < c + n → ∀ a, g a i = a) (hn : 0 < n) (a : Layout) :
    (List.range' c n).foldl (fun a i => f (g a i) i) a = (List.range' c n).foldl f (g a c) := by
  obtain ⟨n, rfl⟩ := Nat.exists_eq_succ_of_ne_zero (Nat.pos_iff_ne_zero.1 hn)
  rw [List.range'_succ, List.foldl_cons, List.foldl_cons]
  refine List.foldl_ext _ _ _ fun a i hi => ?_
  obtain ⟨h₁, h₂⟩ := List.mem_range'_1.1 hi
  rw [hg i (by omega) (by omega)]

/-- Inside a tier only the first piece may have to open its table. -/
theorem placed_eq_lay (hs : directCount ≤ c ∨ c + n ≤ directCount)
    (hd : singleReach ≤ c ∨ c + n ≤ singleReach) (hn : 0 < n) :
    a.placed c n = (List.range' c n).foldl lay (a.openTier c) :=
  foldl_range'_of_quiet (f := lay) (g := openTier)
    (fun i hi hin a => by rw [openTier, if_neg (by omega), if_neg (by omega)]) hn a

/-- Before the doubly indirect tier there are no inner tables. -/
theorem foldl_lay_front (h : c + n ≤ singleReach) :
    (List.range' c n).foldl lay a = (List.range' c n).foldl point a := by
  refine List.foldl_ext _ _ _ fun a i hi => ?_
  obtain ⟨-, hlt⟩ := List.mem_range'_1.1 hi
  rw [lay, openBelow, if_neg (by omega)]

/-! ### Pieces inside one table -/

theorem foldl_point_direct (u : List UInt32) (h : c + u.length ≤ directCount) :
    (List.range' c u.length).foldl point ⟨D, r, u ++ s⟩ = ⟨D, r.putDirect c u, s⟩ := by
  induction u generalizing r c with
  | nil => rfl
  | cons b u ih =>
    rw [List.length_cons] at h ⊢
    have hpoint : point ⟨D, r, b :: u ++ s⟩ c =
        ⟨D, { r with direct := r.direct.setIfInBounds c b }, u ++ s⟩ := by
      rw [List.cons_append, point, if_pos (by omega)]
    rw [List.range'_succ, List.foldl_cons, hpoint]
    exact ih (by omega)

theorem foldl_point_single (u : List UInt32) (hd : directCount ≤ c) (h : c + u.length ≤ singleReach) :
    (List.range' c u.length).foldl point ⟨D, r, u ++ s⟩ =
      ⟨Function.update D r.single.toNat ((D r.single.toNat).putWords (c - directCount) u), r, s⟩ := by
  induction u generalizing D c with
  | nil => rw [Block.putWords, Function.update_eq_self]; rfl
  | cons b u ih =>
    rw [List.length_cons] at h ⊢
    have hpoint : point ⟨D, r, b :: u ++ s⟩ c =
        ⟨Function.update D r.single.toNat ((D r.single.toNat).setWord (c - directCount) b), r, u ++ s⟩ := by
      rw [List.cons_append, point, if_neg (by omega), if_pos (by omega)]
    rw [List.range'_succ, List.foldl_cons, hpoint, ih (by omega) (by omega), Function.update_idem,
      Function.update_self, Nat.sub_add_comm hd, Block.putWords]

/-- Pieces below inner table `k`, which is not the outer table. -/
theorem foldl_point_inner {k j : Nat} {t : UInt32} (u : List UInt32) (ht : (D r.double.toNat).word k = t)
    (hne : t.toNat ≠ r.double.toNat) (h : j + u.length ≤ blockWords) :
    (List.range' (singleReach + (k * blockWords + j)) u.length).foldl point ⟨D, r, u ++ s⟩ =
      ⟨Function.update D t.toNat ((D t.toNat).putWords j u), r, s⟩ := by
  -- By induction on the numbers that are left. Each goes into the next word of the same table.
  induction u generalizing D j with
  | nil => rw [Block.putWords, Function.update_eq_self]; rfl
  | cons b u ih =>
    rw [List.length_cons] at h ⊢
    have hcell : (singleReach + (k * blockWords + j) - singleReach) / blockWords = k := by
      simp only [blockWords] at h ⊢
      omega
    have hword : (singleReach + (k * blockWords + j) - singleReach) % blockWords = j := by
      simp only [blockWords] at h ⊢
      omega
    have hpoint : point ⟨D, r, b :: u ++ s⟩ (singleReach + (k * blockWords + j)) =
        ⟨Function.update D t.toNat ((D t.toNat).setWord j b), r, u ++ s⟩ := by
      rw [List.cons_append, point, if_neg (by simp only [singleReach]; omega), if_neg (by omega)]
      simp only [hcell, hword, ht]
    rw [List.range'_succ, List.foldl_cons, hpoint,
      show singleReach + (k * blockWords + j) + 1 = singleReach + (k * blockWords + (j + 1)) by omega,
      ih (by rw [Function.update_of_ne (Ne.symm hne), ht]) (by omega), Function.update_idem,
      Function.update_self, Block.putWords]

/-! ### The length in the record -/

/-- The layout with another length in its record. -/
def relength (a : Layout) (length : UInt32) : Layout := { a with record := { a.record with length := length } }

section Relength

variable (a : Layout) (i k : Nat) (length : UInt32)

theorem openSingle_relength : (a.relength length).openSingle = a.openSingle.relength length := by
  obtain ⟨D, r, _ | ⟨b, s⟩⟩ := a <;> rfl

theorem openDouble_relength : (a.relength length).openDouble = a.openDouble.relength length := by
  obtain ⟨D, r, _ | ⟨b, s⟩⟩ := a <;> rfl

theorem openTier_relength : (a.relength length).openTier i = (a.openTier i).relength length := by
  rw [openTier, openTier, openSingle_relength, openDouble_relength]
  split
  · rfl
  · split <;> rfl

theorem openBelow_relength : (a.relength length).openBelow i = (a.openBelow i).relength length := by
  obtain ⟨D, r, _ | ⟨b, s⟩⟩ := a <;> simp only [openBelow] <;> split <;> rfl

theorem point_relength : (a.relength length).point i = (a.point i).relength length := by
  obtain ⟨D, r, _ | ⟨b, s⟩⟩ := a
  · rfl
  · simp only [point, relength]
    split
    · rfl
    · split <;> rfl

theorem place_relength : (a.relength length).place i = (a.place i).relength length := by
  rw [place, openTier_relength, lay, openBelow_relength, point_relength]
  rfl

/-- What is placed does not depend on the length. -/
theorem placed_relength (c n : Nat) :
    (a.relength length).placed c n = (a.placed c n).relength length := by
  induction n generalizing a c with
  | zero => rfl
  | succ n ih =>
    simp only [placed, List.range'_succ, List.foldl_cons] at ih ⊢
    rw [place_relength, ih]

end Relength

end Layout

/-! ## Extending an index places its pieces -/

namespace Growth

open Record

variable {count : Nat} {D : Nat → Block} {r : Record} {c c₁ c' : Nat} {u u₁ u₂ : List UInt32}

theorem readBlock_places {id : Nat} {s : List UInt32} (hid : id < count) :
    Yields (ShowsGrowth (Disk.Bears count)) ⟨D, r, s⟩ (onDisk (DiskM.readBlock id)) (D id) ⟨D, r, s⟩ :=
  onDisk_yields (DiskM.readBlock_of_bears hid)

theorem writeBlock_places {id : Nat} {s : List UInt32} (hid : id < count) (b : Block) :
    Yields (ShowsGrowth (Disk.Bears count)) ⟨D, r, s⟩ (onDisk (DiskM.writeBlock id b)) ()
      ⟨Function.update D id b, r, s⟩ :=
  onDisk_yields (DiskM.writeBlock_of_bears hid b)

/-- The pieces below one inner table: extending it in memory, with the outer table still to be stored, is
placing them with the outer table stored. -/
theorem extendInner_places {outer : Block} {p : Piece} (hsize : 0 < p.size)
    (hstart : p.start + p.size ≤ blockWords) (hcell : p.cell < blockWords)
    (hu : u.length = p.size + if p.start = 0 then 1 else 0)
    (hnodup : (r.double :: (outerBlocks D outer (p.position blockWords) ++ u)).Nodup)
    (hvalid : ∀ b ∈ outerBlocks D outer (p.position blockWords) ++ u, b.toNat < count) :
    ∃ D' outer', (∀ s, Yields (ShowsGrowth (Disk.Bears count)) ⟨D, r, u ++ s⟩ (extendInner outer p) outer'
        ⟨D', r, s⟩) ∧
      (∀ s, (List.range' (singleReach + p.position blockWords) p.size).foldl Layout.lay
        ⟨Function.update D r.double.toNat outer, r, u ++ s⟩ =
          ⟨Function.update D' r.double.toNat outer', r, s⟩) ∧
      Threaded D outer (p.position blockWords) u D' outer' (p.position blockWords + p.size) := by
  obtain ⟨hdouble, hall⟩ := List.nodup_cons.1 hnodup
  have hne {t : UInt32} (ht : t ∈ outerBlocks D outer (p.position blockWords) ++ u) :
      t.toNat ≠ r.double.toNat := fun he => hdouble (UInt32.toNat_inj.1 he ▸ ht)
  have houter : (outer.words (tableCount (p.position blockWords)) ++ u).Nodup := by
    rw [outerBlocks, List.append_assoc] at hall
    exact (List.nodup_append.1 hall).2.1
  have hquiet (s : List UInt32) : (List.range' (singleReach + p.position blockWords) p.size).foldl Layout.lay
      ⟨Function.update D r.double.toNat outer, r, u ++ s⟩ =
        (List.range' (singleReach + p.position blockWords) p.size).foldl Layout.point
          (Layout.openBelow ⟨Function.update D r.double.toNat outer, r, u ++ s⟩
            (singleReach + p.position blockWords)) := by
    refine Layout.foldl_range'_of_quiet (f := Layout.point) (g := Layout.openBelow)
      (fun i hi hin a => if_neg ?_) hsize _
    simp only [Piece.position, blockWords] at hi hin hstart ⊢
    omega
  simp only [hquiet, Layout.openBelow, Nat.add_sub_cancel_left]
  unfold extendInner
  by_cases h0 : p.start = 0
  · obtain ⟨b, ws, rfl⟩ : ∃ b ws, u = b :: ws := by
      cases u with
      | nil => simp [h0] at hu
      | cons b ws => exact ⟨b, ws, rfl⟩
    have hlen : ws.length = p.size := by
      simpa [h0] using hu
    have hb : b.toNat ≠ r.double.toNat := hne (by simp)
    have hpos : p.position blockWords = p.cell * blockWords + 0 := by
      rw [Piece.position, h0]
    have hopen : singleReach ≤ singleReach + p.position blockWords ∧
        p.position blockWords % blockWords = 0 := by
      rw [hpos]
      simp only [blockWords]
      omega
    have hdiv : p.position blockWords / blockWords = p.cell := by
      rw [hpos]
      simp only [blockWords]
      omega
    refine ⟨Function.update D b.toNat (Block.zero.putWords 0 ws), outer.setWord p.cell b, fun s => ?_, fun s => ?_,
      hlen ▸ Threaded.opened h0 hcell (by omega) (by omega) houter ?_⟩
    · rw [if_pos h0, List.cons_append, h0, ← hlen]
      refine Yields.trans (next_yields b) (Yields.trans Yields.pure ?_)
      refine Yields.trans (fillTable_yields _ ws 0) ?_
      exact Yields.trans (writeBlock_places (hvalid b (by simp)) _) Yields.pure
    · rw [if_pos hopen, hdiv, List.cons_append, Layout.openInner, Function.update_self, hpos, ← hlen,
        Layout.foldl_point_inner ws (t := b) ?_ hb (by omega)]
      · -- The new table is written before the outer one here and after it there.
        rw [Function.update_of_ne hb, Function.update_self, Function.update_comm hb.symm,
          Function.update_idem, Function.update_comm hb.symm, Function.update_idem]
      · rw [Function.update_self, Block.word_setWord _ _ hcell, if_pos rfl]
    · rw [Block.words_putWords _ _ _ (by omega), Block.words_zero, List.nil_append]
  · have hlen : u.length = p.size := by
      simpa [h0] using hu
    have hmem : outer.word p.cell ∈ outer.words (tableCount (p.position blockWords)) := by
      rw [tableCount_position h0 (by omega)]
      exact Block.mem_words.2 ⟨p.cell, Nat.lt_succ_self _, rfl⟩
    have hmem : outer.word p.cell ∈ outerBlocks D outer (p.position blockWords) ++ u :=
      List.mem_append_left _ (List.mem_append_right _ hmem)
    have ht := hne hmem
    have hid := hvalid _ hmem
    have hopen : ¬(singleReach ≤ singleReach + p.position blockWords ∧
        p.position blockWords % blockWords = 0) := by
      simp only [Piece.position, blockWords] at hstart ⊢
      omega
    refine ⟨Function.update D (outer.word p.cell).toNat
      ((D (outer.word p.cell).toNat).putWords p.start u), outer, fun s => ?_, fun s => ?_,
      hlen ▸ Threaded.filled h0 (by omega) (by omega) houter ?_⟩
    · rw [if_neg h0, ← hlen]
      refine Yields.trans (readBlock_places hid) (Yields.trans Yields.pure ?_)
      refine Yields.trans (fillTable_yields _ u p.start) ?_
      exact Yields.trans (writeBlock_places hid _) Yields.pure
    · rw [if_neg hopen, Piece.position, ← hlen,
        Layout.foldl_point_inner u (t := outer.word p.cell) (by rw [Function.update_self]) ht (by omega),
        Function.update_of_ne ht, Function.update_comm ht.symm]
    · rw [Block.words_putWords _ _ _ (by omega)]

/-- The pieces below any number of inner tables. -/
theorem extendInners_places {outer : Block} {parts : List Piece} {q n : Nat}
    (hin : ∀ p ∈ parts, 0 < p.size ∧ p.start + p.size ≤ blockWords)
    (htiles : Tiles blockWords q n parts) (hend : q + n ≤ blockWords * blockWords)
    (hu : tableCount q + u.length = n + tableCount (q + n))
    (hnodup : (r.double :: (outerBlocks D outer q ++ u)).Nodup)
    (hvalid : ∀ b ∈ outerBlocks D outer q ++ u, b.toNat < count) :
    ∃ D' outer', (∀ s, Yields (ShowsGrowth (Disk.Bears count)) ⟨D, r, u ++ s⟩
        (parts.foldlM extendInner outer) outer' ⟨D', r, s⟩) ∧
      (∀ s, (List.range' (singleReach + q) n).foldl Layout.lay
        ⟨Function.update D r.double.toNat outer, r, u ++ s⟩ =
          ⟨Function.update D' r.double.toNat outer', r, s⟩) ∧
      Threaded D outer q u D' outer' (q + n) := by
  -- By induction on the pieces; the supply is cut where the blocks of the first piece end.
  induction parts generalizing D outer q n u with
  | nil =>
    have hn : n = 0 := htiles
    subst hn
    have hnil : u = [] := List.eq_nil_of_length_eq_zero (by rw [Nat.add_zero] at hu; omega)
    subst hnil
    exact ⟨D, outer, fun _ => Yields.pure, fun _ => rfl, Threaded.refl _ _ _⟩
  | cons p parts ih =>
    obtain ⟨hp, hle, hrest⟩ := htiles
    obtain ⟨hsize, hstart⟩ := hin p (List.mem_cons_self ..)
    subst hp
    have htables := tableCount_piece hsize hstart
    have hmore := tableCount_mono (n := p.position blockWords + p.size)
      (m := p.position blockWords + n) (by omega)
    have hcell : p.cell < blockWords := Piece.cell_lt (w := blockWords) hsize (by omega)
    obtain ⟨u₁, u₂, rfl, hu₁⟩ := exists_supplies (u := u) (k := p.size + if p.start = 0 then 1 else 0) (by omega)
    rw [List.length_append] at hu
    obtain ⟨D₁, outer₁, hrun, hlay, hstep⟩ := extendInner_places hsize hstart hcell hu₁
      (hnodup.sublist ((List.Sublist.append_left (List.sublist_append_left u₁ u₂) _).cons_cons _))
      fun b hb => hvalid b (by
        rw [← List.append_assoc]
        exact List.mem_append_left _ hb)
    have hperm := hstep.owned.append_right u₂
    rw [List.append_assoc] at hperm
    obtain ⟨D', outer', hruns, hlays, hsteps⟩ := ih (n := n - p.size)
      (fun q hq => hin q (List.mem_cons_of_mem p hq)) hrest (by omega)
      (by
        rw [show p.position blockWords + p.size + (n - p.size) = p.position blockWords + n by omega]
        omega)
      ((hperm.cons r.double).nodup_iff.2 hnodup) fun b hb => hvalid b (hperm.mem_iff.1 hb)
    refine ⟨D', outer', fun s => ?_, fun s => ?_, ?_⟩
    · rw [List.foldlM_cons, List.append_assoc]
      exact Yields.trans (hrun _) (hruns s)
    · rw [show n = p.size + (n - p.size) by omega, ← List.range'_append_1, List.foldl_append,
        List.append_assoc, hlay, Nat.add_assoc, hlays]
    · rw [show p.position blockWords + n = p.position blockWords + p.size + (n - p.size) by omega]
      exact hstep.trans hsteps

/-- The action `x` grows an index of `c` pieces by the blocks `u` to one of `c'` pieces, and it does so as
if it placed one piece after another. -/
def Places (count : Nat) (D : Nat → Block) (r : Record) (c : Nat) (u : List UInt32) (c' : Nat)
    (x : GrowthM Unit) : Prop :=
  ∃ D' r', (∀ s, Yields (ShowsGrowth (Disk.Bears count)) ⟨D, r, u ++ s⟩ x () ⟨D', r', s⟩) ∧
    (∀ s, Layout.placed ⟨D, r, u ++ s⟩ c (c' - c) = ⟨D', r', s⟩) ∧ Extended D r c u D' r' c'

theorem places_pure : Places count D r c [] c (pure ()) :=
  ⟨D, r, fun _ => Yields.pure, fun _ => by rw [Nat.sub_self]; rfl, Extended.refl D r c⟩

theorem places_bind {x f : GrowthM Unit} (hx : Places count D r c u₁ c₁ x)
    (hf : ∀ D₁ r₁, Extended D r c u₁ D₁ r₁ c₁ → Places count D₁ r₁ c₁ u₂ c' f) :
    Places count D r c (u₁ ++ u₂) c' (do x; f) := by
  obtain ⟨D₁, r₁, hrun, hplaced, hext⟩ := hx
  obtain ⟨D', r', hrun', hplaced', hext'⟩ := hf D₁ r₁ hext
  have h₁ := hext.le
  have h₂ := hext'.le
  refine ⟨D', r', fun s => ?_, fun s => ?_, hext.trans hext'⟩
  · rw [List.append_assoc]
    exact Yields.trans (hrun _) (hrun' s)
  · rw [show c' - c = c₁ - c + (c' - c₁) by omega, Layout.placed_append, List.append_assoc, hplaced,
      show c + (c₁ - c) = c₁ by omega, hplaced']

/-- The tier of the pointers in the record. -/
theorem fillDirect_places (hc : c + u.length ≤ directCount ∨ u = []) :
    Places count D r c u (c + u.length) (fillDirect c u.length) := by
  by_cases hu : u = []
  · subst hu
    exact places_pure
  have hlen : 0 < u.length := List.length_pos_iff.2 hu
  have hc := hc.resolve_right hu
  have hfront : c + u.length ≤ singleReach := by
    simp only [singleReach]
    omega
  refine ⟨D, _, fun _ => fillDirect_yields u c, fun _ => ?_, extended_direct D r c u hc⟩
  rw [Nat.add_sub_cancel_left, Layout.placed_eq_lay (.inr hc) (.inr hfront) hlen, Layout.openTier,
    if_neg (by omega), if_neg (by omega), Layout.foldl_lay_front hfront, Layout.foldl_point_direct u hc]

/-- Filling the singly indirect table, once that is known. -/
theorem fillSingle_places {id : UInt32} (table : Block) (new ws : List UInt32)
    (hd : directCount ≤ c) (hlt : c < c') (hc : c < singleReach) (hid : id.toNat < count)
    (hlen : ws.length = min c' singleReach - c)
    (hnew : c = directCount ∧ new = [id] ∨ directCount < c ∧ id = r.single ∧ new = [])
    (htable : table.words (c - directCount) = (D id.toNat).words (c - directCount))
    (hopen : ∀ s, Layout.openTier ⟨D, r, new ++ ws ++ s⟩ c =
      ⟨Function.update D id.toNat table, { r with single := id }, ws ++ s⟩) :
    ∃ D' r', (∀ s, Yields (ShowsGrowth (Disk.Bears count)) ⟨D, { r with single := id }, ws ++ s⟩
        (do
          let table ← fillTable table (c - directCount) (min c' singleReach - c)
          onDisk (DiskM.writeBlock (← current).single.toNat table)) () ⟨D', r', s⟩) ∧
      (∀ s, Layout.placed ⟨D, r, new ++ ws ++ s⟩ c (min c' singleReach - c) = ⟨D', r', s⟩) ∧
      Extended D r c (new ++ ws) D' r' (min c' singleReach) := by
  have hsum : c + ws.length = min c' singleReach := by omega
  have hfit : c - directCount + ws.length ≤ blockWords := by
    simp only [singleReach] at hsum hc
    omega
  have hwords := table.words_putWords ws (c - directCount) hfit
  rw [htable] at hwords
  -- The run and the placing one by one end in the same table, the one with the new pointers in it.
  refine ⟨Function.update D id.toNat (table.putWords (c - directCount) ws), { r with single := id },
    fun s => ?_, fun s => ?_, ?_⟩
  · rw [← hlen]
    exact Yields.trans (fillTable_yields _ ws _) (Yields.trans current_yields (writeBlock_places hid _))
  · rw [← hlen, Layout.placed_eq_lay (.inl hd) (.inr (by omega)) (by omega),
      Layout.foldl_lay_front (by omega), hopen, Layout.foldl_point_single ws hd (by omega),
      Function.update_idem, Function.update_self]
  · rw [← hsum]
    exact extended_single hd (by omega) (by omega) hnew hwords

/-- The tier below the singly indirect table. -/
theorem extendSingle_places (hd : directCount ≤ c) (hlt : c < c') (hc : c < singleReach)
    (hu : u.length = min c' singleReach - c + if c = directCount then 1 else 0)
    (hvalid : ∀ b ∈ blocksIn D r c ++ u, b.toNat < count) :
    Places count D r c u (min c' singleReach) (extendSingle c c') := by
  unfold extendSingle Places
  -- A tier that begins here gets a table of zeros, and otherwise its table is read.
  by_cases h0 : c = directCount
  · rw [if_pos h0]
    obtain ⟨b, ws, rfl⟩ : ∃ b ws, u = b :: ws := by
      cases u with
      | nil => simp [h0] at hu
      | cons b ws => exact ⟨b, ws, rfl⟩
    rw [List.length_cons, if_pos h0] at hu
    obtain ⟨D', r', hrun, hplaced, hext⟩ := fillSingle_places .zero [b] ws hd hlt hc
      (hvalid b (by simp)) (by omega) (.inl ⟨h0, rfl⟩)
      (by rw [h0, Nat.sub_self, Block.words_zero, Block.words_zero])
      (fun s => by rw [Layout.openTier, if_pos h0]; rfl)
    exact ⟨D', r', fun s => Yields.trans (next_yields b) (Yields.trans (change_yields _)
      (Yields.trans Yields.pure (hrun s))), hplaced, hext⟩
  · rw [if_neg h0]
    rw [if_neg h0, Nat.add_zero] at hu
    have hsingle : r.single.toNat < count :=
      hvalid _ (List.mem_append_left _ (table_mem (single_mem (by omega))))
    obtain ⟨D', r', hrun, hplaced, hext⟩ := fillSingle_places (D r.single.toNat) [] u
      hd hlt hc hsingle hu
      (.inr ⟨by omega, rfl, rfl⟩) rfl
      (fun s => by rw [Layout.openTier, if_neg h0, if_neg (by omega), Function.update_eq_self]; rfl)
    exact ⟨D', r', fun s => Yields.trans current_yields (Yields.trans (readBlock_places hsingle) (hrun s)),
      hplaced, hext⟩

/-- Filling the tables below the doubly indirect one, and that, once it is known. -/
theorem fillDouble_places {id : UInt32} (outer : Block) (new us : List UInt32)
    (hc : singleReach ≤ c) (hlt : c < c') (hmax : c' ≤ maxBlocks)
    (hnew : c = singleReach ∧ new = [id] ∨ singleReach < c ∧ id = r.double ∧ new = [])
    (houter : singleReach < c → outer = D r.double.toNat)
    (hlen : us.length + tableCount (c - singleReach) = c' - c + tableCount (c' - singleReach))
    (hnodup : (blocksIn D r c ++ (new ++ us)).Nodup)
    (hvalid : ∀ b ∈ blocksIn D r c ++ (new ++ us), b.toNat < count)
    (hopen : ∀ s, Layout.openTier ⟨D, r, new ++ us ++ s⟩ c =
      ⟨Function.update D id.toNat outer, { r with double := id }, us ++ s⟩) :
    ∃ D' r', (∀ s, Yields (ShowsGrowth (Disk.Bears count)) ⟨D, { r with double := id }, us ++ s⟩
        (do
          let outer ← (pieces blockWords (c - singleReach) (c' - c)).foldlM extendInner outer
          onDisk (DiskM.writeBlock (← current).double.toNat outer)) () ⟨D', r', s⟩) ∧
      (∀ s, Layout.placed ⟨D, r, new ++ us ++ s⟩ c (c' - c) = ⟨D', r', s⟩) ∧
      Extended D r c (new ++ us) D' r' c' := by
  have hsum : c - singleReach + (c' - c) = c' - singleReach := by omega
  -- The outer table is in front of everything below it, whether it is new or not.
  have hperm : (blocksIn D r c ++ (new ++ us)).Perm
      (frontBlocks D r ++ (id :: (outerBlocks D outer (c - singleReach) ++ us))) := by
    have hp := blocksIn_double outer hc houter
    rw [List.perm_iff_count] at hp ⊢
    intro b
    have hcount := hp b
    rcases hnew with ⟨rfl, rfl⟩ | ⟨hd, rfl, rfl⟩
    · simp only [Nat.lt_irrefl, if_false, List.count_append, List.count_cons, List.count_nil] at hcount ⊢
      omega
    · simp only [if_pos hd, List.count_append, List.count_cons, List.count_nil] at hcount ⊢
      omega
  have hmem {b : UInt32} (hb : b ∈ id :: (outerBlocks D outer (c - singleReach) ++ us)) :
      b.toNat < count := hvalid b (hperm.mem_iff.2 (List.mem_append_right _ hb))
  obtain ⟨D₁, outer', hrun, hlay, hstep⟩ := extendInners_places
    (r := { r with double := id }) (D := D) (u := us) (fun p hp => piece_in_cell hp)
    (pieces_tile (by decide) (c - singleReach) (c' - c))
    (by
      rw [hsum]
      simp only [maxBlocks] at hmax
      omega)
    (by
      rw [hsum]
      omega)
    (List.nodup_append.1 (hperm.nodup_iff.1 hnodup)).2.1 fun b hb => hmem (List.mem_cons_of_mem _ hb)
  rw [hsum] at hstep
  refine ⟨Function.update D₁ id.toNat outer', { r with double := id }, fun s => ?_, fun s => ?_,
    extended_double hc hlt hnew houter hstep hnodup⟩
  · exact Yields.trans (hrun s)
      (Yields.trans current_yields (writeBlock_places (hmem (List.mem_cons_self ..)) _))
  · rw [Layout.placed_eq_lay (.inl (by simp only [singleReach] at hc; omega)) (.inl hc) (by omega), hopen]
    rw [show singleReach + (c - singleReach) = c by omega] at hlay
    exact hlay s

/-- The tier below the doubly indirect table. -/
theorem extendDouble_places (hc : singleReach ≤ c) (hlt : c < c') (hmax : c' ≤ maxBlocks)
    (hu : u.length + indexSize c = indexSize c') (hnodup : (blocksIn D r c ++ u).Nodup)
    (hvalid : ∀ b ∈ blocksIn D r c ++ u, b.toNat < count) :
    Places count D r c u c' (extendDouble c c') := by
  have hsize := length_double hc hlt hu
  have hsingle : c ≠ directCount := by
    simp only [singleReach, blockWords] at hc
    omega
  unfold extendDouble Places
  -- A tier that begins here gets a table of zeros, and otherwise its table is read.
  by_cases h0 : c = singleReach
  · rw [if_pos h0]
    rw [if_pos h0] at hsize
    obtain ⟨b, us, rfl⟩ : ∃ b us, u = b :: us := by
      cases u with
      | nil =>
        rw [List.length_nil] at hsize
        have := tableCount_mono (n := c - singleReach) (m := c' - singleReach) (by omega)
        omega
      | cons b us => exact ⟨b, us, rfl⟩
    rw [List.length_cons] at hsize
    obtain ⟨D', r', hrun, hplaced, hext⟩ := fillDouble_places .zero [b] us hc hlt hmax
      (.inl ⟨h0, rfl⟩) (fun h => by omega) (by omega) hnodup hvalid
      (fun s => by rw [Layout.openTier, if_neg hsingle, if_pos h0]; rfl)
    exact ⟨D', r', fun s => Yields.trans (next_yields b) (Yields.trans (change_yields _)
      (Yields.trans Yields.pure (hrun s))), hplaced, hext⟩
  · rw [if_neg h0]
    rw [if_neg h0, Nat.add_zero] at hsize
    have hdouble : r.double.toNat < count :=
      hvalid _ (List.mem_append_left _ (table_mem (double_mem (by omega))))
    obtain ⟨D', r', hrun, hplaced, hext⟩ := fillDouble_places (D r.double.toNat) [] u hc
      hlt hmax (.inr ⟨by omega, rfl, rfl⟩) (fun _ => rfl) hsize hnodup hvalid
      (fun s => by rw [Layout.openTier, if_neg hsingle, if_neg h0, Function.update_eq_self]; rfl)
    exact ⟨D', r', fun s => Yields.trans current_yields (Yields.trans (readBlock_places hdouble) (hrun s)),
      hplaced, hext⟩

/-- Extending an index of distinct blocks of the disk by as many more as it needs. -/
theorem extend_places (hle : c ≤ c') (hmax : c' ≤ maxBlocks) (hu : u.length + indexSize c = indexSize c')
    (hnodup : (blocksIn D r c ++ u).Nodup) (hvalid : ∀ b ∈ blocksIn D r c ++ u, b.toNat < count) :
    Places count D r c u c' (extend c c') := by
  have hrules : TierRules id (fun b => b.toNat < count)
      fun D r c u _ c' x => Places count D r c u c' x :=
    { nothing := places_pure
      andThen := fun _ _ hx hf => places_bind hx hf
      direct := fillDirect_places
      single := extendSingle_places
      double := extendDouble_places }
  exact hrules.extend (s := []) hle hmax hu hnodup hvalid

end Growth

end InodeVolume
