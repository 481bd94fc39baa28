import InodeVolume.Proofs.Clients
import InodeVolume.Proofs.Counterparts

/-!
# Runs side by side

One action run from two states comes to the same as long as all it looks at is the same in both. `Echoes T x T'`
says so: from states that `T` relates, `x` comes to one outcome, and to states that `T'` relates then.

Here the states are disks that hold the same in some of their blocks (`Disk.Agree`). What is written is the
same in both from then on, so disks go on agreeing, and the only thing to see to is that no block is read in
which they may differ. An index is extended by reading the tables that it has and writing those that it gets
(`expanded_echoes`).
-/

namespace InodeVolume

/-! ## Rules -/

section Rules

variable {ε δ σ α β : Type} {T : σ → σ → Prop} {x : EStateM ε σ α} {f : α → EStateM ε σ β}

/-- From states that `T` relates, the action comes to the same outcome, and `T'` relates the states that are
left. -/
def Echoes (T : σ → σ → Prop) (x : EStateM ε σ α) (T' : Except ε α → σ → σ → Prop) : Prop :=
  ∀ s t, T s t →
    (outcome x t).1 = (outcome x s).1 ∧ T' (outcome x s).1 (outcome x s).2 (outcome x t).2

theorem Echoes.mono {T₁ T₂ : Except ε α → σ → σ → Prop} (h : Echoes T x T₁)
    (hT : ∀ r s t, T₁ r s t → T₂ r s t) : Echoes T x T₂ := fun s t hs =>
  ⟨(h s t hs).1, hT _ _ _ (h s t hs).2⟩

theorem Echoes.of_imp {T₁ : σ → σ → Prop} {T' : Except ε α → σ → σ → Prop} (h : Echoes T₁ x T')
    (hT : ∀ s t, T s t → T₁ s t) : Echoes T x T' := fun s t hs => h s t (hT s t hs)

/-- What is known of the states may be used. -/
theorem Echoes.of_related {T' : Except ε α → σ → σ → Prop}
    (h : ∀ s t, T s t → Echoes (fun s' t' => s' = s ∧ t' = t) x T') : Echoes T x T' :=
  fun s t hs => h s t hs s t ⟨rfl, rfl⟩

theorem Echoes.pure {v : α} {T' : Except ε α → σ → σ → Prop} (h : ∀ s t, T s t → T' (.ok v) s t) :
    Echoes T (Pure.pure v : EStateM ε σ α) T' :=
  fun s t hs => ⟨rfl, h s t hs⟩

theorem Echoes.throw {e : ε} {T' : Except ε α → σ → σ → Prop} (h : ∀ s t, T s t → T' (.error e) s t) :
    Echoes T (MonadExcept.throw e : EStateM ε σ α) T' :=
  fun s t hs => ⟨rfl, h s t hs⟩

/-- What follows an error is not carried out. -/
theorem Echoes.throwBind {e : ε} {T' : Except ε β → σ → σ → Prop} (h : ∀ s t, T s t → T' (.error e) s t) :
    Echoes T ((MonadExcept.throw e : EStateM ε σ α) >>= f) T' :=
  fun s t hs => ⟨rfl, h s t hs⟩

/-- Runs that echo each other step by step echo each other as a whole. -/
theorem Echoes.bind {M : Except ε α → σ → σ → Prop} {T' : Except ε β → σ → σ → Prop} (hx : Echoes T x M)
    (hf : ∀ v, Echoes (M (.ok v)) (f v) T') (herr : ∀ e s t, M (.error e) s t → T' (.error e) s t) :
    Echoes T (x >>= f) T' := by
  intro s t hs
  obtain ⟨hr, hM⟩ := hx s t hs
  cases hrun : outcome x s with
  | mk r s' =>
    cases hrun' : outcome x t with
    | mk q t' =>
      rw [hrun, hrun'] at hr hM
      obtain rfl : q = r := hr
      -- The first steps have the same outcome, so both go on or both stop.
      cases q with
      | ok v =>
        rw [outcome_bind_ok hrun, outcome_bind_ok hrun']
        exact hf v s' t' hM
      | error e =>
        rw [outcome_bind_error hrun, outcome_bind_error hrun']
        exact ⟨rfl, herr e s' t' hM⟩

/-- Going on from the outcome of an action, whatever it is. -/
theorem Echoes.attemptBind {g : Except ε α → EStateM δ σ β} {M : Except ε α → σ → σ → Prop}
    {T' : Except δ β → σ → σ → Prop} (hx : Echoes T x M) (hg : ∀ r, Echoes (M r) (g r) T') :
    Echoes T ((attempt x : EStateM δ σ (Except ε α)) >>= g) T' := by
  intro s t hs
  obtain ⟨hr, hM⟩ := hx s t hs
  rw [outcome_attempt_bind, outcome_attempt_bind, hr]
  exact hg _ _ _ hM

theorem Echoes.resume {r : Except ε α} {T' : Except ε α → σ → σ → Prop} (h : ∀ s t, T s t → T' r s t) :
    Echoes T (InodeVolume.resume r : EStateM ε σ α) T' := by
  cases r with
  | ok v => exact Echoes.pure h
  | error e => exact Echoes.throw h

/-- An action after which the states are related as before. -/
abbrev Echo (T : σ → σ → Prop) (x : EStateM ε σ α) : Prop := Echoes T x fun _ => T

theorem Echo.pure (v : α) : Echo T (Pure.pure v : EStateM ε σ α) := Echoes.pure fun _ _ h => h

theorem Echo.throw (e : ε) : Echo T (MonadExcept.throw e : EStateM ε σ α) := Echoes.throw fun _ _ h => h

theorem Echo.bind (hx : Echo T x) (hf : ∀ v, Echo T (f v)) : Echo T (x >>= f) :=
  Echoes.bind hx hf fun _ _ _ h => h

end Rules

/-! ## Disks that agree -/

variable {K : Regime} {A : Nat → Prop}

/-- Disks on which no access fails, and which hold the same in the blocks of `A`. -/
structure Disk.Agree (K : Regime) (A : Nat → Prop) (s t : Disk) : Prop where
  left : s.Works False
  right : t.Works False
  count : s.device.blockCount = K.count
  count' : t.device.blockCount = K.count
  inside : ∀ id, A id → id < K.count
  data : ∀ id, A id → t.device.block id = s.device.block id

theorem Disk.Works.of_kept {s s' : Disk} (h : s.Works False) (hk : s.Kept s') : s'.Works False where
  holds id hid := hk.holds id (h.holds id (by rwa [hk.count] at hid))
  reads n id := by rw [hk.reads]; exact h.reads n id
  writes hf n id := by rw [hk.writes]; exact h.writes hf n id

/-- Accesses that change the same blocks leave disks that agree. -/
theorem Disk.Agree.of_kept {B : Nat → Prop} {s t s' t' : Disk} (h : Disk.Agree K A s t) (hs : s.Kept s')
    (ht : t.Kept t') (hB : ∀ id, B id → id < K.count)
    (hdata : ∀ id, B id → t'.device.block id = s'.device.block id) : Disk.Agree K B s' t' where
  left := h.left.of_kept hs
  right := h.right.of_kept ht
  count := hs.count.trans h.count
  count' := ht.count.trans h.count'
  inside := hB
  data := hdata

namespace DiskM

theorem block_of_blocks {s s' : Disk} (h : s'.device.blocks = s.device.blocks) (id : Nat) :
    s'.device.block id = s.device.block id := by
  simp only [Device.block, h]

/-- A block in which disks agree is read alike, as what both of them hold. -/
theorem readBlock_echoes {id : Nat} (hid : A id) (b : Block) :
    Echoes (fun s t => Disk.Agree K A s t ∧ s.device.block id = b) (readBlock id)
      fun r s t => Disk.Agree K A s t ∧ r = .ok b := by
  rintro s t ⟨h, rfl⟩
  have hlt := h.inside id hid
  obtain ⟨s', hs, hks, hbs⟩ := readBlock_of_steady (by rwa [h.count]) h.left.reads
    (h.left.holds id (by rwa [h.count]))
  obtain ⟨t', ht, hkt, hbt⟩ := readBlock_of_steady (by rwa [h.count']) h.right.reads
    (h.right.holds id (by rwa [h.count']))
  simp only [outcome, hs, ht, h.data id hid, true_and]
  refine ⟨h.of_kept hks hkt h.inside fun i hi => ?_, trivial⟩
  rw [block_of_blocks hbs, block_of_blocks hbt, h.data i hi]

/-- A block that is not there is refused, and nothing is written. -/
theorem writeBlock_outside {s : Disk} (hw : ∀ n id, s.faults.write n id = false) {id : Nat} (b : Block)
    (hid : s.device.blockCount ≤ id) :
    ∃ s', writeBlock id b s = .error (.device .outOfRange) s' ∧ s.Kept s' ∧ s'.device = s.device := by
  obtain ⟨device, ⟨read, write, reads, writes⟩⟩ := s
  have hrefused : device.refusal id b.bytes.size = some .outOfRange := by
    unfold Device.refusal
    cases device.medium with
    | memory => simp only [b.size_bytes, ne_eq, not_true_eq_false, ↓reduceIte, if_pos hid]
    | hostFile length => simp only [if_pos hid]
  have hno : write writes id = false := hw writes id
  refine ⟨⟨device, ⟨read, write, reads, writes + 1⟩⟩, ?_, ⟨rfl, rfl, rfl, fun _ h => h⟩, rfl⟩
  simp [writeBlock, ofDevice, Disk.write, hno, Device.write, hrefused]

/-- A block that is written is the same in both disks then. -/
theorem writeBlock_echoes (id : Nat) (b : Block) :
    Echoes (Disk.Agree K A) (writeBlock id b) fun r s t =>
      Disk.Agree K (fun i => A i ∨ (r = .ok () ∧ i = id)) s t := by
  intro s t h
  -- Both disks have the same blocks and no write fails, so the write is done or refused on both.
  by_cases hid : id < K.count
  · rcases writeBlock_cases (by rwa [h.count]) b with ⟨s', hs, hks, hbs⟩ | ⟨-, -, -, -, n, hn⟩
    swap
    · rw [h.left.writes not_false] at hn
      cases hn
    rcases writeBlock_cases (by rwa [h.count']) b with ⟨t', ht, hkt, hbt⟩ | ⟨-, -, -, -, n, hn⟩
    swap
    · rw [h.right.writes not_false] at hn
      cases hn
    simp only [outcome, hs, ht, true_and]
    refine h.of_kept hks hkt ?_ ?_
    · rintro i (hi | rfl)
      · exact h.inside i hi
      · exact hid
    · rintro i hi
      rw [hbs, hbt]
      by_cases he : i = id
      · rw [he, Function.update_self, Function.update_self]
      · rw [Function.update_of_ne he, Function.update_of_ne he, h.data i (hi.resolve_right he)]
  · have hs : s.device.blockCount ≤ id := h.count ▸ Nat.le_of_not_lt hid
    have ht : t.device.blockCount ≤ id := h.count' ▸ Nat.le_of_not_lt hid
    obtain ⟨s', hs, hks, hds⟩ := writeBlock_outside (h.left.writes not_false) b hs
    obtain ⟨t', ht, hkt, hdt⟩ := writeBlock_outside (h.right.writes not_false) b ht
    simp only [outcome, hs, ht, true_and]
    refine h.of_kept hks hkt ?_ ?_
    · rintro i (hi | ⟨he, -⟩)
      · exact h.inside i hi
      · cases he
    · rintro i (hi | ⟨he, -⟩)
      · rw [hds, hdt, h.data i hi]
      · cases he

theorem writeBlock_echo (id : Nat) (b : Block) : Echo (Disk.Agree K A) (writeBlock id b) :=
  (writeBlock_echoes id b).mono fun _ _ _ h =>
    ⟨h.left, h.right, h.count, h.count', fun i hi => h.inside i (.inl hi), fun i hi => h.data i (.inl hi)⟩

end DiskM

/-! ## Extending an index -/

/-- Extensions of one record by the same blocks, on disks that agree. -/
structure Growth.Agree (K : Regime) (A : Nat → Prop) (g h : Growth) : Prop where
  disk : Disk.Agree K A g.disk h.disk
  record : h.record = g.record
  supply : h.supply = g.supply

namespace Growth

open Record

variable {α : Type} {r : Record} {c c' : Nat}

/-- What is done on the disk alone. -/
theorem onDisk_echoes {T : Disk → Disk → Prop} {T' : Except Error α → Disk → Disk → Prop} {x : DiskM α}
    (hx : Echoes T x T') :
    Echoes (fun g h => T g.disk h.disk ∧ h.record = g.record ∧ h.supply = g.supply) (onDisk x)
      fun res g h => T' res g.disk h.disk ∧ h.record = g.record ∧ h.supply = g.supply := by
  rintro ⟨s, r, l⟩ ⟨t, r', l'⟩ ⟨hT, hr, hl⟩
  obtain rfl : r' = r := hr
  obtain rfl : l' = l := hl
  have hout (s : Disk) : outcome (onDisk x) ⟨s, r', l'⟩ =
      ((outcome x s).1, ⟨(outcome x s).2, r', l'⟩) := by
    simp only [outcome, onDisk]
    cases x s <;> rfl
  obtain ⟨hres, hT'⟩ := hx s t hT
  rw [hout, hout]
  exact ⟨hres, hT', rfl, rfl⟩

theorem onDisk_write_echo (id : Nat) (b : Block) :
    Echo (Growth.Agree K A) (onDisk (DiskM.writeBlock id b)) := by
  have hwrite := onDisk_echoes (DiskM.writeBlock_echo (K := K) (A := A) id b)
  exact (hwrite.of_imp fun _ _ hg => ⟨hg.disk, hg.record, hg.supply⟩).mono fun _ _ _ hg =>
    ⟨hg.1, hg.2.1, hg.2.2⟩

theorem next_echo : Echo (Growth.Agree K A) next := by
  rintro ⟨s, r, l⟩ ⟨t, r', l'⟩ ⟨hd, hr, hl⟩
  obtain rfl : r' = r := hr
  obtain rfl : l' = l := hl
  cases l' with
  | nil => exact ⟨rfl, hd, rfl, rfl⟩
  | cons b rest => exact ⟨rfl, hd, rfl, rfl⟩

theorem change_echo (f : Record → Record) : Echo (Growth.Agree K A) (change f) :=
  fun _ _ hg => ⟨rfl, hg.disk, congrArg f hg.record, hg.supply⟩

theorem current_echo : Echo (Growth.Agree K A) current :=
  fun _ _ hg => ⟨congrArg Except.ok hg.record, hg⟩

theorem fillDirect_echo (i n : Nat) : Echo (Growth.Agree K A) (fillDirect i n) := by
  induction n generalizing i with
  | zero => exact Echo.pure ()
  | succ n ih => exact next_echo.bind fun _ => (change_echo _).bind fun _ => ih (i + 1)

theorem fillTable_echo (table : Block) (i n : Nat) : Echo (Growth.Agree K A) (fillTable table i n) := by
  induction n generalizing table i with
  | zero => exact Echo.pure table
  | succ n ih => exact next_echo.bind fun _ => ih _ _

/-- A table of the record is read in which the disks agree. -/
theorem readTable_bind {f : Record → UInt32} {k : Block → GrowthM α}
    {T' : Except Error α → Growth → Growth → Prop} (hf : A (f r).toNat) (b : Block)
    (hk : Echoes (Growth.Agree K A) (k b) T') :
    Echoes (fun g h => Growth.Agree K A g h ∧ g.record = r ∧ g.disk.device.block (f r).toNat = b) (do
      let table ← onDisk (DiskM.readBlock (f (← current)).toNat)
      k table) T' := by
  rintro g h ⟨hg, hr, hb⟩
  obtain ⟨hsame, ⟨hdisk, hres⟩, hrecord, hsupply⟩ := onDisk_echoes (DiskM.readBlock_echoes (K := K) hf b) g h
    ⟨⟨hg.disk, hb⟩, hg.record, hg.supply⟩
  have hcurrent (g : Growth) : outcome current g = (.ok g.record, g) := rfl
  rw [outcome_bind_ok (hcurrent g), outcome_bind_ok (hcurrent h), hg.record, hr,
    outcome_bind_ok (Prod.ext hres rfl), outcome_bind_ok (Prod.ext (hsame.trans hres) rfl)]
  exact hk _ _ ⟨hdisk, hrecord, hsupply⟩

/-- Filling a table and storing it. -/
theorem storeTable_echo (f : Record → UInt32) (table : Block) (i n : Nat) :
    Echo (Growth.Agree K A) (do
      let table ← fillTable table i n
      onDisk (DiskM.writeBlock (f (← current)).toNat table)) :=
  (fillTable_echo table i n).bind fun _ => current_echo.bind fun _ => onDisk_write_echo _ _

/-- A first table that is new is not read. -/
theorem newSingle_echo {first : Nat} (last : Nat) (hfirst : first = directCount) :
    Echo (Growth.Agree K A) (extendSingle first last) := by
  unfold extendSingle
  rw [if_pos hfirst]
  exact next_echo.bind fun b => (change_echo _).bind fun _ => storeTable_echo (·.single) Block.zero _ _

/-- One that is there is read. -/
theorem oldSingle_echoes {first : Nat} (last : Nat) (hfirst : first ≠ directCount) (hA : A r.single.toNat) :
    Echoes (fun g h => Growth.Agree K A g h ∧ g.record = r) (extendSingle first last)
      fun _ => Growth.Agree K A := by
  unfold extendSingle
  rw [if_neg hfirst]
  refine Echoes.of_related fun g h hg => ?_
  refine (readTable_bind (f := (·.single)) hA (g.disk.device.block r.single.toNat)
    (storeTable_echo (·.single) _ _ _)).of_imp ?_
  rintro _ _ ⟨rfl, rfl⟩
  exact ⟨hg.1, hg.2, rfl⟩

/-- An inner table is read if it is there, and only then. -/
theorem extendInner_echo (outer : Block) (p : Piece) (hp : p.start = 0 ∨ A (outer.word p.cell).toNat) :
    Echo (Growth.Agree K A) (extendInner outer p) := by
  -- A new inner table is all zeros on both sides, an old one is read first. Then they go on alike.
  have hrest (v : Block × UInt32 × Block) : Echo (Growth.Agree K A) (do
      let table ← fillTable v.2.2 p.start p.size
      onDisk (DiskM.writeBlock v.2.1.toNat table)
      pure v.1) :=
    (fillTable_echo _ _ _).bind fun _ => (onDisk_write_echo _ _).bind fun _ => Echo.pure _
  unfold extendInner
  by_cases hstart : p.start = 0
  · simp only [if_pos hstart]
    exact next_echo.bind fun b => hrest (outer.setWord p.cell b, b, Block.zero)
  · simp only [if_neg hstart]
    have hread : Echo (Growth.Agree K A) (onDisk (DiskM.readBlock (outer.word p.cell).toNat)) := by
      refine Echoes.of_related fun g h hg => ?_
      have hblock := onDisk_echoes (DiskM.readBlock_echoes (K := K) (hp.resolve_left hstart)
        (g.disk.device.block (outer.word p.cell).toNat))
      refine (hblock.of_imp ?_).mono fun _ _ _ h => ⟨h.1.1, h.2.1, h.2.2⟩
      rintro _ _ ⟨rfl, rfl⟩
      exact ⟨⟨hg.disk, rfl⟩, hg.record, hg.supply⟩
    exact hread.bind fun table => hrest (outer, outer.word p.cell, table)

/-- Behind the first piece of a span, every piece starts a cell of its own. -/
theorem pieces_start {first count : Nat} (h : first % blockWords = 0) {p : Piece}
    (hp : p ∈ pieces blockWords first count) : p.start = 0 := by
  fun_induction pieces blockWords first count with
  | case1 => simp at hp
  | case2 first count hc size ih =>
    rcases List.mem_cons.1 hp with rfl | hp
    · exact h
    · -- A piece that another follows ends with its table.
      by_cases hrest : count - size = 0
      · rw [hrest, pieces_zero] at hp
        cases hp
      · refine ih ?_ hp
        simp only [size, blockWords] at h hrest ⊢
        omega

theorem newInners_echo {parts : List Piece} (hparts : ∀ p ∈ parts, p.start = 0) (outer : Block) :
    Echo (Growth.Agree K A) (parts.foldlM extendInner outer) := by
  induction parts generalizing outer with
  | nil => exact Echo.pure outer
  | cons p parts ih =>
    rw [List.foldlM_cons]
    refine (extendInner_echo outer p (.inl (hparts p (List.mem_cons_self ..)))).bind fun outer => ?_
    exact ih (fun q hq => hparts q (List.mem_cons_of_mem p hq)) outer

/-- Of the inner tables of a span, only the first can be there. -/
theorem extendInners_echo {outer : Block} {first : Nat} (count : Nat)
    (hA : ∀ t ∈ outer.words (tableCount first), A t.toNat) :
    Echo (Growth.Agree K A) ((pieces blockWords first count).foldlM extendInner outer) := by
  rw [pieces]
  split
  · exact Echo.pure outer
  rename_i hc
  dsimp only
  rw [List.foldlM_cons]
  -- Only the first piece may fall into an old table. All that follow begin new ones.
  refine Echo.bind (extendInner_echo outer _ ?_) fun outer => ?_
  · by_cases hstart : first % blockWords = 0
    · exact .inl hstart
    · refine .inr (hA _ (Block.mem_words.2 ⟨_, ?_, rfl⟩))
      simp only [tableCount, blockWords] at hstart ⊢
      omega
  · by_cases hrest : count - min count (blockWords - first % blockWords) = 0
    · rw [hrest, pieces_zero]
      exact Echo.pure outer
    · refine newInners_echo (fun p hp => pieces_start ?_ hp) outer
      simp only [blockWords] at hrest ⊢
      omega

/-- Extending the tables below an outer table and storing it. -/
theorem storeOuter_echo {outer : Block} {first : Nat} (count : Nat)
    (hA : ∀ t ∈ outer.words (tableCount first), A t.toNat) :
    Echo (Growth.Agree K A) (do
      let outer ← (pieces blockWords first count).foldlM extendInner outer
      onDisk (DiskM.writeBlock (← current).double.toNat outer)) :=
  (extendInners_echo count hA).bind fun _ => current_echo.bind fun _ => onDisk_write_echo _ _

theorem newDouble_echo {first : Nat} (last : Nat) (hfirst : first = singleReach) :
    Echo (Growth.Agree K A) (extendDouble first last) := by
  unfold extendDouble
  rw [if_pos hfirst]
  refine next_echo.bind fun b => (change_echo _).bind fun _ => storeOuter_echo _ fun t ht => ?_
  rw [hfirst, Nat.sub_self, tableCount_zero] at ht
  cases ht

theorem oldDouble_echoes {first : Nat} (last : Nat) (hfirst : first ≠ singleReach) (hA : A r.double.toNat) :
    Echoes (fun g h => Growth.Agree K A g h ∧ g.record = r ∧
        ∀ t ∈ (g.disk.device.block r.double.toNat).words (tableCount (first - singleReach)), A t.toNat)
      (extendDouble first last) fun _ => Growth.Agree K A := by
  unfold extendDouble
  rw [if_neg hfirst]
  refine Echoes.of_related fun g h hg => ?_
  refine (readTable_bind (f := (·.double)) hA (g.disk.device.block r.double.toNat)
    (storeOuter_echo _ hg.2.2)).of_imp ?_
  rintro _ _ ⟨rfl, rfl⟩
  exact ⟨hg.1, hg.2.1, rfl⟩

/-- An index is extended by reading tables that it has and no other blocks. -/
theorem extend_echoes (hle : c ≤ c') (hmax : c' ≤ maxBlocks) :
    Echoes (fun g h => Growth.Agree K A g h ∧ g.record = r ∧
        ∀ t ∈ tablesIn g.disk.device.block r c, A t.toNat)
      (extend c c') fun _ => Growth.Agree K A := by
  -- Coming from a lower tier, the third one is new.
  have hfar {first : Nat} (hfirst : first ≤ singleReach) (hlt : first ≤ c') : Echo (Growth.Agree K A)
      (if max first (min c' singleReach) = c' then pure ()
        else extendDouble (max first (min c' singleReach)) c') := by
    split
    · exact Echo.pure ()
    · exact newDouble_echo c' (by omega)
  have hdirect : directCount ≤ singleReach := by decide
  rw [extend_eq c hmax]
  by_cases hd : c ≤ directCount
  · -- Whatever tables the longer index has are new.
    refine Echoes.of_imp (Echo.bind (fillDirect_echo c _) fun _ => ?_) fun _ _ h => h.1
    split
    · exact Echo.pure ()
    refine Echo.bind ?_ fun _ => hfar (by omega) (by omega)
    split
    · exact newSingle_echo c' (by omega)
    · exact Echo.pure ()
  rw [show min c' directCount - c = 0 by omega, show max c (min c' directCount) = c by omega]
  refine Echoes.bind (M := fun _ g h => Growth.Agree K A g h ∧ g.record = r ∧
    ∀ t ∈ tablesIn g.disk.device.block r c, A t.toNat) (Echo.pure ()) (fun _ => ?_) fun _ _ _ h => h.1
  split
  · exact Echoes.pure fun _ _ h => h.1
  by_cases hs : c < singleReach
  · rw [if_pos hs]
    refine Echoes.of_related fun g h hg => ?_
    refine Echoes.bind ((oldSingle_echoes c' (by omega) (hg.2.2 _ (single_mem (by omega)))).of_imp ?_)
      (fun _ => hfar hs.le hle) fun _ _ _ h => h
    rintro _ _ ⟨rfl, rfl⟩
    exact ⟨hg.1, hg.2.1⟩
  · rw [if_neg hs, show max c (min c' singleReach) = c by omega, if_neg ‹_›]
    refine Echoes.bind (M := fun _ g h => Growth.Agree K A g h ∧ g.record = r ∧
      ∀ t ∈ tablesIn g.disk.device.block r c, A t.toNat) (Echo.pure ()) (fun _ => ?_) fun _ _ _ h => h.1
    by_cases he : c = singleReach
    · exact (newDouble_echo c' he).of_imp fun _ _ h => h.1
    · refine Echoes.of_related fun g h hg => ?_
      refine (oldDouble_echoes c' he (hg.2.2 _ (double_mem (by omega)))).of_imp ?_
      rintro _ _ ⟨rfl, rfl⟩
      exact ⟨hg.1, hg.2.1, fun t ht => hg.2.2 t (inner_mem (by omega) ht)⟩

end Growth

/-- Extending a record for more contents. -/
theorem Record.expanded_echoes {r : Record} {size : Nat} (hle : r.length.toNat ≤ size) (hmax : size ≤ maxFileSize)
    (supply : List UInt32) :
    Echoes (fun s t => Disk.Agree K A s t ∧
        ∀ b ∈ tablesIn s.device.block r (dataBlocks r.length.toNat), A b.toNat)
      (r.expanded size supply) fun _ => Disk.Agree K A := by
  rintro s t ⟨hd, htables⟩
  have h := Growth.extend_echoes (K := K) (A := A) (r := r) (dataBlocks_mono hle) (dataBlocks_le_maxBlocks hmax)
    ⟨s, r, supply⟩ ⟨t, r, supply⟩ ⟨⟨hd, rfl, rfl⟩, rfl, htables⟩
  -- The growth runs on a state of its own, of which the disk is handed back.
  have hout (s : Disk) : outcome (r.expanded size supply) s =
      ((outcome (Growth.extend (dataBlocks r.length.toNat) (dataBlocks size)) ⟨s, r, supply⟩).1.map fun _ =>
          { (outcome (Growth.extend (dataBlocks r.length.toNat) (dataBlocks size)) ⟨s, r, supply⟩).2.record with
            length := UInt32.ofNat size },
        (outcome (Growth.extend (dataBlocks r.length.toNat) (dataBlocks size)) ⟨s, r, supply⟩).2.disk) := by
    simp only [outcome, expanded, expand]
    cases Growth.extend (dataBlocks r.length.toNat) (dataBlocks size) ⟨s, r, supply⟩ <;> rfl
  obtain ⟨hres, hg⟩ := h
  rw [hout, hout, hres, hg.record]
  exact ⟨rfl, hg.disk⟩

end InodeVolume
