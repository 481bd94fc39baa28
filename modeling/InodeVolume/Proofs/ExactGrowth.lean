import InodeVolume.Proofs.PieceSteps
import Mathlib.Data.Set.Function

/-!
# Growing in several steps

A record that starts empty and grows to one length after another, each time with exactly as many new
blocks as the longer index needs, on a disk on which every access succeeds.

* `clear_of_exact`: every step succeeds; each piece keeps the block that it has got, and different pieces
  have different ones; emptying the index gives back all blocks that were supplied, each once.
* `expand_split`: growing by way of a length in between ends in the same record and the same blocks as
  growing at once.
-/

namespace InodeVolume

namespace Record

/-! ## Growing to one length after another -/

/-- The record grown to each of these lengths in turn, with the blocks beside it. -/
def expandedEach (r : Record) : List (Nat × List UInt32) → DiskM Record
  | [] => pure r
  | (size, blocks) :: rest => do (← r.expanded size blocks).expandedEach rest

/-- From length `size` on the lengths do not fall and are allowed, and beside each of them stand as many
blocks as it needs more than the one before. -/
def Exact (size : Nat) : List (Nat × List UInt32) → Prop
  | [] => True
  | (size', blocks) :: rest =>
    size ≤ size' ∧ size' ≤ maxFileSize ∧ blocks.length = totalBlocks size' - totalBlocks size ∧
      Exact size' rest

/-- All blocks that the steps supply. -/
def supplied (steps : List (Nat × List UInt32)) : List UInt32 := steps.flatMap Prod.snd

/-- The last length, `size` if there is none. -/
def lastSize (size : Nat) : List (Nat × List UInt32) → Nat
  | [] => size
  | (size', _) :: rest => lastSize size' rest

/-- Distinct blocks of a disk of `count` blocks, none of them block 0. -/
structure Usable (count : Nat) (blocks : List UInt32) : Prop where
  nodup : blocks.Nodup
  valid : ∀ b ∈ blocks, b ≠ 0 ∧ b.toNat < count

variable {count size : Nat} {D D₁ D' : Nat → Block} {disk : Disk} {r r₁ r' : Record}
  {blocks u v : List UInt32} {made rest steps : List (Nat × List UInt32)}

theorem expandedEach_append (r : Record) (made rest : List (Nat × List UInt32)) :
    r.expandedEach (made ++ rest) = (do (← r.expandedEach made).expandedEach rest) := by
  induction made generalizing r with
  | nil => rfl
  | cons step made ih =>
    obtain ⟨size, blocks⟩ := step
    simp only [List.cons_append, expandedEach, ih, bind_assoc]

theorem supplied_append : supplied (made ++ rest) = supplied made ++ supplied rest :=
  List.flatMap_append

theorem Exact.append (h : Exact size (made ++ rest)) :
    Exact size made ∧ Exact (lastSize size made) rest := by
  induction made generalizing size with
  | nil => exact ⟨trivial, h⟩
  | cons step made ih =>
    obtain ⟨size', blocks⟩ := step
    obtain ⟨hle, hmax, hlen, hrest⟩ := h
    obtain ⟨hmade, hlast⟩ := ih hrest
    exact ⟨⟨hle, hmax, hlen, hmade⟩, hlast⟩

theorem Usable.prefix (h : Usable count (u ++ v)) : Usable count u where
  nodup := (List.nodup_append.1 h.nodup).1
  valid b hb := h.valid b (List.mem_append_left v hb)

/-! ## The index of a record that has grown -/

/-- The index of the record is made of these blocks. -/
structure MadeOf (D : Nat → Block) (r : Record) (blocks : List UInt32) : Prop where
  le : r.length.toNat ≤ maxFileSize
  owned : (blocksIn D r (dataBlocks r.length.toNat)).Perm blocks

/-- The second record is at least as long as the first, and the pieces of the first are where they were. -/
structure Lengthened (D : Nat → Block) (r : Record) (D' : Nat → Block) (r' : Record) : Prop where
  le : r.length.toNat ≤ r'.length.toNat
  isDirectory : r'.isDirectory = r.isDirectory
  pieces : ∀ i, i < dataBlocks r.length.toNat → pieceIn D' r' i = pieceIn D r i

theorem Lengthened.refl (D : Nat → Block) (r : Record) : Lengthened D r D r :=
  ⟨Nat.le_refl _, rfl, fun _ _ => rfl⟩

theorem Lengthened.trans (h : Lengthened D r D₁ r₁) (h' : Lengthened D₁ r₁ D' r') :
    Lengthened D r D' r' where
  le := Nat.le_trans h.le h'.le
  isDirectory := h'.isDirectory.trans h.isDirectory
  pieces i hi := (h'.pieces i (Nat.lt_of_lt_of_le hi (dataBlocks_mono h.le))).trans (h.pieces i hi)

theorem madeOf_empty (D : Nat → Block) (isDirectory : Bool) : MadeOf D (empty isDirectory) [] where
  le := Nat.zero_le _
  owned := by
    rw [List.perm_nil, ← List.length_eq_zero_iff, length_blocksIn]
    cases isDirectory <;> decide

theorem MadeOf.readable (h : MadeOf D r blocks) (hb : Usable count blocks) :
    Readable (Disk.Bears count) D D r (dataBlocks r.length.toNat) where
  le := dataBlocks_le_maxBlocks h.le
  ne_zero t ht := (hb.valid t (h.owned.mem_iff.1 (table_mem ht))).1
  reads t ht := DiskM.readBlock_of_bears (hb.valid t (h.owned.mem_iff.1 (table_mem ht))).2

theorem length_expansion (hle : r.length.toNat ≤ size)
    (hu : u.length = totalBlocks size - totalBlocks r.length.toNat) :
    u.length + totalBlocks r.length.toNat = totalBlocks size := by
  have := totalBlocks_mono hle
  omega

/-- An exact step places the new pieces, whatever the length is said to be afterwards. -/
theorem MadeOf.expand_places (h : MadeOf D r blocks) (hle : r.length.toNat ≤ size)
    (hmax : size ≤ maxFileSize) (hu : u.length = totalBlocks size - totalBlocks r.length.toNat)
    (hb : Usable count (blocks ++ u)) :
    ∃ D' r', (∀ s, Layout.placed ⟨D, r, u ++ s⟩ (dataBlocks r.length.toNat)
        (dataBlocks size - dataBlocks r.length.toNat) = ⟨D', r', s⟩) ∧
      Extended D r (dataBlocks r.length.toNat) u D' r' (dataBlocks size) ∧
      ∀ disk, disk.Bears count D → ∃ disk', r.expand size u disk = (.ok (), r', disk') ∧
        disk'.Bears count D' := by
  have hperm := h.owned.append_right u
  obtain ⟨D', r', hrun, hplaced, hext⟩ := Growth.extend_places (dataBlocks_mono hle)
    (dataBlocks_le_maxBlocks hmax) (length_expansion hle hu) (hperm.nodup_iff.2 hb.nodup)
    fun b hmem => (hb.valid b (hperm.mem_iff.1 hmem)).2
  refine ⟨D', r', hplaced, hext, fun disk hd => ?_⟩
  obtain ⟨g, hg, hshown⟩ := (hrun []).run (s := ⟨disk, r, u⟩) ⟨hd, rfl, (List.append_nil u).symm⟩
  refine ⟨g.disk, ?_, hshown.store⟩
  rw [expand, hg]
  simp only [hshown.record]

theorem MadeOf.extended (h : MadeOf D r blocks) (hmax : size ≤ maxFileSize)
    (hext : Extended D r (dataBlocks r.length.toNat) u D' r' (dataBlocks size)) :
    MadeOf D' { r' with length := UInt32.ofNat size } (blocks ++ u) where
  le := by rwa [toNat_ofNat_size hmax]
  owned := by
    simp only [toNat_ofNat_size hmax]
    exact hext.owned.trans (h.owned.append_right u)

/-- An exact step lengthens the record. -/
theorem MadeOf.expanded (h : MadeOf D r blocks) (hd : disk.Bears count D) (hle : r.length.toNat ≤ size)
    (hmax : size ≤ maxFileSize) (hu : u.length = totalBlocks size - totalBlocks r.length.toNat)
    (hb : Usable count (blocks ++ u)) :
    ∃ D' r' disk', r.expanded size u disk = .ok r' disk' ∧ disk'.Bears count D' ∧
      r'.length.toNat = size ∧ MadeOf D' r' (blocks ++ u) ∧ Lengthened D r D' r' := by
  obtain ⟨D', r', -, hext, hrun⟩ := h.expand_places hle hmax hu hb
  obtain ⟨disk', hx, hd'⟩ := hrun disk hd
  have hsize := toNat_ofNat_size hmax
  refine ⟨D', { r' with length := UInt32.ofNat size }, disk', ?_, hd', hsize, h.extended hmax hext,
    hle.trans hsize.ge, hext.continues.isDirectory, fun i hi => hext.pieceIn_eq hi⟩
  simp only [Record.expanded, hx]

/-- Exact steps lengthen the record. -/
theorem MadeOf.expandedEach (h : MadeOf D r blocks) (hd : disk.Bears count D)
    (hs : Exact r.length.toNat steps) (hb : Usable count (blocks ++ supplied steps)) :
    ∃ D' r' disk', r.expandedEach steps disk = .ok r' disk' ∧ disk'.Bears count D' ∧
      r'.length.toNat = lastSize r.length.toNat steps ∧ MadeOf D' r' (blocks ++ supplied steps) ∧
      Lengthened D r D' r' := by
  -- By induction on the steps. Each of them adds the blocks that it was supplied with, so what remains is
  -- usable.
  induction steps generalizing D r disk blocks with
  | nil =>
    refine ⟨D, r, disk, rfl, hd, rfl, ?_, Lengthened.refl D r⟩
    rwa [supplied, List.flatMap_nil, List.append_nil]
  | cons step rest ih =>
    obtain ⟨size, u⟩ := step
    obtain ⟨hle, hmax, hu, hrest⟩ := hs
    have happend : blocks ++ supplied ((size, u) :: rest) = blocks ++ u ++ supplied rest := by
      rw [supplied, List.flatMap_cons, List.append_assoc]
      rfl
    rw [happend] at hb ⊢
    obtain ⟨D₁, r₁, disk₁, hx, hd₁, hsize, hmade, hlong⟩ := h.expanded hd hle hmax hu hb.prefix
    obtain ⟨D', r', disk', hx', hd', hsize', hmade', hlong'⟩ := ih hmade hd₁ (by rwa [hsize]) hb
    refine ⟨D', r', disk', ?_, hd', ?_, hmade', hlong.trans hlong'⟩
    · simp only [Record.expandedEach, Bind.bind, EStateM.bind, hx, hx']
    · rw [hsize', hsize]
      rfl

/-! ## What a record that has grown refers to -/

/-- The pieces of such a record lie on different blocks, all of them supplied, and looking one up finds
its block. -/
theorem MadeOf.blockAt_eq (h : MadeOf D r blocks) (hb : Usable count blocks) (hd : disk.Bears count D)
    {k : Nat} (hk : k < dataBlocks r.length.toNat) :
    pieceIn D r k ≠ 0 ∧ pieceIn D r k ∈ blocks ∧ ∃ disk', r.blockAt k disk = .ok (pieceIn D r k) disk' := by
  have hmem := h.owned.mem_iff.1 (pieceIn_mem hk)
  obtain ⟨disk', hx, -⟩ := ((h.readable hb).blockAt_yields hk).run hd
  exact ⟨(hb.valid _ hmem).1, hmem, disk', hx⟩

theorem MadeOf.pieceIn_injOn (h : MadeOf D r blocks) (hb : Usable count blocks) :
    Set.InjOn (pieceIn D r) {k | k < dataBlocks r.length.toNat} := by
  have hnodup := (List.nodup_append.1 (h.owned.nodup_iff.2 hb.nodup)).1
  intro i hi j hj he
  exact List.inj_on_of_nodup_map hnodup (List.mem_range.2 hi) (List.mem_range.2 hj) he

/-- Emptying such a record gives its blocks back. -/
theorem MadeOf.clear_eq (h : MadeOf D r blocks) (hb : Usable count blocks) (hd : disk.Bears count D) :
    ∃ l disk', r.clear disk = .ok (l, empty r.isDirectory) disk' ∧ l.Perm blocks := by
  have hlist : Yields (Disk.Bears count) D r.clear (_, empty r.isDirectory) D :=
    Yields.map (f := fun l => (l, empty r.isDirectory)) (h.readable hb).ownedBlocks_yields
  obtain ⟨disk', hx, -⟩ := hlist.run hd
  exact ⟨_, disk', hx, (listedIn_perm ..).trans h.owned⟩

/-- `count` numbers from `first` on. -/
def numbers (first count : Nat) : List UInt32 := (List.range' first count).map UInt32.ofNat

theorem numbers_append (first n m : Nat) :
    numbers first n ++ numbers (first + n) m = numbers first (n + m) := by
  rw [numbers, numbers, ← List.map_append, List.range'_append_1]
  rfl

/-- Numbers in a row, from one on and on the device, may be used for blocks. -/
theorem usable_numbers {first n : Nat} (hfirst : 0 < first) (hcount : first + n ≤ count)
    (hword : count ≤ UInt32.size) : Usable count (numbers first n) := by
  have htoNat {i : Nat} (hi : i ∈ List.range' first n) : (UInt32.ofNat i).toNat = i :=
    UInt32.toNat_ofNat_of_lt' (by have := List.mem_range'_1.1 hi; omega)
  refine ⟨List.Nodup.map_on (fun i hi j hj he => ?_) List.nodup_range', fun b hb => ?_⟩
  · rw [← htoNat hi, ← htoNat hj, he]
  · obtain ⟨i, hi, rfl⟩ := List.mem_map.1 hb
    have hmem := List.mem_range'_1.1 hi
    refine ⟨fun h0 => ?_, by rw [htoNat hi]; omega⟩
    have := htoNat hi
    rw [h0] at this
    simp only [UInt32.toNat_zero] at this
    omega

theorem flawless_inMemory (count : Nat) : Disk.Flawless ⟨.inMemory count, .never⟩ :=
  ⟨fun _ _ => rfl, fun _ _ => rfl, fun _ _ => rfl⟩

theorem blockCount_inMemory (count : Nat) : (Device.inMemory count).blockCount = count := by
  simp [Device.inMemory, Device.blockCount]

/-- A record that has grown from nothing in exact steps: after each of them it has the length asked for,
its pieces are on different blocks among those supplied so far and stay there in all later steps, and
emptying it gives back every block supplied so far once and leaves an empty record. -/
theorem clear_of_exact (isDirectory : Bool) (hd : disk.Flawless) (hs : Exact 0 steps)
    (hb : Usable disk.device.blockCount (supplied steps)) :
    ∃ place : Nat → UInt32, ∀ made rest, made ++ rest = steps →
      ∃ r disk', (empty isDirectory).expandedEach made disk = .ok r disk' ∧
        r.length.toNat = lastSize 0 made ∧
        (∀ k, k < dataBlocks r.length.toNat → place k ≠ 0 ∧ place k ∈ supplied made ∧
          ∃ disk'', r.blockAt k disk' = .ok (place k) disk'') ∧
        Set.InjOn place {k | k < dataBlocks r.length.toNat} ∧
        ∃ l disk'', r.clear disk' = .ok (l, empty isDirectory) disk'' ∧ l.Perm (supplied made) := by
  have hempty := madeOf_empty disk.device.block isDirectory
  obtain ⟨D', r', disk', hx, hd', -, -, -⟩ := hempty.expandedEach hd.bears hs hb
  refine ⟨pieceIn D' r', ?_⟩
  rintro made rest rfl
  obtain ⟨hmade, hrest⟩ := hs.append
  rw [supplied_append] at hb
  obtain ⟨D₁, r₁, disk₁, hx₁, hd₁, hsize, hof, hlong⟩ := hempty.expandedEach hd.bears hmade hb.prefix
  -- What the remaining steps come to is where all steps together come to.
  obtain ⟨D₂, r₂, disk₂, hx₂, hd₂, -, -, hlong₂⟩ := hof.expandedEach hd₁ (hsize.symm ▸ hrest) hb
  have hsame : r₂ = r' ∧ disk₂ = disk' := by
    rw [expandedEach_append] at hx
    simp only [Bind.bind, EStateM.bind, hx₁, hx₂] at hx
    cases hx
    exact ⟨rfl, rfl⟩
  obtain ⟨rfl, rfl⟩ := hsame
  obtain rfl : D₂ = D' := hd₂.block.symm.trans hd'.block
  have hkind : r₁.isDirectory = isDirectory := hlong.isDirectory
  obtain ⟨l, disk'', hclear, hperm⟩ := hof.clear_eq hb.prefix hd₁
  refine ⟨r₁, disk₁, hx₁, hsize, fun k hk => ?_, ?_, l, disk'', hkind ▸ hclear, hperm⟩
  · rw [hlong₂.pieces k hk]
    exact hof.blockAt_eq hb.prefix hd₁ hk
  · exact (hof.pieceIn_injOn hb.prefix).congr fun k hk => (hlong₂.pieces k hk).symm

/-- Three lengths that end in the first, the second and the third tier of an index. -/
theorem clear_of_exact_tiers :
    let steps := [(51200, numbers 1 100), (102400, numbers 101 101), (153600, numbers 202 102)]
    let disk : Disk := ⟨.inMemory 304, .never⟩
    (disk.Flawless ∧ Exact 0 steps ∧ Usable disk.device.blockCount (supplied steps)) ∧
      ∃ place : Nat → UInt32, ∀ made rest, made ++ rest = steps →
        ∃ r disk', (empty false).expandedEach made disk = .ok r disk' ∧
          r.length.toNat = lastSize 0 made ∧
          (∀ k, k < dataBlocks r.length.toNat → place k ≠ 0 ∧ place k ∈ supplied made ∧
            ∃ disk'', r.blockAt k disk' = .ok (place k) disk'') ∧
          Set.InjOn place {k | k < dataBlocks r.length.toNat} ∧
          ∃ l disk'', r.clear disk' = .ok (l, empty false) disk'' ∧ l.Perm (supplied made) := by
  intro steps disk
  have hs : Exact 0 steps := by
    simp only [steps, Exact, numbers, List.length_map, List.length_range']
    decide
  -- The three supplies are three hundred numbers in a row, so none occurs twice.
  have hb : Usable disk.device.blockCount (supplied steps) := by
    have hall : supplied steps = numbers 1 303 := by
      simp only [steps, supplied, List.flatMap_cons, List.flatMap_nil, List.append_nil]
      rw [numbers_append 101, numbers_append 1]
    rw [hall, blockCount_inMemory]
    exact usable_numbers (by decide) (by decide) (by decide)
  exact ⟨⟨flawless_inMemory 304, hs, hb⟩, clear_of_exact false (flawless_inMemory 304) hs hb⟩

/-! ## Growing by way of a length in between -/

/-- A record that has grown from nothing in exact steps grows to length `b` in the same way whether it is
first grown to a length `a` in between or not: with the same blocks in the same order, both ways end in the
same record of length `b`, and all blocks of the disk hold the same. Extending alone leaves the length to the
caller, so until it is set it is the one that the last extension began with. -/
theorem expand_split {disk₀ : Disk} {a b : Nat} {first second : List UInt32} (isDirectory : Bool)
    (hd : disk₀.Flawless) (hs : Exact 0 steps)
    (hrun : (empty isDirectory).expandedEach steps disk₀ = .ok r disk)
    (ha : r.length.toNat ≤ a) (hab : a ≤ b) (hb : b ≤ maxFileSize)
    (hall : (first ++ second).length = totalBlocks b - totalBlocks r.length.toNat)
    (hfirst : first.length = totalBlocks a - totalBlocks r.length.toNat)
    (hfresh : Usable disk₀.device.blockCount (supplied steps ++ (first ++ second))) :
    ∃ r₁ disk₁ r₂ disk₂ r' disk',
      r.expand a first disk = (.ok (), r₁, disk₁) ∧
      { r₁ with length := UInt32.ofNat a }.expand b second disk₁ = (.ok (), r₂, disk₂) ∧
      r.expand b (first ++ second) disk = (.ok (), r', disk') ∧
      { r₂ with length := UInt32.ofNat b } = { r' with length := UInt32.ofNat b } ∧
      disk₂.device.block = disk'.device.block ∧
      r₂.length = UInt32.ofNat a ∧ r'.length = r.length := by
  obtain ⟨D, r₀, disk₃, hx, hd₀, -, hof, -⟩ :=
    (madeOf_empty disk₀.device.block isDirectory).expandedEach hd.bears hs hfresh.prefix
  rw [List.nil_append] at hof
  obtain ⟨rfl, rfl⟩ : r₀ = r ∧ disk₃ = disk := by
    rw [hrun] at hx
    cases hx
    exact ⟨rfl, rfl⟩
  have hsize := toNat_ofNat_size (hab.trans hb)
  have hsecond : second.length = totalBlocks b - totalBlocks a := by
    rw [List.length_append] at hall
    have h₁ := totalBlocks_mono ha
    have h₂ := totalBlocks_mono hab
    omega
  have hfresh' := hfresh
  rw [← List.append_assoc] at hfresh'
  obtain ⟨D₁, r₁, hplaced₁, hext₁, hrun₁⟩ := hof.expand_places ha (hab.trans hb) hfirst hfresh'.prefix
  have hof₁ := hof.extended (hab.trans hb) hext₁
  obtain ⟨D₂, r₂, hplaced₂, -, hrun₂⟩ := hof₁.expand_places (hsize.trans_le hab) hb
    (by rwa [hsize]) hfresh'
  obtain ⟨D', r', hplaced, hext, hrun'⟩ := hof.expand_places (ha.trans hab) hb hall hfresh
  -- Placing the pieces up to `b` is placing those up to `a` and then the others.
  have hsplit : Layout.placed ⟨D₁, r₁, second⟩ (dataBlocks a) (dataBlocks b - dataBlocks a) = ⟨D', r', []⟩ := by
    have hca := dataBlocks_mono ha
    have hcb := dataBlocks_mono hab
    have hwhole := hplaced []
    rw [show dataBlocks b - dataBlocks r₀.length.toNat =
        dataBlocks a - dataBlocks r₀.length.toNat + (dataBlocks b - dataBlocks a) by omega,
      Layout.placed_append, List.append_assoc, hplaced₁,
      show dataBlocks r₀.length.toNat + (dataBlocks a - dataBlocks r₀.length.toNat) = dataBlocks a by omega,
      List.append_nil] at hwhole
    exact hwhole
  have hsame : D₂ = D' ∧ r₂ = { r' with length := UInt32.ofNat a } := by
    have hmore := hplaced₂ []
    have hrelength := Layout.placed_relength ⟨D₁, r₁, second⟩ (UInt32.ofNat a) (dataBlocks a)
      (dataBlocks b - dataBlocks a)
    rw [hsplit] at hrelength
    simp only [hsize, List.append_nil] at hmore
    cases hmore.symm.trans hrelength
    exact ⟨rfl, rfl⟩
  obtain ⟨rfl, rfl⟩ := hsame
  obtain ⟨disk₁, hx₁, hd₁⟩ := hrun₁ _ hd₀
  obtain ⟨disk₂, hx₂, hd₂⟩ := hrun₂ _ hd₁
  obtain ⟨disk', hx', hd'⟩ := hrun' _ hd₀
  exact ⟨r₁, disk₁, _, disk₂, r', disk', hx₁, hx₂, hx', rfl, hd₂.block.trans hd'.block.symm, rfl,
    hext.continues.length⟩

/-- The length in between lies in the second tier of the index, the first in the first and the last in the
third. -/
theorem expand_split_tiers :
    let disk₀ : Disk := ⟨.inMemory 304, .never⟩
    ∃ r disk, (empty true).expandedEach [(51200, numbers 1 100)] disk₀ = .ok r disk ∧
      r.length.toNat = 51200 ∧
      ∃ r₁ disk₁ r₂ disk₂ r' disk',
        r.expand 102400 (numbers 101 101) disk = (.ok (), r₁, disk₁) ∧
        { r₁ with length := UInt32.ofNat 102400 }.expand 153600 (numbers 202 102) disk₁ =
          (.ok (), r₂, disk₂) ∧
        r.expand 153600 (numbers 101 101 ++ numbers 202 102) disk = (.ok (), r', disk') ∧
        { r₂ with length := UInt32.ofNat 153600 } = { r' with length := UInt32.ofNat 153600 } ∧
        disk₂.device.block = disk'.device.block ∧
        r₂.length = UInt32.ofNat 102400 ∧ r'.length = r.length := by
  intro disk₀
  have hs : Exact 0 [(51200, numbers 1 100)] := by
    simp only [Exact, numbers, List.length_map, List.length_range']
    decide
  have hfresh : Usable disk₀.device.blockCount
      (supplied [(51200, numbers 1 100)] ++ (numbers 101 101 ++ numbers 202 102)) := by
    simp only [supplied, List.flatMap_cons, List.flatMap_nil, List.append_nil]
    rw [numbers_append 101, numbers_append 1, blockCount_inMemory]
    exact usable_numbers (by decide) (by decide) (by decide)
  obtain ⟨-, r, disk, hrun, -, hsize, -, -⟩ := (madeOf_empty disk₀.device.block true).expandedEach
    (flawless_inMemory 304).bears hs hfresh.prefix
  have hsize : r.length.toNat = 51200 := hsize
  -- From the hundred blocks of the second tier, both ways go on into the third.
  refine ⟨r, disk, hrun, hsize, expand_split true (flawless_inMemory 304) hs hrun ?_ ?_ ?_ ?_ ?_ hfresh⟩
  · rw [hsize]
    decide
  · decide
  · decide
  · rw [hsize, List.length_append]
    simp only [numbers, List.length_map, List.length_range']
    decide
  · rw [hsize]
    simp only [numbers, List.length_map, List.length_range']
    decide

end Record

end InodeVolume
