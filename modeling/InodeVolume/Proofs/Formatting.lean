import InodeVolume.Proofs.Naming
import Mathlib.Order.Interval.Finset.Nat

/-!
# Formatting

Formatting a disk writes a new space map, whatever the disk held before, and a root directory. A disk
that is formatted shows a world in order whose tree is the root alone (`formats_founded`). Where no access
fails, every disk with a block to spare can be formatted (`formats_exists`).
-/

namespace InodeVolume

-- `^` on numbers is that of the core library, whatever else is known of them.
attribute [local instance (high)] instPowNat

open Record

/-! ## A new space map -/

/-- The disk works under the conditions of `K`, and the first `n` blocks of its map are zero. -/
structure Zeroed (K : Regime) (n : Nat) (disk : Disk) : Prop where
  count : disk.device.blockCount = K.count
  holds : ∀ id, id < K.count → disk.device.holds id = true
  reads : ∀ n id, disk.faults.read n id = false
  writes : ¬K.faulty → ∀ n id, disk.faults.write n id = false
  zero : ∀ k, k < n → disk.device.block (SpaceMap.firstBlock + k) = .zero

variable {K : Regime}

theorem bit_zero (i : Nat) : Block.bit .zero i = false := by
  rw [Block.bit, Block.byte_zero]
  simp

/-- A disk whose map is zero has no block in use. -/
theorem Zeroed.shows {disk : Disk} (h : Zeroed K K.space.blockCount disk) :
    Shows K ⟨fun _ => false, disk.device.block⟩ disk where
  count := h.count
  holds := h.holds
  reads := h.reads
  writes := h.writes
  data _ _ := rfl
  used i hi := by
    rw [SpaceMap.bit, h.zero (i / blockBits) (Nat.div_lt_of_lt_mul (by rwa [Nat.mul_comm])), bit_zero]
  spare _ _ := rfl

theorem zero_leads (hroom : K.dataStart ≤ K.count) (n k : Nat) (hk : k + n ≤ K.space.blockCount) :
    Leads (Zeroed K) k ((List.range' k n).forM fun k => SpaceMap.store k .zero) fun res k' =>
      (res = .ok () ∧ k' = k + n) ∨ (K.faulty ∧ res = .error (.device .io)) := by
  -- The blocks of the map in front of `k` are zero.
  induction n generalizing k with
  | zero => exact Leads.pure (.inl ⟨rfl, rfl⟩)
  | succ n ih =>
    have hstore : Leads (Zeroed K) k (SpaceMap.store k .zero) fun res k' =>
        (res = .ok () ∧ k' = k + 1) ∨ (K.faulty ∧ res = .error (.device .io)) := by
      intro disk hd
      have hid : SpaceMap.firstBlock + k < disk.device.blockCount := by
        rw [hd.count]
        simp only [Regime.dataStart] at hroom
        omega
      rw [SpaceMap.store]
      rcases DiskM.writeBlock_cases hid .zero with ⟨disk', hw, hkept, hb⟩ | ⟨disk', hw, hkept, hb, n, hn⟩
      · rw [hw]
        refine ⟨k + 1, ⟨hkept.count.trans hd.count, fun i hi => hkept.holds i (hd.holds i hi),
          fun n i => by rw [hkept.reads]; exact hd.reads n i,
          fun hf n i => by rw [hkept.writes]; exact hd.writes hf n i, fun j hj => ?_⟩, .inl ⟨rfl, rfl⟩⟩
        rw [hb]
        by_cases he : j = k
        · rw [he, Function.update_self]
        · rw [Function.update_of_ne (by omega)]
          exact hd.zero j (by omega)
      · rw [hw]
        refine ⟨k, ⟨hkept.count.trans hd.count, fun i hi => hkept.holds i (hd.holds i hi),
          fun n i => by rw [hkept.reads]; exact hd.reads n i,
          fun hf n i => by rw [hkept.writes]; exact hd.writes hf n i, fun j hj => ?_⟩, .inr ⟨?_, rfl⟩⟩
        · rw [hb]
          exact hd.zero j hj
        · by_contra hf
          rw [hd.writes hf n _] at hn
          cases hn
    rw [List.range'_succ]
    show Leads (Zeroed K) k (SpaceMap.store k .zero >>= fun _ =>
      (List.range' (k + 1) n).forM fun k => SpaceMap.store k .zero) _
    refine Leads.bind hstore ?_ ?_
    · rintro v k' (⟨-, rfl⟩ | ⟨-, hv⟩)
      · refine Leads.mono (ih (k + 1) (by omega)) ?_
        rintro res k' (⟨rfl, rfl⟩ | hf)
        · exact .inl ⟨rfl, by omega⟩
        · exact .inr hf
      · cases hv
    · rintro e k' (⟨he, -⟩ | ⟨hf, he⟩)
      · cases he
      · cases he
        exact .inr ⟨hf, rfl⟩

/-- The blocks of a disk of which only block 0 and the map are in use. -/
def blankStore (data : Nat → Block) (K : Regime) : Store := ⟨fun i => decide (i < K.dataStart), data⟩

/-- A disk on which nothing is stored yet. -/
def blankPool (data : Nat → Block) (K : Regime) : Pool where
  store := blankStore data K
  nodes _ := none
  held := [rootInode]

theorem blankPool_sound (data : Nat → Block) : (blankPool data K).Sound K := by
  have hblocks (id : UInt32) : (blankPool data K).blocks id = [] := rfl
  have harea (id : UInt32) : (blankPool data K).area id = [rootInode] := rfl
  refine ⟨fun id n h => absurd h (by simp [blankPool]), fun id h => absurd rfl h, fun b hb => ?_,
    fun id => ?_, fun id id' b hb => ?_, fun id b hb => ?_, fun i hi => ?_, fun _ i hi => ?_⟩
  · rw [List.mem_singleton.1 hb]
    exact .inl rfl
  · rw [harea]
    exact List.nodup_singleton _
  · rw [hblocks] at hb
    cases hb
  · rw [harea] at hb
    rw [List.mem_singleton.1 hb]
    exact decide_eq_true K.dataStart_pos
  · exact decide_eq_true hi
  · exact .inl (of_decide_eq_true hi)

/-- A disk while its map is written: anything at first, then a store. -/
def Mapping (K : Regime) : Option Store → Disk → Prop
  | none, disk => Zeroed K 0 disk
  | some st, disk => Shows K st disk

theorem Leads.of_shows {α : Type} {st : Store} {x : DiskM α} {post : Except Error α → Option Store → Prop}
    (h : Leads (Shows K) st x fun r st' => post r (some st')) : Leads (Mapping K) (some st) x post := by
  intro disk hd
  rcases h.run hd with ⟨v, disk', st', hx, hs, hpost⟩ | ⟨e, disk', st', hx, hs, hpost⟩
  · rw [hx]
    exact ⟨some st', hs, hpost⟩
  · rw [hx]
    exact ⟨some st', hs, hpost⟩

/-- Storing zeros in every block of a new map leaves no bit set, unless a write fails. -/
theorem clear_map_leads (hroom : K.dataStart ≤ K.count) :
    Leads (Mapping K) none ((List.range K.space.blockCount).forM fun k => SpaceMap.store k .zero)
      fun res o => (res = .ok () ∧ ∃ data, o = some ⟨fun _ => false, data⟩) ∨
        (K.faulty ∧ ∃ e, res = .error e) := by
  intro disk hd
  rw [List.range_eq_range']
  rcases (zero_leads hroom K.space.blockCount 0 (by omega)).run hd with
    ⟨v, disk', k', hx, hz, ⟨-, rfl⟩ | ⟨-, hv⟩⟩ | ⟨e, disk', k', hx, hz, ⟨he, -⟩ | ⟨hf, -⟩⟩
  · rw [hx]
    rw [Nat.zero_add] at hz
    exact ⟨some _, hz.shows, .inl ⟨rfl, _, rfl⟩⟩
  · cases hv
  · cases he
  · rw [hx]
    exact ⟨none, ⟨hz.count, hz.holds, hz.reads, hz.writes, fun k hk => absurd hk (Nat.not_lt_zero k)⟩,
      .inr ⟨hf, e, rfl⟩⟩

/-- The blocks in front of the data are block zero and those of the map. -/
theorem rangeSet_reserved (n : Nat) :
    rangeSet (rangeSet (fun _ => false) 0 1 true) SpaceMap.firstBlock n true =
      fun i => decide (i < SpaceMap.firstBlock + n) := by
  funext i
  rw [Bool.eq_iff_iff, decide_eq_true_iff]
  simp only [rangeSet, SpaceMap.firstBlock]
  split
  · simp only [true_iff]
    omega
  · split
    · simp only [true_iff]
      omega
    · simp only [Bool.false_eq_true, false_iff]
      omega

/-- Taking a range of free blocks of the map. -/
theorem reserve_leads (hK : K.Fits) {st : Store} (start count : Nat) (hend : start + count ≤ K.count)
    (hfree : ∀ i, start ≤ i → i < start + count → st.used i = false) :
    Leads (Mapping K) (some st) (K.space.setRange start count true) fun res o =>
      (res = .ok () ∧ o = some (st.mark (rangeSet st.used start count true))) ∨
        (K.faulty ∧ ∃ e, res = .error e) := by
  refine Leads.of_shows (Leads.mono (SpaceMap.setRange_leads hK start count true) ?_)
  rintro res st' (⟨rfl, -, -, rfl⟩ | ⟨rfl, -, hlong | ⟨i, hi, hi', hused⟩⟩ | ⟨hf, rfl, -⟩)
  · exact .inl ⟨rfl, rfl⟩
  · omega
  · rw [hfree i hi hi'] at hused
    cases hused
  · exact .inr ⟨hf, _, rfl⟩

/-- Writing a new space map. It is refused only if no block is left for data, unless writes fail. -/
theorem map_leads (hcount : K.count ≤ 2 ^ (32 : Nat)) :
    Leads (Mapping K) none SpaceMap.format fun res o =>
      (res = .ok K.space ∧ K.dataStart < K.count ∧ ∃ data, o = some (blankStore data K)) ∨
        ((K.faulty ∨ K.count ≤ K.dataStart) ∧ ∃ e, res = .error e) := by
  unfold SpaceMap.format
  have hof : Yields (Mapping K) none SpaceMap.ofDevice K.space none := by
    intro disk hd
    refine ⟨none, hd, ?_, rfl⟩
    show Except.ok (⟨disk.device.blockCount⟩ : SpaceMap) = _
    rw [show disk.device.blockCount = K.count from Zeroed.count hd]
    rfl
  refine Yields.bind hof ?_
  by_cases hfull : K.space.bits ≤ SpaceMap.firstBlock + K.space.blockCount
  · rw [if_pos hfull]
    exact Leads.throwBind (.inr ⟨.inr hfull, _, rfl⟩)
  rw [if_neg hfull]
  have hroom : K.dataStart < K.count := Nat.lt_of_not_le hfull
  have hK : K.Fits := ⟨hcount, hroom⟩
  refine Leads.bind (clear_map_leads (Nat.le_of_lt hroom)) ?_ ?_
  swap
  · rintro e o (⟨he, -⟩ | ⟨hf, -⟩)
    · cases he
    · exact .inr ⟨.inl hf, e, rfl⟩
  rintro v o (⟨-, data, rfl⟩ | ⟨-, e, hv⟩)
  swap
  · cases hv
  -- The first block and those of the map are reserved one range after the other.
  refine Leads.bind (reserve_leads hK 0 1 (by omega) fun _ _ _ => rfl) ?_ ?_
  swap
  · rintro e o (⟨he, -⟩ | ⟨hf, -⟩)
    · cases he
    · exact .inr ⟨.inl hf, e, rfl⟩
  rintro v o (⟨-, rfl⟩ | ⟨-, e, hv⟩)
  swap
  · cases hv
  refine Leads.bind (reserve_leads hK SpaceMap.firstBlock K.space.blockCount
    (Nat.le_of_lt hroom) fun i hi _ => ?_) ?_ ?_
  · rw [Store.mark_used, rangeSet, if_neg]
    simp only [SpaceMap.firstBlock] at hi
    omega
  · rintro v o (⟨-, rfl⟩ | ⟨-, e, hv⟩)
    · refine Leads.pure (.inl ⟨rfl, hroom, data, ?_⟩)
      rw [Store.mark_used, rangeSet_reserved]
      rfl
    · cases hv
  · rintro e o (⟨he, -⟩ | ⟨hf, -⟩)
    · cases he
    · exact .inr ⟨.inl hf, e, rfl⟩

/-! ## The root directory -/

/-- The tree of a new volume. -/
def Hierarchy.rootOnly : Hierarchy where
  linked x := x = rootInode
  parent _ := rootInode
  name _ := ""
  depth _ := 0

/-- A directory of zeros has no names. -/
theorem blank_table {m : Node} (hwhole : m.size % slotSize = 0) (hbyte : m.byte = fun _ => 0) :
    m.Tidy ∧ m.child = fun _ => none := by
  have hno (j : Nat) (nm : String) (x : UInt32) : ¬m.EntryAt j nm x := fun hj => by
    have hused := hj.inUse
    simp [Node.slot, Slot.decode, getElem_bytesFrom, hbyte] at hused
  exact ⟨⟨hwhole, fun i j nm x y hi _ => absurd hi (hno i nm x)⟩,
    funext fun nm => Node.child_none_iff.2 fun j x => hno j nm x⟩

section Root

variable {W : World} {m : Node}

/-- A pool in which the root directory is all that is stored has the tree of the root alone. -/
theorem rooted_root {P : Pool} (hm : P.nodes rootInode = some m) (hbud : Volume.Bud rootInode rootInode m) :
    P.Rooted Hierarchy.rootOnly := by
  have hchild : P.child rootInode = m.child := Pool.child_of_node hm hbud.isDirectory
  -- There is one inode, so each clause is about the root.
  refine ⟨rfl, rfl, ?_, ?_, ?_, fun x hx h0 => absurd hx h0, ?_⟩
  · rw [Pool.isDirectory_of_node hm, hbud.isDirectory]
  · rintro x rfl
    simp [hm]
  · rintro x rfl n hn -
    rw [hm] at hn
    cases hn
    exact hbud.tidy
  · rintro d nm x rfl hc
    rw [hchild] at hc
    exact .inl (hbud.own nm x hc)

/-- The root directory `m` is all that is stored. It has no names but its own two, and room for more. -/
structure World.Bare (W : World) (m : Node) : Prop where
  nodes : W.pool.nodes = Function.update (fun _ => none) rootInode (some m)
  isDirectory : m.record.isDirectory = true
  tidy : m.Tidy
  child : m.child = Volume.dots rootInode rootInode
  size : m.size = slotSize * Volume.rootSlots

theorem World.Bare.node {W : World} {m : Node} (h : W.Bare m) : W.pool.nodes rootInode = some m := by
  rw [h.nodes, Function.update_self]

theorem World.Bare.slots {W : World} {m : Node} (h : W.Bare m) : m.slots = Volume.rootSlots := by
  rw [Node.slots, h.size, Nat.mul_div_cancel_left _ (by decide)]

/-- One more name fits into the table of the root as it is. -/
theorem World.Bare.size_linked {W : World} {m : Node} (h : W.Bare m) :
    max m.size (m.vacant * slotSize + slotSize) = m.size := by
  rw [h.tidy.size_linked, h.size, h.slots, Nat.max_eq_left]
  rw [Volume.card_names_dots h.child]
  decide

/-- Where the root is all that is stored there is room in it for every name that is not one of its own. -/
theorem World.Bare.room {K : Regime} {W : World} {m : Node} {name : String} {size denials : Nat}
    {isDirectory : Bool} (h : W.Bare m) (hname : isDotName name = false) (hdenials : denials = 0)
    (hsmall : isDirectory = false → size ≤ maxFileSize)
    (hspace : 1 + (if isDirectory then 1 else totalBlocks size) ≤ K.free W.pool.store.used) :
    Volume.Room K W.pool m denials name size isDirectory := by
  have hsize := h.size_linked
  refine ⟨?_, hdenials, hsmall, ?_, ?_⟩
  · rw [h.child, Volume.dots_none hname]
  · have hle : m.vacant * slotSize + slotSize ≤ m.size := by
      rw [← hsize]
      exact Nat.le_max_right ..
    refine hle.trans ?_
    rw [h.size]
    decide
  · rw [Node.gain, hsize, Nat.sub_self]
    exact hspace

/-- Where the root directory is all that is stored, the blocks in use are those up to the end of the map and those
of the root. -/
theorem used_of_root {P : Pool} (hP : P.Sound K) (hf : ¬K.faulty)
    (hnodes : P.nodes = Function.update (fun _ => none) rootInode (some m)) (hheld : P.held = []) (i : Nat) :
    P.store.used i = true ↔ i < K.dataStart ∨ ∃ b ∈ m.owned, b.toNat = i := by
  have hm : P.nodes rootInode = some m := by rw [hnodes, Function.update_self]
  constructor
  · intro hi
    obtain hlt | ⟨x, b, hb, rfl⟩ := hP.exact hf i hi
    · exact .inl hlt
    rw [Pool.area, hheld, List.append_nil] at hb
    -- The root is the only inode, and where no write fails nothing else is in use.
    by_cases hx : x = rootInode
    · subst hx
      rw [Pool.blocks_of_some hm, List.mem_cons] at hb
      obtain rfl | hb := hb
      · exact .inl K.dataStart_pos
      · exact .inr ⟨b, hb, rfl⟩
    · rw [Pool.blocks_of_none (by rw [hnodes, Function.update_of_ne hx])] at hb
      cases hb
  · rintro (hlt | ⟨b, hb, rfl⟩)
    · exact hP.reserved i hlt
    · exact hP.used rootInode b (Pool.mem_area_blocks (Pool.mem_blocks_owned hm hb))

/-- The root directory `m` is all that is stored. It has no names yet, and no block in front of its contents is
free. -/
structure World.Planted (K : Regime) (W : World) (m : Node) : Prop where
  nodes : W.pool.nodes = Function.update (fun _ => none) rootInode (some m)
  held : W.pool.held = []
  opens : W.opens = fun _ => none
  isDirectory : m.record.isDirectory = true
  size : m.size = Volume.rootSlots * slotSize
  byte : m.byte = fun _ => 0
  least : ∀ b ∈ m.owned, ∀ i, i < b.toNat → W.pool.store.used i = true

theorem World.Planted.node (h : W.Planted K m) : W.pool.nodes rootInode = some m := by
  rw [h.nodes, Function.update_self]

theorem World.Planted.blank (h : W.Planted K m) : m.Tidy ∧ m.child = fun _ => none :=
  blank_table (by rw [h.size]; decide) h.byte

theorem World.Planted.bud (h : W.Planted K m) : Volume.Bud rootInode rootInode m :=
  ⟨h.blank.1, h.isDirectory, fun nm x hx => by rw [h.blank.2] at hx; cases hx⟩

theorem World.Planted.attended (h : W.Planted K m) : W.Attended := fun x o ho => by
  rw [h.opens] at ho
  cases ho

theorem World.Planted.opened (h : W.Planted K m) : (W.opened rootInode).opens rootInode = some ⟨1, false, 0⟩ := by
  rw [World.opened_opens_self, h.opens]
  rfl

/-- The contents of the root have one block, the first one behind the map. -/
theorem World.Planted.owned (h : W.Planted K m) (hP : W.pool.Sound K) (hf : ¬K.faulty) :
    ∃ b : UInt32, m.owned = [b] ∧ b.toNat = K.dataStart := by
  have hstored := hP.stored rootInode m h.node
  have hlength : m.owned.length = 1 := by
    rw [hstored.length_owned, h.size]
    decide
  obtain ⟨b, howned⟩ := List.length_eq_one_iff.1 hlength
  have hb : b ∈ m.owned := by rw [howned]; exact List.mem_singleton_self b
  have hdata : K.IsData b.toNat := hstored.owned_data hb
  refine ⟨b, howned, Nat.le_antisymm (Nat.le_of_not_lt fun hlt => ?_) hdata.1⟩
  -- The first block behind the map would be in use, but then it would be that of the root.
  have hused : W.pool.store.used K.dataStart = true := h.least b hb _ hlt
  obtain hself | ⟨y, hy, hyb⟩ := (used_of_root hP hf h.nodes h.held _).1 hused
  · exact absurd hself (Nat.lt_irrefl _)
  · rw [howned, List.mem_singleton] at hy
    subst hy
    omega

namespace Volume

/-- The root directory `m` is all that is stored, with its own two names, on the first block behind the map. -/
structure Founded (K : Regime) (W : World) (m : Node) : Prop where
  ordered : W.Ordered K Hierarchy.rootOnly
  opens : W.opens = fun _ => none
  bare : W.Bare m
  place : ¬K.faulty → ∀ b ∈ m.owned, b.toNat = K.dataStart

theorem createRoot_eq : Directory.create rootInode rootSlots = Inode.create rootInode (rootSlots * slotSize) true := by
  rw [Directory.create, if_neg (by decide)]

/-- The root directory is stored, unless writes fail. -/
theorem createRoot_leads (hK : K.Fits) (hnodes : W.pool.nodes = fun _ => none)
    (hopens : W.opens = fun _ => none) (hheld : W.pool.held = [rootInode])
    (hfree : 0 < K.free W.pool.store.used) :
    Leads (Mounts K) W (Directory.create rootInode rootSlots) fun res W' =>
      (res = .ok () ∧ ∃ m, W'.Planted K m ∧ K.free W'.pool.store.used + 1 = K.free W.pool.store.used) ∨
        (K.faulty ∧ ∃ e, res = .error e) := by
  -- The table of the root takes one block, and there is one.
  have hone : totalBlocks (rootSlots * slotSize) = 1 := by decide
  rw [createRoot_eq]
  refine Leads.mono (Inode.create_leads hK (by rw [hnodes]) hheld) ?_
  rintro res W₁ (⟨m, rfl, hnodes₁, hheld₁, hopens₁, hdir, hsize, hbyte, -, hleast, hfree₁⟩ |
    ⟨e, rfl, -, ⟨-, hlong⟩ | ⟨-, hlow⟩ | ⟨hf, -⟩⟩)
  · exact .inl ⟨rfl, m, ⟨by rw [hnodes₁, hnodes], hheld₁, hopens₁.trans hopens, hdir, hsize, hbyte, hleast⟩,
      by omega⟩
  · exact absurd hlong (by decide)
  · omega
  · exact .inr ⟨hf, _, rfl⟩

/-- The root gets its own two names, unless writes fail. -/
theorem linkRoot_leads (hK : K.Fits) (h : W.Planted K m) :
    Leads (Mounts K) W (do
      let root ← Directory.openRoot
      let link : VolumeM Unit := do
        root.add "." rootInode
        root.add ".." rootInode
      link.andThen root.close) fun res W' =>
      (res = .ok () ∧ ∃ m', Founded K W' m' ∧ K.free W'.pool.store.used = K.free W.pool.store.used) ∨
        (K.faulty ∧ ∃ e, res = .error e) := by
  refine Leads.of_shown fun v hv => ?_
  have hm := h.node
  obtain ⟨htidy, hchild⟩ := h.blank
  -- The root is a tree of its own as soon as it is stored, even before it has any entry.
  refine Yields.bind (openRoot_yields hK (rooted_root hm h.bud).walkable h.attended) ?_
  refine Leads.andThen (addDots_leads (W := W.opened rootInode) (t := rootInode) hK hm h.opened rfl rfl
    h.isDirectory htidy hchild) ?_ ?_
  · rintro r W₂ ⟨m', -, -, ⟨rfl, -⟩ | ⟨-, e, rfl⟩⟩
    · exact sober_ok
    · exact sober_failed
  · rintro r W₂ ⟨m', hbecomes, hbud', hres⟩
    rw [World.eq_opened hbecomes.opens]
    have hm' := hbecomes.node
    refine Leads.of_shown fun v₂ hv₂ => ?_
    refine Yields.leads (Inode.close_opened (W := ⟨W₂.pool, W.opens⟩) hK hm' (h.attended rootInode)) ⟨rfl, ?_⟩
    obtain ⟨rfl, hdots, hsize', hsub, hfree'⟩ | ⟨hf | ⟨h0, -⟩, e, rfl⟩ := hres
    · have hbare : World.Bare ⟨W₂.pool, W.opens⟩ m' := by
        refine ⟨?_, hbud'.isDirectory, hbud'.tidy, hdots, ?_⟩
        · rw [hbecomes.nodes, World.opened_pool, h.nodes, Function.update_idem]
        · rw [hsize', Node.slots, h.size]
          decide
      rw [if_neg (by rw [h.size]; decide), World.opened_pool] at hfree'
      have hchild' : W₂.pool.child rootInode = m'.child := Pool.child_of_node hm' hbud'.isDirectory
      refine .inl ⟨rfl, m', ⟨⟨rooted_root hm' hbud', ?_, h.attended, hbecomes.held.trans h.held, ?_, ?_⟩, h.opens,
        hbare, fun hf b hb => ?_⟩, by omega⟩
      · rintro - d rfl -
        show W₂.pool.child rootInode "." = _ ∧ W₂.pool.child rootInode ".." = _
        rw [hchild', hdots]
        exact ⟨rfl, rfl⟩
      · rintro x ⟨o, ho, -⟩
        rw [show W.opens = fun _ => none from h.opens] at ho
        cases ho
      · intro _ x hx
        refine .inl ?_
        by_contra hne
        have hne : x ≠ rootInode := hne
        refine hx ?_
        show W₂.pool.nodes x = none
        rw [hbecomes.node_of_ne hne]
        show W.pool.nodes x = none
        rw [h.nodes, Function.update_of_ne hne]
      · -- The root keeps its block, and has no other one.
        obtain ⟨x, howned, hx⟩ := h.owned hv.disk.sound hf
        have hone : m'.owned.length = 1 := by
          rw [(hv₂.disk.sound.stored rootInode m' hm').length_owned, hbare.size]
          decide
        obtain ⟨y, hy⟩ := List.length_eq_one_iff.1 hone
        rw [howned, hy, List.cons_subset, List.mem_singleton] at hsub
        rw [hy, List.mem_singleton] at hb
        rw [hb, ← hsub.1, hx]
    · exact .inr ⟨hf, _, rfl⟩
    · rw [h.size] at h0
      exact absurd h0 (by decide)

/-- A root directory with its own two entries is written, unless writes fail. -/
theorem formatRoot_leads (hK : K.Fits) (hnodes : W.pool.nodes = fun _ => none)
    (hopens : W.opens = fun _ => none) (hheld : W.pool.held = [rootInode])
    (hfree : 0 < K.free W.pool.store.used) :
    Leads (Mounts K) W formatRoot fun res W' =>
      (res = .ok () ∧ ∃ m, Founded K W' m ∧ K.free W'.pool.store.used + 1 = K.free W.pool.store.used) ∨
        (K.faulty ∧ ∃ e, res = .error e) := by
  refine Leads.bind (createRoot_leads hK hnodes hopens hheld hfree) ?_ ?_
  · rintro u W₁ (⟨-, m, h, hfree₁⟩ | ⟨-, e, he⟩)
    swap
    · cases he
    refine Leads.mono (linkRoot_leads hK h) ?_
    rintro res W₂ (⟨rfl, m', h', hfree₂⟩ | hf)
    · exact .inl ⟨rfl, m', h', by omega⟩
    · exact .inr hf
  · rintro e W₁ (⟨he, -⟩ | ⟨hf, -⟩)
    · cases he
    · exact .inr ⟨hf, e, rfl⟩

theorem checkRoot_yields (hK : K.Fits) {T : Hierarchy} (hR : W.pool.Rooted T) (hW : W.Attended) :
    Yields (Mounts K) W checkRoot () W := by
  obtain ⟨n, hn, -⟩ := Pool.isDirectory_node hR.rootDirectory
  exact Yields.trans (openRoot_yields hK hR.walkable hW) (Inode.close_opened hK hn (hW _))

/-- Preparing a formatted disk leaves a world in order whose tree is the root alone. -/
theorem prepare_leads (hK : K.Fits) (hnodes : W.pool.nodes = fun _ => none)
    (hopens : W.opens = fun _ => none) (hheld : W.pool.held = [rootInode])
    (hfree : 0 < K.free W.pool.store.used) :
    Leads (Mounts K) W (prepare true) fun res W' =>
      (res = .ok () ∧ ∃ m, Founded K W' m ∧ K.free W'.pool.store.used + 1 = K.free W.pool.store.used) ∨
        (K.faulty ∧ ∃ e, res = .error e) := by
  refine Leads.bind (formatRoot_leads hK hnodes hopens hheld hfree) ?_ ?_
  · rintro v W₁ (⟨-, m, h, hfree₁⟩ | ⟨-, e, he⟩)
    · exact Yields.leads (checkRoot_yields hK h.ordered.rooted h.ordered.attended) (.inl ⟨rfl, m, h, hfree₁⟩)
    · cases he
  · rintro e W₁ (⟨he, -⟩ | ⟨hf, -⟩)
    · cases he
    · exact .inr ⟨hf, e, rfl⟩

end Volume

end Root

/-! ## Formatting a disk -/

/-- A volume that has been put on a disk, which was formatted for it. -/
def Formats (disk : Disk) (v : Volume) : Prop :=
  ∃ space disk', Volume.mountSpace true disk = .ok space disk' ∧
    Volume.prepare true { disk := disk', space := space } = .ok () v

/-- A volume put on a new space map shows a world in which nothing is stored. -/
theorem blank_mounts {data : Nat → Block} {disk : Disk}
    (hs : Shows K (blankStore data K) disk) :
    Mounts K ⟨blankPool data K, fun _ => none⟩ { disk := disk, space := K.space } :=
  ⟨⟨hs, blankPool_sound data⟩, rfl, fun id => by simp [World.entry], fun _ h => absurd rfl h⟩

/-- On a new space map all blocks behind it are free. -/
theorem blank_free_eq (data : Nat → Block) : K.free (blankStore data K).used = K.count - K.dataStart := by
  have hrange : (Finset.range K.count).filter (fun i => (blankStore data K).used i = false) =
      Finset.Ico K.dataStart K.count := by
    ext i
    simp only [blankStore, Finset.mem_filter, Finset.mem_range, decide_eq_false_iff_not, Finset.mem_Ico]
    omega
  rw [Regime.free, hrange, Nat.card_Ico]

theorem blank_free (hK : K.Fits) (data : Nat → Block) : 0 < K.free (blankStore data K).used := by
  have := hK.room
  rw [blank_free_eq]
  omega

/-- A disk that has been formatted shows a world in order, in which the root is all that is stored. -/
theorem formats_founded (hcount : K.count ≤ 2 ^ (32 : Nat)) {disk : Disk} {v : Volume} (hd : Zeroed K 0 disk)
    (h : Formats disk v) :
    K.Fits ∧ ∃ (W : World) (m : Node), Mounts K W v ∧ Volume.Founded K W m ∧
      K.free W.pool.store.used + (K.dataStart + 1) = K.count := by
  obtain ⟨space, disk', hmap, hprepare⟩ := h
  -- Formatting has come to its end, so neither making the map nor preparing the tree has failed.
  rcases (map_leads hcount).run (R := Mapping K) (a := none) hd with
    ⟨space', d, o, hx, hs, ⟨hspace, hroom, data, rfl⟩ | ⟨-, e, he⟩⟩ | ⟨e, d, o, hx, -⟩
  · have hmap' := hmap.symm.trans hx
    cases hmap'
    cases hspace
    have hK : K.Fits := ⟨hcount, hroom⟩
    rcases (Volume.prepare_leads hK (W := ⟨blankPool data K, fun _ => none⟩) rfl rfl rfl
      (blank_free hK data)).run (blank_mounts hs) with
      ⟨u, v', W, hy, hW, ⟨-, m, hfounded, hfree⟩ | ⟨-, e, he⟩⟩ | ⟨e, v', W, hy, -⟩
    · have hprepare' := hprepare.symm.trans hy
      cases hprepare'
      refine ⟨hK, W, m, hW, hfounded, ?_⟩
      have hblank := blank_free_eq (K := K) data
      have hroom : K.dataStart < K.count := hK.room
      change K.free W.pool.store.used + 1 = K.free (blankStore data K).used at hfree
      omega
    · cases he
    · cases hprepare.symm.trans hy
  · cases he
  · cases hmap.symm.trans hx

/-- A disk with a block to spare gets a new space map if no access fails. -/
theorem mountSpace_formats (hK : K.Fits) (hf : ¬K.faulty) {disk : Disk} (hd : Zeroed K 0 disk) :
    ∃ disk' data, Volume.mountSpace true disk = .ok K.space disk' ∧ Shows K (blankStore data K) disk' := by
  rcases (map_leads hK.count_le).run (R := Mapping K) (a := none) hd with
    ⟨space, disk', o, hx, hs, ⟨hspace, -, data, rfl⟩ | ⟨-, e, he⟩⟩ |
    ⟨e, disk', o, -, -, ⟨he, -⟩ | ⟨hf' | hfull, -⟩⟩
  · cases hspace
    exact ⟨disk', data, hx, hs⟩
  · cases he
  · cases he
  · exact absurd hf' hf
  · exact absurd hK.room (Nat.not_lt.2 hfull)

/-- Such a disk can be formatted. -/
theorem formats_exists (hK : K.Fits) (hf : ¬K.faulty) {disk : Disk} (hd : Zeroed K 0 disk) :
    ∃ v, Formats disk v := by
  obtain ⟨disk', data, hmap, hs⟩ := mountSpace_formats hK hf hd
  rcases (Volume.prepare_leads hK (W := ⟨blankPool data K, fun _ => none⟩) rfl rfl rfl
    (blank_free hK data)).run (blank_mounts hs) with
    ⟨u, v, W, hprepare, -⟩ | ⟨e, v, W, -, -, ⟨he, -⟩ | ⟨hf', -⟩⟩
  · exact ⟨v, K.space, disk', hmap, hprepare⟩
  · cases he
  · exact absurd hf' hf

end InodeVolume
