import InodeVolume.Proofs.Denials
import InodeVolume.Proofs.FailingReads

/-!
# Growing and creating where accesses fail

Contents grow completely or not at all, and an inode is created completely or not at all, whatever accesses
fail on the way. After a failure every inode in use is as it was, and so is what is open
(`Client.Unharmed`): blocks that were taken are given back or lost, but those in use were not written. Where
no access fails, how many blocks are free decides what comes of it (`Client.all_or_nothing_of_asked`).
-/

namespace InodeVolume

open Record SpaceMap

/-! ## Volumes behind faults -/

/-- The pattern in which nothing fails, however far it has run. -/
def Faults.Silent (f : Faults) : Prop := ∀ k id, f.read k id = false ∧ f.write k id = false

section Under

variable {K : Regime} {W : World} {v : Volume} {bad : Nat → Prop}

/-- Without its faults, a volume shows all of what it shows in part. -/
theorem Partly.calmed (hK : K.faulty) (h : Partly bad (Mounts K) W v) : Mounts K W (v.under .never) :=
  blind_mounts hK W _ _ h.shows ⟨⟨rfl, rfl⟩, rfl, rfl⟩ fun _ _ => rfl

/-- The same blocks are in use where the map is the same. -/
theorem Mounts.bit_eq {W' : World} {v' : Volume} {b : Nat} (h : Mounts K W v) (h' : Mounts K W' v')
    (hused : W'.pool.store.used = W.pool.store.used) (hb : b < K.count) :
    bit v'.disk.device b = bit v.disk.device b := by
  rw [h'.disk.bit hb, h.disk.bit hb, hused]

theorem Mounts.under_silent (h : Mounts K W v) {f : Faults} (hf : f.Silent) : Mounts K W (v.under f) where
  disk :=
    { shows := { h.disk.shows with reads := fun k id => (hf k id).1, writes := fun _ k id => (hf k id).2 }
      sound := h.disk.sound }
  space := h.space
  registry := h.registry
  live := h.live

end Under

/-! ## What clients see of a failure -/

namespace Client

/-- Nothing in use tells the volume `v` from that of `c`: every inode in use has the record, the blocks and
the bytes that it had, the registry is the same, and every block in use is marked as used. -/
structure Unharmed (c : Client) (v : Volume) : Prop where
  nodes : ∀ y, c.Uses y → v.disk.device.pool.nodes y = c.pool.nodes y
  registry : ∀ y : UInt32, v.registry[y]? = c.volume.registry[y]?
  blockAt : ∀ y n position, c.Uses y → c.pool.nodes y = some n → position < n.size →
    (v.under .never).blockAt y position = c.volume.blockAt y position
  used : ∀ b, b < c.device.blockCount → bit c.device b = true → bit v.disk.device b = true

/-- The same blocks are free as in the volume of `c`. -/
def SameFree (c : Client) (v : Volume) : Prop :=
  ∀ b, b < c.device.blockCount → bit v.disk.device b = bit c.device b

/-- Inode `x` has become `n'`, on the device as in the registry, and every other inode in use is as it was. -/
structure Changed (c : Client) (x : UInt32) (n' : Node) (v : Volume) : Prop where
  node : v.disk.device.pool.nodes x = some n'
  registry : ∀ y : UInt32, v.registry[y]? =
    if y = x then c.volume.registry[x]?.map fun e => { e with record := n'.record } else c.volume.registry[y]?
  others : ∀ y, c.Uses y → y ≠ x → v.disk.device.pool.nodes y = c.pool.nodes y

section Stands

variable {K : Regime} {W W' : World} {T : Hierarchy} {c : Client} {v : Volume} {x : UInt32} {n n' : Node}
  {bad : Nat → Prop}

/-- Where the world has the same inodes and openings and no block has become free, the client finds nothing
changed. -/
theorem Stands.unharmed (h : c.Stands K W T) (hf : ¬K.faulty) (hnodes : W'.pool.nodes = W.pool.nodes)
    (hopens : W'.opens = W.opens) (hused : ∀ i, W.pool.store.used i = true → W'.pool.store.used i = true)
    (hv : Partly bad (Mounts K.failing) W' v) : c.Unharmed v := by
  have hF := h.fits.failing
  have hcalm := hv.calmed trivial
  -- What may fail for the new world holds no more than for the old one, which is read off once more from
  -- the volume.
  refine ⟨fun y hy => ?_, fun y => ?_, fun y n position hy hn hp => ?_, fun b hb hbit => ?_⟩
  · obtain ⟨n, hn⟩ := Option.ne_none_iff_exists'.1 ((h.uses_iff hf).1 hy)
    rw [h.node hn]
    exact hv.node hF (by rw [hnodes, hn])
  · rw [h.mounts.registry y, World.entry, ← hnodes, ← hopens]
    exact hcalm.registry y
  · have hn' : W.pool.nodes y = some n := by rw [← h.nodes_eq ((h.uses_iff hf).1 hy), hn]
    rw [hcalm.blockAt_owned hF (by rw [hnodes, hn']) hp, h.mounts.blockAt_owned h.fits hn' hp]
  · have hcount : b < K.count := h.mounts.disk.shows.count ▸ hb
    rw [h.mounts.disk.bit hcount] at hbit
    exact (hcalm.disk.bit (K := K.failing) hcount).trans (hused b hbit)

/-- A failure that no failing access has brought about loses no block. -/
theorem Stands.sameFree (h : c.Stands K W T) (hf : ¬K.faulty)
    (hleak : Leak K W.pool.store.used W'.pool.store.used) (hv : Mounts K W' v) : c.SameFree v := fun _ hb =>
  h.mounts.bit_eq hv (hleak.exact hf) (h.mounts.disk.shows.count ▸ hb)

/-- If one inode has changed in the world, then on the volume too, and only that one. -/
theorem Stands.changed (h : c.Stands K W T) (hf : ¬K.faulty) (hb : W.Becomes x n' W')
    (hn : W.pool.nodes x ≠ none) (hv : Partly bad (Mounts K.failing) W' v) : c.Changed x n' v := by
  have hF := h.fits.failing
  refine ⟨hv.node hF hb.node, fun y => ?_, fun y hy hne => ?_⟩
  · have hentry : v.registry[y]? = W'.entry y := (hv.calmed trivial).registry y
    rw [hentry, World.entry, hb.opens]
    -- An entry of the registry changes only by the record of its inode.
    split
    · subst y
      obtain ⟨n, hn⟩ := Option.ne_none_iff_exists'.1 hn
      rw [h.mounts.registry x, World.entry, hb.node, hn]
      cases W.opens x <;> rfl
    · rw [h.mounts.registry y, World.entry, hb.node_of_ne ‹_›]
  · obtain ⟨m, hm⟩ := Option.ne_none_iff_exists'.1 ((h.uses_iff hf).1 hy)
    rw [h.node hm]
    exact hv.node hF (by rw [hb.node_of_ne hne, hm])

end Stands

end Client

/-! ## Growing -/

section Growing

variable {K : Regime} {P : Pool} {W : World} {id : UInt32} {n : Node} {o : Opening} {target : Nat}

theorem Pool.grow_beyond {r : Record} (hmax : maxFileSize < target) :
    Leads (Holds K) P (r.grow K.space id target) fun res P' => res = .error .fileTooLarge ∧ P' = P := by
  unfold Record.grow
  rw [if_pos hmax]
  exact Leads.throwBind ⟨rfl, rfl⟩

theorem Pool.grow_short {r : Record} (hmax : target ≤ maxFileSize) (hlong : target ≤ r.length.toNat) :
    Yields (Holds K) P (r.grow K.space id target) r P := by
  unfold Record.grow
  rw [if_neg (Nat.not_lt.2 hmax), if_pos hlong]
  exact Leads.pure ⟨rfl, rfl⟩

namespace Inode

/-- No contents can be longer than the index allows. -/
theorem grow_beyond (hn : W.pool.nodes id = some n) (ho : W.opens id = some o) (hmax : maxFileSize < target) :
    Leads (Mounts K) W (grow ⟨id⟩ target) fun res W' => res = .error (.failed .fileTooLarge) ∧ W' = W := by
  refine leads_of_bare fun hlive => Yields.bind (entry_of_open hn ho) ?_
  refine Leads.bind (onDisk_leads (Pool.grow_beyond hmax)) ?_ ?_
  · rintro r B ⟨-, res, hr, rfl, -⟩
    cases hr
  · rintro e ⟨P, reg⟩ ⟨rfl, res, hr, rfl, rfl⟩
    cases hr
    exact ⟨W, rfl, rfl, hlive, rfl, rfl⟩

/-- Contents that are long enough stay as they are. -/
theorem grow_short (hn : W.pool.nodes id = some n) (ho : W.opens id = some o) (hmax : target ≤ maxFileSize)
    (hlong : target ≤ n.size) : Yields (Mounts K) W (grow ⟨id⟩ target) () W := by
  refine leads_of_bare fun hlive => Yields.bind (entry_of_open hn ho) ?_
  refine Leads.bind (onDisk_leads (Pool.grow_short hmax hlong)) ?_ ?_
  · rintro r ⟨P, reg⟩ ⟨rfl, res, hr, rfl, rfl⟩
    cases hr
    refine setEntry_leads o hlive hn ⟨rfl, ?_⟩
    rw [← ho]
    exact World.setOpening_opens_self W id
  · rintro e B ⟨-, res, hr, rfl, -⟩
    cases hr

end Inode

end Growing

namespace Client

/-- The contents of inode `x`, which were those of `n`, reach `target` bytes at least. What is new of them is
zero, and what is old lies on the blocks on which it lay. -/
structure Extends (c : Client) (x : UInt32) (n : Node) (target : Nat) (v : Volume) : Prop where
  fits : target ≤ maxFileSize
  grown : ∃ n', c.Changed x n' v ∧ n'.record.isDirectory = n.record.isDirectory ∧
    n'.size = max n.size target ∧ (∀ i, i < n.size → n'.byte i = n.byte i) ∧ ∀ i, n.size ≤ i → n'.byte i = 0
  blockAt : ∀ position, position < n.size →
    (v.under .never).blockAt x position = c.volume.blockAt x position
  free : v.disk.device.free + (totalBlocks target - totalBlocks n.size) = c.device.free

/-- Growing to `target` bytes has succeeded, or nothing has changed. -/
def Grows (c : Client) (x : UInt32) (n : Node) (target : Nat) (res : Except Stop Unit) (v : Volume) : Prop :=
  (res = .ok () ∧ c.Extends x n target v) ∨ ∃ e, res = .error (.failed e) ∧ c.Unharmed v

/-- What growing the contents of `n` comes to where no access fails. -/
structure GrowsExactly (c : Client) (n : Node) (target : Nat) (res : Except Stop Unit) (v : Volume) : Prop where
  tooLarge : res = .error (.failed .fileTooLarge) ↔ maxFileSize < target
  full : res = .error (.failed .outOfSpace) ↔ target ≤ maxFileSize ∧ n.size < target ∧
    c.device.free < totalBlocks target - totalBlocks n.size
  done : res = .ok () ↔ target ≤ maxFileSize ∧
    (n.size < target → totalBlocks target - totalBlocks n.size ≤ c.device.free)
  short : target ≤ n.size → c.Unharmed v
  sameFree : res ≠ .ok () ∨ target ≤ n.size → c.SameFree v

section Grow

variable {K : Regime} {W W' : World} {T : Hierarchy} {c : Client} {v : Volume} {x : UInt32} {n n' : Node}
  {o : Opening} {target : Nat} {f : Faults} {bad : Nat → Prop}

theorem totalBlocks_max_sub (size target : Nat) :
    totalBlocks (max size target) - totalBlocks size = totalBlocks target - totalBlocks size := by
  rcases Nat.le_total size target with hle | hle
  · rw [max_eq_right hle]
  · rw [max_eq_left hle, Nat.sub_self, Nat.sub_eq_zero_of_le (totalBlocks_mono hle)]

/-- What has grown in the world has grown for the client. -/
theorem Stands.extends (h : c.Stands K W T) (hf : ¬K.faulty) (hn : W.pool.nodes x = some n)
    (hb : W.Becomes x n' W') (hg : Inode.Grown K.failing W n target n' W')
    (hv : Partly bad (Mounts K.failing) W' v) : c.Extends x n target v := by
  have hcalm := hv.calmed trivial
  have hsize := hg.size
  refine ⟨hg.le, ⟨n', h.changed hf hb (by simp [hn]) hv, hg.isDirectory, hsize,
    fun i _ => congrFun hg.byte i, fun i hi => ?_⟩, fun position hp => ?_, ?_⟩
  · -- The bytes behind the old end are zeros in the last block, and there is none after it.
    rw [hg.byte]
    exact (h.mounts.disk.sound.stored x n hn).tail i hi
  · rw [hcalm.blockAt_owned h.fits.failing hb.node (by omega), h.mounts.blockAt_owned h.fits hn hp,
      hg.continued _ (piece_lt hp)]
  · have hfree : K.free W'.pool.store.used + totalBlocks n'.size =
        K.free W.pool.store.used + totalBlocks n.size := hg.free
    have hdevice : v.disk.device.free = K.free W'.pool.store.used := hcalm.disk.free
    have hmono : totalBlocks n.size ≤ totalBlocks (max n.size target) := totalBlocks_mono (le_max_left _ _)
    rw [hsize] at hfree
    rw [hdevice, h.mounts.disk.free, ← totalBlocks_max_sub]
    omega

/-- Contents grow or stay, whatever accesses fail. -/
theorem Stands.grows (h : c.Stands K W T) (hf : ¬K.faulty) (hn : W.pool.nodes x = some n)
    (ho : W.opens x = some o) (target : Nat) (f : Faults) :
    let (res, v) := outcome (Inode.grow ⟨x⟩ target) (c.volume.under f)
    c.Grows x n target res v := by
  have hgrow : Leads (Partly f.spoils (Mounts K.failing)) W (Inode.grow ⟨x⟩ target) _ :=
    Leads.of_faithful trivial (Inode.grow_faithful ⟨x⟩ target) (Inode.grow_leads h.fits.failing hn ho target)
  obtain ⟨W', hv, r, htold, ⟨n', rfl, hbecomes, hgrown⟩ | ⟨e, rfl, hstays, -⟩⟩ :=
    hgrow.comes (h.mounts.under f)
  · exact .inl ⟨htold.of_ok, h.extends hf hn hbecomes hgrown hv⟩
  · obtain ⟨e', he'⟩ := htold.of_failed
    exact .inr ⟨e', he', h.unharmed hf hstays.nodes hstays.opens hstays.leak.kept hv⟩

/-- Where no access fails, contents grow unless they would be too long or there is too little room. -/
theorem Stands.grows_exactly (h : c.Stands K W T) (hf : ¬K.faulty) (hn : W.pool.nodes x = some n)
    (ho : W.opens x = some o) (target : Nat) (hs : f.Silent) :
    let (res, v) := outcome (Inode.grow ⟨x⟩ target) (c.volume.under f)
    c.GrowsExactly n target res v := by
  have hv₀ := h.mounts.under_silent hs
  have hkept (v : Volume) (hv : Mounts K W v) : c.Unharmed v ∧ c.SameFree v :=
    ⟨h.unharmed hf rfl rfl (fun _ hi => hi) (hv.under v.disk.faults), h.sameFree hf (Leak.refl _) hv⟩
  -- A target that is refused, one that has been reached already, and one for which the free blocks decide.
  by_cases hmax : maxFileSize < target
  · obtain ⟨W', hv, hres, rfl⟩ := (Inode.grow_beyond hn ho hmax).comes hv₀
    have hsame := hkept _ hv
    simp only [hres]
    refine ⟨by simp [hmax], ?_, ?_, fun _ => hsame.1, fun _ => hsame.2⟩
    · simp [Nat.not_le.2 hmax]
    · simp [Nat.not_le.2 hmax]
  have hmax : target ≤ maxFileSize := Nat.le_of_not_lt hmax
  by_cases hlong : target ≤ n.size
  · obtain ⟨W', hv, hres, rfl⟩ := (Inode.grow_short hn ho hmax hlong).comes hv₀
    have hsame := hkept _ hv
    simp only [hres]
    refine ⟨by simp [hmax], ?_, ?_, fun _ => hsame.1, fun _ => hsame.2⟩
    · simp [Nat.not_lt.2 hlong]
    · simp [hmax, Nat.not_lt.2 hlong]
  have hlong : n.size < target := Nat.lt_of_not_le hlong
  have hfree : c.device.free = K.free W.pool.store.used := h.mounts.disk.free
  have hmono := totalBlocks_mono hlong.le
  obtain ⟨W', hv, hpost⟩ := (Inode.grow_leads h.fits hn ho target).comes hv₀
  rcases hpost with ⟨n', hres, -, hgrown⟩ | ⟨e, hres, hstays, hwhy⟩
  · have hroom := hgrown.free
    rw [hgrown.size, max_eq_right hlong.le, ← hfree] at hroom
    simp only [hres]
    refine ⟨by simp [hmax], ?_, ?_, fun hle => absurd hle (Nat.not_le.2 hlong), fun hno => ?_⟩
    · simp only [reduceCtorEq, false_iff]
      omega
    · simp only [true_iff]
      omega
    · exact absurd rfl (hno.resolve_right (Nat.not_le.2 hlong))
  · rcases hwhy with ⟨-, hlarge⟩ | ⟨rfl, hfew⟩ | ⟨hfaulty, -⟩
    · omega
    · rw [← hfree] at hfew
      simp only [hres]
      refine ⟨by simp [hmax], ?_, ?_, fun hle => absurd hle (Nat.not_le.2 hlong),
        fun _ => h.sameFree hf hstays.leak hv⟩
      · simp [hmax, hlong, hfew]
      · simp only [reduceCtorEq, false_iff]
        omega
    · exact absurd hfaulty hf

end Grow

end Client

/-! ## Creating -/

section Creating

variable {ε σ α A : Type} {R : A → σ → Prop} {a : A} {x : EStateM ε σ α}

/-- The relation `R`, as long as there is something to relate. -/
def Optionally (R : A → σ → Prop) : Option A → σ → Prop
  | some a, s => R a s
  | none, _ => True

theorem Leads.optionally {post : Except ε α → A → Prop} (h : Leads R a x post) :
    Leads (Optionally R) (some a) x fun r o => ∃ b, o = some b ∧ post r b := by
  intro s hs
  rcases h.run hs with ⟨v, s', b, hr, hb, hpost⟩ | ⟨e, s', b, hr, hb, hpost⟩
  · rw [hr]
    exact ⟨some b, hb, b, rfl, hpost⟩
  · rw [hr]
    exact ⟨some b, hb, b, rfl, hpost⟩

theorem Blind.optionally [HoldsDisk σ] (h : Blind R) : Blind (Optionally R)
  | some a, s, t, hs, hlike, hread => h a s t hs hlike hread
  | none, _, _, _, _, _ => trivial

variable {K : Regime} {st : Store} {W : World} {id : UInt32} {size : Nat}

/-- Writing any block: where it lies in the map, nothing is said of what comes of it. -/
theorem writeBlock_optionally (hid : id.toNat < K.count) (b : Block) :
    Leads (Optionally (Shows K)) (some st) (DiskM.writeBlock id.toNat b) fun r o =>
      r = .ok () ∨ ((∃ e, r = .error e) ∧ o = some st) := by
  intro disk hs
  have hs : Shows K st disk := hs
  rw [← hs.count] at hid
  rcases DiskM.writeBlock_cases hid b with ⟨disk', hr, -, -⟩ | ⟨disk', hr, hkept, hdevice, -⟩
  · rw [hr]
    exact ⟨none, trivial, .inl rfl⟩
  · rw [hr]
    exact ⟨some st, hs.of_kept hkept (by rw [hdevice]), .inr ⟨⟨_, rfl⟩, rfl⟩⟩

/-- The record of a new inode is stored last, so if it is not, nothing that was in use has been written. -/
theorem storeNew_optionally {l : List UInt32} (isDirectory : Bool) (hid : id.toNat < K.count)
    (hmax : size ≤ maxFileSize) (hcount : l.length = totalBlocks size) (hnodup : l.Nodup)
    (hall : ∀ b ∈ l, K.IsData b.toNat) :
    Leads (Optionally (Shows K)) (some st) (do
        let grown ← (empty isDirectory).expanded size l
        grown.store id
        pure grown) fun r o => (∃ grown, r = .ok grown) ∨ ((∃ e, r = .error e) ∧ ∃ st', o = some st' ∧
          st'.used = st.used ∧ ∀ i, (∀ b ∈ l, b.toNat ≠ i) → st'.data i = st.data i) := by
  have hempty := Pool.blocksIn_empty st.data isDirectory
  have hnone : tablesIn st.data (empty isDirectory) (dataBlocks (empty isDirectory).length.toNat) = [] :=
    (List.append_eq_nil_iff.1 hempty).2
  have hexpanded : Leads (Shows K) st ((empty isDirectory).expanded size l) _ :=
    expanded_leads (Nat.zero_le size) hmax (by rw [Pool.totalBlocks_empty, hcount, Nat.add_zero])
      (by rwa [hempty]) (by rwa [hempty])
  -- Until the record is stored only blocks of the supply have been written.
  refine Leads.bind hexpanded.optionally ?_ ?_
  · rintro grown o ⟨st₁, rfl, hused, ⟨r', hr, hext⟩ | ⟨-, hr, -⟩⟩
    swap
    · cases hr
    cases hr
    refine Leads.bind (writeBlock_optionally hid _) (fun _ _ _ => Leads.pure (.inl ⟨_, rfl⟩)) ?_
    rintro e o (he | ⟨-, rfl⟩)
    · cases he
    refine .inr ⟨⟨e, rfl⟩, st₁, rfl, hused, fun i hi => hext.frame i fun t ht => hi t ?_⟩
    have hmem := hext.owned.mem_iff.1 (table_mem ht)
    rwa [hempty, List.nil_append] at hmem
  · rintro e o ⟨st₁, rfl, hused, ⟨r', hr, -⟩ | ⟨-, -, hint⟩⟩
    · cases hr
    · exact .inr ⟨⟨e, rfl⟩, st₁, rfl, hused, fun i hi => hint.frame i (by simp [hnone]) hi⟩

/-- Creating an inode under any block that is marked as used: if it fails, what was in use holds what it held. -/
theorem create_optionally (hK : K.Fits) (hres : ∀ i, i < K.dataStart → st.used i = true)
    (hid : id.toNat < K.count) (size : Nat) (isDirectory : Bool) :
    Leads (Optionally (Shows K)) (some st) (Record.create K.space id size isDirectory) fun r o =>
      r = .ok () ∨ ((∃ e, r = .error e) ∧ ∃ st', o = some st' ∧ Leak K st.used st'.used ∧
        ∀ i, st.used i = true → st'.data i = st.data i) := by
  unfold Record.create
  by_cases hmax : maxFileSize < size
  · rw [if_pos hmax]
    exact Leads.throwBind (.inr ⟨⟨_, rfl⟩, st, rfl, Leak.refl _, fun _ _ => rfl⟩)
  rw [if_neg hmax]
  have hmax : size ≤ maxFileSize := Nat.le_of_not_lt hmax
  refine Leads.bind (M := fun r o => (∃ grown, r = .ok grown) ∨ ((∃ e, r = .error e) ∧ ∃ st', o = some st' ∧
    Leak K st.used st'.used ∧ ∀ i, st.used i = true → st'.data i = st.data i)) ?_
    (fun _ _ _ => Leads.pure (.inl rfl)) ?_
  swap
  · rintro e o (⟨grown, he⟩ | ⟨-, hst⟩)
    · cases he
    · exact .inr ⟨⟨e, rfl⟩, hst⟩
  refine Leads.bind (allocateZeroed_leads hK hres _).optionally ?_ ?_
  · rintro l o ⟨st₁, rfl, hdata, ⟨l', hl, hlen, hfresh, -⟩ | ⟨e, he, -⟩⟩
    swap
    · cases he
    cases hl
    -- The blocks that have been taken were free, so nothing that is done to them touches what was in use.
    have hout (i : Nat) (hi : st.used i = true) (b : UInt32) (hb : b ∈ l) : b.toNat ≠ i := by
      rintro rfl
      rw [(hfresh.free b hb).2] at hi
      cases hi
    have hall (b : UInt32) (hb : b ∈ l) : K.IsData b.toNat :=
      ⟨Nat.le_of_not_lt fun hlt => hout _ (hres _ hlt) b hb rfl, (hfresh.free b hb).1⟩
    refine Leads.attemptBind (storeNew_optionally isDirectory hid hmax hlen hfresh.nodup hall) ?_
    rintro r o (⟨grown, rfl⟩ | ⟨⟨e, rfl⟩, st₂, rfl, hused, hframe⟩)
    · exact Leads.pure (.inl ⟨grown, rfl⟩)
    have hready (b : UInt32) (hb : b ∈ l) : b.toNat < K.count ∧ st₂.used b.toNat = true := by
      rw [hused, hfresh.used]
      exact ⟨(hfresh.free b hb).1, marked_of_mem hb⟩
    -- They are given back, and those for which that fails are lost.
    refine Leads.bind (discardEach_leads hK hfresh.nodup hready).optionally ?_ ?_
    · rintro v o ⟨st₃, rfl, -, l', hsub, rfl, hback⟩
      refine Leads.throw (.inr ⟨⟨e, rfl⟩, _, rfl, ?_, fun i hi => ?_⟩)
      · rw [Store.mark_used, hused, hfresh.used]
        exact Leak.of_returned (fun b hb => (hfresh.free b hb).2) hsub hback
      · rw [Store.mark_data, hframe i fun b hb => hout i hi b hb, hdata i hi]
    · rintro e' o ⟨st₃, -, hv, -⟩
      cases hv
  · rintro e o ⟨st₁, rfl, hdata, ⟨l, he, -⟩ | ⟨e', -, hleak, -⟩⟩
    · cases he
    · exact .inr ⟨⟨e, rfl⟩, st₁, rfl, hleak, hdata⟩

/-- After a creation that has failed, all inodes are as they were. -/
theorem Inode.create_optionally (hK : K.Fits) (hid : id.toNat < K.count) (size : Nat) (isDirectory : Bool) :
    Leads (Optionally (Mounts K)) (some W) (create id size isDirectory) fun r o =>
      r = .ok () ∨ ((∃ e, r = .error e) ∧ ∃ W', o = some W' ∧ W'.pool.nodes = W.pool.nodes ∧ W'.opens = W.opens ∧
        Leak K W.pool.store.used W'.pool.store.used ∧
        ∀ i, W.pool.store.used i = true → W'.pool.store.data i = W.pool.store.data i) := by
  rintro ⟨disk, space, registry⟩ hv
  have hv : Mounts K W ⟨disk, space, registry⟩ := hv
  obtain rfl : space = K.space := hv.space
  have hP := hv.disk.sound
  have hcreate := InodeVolume.create_optionally hK hP.reserved hid size isDirectory
  rcases hcreate.run (s := disk) hv.disk.shows with ⟨u, disk', o, hr, ho, hpost⟩ | ⟨e, disk', o, hr, ho, hpost⟩
  · simp only [create, VolumeM.onDisk, hr]
    exact ⟨none, trivial, .inl trivial⟩
  obtain he | ⟨-, st', rfl, hleak, hdata⟩ := hpost
  · cases he
  -- Inodes are as they were, so the pool is what it would be if any of them were stored as it is.
  have hfair : Pool.Fair K W.pool 0 (W.pool.nodes 0) W.pool.held st' :=
    Pool.Fair.of_leak hP (fun n hn => (hP.stored 0 n hn).congr
      (hdata _ (hP.used 0 0 (Pool.mem_area_blocks (Pool.mem_blocks_self hn))))
      fun b hb => hdata _ (hP.used 0 b (Pool.mem_area_blocks (Pool.mem_blocks_owned hn hb))))
      hleak fun i hi _ => hdata i hi
  have hnodes := Pool.put_self_nodes W.pool 0
  obtain ⟨hentry, hlive⟩ := same_of_bare (P := W.pool.put 0 (W.pool.nodes 0) W.pool.held st') hv.live hnodes
  simp only [create, VolumeM.onDisk, hr]
  exact ⟨some ⟨W.pool.put 0 (W.pool.nodes 0) W.pool.held st', W.opens⟩,
    ⟨⟨ho, hP.update hfair⟩, rfl, fun y => by rw [hentry]; exact hv.registry y, hlive⟩,
    .inr ⟨⟨_, rfl⟩, _, rfl, hnodes, rfl, hleak, hdata⟩⟩

theorem Inode.create_beyond (id : UInt32) (isDirectory : Bool) (hmax : maxFileSize < size) :
    Leads (Mounts K) W (create id size isDirectory) fun res W' =>
      res = .error (.failed .fileTooLarge) ∧ W' = W := by
  refine leads_of_bare fun hlive => ?_
  have hrefused : Leads (Holds K) W.pool (Record.create K.space id size isDirectory) fun r P =>
      r = .error .fileTooLarge ∧ P = W.pool := by
    unfold Record.create
    rw [if_pos hmax]
    exact Leads.throwBind ⟨rfl, rfl⟩
  refine Leads.mono (onDisk_leads hrefused) ?_
  rintro res ⟨P, reg⟩ ⟨rfl, r, rfl, rfl, rfl⟩
  exact ⟨W, rfl, rfl, hlive, rfl, rfl⟩

end Creating

/-- A block that is held is not that of an inode. -/
theorem Pool.Sound.nodes_held {K : Regime} {P : Pool} {b : UInt32} (hP : P.Sound K) (hb : b ∈ P.held) :
    P.nodes b = none := by
  by_contra hne
  obtain ⟨n, hn⟩ := Option.ne_none_iff_exists'.1 hne
  exact (List.nodup_append.1 (hP.nodup b)).2.2 b (Pool.mem_blocks_self hn) b hb rfl

namespace Client

/-- What the volume `v` has in common with that of `c` after an inode could not be created. -/
structure NotCreated (c : Client) (v : Volume) : Prop where
  unharmed : c.Unharmed v
  /-- Every block in use but those of the map holds what it held. -/
  block : ∀ b, b < c.device.blockCount → bit c.device b = true → b = 0 ∨ c.device.reserved ≤ b →
    v.disk.device.block b = c.device.block b

/-- What creating an inode of `size` bytes under `s` comes to on the volume `v₁`, on which `s` has been taken for
it, where no access fails. -/
structure CreatesExactly (c : Client) (v₁ : Volume) (s : UInt32) (size : Nat) (isDirectory : Bool)
    (res : Except Stop Unit) (v : Volume) : Prop where
  tooLarge : res = .error (.failed .fileTooLarge) ↔ maxFileSize < size
  full : res = .error (.failed .outOfSpace) ↔ size ≤ maxFileSize ∧ v₁.disk.device.free < totalBlocks size
  done : res = .ok () ↔ size ≤ maxFileSize ∧ totalBlocks size ≤ v₁.disk.device.free
  created : res = .ok () → ∃ n, v.disk.device.pool.nodes s = some n ∧ n.record.isDirectory = isDirectory ∧
    n.size = size ∧ (∀ i, n.byte i = 0) ∧ v.disk.device.free + totalBlocks size = v₁.disk.device.free
  undone : res ≠ .ok () → ∀ b, b < c.device.blockCount → bit v.disk.device b = bit v₁.disk.device b
  others : ∀ y, c.Uses y → y ≠ s ∧ v.disk.device.pool.nodes y = c.pool.nodes y
  registry : ∀ y : UInt32, v.registry[y]? = c.volume.registry[y]?

section Create

variable {K : Regime} {W W' : World} {T : Hierarchy} {c : Client} {v v₁ : Volume} {s : UInt32} {n n' : Node}
  {o : Opening} {size : Nat} {isDirectory : Bool} {f : Faults}

/-- Where creating fails, whatever accesses fail, nothing that was in use has been written. -/
theorem Stands.notCreated (h : c.Stands K W T) (hf : ¬K.faulty) (hs : s.toNat < c.device.blockCount)
    (size : Nat) (isDirectory : Bool) (f : Faults) :
    let (res, v) := outcome (Inode.create s size isDirectory) (c.volume.under f)
    ∀ e, res = .error e → c.NotCreated v ∧ (f.Silent → c.SameFree v) := by
  have hF := h.fits.failing
  have hid : s.toNat < K.count := h.mounts.disk.shows.count ▸ hs
  have hcreate : Leads (Partly f.spoils (Optionally (Mounts K.failing))) (some W)
      (Inode.create s size isDirectory) _ :=
    Leads.of_mimics (blind_mounts trivial).optionally (Inode.create_faithful s size isDirectory)
      (Inode.create_optionally hF hid size isDirectory)
  have hstart := h.mounts.under f
  -- If the run is told a failure then its counterpart has failed as well, and there is a world to speak of.
  obtain ⟨o, hv, r, htold, hpost⟩ := hcreate.comes (s := c.volume.under f) ⟨hstart.shows, hstart.reads⟩
  generalize hres : outcome (Inode.create s size isDirectory) (c.volume.under f) = p at hv htold
  rintro e (he : p.1 = .error e)
  rw [he] at htold
  obtain rfl | ⟨-, W', rfl, hnodes, hopens, hleak, hdata⟩ := hpost
  · cases htold
  have hv' : Partly f.spoils (Mounts K.failing) W' p.2 := ⟨hv.shows, hv.reads⟩
  refine ⟨⟨h.unharmed hf hnodes hopens hleak.kept hv', fun b hb hbit hplace => ?_⟩, fun hsilent => ?_⟩
  · have hcount : b < K.count := h.mounts.disk.shows.count ▸ hb
    rw [h.mounts.disk.reserved] at hplace
    rw [h.mounts.disk.bit hcount] at hbit
    have hplain : K.Plain b := ⟨hcount, fun hmap => hplace.elim (fun h0 => absurd (h0 ▸ hmap.1) (by decide))
      (Nat.not_le.2 hmap.2)⟩
    exact ((hv'.calmed trivial).disk.shows.data b hplain).trans
      ((hdata b hbit).trans (h.mounts.disk.shows.data b hplain).symm)
  · obtain ⟨o, hv, hpost⟩ := (Inode.create_optionally (W := W) h.fits hid size isDirectory).comes
      (h.mounts.under_silent hsilent)
    rw [hres, he] at hpost
    obtain hno | ⟨-, W'', rfl, -, -, hleak'', -⟩ := hpost
    · cases hno
    · exact h.sameFree hf hleak'' (hres ▸ hv)

/-- A mounted volume shows every inode of its pool. -/
theorem shown_node (hK : K.Fits) (hv : Mounts K W v) {x : UInt32} (hn : W.pool.nodes x = some n) :
    v.disk.device.pool.nodes x = some n := by
  have hnodes : v.disk.device.pool.nodes = v.disk.device.node := rfl
  rw [hnodes]
  exact hv.disk.node hK hn

/-- What can be said of everything but `s`, where no inode is. -/
theorem Stands.beside (h : c.Stands K W T) (hf : ¬K.faulty) (hnone : W.pool.nodes s = none)
    (hnodes : ∀ y, y ≠ s → W'.pool.nodes y = W.pool.nodes y) (hopens : W'.opens = W.opens) (hv : Mounts K W' v) :
    (∀ y, c.Uses y → y ≠ s ∧ v.disk.device.pool.nodes y = c.pool.nodes y) ∧
      ∀ y : UInt32, v.registry[y]? = c.volume.registry[y]? := by
  refine ⟨fun y hy => ?_, fun y => ?_⟩
  · obtain ⟨m, hm⟩ := Option.ne_none_iff_exists'.1 ((h.uses_iff hf).1 hy)
    have hne : y ≠ s := by
      rintro rfl
      rw [hnone] at hm
      cases hm
    refine ⟨hne, ?_⟩
    rw [h.node hm]
    exact shown_node h.fits hv (by rw [hnodes y hne, hm])
  · rw [hv.registry y, h.mounts.registry y, World.entry, World.entry, hopens]
    by_cases hy : y = s
    · -- Nothing has it open, as what is open is stored.
      have hclosed : W.opens s = none := by
        by_contra hopen
        exact h.mounts.live s hopen hnone
      rw [hy, hclosed]
      rfl
    · rw [hnodes y hy]

/-- Where no access fails, an inode is created unless it would be too long or there is too little room. -/
theorem Stands.creates_exactly (h : c.Stands K W T) (hf : ¬K.faulty)
    (hs : outcome (VolumeM.allocate 1) c.volume = (.ok s, v₁)) (size : Nat) (isDirectory : Bool) :
    let (res, v) := outcome (Inode.create s size isDirectory) v₁
    c.CreatesExactly v₁ s size isDirectory res v := by
  obtain ⟨W₁, hv₁, htaken⟩ := (VolumeM.allocate_leads h.fits).comes h.mounts
  rw [hs] at hv₁ htaken
  obtain ⟨b, hb, hnodes, hheld, hopens, -⟩ | ⟨e, he, -⟩ := htaken
  swap
  · cases he
  cases hb
  have hnone₁ : W₁.pool.nodes s = none := hv₁.disk.sound.nodes_held (by simp [hheld])
  have hnone : W.pool.nodes s = none := by rw [← hnodes, hnone₁]
  have hcount : c.device.blockCount = K.count := h.mounts.disk.shows.count
  have hfree₁ : v₁.disk.device.free = K.free W₁.pool.store.used := hv₁.disk.free
  -- The length is looked at before any block is taken.
  by_cases hmax : maxFileSize < size
  · obtain ⟨W', hv, hres, rfl⟩ := (Inode.create_beyond s isDirectory hmax).comes hv₁
    obtain ⟨hothers, hregistry⟩ := h.beside hf hnone (fun y _ => congrFun hnodes y) hopens hv
    simp only [hres]
    refine ⟨by simp [hmax], ?_, ?_, nofun, fun _ b hb => hv₁.bit_eq hv rfl (hcount ▸ hb), hothers, hregistry⟩
    · simp [Nat.not_le.2 hmax]
    · simp [Nat.not_le.2 hmax]
  have hmax : size ≤ maxFileSize := Nat.le_of_not_lt hmax
  have hcreate : Leads (Mounts K) W₁ (Inode.create s size isDirectory) _ :=
    Inode.create_leads h.fits hnone₁ hheld
  obtain ⟨W', hv, hpost⟩ := hcreate.comes hv₁
  -- The length is allowed, so the room alone decides.
  rcases hpost with ⟨n, hres, hn', -, hopens', hdir, hsize, hbyte, -, -, hroom⟩ | ⟨e, hres, hstays, hwhy⟩
  · have hn (y : UInt32) (hy : y ≠ s) : W'.pool.nodes y = W.pool.nodes y := by
      rw [hn', Function.update_of_ne hy, hnodes]
    obtain ⟨hothers, hregistry⟩ := h.beside hf hnone hn (hopens'.trans hopens) hv
    have hfree' := hv.disk.free
    simp only [hres]
    refine ⟨by simp [hmax], ?_, ?_, fun _ => ⟨n, shown_node h.fits hv ?_, hdir, hsize, fun i => ?_, ?_⟩,
      fun hno => absurd rfl hno, hothers, hregistry⟩
    · simp only [reduceCtorEq, false_iff]
      omega
    · simp only [true_iff]
      omega
    · rw [hn', Function.update_self]
    · rw [hbyte]
    · rw [hfree', hroom, hfree₁]
  · have hn (y : UInt32) (_ : y ≠ s) : W'.pool.nodes y = W.pool.nodes y := by rw [hstays.nodes, hnodes]
    obtain ⟨hothers, hregistry⟩ := h.beside hf hnone hn (hstays.opens.trans hopens) hv
    rcases hwhy with ⟨-, hlarge⟩ | ⟨rfl, hfew⟩ | ⟨hfaulty, -⟩
    · omega
    · rw [← hfree₁] at hfew
      simp only [hres]
      refine ⟨by simp [hmax], ?_, ?_, nofun,
        fun _ b hb => hv₁.bit_eq hv (hstays.leak.exact hf) (hcount ▸ hb), hothers, hregistry⟩
      · simp [hmax, hfew]
      · simp only [reduceCtorEq, false_iff]
        omega
    · exact absurd hfaulty hf

end Create

/-- Growing an open inode, and creating one under any block, succeeds completely or changes nothing, whatever
accesses fail. Where none fails, it succeeds exactly if the length is allowed and there are as
many free blocks as it takes. -/
theorem all_or_nothing_of_asked {c : Client} {x : UInt32} {e : OpenInode} (h : c.Asked)
    (hx : c.volume.registry[x]? = some e) (target : Nat) (s : UInt32) (hs : s.toNat < c.device.blockCount)
    (size : Nat) (isDirectory : Bool) (f : Faults) :
    (∃ n, c.pool.nodes x = some n ∧ n.record = e.record ∧
      let (res, v) := outcome (Inode.grow ⟨x⟩ target) (c.volume.under f)
      c.Grows x n target res v ∧ (f.Silent → c.GrowsExactly n target res v)) ∧
    (let (res, v) := outcome (Inode.create s size isDirectory) (c.volume.under f)
      ∀ e, res = .error e → c.NotCreated v ∧ (f.Silent → c.SameFree v)) ∧
    ∀ b v₁, outcome (VolumeM.allocate 1) c.volume = (.ok b, v₁) →
      let (res, v) := outcome (Inode.create b size isDirectory) v₁
      c.CreatesExactly v₁ b size isDirectory res v := by
  obtain ⟨K, W, T, hf, ha⟩ := h.abides
  obtain ⟨o, n, ho, hn, rfl⟩ := ha.stands.entry_some hx
  exact ⟨⟨n, ha.stands.node hn, rfl, ha.stands.grows hf hn ho target f,
    fun hsilent => ha.stands.grows_exactly hf hn ho target hsilent⟩,
    ha.stands.notCreated hf hs size isDirectory f,
    fun b v₁ hb => ha.stands.creates_exactly hf hb size isDirectory⟩

/-- A file on a device of eight blocks, where every write but the first fails. -/
theorem all_or_nothing_of_made : ∃ (c : Client) (x : UInt32) (e : OpenInode), c.Asked ∧
    c.volume.registry[x]? = some e ∧ rootInode.toNat < c.device.blockCount ∧
    (∃ n, c.pool.nodes x = some n ∧ n.record = e.record ∧
      let (res, v) := outcome (Inode.grow ⟨x⟩ 600) (c.volume.under (.from none (some 1) [] []))
      c.Grows x n 600 res v ∧
        ((Faults.from none (some 1) [] []).Silent → c.GrowsExactly n 600 res v)) ∧
    (let (res, v) := outcome (Inode.create rootInode 600 false) (c.volume.under (.from none (some 1) [] []))
      ∀ e, res = .error e →
        c.NotCreated v ∧ ((Faults.from none (some 1) [] []).Silent → c.SameFree v)) ∧
    ∀ b v₁, outcome (VolumeM.allocate 1) c.volume = (.ok b, v₁) →
      let (res, v) := outcome (Inode.create b 600 false) v₁
      c.CreatesExactly v₁ b 600 false res v := by
  obtain ⟨-, c, W, -, T, x, -, -, -, hc, hs, hhandles⟩ := exists_made (Nat.zero_le 600)
  have hget : c.handles[0]? = some (.file (.ofInode ⟨x⟩)) := by rw [hhandles]; rfl
  obtain ⟨e, he⟩ := hs.entry_of_handle hget
  -- The block of the root is one of the device, which is all that is asked of the number of the new inode.
  have hroot : rootInode.toNat < c.device.blockCount := by
    rw [hs.mounts.disk.shows.count]
    exact hs.fits.plain_zero.1
  exact ⟨c, x, e, hc, he, hroot, all_or_nothing_of_asked hc he 600 rootInode hroot 600 false _⟩

end Client

end InodeVolume
