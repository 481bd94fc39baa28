import InodeVolume.Proofs.Storing

/-!
# Actions on stored inodes

What the actions on stored inodes do to a sound pool. Each changes one inode, and keeps the pool sound
even when it fails: a new inode is stored completely or not at all (`create_leads`), contents grow
completely or not at all (`grow_leads`), and an inode that is given up is gone whatever becomes of its
blocks (`dissolve_leads`).

An action is fair because its blocks come from the inode, from those held or from the free ones. There
are three ways in which the blocks in use change, and a lemma for each: blocks are taken
(`Fair.of_taken`), blocks are given back (`Fair.of_returned`), or blocks are lost (`Fair.of_leak`).
-/

namespace InodeVolume

open Record SpaceMap

/-- The inode with the first `k` bytes of `data` written over its contents. -/
def Node.written (n : Node) (offset : Nat) (data : ByteArray) (k : Nat) : Node :=
  { n with byte := overwrite n.byte offset data k }

/-- Each piece of the contents of `n` lies in `n'` on the block on which it lies in `n`. -/
def Node.Continued (n n' : Node) : Prop :=
  ∀ i, i < Record.dataBlocks n.size → n'.owned[i]? = n.owned[i]?

namespace Pool

variable {K : Regime} {P : Pool} {id : UInt32} {n : Node} {o : Option Node} {held l : List UInt32}
  {st : Store}

/-- A block in use lies in the area of an inode or elsewhere. -/
theorem in_area_or_not (P : Pool) (id : UInt32) (i : Nat) :
    (∃ b ∈ P.area id, b.toNat = i) ∨ ∀ b ∈ P.area id, b.toNat ≠ i := by
  by_cases h : ∃ b ∈ P.area id, b.toNat = i
  · exact .inl h
  · exact .inr fun b hb he => h ⟨b, hb, he⟩

/-- Free blocks have been taken into the area. -/
theorem Fair.of_taken (hP : P.Sound K) (hstored : ∀ n, o = some n → Stored K st.data id n)
    (hplace : o ≠ none → K.Hosts id) (hheld : ∀ b ∈ held, K.Hosts b)
    (harea : ((P.put id o held st).area id).Perm (P.area id ++ l)) (hl : Fresh K P.store l st)
    (hframe : ∀ i, P.store.used i = true → (∀ b ∈ P.area id, b.toNat ≠ i) →
      st.data i = P.store.data i) : Fair K P id o held st := by
  have hkept (i : Nat) (hi : P.store.used i = true) : st.used i = true := by
    rw [hl.used]
    exact marked_eq_true (fun b hb => (hl.free b hb).2) hi
  -- What has been added to the area was free, so it is apart from all that was in use.
  refine ⟨hstored, hplace, hheld, ?_, fun b hb => ?_, fun b hb => ?_, fun i hi => ?_,
    fun i hi _ => hkept i hi, hframe, fun hf i hi => ?_⟩
  · rw [harea.nodup_iff, List.nodup_append]
    refine ⟨hP.nodup id, hl.nodup, fun b hb b' hb' he => ?_⟩
    have hused := hP.used id b hb
    rw [he, (hl.free b' hb').2] at hused
    cases hused
  · rcases List.mem_append.1 (harea.mem_iff.1 hb) with hb | hb
    · exact .inl hb
    · exact .inr (hl.free b hb).2
  · rcases List.mem_append.1 (harea.mem_iff.1 hb) with hb | hb
    · exact hkept _ (hP.used id b hb)
    · rw [hl.used]
      exact marked_of_mem hb
  · exact hkept i (hP.reserved i hi)
  · by_cases hm : ∃ b ∈ l, b.toNat = i
    · obtain ⟨b, hb, he⟩ := hm
      exact .inr ⟨b, harea.mem_iff.2 (List.mem_append_right _ hb), he⟩
    · rw [hl.used, marked_of_not_mem fun b hb he => hm ⟨b, hb, he⟩] at hi
      rcases P.in_area_or_not id i with ⟨b, hb, he⟩ | hout
      · exact .inr ⟨b, harea.mem_iff.2 (List.mem_append_left _ hb), he⟩
      · exact .inl ⟨hi, hout⟩

/-- The area has the blocks that it had. -/
theorem Fair.of_same (hP : P.Sound K) (hstored : ∀ n, o = some n → Stored K st.data id n)
    (hplace : o ≠ none → K.Hosts id) (hheld : ∀ b ∈ held, K.Hosts b)
    (harea : ((P.put id o held st).area id).Perm (P.area id)) (hused : st.used = P.store.used)
    (hframe : ∀ i, P.store.used i = true → (∀ b ∈ P.area id, b.toNat ≠ i) →
      st.data i = P.store.data i) : Fair K P id o held st := by
  refine Fair.of_taken (l := []) hP hstored hplace hheld ?_ ?_ hframe
  · rwa [List.append_nil]
  · exact (Fresh.nil P.store).mono hused

/-- Blocks that nobody uses have been lost. -/
theorem Fair.of_leak (hP : P.Sound K) (hstored : ∀ n, P.nodes id = some n → Stored K st.data id n)
    (hl : Leak K P.store.used st.used)
    (hframe : ∀ i, P.store.used i = true → (∀ b ∈ P.area id, b.toNat ≠ i) →
      st.data i = P.store.data i) : Fair K P id (P.nodes id) P.held st := by
  -- The inode has the same record and the same blocks, so its area is the same.
  have harea : (P.put id (P.nodes id) P.held st).area id = P.area id := by
    rw [area, put_blocks_self, put_held, area, blocks]
  refine ⟨hstored, hP.place id, hP.held, ?_, fun b hb => ?_, fun b hb => ?_, fun i hi => ?_,
    fun i hi _ => hl.kept i hi, hframe, fun hf i hi => ?_⟩
  · rw [harea]
    exact hP.nodup id
  · exact .inl (harea ▸ hb)
  · exact hl.kept _ (hP.used id b (harea ▸ hb))
  · exact hl.kept i (hP.reserved i hi)
  · rw [hl.exact hf] at hi
    rcases P.in_area_or_not id i with ⟨b, hb, he⟩ | hout
    · exact .inr ⟨b, by rwa [harea], he⟩
    · exact .inl ⟨hi, hout⟩

/-- Blocks of the area have been given back. -/
theorem Fair.of_returned {l' : List UInt32} (hP : P.Sound K) (ho : ∀ n, o = some n → P.nodes id = some n)
    (hheld : ∀ b ∈ held, b ∈ P.held) (harea : (P.area id).Perm (l ++ (P.put id o held st).area id))
    (hdata : ∀ b ∈ l, K.IsData b.toNat) (hsub : l'.Sublist l) (hall : ¬K.faulty → l' = l)
    (hst : st = P.store.mark (marked P.store.used l' false)) : Fair K P id o held st := by
  have hn := harea.nodup_iff.1 (hP.nodup id)
  obtain ⟨-, hn', hd⟩ := List.nodup_append.1 hn
  have hin (b : UInt32) (hb : b ∈ (P.put id o held st).area id) : b ∈ P.area id :=
    harea.mem_iff.2 (List.mem_append_right _ hb)
  -- Only bits of the blocks given back are cleared.
  have hkept (i : Nat) (hi : P.store.used i = true) (hout : ∀ b ∈ l, b.toNat ≠ i) :
      st.used i = true := by
    rw [hst, Store.mark_used, marked_of_not_mem fun b hb => hout b (hsub.subset hb)]
    exact hi
  have hsame : st.data = P.store.data := by
    rw [hst, Store.mark_data]
  refine ⟨fun n h => ?_, fun h => ?_, fun b hb => hP.held b (hheld b hb), hn',
    fun b hb => .inl (hin b hb), fun b hb => ?_, fun i hi => ?_, fun i hi hout => ?_,
    fun i _ _ => by rw [hsame], fun hf i hi => ?_⟩
  · rw [hsame]
    exact hP.stored id n (ho n h)
  · obtain ⟨n, hn⟩ := Option.ne_none_iff_exists'.1 h
    exact hP.place id (by simp [ho n hn])
  · exact hkept _ (hP.used id b (hin b hb)) fun b' hb' he =>
      hd b' hb' b hb (UInt32.toNat_inj.1 he)
  · refine hkept i (hP.reserved i hi) fun b hb he => ?_
    have := (hdata b hb).1
    omega
  · exact hkept i hi fun b hb => hout b (harea.mem_iff.2 (List.mem_append_left _ hb))
  · have hl := hall hf
    subst hl
    rw [hst, Store.mark_used, marked] at hi
    split at hi
    · cases hi
    · rename_i hnot
      rcases P.in_area_or_not id i with ⟨b, hb, he⟩ | hout
      · rcases List.mem_append.1 (harea.mem_iff.1 hb) with hb | hb
        · exact absurd (he ▸ List.mem_map_of_mem hb) hnot
        · exact .inr ⟨b, hb, he⟩
      · exact .inl ⟨hi, hout⟩

/-- What an action does to the blocks, if the pool that comes of it is sound. -/
theorem leads_of_shows {α : Type} {x : DiskM α} {post : Except Error α → Pool → Prop}
    (h : P.Sound K → Leads (Shows K) P.store x fun res st' =>
      ∃ P' : Pool, P'.store = st' ∧ P'.Sound K ∧ post res P') : Leads (Holds K) P x post := by
  intro disk hs
  rcases (h hs.sound).run hs.shows with ⟨v, disk', st', hr, hs', P', rfl, hP', hpost⟩ |
    ⟨e, disk', st', hr, hs', P', rfl, hP', hpost⟩
  · rw [hr]
    exact ⟨P', ⟨hs', hP'⟩, hpost⟩
  · rw [hr]
    exact ⟨P', ⟨hs', hP'⟩, hpost⟩

/-! ## Taking and giving back one block -/

theorem put_self_nodes (P : Pool) (id : UInt32) : Function.update P.nodes id (P.nodes id) = P.nodes :=
  Function.update_eq_self id P.nodes

/-- Taking a block, which is held then. -/
theorem take_leads (hK : K.Fits) : Leads (Holds K) P (K.space.allocate 1) fun res P' =>
    (∃ b, res = .ok b ∧ P'.nodes = P.nodes ∧ P'.held = b :: P.held ∧
        K.free P'.store.used + 1 = K.free P.store.used) ∨
      ∃ e, res = .error e ∧ P' = P ∧
        ((e = .outOfSpace ∧ K.free P.store.used = 0) ∨ (K.faulty ∧ e = .device .io)) := by
  refine leads_of_shows fun hP => Leads.mono (allocate_one hK) ?_
  rintro res st' (⟨b, rfl, hb, hfree, hlow, rfl⟩ | ⟨rfl, rfl, hnone⟩ | ⟨hf, rfl, rfl⟩)
  · refine ⟨P.put 0 (P.nodes 0) (b :: P.held) _, rfl, hP.update ?_, .inl ⟨b, rfl,
      put_self_nodes P 0, rfl, K.free_update hb hfree⟩⟩
    -- The block that is taken was free, so it is in no area and is not held.
    refine Fair.of_taken (l := [b]) hP (hP.stored 0) (hP.place 0) ?_ ?_ ?_ fun _ _ _ => rfl
    · intro b' hb'
      rcases List.mem_cons.1 hb' with rfl | hb'
      · exact .inr (hP.free_data hb hfree)
      · exact hP.held b' hb'
    · rw [area, put_blocks_self, put_held, area, blocks, List.perm_iff_count]
      intro b'
      simp only [List.count_append, List.count_cons, List.count_nil]
      omega
    · exact (Fresh.nil _).cons hb hfree hlow rfl
  · exact ⟨P, rfl, hP, .inr ⟨_, rfl, rfl, .inl ⟨rfl, K.free_eq_zero hnone⟩⟩⟩
  · exact ⟨P, rfl, hP, .inr ⟨_, rfl, rfl, .inr ⟨hf, rfl⟩⟩⟩

/-- Giving blocks back that are held. Those that a failing write keeps from being given back are lost. -/
theorem giveBack_leads {x : DiskM Unit} (hheld : P.held = l ++ held) (hdata : ∀ b ∈ l, K.IsData b.toNat)
    (hx : P.Sound K → Leads (Shows K) P.store x fun res st' => ∃ l', Returned K P.store l res l' st') :
    Leads (Holds K) P x fun res P' => P'.nodes = P.nodes ∧ P'.held = held ∧
      ∃ l', Returned K P.store l res l' P'.store := by
  refine leads_of_shows fun hP => Leads.mono (hx hP) ?_
  rintro res st' ⟨l', hl'⟩
  refine ⟨P.put 0 (P.nodes 0) held st', rfl, hP.update ?_, put_self_nodes P 0, rfl, l', hl'⟩
  refine Fair.of_returned (l := l) hP (fun n h => h) (fun b hb => ?_) ?_ hdata hl'.sublist hl'.all hl'.store
  · rw [hheld]
    exact List.mem_append_right _ hb
  · rw [area, area, put_blocks_self, put_held, blocks, hheld, List.perm_iff_count]
    intro b
    simp only [List.count_append]
    omega

theorem Sound.held_ready (hK : K.Fits) (hP : P.Sound K) (hheld : P.held = l ++ held) :
    l.Nodup ∧ ∀ b ∈ l, b.toNat < K.count ∧ P.store.used b.toNat = true := by
  have hin (b : UInt32) (hb : b ∈ l) : b ∈ P.held := by
    rw [hheld]
    exact List.mem_append_left _ hb
  refine ⟨?_, fun b hb => ⟨((hP.held b (hin b hb)).plain hK).1, hP.used 0 b (mem_area_held (hin b hb))⟩⟩
  have hn := (List.nodup_append.1 (hP.nodup 0)).2.1
  rw [hheld] at hn
  exact (List.nodup_append.1 hn).1

theorem releaseEach_held (hK : K.Fits) (hheld : P.held = l ++ held) (hdata : ∀ b ∈ l, K.IsData b.toNat) :
    Leads (Holds K) P (K.space.releaseEach l) fun res P' => P'.nodes = P.nodes ∧ P'.held = held ∧
      ∃ l', Returned K P.store l res l' P'.store :=
  giveBack_leads hheld hdata fun hP =>
    releaseEach_leads hK (hP.held_ready hK hheld).1 (hP.held_ready hK hheld).2

theorem release_held (hK : K.Fits) {b : UInt32} (hheld : P.held = b :: held) (hdata : K.IsData b.toNat) :
    Leads (Holds K) P (K.space.release b 1) fun res P' => P'.nodes = P.nodes ∧ P'.held = held ∧
      ∃ l', Returned K P.store [b] res l' P'.store := by
  refine giveBack_leads (l := [b]) hheld (by simpa using hdata) fun hP => ?_
  obtain ⟨hb, hused⟩ := (hP.held_ready hK (l := [b]) hheld).2 b (List.mem_singleton.2 rfl)
  refine Leads.mono (release_one hK hb hused) ?_
  rintro res st' (⟨rfl, rfl⟩ | ⟨hf, rfl, rfl⟩)
  · refine ⟨[b], List.Sublist.refl _, ?_, .inl ⟨rfl, rfl⟩⟩
    rw [marked_cons, marked_nil]
  · refine ⟨[], List.nil_sublist _, ?_, .inr ⟨hf, (List.cons_ne_nil b []).symm, rfl⟩⟩
    rw [marked_nil]
    rfl

/-! ## Reading and writing -/

theorem load_yields (hK : K.Fits) (hn : P.nodes id = some n) :
    Yields (Holds K) P (Record.load id) n.record P := by
  refine leads_of_shows fun hP => ?_
  have hplain := (hP.place id (by simp [hn])).plain hK
  refine Yields.bind (readBlock_yields hplain) ?_
  rw [(hP.stored id n hn).record]
  exact Leads.pure ⟨P, rfl, hP, rfl, rfl⟩

theorem piece_yields (hn : P.nodes id = some n) {i : Nat} (hi : i < Record.dataBlocks n.size) :
    Yields (Holds K) P (n.record.blockAt i) (n.record.pieceIn P.store.data i) P := by
  refine leads_of_shows fun hP => ?_
  refine Leads.mono (blockAt_yields (hP.stored id n hn).indexed hi) ?_
  rintro res st ⟨rfl, rfl⟩
  exact ⟨P, rfl, hP, rfl, rfl⟩

/-- Reading answers the bytes of the contents, up to their end. -/
theorem read_node_tells (hn : P.nodes id = some n) (offset count : Nat) :
    Tells (Holds K) P (n.record.read offset count)
      (bytesFrom n.byte offset (min count (n.size - offset))) := by
  intro disk hs
  have hstored := hs.sound.stored id n hn
  obtain ⟨v, disk', st', hr, hs', rfl, rfl⟩ := read_tells hstored.indexed offset count disk hs.shows
  refine ⟨_, disk', P, hr, ⟨hs', hs.sound⟩, ?_, rfl⟩
  refine bytesFrom_congr fun i hi => ?_
  -- All bytes of the answer lie inside the blocks of the inode.
  refine hstored.byte _ ?_
  have : n.size ≤ Record.dataBlocks n.size * blockSize := by
    simp only [Record.dataBlocks, blockSize]
    omega
  simp only [Node.size] at *
  omega

/-- Writing over the contents replaces their bytes, all of them or, where writes may fail, the first
so many. -/
theorem write_node_replies (hn : P.nodes id = some n) {offset : Nat} {data : ByteArray}
    (hend : offset + data.size ≤ n.size) :
    Replies (Holds K) P (n.record.write offset data) fun k P' =>
      P'.nodes = Function.update P.nodes id (some (n.written offset data k)) ∧ P'.held = P.held ∧
        P'.store.used = P.store.used ∧ (k = data.size ∨ (K.faulty ∧ k ≤ data.size)) := by
  intro disk hs
  have hstored := hs.sound.stored id n hn
  obtain ⟨k, disk', st', hr, hs', hused, hover, hk⟩ :=
    write_replies hstored.indexed (fun i hi hc => hstored.tail_zero hi hc) hend disk hs.shows
  have hle : k ≤ data.size := by omega
  -- What is written are pieces of the contents. The record and the tables of the index stay.
  have hpiece (i : Nat) (hi : i < Record.dataBlocks n.size) :
      pieceIn P.store.data n.record i ∈ n.owned := hstored.owned ▸ pieceIn_mem hi
  have hframe (i : Nat) (hi : ∀ b ∈ n.owned, b.toNat ≠ i) : st'.data i = P.store.data i :=
    hover.frame i fun j hj => hi _ (hpiece j hj)
  refine ⟨k, disk', P.put id (some (n.written offset data k)) P.held st', hr, ⟨hs', hs.sound.update
    (Fair.of_same hs.sound ?_ (fun _ => hs.sound.place id (by simp [hn])) hs.sound.held ?_ hused ?_)⟩,
    rfl, rfl, hused, hk⟩
  · rintro n' hn'
    cases hn'
    refine ⟨?_, hover.indexed hstored.indexed, ?_, fun i hi => ?_, fun i hi => ?_⟩
    · rw [hframe _ fun b hb he => hs.sound.self_not_owned hn ((UInt32.toNat_inj.1 he : b = id) ▸ hb)]
      exact hstored.record
    · exact hstored.owned.trans (hover.blocksIn_eq hstored.indexed).symm
    · refine (hover.byte i hi).trans ?_
      simp only [overwrite, Node.written, hstored.byte i hi]
    · have hsize : n.size ≤ i := hi
      show overwrite n.byte offset data k i = 0
      rw [overwrite, if_neg (by omega)]
      exact hstored.tail i hi
  · rw [area, put_blocks_self, put_held, area, blocks_of_some hn]
    rfl
  · intro i _ hout
    refine hframe i fun b hb => hout b (mem_area_blocks (mem_blocks_owned hn hb))

/-! ## New and longer contents -/

/-- Why contents were not made or extended. -/
def Refused (K : Regime) (P : Pool) (size count : Nat) (e : Error) : Prop :=
  (e = .fileTooLarge ∧ maxFileSize < size) ∨ (e = .outOfSpace ∧ K.free P.store.used < count) ∨
    (K.faulty ∧ e = .device .io)

/-! An empty record has no blocks. -/

theorem dataBlocks_empty (isDirectory : Bool) : dataBlocks (empty isDirectory).length.toNat = 0 := by
  rw [show (empty isDirectory).length.toNat = 0 from rfl]
  decide

theorem totalBlocks_empty (isDirectory : Bool) : totalBlocks (empty isDirectory).length.toNat = 0 := by
  rw [show (empty isDirectory).length.toNat = 0 from rfl]
  decide

theorem blocksIn_empty (D : Nat → Block) (isDirectory : Bool) :
    blocksIn D (empty isDirectory) (dataBlocks (empty isDirectory).length.toNat) = [] := by
  rw [dataBlocks_empty]
  rfl

/-- An inode whose record was empty and has been extended is stored with zeros as its contents. -/
theorem stored_of_first {r : Record} {isDirectory : Bool} {size : Nat} (hP : P.Sound K) (hmax : size ≤ maxFileSize)
    (h : ExtendedTo K P.store id (empty isDirectory) size l r st) :
    Stored K st.data id ⟨r, blocksIn st.data r (dataBlocks size), fun _ => 0⟩ ∧
      (blocksIn st.data r (dataBlocks size)).Perm l := by
  -- The record was empty, so all its blocks are new.
  have howned : (blocksIn st.data r (dataBlocks size)).Perm l := by
    have := h.owned
    rwa [blocksIn_empty, List.nil_append] at this
  have hsize : (⟨r, blocksIn st.data r (dataBlocks size), fun _ => 0⟩ : Node).size = size := h.length
  refine ⟨⟨h.record, ?_, by rw [hsize], fun i hi => ?_, fun i hi => rfl⟩, howned⟩
  · rw [hsize]
    refine ⟨dataBlocks_le_maxBlocks hmax, fun b hb => ?_, howned.nodup_iff.2 h.fresh.nodup⟩
    have hfree := h.fresh.free b (howned.mem_iff.1 hb)
    exact hP.free_data hfree.1 hfree.2
  · rw [hsize] at hi
    exact h.new i (by rw [dataBlocks_empty, Nat.zero_mul]; exact Nat.zero_le i) hi

/-- Storing a new inode under a block that is held. -/
theorem create_leads (hK : K.Fits) {size : Nat} {isDirectory : Bool} (hn : P.nodes id = none)
    (hheld : P.held = id :: held) :
    Leads (Holds K) P (Record.create K.space id size isDirectory) fun res P' =>
      (∃ n, res = .ok () ∧ P'.nodes = Function.update P.nodes id (some n) ∧ P'.held = held ∧
          n.record.isDirectory = isDirectory ∧ n.size = size ∧ n.byte = (fun _ => 0) ∧
          size ≤ maxFileSize ∧ (∀ b ∈ n.owned, ∀ i, i < b.toNat → P'.store.used i = true) ∧
          K.free P'.store.used + totalBlocks size = K.free P.store.used) ∨
        ∃ e, res = .error e ∧ P'.nodes = P.nodes ∧ P'.held = P.held ∧
          Leak K P.store.used P'.store.used ∧ Refused K P size (totalBlocks size) e := by
  unfold Record.create
  by_cases hmax : maxFileSize < size
  · rw [if_pos hmax]
    exact Leads.throwBind (.inr ⟨_, rfl, rfl, rfl, Leak.refl _, .inl ⟨rfl, hmax⟩⟩)
  rw [if_neg hmax]
  refine leads_of_shows fun hP => ?_
  have hmem : id ∈ P.held := by simp [hheld]
  have hempty := blocksIn_empty P.store.data isDirectory
  have htotal := totalBlocks_empty isDirectory
  -- A new inode is an empty one that is extended.
  have hx : Indexed K P.store.data (empty isDirectory) (dataBlocks (empty isDirectory).length.toNat) := by
    refine ⟨by rw [dataBlocks_empty]; exact Nat.zero_le _, ?_, ?_⟩ <;> rw [hempty]
    · simp
    · exact List.nodup_nil
  refine Leads.bind (extendStored_leads (r := empty isDirectory) hK hP.reserved (Nat.zero_le size)
    (by omega) (by rw [htotal, Nat.add_zero]) hx (by rw [hempty]; simp) ((hP.held id hmem).plain hK)
    (hP.used id id (mem_area_held hmem)) (by rw [hempty]; simp)) ?_ ?_
  · rintro r st' (⟨r', l, hr, hext⟩ | ⟨e, he, -⟩)
    swap
    · cases he
    cases hr
    obtain ⟨hstored, howned⟩ := stored_of_first hP (Nat.le_of_not_lt hmax) hext
    refine Leads.pure ⟨P.put id (some ⟨r, blocksIn st'.data r (dataBlocks size), fun _ => 0⟩) held st',
      rfl, hP.update (Fair.of_taken (l := l) hP ?_ (fun _ => hP.held id hmem) (fun b hb => ?_) ?_
        hext.fresh ?_), .inl ⟨_, rfl, rfl, rfl, hext.isDirectory, hext.length, rfl, by omega,
        fun b hb => hext.fresh.least b (by simpa [hempty] using hext.owned.mem_iff.1 hb), ?_⟩⟩
    · rintro n hn'
      cases hn'
      exact hstored
    · exact hP.held b (by simp [hheld, hb])
    · rw [area, put_blocks_self, put_held, area, blocks_of_none hn, hheld, List.perm_iff_count]
      intro b
      have := List.perm_iff_count.1 howned b
      simp only [Option.elim_some, List.count_append, List.count_cons, List.count_nil] at this ⊢
      omega
    · intro i hi hout
      refine hext.frame i hi (fun he => hout id (mem_area_held hmem) he.symm) ?_
      rw [hempty]
      simp
    · have hfree := K.free_marked hext.fresh.nodup hext.fresh.free
      rw [← hext.fresh.used] at hfree
      have hcount := hext.count
      rw [htotal] at hcount
      rw [put_store]
      omega
  · rintro e st' (⟨r', l, hr, -⟩ | ⟨e', he, hnot, hwhy⟩)
    · cases hr
    cases he
    refine ⟨P.put id (P.nodes id) P.held st', rfl, hP.update (Fair.of_leak hP (fun n' hn' => ?_)
      hnot.leak fun i hi _ => ?_), .inr ⟨e, rfl, put_self_nodes P id, rfl, hnot.leak, .inr hwhy⟩⟩
    · rw [hn] at hn'
      cases hn'
    · refine hnot.frame i hi fun t ht => ?_
      have := table_mem ht
      simp [hempty] at this

/-- An inode whose record could not be extended is stored as before. -/
theorem stored_of_notExtended (hP : P.Sound K) (hn : P.nodes id = some n)
    (h : NotExtended K P.store n.record st) : Stored K st.data id n := by
  have hstored := hP.stored id n hn
  have hx := hstored.indexed
  -- The index is as it was. New tables can have been written only where no block of it lies.
  have hsame : blocksIn st.data n.record (dataBlocks n.size) =
      blocksIn P.store.data n.record (dataBlocks n.size) := h.same.blocksIn_eq
  have howned (b : UInt32) (hb : b ∈ blocksIn P.store.data n.record (dataBlocks n.size)) : b ∈ n.owned :=
    hstored.owned ▸ hb
  refine ⟨?_, ⟨hx.le, ?_, ?_⟩, ?_, fun i hi => ?_, hstored.tail⟩
  · rw [h.frame _ (hP.used id id (mem_area_blocks (mem_blocks_self hn)))]
    · exact hstored.record
    · intro t ht he
      exact hP.self_not_owned hn ((UInt32.toNat_inj.1 he : t = id) ▸ howned t (table_mem ht))
  · rw [hsame]
    exact hx.data
  · rw [hsame]
    exact hx.nodup
  · rw [hsame]
    exact hstored.owned
  · have hc : i / blockSize < dataBlocks n.size := Nat.div_lt_of_lt_mul (by rwa [Nat.mul_comm])
    have hmem := howned _ (pieceIn_mem (D := P.store.data) (r := n.record) hc)
    rw [← hstored.byte i hi, byteIn, byteIn, h.same.pieces _ hc,
      h.frame _ (hP.used id _ (mem_area_blocks (mem_blocks_owned hn hmem)))]
    exact fun t ht he => hx.piece_ne_table hc ht (UInt32.toNat_inj.1 he).symm

/-- An inode whose record has been extended is stored with zeros behind its contents. -/
theorem stored_of_extendedTo {r' : Record} {size : Nat} (hP : P.Sound K) (hn : P.nodes id = some n)
    (hle : n.size ≤ size) (hmax : size ≤ maxFileSize)
    (h : ExtendedTo K P.store id n.record size l r' st) :
    Stored K st.data id ⟨r', blocksIn st.data r' (dataBlocks size), n.byte⟩ ∧
      (blocksIn st.data r' (dataBlocks size)).Perm (n.owned ++ l) := by
  have hstored := hP.stored id n hn
  have hsize : (⟨r', blocksIn st.data r' (dataBlocks size), n.byte⟩ : Node).size = size := h.length
  have hperm : (blocksIn st.data r' (dataBlocks size)).Perm (n.owned ++ l) := hstored.owned ▸ h.owned
  -- The old blocks were in use and the new ones free, so none is there twice.
  refine ⟨⟨h.record, ?_, by rw [hsize], fun i hi => ?_, fun i hi => ?_⟩, hperm⟩
  · rw [hsize]
    refine ⟨dataBlocks_le_maxBlocks hmax, fun b hb => ?_, hperm.nodup_iff.2 ?_⟩
    · rcases List.mem_append.1 (hperm.mem_iff.1 hb) with hb | hb
      · exact hstored.owned_data hb
      · exact hP.free_data (h.fresh.free b hb).1 (h.fresh.free b hb).2
    · refine List.nodup_append.2 ⟨hstored.owned_nodup, h.fresh.nodup, fun b hb b' hb' he => ?_⟩
      have hused := hP.used id b (mem_area_blocks (mem_blocks_owned hn hb))
      rw [he, (h.fresh.free b' hb').2] at hused
      cases hused
  · rw [hsize] at hi
    by_cases hold : i < dataBlocks n.size * blockSize
    · exact (h.old i hold).trans (hstored.byte i hold)
    · refine (h.new i (Nat.le_of_not_lt hold) hi).trans (hstored.tail i ?_).symm
      simp only [dataBlocks, blockSize] at hold
      omega
  · rw [hsize] at hi
    exact hstored.tail i (Nat.le_trans hle hi)

/-- The pieces come first among the blocks of an index, in order. -/
theorem owned_getElem? {D : Nat → Block} (r : Record) {i c : Nat} (hi : i < c) :
    (blocksIn D r c)[i]? = some (pieceIn D r i) := by
  rw [blocksIn, List.getElem?_append_left (by simpa using hi)]
  simp [hi]

/-- An inode whose record has been extended keeps the blocks of its contents, each in its place. -/
theorem continued_of_extendedTo {r' : Record} {size : Nat} (hP : P.Sound K) (hn : P.nodes id = some n)
    (hle : n.size ≤ size) (h : ExtendedTo K P.store id n.record size l r' st) :
    n.Continued ⟨r', blocksIn st.data r' (dataBlocks size), n.byte⟩ := by
  intro i hi
  rw [(hP.stored id n hn).owned, owned_getElem? _ (Nat.lt_of_lt_of_le hi (dataBlocks_mono hle)),
    owned_getElem? _ hi, h.pieces i hi]

/-- Growing the contents of an inode. Contents that are long enough stay as they are. -/
theorem grow_leads (hK : K.Fits) (hn : P.nodes id = some n) (target : Nat) :
    Leads (Holds K) P (n.record.grow K.space id target) fun res P' =>
      (∃ n', res = .ok n'.record ∧ P'.nodes = Function.update P.nodes id (some n') ∧
          P'.held = P.held ∧ n'.record.isDirectory = n.record.isDirectory ∧
          n'.size = max n.size target ∧ n'.byte = n.byte ∧ n.owned ⊆ n'.owned ∧ n.Continued n' ∧
          target ≤ maxFileSize ∧
          K.free P'.store.used + totalBlocks n'.size = K.free P.store.used + totalBlocks n.size) ∨
        ∃ e, res = .error e ∧ P'.nodes = P.nodes ∧ P'.held = P.held ∧
          Leak K P.store.used P'.store.used ∧
          Refused K P target (totalBlocks target - totalBlocks n.size) e := by
  unfold Record.grow
  by_cases hmax : maxFileSize < target
  · rw [if_pos hmax]
    exact Leads.throwBind (.inr ⟨_, rfl, rfl, rfl, Leak.refl _, .inl ⟨rfl, hmax⟩⟩)
  rw [if_neg hmax]
  have hmax : target ≤ maxFileSize := by omega
  by_cases hlong : target ≤ n.record.length.toNat
  · rw [if_pos hlong]
    refine Leads.pure (.inl ⟨n, rfl, ?_, rfl, rfl, ?_, rfl, List.Subset.refl _, fun _ _ => rfl, hmax, rfl⟩)
    · rw [← hn, put_self_nodes]
    · simp only [Node.size]
      omega
  rw [if_neg hlong]
  refine leads_of_shows fun hP => ?_
  have hstored := hP.stored id n hn
  have howned (b : UInt32) (hb : b ∈ blocksIn P.store.data n.record (dataBlocks n.size)) : b ∈ P.area id :=
    mem_area_blocks (mem_blocks_owned hn (hstored.owned ▸ hb))
  have hmono : totalBlocks n.record.length.toNat ≤ totalBlocks target := totalBlocks_mono (by omega)
  -- All that the record owns is in use, so none of the new blocks is among it.
  have hplace := hP.place id (by simp [hn])
  have hself := mem_area_blocks (mem_blocks_self hn)
  refine Leads.mono (extendStored_leads (r := n.record) hK hP.reserved (by omega) hmax
    (Nat.sub_add_cancel hmono) hstored.indexed (fun b hb => hP.used id b (howned b hb))
    (hplace.plain hK) (hP.used id id hself)
    fun hm => hP.self_not_owned hn (hstored.owned ▸ hm)) ?_
  rintro res st' (⟨r', l, rfl, hext⟩ | ⟨e, rfl, hnot, hwhy⟩)
  · have hlen : n.size ≤ target := by simp only [Node.size]; omega
    obtain ⟨hstored', hperm⟩ := stored_of_extendedTo hP hn hlen hmax hext
    refine ⟨P.put id (some ⟨r', blocksIn st'.data r' (dataBlocks target), n.byte⟩) P.held st', rfl,
      hP.update (Fair.of_taken (l := l) hP ?_ (fun _ => hplace) hP.held ?_ hext.fresh ?_),
      .inl ⟨⟨r', blocksIn st'.data r' (dataBlocks target), n.byte⟩, rfl, rfl, rfl, hext.isDirectory,
        ?_, rfl, fun b hb => hperm.mem_iff.2 (List.mem_append_left _ hb), continued_of_extendedTo hP hn hlen hext,
        hmax, ?_⟩⟩
    · rintro n' hn'
      cases hn'
      exact hstored'
    · rw [area, put_blocks_self, put_held, area, blocks_of_some hn, List.perm_iff_count]
      intro b
      have := List.perm_iff_count.1 hperm b
      simp only [Option.elim_some, List.count_append, List.count_cons] at this ⊢
      omega
    · intro i hi hout
      exact hext.frame i hi (fun he => hout id hself he.symm) fun b hb => hout b (howned b hb)
    · have hlength := hext.length
      simp only [Node.size]
      omega
    · have hfree := K.free_marked hext.fresh.nodup hext.fresh.free
      rw [← hext.fresh.used] at hfree
      have hcount := hext.count
      rw [put_store]
      simp only [Node.size, hext.length]
      omega
  · -- A failure leaves the record that is stored, and with it the inode, as it was.
    refine ⟨P.put id (P.nodes id) P.held st', rfl, hP.update (Fair.of_leak hP (fun n' hn' => ?_)
      hnot.leak fun i hi hout => ?_), .inr ⟨e, rfl, put_self_nodes P id, rfl, hnot.leak, .inr hwhy⟩⟩
    · rw [hn] at hn'
      cases hn'
      exact stored_of_notExtended hP hn hnot
    · exact hnot.frame i hi fun t ht => hout t (howned t (table_mem ht))

/-! ## Emptying and giving up -/

/-- A record without blocks is an inode without contents. -/
theorem stored_emptied (isDirectory : Bool) {D : Nat → Block}
    (hD : D id.toNat = (empty isDirectory).encode) :
    Stored K D id ⟨empty isDirectory, [], fun _ => 0⟩ := by
  have hlength : (empty isDirectory).length.toNat = 0 := rfl
  have hzero : dataBlocks (⟨empty isDirectory, [], fun _ => 0⟩ : Node).size = 0 := by
    simp only [Node.size]
    rw [hlength]
    decide
  refine ⟨by rw [hD]; exact decode_encode _, ?_, ?_, fun i hi => ?_, fun _ _ => rfl⟩
  · rw [hzero]
    exact ⟨Nat.zero_le _, (by intro b hb; cases hb), List.nodup_nil⟩
  · rw [hzero]
    rfl
  · rw [hzero, Nat.zero_mul] at hi
    cases hi

/-- Storing the emptied record. The blocks of the contents are held then. -/
theorem truncate_leads (hK : K.Fits) (hn : P.nodes id = some n) :
    Leads (Holds K) P (Record.truncate id n.record) fun res P' =>
      (∃ l n', res = .ok (l, n'.record) ∧ l.Perm n.owned ∧
          P'.nodes = Function.update P.nodes id (some n') ∧ P'.held = l ++ P.held ∧
          P'.store.used = P.store.used ∧ n'.record.isDirectory = n.record.isDirectory ∧
          n'.size = 0 ∧ n'.byte = fun _ => 0) ∨
        (K.faulty ∧ res = .error (.device .io) ∧ P' = P) := by
  refine leads_of_shows fun hP => ?_
  have hstored := hP.stored id n hn
  refine Answers.bind (P := fun v => v.1.Perm n.owned ∧ v.2 = empty n.record.isDirectory) ?_ ?_
  · refine Answers.bind (ownedBlocks_answers hstored.indexed) fun l hl => Answers.pure ⟨?_, rfl⟩
    rw [hstored.owned]
    exact hl
  rintro ⟨l, emptied⟩ ⟨hl, he⟩
  simp only at hl he
  subst he
  have hplace := hP.place id (by simp [hn])
  refine Leads.bind (writeBlock_leads (hplace.plain hK) _) ?_ ?_
  · rintro v st' (⟨-, rfl⟩ | ⟨-, hv, -⟩)
    swap
    · cases hv
    -- The blocks of the contents pass from the inode to those that are held, and no bit of the map changes.
    refine Leads.pure ⟨P.put id (some ⟨empty n.record.isDirectory, [], fun _ => 0⟩) (l ++ P.held) _, rfl,
      hP.update (Fair.of_same hP ?_ (fun _ => hplace) (fun b hb => ?_) ?_ rfl fun i _ hout => ?_),
      .inl ⟨l, ⟨empty n.record.isDirectory, [], fun _ => 0⟩, rfl, hl, rfl, rfl, rfl, rfl, rfl, rfl⟩⟩
    · rintro n' hn'
      cases hn'
      exact stored_emptied _ (Function.update_self ..)
    · rcases List.mem_append.1 hb with hb | hb
      · exact .inr (hstored.owned_data (hl.mem_iff.1 hb))
      · exact hP.held b hb
    · rw [area, put_blocks_self, put_held, area, blocks_of_some hn, List.perm_iff_count]
      intro b
      have := List.perm_iff_count.1 hl b
      simp only [Option.elim_some, List.count_append, List.count_cons, List.count_nil] at this ⊢
      omega
    · exact Function.update_of_ne
        (fun he => hout id (mem_area_blocks (mem_blocks_self hn)) he.symm) _ _
  · rintro e st' (⟨hv, -⟩ | ⟨hf, hv, rfl⟩)
    · cases hv
    · cases hv
      exact ⟨P, rfl, hP, .inr ⟨hf, rfl, rfl⟩⟩

/-- Giving up an inode. It is gone, and its blocks are free unless writes fail. -/
theorem dissolve_leads (hK : K.Fits) (hn : P.nodes id = some n) (hid : K.IsData id.toNat) :
    Leads (Holds K) P (n.record.dissolve K.space id) fun res P' =>
      P'.nodes = Function.update P.nodes id none ∧ P'.held = P.held ∧
        ((res = .ok () ∧
            K.free P'.store.used = K.free P.store.used + (totalBlocks n.size + 1)) ∨ K.faulty) := by
  refine Leads.of_shown fun disk hdisk => ?_
  have hP := hdisk.sound
  have hstored := hP.stored id n hn
  refine Answers.bind (P := fun l => l.Perm n.owned) ?_ fun l hl => ?_
  · refine leads_of_shows fun _ => Leads.mono (ownedBlocks_answers hstored.indexed) ?_
    rintro res st' ⟨⟨l, rfl, hl⟩, rfl⟩
    refine ⟨P, rfl, hP, ⟨l, rfl, ?_⟩, rfl⟩
    rw [hstored.owned]
    exact hl
  -- From here on the inode is gone and its blocks are held.
  have hperm : ((P.put id none (l ++ id :: P.held) P.store).area id).Perm (P.area id) := by
    rw [area, put_blocks_self, put_held, area, blocks_of_some hn, List.perm_iff_count]
    intro b
    have := List.perm_iff_count.1 hl b
    simp only [Option.elim_none, List.count_append, List.count_cons, List.count_nil] at this ⊢
    omega
  have hview : (P.put id none (l ++ id :: P.held) P.store).Sound K := by
    refine hP.update (Fair.of_same hP (fun _ h => by cases h) (fun h => absurd rfl h) (fun b hb => ?_) hperm
      rfl fun _ _ _ => rfl)
    rcases List.mem_append.1 hb with hb | hb
    · exact .inr (hstored.owned_data (hl.mem_iff.1 hb))
    · rcases List.mem_cons.1 hb with rfl | hb
      · exact .inr hid
      · exact hP.held b hb
  have hdata (b : UInt32) (hb : b ∈ l) : K.IsData b.toNat := hstored.owned_data (hl.mem_iff.1 hb)
  have hlen : l.length = totalBlocks n.size := by rw [hl.length_eq, hstored.length_owned]
  refine Leads.of_view (c := P.put id none (l ++ id :: P.held) P.store)
    (fun disk hs => ⟨hs.shows, hview⟩) ?_
  refine Leads.attemptBind (releaseEach_held hK (l := l) rfl hdata) ?_
  rintro contents P₁ ⟨hnodes, hheld, l₁, hcontents⟩
  refine Leads.of_shown fun disk₁ hdisk₁ => ?_
  obtain ⟨-, hready⟩ := hdisk₁.sound.held_ready hK (l := [id]) hheld
  refine Leads.bind (release_held hK hheld hid) ?_ ?_
  · rintro v P₂ ⟨hnodes₂, hheld₂, l₂, hreleased⟩
    refine Leads.resume ⟨hnodes₂.trans hnodes, hheld₂, ?_⟩
    rcases hcontents.outcome with ⟨rfl, rfl⟩ | ⟨hf, -⟩
    · rcases hreleased.outcome with ⟨-, rfl⟩ | ⟨hf, -⟩
      · refine .inl ⟨rfl, ?_⟩
        have hready₀ := hview.held_ready hK (l := l₁) rfl
        rw [hreleased.store, Store.mark_used, K.free_returned (List.nodup_singleton id) hready,
          hcontents.store, Store.mark_used, K.free_returned hready₀.1 hready₀.2, put_store, hlen, Nat.add_assoc]
        rfl
      · exact .inr hf
    · exact .inr hf
  · rintro e P₂ ⟨hnodes₂, hheld₂, l₂, hreleased⟩
    refine ⟨hnodes₂.trans hnodes, hheld₂, .inr ?_⟩
    rcases hreleased.outcome with ⟨he, -⟩ | ⟨hf, -⟩
    · cases he
    · exact hf

end Pool

end InodeVolume
