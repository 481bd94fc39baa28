import InodeVolume.Proofs.Twins

/-!
# Inodes on disks that are alike

What the actions on stored inodes do to two disks that are alike in what is in use (`Twins`). The blocks that an
action reads are those of the map, and those of the inode itself, which are in use. The block of a new inode is
left out of account until its record is stored in it (`Record.create_twins`).
-/

namespace InodeVolume

open Record SpaceMap

variable {K : Regime} {X Y : List UInt32} {st st' : Store} {r : Record} {id : UInt32} {α : Type}

theorem Leads.ofAction {A : Type} {R : A → Disk → Prop} {a : A} {x : DiskAction α} {post : α → A → Prop}
    (h : Replies R a x post) : Leads R a (DiskM.ofAction x) fun res b => ∃ v, res = .ok v ∧ post v b := by
  intro s hs
  obtain ⟨v, s', b, hx, hb, hpost⟩ := h s hs
  simp only [DiskM.ofAction, hx]
  exact ⟨b, hb, v, rfl, hpost⟩

/-- The index of `r` lies in blocks in use of which something is known. -/
structure Record.Seated (K : Regime) (X : List UInt32) (st : Store) (r : Record) : Prop where
  indexed : Indexed K st.data r (dataBlocks r.length.toNat)
  used : ∀ b ∈ blocksIn st.data r (dataBlocks r.length.toNat), st.used b.toNat = true
  known : ∀ b ∈ blocksIn st.data r (dataBlocks r.length.toNat), b ∉ X

section Seated

/-- Stores that are alike have the same in the blocks of an index. -/
theorem Record.Seated.data_eq (h : r.Seated K X st) (ha : st.Alike K X st') {b : UInt32}
    (hb : b ∈ blocksIn st.data r (dataBlocks r.length.toNat)) : st'.data b.toNat = st.data b.toNat := by
  refine ha.data _ (h.indexed.data b hb).plain (h.used b hb) fun x hx he => h.known b hb ?_
  rwa [← UInt32.toNat.inj he]

theorem Record.Seated.indexed_of_alike (h : r.Seated K X st) (ha : st.Alike K X st') :
    Indexed K st'.data r (dataBlocks r.length.toNat) :=
  h.indexed.congr fun _ ht => h.data_eq ha (table_mem ht)

/-- Listing the blocks of an index. -/
theorem Record.Seated.ownedBlocks_twins (hM : K.Mapped) (hf : ¬K.faulty) (h : r.Seated K X st) :
    Echoes (Beside (Shows K) st (Twins K X)) r.ownedBlocks fun _ => Twins K X := by
  refine twins_of_yields (v := listedIn st.data r (dataBlocks r.length.toNat)) hM hf fun st' ha => ?_
  rw [← listedIn_congr fun t ht => h.data_eq ha (table_mem ht)]
  exact ownedBlocks_yields (h.indexed_of_alike ha)

/-- Looking a piece up. -/
theorem Record.Seated.blockAt_twins (hM : K.Mapped) (hf : ¬K.faulty) (h : r.Seated K X st) {i : Nat}
    (hi : i < dataBlocks r.length.toNat) :
    Echoes (Beside (Shows K) st (Twins K X)) (r.blockAt i) fun _ => Twins K X := by
  refine twins_of_yields (v := pieceIn st.data r i) hM hf fun st' ha => ?_
  rw [← pieceIn_congr (fun t ht => h.data_eq ha (table_mem ht)) hi]
  exact blockAt_yields (h.indexed_of_alike ha) hi

/-! ## Extending -/

/-- The blocks left out of account after a record has been stored, or not. -/
def unstored {ε : Type} (X Y : List UInt32) : Except ε α → List UInt32
  | .ok _ => Y
  | .error _ => X

theorem expanded_twins {size : Nat} {l : List UInt32}
    (hle : r.length.toNat ≤ size) (hmax : size ≤ maxFileSize)
    (hcount : l.length + totalBlocks r.length.toNat = totalBlocks size)
    (hnodup : (blocksIn st.data r (dataBlocks r.length.toNat) ++ l).Nodup)
    (hdata : ∀ b ∈ blocksIn st.data r (dataBlocks r.length.toNat) ++ l, K.IsData b.toNat)
    (h : r.Seated K X st) :
    Echoes (Beside (Shows K) st (Twins K X)) (r.expanded size l) fun _ => Twins K X := by
  rintro s t ⟨hs, ht⟩
  have htables : tablesIn s.device.block r (dataBlocks r.length.toNat) =
      tablesIn st.data r (dataBlocks r.length.toNat) :=
    tablesIn_congr fun b hb => hs.data _ (h.indexed.table_data hb).plain
  obtain ⟨hr, hagree⟩ := expanded_echoes hle hmax l s t ⟨ht.agree hs, fun b hb => by
    rw [htables] at hb
    exact ⟨(h.indexed.table_data hb).2, .inr ⟨h.used b (table_mem hb), fun x hx he =>
      h.known b (table_mem hb) (by rwa [← UInt32.toNat.inj he])⟩⟩⟩
  refine ⟨hr, ?_⟩
  -- Extending an index takes no block, so what is known of the disks is known of what is left.
  rcases (expanded_leads hle hmax hcount hnodup hdata).run hs with
    ⟨v, s', st', hx, hs', hused, -⟩ | ⟨e, s', st', hx, hs', hused, -⟩
  · simp only [outcome, hx] at hagree ⊢
    exact .of_agree hs' hagree fun i hi => hi.congr hused.symm
  · simp only [outcome, hx] at hagree ⊢
    exact .of_agree hs' hagree fun i hi => hi.congr hused.symm

/-- Extending a record by blocks that have been taken, and storing it. -/
theorem expandAndStore_twins (hM : K.Mapped) (hf : ¬K.faulty) {size : Nat} {l : List UInt32}
    (hle : r.length.toNat ≤ size) (hmax : size ≤ maxFileSize)
    (hcount : l.length + totalBlocks r.length.toNat = totalBlocks size)
    (hnodup : (blocksIn st.data r (dataBlocks r.length.toNat) ++ l).Nodup)
    (hdata : ∀ b ∈ blocksIn st.data r (dataBlocks r.length.toNat) ++ l, K.IsData b.toNat)
    (h : r.Seated K X st) (hid : K.Plain id.toNat) (hX : ∀ x ∈ X, x = id ∨ x ∈ Y) :
    Echoes (Beside (Shows K) st (Twins K X)) (do
        let grown ← r.expanded size l
        grown.store id
        pure grown) fun res => Twins K (unstored X Y res) := by
  refine Echoes.leadsBind (expanded_leads hle hmax hcount hnodup hdata)
    (expanded_twins hle hmax hcount hnodup hdata h) (fun grown st₁ _ => ?_) fun _ _ _ _ _ h => h
  refine Echoes.leadsBind (writeBlock_leads hid _) (writeBlock_twins (Y := Y) hM hf hid _ fun x hx =>
    (hX x hx).imp_left (congrArg UInt32.toNat)) (fun _ _ _ => Echoes.pure fun _ _ h => h.2) ?_
  rintro e st₂ s t (⟨he, -⟩ | ⟨hfaulty, -⟩)
  · cases he
  · exact absurd hfaulty hf

/-- Extending a stored record. -/
theorem extendStored_twins (hK : K.Fits) (hf : ¬K.faulty) (hres : ∀ i, i < K.dataStart → st.used i = true)
    {size count : Nat} (hle : r.length.toNat ≤ size) (hmax : size ≤ maxFileSize)
    (hcount : count + totalBlocks r.length.toNat = totalBlocks size) (h : r.Seated K X st)
    (hid : K.Plain id.toNat) (hidUsed : st.used id.toNat = true)
    (hidNot : id ∉ blocksIn st.data r (dataBlocks r.length.toNat)) (hX : ∀ x ∈ X, x = id ∨ x ∈ Y) :
    Echoes (Beside (Shows K) st (Twins K X)) (r.extendStored K.space id size count)
      fun res => Twins K (unstored X Y res) := by
  refine Echoes.leadsBind (allocateZeroed_leads hK hres count) (allocateZeroed_twins hK hf hres count) ?_
    fun _ _ _ _ _ h => h
  -- The same blocks are free on both, so the same ones are taken.
  rintro l st₁ ⟨hdata, ⟨l', hl, hlen, hfresh, hzero⟩ | ⟨e, he, -⟩⟩
  swap
  · cases he
  cases hl
  have htaken := taken_of_fresh hres h.indexed h.used hidUsed hidNot hfresh hdata hzero
  have hseated : r.Seated K X st₁ := by
    refine ⟨h.indexed.congr fun t ht => htaken.old t (table_mem ht), ?_, ?_⟩
    · rw [htaken.blocks, hfresh.used]
      exact fun b hb => marked_eq_true (fun b' hb' => (hfresh.free b' hb').2) (h.used b hb)
    · rw [htaken.blocks]
      exact h.known
  refine Echoes.leadsAttempt
    (expandAndStore_leads rfl hle hmax (by rwa [hlen]) htaken.nodup htaken.all hid)
    (expandAndStore_twins (Y := Y) hK.mapped hf hle hmax (by rwa [hlen]) htaken.nodup htaken.all hseated hid
      hX) ?_
  rintro res st₂ ⟨-, ⟨D, r', rfl, -⟩ | ⟨hfaulty, -⟩⟩
  · exact Echoes.pure fun _ _ h => h.2
  · exact absurd hfaulty hf

/-! ## Giving up -/

/-- Giving up an inode. -/
theorem dissolve_twins (hK : K.Fits) (hf : ¬K.faulty) (h : r.Seated K X st) (hid : id.toNat < K.count)
    (hidUsed : st.used id.toNat = true)
    (hidNot : id ∉ blocksIn st.data r (dataBlocks r.length.toNat)) :
    Echoes (Beside (Shows K) st (Twins K X)) (r.dissolve K.space id) fun _ => Twins K X := by
  have hperm := listedIn_perm st.data r (dataBlocks r.length.toNat)
  have hnodup := hperm.nodup_iff.2 h.indexed.nodup
  have hready (b : UInt32) (hb : b ∈ listedIn st.data r (dataBlocks r.length.toNat)) :
      b.toNat < K.count ∧ st.used b.toNat = true :=
    ⟨(h.indexed.data b (hperm.mem_iff.1 hb)).2, h.used b (hperm.mem_iff.1 hb)⟩
  refine Echoes.leadsBind (ownedBlocks_yields h.indexed) (h.ownedBlocks_twins hK.mapped hf) ?_
    fun _ _ _ _ _ h => h
  rintro blocks st₁ ⟨hb, rfl⟩
  obtain rfl := Except.ok.inj hb
  refine Echoes.leadsAttempt (releaseEach_leads hK hnodup hready) (releaseEach_twins hK hf hnodup hready) ?_
  rintro contents st₂ ⟨l', hsub, rfl, -⟩
  refine Echoes.bind (release_twins hK hf hid ?_ fun x hx => .inr hx)
    (fun _ => Echoes.resume fun _ _ h => h) fun _ _ _ h => h
  -- The block of the record is none of those that have been given back.
  rw [Store.mark_used, marked_of_not_mem, hidUsed]
  exact fun b hb he => hidNot (hperm.mem_iff.1 (hsub.mem (by rwa [← UInt32.toNat.inj he])))

/-- Storing the emptied record. -/
theorem truncate_twins (hK : K.Fits) (hf : ¬K.faulty) (h : r.Seated K X st) (hid : K.Plain id.toNat) :
    Echoes (Beside (Shows K) st (Twins K X)) (Record.truncate id r) fun _ => Twins K X := by
  -- The blocks are listed by reading what is in use, so both disks list the same ones.
  have hclear : Echoes (Beside (Shows K) st (Twins K X)) r.clear fun _ s t =>
      ∃ st, Beside (Shows K) st (Twins K X) s t := by
    refine Echoes.leadsBind (ownedBlocks_yields h.indexed) (h.ownedBlocks_twins hK.mapped hf) ?_ ?_
    · exact fun _ st₁ _ => Echoes.pure fun _ _ h => ⟨st₁, h⟩
    · rintro e st₁ s t ⟨he, -⟩ _
      cases he
  refine Echoes.bind hclear (fun v => ?_) fun _ _ _ ⟨_, h⟩ => h.2
  obtain ⟨blocks, emptied⟩ := v
  have hstore (st₁ : Store) : Echoes (Beside (Shows K) st₁ (Twins K X)) (do
      emptied.store id
      pure (blocks, emptied)) fun _ => Twins K X :=
    Echoes.bind (writeBlock_twins hK.mapped hf hid _ fun x hx => .inr hx)
      (fun _ => Echoes.pure fun _ _ h => h) fun _ _ _ h => h
  exact fun s t ⟨st₁, hs⟩ => hstore st₁ s t hs

/-! ## Writing contents -/

/-- What is written in a block of the contents. -/
theorem Record.Overwritten.byte_eq {D D' : Nat → Block} {c first k i j : Nat} {data : ByteArray}
    (h : Overwritten D D' r c first data k) (hx : Indexed K D r c) (hj : j < c) (hi : i < blockSize) :
    (D' (pieceIn D r j).toNat).byte i = overwrite (byteIn D r) first data k (j * blockSize + i) := by
  have hlt : j * blockSize + i < c * blockSize := by
    have := Nat.mul_le_mul_right blockSize (Nat.succ_le_of_lt hj)
    rw [Nat.succ_mul] at this
    omega
  rw [← h.byte _ hlt, byteIn, Nat.add_comm, Nat.add_mul_div_right _ _ (by decide), Nat.div_eq_of_lt hi,
    Nat.zero_add, Nat.add_mul_mod_self_right, Nat.mod_eq_of_lt hi, h.pieceIn_eq hx hj]

/-- Writing over the contents writes the same in the same blocks. -/
theorem write_twins (hM : K.Mapped) (hf : ¬K.faulty) (h : r.Seated K X st)
    (hzero : ∀ i, r.length.toNat ≤ i → i < dataBlocks r.length.toNat * blockSize → byteIn st.data r i = 0)
    {offset : Nat} {data : ByteArray} (hend : offset + data.size ≤ r.length.toNat) :
    Echoes (Beside (Shows K) st (Twins K X)) (DiskM.ofAction (r.write offset data)) fun _ => Twins K X := by
  have hbytes {st' : Store} (ha : st.Alike K X st') {i : Nat}
      (hi : i < dataBlocks r.length.toNat * blockSize) : byteIn st'.data r i = byteIn st.data r i :=
    byteIn_congr (fun b hb => h.data_eq ha hb) hi
  have hpiece {st' : Store} (ha : st.Alike K X st') {j : Nat} (hj : j < dataBlocks r.length.toNat) :
      pieceIn st'.data r j = pieceIn st.data r j :=
    pieceIn_congr (fun t ht => h.data_eq ha (table_mem ht)) hj
  refine twins_of_leads hM hf (fun st' ha => Leads.ofAction (write_replies (h.indexed_of_alike ha)
    (fun i hi hlt => (hbytes ha hlt).trans (hzero i hi hlt)) hend)) ?_
  rintro st' _ st₁ _ st₁' ha ⟨k, rfl, hused, hover, hk⟩ ⟨k', rfl, hused', hover', hk'⟩
  obtain rfl := hk.resolve_right fun hk => hf hk.1
  obtain rfl := hk'.resolve_right fun hk => hf hk.1
  refine ⟨rfl, hused'.trans (ha.used.trans hused.symm), fun i hi hu hX => ?_⟩
  rw [hused] at hu
  -- A block is one of the pieces and holds the same bytes over the same contents, or it is as it was.
  by_cases hin : ∃ j, j < dataBlocks r.length.toNat ∧ (pieceIn st.data r j).toNat = i
  · obtain ⟨j, hj, rfl⟩ := hin
    refine Block.ext_byte fun m hm => ?_
    have hlt : j * blockSize + m < dataBlocks r.length.toNat * blockSize := by
      have := Nat.mul_le_mul_right blockSize (Nat.succ_le_of_lt hj)
      rw [Nat.succ_mul] at this
      omega
    rw [hover.byte_eq h.indexed hj hm, ← hpiece ha hj, hover'.byte_eq (h.indexed_of_alike ha) hj hm,
      overwrite, overwrite, hbytes ha hlt]
  · have hout (j : Nat) (hj : j < dataBlocks r.length.toNat) : (pieceIn st.data r j).toNat ≠ i :=
      fun he => hin ⟨j, hj, he⟩
    rw [hover.frame i hout, hover'.frame i fun j hj => by rw [hpiece ha hj]; exact hout j hj]
    exact ha.data i hi hu hX

end Seated

/-! ## Inodes of a pool -/

namespace Pool

variable {P : Pool} {n : Node} {held : List UInt32} {T : Disk → Disk → Prop}
  {T' : Except Error α → Disk → Disk → Prop} {x : DiskM α}

/-- That a pool is sound may be used. -/
theorem echoes_of_sound (h : P.Sound K → Echoes (Beside (Shows K) P.store T) x T') :
    Echoes (Beside (Holds K) P T) x T' := fun s t hs => h hs.1.sound s t ⟨hs.1.shows, hs.2⟩

/-- The blocks of a stored inode are in use, and none of those that are held. -/
theorem Sound.seated (hP : P.Sound K) (hn : P.nodes id = some n) (hX : ∀ x ∈ X, x ∈ P.held) :
    n.record.Seated K X P.store := by
  have hstored := hP.stored id n hn
  have howned := hstored.owned
  rw [Node.size] at howned
  refine ⟨hstored.indexed, fun b hb => ?_, fun b hb hx => ?_⟩
  · exact hP.used id b (mem_area_blocks (mem_blocks_owned hn (howned ▸ hb)))
  · exact (List.nodup_append.1 (hP.nodup id)).2.2 _ (mem_blocks_owned hn (howned ▸ hb)) _ (hX b hx) rfl

theorem Sound.number_used (hP : P.Sound K) (hn : P.nodes id = some n) : P.store.used id.toNat = true :=
  hP.used id id (mem_area_blocks (mem_blocks_self hn))

theorem Sound.number_not_mem (hP : P.Sound K) (hn : P.nodes id = some n) :
    id ∉ blocksIn P.store.data n.record (dataBlocks n.record.length.toNat) := by
  have h := hP.self_not_owned hn
  rwa [(hP.stored id n hn).owned] at h

/-- Giving back blocks that are held. -/
theorem releaseEach_twins {l : List UInt32} (hK : K.Fits) (hf : ¬K.faulty) (hheld : P.held = l ++ held) :
    Echoes (Beside (Holds K) P (Twins K X)) (K.space.releaseEach l) fun _ => Twins K X :=
  echoes_of_sound fun hP =>
    InodeVolume.releaseEach_twins hK hf (hP.held_ready hK hheld).1 (hP.held_ready hK hheld).2

/-- Giving up an inode. -/
theorem dissolve_twins (hK : K.Fits) (hf : ¬K.faulty) (hn : P.nodes id = some n) (hX : ∀ x ∈ X, x ∈ P.held) :
    Echoes (Beside (Holds K) P (Twins K X)) (n.record.dissolve K.space id) fun _ => Twins K X :=
  echoes_of_sound fun hP => InodeVolume.dissolve_twins hK hf (hP.seated hn hX)
    ((hP.place id (by simp [hn])).plain hK).1 (hP.number_used hn) (hP.number_not_mem hn)

theorem blockAt_twins (hK : K.Fits) (hf : ¬K.faulty) (hn : P.nodes id = some n) (hX : ∀ x ∈ X, x ∈ P.held)
    {i : Nat} (hi : i < dataBlocks n.size) :
    Echoes (Beside (Holds K) P (Twins K X)) (n.record.blockAt i) fun _ => Twins K X :=
  echoes_of_sound fun hP => (hP.seated hn hX).blockAt_twins hK.mapped hf hi

theorem truncate_twins (hK : K.Fits) (hf : ¬K.faulty) (hn : P.nodes id = some n) (hX : ∀ x ∈ X, x ∈ P.held) :
    Echoes (Beside (Holds K) P (Twins K X)) (Record.truncate id n.record) fun _ => Twins K X :=
  echoes_of_sound fun hP => InodeVolume.truncate_twins hK hf (hP.seated hn hX)
    ((hP.place id (by simp [hn])).plain hK)

/-- Writing over the contents of an inode. -/
theorem write_twins (hK : K.Fits) (hf : ¬K.faulty) (hn : P.nodes id = some n) (hX : ∀ x ∈ X, x ∈ P.held)
    {offset : Nat} {data : ByteArray} (hend : offset + data.size ≤ n.size) :
    Echoes (Beside (Holds K) P (Twins K X)) (DiskM.ofAction (n.record.write offset data)) fun _ => Twins K X :=
  echoes_of_sound fun hP => InodeVolume.write_twins hK.mapped hf (hP.seated hn hX)
    (fun _ hi hlt => (hP.stored id n hn).tail_zero hi hlt) hend

/-- Storing a new inode under a block that is held. -/
theorem create_twins (hK : K.Fits) (hf : ¬K.faulty) {size : Nat} {isDirectory : Bool}
    (hheld : P.held = id :: held) :
    Echoes (Beside (Holds K) P (Twins K [id])) (Record.create K.space id size isDirectory)
      fun res => Twins K (unstored [id] [] res) := by
  unfold Record.create
  by_cases hmax : maxFileSize < size
  · rw [if_pos hmax]
    exact Echoes.throwBind fun _ _ h => h.2
  rw [if_neg hmax]
  refine echoes_of_sound fun hP => ?_
  have hmem : id ∈ P.held := by simp [hheld]
  have hempty := blocksIn_empty P.store.data isDirectory
  have htotal := totalBlocks_empty isDirectory
  -- A new record has no blocks yet, so all that is asked of them holds.
  have hseated : (empty isDirectory).Seated K [id] P.store := by
    refine ⟨⟨by rw [dataBlocks_empty]; exact Nat.zero_le _, ?_, ?_⟩, ?_, ?_⟩ <;> rw [hempty]
    · simp
    · exact List.nodup_nil
    · simp
    · simp
  refine Echoes.bind (extendStored_twins (Y := []) hK hf hP.reserved (Nat.zero_le size) (by omega)
    (by rw [htotal, Nat.add_zero]) hseated ((hP.held id hmem).plain hK)
    (hP.used id id (mem_area_held hmem)) (by rw [hempty]; simp) (by simp))
    (fun _ => Echoes.pure fun _ _ h => h) fun _ _ _ h => h

/-- Growing the contents of an inode. -/
theorem grow_twins (hK : K.Fits) (hf : ¬K.faulty) (hn : P.nodes id = some n) (hX : ∀ x ∈ X, x ∈ P.held)
    (target : Nat) :
    Echoes (Beside (Holds K) P (Twins K X)) (n.record.grow K.space id target) fun _ => Twins K X := by
  unfold Record.grow
  by_cases hmax : maxFileSize < target
  · rw [if_pos hmax]
    exact Echoes.throwBind fun _ _ h => h.2
  rw [if_neg hmax]
  by_cases hle : target ≤ n.record.length.toNat
  · simp only [if_pos hle]
    exact Echoes.pure fun _ _ h => h.2
  simp only [if_neg hle]
  refine echoes_of_sound fun hP => ?_
  -- Longer contents take blocks, and the same ones are free on both.
  have hmono := totalBlocks_mono (Nat.le_of_not_le hle)
  refine (extendStored_twins (Y := X) hK hf hP.reserved (Nat.le_of_not_le hle) (by omega) (by omega)
    (hP.seated hn hX) ((hP.place id (by simp [hn])).plain hK) (hP.number_used hn) (hP.number_not_mem hn)
    fun x hx => .inr hx).mono fun res s t h => ?_
  cases res <;> exact h

end Pool

end InodeVolume
