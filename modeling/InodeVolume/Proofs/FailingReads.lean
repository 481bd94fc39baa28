import InodeVolume.Proofs.Directories
import InodeVolume.Proofs.Views
import InodeVolume.Proofs.WritingActions

/-!
# Reading where reads fail

What looking something up comes to on a disk of which some blocks may not be readable (`Partly`). A look-up
answers what is stored or reports a failure of the medium (`Finds`). Contents are read up to a block that
cannot be read, and a scan of a directory ends at a slot that cannot be read, as if the table ended there
(`Node.Scans`). Either happens only if the inode has an unreadable block (`Marred`).
-/

namespace InodeVolume

open Record

/-! ## Look-ups -/

section Finds

variable {ε σ α β A : Type} {R : A → σ → Prop} {a : A} {P P' : Prop}

/-- The action answers `v`, or reports a failure of the medium, the latter only if `P`. It changes
nothing. -/
def Finds (R : A → σ → Prop) (a : A) (x : EStateM Error σ α) (v : α) (P : Prop) : Prop :=
  Leads R a x fun r b => b = a ∧ (r = .ok v ∨ (P ∧ r = .error (.device .io)))

theorem Finds.pure {v : α} : Finds R a (Pure.pure v) v P := Leads.pure ⟨rfl, .inl rfl⟩

theorem Finds.mono {x : EStateM Error σ α} {v : α} (h : Finds R a x v P) (hP : P → P') :
    Finds R a x v P' :=
  Leads.mono h fun _ _ hr => ⟨hr.1, hr.2.imp_right fun he => ⟨hP he.1, he.2⟩⟩

theorem Finds.bind {x : EStateM Error σ α} {f : α → EStateM Error σ β} {v : α} {w : β}
    (hx : Finds R a x v P) (hf : Finds R a (f v) w P) : Finds R a (x >>= f) w P := by
  refine Leads.bind hx ?_ ?_
  · rintro u b ⟨rfl, hu | ⟨-, hu⟩⟩
    · cases hu
      exact hf
    · cases hu
  · rintro e b ⟨rfl, he | ⟨hP, he⟩⟩
    · cases he
    · cases he
      exact ⟨rfl, .inr ⟨hP, rfl⟩⟩

end Finds

/-! ## Relations that take no account of failing writes -/

variable {K : Regime}

/-- What a device shows does not depend on its faults, where any may be. -/
theorem blind_shows (hK : K.faulty) : Blind (Shows K) := fun st s t hs hlike hread =>
  { count := by
      rw [Device.blockCount, hlike.blocks]
      exact hs.count
    holds := fun id hid => by
      rw [Device.holds, hlike.medium]
      exact hs.holds id hid
    reads := hread
    writes := fun h => absurd hK h
    data := fun id hid => by
      rw [Device.block, hlike.blocks]
      exact hs.data id hid
    used := fun i hi => by
      rw [SpaceMap.bit, Device.block, hlike.blocks]
      exact hs.used i hi
    spare := hs.spare }

theorem blind_holds (hK : K.faulty) : Blind (Holds K) := fun _ s t hs hlike hread =>
  ⟨blind_shows hK _ s t hs.shows hlike hread, hs.sound⟩

theorem blind_mounts (hK : K.faulty) : Blind (Mounts K) := fun _ v w hv hlike hread =>
  { disk := blind_holds hK _ v.disk w.disk hv.disk hlike.disk hread
    space := hlike.space.trans hv.space
    registry := fun id => by rw [hlike.registry]; exact hv.registry id
    live := hv.live }

/-! ## Blocks and pieces -/

/-- One of the blocks of a list cannot be relied on. -/
def Marred (bad : Nat → Prop) (l : List UInt32) : Prop := ∃ b ∈ l, bad b.toNat

section Blocks

variable {st : Store} {bad : Nat → Prop} {r : Record} {c : Nat}

/-- A block can be read, or it is one of those that may not be. -/
theorem readBlock_finds (hK : K.faulty) {id : Nat} (hid : K.Plain id) :
    Finds (Partly bad (Shows K)) st (DiskM.readBlock id) (st.data id) (bad id) := by
  intro s hs
  -- The answer of a read without faults, which is given unless a fault takes its place.
  have hans : DiskM.answered s.device id = .ok (st.data id) := by
    have hread := (DiskM.outcome_readBlock id (scripted [] s)).1
    obtain ⟨s', hrun, -⟩ := (readBlock_yields hid).run hs.shows
    simp only [outcome, hrun] at hread
    exact hread.symm
  obtain ⟨hr, hsame, hfaults⟩ := DiskM.outcome_readBlock id s
  have hkept : (outcome (DiskM.readBlock id) s).2.faults.read = s.faults.read := by rw [hfaults]
  have hend : Partly bad (Shows K) st (outcome (DiskM.readBlock id) s).2 :=
    ⟨blind_shows hK _ _ _ hs.shows
        (like_trans (like_symm (HoldsDisk.like_scripted [] s))
          (like_trans hsame (HoldsDisk.like_scripted [] _)))
        (HoldsDisk.scripted_scripted [] _).read,
      fun n i hn => hs.reads n i ((congrFun (congrFun hkept n) i).symm.trans hn)⟩
  have hres : (outcome (DiskM.readBlock id) s).1 = .ok (st.data id) ∨
      (bad id ∧ (outcome (DiskM.readBlock id) s).1 = .error (.device .io)) := by
    rw [hr, hans]
    cases hfault : s.faults.read s.faults.readsSeen id with
    | true => exact .inr ⟨hs.reads _ _ hfault, rfl⟩
    | false => exact .inl rfl
  unfold outcome at hend hres
  cases hrun : DiskM.readBlock id s with
  | ok v s' =>
    rw [hrun] at hend hres
    exact ⟨st, hend, rfl, hres⟩
  | error e s' =>
    rw [hrun] at hend hres
    exact ⟨st, hend, rfl, hres⟩

/-- Looking up a piece of a sound index answers its block, if the tables can be read. -/
theorem blockAt_finds (hK : K.faulty) (h : Indexed K st.data r c) {i : Nat} (hi : i < c) :
    Finds (Partly bad (Shows K)) st (r.blockAt i) (pieceIn st.data r i)
      (Marred bad (blocksIn st.data r c)) := by
  have hread {t : UInt32} (ht : t ∈ tablesIn st.data r c) :
      Finds (Partly bad (Shows K)) st (DiskM.readBlock t.toNat) (st.data t.toNat)
        (Marred bad (blocksIn st.data r c)) :=
    (readBlock_finds hK (h.table_data ht).plain).mono fun hb => ⟨t, table_mem ht, hb⟩
  have hmax := h.le
  -- One case for each tier. Every table on the way is a block of the index, so it is among those that may
  -- be bad.
  unfold blockAt pieceIn
  split
  · rename_i hd
    have hdirect : r.directAt i = r.direct[i] := by
      simp [directAt, hd]
    rw [hdirect]
    exact Finds.pure
  · split
    · have ht := single_mem (D := st.data) (r := r) (c := c) (by omega)
      rw [if_neg (toNat_ne_zero (h.table_data ht))]
      exact (hread ht).bind Finds.pure
    · have hsingle : singleReach < c := by omega
      have ht := double_mem (D := st.data) (r := r) hsingle
      have hinner := inner_mem (D := st.data) (r := r) hsingle
        (Block.mem_words.2 ⟨(i - singleReach) / blockWords, cell_lt_tableCount (by omega), rfl⟩)
      rw [if_pos (by omega), if_neg (toNat_ne_zero (h.table_data ht))]
      refine (hread ht).bind ?_
      rw [if_neg (toNat_ne_zero (h.table_data hinner))]
      exact (hread hinner).bind Finds.pure

theorem readPiece_finds (hK : K.faulty) (h : Indexed K st.data r c) {p : Piece}
    (hp : p.start + p.size ≤ blockSize) (hc : p.cell < c) :
    Finds (Partly bad (Shows K)) st (r.readPiece p)
      (bytesFrom (byteIn st.data r) (p.position blockSize) p.size)
      (Marred bad (blocksIn st.data r c)) := by
  have hdata := h.piece_data hc
  refine (blockAt_finds hK h hc).bind ?_
  rw [if_neg (toNat_ne_zero hdata)]
  refine ((readBlock_finds hK hdata.plain).mono fun hb => ⟨_, pieceIn_mem hc, hb⟩).bind ?_
  show Finds _ _ (pure (Block.slice _ _ _)) _ _
  rw [Block.slice_eq _ hp]
  exact Leads.pure ⟨rfl, .inl (congrArg Except.ok
    (bytesFrom_congr fun i hi => (byteIn_of_piece (by omega)).symm))⟩

theorem append_bytesFrom_zero (found : ByteArray) (f : Nat → UInt8) (first : Nat) :
    found ++ bytesFrom f first 0 = found := by
  rw [ByteArray.size_eq_zero_iff.1 (size_bytesFrom _ first 0), ByteArray.append_empty]

/-- Reading pieces that lie end to end, up to one that cannot be read. -/
theorem readPieces_replies (hK : K.faulty) (h : Indexed K st.data r c) (ps : List Piece) {first count : Nat}
    (hin : ∀ p ∈ ps, 0 < p.size ∧ p.start + p.size ≤ blockSize)
    (ht : Tiles blockSize first count ps) (hc : first + count ≤ c * blockSize) (found : ByteArray) :
    Replies (Partly bad (Shows K)) st (r.readPieces found ps) fun v st' => st' = st ∧
      ∃ k, v = found ++ bytesFrom (byteIn st.data r) first k ∧
        (k = count ∨ (k < count ∧ Marred bad (blocksIn st.data r c))) := by
  -- By induction on the pieces. The first one that cannot be read ends what is found.
  induction ps generalizing first count found with
  | nil =>
    obtain rfl : count = 0 := ht
    exact Replies.pure ⟨rfl, 0, (append_bytesFrom_zero ..).symm, .inl rfl⟩
  | cons p ps ih =>
    obtain ⟨hpos, hsize, hrest⟩ := ht
    obtain ⟨hp, hcell⟩ := hin p (List.mem_cons_self ..)
    have hlt : p.cell < c := Piece.cell_lt (w := blockSize) hp (by omega)
    intro disk hs
    rcases (readPiece_finds hK h hcell hlt).run hs with
      ⟨v, disk', st', hr, hs', rfl, hv | ⟨-, hv⟩⟩ | ⟨e, disk', st', hr, hs', rfl, he | ⟨hbad, -⟩⟩
    · cases hv
      rw [hpos] at hr
      obtain ⟨w, disk'', st'', hr', hs'', rfl, k, rfl, hk⟩ :=
        ih (fun q hq => hin q (List.mem_cons_of_mem p hq)) hrest (by omega)
          (found ++ bytesFrom (byteIn st'.data r) first p.size) disk' hs'
      refine ⟨_, disk'', st'', by simpa only [readPieces, hr] using hr', hs'', rfl, p.size + k, ?_, ?_⟩
      · rw [ByteArray.append_assoc, bytesFrom_append]
      · exact hk.imp (by omega) fun hk => ⟨by omega, hk.2⟩
    · cases hv
    · cases he
    · exact ⟨found, disk', st', by simp only [readPieces, hr], hs', rfl, 0, (append_bytesFrom_zero ..).symm,
        .inr ⟨by omega, hbad⟩⟩

/-- Reading answers the bytes of the contents, up to their end or to a block that cannot be read. -/
theorem read_replies (hK : K.faulty) (h : Indexed K st.data r (dataBlocks r.length.toNat)) (offset count : Nat) :
    Replies (Partly bad (Shows K)) st (r.read offset count) fun v st' => st' = st ∧
      ∃ k, v = bytesFrom (byteIn st.data r) offset k ∧
        (k = min count (r.length.toNat - offset) ∨
          (k < min count (r.length.toNat - offset) ∧
            Marred bad (blocksIn st.data r (dataBlocks r.length.toNat)))) := by
  unfold Record.read
  -- Behind the end there are no pieces. Otherwise the pieces lie inside the blocks of the contents.
  by_cases h0 : r.length.toNat ≤ offset
  · have hz : min count (r.length.toNat - offset) = 0 := by omega
    rw [hz, pieces_zero]
    exact Replies.pure ⟨rfl, 0, (ByteArray.size_eq_zero_iff.1 (size_bytesFrom _ offset 0)).symm, .inl rfl⟩
  · have hle : offset + min count (r.length.toNat - offset) ≤
        dataBlocks r.length.toNat * blockSize := by
      simp only [dataBlocks, blockSize]
      omega
    refine Replies.mono (readPieces_replies hK h _ (fun p hp => piece_in_cell hp)
      (pieces_tile (by decide) _ _) hle .empty) ?_
    rintro v st' ⟨rfl, k, rfl, hk⟩
    exact ⟨rfl, k, ByteArray.empty_append, hk⟩

end Blocks

/-! ## Stored inodes -/

section Nodes

variable {P : Pool} {bad : Nat → Prop} {id : UInt32} {n : Node}

/-- A disk that may be read in part only holds a pool, seen as a disk that shows its blocks. -/
theorem Partly.holds_shows {disk : Disk} (h : Partly bad (Holds K) P disk) :
    Partly bad (Shows K) P.store disk := ⟨h.shows.shows, h.reads⟩

theorem Partly.shows_holds {disk : Disk} (h : Partly bad (Shows K) P.store disk) (hP : P.Sound K) :
    Partly bad (Holds K) P disk := ⟨⟨h.shows, hP⟩, h.reads⟩

/-- The record of a stored inode is found, unless its block cannot be read. -/
theorem load_finds (hK : K.faulty) (hF : K.Fits) (hn : P.nodes id = some n) :
    Finds (Partly bad (Holds K)) P (Record.load id) n.record (bad id.toNat) := by
  refine Leads.of_shown fun _ hs => ?_
  have hP := hs.shows.sound
  have hplain := (hP.place id (by simp [hn])).plain hF
  have hload : Finds (Partly bad (Shows K)) P.store (Record.load id) n.record (bad id.toNat) := by
    refine (readBlock_finds hK hplain).bind ?_
    rw [(hP.stored id n hn).record]
    exact Finds.pure
  -- What holds of the store holds of the pool, as only reading has been done.
  intro disk hdisk
  rcases hload.run hdisk.holds_shows with ⟨v, disk', st', hr, hs', rfl, hres⟩ | ⟨e, disk', st', hr, hs', rfl, hres⟩
  · rw [hr]
    exact ⟨P, hs'.shows_holds hP, rfl, hres⟩
  · rw [hr]
    exact ⟨P, hs'.shows_holds hP, rfl, hres⟩

/-- Reading answers the bytes of an inode, up to their end or to a block that cannot be read. -/
theorem read_node_replies (hK : K.faulty) (hn : P.nodes id = some n) (offset count : Nat) :
    Replies (Partly bad (Holds K)) P (n.record.read offset count) fun v P' => P' = P ∧
      ∃ k, v = bytesFrom n.byte offset k ∧
        (k = min count (n.size - offset) ∨ (k < min count (n.size - offset) ∧ Marred bad n.owned)) := by
  intro disk hs
  have hstored := hs.shows.sound.stored id n hn
  obtain ⟨v, disk', st', hr, hs', rfl, k, rfl, hk⟩ :=
    read_replies hK hstored.indexed offset count disk hs.holds_shows
  -- The bytes of the node are those of its blocks up to its end.
  refine ⟨_, disk', P, hr, hs'.shows_holds hs.shows.sound, rfl, k, ?_, ?_⟩
  · refine bytesFrom_congr fun i hi => hstored.byte _ ?_
    have hle : n.size ≤ dataBlocks n.size * blockSize := by
      simp only [dataBlocks, blockSize]
      omega
    simp only [Node.size] at *
    omega
  · rw [hstored.owned]
    exact hk

end Nodes

/-! ## Slots -/

namespace Node

variable {P : Pool} {bad : Nat → Prop} {id : UInt32} {n : Node}

/-- What a scan from slot `j` on answers: what it finds, or nothing if it has come to a slot that cannot be
read. -/
def Scans (n : Node) (bad : Nat → Prop) (p : Slot → Bool) (j : Nat) (v : Nat × Option Slot) : Prop :=
  v = n.scanned j (n.search p j) ∨
    (Marred bad n.owned ∧ ∃ k, k < n.slots ∧ v = (k * slotSize, none))

/-- A slot is read, or there is none behind the end, or its block cannot be read and it looks as if there were
none. -/
theorem slotAt_replies (hK : K.faulty) (hn : P.nodes id = some n) (j : Nat) :
    Replies (Partly bad (Holds K)) P (n.record.slotAt (j * slotSize)) fun v P' => P' = P ∧
      (v = (if j < n.slots then some (n.slot j) else none) ∨
        (Marred bad n.owned ∧ j < n.slots ∧ v = none)) := by
  refine Replies.bind (read_node_replies hK hn _ _) ?_
  rintro v P' ⟨rfl, k, rfl, hk⟩
  -- Fewer bytes than a slot has are found behind the end, or where a read has failed.
  by_cases hfull : k = slotSize
  · subst hfull
    have hj : j < n.slots := by
      simp only [slots, slotSize] at hk ⊢
      omega
    rw [dif_pos (size_bytesFrom ..), if_pos hj]
    exact Replies.pure ⟨rfl, .inl rfl⟩
  · rw [dif_neg (by rwa [size_bytesFrom])]
    refine Replies.pure ⟨rfl, ?_⟩
    by_cases hj : j < n.slots
    · refine .inr ⟨?_, hj, rfl⟩
      rcases hk with hk | hk
      · simp only [slots, slotSize] at hk hj hfull
        omega
      · exact hk.2
    · rw [if_neg hj]
      exact .inl rfl

theorem scanSlots_replies (hK : K.faulty) (hn : P.nodes id = some n) (p : Slot → Bool) (j fuel : Nat)
    (hfuel : n.slots - j < fuel) :
    Replies (Partly bad (Holds K)) P (n.record.scanSlots p (j * slotSize) fuel) fun v P' => P' = P ∧
      n.Scans bad p j v := by
  -- One slot is looked at for each step; the fuel is more than the slots that are left.
  induction fuel generalizing j with
  | zero => omega
  | succ fuel ih =>
    refine Replies.bind (slotAt_replies hK hn j) ?_
    rintro v P' ⟨rfl, rfl | ⟨hbad, hj, rfl⟩⟩
    · by_cases hj : j < n.slots
      · have hsearch := search_of_lt p hj
        rw [if_pos hj]
        dsimp only
        cases hp : p (n.slot j) with
        | true =>
          rw [hp, if_pos rfl] at hsearch
          exact Replies.pure ⟨rfl, .inl (by rw [hsearch, scanned])⟩
        | false =>
          rw [hp, if_neg Bool.false_ne_true] at hsearch
          rw [if_neg Bool.false_ne_true, ← Nat.succ_mul]
          refine Replies.mono (ih (j + 1) (by omega)) ?_
          rintro v P' ⟨rfl, hv⟩
          refine ⟨rfl, hv.imp_left fun hv => ?_⟩
          rw [hv, hsearch, scanned_succ hj]
      · have hle := Nat.le_of_not_lt hj
        rw [if_neg hj]
        exact Replies.pure ⟨rfl, .inl (by rw [search_of_le p hle, scanned, Nat.max_eq_left hle])⟩
    · exact Replies.pure ⟨rfl, .inr ⟨hbad, j, hj, rfl⟩⟩

theorem findSlot_replies (hK : K.faulty) (hn : P.nodes id = some n) (p : Slot → Bool) :
    Replies (Partly bad (Holds K)) P (n.record.findSlot p 0) fun v P' => P' = P ∧ n.Scans bad p 0 v := by
  have hscan : Replies (Partly bad (Holds K)) P (n.record.scanSlots p (0 * slotSize) n.record.slotBound)
      fun v P' => P' = P ∧ n.Scans bad p 0 v := scanSlots_replies hK hn p 0 _ (by
    rw [Record.slotBound]
    exact Nat.lt_succ_of_le (Nat.sub_le _ _))
  rwa [Nat.zero_mul] at hscan

/-- A name is found where it is, or not at all. -/
theorem findName_replies (hK : K.faulty) (hn : P.nodes id = some n) (name : String) :
    Replies (Partly bad (Holds K)) P (n.record.findName name) fun v P' => P' = P ∧
      (v = ((n.find name).map fun j => (j * slotSize, n.slot j)) ∨ (Marred bad n.owned ∧ v = none)) := by
  refine Replies.bind (findSlot_replies hK hn _) ?_
  rintro v P' ⟨rfl, rfl | ⟨hbad, k, -, rfl⟩⟩
  · refine Replies.pure ⟨rfl, .inl ?_⟩
    simp only [find]
    cases n.search (fun s => s.inUse && s.name == name) 0 <;> rfl
  · exact Replies.pure ⟨rfl, .inr ⟨hbad, rfl⟩⟩

/-- The place that is taken for vacant is so, or is that of a slot that cannot be read. -/
theorem vacancy_replies (hK : K.faulty) (hn : P.nodes id = some n) :
    Replies (Partly bad (Holds K)) P n.record.vacancy fun v P' => P' = P ∧
      (v = n.vacant * slotSize ∨ (Marred bad n.owned ∧ ∃ k, k < n.slots ∧ v = k * slotSize)) := by
  refine Replies.bind (findSlot_replies hK hn _) ?_
  rintro v P' ⟨rfl, rfl | ⟨hbad, k, hk, rfl⟩⟩
  · refine Replies.pure ⟨rfl, .inl ?_⟩
    rw [vacant]
    cases n.search (fun s => !s.inUse) 0 with
    | none => simp [scanned]
    | some k => rfl
  · exact Replies.pure ⟨rfl, .inr ⟨hbad, k, hk, rfl⟩⟩

/-- A directory with entries is seen to have them, unless a slot cannot be read. -/
theorem hasEntries_replies (hK : K.faulty) (hn : P.nodes id = some n) :
    Replies (Partly bad (Holds K)) P n.record.hasEntries fun v P' => P' = P ∧
      (n.Busy → v = true ∨ Marred bad n.owned) := by
  refine Replies.bind (findSlot_replies hK hn _) ?_
  -- Either the whole table was read, or a block of it could not be.
  rintro v P' ⟨rfl, rfl | ⟨hbad, -⟩⟩
  · refine Replies.pure ⟨rfl, fun hbusy => .inl ?_⟩
    cases hs : n.search (fun s => s.inUse && !isDotName s.name) 0 with
    | some k => rfl
    | none =>
      obtain ⟨name, x, hname, hc⟩ := hbusy
      obtain ⟨j, -, hj⟩ := child_some hc
      have hnone := search_none hs (Nat.zero_le j) hj.lt
      rw [hj.inUse, hj.name_eq, hname] at hnone
      cases hnone
  · exact Replies.pure ⟨rfl, fun _ => .inr hbad⟩

end Node

/-! ## Open inodes -/

section Volume

variable {α : Type} {W W' : World} {bad : Nat → Prop} {id : UInt32} {n : Node} {o : Opening}

/-- What an action that has a counterpart comes to where reads fail: what it comes to where writes do, or a
failure of the medium is reported in place of another error. -/
theorem Leads.of_faithful (hK : K.faulty) {x : VolumeM α} (hx : VolumeM.Faithful x)
    {post : Except Stop α → World → Prop} (h : Leads (Mounts K) W x post) :
    Leads (Partly bad (Mounts K)) W x fun r W' => ∃ r', Told r r' ∧ post r' W' :=
  Leads.of_mimics (blind_mounts hK) hx h

theorem Yields.of_faithful (hK : K.faulty) {x : VolumeM α} (hx : VolumeM.Faithful x) {v : α}
    (h : Yields (Mounts K) W x v W') : Yields (Partly bad (Mounts K)) W x v W' := by
  refine Leads.mono (Leads.of_faithful hK hx h) ?_
  rintro r b ⟨r', htold, rfl, rfl⟩
  cases htold
  exact ⟨rfl, rfl⟩

/-- The registry may change while nothing happens to the disk. -/
theorem changeRegistry_partly {g : Registry → Registry} (hpool : W'.pool = W.pool)
    (hreg : ∀ r : Registry, (∀ i, r[i]? = W.entry i) → ∀ i, (g r)[i]? = W'.entry i)
    (hlive : (∀ i, W.opens i ≠ none → W.pool.nodes i ≠ none) → ∀ i, W'.opens i ≠ none → W'.pool.nodes i ≠ none) :
    Yields (Partly bad (Mounts K)) W (VolumeM.changeRegistry g) () W' := fun _ hv =>
  ⟨W',
    { shows :=
        { disk := by rw [hpool]; exact hv.shows.disk
          space := hv.shows.space
          registry := hreg _ hv.shows.registry
          live := hlive hv.shows.live }
      reads := hv.reads }, rfl, rfl⟩

theorem registry_partly :
    Answers (Partly bad (Mounts K)) W VolumeM.registry fun r => ∀ i, r[i]? = W.entry i :=
  fun v hv => ⟨W, hv, ⟨v.registry, rfl, hv.shows.registry⟩, rfl⟩

theorem Partly.mounts_holds {v : Volume} (hv : Partly bad (Mounts K) W v) :
    Partly bad (Holds K) W.pool v.disk := ⟨hv.shows.disk, hv.reads⟩

theorem Partly.with_disk {v : Volume} {disk : Disk} (hv : Partly bad (Mounts K) W v)
    (hd : Partly bad (Holds K) W.pool disk) : Partly bad (Mounts K) W { v with disk := disk } where
  shows := ⟨hd.shows, hv.shows.space, hv.shows.registry, hv.shows.live⟩
  reads := hd.reads

/-- Looking something up on the disk. -/
theorem onDisk_partly {x : SpaceMap → DiskM α} {v : α} {P : Prop}
    (h : Finds (Partly bad (Holds K)) W.pool (x K.space) v P) :
    Leads (Partly bad (Mounts K)) W (VolumeM.onDisk x) fun r W' => W' = W ∧
      (r = .ok v ∨ (P ∧ r = .error (.failed (.device .io)))) := by
  rintro ⟨disk, space, registry⟩ hv
  obtain rfl : space = K.space := hv.shows.space
  unfold VolumeM.onDisk
  -- The action leaves the pool as it is, so the volume shows the same world afterwards.
  rcases h.run hv.mounts_holds with ⟨a, disk', P', hr, hd, rfl, hres⟩ | ⟨e, disk', P', hr, hd, rfl, hres⟩
  · simp only [hr]
    refine ⟨W, hv.with_disk hd, rfl, ?_⟩
    rcases hres with ha | ⟨-, ha⟩
    · cases ha
      exact .inl rfl
    · cases ha
  · simp only [hr]
    refine ⟨W, hv.with_disk hd, rfl, ?_⟩
    rcases hres with he | ⟨hP, he⟩
    · cases he
    · cases he
      exact .inr ⟨hP, rfl⟩

theorem transfer_partly {x : DiskAction α} {post : α → Prop}
    (h : Replies (Partly bad (Holds K)) W.pool x fun v P' => P' = W.pool ∧ post v) :
    Answers (Partly bad (Mounts K)) W (VolumeM.transfer x) post := by
  rintro ⟨disk, space, registry⟩ hv
  obtain ⟨a, disk', P', hr, hd, rfl, hpost⟩ := h disk hv.mounts_holds
  simp only [VolumeM.transfer, hr]
  exact ⟨W, hv.with_disk hd, ⟨a, rfl, hpost⟩, rfl⟩

namespace Inode

theorem entry_partly (hK : K.faulty) (hn : W.pool.nodes id = some n) (ho : W.opens id = some o) :
    Yields (Partly bad (Mounts K)) W (entry ⟨id⟩) ⟨o.openers, o.removed, o.denials, n.record⟩ W :=
  Yields.of_faithful hK (entry_faithful _) (open_entry_yields hn ho)

/-- An inode that is stored can be opened, unless its record has to be read and cannot be. -/
theorem acquire_partly (hK : K.faulty) (hF : K.Fits) (hn : W.pool.nodes id = some n) :
    Leads (Partly bad (Mounts K)) W (acquire id) fun r W' =>
      (r = .ok ⟨id⟩ ∧ W' = W.opened id) ∨ (r = .error (.failed (.device .io)) ∧ W' = W) := by
  have hinsert : Yields (Partly bad (Mounts K)) W
      (VolumeM.changeRegistry (·.insert id ⟨(World.moreOpen (W.opens id)).openers,
        (World.moreOpen (W.opens id)).removed, (World.moreOpen (W.opens id)).denials, n.record⟩)) ()
      (W.opened id) := by
    refine changeRegistry_partly rfl (fun r hr i => ?_) fun hlive i hi => ?_
    · rw [Registry.getElem?_insert, World.opened, World.entry_setOpening hn, Function.update_apply, hr]
    · by_cases he : i = id
      · simp [he, hn]
      · rw [World.opened_opens_of_ne W he] at hi
        exact hlive i hi
  refine Answers.bind registry_partly fun r hr => ?_
  rw [hr]
  -- The record of an inode that is open is in the registry, so only otherwise a block has to be read.
  cases ho : W.opens id with
  | some o =>
    rw [World.entry_of_some ho hn]
    rw [ho] at hinsert
    exact Yields.bind hinsert (Leads.pure (.inl ⟨rfl, rfl⟩))
  | none =>
    rw [World.entry_of_none ho]
    rw [ho] at hinsert
    refine Leads.bind (onDisk_partly (load_finds hK hF hn)) ?_ ?_
    · rintro v W' ⟨rfl, hv | ⟨-, hv⟩⟩
      · cases hv
        exact Yields.bind hinsert (Leads.pure (.inl ⟨rfl, rfl⟩))
      · cases hv
    · rintro e W' ⟨rfl, he | ⟨-, he⟩⟩
      · cases he
      · cases he
        exact .inr ⟨rfl, rfl⟩

end Inode

/-! ## Directories -/

namespace Directory

variable {d : Directory} {name : String}

theorem search_partly (hK : K.faulty) {f : Record → DiskAction α} {post : α → Prop} (hd : d.inode = ⟨id⟩)
    (hn : W.pool.nodes id = some n) (ho : W.opens id = some o)
    (hf : Replies (Partly bad (Holds K)) W.pool (f n.record) fun v P' => P' = W.pool ∧ post v) :
    Answers (Partly bad (Mounts K)) W (d.search f) post := by
  unfold search
  rw [hd]
  exact Yields.bind (Inode.entry_partly hK hn ho) (transfer_partly hf)

/-- A name is found where it is, or not at all. -/
theorem find_partly (hK : K.faulty) (hd : d.inode = ⟨id⟩) (hn : W.pool.nodes id = some n)
    (ho : W.opens id = some o) (name : String) :
    Answers (Partly bad (Mounts K)) W (d.find name) fun v =>
      v = ((n.find name).map fun j => (j * slotSize, n.slot j)) ∨ (Marred bad n.owned ∧ v = none) :=
  search_partly hK hd hn ho (Node.findName_replies hK hn name)

/-- The inode that a name stands for is opened, or an error is reported. -/
theorem openEntry_partly (hK : K.faulty) (hF : K.Fits) (hd : d.inode = ⟨id⟩) (hn : W.pool.nodes id = some n)
    (ho : W.opens id = some o) (hchild : ∀ x, n.child name = some x → W.pool.nodes x ≠ none) :
    Leads (Partly bad (Mounts K)) W (d.openEntry name) fun r W' =>
      (∃ x, n.child name = some x ∧ r = .ok ⟨x⟩ ∧ W' = W.opened x) ∨
        ∃ e, r = .error (.failed e) ∧ W' = W := by
  refine Answers.bind (find_partly hK hd hn ho name) ?_
  -- A search that a failed read cuts short answers that there is no such name.
  rintro v (rfl | ⟨-, rfl⟩)
  · cases hf : n.find name with
    | none => exact Leads.fail (.inr ⟨_, rfl, rfl⟩)
    | some j =>
      have hc : n.child name = some (n.slot j).number := by simp [Node.child, hf]
      obtain ⟨m, hm⟩ := Option.ne_none_iff_exists'.1 (hchild _ hc)
      refine Leads.mono (Inode.acquire_partly hK hF hm) ?_
      rintro r W' (⟨rfl, rfl⟩ | ⟨rfl, rfl⟩)
      · exact .inl ⟨_, hc, rfl, rfl⟩
      · exact .inr ⟨_, rfl, rfl⟩
  · exact Leads.fail (.inr ⟨_, rfl, rfl⟩)

end Directory

end Volume

/-! ## Behind a pattern of faults -/

/-- Some read of the block fails. -/
def Faults.spoils (f : Faults) (id : Nat) : Prop := ∃ k, f.read k id = true

/-- The volume behind another pattern of faults. -/
def Volume.under (v : Volume) (f : Faults) : Volume := { v with disk := { v.disk with faults := f } }

/-- The same conditions, but that writes may fail. -/
def Regime.failing (K : Regime) : Regime := { K with faulty := True }

section Under

variable {ε σ α A : Type} {R : A → σ → Prop} {a : A} {W : World} {v : Volume} {n : Node}

theorem Regime.Fits.failing (h : K.Fits) : K.failing.Fits := ⟨h.count_le, h.room⟩

theorem Stored.failing {D : Nat → Block} {id : UInt32} (h : Stored K D id n) : Stored K.failing D id n :=
  { h with indexed := { h.indexed with } }

/-- What a volume shows, it shows in part behind any pattern of faults. -/
theorem Mounts.under (h : Mounts K W v) (f : Faults) : Partly f.spoils (Mounts K.failing) W (v.under f) where
  shows :=
    { disk :=
        { shows := { h.disk.shows with reads := fun _ _ => rfl, writes := fun hno => absurd trivial hno }
          sound := { h.disk.sound with
            stored := fun id n hn => (h.disk.sound.stored id n hn).failing
            exact := fun hno => absurd trivial hno } }
      space := h.space
      registry := h.registry
      live := h.live }
  reads k _ hk := ⟨k, hk⟩

/-- Whatever a disk shows in part is on its device. -/
theorem Partly.node (hF : K.Fits) {bad : Nat → Prop} (h : Partly bad (Mounts K) W v) {x : UInt32}
    (hn : W.pool.nodes x = some n) : v.disk.device.pool.nodes x = some n := by
  have hnode := h.shows.disk.node hF hn
  exact hnode

end Under

end InodeVolume
