import InodeVolume.Proofs.World

/-!
# Actions on open inodes

What the actions on open inodes do to a world. Opening and closing again gives the world that was there
before (`close_opened`), so an action that opens inodes on its way can be looked at as if it did not.
The last close of an inode that is marked as removed gives up its blocks (`close_leads`).
-/

namespace InodeVolume

open Record

variable {K : Regime} {W : World} {id : UInt32} {n : Node} {o : Opening}

/-! ## Opening and closing -/

namespace Inode

/-- An inode that is stored can be opened. -/
theorem acquire_yields (hK : K.Fits) (hn : W.pool.nodes id = some n) :
    Yields (Mounts K) W (acquire id) ⟨id⟩ (W.opened id) := by
  refine leads_of_bare fun hlive => ?_
  have hlive' (i : UInt32) (hi : (W.opened id).opens i ≠ none) : W.pool.nodes i ≠ none := by
    by_cases he : i = id
    · simp [he, hn]
    · rw [World.opened, World.setOpening_opens, Function.update_of_ne he] at hi
      exact hlive i hi
  have hentry := World.entry_setOpening (W := W) (o := World.moreOpen (W.opens id)) hn
  refine Answers.bind registry_answers fun r hr => ?_
  rw [hr]
  -- Whether the record comes from the registry or from the disk, the entry that is made of it is the same.
  cases ho : W.opens id with
  | some o =>
    rw [World.entry_of_some ho hn]
    refine Yields.bind (insert_yields id _) (Leads.pure ⟨W.opened id, rfl, ?_, hlive', rfl, rfl⟩)
    rw [World.opened, hentry, ho]
    rfl
  | none =>
    rw [World.entry_of_none ho]
    refine Leads.bind (onDisk_leads (Pool.load_yields hK hn)) ?_ ?_
    · rintro v ⟨P, reg⟩ ⟨rfl, res, hv, rfl, rfl⟩
      cases hv
      refine Yields.bind (insert_yields id _) (Leads.pure ⟨W.opened id, rfl, ?_, hlive', rfl, rfl⟩)
      rw [World.opened, hentry, ho]
      rfl
    · rintro e B ⟨-, res, hv, rfl, -⟩
      cases hv

theorem entry_of_open (hn : W.pool.nodes id = some n) (ho : W.opens id = some o) :
    Yields (ShowsBare K) ⟨W.pool, W.entry⟩ (Inode.entry ⟨id⟩)
      ⟨o.openers, o.removed, o.denials, n.record⟩ ⟨W.pool, W.entry⟩ :=
  entry_yields (World.entry_of_some ho hn)

/-- Changing how an inode is open, which is open already. -/
theorem setEntry_leads (o' : Opening) {Q : Except Stop Unit → World → Prop}
    (hlive : ∀ i, W.opens i ≠ none → W.pool.nodes i ≠ none) (hn : W.pool.nodes id = some n)
    (hpost : Q (.ok ()) (W.setOpening id (some o'))) :
    Leads (ShowsBare K) ⟨W.pool, W.entry⟩
      (setEntry ⟨id⟩ ⟨o'.openers, o'.removed, o'.denials, n.record⟩) fun res B =>
        ∃ W' : World, W'.pool = B.pool ∧ W'.entry = B.registry ∧
          (∀ i, W'.opens i ≠ none → W'.pool.nodes i ≠ none) ∧ Q res W' := by
  refine Leads.mono (insert_yields id _) ?_
  rintro res B ⟨rfl, rfl⟩
  refine ⟨W.setOpening id (some o'), rfl, World.entry_setOpening hn, fun i hi => ?_, hpost⟩
  by_cases he : i = id
  · simp [he, hn]
  · rw [World.setOpening_opens, Function.update_of_ne he] at hi
    exact hlive i hi

/-- An inode that is open can be opened once more. -/
theorem reopen_yields (hn : W.pool.nodes id = some n) (ho : W.opens id = some o) :
    Yields (Mounts K) W (reopen ⟨id⟩) ⟨id⟩ (W.opened id) := by
  refine leads_of_bare fun hlive => ?_
  refine Yields.bind (entry_of_open hn ho) ?_
  refine Leads.bind (setEntry_leads { o with openers := o.openers + 1 } hlive hn
    (Q := fun res W' => res = .ok () ∧ W' = W.opened id) ⟨rfl, by rw [World.opened, ho]; rfl⟩) ?_ ?_
  · rintro v B ⟨W', hpool, hentry, hlive', -, rfl⟩
    exact Leads.pure ⟨_, hpool, hentry, hlive', rfl, rfl⟩
  · rintro e B ⟨W', -, -, -, he, -⟩
    cases he

theorem markRemoved_yields (hn : W.pool.nodes id = some n) (ho : W.opens id = some o) :
    Yields (Mounts K) W (markRemoved ⟨id⟩) () (W.setOpening id (some { o with removed := true })) := by
  refine leads_of_bare fun hlive => ?_
  refine Yields.bind (entry_of_open hn ho) ?_
  exact setEntry_leads { o with removed := true } hlive hn ⟨rfl, rfl⟩

/-- What closing comes to: one opener less, or the inode is not open any more and, if it is marked as
removed, not there. -/
structure Closed (K : Regime) (W : World) (id : UInt32) (o : Opening) (n : Node) (W' : World) : Prop where
  more : 1 < o.openers → W' = W.setOpening id (some { o with openers := o.openers - 1 })
  last : o.openers ≤ 1 → o.removed = false → W' = W.setOpening id none
  gone : o.openers ≤ 1 → o.removed = true →
    W'.opens = Function.update W.opens id none ∧
      W'.pool.nodes = Function.update W.pool.nodes id none ∧ W'.pool.held = W.pool.held ∧
      (¬K.faulty → K.free W'.pool.store.used =
        K.free W.pool.store.used + (totalBlocks n.size + 1))

theorem close_leads (hK : K.Fits) (hn : W.pool.nodes id = some n) (ho : W.opens id = some o)
    (hid : o.openers ≤ 1 → o.removed = true → K.IsData id.toNat) :
    Leads (Mounts K) W (close ⟨id⟩) fun res W' => res = .ok () ∧ Closed K W id o n W' := by
  refine leads_of_bare fun hlive => ?_
  refine Yields.bind (entry_of_open hn ho) ?_
  -- Only the last opener takes the entry out of the registry, and only a removed inode goes with it.
  by_cases hmore : 1 < o.openers
  · rw [if_pos hmore]
    refine setEntry_leads { o with openers := o.openers - 1 } hlive hn ⟨rfl, ?_⟩
    exact ⟨fun _ => rfl, fun h => absurd hmore (by omega), fun h => absurd hmore (by omega)⟩
  · rw [if_neg hmore]
    refine Yields.bind (erase_yields id) ?_
    have hothers (i : UInt32) (hi : Function.update W.opens id none i ≠ none) :
        i ≠ id ∧ W.pool.nodes i ≠ none := by
      by_cases he : i = id
      · rw [he, Function.update_self] at hi
        exact absurd rfl hi
      · rw [Function.update_of_ne he] at hi
        exact ⟨he, hlive i hi⟩
    have hentry (W' : World) (hopens : W'.opens = Function.update W.opens id none)
        (hnodes : ∀ i, i ≠ id → W'.pool.nodes i = W.pool.nodes i) :
        W'.entry = Function.update W.entry id none := by
      rw [World.entry_eq_update W _ id (fun i hi => by rw [hopens, Function.update_of_ne hi])
        hnodes, World.entry_of_none]
      rw [hopens, Function.update_self]
    by_cases hremoved : o.removed = true
    · rw [if_pos hremoved]
      refine Leads.bind (Leads.attemptVolume (Q := fun r B =>
        ∃ r', r = .ok r' ∧ B.registry = Function.update W.entry id none ∧
          B.pool.nodes = Function.update W.pool.nodes id none ∧ B.pool.held = W.pool.held ∧
          (¬K.faulty → K.free B.pool.store.used =
            K.free W.pool.store.used + (totalBlocks n.size + 1)))
        (Leads.mono (onDisk_leads (Pool.dissolve_leads hK hn (hid (Nat.le_of_not_lt hmore) hremoved))) ?_)) ?_ ?_
      · rintro r B ⟨hreg, res, rfl, hnodes, hheld, hfree⟩
        refine ⟨res, handled_raised res, hreg, hnodes, hheld, fun hf => ?_⟩
        rcases hfree with ⟨-, hfree⟩ | hf'
        · exact hfree
        · exact absurd hf' hf
      · rintro r B ⟨r', hr, hreg, hnodes, hheld, hfree⟩
        refine Leads.pure ⟨⟨B.pool, Function.update W.opens id none⟩, rfl, ?_, fun i hi => ?_, rfl, ?_⟩
        · rw [hreg]
          refine hentry _ rfl fun i hi => ?_
          rw [hnodes, Function.update_of_ne hi]
        · obtain ⟨hne, hnode⟩ := hothers i hi
          rw [hnodes, Function.update_of_ne hne]
          exact hnode
        · refine ⟨fun h => absurd h hmore, fun _ hno => ?_, fun _ _ => ⟨rfl, hnodes, hheld, hfree⟩⟩
          rw [hremoved] at hno
          cases hno
      · rintro e B ⟨r', he, -⟩
        cases he
    · rw [if_neg hremoved]
      refine Leads.pure ⟨W.setOpening id none, rfl, hentry _ rfl fun _ _ => rfl,
        fun i hi => (hothers i hi).2, rfl, fun h => absurd h hmore, fun _ _ => rfl,
        fun _ hyes => absurd hyes hremoved⟩

/-- Closing takes opening back. -/
theorem close_opened (hK : K.Fits) (hn : W.pool.nodes id = some n)
    (ho : ∀ o, W.opens id = some o → 0 < o.openers) :
    Yields (Mounts K) (W.opened id) (close ⟨id⟩) () W := by
  have hopened : (W.opened id).opens id = some (World.moreOpen (W.opens id)) := by
    simp [World.opened]
  -- If others have it open, one opener fewer remains. If not, the inode is forgotten as it was before.
  cases h : W.opens id with
  | some o =>
    have hpos := ho o h
    rw [h] at hopened
    have hmore : 1 < (World.moreOpen (some o)).openers := Nat.succ_lt_succ hpos
    refine Leads.mono (close_leads hK hn hopened fun hle _ => absurd hmore (by omega)) ?_
    rintro res W' ⟨rfl, hc⟩
    refine ⟨rfl, (hc.more hmore).trans ?_⟩
    rw [World.opened, h]
    show (W.setOpening id _).setOpening id (some o) = W
    rw [← h, World.setOpening_self]
  | none =>
    rw [h] at hopened
    refine Leads.mono (close_leads hK hn hopened fun _ hr => by cases hr) ?_
    rintro res W' ⟨rfl, hc⟩
    refine ⟨rfl, (hc.last (Nat.le_refl 1) rfl).trans ?_⟩
    rw [World.opened, ← h, World.setOpening_self]

/-! ## Properties -/

theorem isDirectory_yields (hn : W.pool.nodes id = some n) (ho : W.opens id = some o) :
    Yields (Mounts K) W (isDirectory ⟨id⟩) n.record.isDirectory W :=
  Yields.bind (open_entry_yields hn ho) Yields.pure

theorem length_yields (hn : W.pool.nodes id = some n) (ho : W.opens id = some o) :
    Yields (Mounts K) W (length ⟨id⟩) n.size W :=
  Yields.bind (open_entry_yields hn ho) Yields.pure

/-- Inside the contents, every byte has a block. -/
theorem blockOf_yields (hn : W.pool.nodes id = some n) (ho : W.opens id = some o) {position : Nat}
    (hp : position < n.size) : Yields (Mounts K) W (blockOf ⟨id⟩ position)
      (some (n.record.pieceIn W.pool.store.data (position / blockSize))) W := by
  refine Yields.bind (open_entry_yields hn ho) ?_
  dsimp only
  -- The position lies in the file, so there is a block at it.
  have hinside : ¬n.record.length.toNat ≤ position := Nat.not_le.2 hp
  rw [if_neg hinside]
  refine Leads.attemptVolumeBind (onDisk_yields (Pool.piece_yields hn (piece_lt hp))) ?_ ?_ ?_
  · rintro r W' ⟨rfl, -⟩
    exact sober_ok
  · rintro b W' ⟨hb, rfl⟩
    cases hb
    exact Leads.pure ⟨rfl, rfl⟩
  · rintro e W' ⟨he, -⟩
    cases he

/-! ## Contents -/

theorem read_yields (hn : W.pool.nodes id = some n) (ho : W.opens id = some o) (offset count : Nat) :
    Yields (Mounts K) W (read ⟨id⟩ offset count)
      (bytesFrom n.byte offset (min count (n.size - offset))) W :=
  Yields.bind (open_entry_yields hn ho) (transfer_yields (Pool.read_node_tells hn offset count))

/-- The contents of an inode have grown to `target` bytes at least. -/
structure Grown (K : Regime) (W : World) (n : Node) (target : Nat) (n' : Node) (W' : World) : Prop where
  isDirectory : n'.record.isDirectory = n.record.isDirectory
  size : n'.size = max n.size target
  byte : n'.byte = n.byte
  owned : n.owned ⊆ n'.owned
  continued : n.Continued n'
  le : target ≤ maxFileSize
  free : K.free W'.pool.store.used + totalBlocks n'.size =
    K.free W.pool.store.used + totalBlocks n.size

/-- Contents grow, or nothing changes. -/
theorem grow_leads (hK : K.Fits) (hn : W.pool.nodes id = some n) (ho : W.opens id = some o) (target : Nat) :
    Leads (Mounts K) W (grow ⟨id⟩ target) fun res W' =>
      (∃ n', res = .ok () ∧ W.Becomes id n' W' ∧ Grown K W n target n' W') ∨
        ∃ e, res = .error (.failed e) ∧ W.Stays K W' ∧
          Pool.Refused K W.pool target (totalBlocks target - totalBlocks n.size) e := by
  refine leads_of_bare fun hlive => ?_
  refine Yields.bind (entry_of_open hn ho) ?_
  refine Leads.bind (onDisk_leads (Pool.grow_leads hK hn target)) ?_ ?_
  · rintro r ⟨P, reg⟩ ⟨rfl, res, hr, ⟨n', rfl, hnodes, hheld, hdir, hsize, hbyte, howned, hcont, hle, hfree⟩ |
      ⟨e, rfl, -⟩⟩
    swap
    · cases hr
    cases hr
    refine Leads.mono (insert_yields id _) ?_
    rintro res B ⟨rfl, rfl⟩
    -- The new record is put where the others find it.
    obtain ⟨hentry, hlive', hbecomes⟩ := becomes_of_bare hlive ho hnodes hheld
    exact ⟨_, rfl, hentry, hlive', .inl ⟨n', rfl, hbecomes, hdir, hsize, hbyte, howned, hcont, hle, hfree⟩⟩
  · rintro e ⟨P, reg⟩ ⟨rfl, res, hr, ⟨n', rfl, -⟩ | ⟨e', rfl, hnodes, hheld, hleak, hwhy⟩⟩
    · cases hr
    cases hr
    obtain ⟨hentry, hlive'⟩ := same_of_bare hlive hnodes
    exact ⟨_, rfl, hentry, hlive', .inr ⟨e', rfl, ⟨hnodes, hheld, rfl, hleak⟩, hwhy⟩⟩

theorem checkWritable_leads (hn : W.pool.nodes id = some n) (ho : W.opens id = some o) :
    Leads (Mounts K) W (checkWritable ⟨id⟩) fun res W' => W' = W ∧
      ((0 < o.denials ∧ res = .error (.failed .writeDenied)) ∨ (o.denials = 0 ∧ res = .ok ())) := by
  refine Yields.bind (open_entry_yields hn ho) ?_
  by_cases hd : 0 < o.denials
  · rw [if_pos hd]
    exact Leads.fail ⟨rfl, .inl ⟨hd, rfl⟩⟩
  · rw [if_neg hd]
    exact Leads.pure ⟨rfl, .inr ⟨by omega, rfl⟩⟩

/-- The contents of an inode have been written over, and have grown before if they had to. -/
structure Wrote (K : Regime) (W : World) (n : Node) (offset : Nat) (data : ByteArray) (k : Nat)
    (n' : Node) (W' : World) : Prop where
  isDirectory : n'.record.isDirectory = n.record.isDirectory
  size : n'.size = max n.size (offset + data.size)
  byte : n'.byte = overwrite n.byte offset data k
  owned : n.owned ⊆ n'.owned
  count : k = data.size ∨ (K.faulty ∧ k ≤ data.size)
  fits : offset + data.size ≤ n.size ∨ offset + data.size ≤ maxFileSize
  free : K.free W'.pool.store.used + totalBlocks n'.size =
    K.free W.pool.store.used + totalBlocks n.size

/-- Writing over contents that reach far enough. -/
theorem transfer_write_leads (hn : W.pool.nodes id = some n) (ho : W.opens id = some o) {offset : Nat}
    {data : ByteArray} (hend : offset + data.size ≤ n.size) :
    Leads (Mounts K) W (VolumeM.transfer (n.record.write offset data)) fun res W' =>
      ∃ k, res = .ok k ∧ W.Becomes id (n.written offset data k) W' ∧
        W'.pool.store.used = W.pool.store.used ∧ (k = data.size ∨ (K.faulty ∧ k ≤ data.size)) := by
  refine leads_of_bare fun hlive => ?_
  refine Leads.mono (transfer_leads (Pool.write_node_replies hn hend)) ?_
  rintro res ⟨P, reg⟩ ⟨rfl, k, rfl, hnodes, hheld, hused, hk⟩
  obtain ⟨hentry, hlive', hbecomes⟩ := becomes_of_bare hlive ho hnodes hheld
  refine ⟨_, rfl, ?_, hlive', k, rfl, hbecomes, hused, hk⟩
  rw [hentry]
  exact Function.update_eq_self_iff.2 (World.entry_of_some ho hn).symm

/-- Writing is refused while it is denied. Otherwise contents are written over, or could not grow and
nothing changes. -/
theorem write_leads (hK : K.Fits) (hn : W.pool.nodes id = some n) (ho : W.opens id = some o) (offset : Nat)
    (data : ByteArray) :
    Leads (Mounts K) W (write ⟨id⟩ offset data) fun res W' =>
      (0 < o.denials ∧ res = .error (.failed .writeDenied) ∧ W' = W) ∨
        (o.denials = 0 ∧ data.isEmpty = true ∧ res = .ok 0 ∧ W' = W) ∨
        (o.denials = 0 ∧ data.isEmpty = false ∧ ∃ k n', res = .ok k ∧ W.Becomes id n' W' ∧
          Wrote K W n offset data k n' W') ∨
        (o.denials = 0 ∧ data.isEmpty = false ∧ n.size < offset + data.size ∧
          ∃ e, res = .error (.failed e) ∧ W.Stays K W' ∧
            Pool.Refused K W.pool (offset + data.size)
              (totalBlocks (offset + data.size) - totalBlocks n.size) e) := by
  refine Leads.bind (checkWritable_leads hn ho) ?_ ?_
  swap
  · rintro e W' ⟨rfl, ⟨hd, he⟩ | ⟨-, he⟩⟩
    · cases he
      exact .inl ⟨hd, rfl, rfl⟩
    · cases he
  rintro v W' ⟨rfl, ⟨-, hv⟩ | ⟨hd, -⟩⟩
  · cases hv
  by_cases hempty : data.isEmpty = true
  · rw [if_pos hempty]
    exact Leads.pure (.inr (.inl ⟨hd, hempty, rfl, rfl⟩))
  rw [if_neg hempty]
  have hempty : data.isEmpty = false := by simpa using hempty
  refine Yields.bind (length_yields hn ho) ?_
  -- Contents grow to the end of what is written before any of it is written.
  by_cases hlong : n.size < offset + data.size
  · rw [if_pos hlong]
    refine Leads.bind (grow_leads hK hn ho _) ?_ ?_
    · rintro v W₁ (⟨n₁, -, hbecomes, hgrown⟩ | ⟨e, hv, -⟩)
      swap
      · cases hv
      have hsize : n₁.size = offset + data.size := by
        rw [hgrown.size]
        omega
      have ho₁ : W₁.opens id = some o := by rw [hbecomes.opens, ho]
      refine Yields.bind (open_entry_yields hbecomes.node ho₁) ?_
      refine Leads.mono (transfer_write_leads hbecomes.node ho₁ (Nat.le_of_eq hsize.symm)) ?_
      rintro res W₂ ⟨k, rfl, hbecomes₂, hused, hk⟩
      refine .inr (.inr (.inl ⟨hd, hempty, k, _, rfl, hbecomes.trans hbecomes₂, hgrown.isDirectory,
        hgrown.size, ?_, hgrown.owned, hk, .inr hgrown.le, ?_⟩))
      · simp only [Node.written, hgrown.byte]
      · rw [hused]
        exact hgrown.free
    · rintro e W₁ (⟨n₁, hv, -⟩ | ⟨e', hv, hstays, hwhy⟩)
      · cases hv
      · cases hv
        exact .inr (.inr (.inr ⟨hd, hempty, hlong, e', rfl, hstays, hwhy⟩))
  · rw [if_neg hlong]
    refine Yields.bind (open_entry_yields hn ho) ?_
    refine Leads.mono (transfer_write_leads hn ho (by omega)) ?_
    rintro res W₂ ⟨k, rfl, hbecomes, hused, hk⟩
    have hsize : (n.written offset data k).size = n.size := rfl
    refine .inr (.inr (.inl ⟨hd, hempty, k, _, rfl, hbecomes, rfl, ?_, rfl, List.Subset.refl _, hk,
      .inl (by omega), ?_⟩))
    · rw [hsize]
      omega
    · rw [hused, hsize]

/-- The contents of an inode are gone, and of its blocks those of `l` have been given back. -/
structure Emptied (W : World) (id : UInt32) (n : Node) (l : List UInt32) (n' : Node) (W' : World) : Prop where
  becomes : W.Becomes id n' W'
  isDirectory : n'.record.isDirectory = n.record.isDirectory
  size : n'.size = 0
  byte : n'.byte = fun _ => 0
  returned : l.Subperm n.owned
  used : W'.pool.store.used = marked W.pool.store.used l false

/-- Every block that is given back is free again. -/
theorem Emptied.free {l : List UInt32} {n' : Node} {W' : World} (hK : K.Fits) (hP : W.pool.Sound K)
    (hn : W.pool.nodes id = some n) (h : Emptied W id n l n' W') :
    K.free W'.pool.store.used = K.free W.pool.store.used + l.length := by
  obtain ⟨l', hperm, hsub⟩ := h.returned
  rw [h.used, K.free_returned (hperm.nodup_iff.1 (hsub.nodup (hP.stored id n hn).owned_nodup))]
  intro b hb
  have harea := Pool.mem_area_blocks (Pool.mem_blocks_owned hn (h.returned.subset hb))
  exact ⟨hP.mem_area_lt hK harea, hP.used id b harea⟩

/-- Emptying is refused while writing is denied. Otherwise the contents are gone, unless a failing write
keeps the emptied record from being stored. An error is reported also if blocks could not be given back. -/
theorem clear_empties (hK : K.Fits) (hn : W.pool.nodes id = some n) (ho : W.opens id = some o) :
    Leads (Mounts K) W (clear ⟨id⟩) fun res W' =>
      (0 < o.denials ∧ res = .error (.failed .writeDenied) ∧ W' = W) ∨
        (o.denials = 0 ∧ ∃ n' l, Emptied W id n l n' W' ∧ ((res = .ok () ∧ l.Perm n.owned) ∨
          (K.faulty ∧ ¬l.Perm n.owned ∧ res = .error (.failed (.device .io))))) ∨
        (o.denials = 0 ∧ K.faulty ∧ res = .error (.failed (.device .io)) ∧ W' = W) := by
  refine Leads.bind (checkWritable_leads hn ho) ?_ ?_
  swap
  · rintro e W' ⟨rfl, ⟨hd, he⟩ | ⟨-, he⟩⟩
    · cases he
      exact .inl ⟨hd, rfl, rfl⟩
    · cases he
  rintro v W' ⟨rfl, ⟨-, hv⟩ | ⟨hd, -⟩⟩
  · cases hv
  refine leads_of_bare fun hlive => Leads.of_shown fun v₀ hv₀ => ?_
  have hstored := hv₀.disk.sound.stored id n hn
  refine Yields.bind (entry_of_open hn ho) ?_
  refine Leads.bind (onDisk_leads (Pool.truncate_leads hK hn)) ?_ ?_
  swap
  · rintro e ⟨P, reg⟩ ⟨rfl, res, hr, ⟨l, n', rfl, -⟩ | ⟨hf, rfl, rfl⟩⟩
    · cases hr
    · cases hr
      exact ⟨_, rfl, rfl, hlive, .inr (.inr ⟨hd, hf, rfl, rfl⟩)⟩
  rintro r ⟨P, reg⟩ ⟨rfl, res, hr, ⟨l, n', rfl, hl, hnodes, hheld, hused, hdir, hsize, hbyte⟩ |
    ⟨-, rfl, -⟩⟩
  swap
  · cases hr
  cases hr
  refine Yields.bind (insert_yields id _) ?_
  -- Once the emptied record is stored the old blocks are held, and only then given back.
  have hdata (b : UInt32) (hb : b ∈ l) : K.IsData b.toNat := hstored.owned_data (hl.mem_iff.1 hb)
  refine Leads.mono (onDisk_leads (Pool.releaseEach_held hK hheld hdata)) ?_
  rintro r ⟨P₂, reg⟩ ⟨rfl, res, rfl, hnodes₂, hheld₂, l', hreturned⟩
  obtain ⟨hentry, hlive', hbecomes⟩ := becomes_of_bare hlive ho (hnodes₂.trans hnodes) hheld₂
  refine ⟨_, rfl, hentry, hlive', .inr (.inl ⟨hd, n', l', ⟨hbecomes, hdir, hsize, hbyte,
    hreturned.sublist.subperm.trans hl.subperm, ?_⟩, ?_⟩)⟩
  · show P₂.store.used = _
    rw [hreturned.store, Store.mark_used, hused]
  rcases hreturned.outcome with ⟨rfl, rfl⟩ | ⟨hf, hne, rfl⟩
  · exact .inl ⟨rfl, hl⟩
  · exact .inr ⟨hf, fun hperm => hne (hreturned.sublist.eq_of_length (hperm.trans hl.symm).length_eq), rfl⟩

/-- What emptying comes to, without a look at which blocks are left. -/
theorem clear_leads (hK : K.Fits) (hn : W.pool.nodes id = some n) (ho : W.opens id = some o) :
    Leads (Mounts K) W (clear ⟨id⟩) fun res W' =>
      (0 < o.denials ∧ res = .error (.failed .writeDenied) ∧ W' = W) ∨
        (o.denials = 0 ∧ ∃ n', W.Becomes id n' W' ∧ n'.record.isDirectory = n.record.isDirectory ∧
          n'.size = 0 ∧ n'.byte = (fun _ => 0) ∧
          ((res = .ok () ∧ K.free W'.pool.store.used =
              K.free W.pool.store.used + totalBlocks n.size) ∨
            (K.faulty ∧ (res = .ok () ∨ res = .error (.failed (.device .io)))))) ∨
        (o.denials = 0 ∧ K.faulty ∧ res = .error (.failed (.device .io)) ∧ W' = W) := by
  refine Leads.of_shown fun v hv => Leads.mono (clear_empties hK hn ho) ?_
  rintro res W' (hdenied | ⟨hd, n', l, h, hres⟩ | hfailed)
  · exact .inl hdenied
  · refine .inr (.inl ⟨hd, n', h.becomes, h.isDirectory, h.size, h.byte, ?_⟩)
    rcases hres with ⟨rfl, hall⟩ | ⟨hf, -, rfl⟩
    · refine .inl ⟨rfl, ?_⟩
      rw [h.free hK hv.disk.sound hn, hall.length_eq, (hv.disk.sound.stored id n hn).length_owned]
    · exact .inr ⟨hf, .inr rfl⟩
  · exact .inr (.inr hfailed)

/-! ## Denying writes -/

theorem denyWrite_yields (hn : W.pool.nodes id = some n) (ho : W.opens id = some o)
    (hd : o.denials < o.openers) :
    Yields (Mounts K) W (denyWrite ⟨id⟩) ()
      (W.setOpening id (some { o with denials := o.denials + 1 })) := by
  refine leads_of_bare fun hlive => Yields.bind (entry_of_open hn ho) ?_
  rw [if_pos hd]
  exact setEntry_leads { o with denials := o.denials + 1 } hlive hn ⟨rfl, rfl⟩

theorem allowWrite_yields (hn : W.pool.nodes id = some n) (ho : W.opens id = some o)
    (hd : 0 < o.denials) (hle : o.denials ≤ o.openers) :
    Yields (Mounts K) W (allowWrite ⟨id⟩) ()
      (W.setOpening id (some { o with denials := o.denials - 1 })) := by
  refine leads_of_bare fun hlive => Yields.bind (entry_of_open hn ho) ?_
  rw [if_pos ⟨hd, hle⟩]
  exact setEntry_leads { o with denials := o.denials - 1 } hlive hn ⟨rfl, rfl⟩

/-! ## New inodes -/

/-- Storing a new inode under a block that is held. -/
theorem create_leads (hK : K.Fits) {size : Nat} {isDirectory : Bool} {held : List UInt32}
    (hn : W.pool.nodes id = none) (hheld : W.pool.held = id :: held) :
    Leads (Mounts K) W (create id size isDirectory) fun res W' =>
      (∃ n, res = .ok () ∧ W'.pool.nodes = Function.update W.pool.nodes id (some n) ∧
          W'.pool.held = held ∧ W'.opens = W.opens ∧ n.record.isDirectory = isDirectory ∧
          n.size = size ∧ n.byte = (fun _ => 0) ∧ size ≤ maxFileSize ∧
          (∀ b ∈ n.owned, ∀ i, i < b.toNat → W'.pool.store.used i = true) ∧
          K.free W'.pool.store.used + totalBlocks size = K.free W.pool.store.used) ∨
        ∃ e, res = .error (.failed e) ∧ W.Stays K W' ∧
          Pool.Refused K W.pool size (totalBlocks size) e := by
  refine leads_of_bare fun hlive => Leads.mono (onDisk_leads (Pool.create_leads hK hn hheld)) ?_
  rintro res ⟨P, reg⟩ ⟨rfl, r, rfl, ⟨n, rfl, hnodes, hheld', hdir, hsize, hbyte, hle, hleast, hfree⟩ |
    ⟨e, rfl, hnodes, hheld', hleak, hwhy⟩⟩
  · -- Nothing is open under a number without an inode, so the registry stays as it is.
    have hclosed : W.opens id = none := by
      by_contra ho
      exact hlive id ho hn
    refine ⟨⟨P, W.opens⟩, rfl, ?_, fun i hi => ?_, .inl ⟨n, rfl, hnodes, hheld', rfl, hdir, hsize,
      hbyte, hle, hleast, hfree⟩⟩
    · rw [World.entry_eq_update W ⟨P, W.opens⟩ id (fun _ _ => rfl) fun i hi => by
        show P.nodes i = _
        rw [hnodes, Function.update_of_ne hi]]
      refine Function.update_eq_self_iff.2 ?_
      rw [World.entry_of_none hclosed, World.entry_of_none]
      exact hclosed
    · have hne : i ≠ id := by
        rintro rfl
        exact hi hclosed
      show P.nodes i ≠ none
      rw [hnodes, Function.update_of_ne hne]
      exact hlive i hi
  · obtain ⟨hentry, hlive'⟩ := same_of_bare hlive hnodes
    exact ⟨_, rfl, hentry, hlive', .inr ⟨e, rfl, ⟨hnodes, hheld', rfl, hleak⟩, hwhy⟩⟩

end Inode

namespace VolumeM

/-- Taking a block, which is held then. -/
theorem allocate_leads (hK : K.Fits) : Leads (Mounts K) W (allocate 1) fun res W' =>
    (∃ b, res = .ok b ∧ W'.pool.nodes = W.pool.nodes ∧ W'.pool.held = b :: W.pool.held ∧
        W'.opens = W.opens ∧
        K.free W'.pool.store.used + 1 = K.free W.pool.store.used) ∨
      ∃ e, res = .error (.failed e) ∧ W' = W ∧
        ((e = .outOfSpace ∧ K.free W.pool.store.used = 0) ∨ (K.faulty ∧ e = .device .io)) := by
  refine leads_of_bare fun hlive => Leads.mono (onDisk_leads (Pool.take_leads hK)) ?_
  rintro res ⟨P, reg⟩ ⟨rfl, r, rfl, ⟨b, rfl, hnodes, hheld, hfree⟩ | ⟨e, rfl, rfl, hwhy⟩⟩
  · obtain ⟨hentry, hlive'⟩ := same_of_bare hlive hnodes
    exact ⟨_, rfl, hentry, hlive', .inl ⟨b, rfl, hnodes, hheld, rfl, hfree⟩⟩
  · exact ⟨W, rfl, rfl, hlive, .inr ⟨e, rfl, rfl, hwhy⟩⟩

/-- Giving a block back that is held. If a write fails it is lost. -/
theorem release_leads (hK : K.Fits) {b : UInt32} {held : List UInt32} (hheld : W.pool.held = b :: held)
    (hb : K.IsData b.toNat) : Leads (Mounts K) W (release b 1) fun res W' =>
      Sober res ∧ W'.pool.nodes = W.pool.nodes ∧ W'.pool.held = held ∧ W'.opens = W.opens ∧
        (¬K.faulty → W'.pool.store = W.pool.store.mark (marked W.pool.store.used [b] false)) := by
  refine leads_of_bare fun hlive => Leads.mono (onDisk_leads (Pool.release_held hK hheld hb)) ?_
  rintro res ⟨P, reg⟩ ⟨rfl, r, rfl, hnodes, hheld', l', hreturned⟩
  obtain ⟨hentry, hlive'⟩ := same_of_bare hlive hnodes
  refine ⟨_, rfl, hentry, hlive', ?_, hnodes, hheld', rfl, fun hf => ?_⟩
  · rcases r with e | v
    · exact sober_failed
    · exact sober_ok
  · show P.store = _
    rw [hreturned.store, hreturned.all hf]

end VolumeM

end InodeVolume
