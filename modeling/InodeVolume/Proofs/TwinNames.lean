import InodeVolume.Proofs.SlottedTrees
import InodeVolume.Proofs.TwinVolumes

/-!
# Names on disks that are alike

Linking, unlinking and all that takes paths, on two volumes on disks that are alike. Where a path leads is a
matter of the names, which are the same in both; what is changed there is changed in both. A new inode is
stored in the same block, which is left out of account until then (`newInode_mirrored`).

Paths are any texts here, so all that is kept up is that the tree can be told by its slots (`World.Upheld`).
That is enough for a walk never to come to a block that is not in use.
-/

namespace InodeVolume

open Record

variable {K : Regime} {W : World} {T : Hierarchy} {slot : UInt32 → Nat} {handles : List Handle}
  {id b t x : UInt32} {n n' m : Node} {o ox : Opening} {name : String}

/-- Another store makes no difference to the tree. -/
theorem World.Slotted.onStore (h : W.Slotted T slot handles) (st : Store) :
    (W.onStore st).Slotted T slot handles :=
  h.of_pool (h.pool.of_same fun _ _ => rfl) h.held rfl fun _ => .inl

/-- The world has some tree that is told by slots. -/
def World.Upheld (W : World) (handles : List Handle) : Prop := ∃ T slot, W.Slotted T slot handles

theorem World.Slotted.upheld (h : W.Slotted T slot handles) : W.Upheld handles := ⟨T, slot, h⟩

/-- The handle that was opened last is closed. -/
theorem World.Slotted.close_mirrored {x : Handle} (hK : K.Fits) (hf : ¬K.faulty)
    (h : W.Slotted T slot (handles ++ [x])) :
    Mirrored K W x.target.close fun res W' => res = .ok () ∧ W'.Slotted T slot handles := by
  have hget : (handles ++ [x])[handles.length]? = some x := by simp
  obtain ⟨o, ho⟩ := h.tallied.open_of_handle hget
  have hopen : W.opens x.target.number ≠ none := Option.ne_none_iff_exists'.2 ⟨o, ho⟩
  refine Mirrored.of_shown fun v hv => ?_
  obtain ⟨n, hn⟩ := Option.ne_none_iff_exists'.1 (hv.live x.target.number hopen)
  refine ⟨Leads.mono (Inode.close_leads hK hn ho fun _ hr => h.data_of_doomed hv hn ⟨o, ho, hr⟩) ?_,
    Inode.close_twinned hK hf hopen⟩
  rintro res W' ⟨rfl, hc⟩
  -- The handle was the last one, so the others are what is left of the list.
  have hclosed := h.closed hget ho rfl rfl (by rwa [World.setOpening_same ho])
  rw [List.eraseIdx_append_of_length_le (Nat.le_refl _), Nat.sub_self, List.eraseIdx_cons_zero,
    List.append_nil] at hclosed
  exact ⟨rfl, hclosed⟩

/-! ## Directories -/

namespace Directory

variable {d : Directory} {number : UInt32} {j : Nat}

/-- A slot is stored completely or not at all. -/
theorem writeSlot_mirrored (hK : K.Fits) (hf : ¬K.faulty) (hd : d.inode = ⟨id⟩) (hn : W.pool.nodes id = some n)
    (ho : W.opens id = some o) (offset : Nat) (slot : Slot) :
    Mirrored K W (d.writeSlot offset slot) fun res W' =>
      (res = .ok () ∧ ∃ n', W.Becomes id n' W' ∧ Inode.Wrote K W n offset slot.encode slotSize n' W') ∨
        ((∃ e, res = .error (.failed e)) ∧ W.Stays K W') := by
  refine Mirrored.mono ⟨writeSlot_leads hK hd hn ho offset slot, ?_⟩ ?_
  · unfold writeSlot
    rw [hd]
    refine Twinned.bind (Inode.write_leads hK hn ho offset slot.encode)
      (Inode.write_twinned hK hf hn ho offset slot.encode) fun k W' _ => ?_
    split
    · exact .fail _
    · exact .pure ()
  · -- No write fails here, so the whole slot is written, or nothing is.
    rintro res W' (⟨-, rfl, rfl⟩ | ⟨-, k, n', hbecomes, hwrote, ⟨rfl, rfl⟩ | ⟨hfaulty, -⟩⟩ | ⟨-, -, e, rfl, hstays, -⟩)
    · exact .inr ⟨⟨_, rfl⟩, World.Stays.refl _⟩
    · exact .inl ⟨rfl, n', hbecomes, hwrote⟩
    · exact absurd hfaulty hf
    · exact .inr ⟨⟨e, rfl⟩, hstays⟩

/-- Directory `id` has one entry more, for a name that it had no entry for. -/
structure Entered (W : World) (id : UInt32) (n : Node) (name : String) (number : UInt32) (n' : Node)
    (W' : World) : Prop where
  new : n.child name = none
  becomes : W.Becomes id n' W'
  isDirectory : n'.record.isDirectory = n.record.isDirectory
  size : n'.size = max n.size (n.vacant * slotSize + slotSize)
  entry : ∀ i nm y, n'.EntryAt i nm y ↔
    n.EntryAt i nm y ∨ (i = n.vacant ∧ nm = beforeNul name ∧ y = number)

theorem Entered.of_entry {W' : World} (h : Entered W id n name number n' W') {i : Nat} {nm : String} {y : UInt32}
    (he : n'.EntryAt i nm y) : n.EntryAt i nm y ∨ (i = n.vacant ∧ y = number) :=
  ((h.entry i nm y).1 he).imp_right fun h => ⟨h.1, h.2.2⟩

/-- Under a name that can be kept is the new inode. -/
theorem Entered.child_self {W' : World} (h : Entered W id n name number n' W') (hname : NulFree name) :
    n'.child name = some number := by
  have hself : name = beforeNul name := (beforeNul_of_nulFree hname).symm
  cases hc : n'.child name with
  | none => exact absurd ((h.entry _ _ _).2 (.inr ⟨rfl, hself, rfl⟩)) (Node.child_none_iff.1 hc _ _)
  | some y =>
    obtain ⟨i, -, he⟩ := Node.child_some hc
    rcases (h.entry i name y).1 he with hold | ⟨-, -, rfl⟩
    · exact absurd hold (Node.child_none_iff.1 h.new i y)
    · rfl

/-- Other names than that of the entry stand for what they stood for. -/
theorem Entered.child_of_ne {W' : World} (h : Entered W id n name number n' W') {nm : String}
    (hne : nm ≠ beforeNul name) : n'.child nm = n.child nm :=
  Node.child_congr fun i y => (h.entry i nm y).trans (or_iff_left fun he => hne he.2.1)

/-- A name that can be kept is in no other slot. -/
theorem Entered.tidy {W' : World} (h : Entered W id n name number n' W') (ht : n.Tidy) (hname : NulFree name) :
    n'.Tidy where
  whole := by
    have hw := ht.whole
    rw [h.size]
    simp only [slotSize] at hw ⊢
    omega
  unique i j nm x y hx hy := by
    -- The name was not there, so no old slot is in use for it.
    have hnew (k : Nat) (z : UInt32) (hz : n.EntryAt k nm z) (hnm : nm = beforeNul name) : False := by
      rw [beforeNul_of_nulFree hname] at hnm
      subst hnm
      exact Node.child_none_iff.1 h.new k z hz
    rcases (h.entry i nm x).1 hx with hx | ⟨rfl, hnm, -⟩
    · rcases (h.entry j nm y).1 hy with hy | ⟨rfl, hnm, -⟩
      · exact ht.unique i j nm x y hx hy
      · exact (hnew i x hx hnm).elim
    · rcases (h.entry j nm y).1 hy with hy | ⟨rfl, -⟩
      · exact (hnew j y hy hnm).elim
      · rfl

/-- The names that were there stand for what they stood for. -/
theorem Entered.child_mono {W' : World} (h : Entered W id n name number n' W') (hname : NulFree name)
    {nm : String} {y : UInt32} (hc : n.child nm = some y) : n'.child nm = some y := by
  rw [h.child_of_ne, hc]
  rintro rfl
  rw [beforeNul_of_nulFree hname, h.new] at hc
  cases hc

/-- A name gets an entry, or nothing changes. -/
theorem add_mirrored (hK : K.Fits) (hf : ¬K.faulty) (hd : d.inode = ⟨id⟩) (hn : W.pool.nodes id = some n)
    (ho : W.opens id = some o) (name : String) (number : UInt32) :
    Mirrored K W (d.add name number) fun res W' =>
      (res = .ok () ∧ ∃ n', Entered W id n name number n' W') ∨
        ((∃ e, res = .error (.failed e)) ∧ W.Stays K W') := by
  have hrefused (e : Error) : (∃ e', (.error (.failed e) : Except Stop Unit) = .error (.failed e')) ∧
      W.Stays K W := ⟨⟨e, rfl⟩, World.Stays.refl W⟩
  unfold add
  -- What the tests look at is in use, so both volumes come to the same at each of them.
  by_cases hempty : name.isEmpty = true
  · rw [if_pos hempty]
    exact .fail (.inr (hrefused _))
  rw [if_neg hempty]
  by_cases hshort : name.utf8ByteSize ≤ nameMax
  swap
  · rw [dif_neg hshort]
    exact .fail (.inr (hrefused _))
  rw [dif_pos hshort, hd]
  refine Mirrored.seek hK hf W (fun st => open_entry_yields (W := W.onStore st) hn ho) rfl ?_
  by_cases hremoved : o.removed = true
  · rw [if_pos hremoved]
    exact .failBind (.inr (hrefused _))
  rw [if_neg hremoved]
  refine Mirrored.seek hK hf W (fun st => find_yields (W := W.onStore st) hd hn ho name) rfl ?_
  by_cases hfound : ((n.find name).map fun j => (j * slotSize, n.slot j)).isSome = true
  · rw [if_pos hfound]
    exact .failBind (.inr (hrefused _))
  rw [if_neg hfound]
  have hnew : n.child name = none := (Node.child_eq_none_iff _).2 hfound
  refine Mirrored.seek hK hf W (fun st => search_yields (W := W.onStore st) hd hn ho (Node.vacancy_tells hn)) rfl ?_
  refine Mirrored.mono (writeSlot_mirrored hK hf hd hn ho _ _) ?_
  rintro res W' (⟨rfl, n', hbecomes, hwrote⟩ | hsame)
  · have hfilled : Node.Filled n (Slot.ofName name number (Nat.le_succ_of_le hshort)) slotSize n' :=
      ⟨by rw [hwrote.size, Slot.size_encode], hwrote.byte⟩
    refine .inl ⟨rfl, n', hnew, hbecomes, hwrote.isDirectory, hfilled.size, fun _ _ _ => ?_⟩
    rw [← Slot.name_ofName_cut number (Nat.le_succ_of_le hshort) hshort]
    exact hfilled.entry_iff rfl
  · exact .inr hsame

/-- Freeing the slot of an inode takes it and what is below it out of the tree. -/
theorem vacate_mirrored (hK : K.Fits) (hf : ¬K.faulty) (h : W.Slotted T slot handles) (ht : T.linked t)
    (hn : W.pool.nodes t = some n) (hdir : n.record.isDirectory = true) (ho : W.opens t = some o)
    (hj : n.EntryAt j name x) (hname : isDotName name = false) (hm : W.pool.nodes x = some m)
    (hox : W.opens x = some ox) :
    Mirrored K W (do
      writeSlot { inode := ⟨t⟩ } (j * slotSize) (n.slot j).freed
      Inode.markRemoved ⟨x⟩) fun res W' => Sober res ∧ ∃ T', W'.Slotted T' slot handles := by
  obtain ⟨hx, hx0, hp, hs⟩ := h.pool.slot_entry ht hn hdir hj hname
  have hne : x ≠ t := by
    rintro rfl
    have := (h.pool.grounded.up x hx hx0).2
    rw [hp] at this
    exact Nat.lt_irrefl _ this
  refine Mirrored.bind (writeSlot_mirrored hK hf rfl hn ho _ _) ?_ ?_
  · rintro _ W₁ (⟨-, n', hbecomes, hwrote⟩ | ⟨⟨e, he⟩, -⟩)
    swap
    · cases he
    have hsize : n'.size = n.size := by
      have hlt := hj.lt
      have hsize := hwrote.size
      rw [Slot.size_encode] at hsize
      simp only [Node.slots, slotSize] at hlt hsize ⊢
      omega
    have hentry {i : Nat} {nm : String} {y : UInt32} : n'.EntryAt i nm y ↔ n.EntryAt i nm y ∧ i ≠ j :=
      Node.freed_entry_iff hsize hwrote.byte
    have h₁ : W₁.Slotted T slot handles := h.becomes hbecomes hn hwrote.isDirectory fun _ _ _ _ he =>
      .inl (hentry.1 he).1
    -- The slot that told where `x` is has gone, so the other slots tell the tree without `x`.
    have hpruned : W₁.Slotted (T.prune x) slot handles := by
      refine h₁.of_pool (h₁.pool.prune hx0 fun k nm y hk _ he => ?_) h₁.held rfl fun y hy => .inl hy.1
      rw [hp, hbecomes.node] at hk
      cases hk
      exact (hentry.1 he).2 hs
    have hm₁ : W₁.pool.nodes x = some m := by rw [hbecomes.node_of_ne hne, hm]
    have hox₁ : W₁.opens x = some ox := by rw [hbecomes.opens, hox]
    exact .of_yields hK hf (W₁.setOpening x (some { ox with removed := true }))
      (fun st => Inode.markRemoved_yields (W := W₁.onStore st) hm₁ hox₁) rfl
      ⟨sober_ok, T.prune x, hpruned.marked hox₁ fun hl => hl.2 ⟨0, rfl⟩⟩
  · rintro e W₁ (⟨he, -⟩ | ⟨⟨e', he⟩, hstays⟩)
    · cases he
    · cases he
      exact ⟨sober_failed, T, h.stays hstays⟩

/-- Unlinking comes to the same on both volumes. -/
theorem unlink_mirrored (hK : K.Fits) (hf : ¬K.faulty) (h : W.Slotted T slot handles) (ht : T.linked t)
    (hn : W.pool.nodes t = some n) (hdir : n.record.isDirectory = true) (ho : W.opens t = some o)
    (hj : n.EntryAt j name x) (hname : isDotName name = false) (hm : W.pool.nodes x = some m)
    (hox : W.opens x = some ox) :
    Mirrored K W (unlink { inode := ⟨t⟩ } (j * slotSize) (n.slot j) ⟨x⟩) fun res W' =>
      Sober res ∧ ∃ T', W'.Slotted T' slot handles := by
  have hvacate := vacate_mirrored hK hf h ht hn hdir ho hj hname hm hox
  unfold unlink
  refine Mirrored.seek hK hf W (fun st => Inode.isDirectory_yields (W := W.onStore st) hm hox) rfl ?_
  split
  · refine Mirrored.seek hK hf W
      (fun st => isEmpty_scans (W := W.onStore st) (d := { inode := ⟨x⟩ }) rfl hm hox) rfl ?_
    split
    · exact .failBind ⟨sober_failed, T, h⟩
    · exact hvacate
  · exact hvacate

/-- Unlinking a name keeps a tree that is told by slots. -/
theorem remove_mirrored (hK : K.Fits) (hf : ¬K.faulty) (h : W.Slotted T slot handles) (ht : T.linked t)
    (hn : W.pool.nodes t = some n) (hdir : n.record.isDirectory = true) (ho : W.opens t = some o)
    (name : String) :
    Mirrored K W (remove { inode := ⟨t⟩ } name) fun res W' => Sober res ∧ W'.Upheld handles := by
  unfold remove
  by_cases hdot : isDotName name = true
  · rw [if_pos hdot]
    exact .failBind ⟨sober_failed, h.upheld⟩
  rw [if_neg hdot]
  have hdot : isDotName name = false := by simpa using hdot
  show Mirrored K W ((find { inode := ⟨t⟩ } name) >>= _) _
  refine Mirrored.seek hK hf W
    (fun st => find_yields (W := W.onStore st) (d := { inode := ⟨t⟩ }) rfl hn ho name) rfl ?_
  -- The same slot is found on both volumes, and what it stands for is opened on both.
  cases hfound : n.find name with
  | none => exact .fail ⟨sober_failed, h.upheld⟩
  | some j =>
    have hj := Node.find_some hfound
    generalize hx : (n.slot j).number = x at hj
    have hxl := h.pool.linked_entry ht hn hdir hj
    obtain ⟨m, hm⟩ := Option.ne_none_iff_exists'.1 (h.pool.stored x hxl)
    dsimp only [Option.map_some]
    rw [hx]
    refine Mirrored.seek hK hf (W.opened x) (fun st => Inode.acquire_yields (W := W.onStore st) hK hm) rfl ?_
    have hopened := h.opened (.inode ⟨x⟩)
    obtain ⟨o', ho'⟩ : ∃ o', (W.opened x).opens t = some o' := by
      by_cases htx : t = x
      · subst htx
        exact ⟨_, W.opened_opens_self t⟩
      · exact ⟨o, by rw [World.opened_opens_of_ne W htx, ho]⟩
    refine Mirrored.andThen (unlink_mirrored (W := W.opened x) hK hf hopened ht hn hdir ho' hj hdot hm
      (W.opened_opens_self x)) (fun _ _ h => h.1) ?_
    rintro r V ⟨hsober, T', h'⟩
    exact (h'.close_mirrored hK hf).mono fun _ _ h => ⟨h.1, hsober, h.2.upheld⟩

end Directory

/-! ## Paths -/

namespace Volume

variable {path cwd : String} {size : Nat} {isDirectory : Bool} {α β : Type}

theorem walk_mirrored (hK : K.Fits) (hf : ¬K.faulty) (h : W.Slotted T slot handles) (path : String) :
    Mirrored K W (walk path) (W.Arrives directoryAt (W.pool.resolve rootInode (Path.components path))) :=
  .of_arrives hK hf fun st =>
    walk_leads (W := W.onStore st) hK (h.onStore st).pool.walkable h.attended path

/-- What is done in the directory at a path keeps what it finds, and the directory is closed again. -/
theorem within_mirrored {x : Directory → VolumeM α} (hK : K.Fits) (hf : ¬K.faulty) (h : W.Slotted T slot handles)
    (hx : ∀ t n, W.pool.resolve rootInode (Path.components path) = .ok t → T.linked t →
      W.pool.nodes t = some n → n.record.isDirectory = true → Mirrored K (W.opened t) (x { inode := ⟨t⟩ })
        fun r W₁ => Sober r ∧ W₁.Upheld (handles ++ [.directory (directoryAt t)])) :
    Mirrored K W (within path x) fun r W' => Sober r ∧ W'.Upheld handles := by
  refine Mirrored.bind (walk_mirrored hK hf h path) ?_ ?_
  · intro d W' hd
    -- A walk comes to the same directory on both volumes, and to the same error if there is none.
    cases hr : W.pool.resolve rootInode (Path.components path) with
    | error e =>
      rw [hr] at hd
      cases hd.1
    | ok t =>
      rw [hr] at hd
      obtain ⟨hd, rfl⟩ := hd
      cases hd
      obtain ⟨ht, hdir⟩ := h.pool.walkable.ends h.pool.grounded.root h.pool.rootDirectory hr
      obtain ⟨n, hn, hdir⟩ := Pool.isDirectory_node hdir
      refine Mirrored.andThen (hx t n hr ht hn hdir) (fun _ _ h => h.1) ?_
      rintro r W₁ ⟨hsober, T', slot', h'⟩
      exact (h'.close_mirrored hK hf).mono fun _ _ h => ⟨h.1, hsober, h.2.upheld⟩
  · intro e W' he
    cases hr : W.pool.resolve rootInode (Path.components path) with
    | error e' =>
      rw [hr] at he
      obtain ⟨he, rfl⟩ := he
      cases he
      exact ⟨sober_failed, h.upheld⟩
    | ok t =>
      rw [hr] at he
      cases he.1

/-- Nothing is done where a path leads nowhere. -/
theorem within_nowhere {x : Directory → VolumeM α} {e : Error} (hK : K.Fits) (hf : ¬K.faulty)
    (h : W.Slotted T slot handles) (hr : W.pool.resolve rootInode (Path.components path) = .error e) :
    Mirrored K W (within path x) fun r W' => r = .error (.failed e) ∧ W' = W := by
  refine Mirrored.bind (walk_mirrored hK hf h path) ?_ ?_
  · intro d W' hd
    rw [hr] at hd
    cases hd.1
  · intro e' W' he
    rw [hr] at he
    obtain ⟨he, rfl⟩ := he
    cases he
    exact ⟨rfl, rfl⟩

/-! ## Creating -/

theorem giveUp_twinned (hK : K.Fits) (hf : ¬K.faulty) (hm : W.pool.nodes b = some m) :
    Twinned K W (giveUp b) := by
  refine Echoes.ignoring ?_
  refine Twinned.seek hK hf (W.opened b) (fun st => Inode.acquire_yields (W := W.onStore st) hK hm) rfl ?_
  refine Twinned.seek hK hf ((W.opened b).setOpening b (some { World.moreOpen (W.opens b) with removed := true }))
    (fun st => Inode.markRemoved_yields (W := (W.opened b).onStore st) hm (W.opened_opens_self b)) rfl ?_
  exact Inode.close_twinned hK hf (by simp)

/-- The block of the new inode is known when its record is stored, and free again if it could not be. -/
theorem storeInode_twinned (hK : K.Fits) (hf : ¬K.faulty) (hfresh : W.pool.nodes b = none)
    (hheld : W.pool.held = [b]) (size : Nat) (isDirectory : Bool) :
    Echoes (Twins K [b] W)
      (orUndo (if isDirectory then Directory.create b 0 else Inode.create b size false)
        (VolumeM.ignoring (VolumeM.release b 1))) fun _ => Paired K (InodeVolume.Twins K []) := by
  -- A directory is made as an inode of no bytes, so both kinds are one case.
  have hcreate : (if isDirectory then Directory.create b 0 else Inode.create b size false) =
      Inode.create b (if isDirectory then 0 else size) isDirectory := by
    cases isDirectory <;> rfl
  rw [hcreate]
  refine Echoes.leadsOrUndo (Inode.create_leads hK hfresh hheld) ?_ (Inode.create_twins hK hf hheld _ _)
    (fun _ _ h => h) ?_
  · rintro r W₂ (⟨m, rfl, -⟩ | ⟨e, rfl, -⟩)
    · exact sober_ok
    · exact sober_failed
  · rintro e W₂ (⟨m, he, -⟩ | ⟨e', -, hstays, -⟩)
    · cases he
    · exact VolumeM.unused_twins hK hf (by rw [hstays.held, hheld]; exact List.mem_singleton_self b)

/-- Taking a block and storing a new inode in it, which has no name yet. -/
theorem newInode_mirrored {rest : UInt32 → VolumeM β} {Q : Except Stop β → World → Prop} (hK : K.Fits)
    (hf : ¬K.faulty) (hroot : W.pool.nodes rootInode ≠ none) (hheld : W.pool.held = [])
    (hrest : ∀ b m W₂, Nameless K W size isDirectory b m W₂ → Mirrored K W₂ (rest b) Q)
    (hfail : ∀ e W₂, W₂.opens = W.opens → W₂.pool.held = [] → W₂.pool.nodes = W.pool.nodes →
      Q (.error (.failed e)) W₂) :
    Mirrored K W (do
      let number ← VolumeM.allocate 1
      orUndo (if isDirectory then Directory.create number 0 else Inode.create number size false)
        (VolumeM.ignoring (VolumeM.release number 1))
      rest number) Q := by
  refine ⟨newInode_leads hK hroot hheld (fun b m W₂ h₂ => (hrest b m W₂ h₂).leads) hfail, ?_⟩
  -- The same block is taken on both volumes. It was free, so neither of them has anything under its number.
  refine Echoes.leadsBind (VolumeM.allocate_leads hK) (VolumeM.allocate_twins hK hf) ?_ fun _ _ _ _ _ h => h
  rintro b W₁ (⟨b', hb, hnodes₁, hheld₁, hopens₁, hfree₁⟩ | ⟨e, he, -⟩)
  swap
  · cases he
  cases hb
  refine Echoes.of_related fun v w hvw => ?_
  obtain ⟨hb, hdata, hclosed⟩ := unopened_fresh hvw.1 (.inl hroot) hnodes₁ hopens₁ hheld₁
  rw [hheld] at hheld₁
  refine (Echoes.leadsBind (storeInode_settles hK hb hdata hclosed hnodes₁ hheld₁ hopens₁ hfree₁)
    (storeInode_twinned hK hf (hnodes₁ ▸ hb) hheld₁ size isDirectory) ?_ fun _ _ _ _ _ h => h).of_imp ?_
  · rintro v' W₂ (⟨-, m, h₂⟩ | ⟨⟨e, he⟩, -⟩)
    · exact (hrest b m W₂ h₂).twinned
    · cases he
  · rintro _ _ ⟨rfl, rfl⟩
    exact hvw

section CreateIn

variable {W₂ W₃ : World} {parent : String}

/-- Without a name in the directory, the new inode is given up. -/
theorem linkName_mirrored (hK : K.Fits) (hf : ¬K.faulty) (h : W.Slotted T slot handles)
    (hn : W.pool.nodes t = some n) (ho : W.opens t = some o) (h₂ : Nameless K W size isDirectory b m W₂)
    (name : String) :
    Mirrored K W₂ (orUndo (Directory.add { inode := ⟨t⟩ } name b) (giveUp b)) fun res W₃ =>
      (res = .ok () ∧ ∃ n', Directory.Entered W₂ t n name b n' W₃) ∨
        ((∃ e, res = .error (.failed e)) ∧ W₃.Upheld handles) := by
  have hn₂ := h₂.node hn
  refine Mirrored.orUndo (Directory.add_mirrored hK hf rfl hn₂ (by rw [h₂.opens, ho]) name b) ?_ ?_ ?_
  · rintro r W₃ (⟨rfl, -⟩ | ⟨⟨e, rfl⟩, -⟩)
    · exact sober_ok
    · exact sober_failed
  · rintro W₃ (hentered | ⟨⟨e, he⟩, -⟩)
    · exact .inl hentered
    · cases he
  · rintro e W₃ (⟨he, -⟩ | ⟨-, hstays⟩)
    · cases he
    -- If the name is not linked, the new inode is given up, and there is what was there before.
    have hbecomes : W₂.Becomes t n W₃ :=
      ⟨by rw [hstays.nodes, Function.update_eq_self_iff.2 hn₂.symm], hstays.held, hstays.opens⟩
    have hm : W₃.pool.nodes b = some m := by rw [hstays.nodes, h₂.nodes, Function.update_self]
    refine ⟨Leads.mono (h₂.giveUp_leads hK hn hbecomes) ?_, giveUp_twinned hK hf hm⟩
    rintro u W' ⟨rfl, hopens, hheld, hnodes⟩
    refine ⟨rfl, .inr ⟨⟨e, rfl⟩, World.Slotted.upheld (h.of_pool (h.pool.of_same fun y _ => ?_) hheld hopens
      fun _ => .inl)⟩⟩
    rw [hnodes, Function.update_eq_self_iff.2 hn.symm]

/-- With its name the new inode is in the tree. -/
theorem Nameless.entered (h₂ : Nameless K W size isDirectory b m W₂) (h : W.Slotted T slot handles)
    (ht : T.linked t) (hn : W.pool.nodes t = some n) (h₃ : Directory.Entered W₂ t n name b n' W₃) :
    W₃.Slotted (T.link b t name) (Function.update slot b n.vacant) handles := by
  refine h.of_pool (h.pool.link ht hn h₂.fresh h₃.isDirectory (m := m) ?_ (fun hd => ?_)
    (fun _ _ _ => h₃.of_entry) name) (h₃.becomes.held.trans h₂.held) (h₃.becomes.opens.trans h₂.opens) ?_
  · rw [h₃.becomes.nodes, h₂.nodes]
  · rw [h₂.length, if_pos (h₂.kind ▸ hd)]
  · rintro x (hx | rfl)
    · exact .inl hx
    · exact .inr h₂.closed

/-- Where the path to a new directory leads anywhere, it leads to the new directory. -/
theorem Nameless.resolve (h₂ : Nameless K W size true b m W₂) (h : W.Slotted T slot handles)
    (hn : W.pool.nodes t = some n) (hdir : n.record.isDirectory = true)
    (hpath : W.pool.resolve rootInode (Path.components parent) = .ok t) (hclosed : Path.Closed parent.toList)
    (hword : Path.Word name.toList) (hne : name.isEmpty = false) (h₃ : Directory.Entered W₂ t n name b n' W₃)
    (hx : W₃.pool.resolve rootInode (Path.components (parent ++ name)) = .ok x) : x = b := by
  rw [Path.components_append hclosed hword hne] at hx
  have hname : NulFree name := Pool.nulFree_of_resolve hx name (by simp)
  have hnt₃ : W₃.pool.nodes t = some n' := h₃.becomes.node
  have hdir' : n'.record.isDirectory = true := h₃.isDirectory.trans hdir
  have hother (y : UInt32) (hy : T.linked y) (hyt : y ≠ t) : W₃.pool.nodes y = W.pool.nodes y := by
    rw [h₃.becomes.node_of_ne hyt, h₂.nodes, Function.update_of_ne]
    rintro rfl
    exact h.pool.stored y hy h₂.fresh
  -- The parent is reached as before, as all entries that were there have been kept.
  have hparent : W₃.pool.resolve rootInode (Path.components parent) = .ok t := by
    refine h.pool.walkable.resolve_mono (fun y hy => ?_) (fun d nm y hd hc => ?_) h.pool.grounded.root hpath
    · by_cases hyt : y = t
      · rw [hyt, Pool.isDirectory_of_node hnt₃, Pool.isDirectory_of_node hn, hdir, hdir']
      · simp only [Pool.isDirectory, hother y hy hyt]
    · by_cases hdt : d = t
      · rw [hdt, Pool.child_of_node hn hdir] at hc
        rw [hdt, Pool.child_of_node hnt₃ hdir']
        exact h₃.child_mono hname hc
      · simpa only [Pool.child, hother d hd hdt] using hc
  rw [Pool.resolve_concat_iff, hparent] at hx
  obtain ⟨t', ht', hchild, -⟩ := hx
  cases ht'
  rw [Pool.child_of_node hnt₃ hdir', h₃.child_self hname] at hchild
  exact (Option.some_inj.1 hchild).symm

/-- Linking the two entries of its own into a directory that is open. -/
theorem addDots_twinned (hK : K.Fits) (hf : ¬K.faulty) (hm : W.pool.nodes b = some m) (ho : W.opens b = some o)
    (t : UInt32) : Twinned K W (do
      Directory.add { inode := ⟨b⟩ } "." b
      Directory.add { inode := ⟨b⟩ } ".." t) := by
  have hdot := Directory.add_mirrored (d := { inode := ⟨b⟩ }) hK hf rfl hm ho "." b
  refine Twinned.bind hdot.leads hdot.twinned ?_
  rintro _ W₁ (⟨-, m', hentered⟩ | ⟨⟨e, he⟩, -⟩)
  · exact (Directory.add_mirrored hK hf rfl hentered.becomes.node (by rw [hentered.becomes.opens, ho]) _ _).twinned
  · cases he

/-- What is done in the directory at a path, which stays open for it. -/
theorem within_twinned {x : Directory → VolumeM α} (hK : K.Fits) (hf : ¬K.faulty) (h : W.Slotted T slot handles)
    (hr : W.pool.resolve rootInode (Path.components path) = .ok t)
    (hl : Leads (Mounts K) (W.opened t) (x { inode := ⟨t⟩ }) fun _ W₁ => W₁.opens t ≠ none)
    (hx : Twinned K (W.opened t) (x { inode := ⟨t⟩ })) : Twinned K W (within path x) := by
  have hwalk := walk_mirrored hK hf h path
  refine Twinned.bind hwalk.leads hwalk.twinned fun d W' hd => ?_
  rw [hr] at hd
  obtain ⟨hd, rfl⟩ := hd
  cases hd
  exact Twinned.andThen hl hx fun r W₁ ho => Inode.close_twinned hK hf ho

/-- The new directory is unlinked again if it does not get both entries of its own. -/
theorem linkDots_mirrored (hK : K.Fits) (hf : ¬K.faulty) (h : W.Slotted T slot handles) (ht : T.linked t)
    (hn : W.pool.nodes t = some n) (hdir : n.record.isDirectory = true) (ho : W.opens t = some o)
    (hpath : W.pool.resolve rootInode (Path.components parent) = .ok t) (hclosed : Path.Closed parent.toList)
    (hword : Path.Word name.toList) (hne : name.isEmpty = false) (h₂ : Nameless K W size true b m W₂)
    (h₃ : Directory.Entered W₂ t n name b n' W₃) :
    Mirrored K W₃ (orUndo (linkDots (parent ++ name) b t)
      (VolumeM.ignoring (Directory.remove { inode := ⟨t⟩ } name))) fun res W' =>
        Sober res ∧ W'.Upheld handles := by
  have hbt : t ≠ b := h₂.ne hn
  have hs₃ := h₂.entered h ht hn h₃
  have hundo {e : Error} {W₄ : World} (h₄ : W₄.Slotted (T.link b t name) (Function.update slot b n.vacant) handles)
      (hn₄ : W₄.pool.nodes t = some n') (ho₄ : W₄.opens t = some o) :
      Mirrored K W₄ (VolumeM.ignoring (Directory.remove { inode := ⟨t⟩ } name)) fun u W' =>
        u = .ok () ∧ Sober (.error (.failed e) : Except Stop Unit) ∧ W'.Upheld handles :=
    Mirrored.ignoring (Directory.remove_mirrored hK hf h₄ (.inl ht) hn₄ (h₃.isDirectory.trans hdir) ho₄ name)
      fun _ _ h => ⟨h.1, rfl, sober_failed, h.2⟩
  have ho₃ : W₃.opens t = some o := by rw [h₃.becomes.opens, h₂.opens, ho]
  cases hr : W₃.pool.resolve rootInode (Path.components (parent ++ name)) with
  | error e =>
    -- The path leads nowhere, so nothing is linked, and the name is taken back.
    refine Mirrored.orUndo (within_nowhere hK hf hs₃ hr) ?_ ?_ ?_
    · rintro r W₄ ⟨rfl, -⟩
      exact sober_failed
    · rintro W₄ ⟨he, -⟩
      cases he
    · rintro e' W₄ ⟨-, rfl⟩
      exact hundo hs₃ h₃.becomes.node ho₃
  | ok y =>
    obtain rfl := h₂.resolve h hn hdir hpath hclosed hword hne h₃ hr
    have hm₃ : W₃.pool.nodes y = some m := by
      rw [h₃.becomes.node_of_ne hbt.symm, h₂.nodes, Function.update_self]
    have hclosed₃ : W₃.opens y = none := by rw [h₃.becomes.opens, h₂.opens, h₂.closed]
    have hopened : (W₃.opened y).opens y = some ⟨1, false, 0⟩ := by
      rw [W₃.opened_opens_self, hclosed₃]
      rfl
    have hempty : m.size = 0 := h₂.length
    have hdots := Volume.linkDots_leads (t := t) hK hs₃.pool.walkable hs₃.attended hr hm₃ hclosed₃ h₂.kind hempty
    have hopen : Leads (Mounts K) (W₃.opened y) (do
        Directory.add { inode := ⟨y⟩ } "." y
        Directory.add { inode := ⟨y⟩ } ".." t) fun _ W₁ => W₁.opens y ≠ none := by
      obtain ⟨htidy, hchild⟩ := empty_table hempty
      refine Leads.mono (addDots_leads (W := W₃.opened y) (t := t) hK hm₃ hopened rfl rfl h₂.kind htidy hchild) ?_
      rintro res W₁ ⟨m', hbecomes, -⟩
      simp [hbecomes.opens, hopened]
    refine Mirrored.orUndo ⟨hdots, within_twinned hK hf hs₃ hr hopen
      (addDots_twinned (W := W₃.opened y) hK hf hm₃ hopened t)⟩ (fun _ _ h => h.1) ?_ ?_
    -- With none of its entries, one or both, the new directory leaves a tree that is told by slots.
    all_goals
      have hkept {m' : Node} {W₄ : World} (hb : W₃.Becomes y m' W₄) (hbud : Bud y t m') :
          W₄.Slotted (T.link y t name) (Function.update slot y n.vacant) handles := by
        refine hs₃.becomes hb hm₃ (hbud.isDirectory.trans h₂.kind.symm) fun _ j nm z he => .inr ?_
        rcases hbud.own nm z (hbud.tidy.child_eq he) with ⟨rfl, rfl⟩ | ⟨rfl, rfl⟩
        · exact ⟨by decide, .inl rfl⟩
        · exact ⟨by decide, .inr (Function.update_self y z T.parent).symm⟩
    · rintro W₄ ⟨hsober, m', hb, hbud, -⟩
      exact ⟨hsober, (hkept hb hbud).upheld⟩
    · rintro e W₄ ⟨-, m', hb, hbud, -⟩
      exact hundo (hkept hb hbud) (by rw [hb.node_of_ne hbt, h₃.becomes.node]) (by rw [hb.opens, ho₃])

/-- Creating in a directory of the tree keeps a tree that is told by slots. -/
theorem createIn_mirrored (hK : K.Fits) (hf : ¬K.faulty) (h : W.Slotted T slot handles) (ht : T.linked t)
    (hn : W.pool.nodes t = some n) (hdir : n.record.isDirectory = true) (ho : W.opens t = some o)
    (hpath : W.pool.resolve rootInode (Path.components parent) = .ok t) (hclosed : Path.Closed parent.toList)
    (hword : Path.Word name.toList) (hne : name.isEmpty = false) (size : Nat) (isDirectory : Bool) :
    Mirrored K W (createIn { inode := ⟨t⟩ } parent name size isDirectory) fun res W' =>
      Sober res ∧ W'.Upheld handles := by
  unfold createIn
  refine Mirrored.seek hK hf W (fun st => Directory.lookup_yields (W := W.onStore st) (d := directoryAt t) rfl
    hn ho name) rfl ?_
  -- Whether the name is new is read off the table, which is the same on both volumes.
  cases hnew : n.child name with
  | some x => exact .failBind ⟨sober_failed, h.upheld⟩
  | none =>
    rw [if_neg (by simp)]
    refine newInode_mirrored hK hf (h.pool.stored _ h.pool.grounded.root) h.held (fun b m W₂ h₂ => ?_)
      fun e W₂ hopens hheld hnodes => ?_
    · refine Mirrored.bind (linkName_mirrored hK hf h hn ho h₂ name) ?_ ?_
      · rintro v W₃ (⟨-, n', h₃⟩ | ⟨⟨e, he⟩, -⟩)
        · cases isDirectory with
          | false => exact .pure ⟨sober_ok, (h₂.entered h ht hn h₃).upheld⟩
          | true => exact linkDots_mirrored hK hf h ht hn hdir ho hpath hclosed hword hne h₂ h₃
        · cases he
      · rintro e W₃ (⟨he, -⟩ | ⟨⟨e', he⟩, hup⟩)
        · cases he
        · cases he
          exact ⟨sober_failed, hup⟩
    · exact ⟨sober_failed, (h.of_pool (h.pool.of_same fun y _ => congrFun hnodes y) hheld hopens
        fun _ => .inl).upheld⟩

end CreateIn

theorem create_mirrored (hK : K.Fits) (hf : ¬K.faulty) (h : W.Slotted T slot handles) (path cwd : String)
    (size : Nat) (isDirectory : Bool) :
    Mirrored K W (create path cwd size isDirectory) fun res W' => Sober res ∧ W'.Upheld handles := by
  unfold create
  rw [split_eq]
  cases Path.toAbsolute path cwd with
  | error e => exact .failBind ⟨sober_failed, h.upheld⟩
  | ok absolute =>
    refine Mirrored.seek (v := (Path.parentPart absolute, Path.leafPart absolute)) hK hf W
      (fun _ => Yields.pure) rfl ?_
    dsimp only
    split
    · exact .failBind ⟨sober_failed, h.upheld⟩
    by_cases hempty : (Path.leafPart absolute).isEmpty = true
    · rw [if_pos hempty]
      exact .failBind ⟨sober_failed, h.upheld⟩
    rw [if_neg hempty]
    -- What is asked of the path depends on its letters alone. The rest is done in the directory above.
    refine within_mirrored hK hf h fun t n hr ht hn hdir => ?_
    exact createIn_mirrored hK hf (h.opened (.directory (directoryAt t))) ht hn hdir (W.opened_opens_self t) hr
      (Path.parentPart_closed absolute) (Path.leafPart_word absolute) (by simpa using hempty) size isDirectory

/-! ## Opening and removing -/

theorem remove_mirrored (hK : K.Fits) (hf : ¬K.faulty) (h : W.Slotted T slot handles) (path cwd : String) :
    Mirrored K W (remove path cwd) fun res W' => Sober res ∧ W'.Upheld handles := by
  unfold remove
  rw [leaf_eq]
  cases Path.toAbsolute path cwd with
  | error e => exact .failBind ⟨sober_failed, h.upheld⟩
  | ok absolute =>
    refine Mirrored.seek (v := (Path.leafPart absolute, absolute)) hK hf W (fun _ => Yields.pure) rfl ?_
    dsimp only
    split
    · exact .failBind ⟨sober_failed, h.upheld⟩
    refine within_mirrored hK hf h fun t n hr ht hn hdir => ?_
    exact Directory.remove_mirrored hK hf (h.opened (.directory (directoryAt t))) ht hn hdir
      (W.opened_opens_self t) _

theorem openInode_mirrored (hK : K.Fits) (hf : ¬K.faulty) (h : W.Slotted T slot handles) (path cwd : String) :
    Mirrored K W (openInode path cwd) (W.Arrives Inode.mk ((Path.toAbsolute path cwd).bind W.pool.find)) :=
  .of_arrives hK hf fun st =>
    openInode_leads (W := W.onStore st) hK (h.onStore st).pool.walkable h.attended path cwd

theorem openDirectory_mirrored (hK : K.Fits) (hf : ¬K.faulty) (h : W.Slotted T slot handles)
    (path cwd : String) :
    Mirrored K W (openDirectory path cwd)
      (W.Arrives directoryAt ((Path.toAbsolute path cwd).bind fun absolute =>
        W.pool.resolve rootInode (Path.components absolute))) :=
  .of_arrives hK hf fun st =>
    openDirectory_leads (W := W.onStore st) hK (h.onStore st).pool.walkable h.attended path cwd

theorem changeDirectory_mirrored (hK : K.Fits) (hf : ¬K.faulty) (h : W.Slotted T slot handles)
    (path cwd : String) :
    Mirrored K W (changeDirectory path cwd) fun res W' => res = W.pool.names.place path cwd ∧ W' = W :=
  ⟨changeDirectory_leads hK h.pool.walkable h.attended path cwd,
    .of_leads (r := W.pool.names.place path cwd) hK hf W (fun st => changeDirectory_leads (W := W.onStore st) hK
      (h.onStore st).pool.walkable h.attended path cwd) rfl⟩

/-- Opening comes to an inode of the tree, which may be a new one. -/
theorem openOrCreate_mirrored (hK : K.Fits) (hf : ¬K.faulty) (h : W.Slotted T slot handles)
    (path cwd : String) (create? : Bool) :
    Mirrored K W (openOrCreate path cwd create?) fun res W' =>
      (∃ (x : UInt32) (W₁ : World) (T₁ : Hierarchy) (slot₁ : UInt32 → Nat), res = .ok ⟨x⟩ ∧
          W₁.Slotted T₁ slot₁ handles ∧ T₁.linked x ∧ W' = W₁.opened x) ∨
        ((∃ e, res = .error (.failed e)) ∧ W'.Upheld handles) := by
  -- What opening without creating comes to, in the world as it is or with a new file in it.
  have hopen {W₁ : World} {T₁ : Hierarchy} {slot₁ : UInt32 → Nat} (h₁ : W₁.Slotted T₁ slot₁ handles) :
      Mirrored K W₁ (openInode path cwd) fun res W' =>
        (∃ x, res = .ok ⟨x⟩ ∧ T₁.linked x ∧ W' = W₁.opened x) ∨
          ((∃ e, res = .error (.failed e)) ∧ W' = W₁) := by
    refine (openInode_mirrored hK hf h₁ path cwd).mono fun res W' ha => ?_
    cases hr : (Path.toAbsolute path cwd).bind W₁.pool.find with
    | error e =>
      rw [hr] at ha
      exact .inr ⟨⟨e, ha.1⟩, ha.2⟩
    | ok x =>
      rw [hr] at ha
      refine .inl ⟨x, ha.1, ?_, ha.2⟩
      cases habs : Path.toAbsolute path cwd with
      | error e =>
        rw [habs] at hr
        cases hr
      | ok absolute =>
        rw [habs] at hr
        exact linked_find h₁.pool.walkable hr
  unfold openOrCreate
  refine Mirrored.attemptBind (hopen h) ?_ ?_ ?_
  · rintro r V (⟨x, rfl, -⟩ | ⟨⟨e, rfl⟩, -⟩)
    · exact sober_ok
    · exact sober_failed
  · rintro i V (⟨x, hi, hx, rfl⟩ | ⟨⟨e, he⟩, -⟩)
    · cases hi
      exact .pure (.inl ⟨x, W, T, slot, rfl, h, hx, rfl⟩)
    · cases he
  · rintro e V (⟨x, he, -⟩ | ⟨-, rfl⟩)
    · cases he
    change Mirrored K V (if e = .notFound ∧ create? = true then do
        create path cwd 0 false
        openInode path cwd
      else VolumeM.fail e) _
    split
    · refine Mirrored.bind (create_mirrored hK hf h path cwd 0 false) ?_ fun r V' h' => ?_
      · rintro _ W₁ ⟨-, T₁, slot₁, h₁⟩
        refine (hopen h₁).mono ?_
        rintro res W' (⟨x, rfl, hx, rfl⟩ | ⟨he, rfl⟩)
        · exact .inl ⟨x, W₁, T₁, slot₁, rfl, h₁, hx, rfl⟩
        · exact .inr ⟨he, h₁.upheld⟩
      · cases r with
        | failed e' => exact .inr ⟨⟨e', rfl⟩, h'.2⟩
        | misused rule => exact absurd rfl (h'.1 rule)
    · exact .fail (.inr ⟨⟨e, rfl⟩, h.upheld⟩)

/-- Opening a file comes to a handle of it. -/
theorem openFile_mirrored (hK : K.Fits) (hf : ¬K.faulty) (h : W.Slotted T slot handles) (path cwd : String)
    (mode : OpenMode) :
    Mirrored K W (openFile path cwd mode) fun res W' =>
      (∃ f, res = .ok f ∧ f.denying = false ∧ W'.Upheld (handles ++ [.file f])) ∨
        ((∃ e, res = .error (.failed e)) ∧ W'.Upheld handles) := by
  unfold openFile
  refine Mirrored.bind (openOrCreate_mirrored hK hf h path cwd mode.create) ?_ ?_
  swap
  · rintro e V (⟨x, W₁, T₁, slot₁, he, -⟩ | ⟨⟨e', he⟩, hup⟩)
    · cases he
    · cases he
      exact .inr ⟨⟨e', rfl⟩, hup⟩
  rintro i V (⟨x, W₁, T₁, slot₁, hi, h₁, hx, rfl⟩ | ⟨⟨e, he⟩, -⟩)
  swap
  · cases he
  cases hi
  obtain ⟨n, hn⟩ := Option.ne_none_iff_exists'.1 (h₁.pool.stored x hx)
  have hopened := W₁.opened_opens_self x
  have hs := h₁.opened (.file (.ofInode ⟨x⟩))
  refine Mirrored.seek hK hf (W₁.opened x)
    (fun st => Inode.isDirectory_yields (W := (W₁.opened x).onStore st) hn hopened) rfl ?_
  split
  swap
  · exact .pure (.inl ⟨_, rfl, rfl, hs.upheld⟩)
  rename_i htruncate
  have hfile : n.record.isDirectory = false := by
    cases hd : n.record.isDirectory with
    | false => rfl
    | true => simp [hd] at htruncate
  -- Emptying keeps the tree, and if it is refused the file is closed again.
  have hclear : Mirrored K (W₁.opened x) (Inode.clear ⟨x⟩) fun res W' =>
      Sober res ∧ W'.Slotted T₁ slot₁ (handles ++ [.file (.ofInode ⟨x⟩)]) := by
    refine Mirrored.mono ⟨Inode.clear_leads hK hn hopened, Inode.clear_twinned (W := W₁.opened x) hK hf hn hopened⟩ ?_
    rintro r W' (⟨-, rfl, rfl⟩ | ⟨-, n', hb, hdir, -, -, ⟨rfl, -⟩ | ⟨hfaulty, -⟩⟩ | ⟨-, hfaulty, -⟩)
    · exact ⟨sober_failed, hs⟩
    · exact ⟨sober_ok, hs.file hb hn hfile hdir⟩
    · exact absurd hfaulty hf
    · exact absurd hfaulty hf
  have hundo : Mirrored K (W₁.opened x) (orUndo (Inode.clear ⟨x⟩) (Inode.close ⟨x⟩)) fun res W' =>
      (res = .ok () ∧ W'.Upheld (handles ++ [.file (.ofInode ⟨x⟩)])) ∨
        ((∃ e, res = .error (.failed e)) ∧ W'.Upheld handles) :=
    Mirrored.orUndo hclear (fun _ _ h => h.1) (fun V h => .inl ⟨rfl, h.2.upheld⟩) fun e V h =>
      (h.2.close_mirrored hK hf).mono fun u V' h' => ⟨h'.1, .inr ⟨⟨e, rfl⟩, h'.2.upheld⟩⟩
  refine Mirrored.bind hundo ?_ ?_
  · rintro _ V (⟨-, hup⟩ | ⟨⟨e, he⟩, -⟩)
    · exact .pure (.inl ⟨_, rfl, rfl, hup⟩)
    · cases he
  · rintro e V (⟨he, -⟩ | ⟨⟨e', he⟩, hup⟩)
    · cases he
    · cases he
      exact .inr ⟨⟨e', rfl⟩, hup⟩

end Volume

end InodeVolume
