import InodeVolume.Proofs.NameCounts
import InodeVolume.Proofs.Walks

/-!
# Creating

A name is created in several steps: a block is taken, an inode stored in it, the name linked, and the two
entries of its own put into a new directory. When a step fails, those before it are taken back. So
creation comes to one of two ends (`createIn_leads`): the new inode is there under its name, which happens
exactly if there is room for it (`Room`), or the names are those that were there before. Only where writes
fail may a new directory stay linked without its own entries.
-/

namespace InodeVolume

open Record

/-! ## Taking back -/

/-- An action that is taken back if it fails. -/
theorem Leads.orUndo {A : Type} {R : A → Volume → Prop} {a : A} {x undo : VolumeM Unit}
    {mid post : Except Stop Unit → A → Prop} (hx : Leads R a x mid) (hsober : ∀ r b, mid r b → Sober r)
    (hok : ∀ b, mid (.ok ()) b → post (.ok ()) b)
    (hundo : ∀ e b, mid (.error (.failed e)) b →
      Leads R b undo fun u c => u = .ok () ∧ post (.error (.failed e)) c) :
    Leads R a (Volume.orUndo x undo) post := by
  refine Leads.attemptVolumeBind hx hsober (fun _ b hb => Leads.pure (hok b hb)) fun e b hb => ?_
  exact Leads.bind (hundo e b hb) (fun _ c hc => Leads.fail hc.2) fun e' c hc => by cases hc.1

/-- The block of the root is in use: the root is stored there, or the block is held for it. -/
def Pool.RootTaken (P : Pool) : Prop := P.nodes rootInode ≠ none ∨ rootInode ∈ P.held

namespace Volume

variable {K : Regime} {W : World} {T : Hierarchy} {b t : UInt32} {n m : Node} {o : Opening}
  {name : String} {size : Nat} {isDirectory : Bool}

/-- An inode that has been opened only for this is marked as removed and closed, and so is gone. -/
theorem drop_leads (hK : K.Fits) (hm : W.pool.nodes b = some m) (ho : W.opens b = none) (hb : K.IsData b.toNat) :
    Leads (Mounts K) (W.opened b) (do
      Inode.markRemoved ⟨b⟩
      Inode.close ⟨b⟩) fun res W' => Sober res ∧ W'.opens = W.opens ∧
        W'.pool.nodes = Function.update W.pool.nodes b none ∧ W'.pool.held = W.pool.held := by
  refine Yields.bind (Inode.markRemoved_yields (W := W.opened b) hm (W.opened_opens_self b)) ?_
  refine Leads.mono (Inode.close_leads hK (W := (W.opened b).setOpening b _) hm
    (Function.update_self ..) fun _ _ => hb) ?_
  rintro res W' ⟨rfl, hclosed⟩
  obtain ⟨hopens, hnodes, hheld, -⟩ := hclosed.gone (by rw [ho]; exact Nat.le_refl 1) rfl
  refine ⟨sober_ok, ?_, hnodes, hheld⟩
  rw [hopens, World.setOpening_opens, Function.update_idem, World.opened, World.setOpening_opens,
    Function.update_idem, ← ho, Function.update_eq_self]

/-- An inode that is not open is given up. -/
theorem giveUp_leads (hK : K.Fits) (hm : W.pool.nodes b = some m) (ho : W.opens b = none)
    (hb : K.IsData b.toNat) :
    Leads (Mounts K) W (giveUp b) fun res W' => res = .ok () ∧ W'.opens = W.opens ∧
      W'.pool.nodes = Function.update W.pool.nodes b none ∧ W'.pool.held = W.pool.held := by
  unfold giveUp
  exact Leads.ignoring (Yields.bind (Inode.acquire_yields hK hm) (drop_leads hK hm ho hb))

/-! ## The entries of its own -/

/-- The names of a new directory: itself and the directory that it is in. -/
def dots (b t : UInt32) : String → Option UInt32 :=
  Function.update (Function.update (fun _ => none) "." (some b)) ".." (some t)

theorem dots_some {b t x : UInt32} {nm : String} (h : dots b t nm = some x) :
    (nm = "." ∧ x = b) ∨ (nm = ".." ∧ x = t) := by
  unfold dots at h
  by_cases h₂ : nm = ".."
  · rw [h₂, Function.update_self] at h
    cases h
    exact .inr ⟨h₂, rfl⟩
  · rw [Function.update_of_ne h₂] at h
    by_cases h₁ : nm = "."
    · rw [h₁, Function.update_self] at h
      cases h
      exact .inl ⟨h₁, rfl⟩
    · rw [Function.update_of_ne h₁] at h
      cases h

/-- Other names a new directory does not have. -/
theorem dots_none {b t : UInt32} {nm : String} (h : isDotName nm = false) : dots b t nm = none := by
  cases hx : dots b t nm with
  | none => rfl
  | some x =>
    rcases dots_some hx with ⟨rfl, -⟩ | ⟨rfl, -⟩
    · simp [isDotName] at h
    · simp [isDotName] at h

/-- A new directory has two names. -/
theorem card_names_dots (h : m.child = dots b t) : m.names.card = 2 := by
  -- The two names are different, also where both stand for the same inode.
  have hnames : m.names = {".", ".."} := by
    ext nm
    rw [Node.mem_names, h, dots]
    by_cases hup : nm = ".."
    · simp [hup]
    · by_cases hself : nm = "."
      · simp [hself]
      · simp [hup, hself]
  rw [hnames]
  decide

/-- What a directory gains, told by how many slots and names it has. -/
theorem gain_add (h : m.Tidy) : m.gain + totalBlocks (slotSize * m.slots) =
    totalBlocks (slotSize * max m.slots (m.names.card + 1)) := by
  have hmono := totalBlocks_mono (Nat.le_max_left m.size (m.vacant * slotSize + slotSize))
  rw [← h.size_eq, ← h.size_linked, Node.gain]
  omega

/-- The slots before the first one that is not in use are in use. -/
theorem entry_of_lt_vacant {j : Nat} (h : j < m.vacant) :
    m.EntryAt j (m.slot j).name (m.slot j).number := by
  have hlt : j < m.slots := Nat.lt_of_lt_of_le h m.vacant_le
  refine ⟨hlt, ?_, rfl, rfl⟩
  by_contra hfree
  rw [Node.vacant] at h
  cases hs : m.search (fun s => !s.inUse) 0 with
  | none => exact absurd (Node.search_none hs (Nat.zero_le j) hlt) (by simpa using hfree)
  | some k =>
    rw [hs] at h
    exact absurd ((Node.search_some hs).2.2.2 j (Nat.zero_le j) h) (by simpa using hfree)

theorem vacant_of_no_names (h : m.child = fun _ => none) : m.vacant = 0 := by
  by_contra hne
  exact Node.child_none_iff.1 (congrFun h _) _ _ (entry_of_lt_vacant (Nat.pos_of_ne_zero hne))

theorem vacant_of_one_name (ht : m.Tidy) (h : ∀ nm x, m.child nm = some x → nm = name) : m.vacant ≤ 1 := by
  by_contra hlt
  have h₀ := entry_of_lt_vacant (m := m) (j := 0) (by omega)
  have h₁ := entry_of_lt_vacant (m := m) (j := 1) (by omega)
  have hname₀ := h _ _ (ht.child_eq h₀)
  have hname₁ := h _ _ (ht.child_eq h₁)
  rw [hname₀] at h₀
  rw [hname₁] at h₁
  exact absurd (ht.unique 0 1 _ _ _ h₀ h₁) (by decide)

/-- A directory without contents has no names. -/
theorem empty_table (h : m.size = 0) : m.Tidy ∧ m.child = fun _ => none := by
  have hno (j : Nat) (nm : String) (x : UInt32) : ¬m.EntryAt j nm x := fun hj => by
    have hlt := hj.lt
    rw [Node.slots, h] at hlt
    exact absurd hlt (Nat.not_lt_zero _)
  exact ⟨⟨by rw [h]; rfl, fun i j nm x y hi _ => absurd hi (hno i nm x)⟩,
    funext fun nm => Node.child_none_iff.2 fun j x => hno j nm x⟩

theorem gain_first (ht : m.Tidy) (h : m.vacant = 0) : m.gain = if m.size = 0 then 1 else 0 := by
  have hwhole := ht.whole
  rw [Node.gain, h]
  by_cases h0 : m.size = 0
  · rw [if_pos h0, h0]
    decide
  · rw [if_neg h0, Nat.max_eq_left, Nat.sub_self]
    simp only [slotSize] at hwhole ⊢
    omega

/-- The second entry of a table takes no new block. -/
theorem gain_second (h : m.vacant ≤ 1) (hsize : slotSize ≤ m.size) : m.gain = 0 := by
  rw [Node.gain]
  by_cases hlong : m.vacant * slotSize + slotSize ≤ m.size
  · rw [Nat.max_eq_left hlong, Nat.sub_self]
  · have hmax : totalBlocks (max m.size (m.vacant * slotSize + slotSize)) ≤ totalBlocks (2 * slotSize) := by
      refine totalBlocks_mono ?_
      simp only [slotSize] at hlong ⊢
      omega
    have hmin := totalBlocks_mono hsize
    -- Two entries lie in one block.
    have h₂ : totalBlocks (2 * slotSize) = totalBlocks slotSize := by decide
    omega

/-- A directory has some of the two entries of its own, or none, and no other ones. -/
structure Bud (b t : UInt32) (m : Node) : Prop where
  tidy : m.Tidy
  isDirectory : m.record.isDirectory = true
  own : ∀ nm x, m.child nm = some x → (nm = "." ∧ x = b) ∨ (nm = ".." ∧ x = t)

theorem bud_empty (hdir : m.record.isDirectory = true) (hsize : m.size = 0) : Bud b t m := by
  obtain ⟨ht, hc⟩ := empty_table hsize
  refine ⟨ht, hdir, fun nm x hx => ?_⟩
  rw [hc] at hx
  cases hx

/-- Directory `b` has the name of itself, and no other. -/
structure OneDot (b : UInt32) (m : Node) : Prop where
  tidy : m.Tidy
  isDirectory : m.record.isDirectory = true
  child : m.child = Function.update (fun _ => none) "." (some b)
  long : slotSize ≤ m.size

theorem OneDot.bud (h : OneDot b m) : Bud b t m := by
  refine ⟨h.tidy, h.isDirectory, fun nm x hx => .inl ?_⟩
  rw [h.child] at hx
  by_cases he : nm = "."
  · rw [he, Function.update_self] at hx
    cases hx
    exact ⟨he, rfl⟩
  · rw [Function.update_of_ne he] at hx
    cases hx

theorem OneDot.card_names (h : OneDot b m) : m.names.card = 1 := by
  have hone : m.names = {"."} := by
    ext nm
    rw [Node.mem_names, h.child, Finset.mem_singleton]
    by_cases hnm : nm = "."
    · simp [hnm]
    · simp [hnm]
  rw [hone, Finset.card_singleton]

/-- A directory that has stayed, or of which a part was written, has the names that it had. -/
theorem Bud.kept {W' : World} (h : Bud b t m) (hm : W.pool.nodes b = some m)
    (hsame : W.Stays K W' ∨ (K.faulty ∧ ∃ m', W.Becomes b m' W' ∧ m'.Tidy ∧ m'.child = m.child ∧
      m'.record.isDirectory = m.record.isDirectory)) : ∃ m', W.Becomes b m' W' ∧ Bud b t m' := by
  rcases hsame with hstays | ⟨-, m', hbecomes, htidy, hchild, hdir⟩
  · exact ⟨m, ⟨by rw [hstays.nodes, Function.update_eq_self_iff.2 hm.symm], hstays.held, hstays.opens⟩, h⟩
  · exact ⟨m', hbecomes, htidy, hdir.trans h.isDirectory, fun nm x hx => h.own nm x (hchild ▸ hx)⟩

/-- Linking the name of itself into a new directory, which has no names yet. -/
theorem addDot_leads (hK : K.Fits) (hm : W.pool.nodes b = some m) (ho : W.opens b = some o)
    (hremoved : o.removed = false) (hwritable : o.denials = 0) (hdir : m.record.isDirectory = true)
    (htidy : m.Tidy) (hchild : m.child = fun _ => none) :
    Leads (Mounts K) W (Directory.add { inode := ⟨b⟩ } "." b) fun res W' =>
      (res = .ok () ∧ ∃ m', W.Becomes b m' W' ∧ OneDot b m' ∧ m'.size = slotSize * max m.slots 1 ∧
        m.owned ⊆ m'.owned ∧ K.free W'.pool.store.used + (if m.size = 0 then 1 else 0) = K.free W.pool.store.used) ∨
      ((K.faulty ∨ (m.size = 0 ∧ K.free W.pool.store.used = 0)) ∧ (∃ e, res = .error (.failed e)) ∧
        ∃ m', W.Becomes b m' W' ∧ Bud b t m') := by
  have hvacant := vacant_of_no_names hchild
  have hgain := gain_first htidy hvacant
  have hbud : Bud b t m := ⟨htidy, hdir, fun nm x hx => by rw [hchild] at hx; cases hx⟩
  -- Nothing but a missing block can refuse the first entry of an empty table.
  have hroom : ¬Directory.Addable K W m o "." → m.size = 0 ∧ K.free W.pool.store.used = 0 := by
    intro hno
    by_contra hfree
    refine hno ⟨by decide, by decide, hremoved, by rw [hchild], hwritable, ?_, ?_⟩
    · rw [hvacant]
      decide
    · rw [hgain]
      by_cases h0 : m.size = 0
      · rw [if_pos h0]
        omega
      · rw [if_neg h0]
        exact Nat.zero_le _
  refine Leads.mono (Directory.add_leads hK rfl hm ho htidy (by unfold NulFree; decide)) ?_
  rintro res W' (⟨rfl, -, m', hbecomes, htidy', hchild', hdir', hsize, howned, hfree⟩ | ⟨hwhy, e, rfl, hsame⟩)
  · rw [hgain] at hfree
    have hlength : m'.size = slotSize * max m.slots 1 := by
      rw [hsize, htidy.size_linked, Node.names_eq_empty hchild, Finset.card_empty]
    refine .inl ⟨rfl, m', hbecomes, ⟨htidy', hdir'.trans hdir, by rw [hchild', hchild], ?_⟩, hlength, howned,
      hfree⟩
    rw [hsize, hvacant]
    omega
  · exact .inr ⟨hwhy.imp_right hroom, ⟨e, rfl⟩, hbud.kept hm hsame⟩

/-- Linking the name of the directory above, for which there is room in the same block. -/
theorem OneDot.add_leads (hK : K.Fits) (h : OneDot b m) (hm : W.pool.nodes b = some m)
    (ho : W.opens b = some o) (hremoved : o.removed = false) (hwritable : o.denials = 0) :
    Leads (Mounts K) W (Directory.add { inode := ⟨b⟩ } ".." t) fun res W' =>
      ∃ m', W.Becomes b m' W' ∧ Bud b t m' ∧
        ((res = .ok () ∧ m'.child = dots b t ∧ m'.size = slotSize * max m.slots 2 ∧ m.owned ⊆ m'.owned ∧
            K.free W'.pool.store.used = K.free W.pool.store.used) ∨
          (K.faulty ∧ ∃ e, res = .error (.failed e))) := by
  -- Only the slot of the first entry is in use.
  have hvacant : m.vacant ≤ 1 := vacant_of_one_name h.tidy fun nm x hx => by
    rcases (h.bud (t := x)).own nm x hx with ⟨hnm, -⟩ | ⟨rfl, -⟩
    · exact hnm
    · rw [h.child, Function.update_of_ne (by decide)] at hx
      cases hx
  have hgain := gain_second hvacant h.long
  have hadd : Directory.Addable K W m o ".." := by
    refine ⟨by decide, by decide, hremoved, ?_, hwritable, ?_, ?_⟩
    · rw [h.child, Function.update_of_ne (by decide)]
    · refine Nat.le_trans (m := 2 * slotSize) ?_ (by decide)
      simp only [slotSize]
      omega
    · rw [hgain]
      exact Nat.zero_le _
  refine Leads.mono (Directory.add_leads hK rfl hm ho h.tidy (by unfold NulFree; decide)) ?_
  rintro res W' (⟨rfl, -, m', hbecomes, htidy, hchild, hdir, hsize, howned, hfree⟩ | ⟨hwhy, e, rfl, hsame⟩)
  · have hdots : m'.child = dots b t := by
      rw [hchild, h.child]
      rfl
    have hlength : m'.size = slotSize * max m.slots 2 := by
      rw [hsize, h.tidy.size_linked, h.card_names]
    rw [hgain] at hfree
    refine ⟨m', hbecomes, ⟨htidy, hdir.trans h.isDirectory, fun nm x hx => ?_⟩,
      .inl ⟨rfl, hdots, hlength, howned, hfree⟩⟩
    rw [hdots] at hx
    exact dots_some hx
  · obtain ⟨m', hbecomes, hbud⟩ := h.bud.kept hm hsame
    exact ⟨m', hbecomes, hbud, .inr ⟨hwhy.resolve_right fun hno => hno hadd, e, rfl⟩⟩

/-- Linking the two entries of its own into a new directory, which has no names yet. -/
theorem addDots_leads (hK : K.Fits) (hm : W.pool.nodes b = some m) (ho : W.opens b = some o)
    (hremoved : o.removed = false) (hwritable : o.denials = 0) (hdir : m.record.isDirectory = true)
    (htidy : m.Tidy) (hchild : m.child = fun _ => none) :
    Leads (Mounts K) W (do
      Directory.add { inode := ⟨b⟩ } "." b
      Directory.add { inode := ⟨b⟩ } ".." t) fun res W' => ∃ m', W.Becomes b m' W' ∧ Bud b t m' ∧
        ((res = .ok () ∧ m'.child = dots b t ∧ m'.size = slotSize * max m.slots 2 ∧ m.owned ⊆ m'.owned ∧
            K.free W'.pool.store.used + (if m.size = 0 then 1 else 0) = K.free W.pool.store.used) ∨
          ((K.faulty ∨ (m.size = 0 ∧ K.free W.pool.store.used = 0)) ∧
            ∃ e, res = .error (.failed e))) := by
  -- The second entry goes into the table that the first one has left.
  refine Leads.bind (addDot_leads (t := t) hK hm ho hremoved hwritable hdir htidy hchild) ?_ ?_
  · rintro v W₁ (⟨-, m₁, hbecomes₁, hdot, hsize₁, howned₁, hfree₁⟩ | ⟨-, ⟨e, he⟩, -⟩)
    swap
    · cases he
    have ho₁ : W₁.opens b = some o := by rw [hbecomes₁.opens, ho]
    refine Leads.mono (hdot.add_leads hK hbecomes₁.node ho₁ hremoved hwritable) ?_
    rintro res W₂ ⟨m₂, hbecomes₂, hbud, ⟨rfl, hdots, hsize₂, howned₂, hfree₂⟩ | ⟨hf, he⟩⟩
    · have hslots₁ : m₁.slots = max m.slots 1 := by
        rw [Node.slots, hsize₁, Nat.mul_div_cancel_left _ (by decide)]
      refine ⟨m₂, hbecomes₁.trans hbecomes₂, hbud, .inl ⟨rfl, hdots, ?_, List.Subset.trans howned₁ howned₂, by omega⟩⟩
      rw [hsize₂, hslots₁, Nat.max_assoc]
      rfl
    · exact ⟨m₂, hbecomes₁.trans hbecomes₂, hbud, .inr ⟨.inl hf, he⟩⟩
  · rintro e W₁ (⟨he, -⟩ | ⟨hwhy, ⟨e', he⟩, m₁, hbecomes₁, hbud⟩)
    · cases he
    · cases he
      exact ⟨m₁, hbecomes₁, hbud, .inr ⟨hwhy, e', rfl⟩⟩

/-- Linking the two entries of its own into the new directory at a path. -/
theorem linkDots_leads {L : UInt32 → Prop} (hK : K.Fits) (hR : W.pool.Walkable L) (hW : W.Attended) {path : String}
    (hpath : W.pool.resolve rootInode (Path.components path) = .ok b) (hm : W.pool.nodes b = some m)
    (ho : W.opens b = none) (hdir : m.record.isDirectory = true) (hsize : m.size = 0) :
    Leads (Mounts K) W (linkDots path b t) fun res W' => Sober res ∧ ∃ m', W.Becomes b m' W' ∧ Bud b t m' ∧
      ((res = .ok () ∧ m'.child = dots b t ∧ m'.size = slotSize * 2 ∧
          K.free W'.pool.store.used + 1 = K.free W.pool.store.used) ∨
        ((K.faulty ∨ K.free W.pool.store.used = 0) ∧ ∃ e, res = .error (.failed e))) := by
  refine within_leads hK hR hW (fun x hx _ _ => ?_) fun e he => ?_
  swap
  · rw [hpath] at he
    cases he
  rw [hpath] at hx
  cases hx
  have hopened : (W.opened b).opens b = some ⟨1, false, 0⟩ := by
    rw [W.opened_opens_self, ho]
    rfl
  obtain ⟨htidy, hchild⟩ := empty_table hsize
  -- The directory is empty, and open only for this.
  refine Leads.mono (addDots_leads (t := t) hK (W := W.opened b) hm hopened rfl rfl hdir htidy hchild) ?_
  rintro res W₁ ⟨m', hbecomes, hbud, hres⟩
  have hsober : Sober res := by
    rcases hres with ⟨rfl, -⟩ | ⟨-, e, rfl⟩
    · exact sober_ok
    · exact sober_failed
  have hslots : max m.slots 2 = 2 := by simp [Node.slots, hsize]
  simp only [hsize, hslots, if_true, true_and] at hres
  refine ⟨hsober, ⟨W₁.pool, W.opens⟩, World.eq_opened hbecomes.opens, ?_, hW, hsober, m',
    ⟨hbecomes.nodes, hbecomes.held, rfl⟩, hbud, hres.imp_left ?_⟩
  · show W₁.pool.nodes b ≠ none
    rw [hbecomes.node]
    simp
  · rintro ⟨hok, hdots, hlength, -, hfree⟩
    exact ⟨hok, hdots, hlength, hfree⟩

/-- What a new inode does to the tree. -/
theorem grafted_of_nodes {P P' : Pool} {n' : Node} (hR : P.Rooted T) (ht : T.linked t) (hn : P.nodes t = some n)
    (hdir : n.record.isDirectory = true) (hfresh : P.nodes b = none)
    (hnodes : P'.nodes = Function.update (Function.update P.nodes b (some m)) t (some n'))
    (htidy : n'.Tidy) (hnew : n.child name = none)
    (hchild : n'.child = Function.update n.child name (some b)) (hparent : n'.record.isDirectory = true)
    (hm : m.record.isDirectory = true → Bud b t m) : Pool.Grafted P T b t name P' := by
  -- The parent is stored and the new inode was not.
  have hbt : b ≠ t := by
    rintro rfl
    rw [hfresh] at hn
    cases hn
  have hlinked : ¬T.linked b := fun hb => hR.stored b hb hfresh
  have hold : P.child t = n.child := Pool.child_of_node hn hdir
  have hnode : P'.nodes t = some n' := by rw [hnodes, Function.update_self]
  have hnodeb : P'.nodes b = some m := by
    rw [hnodes, Function.update_of_ne hbt, Function.update_self]
  refine ⟨ht, hlinked, ?_, by rw [hold, hnew], fun y hy hyt => ?_, ?_, fun k hk _ => ?_, ?_, ?_,
    fun k hk hkdir => ?_, fun nm y hy => ?_⟩
  · rw [Pool.isDirectory_of_node hn, hdir]
  · refine Pool.Alike.of_eq ?_
    rw [hnodes, Function.update_of_ne hyt, Function.update_of_ne]
    rintro rfl
    exact hlinked hy
  · rw [Pool.isDirectory_of_node hnode, hparent]
  · rw [hnode] at hk
    cases hk
    exact htidy
  · rw [Pool.child_of_node hnode hparent, hchild, hold]
  · rw [hnodeb]
    simp
  · rw [hnodeb] at hk
    cases hk
    exact (hm hkdir).tidy
  · have hmdir : m.record.isDirectory = true := by
      have := Pool.isDirectory_of_child hy
      rwa [Pool.isDirectory_of_node hnodeb] at this
    rw [Pool.child_of_node hnodeb hmdir] at hy
    exact (hm hmdir).own nm y hy

/-- The path of a new directory leads to it. -/
theorem resolve_grafted {P P' : Pool} {parent : String} (hR : P.Rooted T) (hg : Pool.Grafted P T b t name P')
    (hpath : P.resolve rootInode (Path.components parent) = .ok t) (hclosed : Path.Closed parent.toList)
    (hword : Path.Word name.toList) (hne : name.isEmpty = false) (hdir : P'.isDirectory b = true) :
    P'.resolve rootInode (Path.components (parent ++ name)) = .ok b := by
  rw [Path.components_append hclosed hword hne, Pool.resolve_concat_iff]
  refine ⟨t, hR.resolve_link hg hR.root hpath, ?_, hdir⟩
  rw [hg.child, Function.update_self]

/-! ## Creating in a directory -/

/-- The open directory `t` of the tree, in which something is to be created. -/
structure Site (K : Regime) (W : World) (T : Hierarchy) (t : UInt32) (n : Node) (o : Opening) : Prop where
  rooted : W.pool.Rooted T
  dotted : ¬K.faulty → W.pool.Dotted T
  attended : W.Attended
  held : W.pool.held = []
  linked : T.linked t
  node : W.pool.nodes t = some n
  isDirectory : n.record.isDirectory = true
  opening : W.opens t = some o
  kept : o.removed = false

/-- There is room for a new inode under `name` in directory `n`: the name is new and may be written, the
contents are not too long, and there are blocks for the inode, for what it holds, and for the directory to
grow if it has to. -/
structure Room (K : Regime) (P : Pool) (n : Node) (denials : Nat) (name : String) (size : Nat)
    (isDirectory : Bool) : Prop where
  new : n.child name = none
  writable : denials = 0
  small : isDirectory = false → size ≤ maxFileSize
  fits : n.vacant * slotSize + slotSize ≤ maxFileSize
  space : 1 + (if isDirectory then 1 else totalBlocks size) + n.gain ≤ K.free P.store.used

/-- There is room for a new directory under `name` in directory `n`, but none for the two entries of its own:
all blocks that are free are taken before. -/
structure Cramped (K : Regime) (P : Pool) (n : Node) (denials : Nat) (name : String) : Prop where
  new : n.child name = none
  writable : denials = 0
  fits : n.vacant * slotSize + slotSize ≤ maxFileSize
  space : 1 + n.gain = K.free P.store.used

/-- A new inode `b` is there under `name` in directory `t`. -/
structure Created (K : Regime) (P : Pool) (t : UInt32) (n : Node) (name : String) (size : Nat)
    (isDirectory : Bool) (b : UInt32) (n' m : Node) (P' : Pool) : Prop where
  fresh : P.nodes b = none
  nodes : P'.nodes = Function.update (Function.update P.nodes b (some m)) t (some n')
  tidy : n'.Tidy
  child : n'.child = Function.update n.child name (some b)
  parent : n'.record.isDirectory = true
  kind : m.record.isDirectory = isDirectory
  length : n'.size = max n.size (n.vacant * slotSize + slotSize)
  file : isDirectory = false → m.size = size ∧ m.byte = fun _ => 0
  directory : isDirectory = true → m.Tidy ∧ m.child = dots b t
  table : isDirectory = true → m.size = slotSize * 2
  free : K.free P'.store.used + (1 + (if isDirectory then 1 else totalBlocks size) + n.gain) =
    K.free P.store.used

/-- The directory `n` after nothing could be created in it. Its table is as long as it was, unless `name` was
linked and unlinked again. -/
structure Settled (K : Regime) (P : Pool) (n : Node) (denials : Nat) (name : String) (isDirectory : Bool)
    (n' : Node) : Prop where
  owned : n.owned ⊆ n'.owned
  size : (n'.size = n.size ∧ ¬(isDirectory = true ∧ Cramped K P n denials name)) ∨
    (n'.size = max n.size (n.vacant * slotSize + slotSize) ∧ isDirectory = true ∧
      Cramped K P n denials name)

theorem settled_self (h : ¬(isDirectory = true ∧ Cramped K W.pool n o.denials name)) :
    Settled K W.pool n o.denials name isDirectory n := ⟨List.Subset.refl _, .inl ⟨rfl, h⟩⟩

/-- No new inode is there under `name`. Only where writes fail, a directory may be left that does not have
both entries of its own. -/
inductive NotCreated (K : Regime) (P : Pool) (t : UInt32) (n : Node) (denials : Nat) (name : String)
    (isDirectory : Bool) (P' : Pool) : Prop
  | same (n' : Node) (nodes : P'.nodes = Function.update P.nodes t (some n')) (tidy : n'.Tidy)
    (child : n'.child = n.child) (parent : n'.record.isDirectory = true)
    (settled : ¬K.faulty → Settled K P n denials name isDirectory n')
  | left (faulty : K.faulty) (b : UInt32) (n' m : Node) (fresh : P.nodes b = none)
    (nodes : P'.nodes = Function.update (Function.update P.nodes b (some m)) t (some n'))
    (tidy : n'.Tidy) (new : n.child name = none)
    (child : n'.child = Function.update n.child name (some b))
    (parent : n'.record.isDirectory = true) (bud : Bud b t m)

/-- What creating comes to. -/
def Outcome (K : Regime) (W : World) (t : UInt32) (n : Node) (o : Opening) (name : String) (size : Nat)
    (isDirectory : Bool) (res : Except Stop Unit) (W' : World) : Prop :=
  W'.opens = W.opens ∧ W'.pool.held = [] ∧
    ((res = .ok () ∧ Room K W.pool n o.denials name size isDirectory ∧
        ∃ b n' m, W.opens b = none ∧ Created K W.pool t n name size isDirectory b n' m W'.pool) ∨
      ((K.faulty ∨ ¬Room K W.pool n o.denials name size isDirectory) ∧ (∃ e, res = .error (.failed e)) ∧
        NotCreated K W.pool t n o.denials name isDirectory W'.pool))

theorem Outcome.sober {res : Except Stop Unit} {W' : World}
    (h : Outcome K W t n o name size isDirectory res W') : Sober res := by
  rcases h with ⟨-, -, ⟨rfl, -⟩ | ⟨-, ⟨e, rfl⟩, -⟩⟩
  · exact sober_ok
  · exact sober_failed

/-- A block that is held is no inode yet, and it is not the one of the root, which has been taken before. -/
theorem held_fresh {v : Volume} {held : List UInt32} (hv : Mounts K W v)
    (hroot : W.pool.nodes rootInode ≠ none ∨ rootInode ∈ held) (hheld : W.pool.held = b :: held) :
    W.pool.nodes b = none ∧ K.IsData b.toNat := by
  have hb : b ∈ W.pool.held := by
    rw [hheld]
    exact List.mem_cons_self ..
  have hnodup := hv.disk.sound.nodup b
  rw [Pool.area, List.nodup_append, hheld] at hnodup
  have hnone : W.pool.nodes b = none := by
    by_contra hne
    obtain ⟨m, hm⟩ := Option.ne_none_iff_exists'.1 hne
    exact hnodup.2.2 b (Pool.mem_blocks_self hm) b (List.mem_cons_self ..) rfl
  refine ⟨hnone, (hv.disk.sound.held b hb).resolve_left ?_⟩
  rintro rfl
  exact hroot.elim (fun h => h hnone) (List.nodup_cons.1 hnodup.2.1).1

/-- A block that has just been taken is no inode that anybody has open. -/
theorem unopened_fresh {v : Volume} {W₁ : World} (hv : Mounts K W₁ v) (hroot : W.pool.RootTaken)
    (hnodes : W₁.pool.nodes = W.pool.nodes) (hopens : W₁.opens = W.opens)
    (hheld : W₁.pool.held = b :: W.pool.held) :
    W.pool.nodes b = none ∧ K.IsData b.toNat ∧ W.opens b = none := by
  obtain ⟨hb, hdata⟩ := held_fresh hv (hnodes ▸ hroot) hheld
  refine ⟨hnodes ▸ hb, hdata, ?_⟩
  by_contra ho
  exact hv.live b (hopens ▸ ho) hb

/-- Giving a block back that could not be used. -/
theorem unused_leads (hK : K.Fits) (hheld : W.pool.held = [b]) (hb : K.IsData b.toNat) :
    Leads (Mounts K) W (VolumeM.ignoring (VolumeM.release b 1)) fun res W' => res = .ok () ∧
      W'.opens = W.opens ∧ W'.pool.nodes = W.pool.nodes ∧ W'.pool.held = [] := by
  refine Leads.ignoring (Leads.mono (VolumeM.release_leads hK hheld hb) ?_)
  rintro res W' ⟨hsober, hnodes, hheld', hopens, -⟩
  exact ⟨hsober, hopens, hnodes, hheld'⟩

section CreateIn

variable {W₂ : World}

/-- The new inode `b` is stored, but has no name yet. -/
structure Nameless (K : Regime) (W : World) (size : Nat) (isDirectory : Bool) (b : UInt32) (m : Node)
    (W₂ : World) : Prop where
  fresh : W.pool.nodes b = none
  data : K.IsData b.toNat
  closed : W.opens b = none
  nodes : W₂.pool.nodes = Function.update W.pool.nodes b (some m)
  held : W₂.pool.held = []
  opens : W₂.opens = W.opens
  kind : m.record.isDirectory = isDirectory
  length : m.size = if isDirectory then 0 else size
  byte : m.byte = fun _ => 0
  small : isDirectory = false → size ≤ maxFileSize
  free : K.free W₂.pool.store.used + (1 + if isDirectory then 0 else totalBlocks size) =
    K.free W.pool.store.used

theorem Nameless.ne (h₂ : Nameless K W size isDirectory b m W₂) (hn : W.pool.nodes t = some n) :
    t ≠ b := by
  rintro rfl
  rw [h₂.fresh] at hn
  cases hn

theorem Nameless.node (h₂ : Nameless K W size isDirectory b m W₂) (hn : W.pool.nodes t = some n) :
    W₂.pool.nodes t = some n := by
  rw [h₂.nodes, Function.update_of_ne (h₂.ne hn), hn]

/-- Without a name the new inode is given up. -/
theorem Nameless.giveUp_leads (hK : K.Fits) (h₂ : Nameless K W size isDirectory b m W₂) {W₃ : World}
    {n' : Node} (hn : W.pool.nodes t = some n) (hbecomes : W₂.Becomes t n' W₃) :
    Leads (Mounts K) W₃ (giveUp b) fun res W' => res = .ok () ∧ W'.opens = W.opens ∧
      W'.pool.held = [] ∧ W'.pool.nodes = Function.update W.pool.nodes t (some n') := by
  have hbt := h₂.ne hn
  have hopens : W₃.opens = W.opens := hbecomes.opens.trans h₂.opens
  have hm : W₃.pool.nodes b = some m := by
    rw [hbecomes.node_of_ne hbt.symm, h₂.nodes, Function.update_self]
  refine Leads.mono (Volume.giveUp_leads hK hm (by rw [hopens, h₂.closed]) h₂.data) ?_
  rintro res W' ⟨rfl, hopens', hnodes', hheld'⟩
  refine ⟨rfl, hopens'.trans hopens, hheld'.trans (hbecomes.held.trans h₂.held), ?_⟩
  rw [hnodes', hbecomes.nodes, h₂.nodes, Function.update_comm hbt, Function.update_idem,
    ← h₂.fresh, Function.update_eq_self]

/-- The new inode `b` has its name, in directory `t`. -/
structure Named (K : Regime) (W : World) (t : UInt32) (n : Node) (o : Opening) (name : String) (size : Nat)
    (isDirectory : Bool) (b : UInt32) (m n' : Node) (W₃ : World) : Prop where
  nameless : ∃ W₂, Nameless K W size isDirectory b m W₂
  new : n.child name = none
  writable : o.denials = 0
  fits : n.vacant * slotSize + slotSize ≤ maxFileSize
  nodes : W₃.pool.nodes = Function.update (Function.update W.pool.nodes b (some m)) t (some n')
  held : W₃.pool.held = []
  opens : W₃.opens = W.opens
  tidy : n'.Tidy
  child : n'.child = Function.update n.child name (some b)
  parent : n'.record.isDirectory = true
  length : n'.size = max n.size (n.vacant * slotSize + slotSize)
  owned : n.owned ⊆ n'.owned
  free : K.free W₃.pool.store.used + (1 + (if isDirectory then 0 else totalBlocks size) + n.gain) =
    K.free W.pool.store.used

/-- Linking the name of the new inode, which is given up if that fails. -/
theorem linkName_leads (hK : K.Fits) (hS : Site K W T t n o) (hname : NulFree name)
    (hne : name.isEmpty = false) (hshort : name.utf8ByteSize ≤ nameMax)
    (h₂ : Nameless K W size isDirectory b m W₂) :
    Leads (Mounts K) W₂ (orUndo (Directory.add { inode := ⟨t⟩ } name b) (giveUp b)) fun res W₃ =>
      (res = .ok () ∧ ∃ n', Named K W t n o name size isDirectory b m n' W₃) ∨
        ((∃ e, res = .error (.failed e)) ∧ Outcome K W t n o name size isDirectory res W₃) := by
  have hn₂ := h₂.node hS.node
  have htidy := hS.rooted.tidy t hS.linked n hS.node hS.isDirectory
  have hroom (h : Room K W.pool n o.denials name size isDirectory) : Directory.Addable K W₂ n o name := by
    refine ⟨hne, hshort, hS.kept, h.new, h.writable, h.fits, ?_⟩
    have hspace := h.space
    have hfree := h₂.free
    cases isDirectory <;> simp only [Bool.false_eq_true, ↓reduceIte] at hspace hfree <;> omega
  have hcramped (h : isDirectory = true ∧ Cramped K W.pool n o.denials name) :
      Directory.Addable K W₂ n o name := by
    refine ⟨hne, hshort, hS.kept, h.2.new, h.2.writable, h.2.fits, ?_⟩
    have hspace := h.2.space
    have hfree := h₂.free
    rw [if_pos h.1] at hfree
    omega
  refine Leads.orUndo (Directory.add_leads hK rfl hn₂ (by rw [h₂.opens, hS.opening]) htidy hname) ?_ ?_ ?_
  · rintro r W₃ (⟨rfl, -⟩ | ⟨-, e, rfl, -⟩)
    · exact sober_ok
    · exact sober_failed
  · rintro W₃ (⟨-, hadd, n', hbecomes, htidy', hchild, hdir, hsize, howned, hfree⟩ | ⟨-, e, he, -⟩)
    · refine .inl ⟨rfl, n', ⟨W₂, h₂⟩, hadd.new, hadd.writable, hadd.fits, ?_, hbecomes.held.trans h₂.held,
        hbecomes.opens.trans h₂.opens, htidy', hchild, hdir.trans hS.isDirectory, hsize, howned, ?_⟩
      · rw [hbecomes.nodes, h₂.nodes]
      · have hfree₂ := h₂.free
        omega
    · cases he
  · rintro e W₃ (⟨he, -⟩ | ⟨hwhy, e', -, hsame⟩)
    · cases he
    -- No name has changed, whether or not part of the slot was written.
    obtain ⟨n', hbecomes, ht', hc', hdir', hsettled⟩ : ∃ n', W₂.Becomes t n' W₃ ∧ n'.Tidy ∧
        n'.child = n.child ∧ n'.record.isDirectory = n.record.isDirectory ∧
        (¬K.faulty → Settled K W.pool n o.denials name isDirectory n') := by
      rcases hsame with hstays | ⟨hf, n', hbecomes, ht', hc', hdir'⟩
      · exact ⟨n, ⟨by rw [hstays.nodes, Function.update_eq_self_iff.2 hn₂.symm], hstays.held,
          hstays.opens⟩, htidy, rfl, rfl, fun hf => settled_self fun h => hwhy.resolve_left hf (hcramped h)⟩
      · exact ⟨n', hbecomes, ht', hc', hdir', fun hno => absurd hf hno⟩
    refine Leads.mono (h₂.giveUp_leads hK hS.node hbecomes) ?_
    rintro u W₄ ⟨rfl, hopens, hheld, hnodes⟩
    refine ⟨rfl, .inr ⟨⟨e, rfl⟩, hopens, hheld, .inr ⟨?_, ⟨e, rfl⟩,
      .same n' hnodes ht' hc' (hdir'.trans hS.isDirectory) hsettled⟩⟩⟩
    exact hwhy.imp_right fun hno h => hno (hroom h)

namespace Named

variable {W₃ W₄ : World} {n' m' : Node}

theorem ne (h : Named K W t n o name size isDirectory b m n' W₃) (hn : W.pool.nodes t = some n) : t ≠ b := by
  obtain ⟨W₂, h₂⟩ := h.nameless
  exact h₂.ne hn

theorem node (h : Named K W t n o name size isDirectory b m n' W₃) (hn : W.pool.nodes t = some n) :
    W₃.pool.nodes b = some m := by
  rw [h.nodes, Function.update_of_ne (h.ne hn).symm, Function.update_self]

/-- The name is where the two entries of a new directory are linked. -/
theorem resolve (h : Named K W t n o name size true b m n' W₃) (hS : Site K W T t n o) {parent : String}
    (hpath : W.pool.resolve rootInode (Path.components parent) = .ok t)
    (hclosed : Path.Closed parent.toList) (hword : Path.Word name.toList) (hne : name.isEmpty = false)
    (hg : Pool.Grafted W.pool T b t name W₃.pool) :
    W₃.pool.resolve rootInode (Path.components (parent ++ name)) = .ok b := by
  obtain ⟨W₂, h₂⟩ := h.nameless
  refine resolve_grafted hS.rooted hg hpath hclosed hword hne ?_
  rw [Pool.isDirectory_of_node (h.node hS.node), h₂.kind]

/-- What the pool is when the new inode has become another one. -/
theorem nodes_becomes (h : Named K W t n o name size isDirectory b m n' W₃) (hn : W.pool.nodes t = some n)
    (hb : W₃.Becomes b m' W₄) :
    W₄.pool.nodes = Function.update (Function.update W.pool.nodes b (some m')) t (some n') := by
  rw [hb.nodes, h.nodes, Function.update_comm (h.ne hn), Function.update_idem]

/-- A file is created when it has its name. -/
theorem created (h : Named K W t n o name size false b m n' W₃) :
    Outcome K W t n o name size false (.ok ()) W₃ := by
  obtain ⟨W₂, h₂⟩ := h.nameless
  have hfree := h.free
  rw [if_neg (by decide)] at hfree
  refine ⟨h.opens, h.held, .inl ⟨rfl, ⟨h.new, h.writable, h₂.small, h.fits, ?_⟩, b, n', m, h₂.closed,
    h₂.fresh, h.nodes, h.tidy, h.child, h.parent, h₂.kind, h.length, fun _ => ⟨h₂.length, h₂.byte⟩,
    fun hd => absurd hd (by decide), fun hd => absurd hd (by decide), ?_⟩⟩
  · rw [if_neg (by decide)]
    omega
  · rw [if_neg (by decide)]
    exact hfree

/-- A new directory without both entries of its own is unlinked again. -/
theorem unlink_leads (hK : K.Fits) (hS : Site K W T t n o) (h : Named K W t n o name size true b m n' W₃)
    (hb : W₃.Becomes b m' W₄) (hbud : Bud b t m')
    (hfull : ¬K.faulty → K.free W₃.pool.store.used = 0) :
    Leads (Mounts K) W₄ (VolumeM.ignoring (Directory.remove { inode := ⟨t⟩ } name)) fun res W' =>
      res = .ok () ∧ W'.opens = W.opens ∧ W'.pool.held = [] ∧
        NotCreated K W.pool t n o.denials name true W'.pool := by
  obtain ⟨W₂, h₂⟩ := h.nameless
  have hbt := h.ne hS.node
  have hnodes := h.nodes_becomes hS.node hb
  have hopens : W₄.opens = W.opens := hb.opens.trans h.opens
  have hheld : W₄.pool.held = [] := hb.held.trans h.held
  have hn₄ : W₄.pool.nodes t = some n' := by rw [hnodes, Function.update_self]
  have hcb : n'.child name = some b := by rw [h.child, Function.update_self]
  refine Leads.ignoring (Leads.mono (Directory.remove_leads hK rfl hn₄ (by rw [hopens, hS.opening]) h.tidy
    fun x _ hx => ?_) ?_)
  · rw [hcb] at hx
    cases hx
    refine ⟨hbt.symm, h₂.data, ⟨m', hb.node, fun _ => hbud.tidy⟩, fun ox hox => ?_⟩
    rw [hopens, h₂.closed] at hox
    cases hox
  rintro res W₅ (⟨rfl, x, k, n'', -, hremovable, hunlinked⟩ | ⟨hwhy, e, rfl, hsame⟩)
  · obtain rfl : b = x := Option.some_inj.1 (hcb.symm.trans hremovable.child)
    obtain ⟨hclosed, hgone, -⟩ := hunlinked.gone (by rw [hopens, h₂.closed])
    refine ⟨sober_ok, funext fun i => ?_, hunlinked.held.trans hheld, .same n'' (funext fun i => ?_)
      hunlinked.tidy ?_ (hunlinked.isDirectory.trans h.parent) fun hf => ?_⟩
    · by_cases hi : i = b
      · rw [hi, hclosed, h₂.closed]
      · rw [hunlinked.opens i hi, hopens]
    · by_cases hit : i = t
      · rw [hit, hunlinked.node, Function.update_self]
      · rw [Function.update_of_ne hit]
        by_cases hi : i = b
        · rw [hi, hgone, h₂.fresh]
        · rw [hunlinked.others i hit hi, hnodes, Function.update_of_ne hit, Function.update_of_ne hi]
    · rw [hunlinked.child, h.child, Function.update_idem, ← h.new, Function.update_eq_self]
    · -- Unlinking has not made the table shorter again, and there was no block left.
      have hfree := h.free
      rw [hfull hf, if_pos rfl] at hfree
      exact ⟨List.Subset.trans h.owned hunlinked.owned,
        .inr ⟨hunlinked.size.trans h.length, rfl, h.new, h.writable, h.fits, by omega⟩⟩
  · -- Where no write fails the name can go: it is neither of the two that every directory has.
    have hf : K.faulty := by
      by_contra hf
      have hchild : W.pool.child t = n.child := Pool.child_of_node hS.node hS.isDirectory
      obtain ⟨hdot, hdotdot⟩ := hS.dotted hf t hS.linked
        (by rw [Pool.isDirectory_of_node hS.node, hS.isDirectory])
      rw [hchild] at hdot hdotdot
      have hnew := h.new
      have hnamed : isDotName name = false := by
        by_contra hdots
        simp only [Bool.not_eq_false, isDotName, Bool.or_eq_true, beq_iff_eq] at hdots
        rcases hdots with rfl | rfl
        · rw [hdot] at hnew
          cases hnew
        · rw [hdotdot] at hnew
          cases hnew
      refine hwhy.resolve_left hf b m' hb.node ⟨hnamed, hcb, ?_, h.writable⟩
      rintro ⟨-, nm, x, hnm, hx⟩
      rcases hbud.own nm x hx with ⟨rfl, -⟩ | ⟨rfl, -⟩
      · exact absurd hnm (by decide)
      · exact absurd hnm (by decide)
    rcases hsame with rfl | ⟨-, n'', hbecomes, ht'', hc'', hdir''⟩
    · exact ⟨sober_failed, hopens, hheld, .left hf b n' m' h₂.fresh hnodes h.tidy h.new h.child h.parent hbud⟩
    · refine ⟨sober_failed, hbecomes.opens.trans hopens, hbecomes.held.trans hheld,
        .left hf b n'' m' h₂.fresh ?_ ht'' h.new (hc''.trans h.child) (hdir''.trans h.parent) hbud⟩
      rw [hbecomes.nodes, hnodes, Function.update_idem]

/-- Linking the two entries of its own into a new directory, which is unlinked if that fails. -/
theorem linkDots_leads (hK : K.Fits) (hS : Site K W T t n o) {parent : String}
    (hpath : W.pool.resolve rootInode (Path.components parent) = .ok t)
    (hclosed : Path.Closed parent.toList) (hword : Path.Word name.toList) (hne : name.isEmpty = false)
    (h : Named K W t n o name size true b m n' W₃) :
    Leads (Mounts K) W₃ (orUndo (linkDots (parent ++ name) b t)
        (VolumeM.ignoring (Directory.remove { inode := ⟨t⟩ } name)))
      (Outcome K W t n o name size true) := by
  obtain ⟨W₂, h₂⟩ := h.nameless
  have hg := grafted_of_nodes hS.rooted hS.linked hS.node hS.isDirectory h₂.fresh h.nodes h.tidy h.new
    h.child h.parent fun _ => bud_empty h₂.kind h₂.length
  have hattended : W₃.Attended := fun x ox hox => hS.attended x ox (by rwa [h.opens] at hox)
  have hfree := h.free
  rw [if_pos rfl] at hfree
  -- The new directory has its name already, so its path leads to it.
  refine Leads.orUndo (Volume.linkDots_leads (t := t) hK (hS.rooted.link hg).walkable hattended
    (h.resolve hS hpath hclosed hword hne hg) (h.node hS.node) (by rw [h.opens, h₂.closed]) h₂.kind
    h₂.length) (fun r W₄ h => h.1) ?_ ?_
  · rintro W₄ ⟨-, m', hb, hbud, ⟨-, hdots, hsize, hfree₄⟩ | ⟨-, e, he⟩⟩
    · refine ⟨hb.opens.trans h.opens, hb.held.trans h.held, .inl ⟨rfl,
        ⟨h.new, h.writable, h₂.small, h.fits, ?_⟩, b, n', m', h₂.closed, h₂.fresh,
        h.nodes_becomes hS.node hb, h.tidy, h.child, h.parent, hbud.isDirectory, h.length,
        fun hno => absurd hno (by decide), fun _ => ⟨hbud.tidy, hdots⟩, fun _ => hsize, ?_⟩⟩
      · rw [if_pos rfl]
        omega
      · rw [if_pos rfl]
        omega
    · cases he
  · rintro e W₄ ⟨-, m', hb, hbud, ⟨he, -⟩ | ⟨hwhy, -⟩⟩
    · cases he
    refine Leads.mono (h.unlink_leads hK hS hb hbud fun hf => hwhy.resolve_left hf) ?_
    rintro u W₅ ⟨rfl, hopens, hheld, hnot⟩
    refine ⟨rfl, hopens, hheld, .inr ⟨hwhy.imp_right fun hzero hroom => ?_, ⟨e, rfl⟩, hnot⟩⟩
    have hspace := hroom.space
    rw [if_pos rfl] at hspace
    omega

end Named

/-- Linking the new inode, and the two entries of its own into a new directory. -/
theorem link_leads (hK : K.Fits) (hS : Site K W T t n o) {parent : String}
    (hpath : W.pool.resolve rootInode (Path.components parent) = .ok t)
    (hclosed : Path.Closed parent.toList) (hword : Path.Word name.toList) (hname : NulFree name)
    (hne : name.isEmpty = false) (hshort : name.utf8ByteSize ≤ nameMax)
    (h₂ : Nameless K W size isDirectory b m W₂) :
    Leads (Mounts K) W₂ (do
      orUndo (Directory.add { inode := ⟨t⟩ } name b) (giveUp b)
      if isDirectory then
        orUndo (linkDots (parent ++ name) b t)
          (VolumeM.ignoring (Directory.remove { inode := ⟨t⟩ } name)))
      (Outcome K W t n o name size isDirectory) := by
  refine Leads.bind (linkName_leads hK hS hname hne hshort h₂) ?_ ?_
  · rintro v W₃ (⟨-, n', h⟩ | ⟨⟨e, he⟩, -⟩)
    · -- A file is made with its entry. A directory goes on to its two names of dots.
      cases isDirectory with
      | false => exact Leads.pure h.created
      | true => exact h.linkDots_leads hK hS hpath hclosed hword hne
    · cases he
  · rintro e W₃ (⟨he, -⟩ | ⟨-, h⟩)
    · cases he
    · exact h

/-- Where no inode has changed, nothing has been created. -/
theorem notCreated_of_nodes (hS : Site K W T t n o) {P : Pool} (h : P.nodes = W.pool.nodes)
    (hno : ¬K.faulty → ¬(isDirectory = true ∧ Cramped K W.pool n o.denials name)) :
    NotCreated K W.pool t n o.denials name isDirectory P := by
  refine .same n ?_ (hS.rooted.tidy t hS.linked n hS.node hS.isDirectory) rfl hS.isDirectory
    fun hf => settled_self (hno hf)
  rw [h, Function.update_eq_self_iff.2 hS.node.symm]

/-- An inode that could not be stored is a file that is too long or finds too little space, unless writes fail:
a new directory takes no block yet but that of its record. -/
theorem refused_of_file {P : Pool} {e : Error}
    (h : Pool.Refused K P (if isDirectory then 0 else size) (totalBlocks (if isDirectory then 0 else size)) e) :
    K.faulty ∨ (isDirectory = false ∧ (maxFileSize < size ∨ K.free P.store.used < totalBlocks size)) := by
  -- A directory is made empty, so neither its size nor its blocks can be the reason.
  cases isDirectory with
  | false =>
    simp only [Bool.false_eq_true, ↓reduceIte] at h
    rcases h with ⟨-, hlong⟩ | ⟨-, hlow⟩ | ⟨hf, -⟩
    · exact .inr ⟨rfl, .inl hlong⟩
    · exact .inr ⟨rfl, .inr hlow⟩
    · exact .inl hf
  | true =>
    have hzero : totalBlocks 0 = 0 := by decide
    simp only [↓reduceIte] at h
    rcases h with ⟨-, hlong⟩ | ⟨-, hlow⟩ | ⟨hf, -⟩
    · exact absurd hlong (Nat.not_lt_zero _)
    · omega
    · exact .inl hf

/-- Storing the new inode in the block that is held for it, which is given back if that fails. -/
theorem storeInode_settles (hK : K.Fits) {W₁ : World} (hfresh : W.pool.nodes b = none)
    (hdata : K.IsData b.toNat) (hclosed : W.opens b = none) (hnodes₁ : W₁.pool.nodes = W.pool.nodes)
    (hheld₁ : W₁.pool.held = [b]) (hopens₁ : W₁.opens = W.opens)
    (hfree₁ : K.free W₁.pool.store.used + 1 = K.free W.pool.store.used) :
    Leads (Mounts K) W₁
      (orUndo (if isDirectory then Directory.create b 0 else Inode.create b size false)
        (VolumeM.ignoring (VolumeM.release b 1))) fun res W₂ =>
      (res = .ok () ∧ ∃ m, Nameless K W size isDirectory b m W₂) ∨
        ((∃ e, res = .error (.failed e)) ∧ W₂.opens = W.opens ∧ W₂.pool.held = [] ∧
          W₂.pool.nodes = W.pool.nodes ∧ (K.faulty ∨ (isDirectory = false ∧
            (maxFileSize < size ∨ K.free W₁.pool.store.used < totalBlocks size)))) := by
  -- A directory is created empty, so both branches create an inode.
  have hcreate : (if isDirectory then Directory.create b 0 else Inode.create b size false) =
      Inode.create b (if isDirectory then 0 else size) isDirectory := by
    cases isDirectory <;> rfl
  rw [hcreate]
  refine Leads.orUndo (Inode.create_leads hK (hnodes₁ ▸ hfresh) hheld₁) ?_ ?_ ?_
  · rintro r W₂ (⟨m, rfl, -⟩ | ⟨e, rfl, -⟩)
    · exact sober_ok
    · exact sober_failed
  · rintro W₂ (⟨m, -, hnodes, hheld, hopens, hkind, hsize, hbyte, hsmall, -, hfree⟩ | ⟨e, he, -⟩)
    swap
    · cases he
    refine .inl ⟨rfl, m, hfresh, hdata, hclosed, by rw [hnodes, hnodes₁], hheld, hopens.trans hopens₁, hkind,
      hsize, hbyte, fun hd => ?_, ?_⟩
    · rw [hd] at hsmall
      exact hsmall
    · cases isDirectory with
      | false =>
        simp only [Bool.false_eq_true, ↓reduceIte] at hfree ⊢
        omega
      | true =>
        simp only [↓reduceIte] at hfree ⊢
        have hzero : totalBlocks 0 = 0 := by decide
        omega
  · rintro e W₂ (⟨m, he, -⟩ | ⟨e', -, hstays, hwhy⟩)
    · cases he
    refine Leads.mono (unused_leads hK (hstays.held.trans hheld₁) hdata) ?_
    rintro u W₃ ⟨rfl, hopens, hnodes, hheld⟩
    exact ⟨rfl, .inr ⟨⟨e, rfl⟩, hopens.trans (hstays.opens.trans hopens₁), hheld,
      hnodes.trans (hstays.nodes.trans hnodes₁), refused_of_file hwhy⟩⟩

/-- Taking a block and storing a new inode in it, which has no name yet. -/
theorem newInode_leads {β : Type} {rest : UInt32 → VolumeM β} {Q : Except Stop β → World → Prop} (hK : K.Fits)
    (hroot : W.pool.nodes rootInode ≠ none) (hheld : W.pool.held = [])
    (hrest : ∀ b m W₂, Nameless K W size isDirectory b m W₂ → Leads (Mounts K) W₂ (rest b) Q)
    (hfail : ∀ e W₂, W₂.opens = W.opens → W₂.pool.held = [] → W₂.pool.nodes = W.pool.nodes →
      Q (.error (.failed e)) W₂) :
    Leads (Mounts K) W (do
      let number ← VolumeM.allocate 1
      orUndo (if isDirectory then Directory.create number 0 else Inode.create number size false)
        (VolumeM.ignoring (VolumeM.release number 1))
      rest number) Q := by
  refine Leads.bind (VolumeM.allocate_leads hK) ?_ ?_
  · rintro b W₁ (⟨b', hb, hnodes₁, hheld₁, hopens₁, hfree₁⟩ | ⟨e, he, -⟩)
    swap
    · cases he
    cases hb
    -- The new block is no inode yet, which is known of the volume that shows the world.
    refine Leads.of_shown fun v hv => ?_
    obtain ⟨hb, hdata, hclosed⟩ := unopened_fresh hv (.inl hroot) hnodes₁ hopens₁ hheld₁
    rw [hheld] at hheld₁
    refine Leads.bind (storeInode_settles hK hb hdata hclosed hnodes₁ hheld₁ hopens₁ hfree₁) ?_ ?_
    · rintro v' W₂ (⟨-, m, h₂⟩ | ⟨⟨e, he⟩, -⟩)
      · exact hrest b m W₂ h₂
      · cases he
    · rintro e W₂ (⟨he, -⟩ | ⟨⟨e', he⟩, hopens, hheld₂, hnodes, -⟩)
      · cases he
      · cases he
        exact hfail e' W₂ hopens hheld₂ hnodes
  · rintro e W₁ (⟨b, he, -⟩ | ⟨e', he, rfl, -⟩)
    · cases he
    · cases he
      exact hfail e' W₁ rfl hheld rfl

/-- Storing the new inode in a directory of the tree. -/
theorem storeInode_leads (hK : K.Fits) (hS : Site K W T t n o) {W₁ : World} (hfresh : W.pool.nodes b = none)
    (hdata : K.IsData b.toNat) (hclosed : W.opens b = none) (hnodes₁ : W₁.pool.nodes = W.pool.nodes)
    (hheld₁ : W₁.pool.held = [b]) (hopens₁ : W₁.opens = W.opens)
    (hfree₁ : K.free W₁.pool.store.used + 1 = K.free W.pool.store.used) (name : String) :
    Leads (Mounts K) W₁
      (orUndo (if isDirectory then Directory.create b 0 else Inode.create b size false)
        (VolumeM.ignoring (VolumeM.release b 1))) fun res W₂ =>
      (res = .ok () ∧ ∃ m, Nameless K W size isDirectory b m W₂) ∨
        ((∃ e, res = .error (.failed e)) ∧ Outcome K W t n o name size isDirectory res W₂) := by
  refine Leads.mono (storeInode_settles hK hfresh hdata hclosed hnodes₁ hheld₁ hopens₁ hfree₁) ?_
  rintro res W₂ (h | ⟨he, hopens, hheld, hnodes, hfile⟩)
  · exact .inl h
  -- A directory starts with an empty table and needs no block but its own, so without faults only a file
  -- can be refused.
  refine .inr ⟨he, hopens, hheld, .inr ⟨?_, he, notCreated_of_nodes hS hnodes fun hf h => ?_⟩⟩
  · refine hfile.imp_right fun ⟨hd, hno⟩ h => ?_
    have hsmall := h.small hd
    have hspace := h.space
    rw [hd, if_neg (by decide)] at hspace
    omega
  · rw [(hfile.resolve_left hf).1] at h
    cases h.1

/-- Creating in a directory comes to the new inode or to the names that were there before. -/
theorem createIn_leads (hK : K.Fits) (hS : Site K W T t n o) {parent : String}
    (hpath : W.pool.resolve rootInode (Path.components parent) = .ok t)
    (hclosed : Path.Closed parent.toList) (hword : Path.Word name.toList) (hname : NulFree name)
    (hne : name.isEmpty = false) (hshort : name.utf8ByteSize ≤ nameMax) (size : Nat)
    (isDirectory : Bool) :
    Leads (Mounts K) W (createIn { inode := ⟨t⟩ } parent name size isDirectory)
      (Outcome K W t n o name size isDirectory) := by
  unfold createIn
  refine Yields.bind (Directory.lookup_yields rfl hS.node hS.opening name) ?_
  cases hnew : n.child name with
  | some x =>
    have hold : n.child name ≠ none := by simp [hnew]
    exact Leads.failBind ⟨rfl, hS.held, .inr ⟨.inr fun h => hold h.new, ⟨_, rfl⟩,
      notCreated_of_nodes hS rfl fun _ h => hold h.2.new⟩⟩
  | none =>
    rw [if_neg (by simp)]
    refine Leads.bind (VolumeM.allocate_leads hK) ?_ ?_
    · rintro b W₁ (⟨b', hb, hnodes₁, hheld₁, hopens₁, hfree₁⟩ | ⟨e, he, -⟩)
      swap
      · cases he
      cases hb
      refine Leads.of_shown fun v hv => ?_
      obtain ⟨hfresh, hdata, hclosed₁⟩ := unopened_fresh hv (.inl (hS.rooted.stored _ hS.rooted.root)) hnodes₁
        hopens₁ hheld₁
      rw [hS.held] at hheld₁
      refine Leads.bind (storeInode_leads hK hS hfresh hdata hclosed₁ hnodes₁ hheld₁ hopens₁ hfree₁ name) ?_ ?_
      · rintro v' W₂ (⟨-, m, h₂⟩ | ⟨⟨e, he⟩, -⟩)
        · exact link_leads hK hS hpath hclosed hword hname hne hshort h₂
        · cases he
      · rintro e W₂ (⟨he, -⟩ | ⟨-, h⟩)
        · cases he
        · exact h
    · rintro e W₁ (⟨b, he, -⟩ | ⟨e', he, rfl, hwhy⟩)
      · cases he
      · cases he
        -- No block was free, so none was free for the name of a directory either.
        refine ⟨rfl, hS.held, .inr ⟨?_, ⟨e', rfl⟩, notCreated_of_nodes hS rfl fun hf h => ?_⟩⟩
        · rcases hwhy with ⟨-, hzero⟩ | ⟨hf, -⟩
          · refine .inr fun h => ?_
            have := h.space
            omega
          · exact .inl hf
        · rcases hwhy with ⟨-, hzero⟩ | ⟨hf', -⟩
          · have := h.2.space
            omega
          · exact hf hf'

end CreateIn

end Volume

end InodeVolume
