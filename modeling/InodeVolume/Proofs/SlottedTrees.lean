import InodeVolume.Proofs.Runs

/-!
# Trees by slots

A name is stored up to its first zero character. Where paths may have such characters, a directory may come
to have one name twice, or lack the two entries of its own, so the tree of directories is not told by names
any more. It is told by slots: every inode of the tree but the root has one slot, in the directory that it is
in, and no other slot but the two of every directory stands for it (`Pool.Slotted`).

Main statements: linking a new inode puts it into the tree (`Pool.Slotted.link`), and freeing the slot of one
takes it out, with all that is below it (`Pool.Slotted.prune`). Between two calls of a client the world has
such a tree, in which nothing is open that has been removed (`World.Slotted`), whatever paths the client asks
for.
-/

namespace InodeVolume

namespace Hierarchy

variable {T : Hierarchy} {slot : UInt32 → Nat} {b d y : UInt32} {i j : Nat} {name nm : String}

/-- Slot `j` of directory `d` is the one of inode `x`, or one of the two that every directory has of its own. -/
def Placed (T : Hierarchy) (slot : UInt32 → Nat) (d : UInt32) (j : Nat) (nm : String) (x : UInt32) : Prop :=
  (isDotName nm = true ∧ (x = d ∨ x = T.parent d)) ∨
    (T.linked x ∧ x ≠ rootInode ∧ T.parent x = d ∧ slot x = j)

/-- A new leaf keeps a hierarchy grounded. -/
theorem Grounded.link (h : T.Grounded) (hd : T.linked d) (hb : ¬T.linked b) (name : String) :
    (T.link b d name).Grounded := by
  -- What is linked already is another inode, and keeps its parent.
  have hne (x : UInt32) (hx : T.linked x) : x ≠ b := by
    rintro rfl
    exact hb hx
  refine ⟨.inl h.root, ?_, ?_⟩
  · show Function.update T.parent b d rootInode = rootInode
    rw [Function.update_of_ne (hne _ h.root), h.top]
  · rintro x (hx | rfl) h0
    · obtain ⟨hp, hlt⟩ := h.up x hx h0
      simp only [Hierarchy.link, Function.update_of_ne (hne x hx), Function.update_of_ne (hne _ hp)]
      exact ⟨.inl hp, hlt⟩
    · simp only [Hierarchy.link, Function.update_self, Function.update_of_ne (hne d hd)]
      exact ⟨.inl hd, Nat.lt_succ_self _⟩

/-- What had a slot has it still when a new inode is linked. -/
theorem Placed.link (h : T.Placed slot d i nm y) (hd : T.linked d) (hb : ¬T.linked b) (t : UInt32) (name : String)
    (j : Nat) : (T.link b t name).Placed (Function.update slot b j) d i nm y := by
  -- An inode that is linked is not the new one, so its parent and its slot are as before.
  have hne (x : UInt32) (hx : T.linked x) : x ≠ b := by
    rintro rfl
    exact hb hx
  rcases h with ⟨hdot, hown⟩ | ⟨hy, h0, hp, hs⟩
  · refine .inl ⟨hdot, ?_⟩
    simp only [Hierarchy.link, Function.update_of_ne (hne d hd)]
    exact hown
  · refine .inr ⟨.inl hy, h0, ?_, ?_⟩
    · simp only [Hierarchy.link, Function.update_of_ne (hne y hy), hp]
    · rw [Function.update_of_ne (hne y hy), hs]

end Hierarchy

namespace Pool

variable {P P' : Pool} {T : Hierarchy} {slot : UInt32 → Nat} {b d t x : UInt32} {n n' m : Node} {j : Nat}
  {nm name : String}

/-- The pool has the tree `T`, and in it every inode has its slot. -/
structure Slotted (P : Pool) (T : Hierarchy) (slot : UInt32 → Nat) : Prop where
  grounded : T.Grounded
  rootDirectory : P.isDirectory rootInode = true
  stored : ∀ x, T.linked x → P.nodes x ≠ none
  placed : ∀ d n, T.linked d → P.nodes d = some n → n.record.isDirectory = true →
    ∀ j nm x, n.EntryAt j nm x → T.Placed slot d j nm x

/-- Every entry of a directory in the tree stands for an inode in the tree. -/
theorem Slotted.linked_entry (h : P.Slotted T slot) (hd : T.linked d) (hn : P.nodes d = some n)
    (hdir : n.record.isDirectory = true) (he : n.EntryAt j nm x) : T.linked x := by
  rcases h.placed d n hd hn hdir j nm x he with ⟨-, rfl | rfl⟩ | ⟨hx, -⟩
  · exact hd
  · exact h.grounded.linked_parent hd
  · exact hx

/-- An entry that is not one of the two of every directory is in the slot of its inode. -/
theorem Slotted.slot_entry (h : P.Slotted T slot) (hd : T.linked d) (hn : P.nodes d = some n)
    (hdir : n.record.isDirectory = true) (he : n.EntryAt j nm x) (hnm : isDotName nm = false) :
    T.linked x ∧ x ≠ rootInode ∧ T.parent x = d ∧ slot x = j := by
  refine (h.placed d n hd hn hdir j nm x he).resolve_left ?_
  rintro ⟨hdot, -⟩
  rw [hnm] at hdot
  cases hdot

theorem Slotted.walkable (h : P.Slotted T slot) : P.Walkable T.linked := by
  refine ⟨h.grounded.root, h.rootDirectory, h.stored, fun d name x hd hc => ?_⟩
  obtain ⟨n, hn, hdir⟩ := isDirectory_node (isDirectory_of_child hc)
  rw [child_of_node hn hdir] at hc
  obtain ⟨j, -, he⟩ := Node.child_some hc
  exact h.linked_entry hd hn hdir he

/-- Where the tree is told by names, the slot of an inode is the one that its name is found in. -/
theorem Rooted.slotted (h : P.Rooted T) : ∃ slot, P.Slotted T slot := by
  -- Each inode has the slot at which its parent finds its name.
  refine ⟨fun x => ((P.nodes (T.parent x)).bind (·.find (T.name x))).getD 0, h.grounded, h.rootDirectory,
    h.stored, fun d n hd hn hdir j nm x he => ?_⟩
  have ht := h.tidy d hd n hn hdir
  have hc := ht.child_eq he
  rcases h.down d nm x hd (by rw [child_of_node hn hdir, hc]) with (⟨rfl, hx⟩ | ⟨rfl, hx⟩) | ⟨hx, h0, hp, hname⟩
  · exact .inl ⟨by decide, .inl hx⟩
  · exact .inl ⟨by decide, .inr hx⟩
  · obtain ⟨i, hi, he'⟩ := Node.child_some hc
    refine .inr ⟨hx, h0, hp, ?_⟩
    simp only [hp, hn, hname, Option.bind_some, hi, Option.getD_some]
    exact ht.unique i j nm x x he' he

/-! ## Changes -/

/-- Other tables, in which everything is in its place. -/
theorem Slotted.of_tables (h : P.Slotted T slot) (ht : ∀ x n, T.linked x → P.nodes x = some n →
      ∃ n', P'.nodes x = some n' ∧ n'.record.isDirectory = n.record.isDirectory ∧
        (n.record.isDirectory = true → ∀ j nm y, n'.EntryAt j nm y → T.Placed slot x j nm y)) :
    P'.Slotted T slot := by
  -- The hierarchy has not changed, and each table still has its entries in their places.
  refine ⟨h.grounded, ?_, fun x hx => ?_, fun d n' hd hn' hdir' => ?_⟩
  · obtain ⟨n, hn, hdir⟩ := isDirectory_node h.rootDirectory
    obtain ⟨n', hn', hdir', -⟩ := ht _ n h.grounded.root hn
    rw [isDirectory_of_node hn', hdir', hdir]
  · obtain ⟨n, hn⟩ := Option.ne_none_iff_exists'.1 (h.stored x hx)
    obtain ⟨n', hn', -⟩ := ht x n hx hn
    simp [hn']
  · obtain ⟨n, hn⟩ := Option.ne_none_iff_exists'.1 (h.stored d hd)
    obtain ⟨k, hk, hdir, hplaced⟩ := ht d n hd hn
    rw [hn'] at hk
    cases hk
    exact hplaced (hdir ▸ hdir')

/-- What is not in the tree makes no difference. -/
theorem Slotted.of_same (h : P.Slotted T slot) (hsame : ∀ x, T.linked x → P'.nodes x = P.nodes x) :
    P'.Slotted T slot :=
  h.of_tables fun x n hx hn => ⟨n, (hsame x hx).trans hn, rfl, fun hdir => h.placed x n hx hn hdir⟩

/-- One inode is another one, of the same kind and with no more entries but the two of every directory. -/
theorem Slotted.update (h : P.Slotted T slot) (hn : P.nodes d = some n)
    (hdir : n'.record.isDirectory = n.record.isDirectory) (hnodes : P'.nodes = Function.update P.nodes d (some n'))
    (hentries : n.record.isDirectory = true → ∀ j nm y, n'.EntryAt j nm y →
      n.EntryAt j nm y ∨ (isDotName nm = true ∧ (y = d ∨ y = T.parent d))) : P'.Slotted T slot := by
  refine h.of_tables fun x k hx hk => ?_
  by_cases hxd : x = d
  · subst hxd
    rw [hn] at hk
    cases hk
    refine ⟨n', by rw [hnodes, Function.update_self], hdir, fun hd j nm y he => ?_⟩
    exact (hentries hd j nm y he).elim (h.placed x n hx hn hd j nm y) .inl
  · exact ⟨k, by rw [hnodes, Function.update_of_ne hxd, hk], rfl, h.placed x k hx hk⟩

/-- A new inode gets a slot in directory `t`. -/
theorem Slotted.link (h : P.Slotted T slot) (ht : T.linked t) (hn : P.nodes t = some n)
    (hfresh : P.nodes b = none) (hdir : n'.record.isDirectory = n.record.isDirectory)
    (hnodes : P'.nodes = Function.update (Function.update P.nodes b (some m)) t (some n'))
    (hempty : m.record.isDirectory = true → m.size = 0)
    (hentries : ∀ i nm y, n'.EntryAt i nm y → n.EntryAt i nm y ∨ (i = j ∧ y = b)) (name : String) :
    P'.Slotted (T.link b t name) (Function.update slot b j) := by
  have hb : ¬T.linked b := fun hb => h.stored b hb hfresh
  have hne (x : UInt32) (hx : T.linked x) : x ≠ b := by
    rintro rfl
    exact hb hx
  have hself : P'.nodes t = some n' := by rw [hnodes, Function.update_self]
  have hother (x : UInt32) (hx : T.linked x) (hxt : x ≠ t) : P'.nodes x = P.nodes x := by
    rw [hnodes, Function.update_of_ne hxt, Function.update_of_ne (hne x hx)]
  have hnew : P'.nodes b = some m := by
    rw [hnodes, Function.update_of_ne (hne t ht).symm, Function.update_self]
  refine ⟨h.grounded.link ht hb name, ?_, ?_, ?_⟩
  · obtain ⟨k, hk, hkdir⟩ := isDirectory_node h.rootDirectory
    by_cases hroot : rootInode = t
    · rw [hroot, hn] at hk
      cases hk
      rw [hroot, isDirectory_of_node hself, hdir, hkdir]
    · rw [isDirectory_of_node ((hother _ h.grounded.root hroot).trans hk), hkdir]
  · rintro x (hx | rfl)
    · by_cases hxt : x = t
      · simp [hxt, hself]
      · rw [hother x hx hxt]
        exact h.stored x hx
    · simp [hnew]
  · rintro d k (hd | rfl) hk hkdir i nm y he
    · by_cases hdt : d = t
      · subst hdt
        rw [hself] at hk
        cases hk
        rcases hentries i nm y he with hold | ⟨rfl, rfl⟩
        · exact (h.placed d n hd hn (hdir ▸ hkdir) i nm y hold).link hd hb d name j
        · exact .inr ⟨.inr rfl, (hne _ h.grounded.root).symm, Function.update_self .., Function.update_self ..⟩
      · rw [hother d hd hdt] at hk
        exact (h.placed d k hd hk hkdir i nm y he).link hd hb t name j
    · -- The new inode has no entries yet.
      rw [hnew] at hk
      cases hk
      have hlt := he.lt
      rw [Node.slots, hempty hkdir] at hlt
      exact absurd hlt (Nat.not_lt_zero _)

/-- The slot of an inode is free, so neither it nor what is below it is in the tree. -/
theorem Slotted.prune (h : P.Slotted T slot) (h0 : x ≠ rootInode)
    (hgone : ∀ n nm y, P.nodes (T.parent x) = some n → n.record.isDirectory = true → ¬n.EntryAt (slot x) nm y) :
    P.Slotted (T.prune x) slot := by
  refine ⟨h.grounded.prune h0, h.rootDirectory, fun y hy => h.stored y hy.1, ?_⟩
  rintro d n ⟨hd, hbelow⟩ hn hdir j nm y he
  rcases h.placed d n hd hn hdir j nm y he with hown | ⟨hy, hy0, rfl, rfl⟩
  · exact .inl hown
  · refine .inr ⟨⟨hy, ?_⟩, hy0, rfl, rfl⟩
    -- What lay below the pruned inode is gone with it, and its own entry was cleared.
    rintro ⟨k, hk⟩
    cases k with
    | zero =>
      obtain rfl : y = x := hk
      exact hgone n nm y hn hdir he
    | succ k => exact hbelow ⟨k, hk⟩

end Pool

/-! ## Worlds -/

namespace World

variable {K : Regime} {W W' : World} {T : Hierarchy} {slot : UInt32 → Nat} {handles handles' : List Handle}
  {i : Nat} {x : Handle} {id : UInt32} {n n' : Node} {o : Opening}

/-- Every inode is open as often as there are handles of it. -/
def Tallied (W : World) (handles : List Handle) : Prop :=
  ∀ x, (W.opens x).elim 0 (·.openers) = handles.countP (·.target.number == x)

/-- A handle keeps its inode open. -/
theorem Tallied.open_of_handle (h : W.Tallied handles) (hx : handles[i]? = some x) :
    ∃ o, W.opens x.target.number = some o := by
  have hcount := h x.target.number
  rw [countP_of_getElem? _ hx, if_pos (by simp)] at hcount
  cases ho : W.opens x.target.number with
  | none =>
    rw [ho] at hcount
    simp at hcount
  | some o => exact ⟨o, rfl⟩

/-- One inode is open in another way, together with the handles of it. -/
theorem Tallied.of_counts (h : W.Tallied handles) (id : UInt32) (hopens : ∀ y, y ≠ id → W'.opens y = W.opens y)
    (hothers : ∀ y, y ≠ id →
      handles'.countP (·.target.number == y) = handles.countP (·.target.number == y))
    (hid : (W'.opens id).elim 0 (·.openers) = handles'.countP (·.target.number == id)) :
    W'.Tallied handles' := by
  intro y
  by_cases hy : y = id
  · rw [hy, hid]
  · rw [hopens y hy, hothers y hy, h y]

theorem Tallied.opened (h : W.Tallied handles) (x : Handle) :
    (W.opened x.target.number).Tallied (handles ++ [x]) := by
  refine h.of_counts x.target.number (fun y hy => W.opened_opens_of_ne hy) (fun y hy => ?_) ?_
  · rw [List.countP_append, List.countP_singleton, if_neg (by simp [Ne.symm hy]), Nat.add_zero]
  · rw [W.opened_opens_self, List.countP_append, ← h, Option.elim_some, List.countP_singleton,
      if_pos (by simp)]
    cases W.opens x.target.number <;> rfl

/-- One handle is closed, and its inode has one opener less. -/
theorem Tallied.closed {o' : Option Opening} (h : W.Tallied handles) (hx : handles[i]? = some x)
    (ho : W.opens x.target.number = some o) (hopens : W'.opens = Function.update W.opens x.target.number o')
    (ho' : o'.elim 0 (·.openers) + 1 = o.openers) : W'.Tallied (handles.eraseIdx i) := by
  have hcount := h x.target.number
  rw [ho, Option.elim_some, countP_of_getElem? _ hx, if_pos (by simp)] at hcount
  refine h.of_counts x.target.number (fun y hy => ?_) (fun y hy => ?_) ?_
  · rw [hopens, Function.update_of_ne hy]
  · rw [countP_of_getElem? _ hx, if_neg (by simp [Ne.symm hy]), Nat.add_zero]
  · rw [hopens, Function.update_self]
    omega

/-- Between two calls of a client that has `handles` open: the tree is told by slots, no block waits to be
used, nothing of the tree has been removed, and every inode is open as often as there are handles of it. -/
structure Slotted (W : World) (T : Hierarchy) (slot : UInt32 → Nat) (handles : List Handle) : Prop where
  pool : W.pool.Slotted T slot
  attended : W.Attended
  held : W.pool.held = []
  removed : ∀ x, W.Doomed x → ¬T.linked x
  tallied : W.Tallied handles

theorem Ordered.slotted (h : W.Ordered K T) (ht : W.Tracks handles) : ∃ slot, W.Slotted T slot handles := by
  obtain ⟨slot, hslot⟩ := h.rooted.slotted
  exact ⟨slot, hslot, h.attended, h.held, h.removed, ht.openers⟩

/-- Other openings, and an inode less that was not in the tree. -/
theorem Slotted.of_openings (h : W.Slotted T slot handles) (hnodes : ∀ x, T.linked x → W'.pool.nodes x = W.pool.nodes x)
    (hheld : W'.pool.held = W.pool.held)
    (hopens : ∀ x o, W'.opens x = some o → 0 < o.openers ∧ (o.removed = true → T.linked x → W.Doomed x))
    (ht : W'.Tallied handles') : W'.Slotted T slot handles' where
  pool := h.pool.of_same hnodes
  attended x o ho := (hopens x o ho).1
  held := hheld.trans h.held
  removed x := by
    rintro ⟨o, ho, hr⟩ hx
    exact h.removed x ((hopens x o ho).2 hr hx) hx
  tallied := ht

/-- What is said of the openings holds where they are the same. -/
theorem Slotted.opening (h : W.Slotted T slot handles) (ho : W.opens id = some o) :
    0 < o.openers ∧ (o.removed = true → T.linked id → W.Doomed id) :=
  ⟨h.attended id o ho, fun hr _ => ⟨o, ho, hr⟩⟩

/-- Another opening of one inode. -/
theorem Slotted.setOpening {o' : Opening} (h : W.Slotted T slot handles) (hpos : 0 < o'.openers)
    (hremoved : o'.removed = true → T.linked id → W.Doomed id)
    (ht : (W.setOpening id (some o')).Tallied handles') : (W.setOpening id (some o')).Slotted T slot handles' := by
  refine h.of_openings (fun _ _ => rfl) rfl (fun y oy hoy => ?_) ht
  by_cases hy : y = id
  · rw [hy, setOpening_opens, Function.update_self] at hoy
    cases hoy
    exact ⟨hpos, hy ▸ hremoved⟩
  · rw [setOpening_opens, Function.update_of_ne hy] at hoy
    exact h.opening hoy

theorem Slotted.opened (h : W.Slotted T slot handles) (x : Handle) :
    (W.opened x.target.number).Slotted T slot (handles ++ [x]) :=
  h.setOpening (moreOpen_pos _) (fun hr _ => moreOpen_removed.1 hr) (h.tallied.opened x)

/-- An inode is open by as many handles, and has not been removed in the meantime. -/
theorem Slotted.reopened {o' : Opening} (h : W.Slotted T slot handles) (ho : W.opens id = some o)
    (hopeners : o'.openers = o.openers) (hremoved : o'.removed = true → T.linked id → o.removed = true) :
    (W.setOpening id (some o')).Slotted T slot handles := by
  refine h.setOpening (hopeners ▸ h.attended id o ho) (fun hr hid => ⟨o, ho, hremoved hr hid⟩) ?_
  refine h.tallied.of_counts id (fun y hy => Function.update_of_ne hy _ _) (fun _ _ => rfl) ?_
  rw [← h.tallied, setOpening_opens, Function.update_self, ho]
  exact hopeners

/-- Another handle of the same inode. -/
theorem Slotted.exchanged {y : Handle} (h : W.Slotted T slot handles) (hx : handles[i]? = some x)
    (hy : y.target = x.target) : W.Slotted T slot (handles.set i y) where
  __ := h
  tallied z := by rw [h.tallied z, countP_of_getElem? _ hx, countP_set' _ y hx, hy]

/-- An inode that is not in the tree is marked as removed. -/
theorem Slotted.marked (h : W.Slotted T slot handles) (ho : W.opens id = some o) (hid : ¬T.linked id) :
    (W.setOpening id (some { o with removed := true })).Slotted T slot handles :=
  h.reopened ho rfl fun _ hx => absurd hx hid

/-- A handle is closed, whose inode may have had more denials of writing before. -/
theorem Slotted.closed {o' : Opening} (h : W.Slotted T slot handles) (hx : handles[i]? = some x)
    (ho : W.opens x.target.number = some o) (hopeners : o'.openers = o.openers)
    (hremoved : o'.removed = o.removed)
    (hc : Inode.Closed K (W.setOpening x.target.number (some o')) x.target.number o' n W') :
    W'.Slotted T slot (handles.eraseIdx i) := by
  have hpos := h.attended _ o ho
  by_cases hmore : 1 < o'.openers
  · have hsame : W' = W.setOpening x.target.number (some { o' with openers := o'.openers - 1 }) := by
      rw [hc.more hmore, setOpening_idem]
    rw [hsame]
    refine h.setOpening (Nat.sub_pos_of_lt hmore) (fun hr _ => ⟨o, ho, hremoved ▸ hr⟩)
      (h.tallied.closed hx ho (setOpening_opens ..) ?_)
    exact (Nat.sub_add_cancel (Nat.le_of_lt hmore)).trans hopeners
  have hlast := Nat.le_of_not_lt hmore
  -- With its last close an inode that has been removed is gone, which was not in the tree.
  have hgone (hopens : W'.opens = Function.update W.opens x.target.number none) :
      W'.Tallied (handles.eraseIdx i) ∧ ∀ y oy, W'.opens y = some oy →
        0 < oy.openers ∧ (oy.removed = true → T.linked y → W.Doomed y) := by
    refine ⟨h.tallied.closed hx ho hopens (by rw [Option.elim_none]; omega), fun y oy hoy => ?_⟩
    by_cases hy : y = x.target.number
    · rw [hopens, hy, Function.update_self] at hoy
      cases hoy
    · rw [hopens, Function.update_of_ne hy] at hoy
      exact h.opening hoy
  by_cases hr : o'.removed = true
  · obtain ⟨hopens, hnodes, hheld, -⟩ := hc.gone hlast hr
    obtain ⟨ht, hothers⟩ := hgone (by rw [hopens, setOpening_opens, Function.update_idem])
    refine h.of_openings (fun y hy => ?_) hheld hothers ht
    rw [hnodes, Function.update_of_ne]
    · rfl
    · rintro rfl
      exact h.removed _ ⟨o, ho, hremoved ▸ hr⟩ hy
  · have hsame := hc.last hlast (by simpa using hr)
    obtain ⟨ht, hothers⟩ := hgone (by rw [hsame, setOpening_idem, setOpening_opens])
    exact h.of_openings (fun y _ => by rw [hsame]; rfl) (by rw [hsame]; rfl) hothers ht

/-- A change in the pool. -/
theorem Slotted.of_pool {T' : Hierarchy} {slot' : UInt32 → Nat} (h : W.Slotted T slot handles)
    (hpool : W'.pool.Slotted T' slot') (hheld : W'.pool.held = []) (hopens : W'.opens = W.opens)
    (hlinked : ∀ x, T'.linked x → T.linked x ∨ W.opens x = none) : W'.Slotted T' slot' handles where
  pool := hpool
  attended x o ho := h.attended x o (hopens ▸ ho)
  held := hheld
  removed x := by
    rintro ⟨o, ho, hr⟩ hx
    rw [hopens] at ho
    -- Nobody has a new inode open, so it has not been removed.
    rcases hlinked x hx with hx | hnone
    · exact h.removed x ⟨o, ho, hr⟩ hx
    · rw [hnone] at ho
      cases ho
  tallied x := by rw [hopens]; exact h.tallied x

theorem Slotted.stays (h : W.Slotted T slot handles) (hs : W.Stays K W') : W'.Slotted T slot handles :=
  h.of_pool (h.pool.of_same fun _ _ => congrFun hs.nodes _) (hs.held.trans h.held) hs.opens fun _ => .inl

/-- One inode is another one, of the same kind and with no more entries but the two of every directory. -/
theorem Slotted.becomes (h : W.Slotted T slot handles) (hb : W.Becomes id n' W') (hn : W.pool.nodes id = some n)
    (hdir : n'.record.isDirectory = n.record.isDirectory)
    (hentries : n.record.isDirectory = true → ∀ j nm y, n'.EntryAt j nm y →
      n.EntryAt j nm y ∨ (isDotName nm = true ∧ (y = id ∨ y = T.parent id))) : W'.Slotted T slot handles :=
  h.of_pool (h.pool.update hn hdir hb.nodes hentries) (hb.held.trans h.held) hb.opens fun _ => .inl

/-- A regular file that changes keeps the tree. -/
theorem Slotted.file (h : W.Slotted T slot handles) (hb : W.Becomes id n' W') (hn : W.pool.nodes id = some n)
    (hfile : n.record.isDirectory = false) (hdir : n'.record.isDirectory = n.record.isDirectory) :
    W'.Slotted T slot handles := by
  refine h.becomes hb hn hdir fun hd => ?_
  rw [hfile] at hd
  cases hd

/-- What has been removed is not the root, so its block can be given back. -/
theorem Slotted.data_of_doomed {v : Volume} (h : W.Slotted T slot handles) (hv : Mounts K W v)
    (hn : W.pool.nodes id = some n) (hd : W.Doomed id) : K.IsData id.toNat := by
  refine (hv.disk.sound.place id (by simp [hn])).resolve_left ?_
  rintro rfl
  exact h.removed _ hd h.pool.grounded.root

end World

end InodeVolume
