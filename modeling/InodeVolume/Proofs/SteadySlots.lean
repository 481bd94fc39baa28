import InodeVolume.Proofs.TwinNames

/-!
# Entries stay in their slots

An entry of a directory is in the same slot for as long as it is there. Creating at a path puts at most one entry
into a slot that was not in use, and if it fails it takes that one out again (`Volume.create_steady`). Removing at
a path frees at most the slot of one name, which is not linked afterwards (`Volume.remove_steady`). So whoever has
come to some slot of a directory finds every other entry where it was.
-/

namespace InodeVolume

open Record

/-- Every entry is in the slot that it was in. -/
def Node.Keeps (n n' : Node) : Prop := ∀ j name x, n.EntryAt j name x → n'.EntryAt j name x

/-- Every entry is in the slot that it was in, or its name is not linked any more. -/
def Node.KeepsLinked (n n' : Node) : Prop :=
  ∀ j name x, n.EntryAt j name x → n'.EntryAt j name x ∨ n'.child name = none

theorem Node.Keeps.refl (n : Node) : n.Keeps n := fun _ _ _ h => h

theorem Node.Keeps.linked {n n' : Node} (h : n.Keeps n') : n.KeepsLinked n' :=
  fun j name x he => .inl (h j name x he)

/-- All inodes are still stored, with every entry in the slot that it was in. -/
def Pool.Keeps (P P' : Pool) : Prop := ∀ x n, P.nodes x = some n → ∃ n', P'.nodes x = some n' ∧ n.Keeps n'

/-- What is open is still stored, with every entry in the slot that it was in, unless its name is not linked any
more. -/
def World.KeepsLinked (W W' : World) : Prop :=
  ∀ x n, W.opens x ≠ none → W.pool.nodes x = some n → ∃ n', W'.pool.nodes x = some n' ∧ n.KeepsLinked n'

theorem Pool.Keeps.of_nodes {P P' : Pool} (h : P'.nodes = P.nodes) : P.Keeps P' :=
  fun _ n hn => ⟨n, h ▸ hn, Node.Keeps.refl n⟩

/-- The inodes are the same, but for the directory `t` and for one that was not stored. -/
theorem Pool.Keeps.of_others {P P' : Pool} {t b : UInt32} {n n' : Node} (hfresh : P.nodes b = none)
    (hn : P.nodes t = some n) (hn' : P'.nodes t = some n')
    (hothers : ∀ x, x ≠ t → x ≠ b → P'.nodes x = P.nodes x) (hkeeps : n.Keeps n') : P.Keeps P' := by
  intro x m hm
  -- The new inode was not there before, so only the directory has changed.
  by_cases hxt : x = t
  · subst hxt
    rw [hn] at hm
    cases hm
    exact ⟨n', hn', hkeeps⟩
  · have hxb : x ≠ b := by
      rintro rfl
      rw [hfresh] at hm
      cases hm
    exact ⟨m, by rw [hothers x hxt hxb, hm], Node.Keeps.refl m⟩

namespace Directory

variable {K : Regime} {W W' : World} {id x : UInt32} {n n' m : Node} {name : String} {number : UInt32} {j : Nat}

theorem Entered.keeps (h : Entered W id n name number n' W') : n.Keeps n' :=
  fun i nm y he => (h.entry i nm y).2 (.inl he)

/-- The name of a slot that is freed is not linked any more. -/
theorem Parted.keepsLinked (h : Parted K W id n name j x m n' W') (ht : n.Tidy) : n.KeepsLinked n' := by
  intro i nm y he
  by_cases hij : i = j
  · subst hij
    have hnm : nm = name := he.name_eq.symm.trans h.entry.name_eq
    rw [(ht.of_unlinked (h.size ▸ ht.whole) h.entry h.entries).2, hnm, Function.update_self]
    exact .inr rfl
  · exact .inl ((h.entries i nm y).2 ⟨he, hij⟩)

/-- Unlinking what has just been linked leaves the entries that were there before. -/
theorem Entered.parted_steady {W₁ W₂ : World} {n₁ : Node} (h : Entered W id n name number n₁ W')
    (hp : Parted K W₁ id n₁ name j x m n' W₂) : n.Keeps n' := by
  intro i nm y he
  refine (hp.entries i nm y).2 ⟨h.keeps i nm y he, ?_⟩
  rintro rfl
  have hnm : nm = name := (h.keeps i nm y he).name_eq.symm.trans hp.entry.name_eq
  exact Node.child_none_iff.1 h.new i y (hnm ▸ he)

end Directory

namespace Volume

variable {K : Regime} {W W₂ W₃ : World} {T : Hierarchy} {t b : UInt32} {n n' m : Node} {o : Opening}
  {name parent path cwd : String} {size : Nat} {isDirectory : Bool}

/-- What creating leaves of the slots: what was open is, and every entry is in its slot. -/
def Steady (W : World) (res : Except Stop Unit) (W' : World) : Prop :=
  Sober res ∧ W'.opens = W.opens ∧ W.pool.Keeps W'.pool

/-- With the new name, and whatever has become of the new inode. -/
theorem Nameless.keeps (h₂ : Nameless K W size isDirectory b m W₂) (hn : W.pool.nodes t = some n)
    (h₃ : Directory.Entered W₂ t n name b n' W₃) {P : Pool} (hP : P.nodes t = some n')
    (hothers : ∀ x, x ≠ t → x ≠ b → P.nodes x = W₃.pool.nodes x) : W.pool.Keeps P :=
  .of_others h₂.fresh hn hP (fun x hxt hxb => by
    rw [hothers x hxt hxb, h₃.becomes.node_of_ne hxt, h₂.nodes, Function.update_of_ne hxb]) h₃.keeps

/-- The new directory is unlinked again, and its inode goes. -/
theorem Nameless.unlink_steady (hK : K.Fits) (hf : ¬K.faulty) (h₂ : Nameless K W size isDirectory b m W₂)
    (hn : W.pool.nodes t = some n) (ho : W.opens t = some o) (hname : NulFree name) (ht : n.Tidy)
    (h₃ : Directory.Entered W₂ t n name b n' W₃) {W₄ : World} {m' : Node} (h₄ : W₃.Becomes b m' W₄) :
    Leads (Mounts K) W₄ (VolumeM.ignoring (Directory.remove { inode := ⟨t⟩ } name)) fun res W' =>
      res = .ok () ∧ W'.opens = W.opens ∧ W.pool.Keeps W'.pool := by
  have htb : t ≠ b := h₂.ne hn
  have hn₄ : W₄.pool.nodes t = some n' := by rw [h₄.node_of_ne htb, h₃.becomes.node]
  have hopens : W₄.opens = W.opens := h₄.opens.trans (h₃.becomes.opens.trans h₂.opens)
  have hclosed : W₄.opens b = none := by rw [hopens, h₂.closed]
  have hself : n'.child name = some b := h₃.child_self hname
  refine Leads.ignoring (Leads.mono (Directory.remove_parts hK hf rfl hn₄ (by rw [hopens, ho])
    fun x _ hx => ?_) ?_)
  · rw [hself] at hx
    cases hx
    exact ⟨htb.symm, h₂.data, by simp [h₄.node], fun ox hox => by rw [hclosed] at hox; cases hox⟩
  rintro res W' (⟨rfl, j, x, m₀, n'', hm₀, hp⟩ | ⟨⟨e, rfl⟩, rfl⟩)
  · -- What is unlinked is the new directory, as the name stands for nothing else.
    obtain rfl : b = x := Option.some_inj.1 (hself.symm.trans ((h₃.tidy ht hname).child_eq hp.entry))
    refine ⟨sober_ok, funext fun i => ?_, .of_others h₂.fresh hn hp.dropped.node (fun y hyt hyb => ?_)
      (h₃.parted_steady hp)⟩
    · by_cases hi : i = b
      · rw [hi, (hp.dropped.gone hclosed).1, h₂.closed]
      · rw [hp.dropped.opens i hi, hopens]
    · rw [hp.dropped.others y hyt hyb, h₄.node_of_ne hyb, h₃.becomes.node_of_ne hyt, h₂.nodes,
        Function.update_of_ne hyb]
  · exact ⟨sober_failed, hopens, h₂.keeps hn h₃ hn₄ fun x _ hxb => h₄.node_of_ne hxb⟩

/-- Linking the two entries of its own into the new directory, which is unlinked again if that fails. -/
theorem Nameless.linkDots_steady (hK : K.Fits) (hf : ¬K.faulty) (hS : Site K W T t n o)
    (hpath : W.pool.resolve rootInode (Path.components parent) = .ok t) (hclosed : Path.Closed parent.toList)
    (hword : Path.Word name.toList) (hname : NulFree name) (hne : name.isEmpty = false)
    (h₂ : Nameless K W size true b m W₂) (h₃ : Directory.Entered W₂ t n name b n' W₃) :
    Leads (Mounts K) W₃ (orUndo (linkDots (parent ++ name) b t)
      (VolumeM.ignoring (Directory.remove { inode := ⟨t⟩ } name))) (Steady W) := by
  have htb : t ≠ b := h₂.ne hS.node
  have htidy := hS.rooted.tidy t hS.linked n hS.node hS.isDirectory
  have hopens : W₃.opens = W.opens := h₃.becomes.opens.trans h₂.opens
  have hnodes : W₃.pool.nodes = Function.update (Function.update W.pool.nodes b (some m)) t (some n') := by
    rw [h₃.becomes.nodes, h₂.nodes]
  have hchild : n'.child = Function.update n.child name (some b) := funext fun nm => by
    by_cases hnm : nm = name
    · rw [hnm, Function.update_self, h₃.child_self hname]
    · rw [Function.update_of_ne hnm, h₃.child_of_ne (by rwa [beforeNul_of_nulFree hname])]
  -- The tree with the new directory in it is a tree, which is what walking its path asks for.
  have hg : Pool.Grafted W.pool T b t name W₃.pool := grafted_of_nodes hS.rooted hS.linked hS.node hS.isDirectory
    h₂.fresh hnodes (h₃.tidy htidy hname) h₃.new hchild (h₃.isDirectory.trans hS.isDirectory)
    fun _ => bud_empty h₂.kind h₂.length
  have hb : W₃.pool.nodes b = some m := by rw [hnodes, Function.update_of_ne htb.symm, Function.update_self]
  have hdirectory : W₃.pool.isDirectory b = true := by rw [Pool.isDirectory_of_node hb, h₂.kind]
  refine Leads.orUndo (Volume.linkDots_leads (t := t) hK (hS.rooted.link hg).walkable
    (fun x ox hox => hS.attended x ox (hopens ▸ hox)) (resolve_grafted hS.rooted hg hpath hclosed hword hne hdirectory)
    hb (by rw [hopens, h₂.closed]) h₂.kind h₂.length) (fun _ _ h => h.1) ?_ ?_
  · rintro W₄ ⟨hsober, m', h₄, -⟩
    exact ⟨hsober, h₄.opens.trans hopens, h₂.keeps hS.node h₃ (by rw [h₄.node_of_ne htb, h₃.becomes.node])
      fun x _ hxb => h₄.node_of_ne hxb⟩
  · rintro e W₄ ⟨-, m', h₄, -⟩
    refine Leads.mono (h₂.unlink_steady hK hf hS.node hS.opening hname htidy h₃ h₄) ?_
    rintro u W₅ ⟨rfl, hkept⟩
    exact ⟨rfl, sober_failed, hkept⟩

/-- Linking the name of the new inode, which is given up if that fails. -/
theorem Nameless.linkName_steady (hK : K.Fits) (hf : ¬K.faulty) (hS : Site K W T t n o)
    (h₂ : Nameless K W size isDirectory b m W₂) :
    Leads (Mounts K) W₂ (orUndo (Directory.add { inode := ⟨t⟩ } name b) (giveUp b)) fun res W₃ =>
      (res = .ok () ∧ ∃ n', Directory.Entered W₂ t n name b n' W₃) ∨
        ((∃ e, res = .error (.failed e)) ∧ Steady W res W₃) := by
  have hn₂ := h₂.node hS.node
  refine Leads.orUndo (Directory.add_mirrored hK hf rfl hn₂ (by rw [h₂.opens, hS.opening]) name b).leads ?_ ?_ ?_
  · rintro r W₃ (⟨rfl, -⟩ | ⟨⟨e, rfl⟩, -⟩)
    · exact sober_ok
    · exact sober_failed
  · rintro W₃ (⟨-, h⟩ | ⟨⟨e, he⟩, -⟩)
    · exact .inl ⟨rfl, h⟩
    · cases he
  · rintro e W₃ (⟨he, -⟩ | ⟨-, hstays⟩)
    · cases he
    -- If the name was not linked, the directory is as before, and giving up the inode leaves no trace of
    -- it.
    have hbecomes : W₂.Becomes t n W₃ :=
      ⟨by rw [hstays.nodes, Function.update_eq_self_iff.2 hn₂.symm], hstays.held, hstays.opens⟩
    refine Leads.mono (h₂.giveUp_leads hK hS.node hbecomes) ?_
    rintro u W₄ ⟨rfl, hopens, -, hnodes⟩
    refine ⟨rfl, .inr ⟨⟨e, rfl⟩, sober_failed, hopens, .of_nodes ?_⟩⟩
    rw [hnodes, Function.update_eq_self_iff.2 hS.node.symm]

/-- Creating in a directory moves no entry. -/
theorem createIn_steady (hK : K.Fits) (hf : ¬K.faulty) (hS : Site K W T t n o)
    (hpath : W.pool.resolve rootInode (Path.components parent) = .ok t) (hclosed : Path.Closed parent.toList)
    (hword : Path.Word name.toList) (hname : NulFree name) (hne : name.isEmpty = false) (size : Nat)
    (isDirectory : Bool) :
    Leads (Mounts K) W (createIn { inode := ⟨t⟩ } parent name size isDirectory) (Steady W) := by
  have hrefused (e : Error) : Steady W (.error (.failed e)) W := ⟨sober_failed, rfl, .of_nodes rfl⟩
  unfold createIn
  refine Yields.bind (Directory.lookup_yields rfl hS.node hS.opening name) ?_
  cases hnew : n.child name with
  | some x => exact Leads.failBind (hrefused _)
  | none =>
    rw [if_neg (by simp)]
    refine newInode_leads hK (hS.rooted.stored _ hS.rooted.root) hS.held (fun b m W₂ h₂ => ?_)
      fun e W₂ hopens hheld hnodes => ⟨sober_failed, hopens, .of_nodes hnodes⟩
    refine Leads.bind (h₂.linkName_steady hK hf hS) ?_ ?_
    · rintro v W₃ (⟨-, n', h₃⟩ | ⟨⟨e, he⟩, -⟩)
      · -- A file is made with its entry. A directory also needs its two names of dots.
        cases isDirectory with
        | false =>
          exact Leads.pure ⟨sober_ok, h₃.becomes.opens.trans h₂.opens,
            h₂.keeps hS.node h₃ h₃.becomes.node fun _ _ _ => rfl⟩
        | true => exact h₂.linkDots_steady hK hf hS hpath hclosed hword hname hne h₃
      · cases he
    · rintro e W₃ (⟨he, -⟩ | ⟨-, h⟩)
      · cases he
      · exact h

/-- Creating at a path moves no entry. -/
theorem create_steady (hK : K.Fits) (hf : ¬K.faulty) (hO : W.Ordered K T) (hpath : NulFree path)
    (hcwd : NulFree cwd) (size : Nat) (isDirectory : Bool) :
    Leads (Mounts K) W (create path cwd size isDirectory) fun _ W' => W.pool.Keeps W'.pool := by
  unfold create
  rw [split_eq]
  cases habs : Path.toAbsolute path cwd with
  | error e => exact Leads.failBind (.of_nodes rfl)
  | ok absolute =>
    have hnul := Path.nulFree_leafPart (Path.nulFree_toAbsolute hpath hcwd habs)
    refine Yields.bind (v := (Path.parentPart absolute, Path.leafPart absolute)) Yields.pure ?_
    dsimp only
    split
    · exact Leads.failBind (.of_nodes rfl)
    -- Only a path with a last name gets as far as its directory.
    by_cases hempty : (Path.leafPart absolute).isEmpty = true
    · rw [if_pos hempty]
      exact Leads.failBind (.of_nodes rfl)
    rw [if_neg hempty]
    refine within_leads hK hO.rooted.walkable hO.attended (fun t ht hl hdir => ?_) fun e _ => .of_nodes rfl
    obtain ⟨n, hn, hndir⟩ := Pool.isDirectory_node hdir
    refine Leads.mono (createIn_steady hK hf (hO.site hl hn hndir) ht (Path.parentPart_closed absolute)
      (Path.leafPart_word absolute) hnul (by simpa using hempty) size isDirectory) ?_
    rintro res W₁ ⟨hsober, hopens, hkeeps⟩
    obtain ⟨n', hn', -⟩ := hkeeps t n hn
    exact ⟨hsober, ⟨W₁.pool, W.opens⟩, World.eq_opened hopens, by simp [hn'], hO.attended, hkeeps⟩

/-! ## Removing -/

/-- Removing in a directory that has been opened for it, as seen from before it was opened. -/
theorem removeIn_steady {v : Volume} (hK : K.Fits) (hf : ¬K.faulty) (hO : W.Ordered K T) (hv : Mounts K W v)
    (hl : T.linked t) (hdir : W.pool.isDirectory t = true) (name : String) :
    Leads (Mounts K) (W.opened t) (({ inode := ⟨t⟩ } : Directory).remove name) fun res W₁ =>
      Sober res ∧ ∃ W₂ : World, W₁ = W₂.opened t ∧ W₂.pool.nodes t ≠ none ∧ W₂.Attended ∧ W.KeepsLinked W₂ := by
  obtain ⟨n, hn, hndir⟩ := Pool.isDirectory_node hdir
  have htidy := hO.rooted.tidy t hl n hn hndir
  -- What a name other than a dot name stands for lies below this directory, so it is not the directory
  -- itself.
  have hplace (x : UInt32) (hdot : isDotName name = false) (hx : n.child name = some x) :
      T.linked x ∧ x ≠ rootInode ∧ x ≠ t := by
    obtain ⟨hxl, hx0, hp, -⟩ := hO.rooted.place hl (by rw [Pool.child_of_node hn hndir, hx]) hdot
    refine ⟨hxl, hx0, ?_⟩
    rintro rfl
    exact hO.rooted.parent_ne hxl hx0 hp
  refine Leads.mono (Directory.remove_parts (W := W.opened t) hK hf rfl hn (W.opened_opens_self t)
    fun x hdot hx => ?_) ?_
  · obtain ⟨hxl, hx0, hxt⟩ := hplace x hdot hx
    have hstored := hO.rooted.stored x hxl
    exact ⟨hxt, (hv.disk.sound.place x hstored).resolve_left hx0, hstored, (hO.opened t).attended x⟩
  rintro res W₁ (⟨rfl, j, x, m, n', hm, hp⟩ | ⟨⟨e, rfl⟩, rfl⟩)
  · have hxt : x ≠ t := (hplace x hp.named (htidy.child_eq hp.entry)).2.2
    have heq := World.eq_opened_again (hp.dropped.opens t hxt.symm)
    refine ⟨sober_ok, W₁.setOpening t (W.opens t), heq, by simp [hp.dropped.node], fun y oy hy => ?_,
      fun y k hy hk => ?_⟩
    · by_cases hyt : y = t
      · rw [hyt, World.setOpening_opens, Function.update_self] at hy
        exact hO.attended t oy hy
      · rw [World.setOpening_opens, Function.update_of_ne hyt] at hy
        exact (hO.opened t).attended.dropped hp.dropped y oy hy
    · by_cases hyt : y = t
      · subst hyt
        rw [hn] at hk
        cases hk
        exact ⟨n', hp.dropped.node, hp.keepsLinked htidy⟩
      · -- The inode that was removed is still stored if somebody has it open.
        refine ⟨k, ?_, (Node.Keeps.refl k).linked⟩
        by_cases hyx : y = x
        · subst hyx
          obtain ⟨oy, hoy⟩ := Option.ne_none_iff_exists'.1 hy
          rw [← W.opened_opens_of_ne hyt] at hoy
          rw [World.setOpening_pool, (hp.dropped.marked oy hoy).2.1, ← hm]
          exact hk
        · rw [World.setOpening_pool, hp.dropped.others y hyt hyx]
          exact hk
  · exact ⟨sober_failed, W, rfl, by simp [hn], hO.attended,
      fun y k _ hk => ⟨k, hk, (Node.Keeps.refl k).linked⟩⟩

/-- Removing at a path moves no entry of a directory that is open. -/
theorem remove_steady (hK : K.Fits) (hf : ¬K.faulty) (hO : W.Ordered K T) (path cwd : String) :
    Leads (Mounts K) W (remove path cwd) fun _ W' => W.KeepsLinked W' := by
  have hrefl : W.KeepsLinked W := fun x n _ hn => ⟨n, hn, (Node.Keeps.refl n).linked⟩
  unfold remove
  rw [leaf_eq]
  cases Path.toAbsolute path cwd with
  | error e => exact Leads.failBind hrefl
  | ok absolute =>
    refine Yields.bind (v := (Path.leafPart absolute, absolute)) Yields.pure ?_
    dsimp only
    split
    · exact Leads.failBind hrefl
    -- Removing needs a volume to speak of, since the number of what is removed has to lie on it.
    refine Leads.of_shown fun v hv => ?_
    refine within_leads hK hO.rooted.walkable hO.attended (fun t ht hl hdir => ?_) fun e _ => hrefl
    exact removeIn_steady hK hf hO hv hl hdir _

end Volume

end InodeVolume
