import InodeVolume.Proofs.Creation

/-!
# Worlds between actions

Between two actions of a client a world is in order (`World.Ordered`): its directories make a tree, no
block waits to be used, and what is open and has been removed is in the tree no more. Where writes do not
fail nothing else is stored than what is in the tree, or is open and has been removed.

Main statements: what creating, unlinking, opening, closing, and changing one file come to leaves a world in
order (`Ordered.created`, `Ordered.unlinked`, `Ordered.of_openings`, `Ordered.closed`,
`Ordered.becomes`).
-/

namespace InodeVolume

namespace World

/-- How many denials of writing are in force. -/
def denials (W : World) (x : UInt32) : Nat := (W.opens x).elim 0 (·.denials)

/-- Inode `x` is open and has been removed. -/
def Doomed (W : World) (x : UInt32) : Prop := ∃ o, W.opens x = some o ∧ o.removed = true

/-- The world is in order, with the tree `T`. -/
structure Ordered (K : Regime) (W : World) (T : Hierarchy) : Prop where
  rooted : W.pool.Rooted T
  dotted : ¬K.faulty → W.pool.Dotted T
  attended : W.Attended
  held : W.pool.held = []
  removed : ∀ x, W.Doomed x → ¬T.linked x
  known : ¬K.faulty → ∀ x, W.pool.nodes x ≠ none → T.linked x ∨ W.Doomed x

theorem moreOpen_denials (W : World) (t : UInt32) : (moreOpen (W.opens t)).denials = W.denials t := by
  rw [denials]
  cases W.opens t <;> rfl

theorem moreOpen_pos (o : Option Opening) : 0 < (moreOpen o).openers := by
  cases o <;> exact Nat.succ_pos _

theorem moreOpen_removed {W : World} {t : UInt32} : (moreOpen (W.opens t)).removed = true ↔ W.Doomed t := by
  rw [Doomed]
  cases W.opens t with
  | none => simp [moreOpen]
  | some o => simp [moreOpen]

/-- A world in which inode `id` is open as in another one with one opener more. -/
theorem eq_opened_again {W W₁ : World} {id : UInt32} (h : W₁.opens id = (W.opened id).opens id) :
    W₁ = (W₁.setOpening id (W.opens id)).opened id := by
  obtain ⟨pool, opens⟩ := W₁
  simp only [opened, setOpening, Function.update_self, Function.update_idem] at h ⊢
  rw [← h, Function.update_eq_self]

variable {K : Regime} {W W' : World} {T : Hierarchy} {t x b : UInt32} {n n' m : Node} {name : String}

theorem Ordered.root_ne (h : W.Ordered K T) (hx : W.Doomed x) : x ≠ rootInode := by
  rintro rfl
  exact h.removed _ hx h.rooted.root

/-- An open directory of the tree is a place to create something in. -/
theorem Ordered.site (h : W.Ordered K T) (ht : T.linked t) (hn : W.pool.nodes t = some n)
    (hdir : n.record.isDirectory = true) :
    Volume.Site K (W.opened t) T t n (moreOpen (W.opens t)) := by
  refine ⟨h.rooted, h.dotted, fun x o ho => ?_, h.held, ht, hn, hdir, W.opened_opens_self t, ?_⟩
  · by_cases hx : x = t
    · rw [hx, W.opened_opens_self] at ho
      cases ho
      exact moreOpen_pos _
    · rw [W.opened_opens_of_ne hx] at ho
      exact h.attended x o ho
  · by_contra hremoved
    exact h.removed t (moreOpen_removed.1 (by simpa using hremoved)) ht

/-! ## Opening and closing -/

/-- Other openings of the same inodes. -/
theorem Ordered.of_openings (h : W.Ordered K T) (hpool : W'.pool = W.pool) (hatt : W'.Attended)
    (hdoomed : ∀ x, W'.Doomed x ↔ W.Doomed x) : W'.Ordered K T where
  rooted := hpool ▸ h.rooted
  dotted hf := hpool ▸ h.dotted hf
  attended := hatt
  held := hpool ▸ h.held
  removed x hx := h.removed x ((hdoomed x).1 hx)
  known hf x hx := (h.known hf x (hpool ▸ hx)).imp_right (hdoomed x).2

/-- Another opening of one inode, which has been removed if it had been before. -/
theorem Ordered.setOpening {o : Opening} (h : W.Ordered K T) (hpos : 0 < o.openers)
    (ho : o.removed = true ↔ W.Doomed x) : (W.setOpening x (some o)).Ordered K T := by
  refine h.of_openings rfl (fun y o' ho' => ?_) fun y => ?_
  · -- Only the counts of this inode change, and whether it is removed does not.
    by_cases hy : y = x
    · rw [hy, setOpening_opens, Function.update_self] at ho'
      cases ho'
      exact hpos
    · rw [setOpening_opens, Function.update_of_ne hy] at ho'
      exact h.attended y o' ho'
  · by_cases hy : y = x
    · subst hy
      have hself : (W.setOpening y (some o)).Doomed y ↔ o.removed = true := by simp [Doomed]
      rw [hself, ho]
    · simp [Doomed, hy]

theorem Ordered.opened (h : W.Ordered K T) (x : UInt32) : (W.opened x).Ordered K T :=
  h.setOpening (moreOpen_pos _) moreOpen_removed

/-- The last close of an inode that has not been removed. -/
theorem Ordered.left (h : W.Ordered K T) (hx : ¬W.Doomed x) : (W.setOpening x none).Ordered K T := by
  refine h.of_openings rfl (fun y o' ho' => ?_) fun y => ?_
  · by_cases hy : y = x
    · rw [hy, setOpening_opens, Function.update_self] at ho'
      cases ho'
    · rw [setOpening_opens, Function.update_of_ne hy] at ho'
      exact h.attended y o' ho'
  · by_cases hy : y = x
    · subst hy
      refine ⟨fun hd => ?_, fun hd => absurd hd hx⟩
      simp [Doomed] at hd
    · simp [Doomed, hy]

/-- The last close of an inode that has been removed. -/
theorem Ordered.gone (h : W.Ordered K T) (hx : W.Doomed x)
    (hopens : W'.opens = Function.update W.opens x none)
    (hnodes : W'.pool.nodes = Function.update W.pool.nodes x none) (hheld : W'.pool.held = W.pool.held) :
    W'.Ordered K T := by
  -- What goes had been removed, so nothing that is linked is touched.
  have hlinked := h.removed x hx
  have hne (y : UInt32) (hy : T.linked y) : y ≠ x := by
    rintro rfl
    exact hlinked hy
  have halike (y : UInt32) (hy : T.linked y) : Pool.Alike W.pool W'.pool y :=
    Pool.Alike.of_eq (by rw [hnodes, Function.update_of_ne (hne y hy)])
  have hdoomed (y : UInt32) (hy : y ≠ x) : W'.Doomed y ↔ W.Doomed y := by
    rw [Doomed, Doomed, hopens, Function.update_of_ne hy]
  refine ⟨h.rooted.of_alike halike, fun hf => (h.dotted hf).of_alike halike, fun y o ho => ?_,
    hheld.trans h.held, fun y hy => ?_, fun hf y hy => ?_⟩
  · by_cases he : y = x
    · rw [hopens, he, Function.update_self] at ho
      cases ho
    · rw [hopens, Function.update_of_ne he] at ho
      exact h.attended y o ho
  · by_cases he : y = x
    · exact he ▸ hlinked
    · exact h.removed y ((hdoomed y he).1 hy)
  · have he : y ≠ x := by
      rintro rfl
      rw [hnodes, Function.update_self] at hy
      exact hy rfl
    rw [hnodes, Function.update_of_ne he] at hy
    exact (h.known hf y hy).imp_right (hdoomed y he).2

/-- Closing. -/
theorem Ordered.closed {o : Opening} (h : W.Ordered K T) (ho : W.opens x = some o)
    (hc : Inode.Closed K W x o n W') : W'.Ordered K T := by
  -- Others have it open, or it goes because it was removed, or it stays and is closed.
  by_cases hmore : 1 < o.openers
  · rw [hc.more hmore]
    refine h.setOpening (Nat.sub_pos_of_lt hmore) ?_
    simp [Doomed, ho]
  · by_cases hremoved : o.removed = true
    · obtain ⟨hopens, hnodes, hheld, -⟩ := hc.gone (Nat.le_of_not_lt hmore) hremoved
      exact h.gone ⟨o, ho, hremoved⟩ hopens hnodes hheld
    · rw [hc.last (Nat.le_of_not_lt hmore) (by simpa using hremoved)]
      refine h.left ?_
      rintro ⟨o', ho', hremoved'⟩
      rw [ho] at ho'
      cases ho'
      exact hremoved hremoved'

/-! ## Changes in the pool -/

theorem doomed_congr (hopens : W'.opens = W.opens) (x : UInt32) : W'.Doomed x ↔ W.Doomed x := by
  rw [Doomed, Doomed, hopens]

/-- A change that no directory walk can tell. -/
theorem Ordered.of_alike (h : W.Ordered K T) (ha : ∀ x, T.linked x → Pool.Alike W.pool W'.pool x)
    (hopens : W'.opens = W.opens) (hheld : W'.pool.held = W.pool.held)
    (hnodes : ∀ x, W'.pool.nodes x ≠ none → W.pool.nodes x ≠ none) : W'.Ordered K T where
  rooted := h.rooted.of_alike ha
  dotted hf := (h.dotted hf).of_alike ha
  attended x o ho := h.attended x o (hopens ▸ ho)
  held := hheld.trans h.held
  removed x hx := h.removed x ((doomed_congr hopens x).1 hx)
  known hf x hx := (h.known hf x (hnodes x hx)).imp_right (doomed_congr hopens x).2

/-- A change of one inode, which stays of its kind and, if it is a directory, keeps its names. -/
theorem Ordered.becomes (h : W.Ordered K T) (hb : W.Becomes x n' W') (hn : W.pool.nodes x = some n)
    (hdir : n'.record.isDirectory = n.record.isDirectory)
    (htable : n.record.isDirectory = true → n.Tidy → n'.Tidy ∧ n'.child = n.child) : W'.Ordered K T := by
  refine h.of_alike (fun y hy => ?_) hb.opens hb.held fun y hy => ?_
  · by_cases he : y = x
    · subst he
      exact Pool.Alike.of_node hn hb.node hdir htable (h.rooted.tidy y hy)
    · exact Pool.Alike.of_eq (hb.node_of_ne he)
  · by_cases he : y = x
    · simp [he, hn]
    · rwa [hb.node_of_ne he] at hy

theorem Ordered.stays (h : W.Ordered K T) (hs : W.Stays K W') : W'.Ordered K T :=
  h.of_alike (fun y _ => Pool.Alike.of_eq (congrFun hs.nodes y)) hs.opens hs.held
    fun y hy => by rwa [hs.nodes] at hy

/-- Linking an inode that nobody has open keeps a world in order. -/
theorem Ordered.grafted (h : W.Ordered K T) (hg : Pool.Grafted W.pool T b t name W'.pool)
    (hdots : ¬K.faulty → W'.pool.isDirectory b = true →
      W'.pool.child b "." = some b ∧ W'.pool.child b ".." = some t)
    (hclosed : W.opens b = none) (hopens : W'.opens = W.opens) (hheld : W'.pool.held = [])
    (hnodes : ∀ x, x ≠ b → W'.pool.nodes x ≠ none → W.pool.nodes x ≠ none) :
    W'.Ordered K (T.link b t name) where
  rooted := h.rooted.link hg
  dotted hf := (h.dotted hf).link hg (hdots hf)
  attended x o ho := h.attended x o (hopens ▸ ho)
  held := hheld
  removed x hx := by
    rw [doomed_congr hopens] at hx
    rintro (hl | rfl)
    · exact h.removed x hx hl
    · obtain ⟨o, ho, -⟩ := hx
      rw [hclosed] at ho
      cases ho
  known hf x hx := by
    by_cases he : x = b
    · exact .inl (.inr he)
    · exact (h.known hf x (hnodes x he hx)).imp .inl (doomed_congr hopens x).2

section Nodes

variable {size : Nat} {isDirectory : Bool}

theorem nodes_of_updates {P P' : Pool} (hn : P.nodes t = some n)
    (hnodes : P'.nodes = Function.update (Function.update P.nodes b (some m)) t (some n')) :
    ∀ x, x ≠ b → P'.nodes x ≠ none → P.nodes x ≠ none := by
  intro x hx hne
  by_cases ht : x = t
  · simp [ht, hn]
  · rwa [hnodes, Function.update_of_ne ht, Function.update_of_ne hx] at hne

theorem created_bud {P P' : Pool} (hc : Volume.Created K P t n name size isDirectory b n' m P')
    (hm : m.record.isDirectory = true) : Volume.Bud b t m := by
  obtain ⟨htidy, hdots⟩ := hc.directory (hc.kind.symm.trans hm)
  exact ⟨htidy, hm, fun nm x hx => Volume.dots_some (hdots ▸ hx)⟩

/-- A new inode under its name. -/
theorem Ordered.created (W' : World) (h : W.Ordered K T) (ht : T.linked t) (hn : W.pool.nodes t = some n)
    (hdir : n.record.isDirectory = true) (hnew : n.child name = none) (hclosed : W.opens b = none)
    (hc : Volume.Created K W.pool t n name size isDirectory b n' m W'.pool) (hopens : W'.opens = W.opens)
    (hheld : W'.pool.held = []) :
    Pool.Grafted W.pool T b t name W'.pool ∧ W'.Ordered K (T.link b t name) := by
  have hg := Volume.grafted_of_nodes h.rooted ht hn hdir hc.fresh hc.nodes hc.tidy hnew hc.child hc.parent
    (created_bud hc)
  refine ⟨hg, h.grafted hg (fun _ hb => ?_) hclosed hopens hheld (nodes_of_updates hn hc.nodes)⟩
  -- The new inode was not stored before, so it is not the directory it is put in.
  have hbt : b ≠ t := by
    rintro rfl
    exact hg.fresh ht
  have hnodeb : W'.pool.nodes b = some m := by
    rw [hc.nodes, Function.update_of_ne hbt, Function.update_self]
  rw [Pool.isDirectory_of_node hnodeb] at hb
  rw [Pool.child_of_node hnodeb hb, (hc.directory (hc.kind.symm.trans hb)).2]
  exact ⟨rfl, rfl⟩

/-- What failing to create leaves. -/
theorem Ordered.notCreated (W' : World) (h : W.Ordered K T) (ht : T.linked t) (hn : W.pool.nodes t = some n)
    (hdir : n.record.isDirectory = true) (hlive : ∀ x, W.opens x ≠ none → W.pool.nodes x ≠ none)
    {denials : Nat} (hc : Volume.NotCreated K W.pool t n denials name isDirectory W'.pool) (hopens : W'.opens = W.opens)
    (hheld : W'.pool.held = []) :
    (W'.Ordered K T ∧ ∃ n', W.Becomes t n' W' ∧ n'.child = n.child ∧ n'.record.isDirectory = true ∧
        (¬K.faulty → Volume.Settled K W.pool n denials name isDirectory n')) ∨
      (K.faulty ∧ ∃ T', W'.Ordered K T') := by
  -- Either all that was done is undone, or a fault has left the new directory linked.
  rcases hc with ⟨n', hnodes, htidy, hchild, hparent, hsettled⟩ |
    ⟨hf, b, n', m, hfresh, hnodes, htidy, hnew, hchild, hparent, hbud⟩
  · have hbecomes : W.Becomes t n' W' := ⟨hnodes, hheld.trans h.held.symm, hopens⟩
    exact .inl ⟨h.becomes hbecomes hn (hparent.trans hdir.symm) fun _ _ => ⟨htidy, hchild⟩,
      n', hbecomes, hchild, hparent, hsettled⟩
  · have hg := Volume.grafted_of_nodes h.rooted ht hn hdir hfresh hnodes htidy hnew hchild hparent fun _ => hbud
    refine .inr ⟨hf, _, h.grafted hg (fun hno => absurd hf hno) ?_ hopens hheld
      (nodes_of_updates hn hnodes)⟩
    by_contra ho
    exact hlive b ho hfresh

end Nodes

/-- An inode without its name, and given up if it is not open. -/
theorem Ordered.unlinked (h : W.Ordered K T) (ht : T.linked t) (hn : W.pool.nodes t = some n)
    (hdir : n.record.isDirectory = true) (hm : W.pool.nodes x = some m) {denials : Nat}
    (hr : Directory.Removable n denials name x m) (hu : Directory.Unlinked K W t n name x m n' W') :
    Pool.Cut W.pool T x t name W'.pool ∧ W'.Ordered K (T.prune x) := by
  have hchild : W.pool.child t = n.child := Pool.child_of_node hn hdir
  have hcut : Pool.Cut W.pool T x t name W'.pool := by
    refine ⟨ht, by rw [hchild, hr.child], hr.named, fun y _ hyt hyx => ?_, ?_, fun k hk _ => ?_, ?_⟩
    · exact Pool.Alike.of_eq (hu.others y hyt hyx)
    · rw [Pool.isDirectory_of_node hu.node, hu.isDirectory, hdir]
    · rw [hu.node] at hk
      cases hk
      exact hu.tidy
    · rw [Pool.child_of_node hu.node (hu.isDirectory.trans hdir), hu.child, hchild]
  obtain ⟨hx, h0, -, -⟩ := h.rooted.place ht hcut.entry hr.named
  have hdoomed (y : UInt32) (hy : y ≠ x) : W'.Doomed y ↔ W.Doomed y := by
    rw [Doomed, Doomed, hu.opens y hy]
  refine ⟨hcut, h.rooted.prune hcut, fun hf => (h.dotted hf).prune hcut, fun y o' ho' => ?_,
    hu.held.trans h.held, fun y hy => ?_, fun hf y hy => ?_⟩
  · by_cases he : y = x
    · subst he
      cases hox : W.opens y with
      | none =>
        rw [(hu.gone hox).1] at ho'
        cases ho'
      | some ox =>
        rw [(hu.marked ox hox).1] at ho'
        cases ho'
        exact h.attended y ox hox
    · rw [hu.opens y he] at ho'
      exact h.attended y o' ho'
  · rintro ⟨hl, hb⟩
    by_cases he : y = x
    · exact hb ⟨0, he⟩
    · exact h.removed y ((hdoomed y he).1 hy) hl
  · by_cases he : y = x
    · subst he
      cases hox : W.opens y with
      | none => exact absurd (hu.gone hox).2.1 hy
      | some ox => exact .inr ⟨_, (hu.marked ox hox).1, rfl⟩
    · have hold : W.pool.nodes y ≠ none := by
        by_cases het : y = t
        · simp [het, hn]
        · rwa [hu.others y het he] at hy
      refine (h.known hf y hold).imp (fun hl => ⟨hl, fun hb => he ?_⟩) (hdoomed y he).2
      refine (h.rooted.below_iff (h.dotted hf) hx h0 (fun nm z hz => ?_) hl).1 hb
      -- An inode that may be unlinked has no entries but its own.
      have hmdir : m.record.isDirectory = true := by
        have := Pool.isDirectory_of_child hz
        rwa [Pool.isDirectory_of_node hm] at this
      rw [Pool.child_of_node hm hmdir] at hz
      by_contra hnm
      exact hr.empty ⟨hmdir, nm, z, by simpa using hnm, hz⟩

end World

end InodeVolume
