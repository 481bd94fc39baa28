import InodeVolume.Proofs.Entries
import InodeVolume.Proofs.FailingReads
import InodeVolume.Proofs.Normalization

/-!
# Removing where accesses fail

A scan of a directory ends at a slot that cannot be read. So one with entries may be taken for empty, and
removed, if some of its blocks cannot be read. This is the only way in which a directory with entries is
removed, whichever accesses fail (`Client.kept_of_asked`), and if it is not, all names lead where they led.
-/

namespace InodeVolume

/-! ## Unlinking -/

/-- Directory `id`, which was `n`, has the names that it had, and nothing else has changed. -/
def World.Renews (W : World) (id : UInt32) (n : Node) (W' : World) : Prop :=
  W' = W ∨ ∃ n', W.Becomes id n' W' ∧ n'.Tidy ∧ n'.child = n.child ∧
    n'.record.isDirectory = n.record.isDirectory

namespace Directory

variable {K : Regime} {W : World} {bad : Nat → Prop} {d : Directory} {id x : UInt32} {n m : Node}
  {o ox : Opening} {name : String} {j : Nat}

/-- What unlinking an entry comes to where accesses may fail: its inode is marked as removed, but not a
directory which can be read and has entries, or no name changes. -/
def FreedAmid (K : Regime) (W : World) (bad : Nat → Prop) (id : UInt32) (n : Node) (o : Opening) (name : String)
    (x : UInt32) (m : Node) (ox : Opening) (res : Except Stop Unit) (W' : World) : Prop :=
  (res = .ok () ∧ (m.record.isDirectory = true → m.Busy → Marred bad m.owned) ∧
      Vacated K W id n o name x ox (.ok ()) W') ∨
    ((∃ e, res = .error (.failed e)) ∧ W.Renews id n W')

theorem vacate_partly (hK : K.faulty) (hF : K.Fits) (hd : d.inode = ⟨id⟩) (hn : W.pool.nodes id = some n)
    (ho : W.opens id = some o) (ht : n.Tidy) (hj : n.EntryAt j name x) (hne : x ≠ id)
    (hm : W.pool.nodes x = some m) (hox : W.opens x = some ox)
    (hfree : m.record.isDirectory = true → m.Busy → Marred bad m.owned) :
    Leads (Partly bad (Mounts K)) W (do
      d.writeSlot (j * slotSize) (n.slot j).freed
      Inode.markRemoved ⟨x⟩) (FreedAmid K W bad id n o name x m ox) := by
  refine Leads.mono (Leads.of_faithful hK ((d.writeSlot_faithful _ _).bind fun _ =>
    Inode.markRemoved_faithful _) (vacate_leads hF hd hn ho ht hj hne hm hox)) ?_
  rintro res W' ⟨r, htold, ⟨rfl, hvacated⟩ | ⟨-, e, rfl, hsame⟩⟩
  · cases htold
    exact .inl ⟨rfl, hfree, .inl ⟨rfl, hvacated⟩⟩
  · have hrenews : W.Renews id n W' := hsame.imp_right And.right
    cases htold with
    | same | io => exact .inr ⟨⟨_, rfl⟩, hrenews⟩

/-- A directory that has entries is unlinked only if its table cannot be read. -/
theorem unlink_partly (hK : K.faulty) (hF : K.Fits) (hd : d.inode = ⟨id⟩) (hn : W.pool.nodes id = some n)
    (ho : W.opens id = some o) (ht : n.Tidy) (hj : n.EntryAt j name x) (hne : x ≠ id)
    (hm : W.pool.nodes x = some m) (hox : W.opens x = some ox) :
    Leads (Partly bad (Mounts K)) W (d.unlink (j * slotSize) (n.slot j) ⟨x⟩)
      (FreedAmid K W bad id n o name x m ox) := by
  unfold unlink
  refine Yields.bind (Yields.of_faithful hK (Inode.isDirectory_faithful _)
    (Inode.isDirectory_yields hm hox)) ?_
  by_cases hdir : m.record.isDirectory = true
  · rw [if_pos hdir]
    -- The table looks empty if the scan for entries ends early, which it does only at a slot that cannot be
    -- read.
    have hempty : Answers (Partly bad (Mounts K)) W (isEmpty { inode := ⟨x⟩ })
        fun empty => empty = true → m.Busy → Marred bad m.owned := by
      refine Answers.bind (search_partly hK rfl hm hox (Node.hasEntries_replies hK hm)) fun v hv => ?_
      refine Answers.pure fun hempty hbusy => (hv hbusy).resolve_left fun htrue => ?_
      rw [htrue] at hempty
      cases hempty
    refine Answers.bind hempty fun empty hfree => ?_
    cases empty with
    | true => exact vacate_partly hK hF hd hn ho ht hj hne hm hox fun _ => hfree rfl
    | false => exact Leads.failBind (.inr ⟨⟨_, rfl⟩, .inl rfl⟩)
  · rw [if_neg hdir]
    exact vacate_partly hK hF hd hn ho ht hj hne hm hox fun h => absurd h hdir

/-- What removing a name comes to where accesses may fail: its inode goes, but not if it is a directory which
can be read and has entries, or no name changes. -/
def RemovedAmid (K : Regime) (W : World) (bad : Nat → Prop) (id : UInt32) (n : Node) (name : String)
    (res : Except Stop Unit) (W' : World) : Prop :=
  (res = .ok () ∧ ∃ x m n', n.child name = some x ∧ W.pool.nodes x = some m ∧ x ≠ id ∧
      (m.record.isDirectory = true → m.Busy → Marred bad m.owned) ∧ Unlinked K W id n name x m n' W') ∨
    ((∃ e, res = .error (.failed e)) ∧ W.Renews id n W')

theorem remove_partly (hK : K.faulty) (hF : K.Fits) (hd : d.inode = ⟨id⟩) (hn : W.pool.nodes id = some n)
    (ho : W.opens id = some o) (ht : n.Tidy)
    (hchild : ∀ x, isDotName name = false → n.child name = some x → x ≠ id ∧ K.IsData x.toNat ∧
      W.pool.nodes x ≠ none ∧ ∀ ox, W.opens x = some ox → 0 < ox.openers) :
    Leads (Partly bad (Mounts K)) W (d.remove name) (RemovedAmid K W bad id n name) := by
  unfold remove
  by_cases hdot : isDotName name = true
  · rw [if_pos hdot]
    exact Leads.failBind (.inr ⟨⟨_, rfl⟩, .inl rfl⟩)
  rw [if_neg hdot]
  refine Answers.bind (find_partly hK hd hn ho name) ?_
  -- If the table cannot be read, the name looks as if it were missing.
  rintro found (rfl | ⟨-, rfl⟩)
  swap
  · exact Leads.fail (.inr ⟨⟨_, rfl⟩, .inl rfl⟩)
  cases hf : n.find name with
  | none => exact Leads.fail (.inr ⟨⟨_, rfl⟩, .inl rfl⟩)
  | some j =>
    have hj := Node.find_some hf
    have hc := ht.child_eq hj
    generalize hx : (n.slot j).number = x at hj hc
    obtain ⟨hne, hdata, hstored, hpos⟩ := hchild x (by simpa using hdot) hc
    obtain ⟨m, hm⟩ := Option.ne_none_iff_exists'.1 hstored
    dsimp only [Option.map_some]
    rw [hx]
    refine Leads.bind (Inode.acquire_partly hK hF hm) ?_ ?_
    swap
    · rintro e W' (⟨he, -⟩ | ⟨he, rfl⟩)
      · cases he
      · cases he
        exact .inr ⟨⟨_, rfl⟩, .inl rfl⟩
    rintro i W' (⟨hi, rfl⟩ | ⟨hi, -⟩)
    swap
    · cases hi
    cases hi
    have ho' : (W.opened x).opens id = some o := by rw [World.opened_opens_of_ne W hne.symm, ho]
    -- The inode is open while its entry is taken away, and is closed whatever comes of that.
    refine Leads.andThen (unlink_partly hK hF hd hn ho' ht hj hne hm (W.opened_opens_self x)) ?_ ?_
    · rintro r W' (⟨rfl, -⟩ | ⟨⟨e, rfl⟩, -⟩)
      · exact sober_ok
      · exact sober_failed
    -- The entry has gone, and the inode with it unless it is open; or nothing has changed; or a slot has
    -- been renewed without changing any name.
    rintro r W₂ (⟨rfl, hfree, ⟨-, -, n', W₁, hbecomes, rfl, ht', hchild', hdir, hsize, howned, hsame⟩ |
      ⟨-, e, hno, -⟩⟩ | ⟨⟨e, rfl⟩, rfl | ⟨n', hbecomes, ht', hchild', hdir⟩⟩)
    · refine Leads.mono (Leads.of_faithful hK (Inode.close_faithful _)
        (closeUnlinked_leads hF hne hdata hm hpos hbecomes ht' hchild' hdir hsize howned hsame)) ?_
      rintro res W' ⟨r, htold, rfl, hunlinked⟩
      cases htold
      exact ⟨rfl, .inl ⟨rfl, x, m, n', hc, hm, hne, hfree, hunlinked⟩⟩
    · cases hno
    · exact Yields.leads (Yields.of_faithful hK (Inode.close_faithful _) (Inode.close_opened hF hm hpos))
        ⟨rfl, .inr ⟨⟨e, rfl⟩, .inl rfl⟩⟩
    · rw [World.eq_opened hbecomes.opens]
      have hm₂ : W₂.pool.nodes x = some m := by
        rw [hbecomes.node_of_ne hne]
        exact hm
      refine Yields.leads (Yields.of_faithful hK (Inode.close_faithful _)
        (Inode.close_opened (W := ⟨W₂.pool, W.opens⟩) hF hm₂ hpos)) ⟨rfl, .inr ⟨⟨e, rfl⟩, .inr ⟨n', ?_⟩⟩⟩
      exact ⟨⟨hbecomes.nodes, hbecomes.held, rfl⟩, ht', hchild', hdir⟩

end Directory

/-! ## Walks -/

/-- What looking for an inode comes to where accesses may fail: the one that is there is open once more, or a
failure is reported. -/
def World.ArrivesAmid {α : Type} (W : World) (f : UInt32 → α) (r : Except Error UInt32) (res : Except Stop α)
    (W' : World) : Prop :=
  (∃ x, r = .ok x ∧ res = .ok (f x) ∧ W' = W.opened x) ∨ ((∃ e, res = .error (.failed e)) ∧ W' = W)

namespace Volume

variable {K : Regime} {W : World} {L : UInt32 → Prop} {bad : Nat → Prop} {t x : UInt32} {n : Node}

theorem close_partly (hK : K.faulty) (hF : K.Fits) (hn : W.pool.nodes x = some n)
    (ho : ∀ o, W.opens x = some o → 0 < o.openers) :
    Yields (Partly bad (Mounts K)) (W.opened x) (Inode.close ⟨x⟩) () W :=
  Yields.of_faithful hK (Inode.close_faithful _) (Inode.close_opened hF hn ho)

/-- Taking an inode as a directory under any faults keeps it open if it is one, or closes it with an error. -/
theorem ofInode_partly (hK : K.faulty) (hF : K.Fits) (hn : W.pool.nodes x = some n) (hW : W.Attended) :
    Leads (Partly bad (Mounts K)) (W.opened x) (Directory.ofInode ⟨x⟩)
      (W.ArrivesAmid directoryAt (if W.pool.isDirectory x then .ok x else .error .notADirectory)) := by
  refine Leads.mono (Leads.of_faithful hK (Directory.ofInode_faithful _) (ofInode_leads hF hn hW)) ?_
  rintro res W' ⟨r, htold, harrives⟩
  by_cases hdir : W.pool.isDirectory x = true
  · rw [if_pos hdir] at harrives ⊢
    obtain ⟨rfl, rfl⟩ := harrives
    cases htold
    exact .inl ⟨x, rfl, rfl, rfl⟩
  · rw [if_neg hdir] at harrives
    obtain ⟨rfl, rfl⟩ := harrives
    cases htold with
    | same | io => exact .inr ⟨⟨_, rfl⟩, rfl⟩

/-- Opening the root under any faults opens it or changes nothing. -/
theorem openRoot_partly (hK : K.faulty) (hF : K.Fits) (hR : W.pool.Walkable L) (hW : W.Attended) :
    Leads (Partly bad (Mounts K)) W Directory.openRoot (W.ArrivesAmid directoryAt (.ok rootInode)) := by
  obtain ⟨n, hn, hdir⟩ := Pool.isDirectory_node hR.rootDirectory
  refine Leads.bind (Inode.acquire_partly hK hF hn) ?_ ?_
  · rintro i W' (⟨hi, rfl⟩ | ⟨hi, -⟩)
    · cases hi
      refine Leads.mono (ofInode_partly hK hF hn hW) fun res W' h => ?_
      rwa [hR.rootDirectory, if_pos rfl] at h
    · cases hi
  · rintro e W' (⟨he, -⟩ | ⟨he, rfl⟩)
    · cases he
    · cases he
      exact .inr ⟨⟨_, rfl⟩, rfl⟩

/-- A walk comes to where the names lead, or fails. -/
theorem descend_partly (hK : K.faulty) (hF : K.Fits) (hR : W.pool.Walkable L) (hW : W.Attended) (ht : L t)
    (hdir : W.pool.isDirectory t = true) (names : List String) :
    Leads (Partly bad (Mounts K)) (W.opened t) (descend { inode := ⟨t⟩ } names)
      (W.ArrivesAmid directoryAt (W.pool.resolve t names)) := by
  -- By induction on the names. The directory that has been reached is open, and is closed when the next one
  -- has been opened.
  induction names generalizing t with
  | nil => exact Leads.pure (.inl ⟨t, rfl, rfl, rfl⟩)
  | cons name rest ih =>
    obtain ⟨n, hn, hk⟩ := Pool.isDirectory_node hdir
    have hchild : W.pool.child t = n.child := Pool.child_of_node hn hk
    have hlinked (x : UInt32) (hx : n.child name = some x) : L x :=
      hR.child t name x ht ((congrFun hchild name).trans hx)
    unfold descend
    refine Leads.bind (M := fun res W' => (∃ x, n.child name = some x ∧ res = .ok ⟨x⟩ ∧ W' = W.opened x) ∨
      ((∃ e, res = .error (.failed e)) ∧ W' = W)) ?_ ?_ ?_
    · -- The directory above is closed in either case.
      refine Leads.andThen (Directory.openEntry_partly (W := W.opened t) hK hF rfl hn
        (W.opened_opens_self t) fun x hx => hR.stored x (hlinked x hx)) ?_ ?_
      · rintro r W' (⟨x, -, rfl, -⟩ | ⟨e, rfl, -⟩)
        · exact sober_ok
        · exact sober_failed
      · rintro r W' (⟨x, hx, rfl, rfl⟩ | ⟨e, rfl, rfl⟩)
        · rw [W.opened_comm t x]
          exact Yields.leads (close_partly (W := W.opened x) hK hF hn (hW.opened x t))
            ⟨rfl, .inl ⟨x, hx, rfl, rfl⟩⟩
        · exact Yields.leads (close_partly hK hF hn (hW t)) ⟨rfl, .inr ⟨⟨e, rfl⟩, rfl⟩⟩
    · rintro i W' (⟨x, hx, hi, rfl⟩ | ⟨⟨e, hi⟩, -⟩)
      swap
      · cases hi
      cases hi
      obtain ⟨m, hm⟩ := Option.ne_none_iff_exists'.1 (hR.stored x (hlinked x hx))
      rw [Pool.resolve_cons, hchild, hx]
      dsimp only
      refine Leads.bind (ofInode_partly hK hF hm hW) ?_ ?_
      · rintro d W' (⟨y, hy, hd, rfl⟩ | ⟨⟨e, hd⟩, -⟩)
        swap
        · cases hd
        cases hd
        by_cases hxdir : W.pool.isDirectory x = true
        · rw [if_pos hxdir] at hy ⊢
          cases hy
          exact ih (hlinked x hx) hxdir
        · rw [if_neg hxdir] at hy
          cases hy
      · rintro e W' (⟨y, -, hd, -⟩ | ⟨⟨e', he⟩, rfl⟩)
        · cases hd
        · cases he
          exact .inr ⟨⟨e', rfl⟩, rfl⟩
    · rintro e W' (⟨x, -, he, -⟩ | ⟨⟨e', he⟩, rfl⟩)
      · cases he
      · cases he
        exact .inr ⟨⟨e', rfl⟩, rfl⟩

/-- A walk under any faults comes to the directory at the path or ends with an error, and nothing stays
open. -/
theorem walk_partly (hK : K.faulty) (hF : K.Fits) (hR : W.pool.Walkable L) (hW : W.Attended) (path : String) :
    Leads (Partly bad (Mounts K)) W (walk path)
      (W.ArrivesAmid directoryAt (W.pool.resolve rootInode (Path.components path))) := by
  refine Leads.bind (openRoot_partly hK hF hR hW) ?_ ?_
  · rintro d W' (⟨x, hx, hd, rfl⟩ | ⟨⟨e, hd⟩, -⟩)
    · cases hx
      cases hd
      exact descend_partly hK hF hR hW hR.root hR.rootDirectory _
    · cases hd
  · rintro e W' (⟨x, -, hd, -⟩ | ⟨⟨e', he⟩, rfl⟩)
    · cases hd
    · cases he
      exact .inr ⟨⟨e', rfl⟩, rfl⟩

/-- What is done in the directory at a path, if the walk to it does not fail. -/
theorem within_partly {α : Type} {path : String} {f : Directory → VolumeM α}
    {post : Except Stop α → World → Prop} (hK : K.faulty) (hF : K.Fits) (hR : W.pool.Walkable L)
    (hW : W.Attended)
    (hf : ∀ t, W.pool.resolve rootInode (Path.components path) = .ok t → L t →
      W.pool.isDirectory t = true →
      Leads (Partly bad (Mounts K)) (W.opened t) (f { inode := ⟨t⟩ }) fun r W₁ => Sober r ∧ ∃ W₂ : World,
        W₁ = W₂.opened t ∧ W₂.pool.nodes t ≠ none ∧ (∀ o, W₂.opens t = some o → 0 < o.openers) ∧ post r W₂)
    (herr : ∀ e, post (.error (.failed e)) W) : Leads (Partly bad (Mounts K)) W (within path f) post := by
  unfold within
  refine Leads.bind (walk_partly hK hF hR hW path) ?_ ?_
  · rintro d W' (⟨t, hr, hd, rfl⟩ | ⟨⟨e, hd⟩, -⟩)
    swap
    · cases hd
    cases hd
    obtain ⟨ht, hdir⟩ := hR.ends hR.root hR.rootDirectory hr
    refine Leads.andThen (hf t hr ht hdir) (fun r W₁ h => h.1) ?_
    -- What has been done in the directory leaves it open, so it can be closed.
    rintro r W₁ ⟨-, W₂, rfl, hstored, hatt, hpost⟩
    obtain ⟨n, hn⟩ := Option.ne_none_iff_exists'.1 hstored
    exact Yields.leads (close_partly hK hF hn hatt) ⟨rfl, hpost⟩
  · rintro e W' (⟨x, -, hd, -⟩ | ⟨⟨e', he⟩, rfl⟩)
    · cases hd
    · cases he
      exact herr e'

/-- Opening comes to what the path leads to, or fails. -/
theorem openInode_partly (hK : K.faulty) (hF : K.Fits) (hR : W.pool.Walkable L) (hW : W.Attended)
    (path cwd : String) :
    Leads (Partly bad (Mounts K)) W (openInode path cwd)
      (W.ArrivesAmid Inode.mk ((Path.toAbsolute path cwd).bind W.pool.find)) := by
  unfold openInode
  rw [leaf_eq]
  cases Path.toAbsolute path cwd with
  | error e => exact Leads.failBind (.inr ⟨⟨e, rfl⟩, rfl⟩)
  | ok absolute =>
    show Leads (Partly bad (Mounts K)) W (if Path.isRoot absolute then Inode.acquire rootInode
      else within (Path.parentPart absolute) (·.openEntry (Path.leafPart absolute)))
      (W.ArrivesAmid Inode.mk (W.pool.find absolute))
    rw [Pool.find_eq]
    by_cases hroot : Path.isRoot absolute = true
    · rw [if_pos hroot, if_pos hroot]
      obtain ⟨n, hn, -⟩ := Pool.isDirectory_node hR.rootDirectory
      refine Leads.mono (Inode.acquire_partly hK hF hn) ?_
      rintro res W' (⟨rfl, rfl⟩ | ⟨rfl, rfl⟩)
      · exact .inl ⟨rootInode, rfl, rfl, rfl⟩
      · exact .inr ⟨⟨_, rfl⟩, rfl⟩
    -- Below the root the leaf is opened in the directory that the parent leads to.
    rw [if_neg hroot, if_neg hroot]
    refine within_partly hK hF hR hW (fun t ht hl hdir => ?_) fun e => .inr ⟨⟨e, rfl⟩, rfl⟩
    obtain ⟨n, hn, hndir⟩ := Pool.isDirectory_node hdir
    have hchild : W.pool.child t = n.child := Pool.child_of_node hn hndir
    refine Leads.mono (Directory.openEntry_partly (W := W.opened t) hK hF rfl hn (W.opened_opens_self t)
      fun x hx => hR.stored x (hR.child t _ x hl (by rw [hchild, hx]))) ?_
    rintro res W' (⟨x, hx, rfl, rfl⟩ | ⟨e, rfl, rfl⟩)
    · refine ⟨sober_ok, W.opened x, W.opened_comm t x, by simp [hn], hW.opened x t, .inl ⟨x, ?_, rfl, rfl⟩⟩
      simp only [ht, Except.bind, hchild, hx, Option.elim_some]
    · exact ⟨sober_failed, W, rfl, by simp [hn], hW t, .inr ⟨⟨e, rfl⟩, rfl⟩⟩

end Volume

/-! ## Empty names -/

namespace World

variable {K : Regime} {W W' : World} {T : Hierarchy} {t x b : UInt32} {n n' m : Node} {o : Opening}

/-- No entry has an empty name, so a path that ends with a separator names nothing in a directory. -/
def Named (W : World) : Prop := ∀ d, W.pool.child d "" = none

theorem Quiet.named (h : W.Quiet W') (hN : W.Named) : W'.Named := fun d => by rw [h.child d, hN d]

/-- No new entry is in a directory that is gone or as it was. -/
theorem Named.of_nodes (hN : W.Named) {d : UInt32}
    (h : W'.pool.nodes d = none ∨ W'.pool.nodes d = W.pool.nodes d) : W'.pool.child d "" = none := by
  rcases h with h | h
  · simp only [Pool.child, h, Option.bind_none]
  · rw [(Pool.Alike.of_eq h).child, hN d]

/-- No entry is added under an empty name. -/
theorem Added.named {absolute : String} {size : Nat} {isDirectory : Bool}
    (ha : W.Added K T absolute size isDirectory t n b n' m W') (hN : W.Named) : W'.Named := by
  intro d
  -- Only the directory above has a new name, and the new directory has its own two.
  by_cases hdt : d = t
  · subst hdt
    have hold := hN d
    rw [Pool.child_of_node ha.creatable.node ha.parent] at hold
    rw [Pool.child_of_node ha.above ha.created.parent, ha.created.child, Function.update_of_ne, hold]
    intro hempty
    have hnamed := ha.creatable.named
    rw [← hempty] at hnamed
    cases hnamed
  · by_cases hdb : d = b
    · subst hdb
      by_cases hdir : isDirectory = true
      · rw [Pool.child_of_node ha.node (ha.created.kind.trans hdir), (ha.created.directory hdir).2]
        rfl
      · simp [Pool.child, ha.node, ha.created.kind, hdir]
    · exact hN.of_nodes (.inr (ha.node_of_ne hdt hdb))

/-- Removing adds no entry. -/
theorem Erased.named {absolute : String} (he : W.Erased K T absolute t n x m n' W') (hN : W.Named) :
    W'.Named := by
  intro d
  have hu := he.unlinked
  by_cases hdt : d = t
  · subst hdt
    have hold := hN d
    rw [Pool.child_of_node he.erasable.node he.parent] at hold
    rw [Pool.child_of_node hu.node (hu.isDirectory.trans he.parent), hu.child, Function.update_apply, hold,
      ite_self]
  · -- What has been removed is gone, or it is open and as it was.
    by_cases hdx : d = x
    · subst hdx
      cases ho : W.opens d with
      | none => exact hN.of_nodes (.inl (hu.gone ho).2.1)
      | some o => exact hN.of_nodes (.inr ((hu.marked o ho).2.1.trans he.erasable.inode.symm))
    · exact hN.of_nodes (.inr (hu.others d hdt hdx))

/-- Closing an inode gives no entry an empty name. -/
theorem named_closed (hc : Inode.Closed K W x o n W') (hN : W.Named) : W'.Named := by
  intro d
  by_cases hmore : 1 < o.openers
  · exact hN.of_nodes (.inr (by rw [hc.more hmore, setOpening_pool]))
  · -- What is removed goes as a whole, and no other inode changes.
    cases hremoved : o.removed with
    | false => exact hN.of_nodes (.inr (by rw [hc.last (Nat.le_of_not_lt hmore) hremoved, setOpening_pool]))
    | true =>
      obtain ⟨-, hnodes, -, -⟩ := hc.gone (Nat.le_of_not_lt hmore) hremoved
      by_cases hdx : d = x
      · exact hN.of_nodes (.inl (by rw [hnodes, hdx, Function.update_self]))
      · exact hN.of_nodes (.inr (by rw [hnodes, Function.update_of_ne hdx]))

theorem Moves.named (h : W.Moves K T W') (hN : W.Named) : W'.Named := by
  cases h with
  | quiet h => exact h.named hN
  | added h after => exact after.named (h.named hN)
  | erased h => exact h.named hN
  | closed before _ h => exact named_closed h (before.named hN)

end World

/-! ## Directories with entries -/

namespace Pool

/-- A path that leads to a directory leads to the one above, and its leaf is the entry there, unless the path
ends with a separator. -/
theorem leaf_of_resolve {P : Pool} {absolute : String} {t z : UInt32}
    (hz : P.resolve rootInode (Path.components absolute) = .ok z)
    (ht : P.resolve rootInode (Path.components (Path.parentPart absolute)) = .ok t)
    (hne : (Path.leafPart absolute).isEmpty = false) : P.child t (Path.leafPart absolute) = some z := by
  rw [Path.components_leaf (by simpa using hne), resolve_concat_iff, ht] at hz
  obtain ⟨t', ht', hchild, -⟩ := hz
  cases ht'
  exact hchild

end Pool

namespace Volume

variable {K : Regime} {W : World} {T : Hierarchy} {bad : Nat → Prop} {z : UInt32} {n : Node}
  {path cwd absolute : String}

/-- What removing a directory with entries comes to where accesses may fail: it is removed only if it cannot be
read, and if it is not all of the tree stays. -/
def KeptAmid (W : World) (T : Hierarchy) (bad : Nat → Prop) (n : Node) (res : Except Stop Unit) (W' : World) :
    Prop :=
  (res = .ok () ∧ Marred bad n.owned) ∨
    ((∃ e, res = .error (.failed e)) ∧ ∀ y, T.linked y → Pool.Alike W.pool W'.pool y)

theorem keptAmid_refused (e : Error) : KeptAmid W T bad n (.error (.failed e)) W :=
  .inr ⟨⟨e, rfl⟩, fun _ _ => Pool.Alike.of_eq rfl⟩

theorem remove_partly (hK : K.faulty) (hF : K.Fits) (hR : W.pool.Rooted T) (hW : W.Attended) (hN : W.Named)
    (habs : Path.toAbsolute path cwd = .ok absolute)
    (hz : W.pool.resolve rootInode (Path.components absolute) = .ok z) (hn : W.pool.nodes z = some n)
    (hbusy : n.Busy) : Leads (Partly bad (Mounts K)) W (remove path cwd) (KeptAmid W T bad n) := by
  have hzdir := (hR.linked_resolve hR.root hR.rootDirectory hz).2
  rw [Pool.isDirectory_of_node hn] at hzdir
  unfold remove
  rw [leaf_eq, habs]
  refine Yields.bind (v := (Path.leafPart absolute, absolute)) Yields.pure ?_
  dsimp only
  by_cases hroot : Path.isRoot absolute = true
  · rw [if_pos hroot]
    exact Leads.failBind (keptAmid_refused _)
  rw [if_neg hroot]
  refine Leads.of_shown fun v hv => ?_
  refine within_partly hK hF hR.walkable hW (fun t ht hl hdir => ?_) fun e => keptAmid_refused e
  obtain ⟨k, hk, hkdir⟩ := Pool.isDirectory_node hdir
  have hchild : W.pool.child t = k.child := Pool.child_of_node hk hkdir
  -- What may be removed is the directory that the path leads to. A path that ends with a separator has no
  -- leaf, and there is no entry without a name.
  have hentry {x : UInt32} (hx : k.child (Path.leafPart absolute) = some x) : x = z := by
    have hne : (Path.leafPart absolute).isEmpty = false := by
      by_contra hempty
      have hleaf : Path.leafPart absolute = "" := String.isEmpty_iff.1 (by simpa using hempty)
      rw [hleaf, ← hchild, hN t] at hx
      cases hx
    have hleaf := Pool.leaf_of_resolve hz ht hne
    rw [hchild, hx] at hleaf
    cases hleaf
    rfl
  refine Leads.mono (Directory.remove_partly hK hF rfl hk (W.opened_opens_self t)
    (hR.tidy t hl k hk hkdir) fun x hname hx => ?_) ?_
  · obtain ⟨hxl, hx0, hp, -⟩ := hR.place hl (by rw [hchild, hx]) hname
    have hstored := hR.stored x hxl
    refine ⟨?_, (hv.shows.disk.sound.place x hstored).resolve_left hx0, hstored,
      fun ox hox => hW.opened t x ox hox⟩
    rintro rfl
    exact hR.parent_ne hxl hx0 hp
  · rintro res W₁ (⟨rfl, x, m, n', hx, hm, hne, hfree, hu⟩ | ⟨⟨e, rfl⟩, hrenews⟩)
    · obtain rfl := hentry hx
      have hm : W.pool.nodes x = some m := hm
      rw [hn] at hm
      cases hm
      have hagain : (W₁.setOpening t (W.opens t)).opens t = W.opens t := Function.update_self ..
      refine ⟨sober_ok, W₁.setOpening t (W.opens t), World.eq_opened_again (hu.opens t hne.symm), ?_,
        fun o ho => hW t o (hagain ▸ ho), .inl ⟨rfl, hfree hzdir hbusy⟩⟩
      rw [World.setOpening_pool, hu.node]
      simp
    · refine ⟨sober_failed, ⟨W₁.pool, W.opens⟩, ?_⟩
      rcases hrenews with rfl | ⟨n', hbecomes, htidy, hsame, hkind⟩
      · exact ⟨rfl, by simp [hk], hW t, keptAmid_refused e⟩
      · refine ⟨World.eq_opened hbecomes.opens, by simp [hbecomes.node], hW t, .inr ⟨⟨e, rfl⟩, fun y _ => ?_⟩⟩
        by_cases hy : y = t
        · subst hy
          exact Pool.Alike.of_node hk hbecomes.node hkind (fun _ _ => ⟨htidy, hsame⟩) (hR.tidy y hl)
        · exact Pool.Alike.of_eq (hbecomes.node_of_ne hy)

end Volume

/-! ## Clients -/

namespace Client

variable {K : Regime} {W : World} {T : Hierarchy} {c c' : Client} {P : Client → Prop}

theorem Asks.named (h : Asks P c c') (hf : ¬K.faulty) (ha : c.Abides K W T) (hN : W.Named) :
    ∃ W' T', c'.Abides K W' T' ∧ W'.Named := by
  induction h with
  | start _ => exact ⟨W, T, ha, hN⟩
  | ask run r permitted _ ih =>
    obtain ⟨W₁, T₁, h₁, hN₁⟩ := ih
    obtain ⟨res, W', T', -, -, -, hmoves, h'⟩ := h₁.ask hf permitted
    exact ⟨W', T', h', hmoves.named hN₁⟩

/-- A disk that has just been formatted has no entries but the two of its root. -/
theorem Abides.named (hf : ¬K.faulty) (ha : c.Abides K W .rootOnly) (hopens : W.opens = fun _ => none) :
    W.Named := by
  intro d
  have hO := ha.stands.good.ordered
  -- The root is all that is stored, and an entry of it that is not one of its own would stand for an inode
  -- below it.
  cases hc : W.pool.child d "" with
  | none => rfl
  | some x =>
    obtain ⟨n, hn, -⟩ := Pool.isDirectory_node (Pool.isDirectory_of_child hc)
    rcases hO.known hf d (by simp [hn]) with hl | ⟨o, ho, -⟩
    · rcases hO.rooted.down d "" x hl hc with (⟨h, -⟩ | ⟨h, -⟩) | ⟨hx, hne, -⟩
      · exact absurd h (by decide)
      · exact absurd h (by decide)
      · exact absurd hx hne
    · rw [hopens] at ho
      cases ho

theorem Asked.named (h : c.Asked) : ∃ K W T, ¬K.faulty ∧ c.Abides K W T ∧ W.Named := by
  obtain ⟨disk, c₀, hs, hr⟩ := h
  obtain ⟨W₀, h₀, hopens⟩ := hs.stands
  have hf : ¬Regime.faulty ⟨disk.device.blockCount, False⟩ := id
  have ha := h₀.abides hopens hs.handles
  obtain ⟨W, T, hW⟩ := hr.named hf ha (ha.named hf hopens)
  exact ⟨_, W, T, hf, hW⟩

variable {path cwd absolute : String} {z : UInt32} {n : Node}

/-- Whatever fails while a directory with entries is to be removed, by whatever path that leads to it: it is
removed only if one of its blocks cannot be read, and if it is not then everything is in its place. -/
theorem kept_of_asked (h : c.Asked) (habs : Path.toAbsolute path cwd = .ok absolute)
    (hz : c.pool.resolve rootInode (Path.components absolute) = .ok z) (hn : c.pool.nodes z = some n)
    (hbusy : n.Busy) (f : Faults) :
    let (res, v) := outcome (Volume.remove path cwd) (c.volume.under f)
    (res = .ok () ∧ Marred f.spoils n.owned) ∨
      ((∃ e, res = .error (.failed e)) ∧ v.disk.device.pool.tree = c.pool.tree ∧
        ∀ l, v.disk.device.pool.resolve rootInode l = c.pool.resolve rootInode l) := by
  obtain ⟨K, W, T, hf, ha, hN⟩ := h.named
  have hO := ha.stands.good.ordered
  have hF := ha.stands.fits.failing
  have hroot := hO.rooted.root
  rw [ha.stands.resolve_eq hroot] at hz
  have hl := (hO.rooted.linked_resolve hroot hO.rooted.rootDirectory hz).1
  rw [ha.stands.nodes_linked hl] at hn
  have hremove : Leads (Partly f.spoils (Mounts K.failing)) W (Volume.remove path cwd)
      (Volume.KeptAmid W T f.spoils n) :=
    Volume.remove_partly trivial hF hO.rooted hO.attended hN habs hz hn hbusy
  obtain ⟨W', hv, hres⟩ := hremove.comes (ha.stands.mounts.under f)
  refine hres.imp_right ?_
  rintro ⟨herr, halike⟩
  -- The device shows what the world has, before the call and after it.
  have hR' := hO.rooted.of_alike halike
  have hshown (y : UInt32) (hy : T.linked y) : Pool.Alike W'.pool
      (outcome (Volume.remove path cwd) (c.volume.under f)).2.disk.device.pool y := by
    obtain ⟨m, hm⟩ := Option.ne_none_iff_exists'.1 (hR'.stored y hy)
    exact Pool.Alike.of_eq ((hv.node hF hm).trans hm.symm)
  refine ⟨herr, ?_, fun l => ?_⟩
  · rw [ha.stands.tree_eq, ← hO.rooted.tree_congr fun y hy => (halike y hy).child]
    exact hR'.tree_congr fun y hy => (hshown y hy).child
  · rw [ha.stands.resolve_eq hroot, ← hO.rooted.resolve_alike halike hroot]
    exact hR'.resolve_alike hshown hroot l

/-! ## A directory with an entry -/

/-- On a device of sixteen blocks a directory can be made, and a file in it. Its table has blocks then. -/
theorem exists_nested : ∃ (c : Client) (z : UInt32) (n : Node), c.Asked ∧
    c.pool.resolve rootInode (Path.components "/d") = .ok z ∧ c.pool.nodes z = some n ∧ n.Busy ∧
    n.owned ≠ [] := by
  have hfits : Regime.Fits ⟨16, False⟩ := ⟨by decide, by decide⟩
  have hslash : NulFree "/" := by decide
  have habs : Path.toAbsolute "/d" "/" = .ok "/d" := by decide
  obtain ⟨c₁, W, T, z, r, m, hfirst⟩ := exists_first 0 true hfits (by decide) habs (by decide) (by decide)
    (by decide) (by decide) (by decide) (by decide) (by decide)
  obtain ⟨c₀, hstarts, hrun⟩ := hfirst.run
  obtain ⟨hsize, hchild⟩ := hfirst.directory rfl
  -- The file has a directory above it whose path ends with a separator.
  have hparent : W.pool.resolve rootInode (Path.components (Path.parentPart "/d/f")) = .ok z := by
    have hsame : Path.components (Path.parentPart "/d/f") = Path.components "/d" := by
      rw [Path.components_eq_filter, Path.components_eq_filter]
      decide
    rw [hsame, hfirst.resolve rfl]
  have hroom : Volume.Room ⟨16, False⟩ W.pool m (W.denials z) (Path.leafPart "/d/f") 0 false := by
    refine .of_short ?_ (hfirst.denials z) (fun _ => Nat.zero_le _) (hsize ▸ by decide) ?_
    · rw [hchild, Volume.dots_none (by decide)]
    · have hspace := hfirst.space
      have hstart : Regime.dataStart ⟨16, False⟩ = 2 := by decide
      have hnone : Record.totalBlocks 0 = 0 := by decide
      simp only [if_true] at hspace
      simp only [Bool.false_eq_true, if_false, hnone]
      omega
  have habs' : Path.toAbsolute "/d/f" "/" = .ok "/d/f" := by decide
  obtain ⟨c, W', T', hcreate, -, hs, b, n, k, hadded⟩ := hfirst.stands.does_create id (by decide) hslash habs'
    (.mk (by decide) (by decide) hparent hfirst.node hroom)
  have hrooted := hfirst.stands.good.ordered.rooted
  refine ⟨c, z, n, (hstarts.asked.runs hrun).next hcreate, ?_, hs.node hadded.above, ⟨"f", b, by decide, ?_⟩, ?_⟩
  · rw [hs.resolve_eq hs.good.ordered.rooted.root]
    exact hrooted.resolve_link hadded.grafted hrooted.root (hfirst.resolve rfl)
  · rw [hadded.created.child]
    exact Function.update_self ..
  · rintro hnil
    have hlength := (hs.mounts.disk.sound.stored z n hadded.above).length_owned
    have hone : Record.totalBlocks 1 = 1 := by decide
    have hle : 1 ≤ n.size := by
      rw [hadded.created.length, hsize]
      exact Nat.le_trans (by decide) (Nat.le_max_left ..)
    have hblocks := Record.totalBlocks_mono hle
    rw [hnil, List.length_nil] at hlength
    omega

/-- A directory with a file in it, where no block of its table can be read. -/
theorem kept_of_nested : ∃ (c : Client) (z : UInt32) (n : Node), c.Asked ∧
    Path.toAbsolute "/d" "/" = .ok "/d" ∧ c.pool.resolve rootInode (Path.components "/d") = .ok z ∧
    c.pool.nodes z = some n ∧ n.Busy ∧
    Marred (Faults.from none none (n.owned.map UInt32.toNat) []).spoils n.owned ∧
    let (res, v) := outcome (Volume.remove "/d" "/")
      (c.volume.under (.from none none (n.owned.map UInt32.toNat) []))
    (res = .ok () ∧ Marred (Faults.from none none (n.owned.map UInt32.toNat) []).spoils n.owned) ∨
      ((∃ e, res = .error (.failed e)) ∧ v.disk.device.pool.tree = c.pool.tree ∧
        ∀ l, v.disk.device.pool.resolve rootInode l = c.pool.resolve rootInode l) := by
  obtain ⟨c, z, n, hc, hz, hn, hbusy, hblocks⟩ := exists_nested
  obtain ⟨b, hb⟩ := List.exists_mem_of_ne_nil n.owned hblocks
  have hmarred : Marred (Faults.from none none (n.owned.map UInt32.toNat) []).spoils n.owned :=
    ⟨b, hb, 0, by simpa [Faults.from] using ⟨b, hb, rfl⟩⟩
  exact ⟨c, z, n, hc, by decide, hz, hn, hbusy, hmarred, kept_of_asked hc (by decide) hz hn hbusy _⟩

end Client

end InodeVolume
