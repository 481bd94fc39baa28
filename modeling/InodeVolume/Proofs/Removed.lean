import InodeVolume.Proofs.Runs

/-!
# Inodes that have been removed

Removing takes the last name of an inode away, but whoever has it open goes on using it. What a call does to
such inodes is said by `World.Advances`: they stay removed and keep the names in them until they are given
up, and nothing is removed that has names but the two of every directory. Every call keeps to this
(`Call.Comes.moves`, `World.Moves.advances`). So a directory that has been removed has no other names than
these two, and its `.` is itself (`World.Shorn`). Nothing is said of its `..`, which nobody changes when the
directory above is given up in its turn.
-/

namespace InodeVolume

namespace World

/-- No look at which inodes are stored, of what kind, with which names and whether removed tells the worlds
apart. -/
structure Quiet (W W' : World) : Prop where
  stored : ∀ x, W'.pool.nodes x = none ↔ W.pool.nodes x = none
  isDirectory : ∀ x, W'.pool.isDirectory x = W.pool.isDirectory x
  child : ∀ x, W'.pool.child x = W.pool.child x
  doomed : ∀ x, W'.Doomed x ↔ W.Doomed x

/-- From a world with the tree `T` to another one. -/
structure Advances (W : World) (T : Hierarchy) (W' : World) : Prop where
  kind : ∀ x, W.pool.nodes x ≠ none → W'.pool.nodes x ≠ none →
    W'.pool.isDirectory x = W.pool.isDirectory x
  /-- What has been removed stays so, with its names, unless it is given up. -/
  doomed : ∀ x, W.Doomed x → W'.pool.nodes x ≠ none → W'.Doomed x ∧ W'.pool.child x = W.pool.child x
  /-- What is removed has no names but its own two. -/
  removed : ∀ x, W'.Doomed x → W.Doomed x ∨ (T.linked x ∧ W'.pool.child x = W.pool.child x ∧
    ∀ nm, isDotName nm = false → W.pool.child x nm = none)

/-- Directories that have been removed have no names but their own two, and the first is that of
themselves. -/
def Shorn (W : World) : Prop :=
  ∀ x, W.Doomed x → ∀ nm y, W.pool.child x nm = some y → (nm = "." ∧ y = x) ∨ nm = ".."

variable {K : Regime} {W W₁ W' : World} {T : Hierarchy} {x : UInt32} {n n' : Node} {o : Opening}

/-! ## Steps that cannot be told -/

theorem Quiet.refl (W : World) : W.Quiet W := ⟨fun _ => .rfl, fun _ => rfl, fun _ => rfl, fun _ => .rfl⟩

/-- Other openings of the same inodes. -/
theorem Quiet.of_openings (hpool : W'.pool = W.pool) (h : ∀ x, W'.Doomed x ↔ W.Doomed x) : W.Quiet W' :=
  ⟨fun _ => by rw [hpool], fun _ => by rw [hpool], fun _ => by rw [hpool], h⟩

theorem Quiet.setOpening (ho : o.removed = true ↔ W.Doomed x) : W.Quiet (W.setOpening x (some o)) := by
  refine .of_openings rfl fun y => ?_
  by_cases hy : y = x
  · subst hy
    rw [← ho]
    simp [Doomed]
  · simp [Doomed, hy]

/-- Another opening that is marked as removed if the one before was. -/
theorem Quiet.marked {o' : Opening} (ho : W.opens x = some o) (h : o'.removed = o.removed) :
    W.Quiet (W.setOpening x (some o')) :=
  .setOpening (by simp [Doomed, ho, h])

theorem Quiet.opened (W : World) (x : UInt32) : W.Quiet (W.opened x) := .setOpening moreOpen_removed

/-- The last close of an inode that has not been removed. -/
theorem Quiet.left (hx : ¬W.Doomed x) : W.Quiet (W.setOpening x none) := by
  refine .of_openings rfl fun y => ?_
  by_cases hy : y = x
  · subst hy
    refine iff_of_false ?_ hx
    simp [Doomed]
  · simp [Doomed, hy]

/-- Inodes that are of the same kind and, as directories, have the same names. -/
theorem Quiet.of_same (hopens : W'.opens = W.opens)
    (h : ∀ y, W'.pool.nodes y = W.pool.nodes y ∨ ∃ m m', W.pool.nodes y = some m ∧
      W'.pool.nodes y = some m' ∧ m'.record.isDirectory = m.record.isDirectory ∧
      (m.record.isDirectory = true → m'.child = m.child)) : W.Quiet W' := by
  refine ⟨fun y => ?_, fun y => ?_, fun y => ?_, doomed_congr hopens⟩
  · rcases h y with he | ⟨m, m', hm, hm', -⟩
    · rw [he]
    · simp [hm, hm']
  · rcases h y with he | ⟨m, m', hm, hm', hdir, -⟩
    · rw [Pool.isDirectory, Pool.isDirectory, he]
    · rw [Pool.isDirectory_of_node hm, Pool.isDirectory_of_node hm', hdir]
  · -- A file has no names, whatever becomes of its contents.
    rcases h y with he | ⟨m, m', hm, hm', hdir, hchild⟩
    · exact (Pool.Alike.of_eq he).child
    · cases hk : m.record.isDirectory with
      | true => rw [Pool.child_of_node hm hk, Pool.child_of_node hm' (hdir.trans hk), hchild hk]
      | false =>
        funext nm
        simp [Pool.child, hm, hm', hdir, hk]

/-- A change of one regular file. -/
theorem Quiet.becomes (hb : W.Becomes x n' W') (hn : W.pool.nodes x = some n)
    (hfile : n.record.isDirectory = false) (hdir : n'.record.isDirectory = n.record.isDirectory) :
    W.Quiet W' := by
  refine .of_same hb.opens fun y => ?_
  by_cases hy : y = x
  · refine .inr ⟨n, n', hy ▸ hn, hy ▸ hb.node, hdir, fun hd => ?_⟩
    rw [hfile] at hd
    cases hd
  · exact .inl (hb.node_of_ne hy)

theorem Quiet.stays (hs : W.Stays K W') : W.Quiet W' :=
  .of_same hs.opens fun y => .inl (congrFun hs.nodes y)

/-- An action that has failed, where no write fails. -/
theorem Quiet.undone (hf : ¬K.faulty) (hu : W.Undone K T W') : W.Quiet W' := by
  obtain ⟨-, hsame⟩ := hu.order.resolve_right fun hno => hf hno.1
  refine .of_same hu.opens fun y => (hsame y).imp_right ?_
  rintro ⟨m, m', hm, hm', hdir, hdir', hchild⟩
  exact ⟨m, m', hm, hm', hdir'.trans hdir.symm, fun _ => hchild⟩

theorem Quiet.trans (h : W.Quiet W₁) (h' : W₁.Quiet W') : W.Quiet W' where
  stored x := (h'.stored x).trans (h.stored x)
  isDirectory x := (h'.isDirectory x).trans (h.isDirectory x)
  child x := (h'.child x).trans (h.child x)
  doomed x := (h'.doomed x).trans (h.doomed x)

/-! ## Steps that can be told -/

theorem Quiet.advances (h : W.Quiet W') : W.Advances T W' :=
  ⟨fun x _ _ => h.isDirectory x, fun x hx _ => ⟨(h.doomed x).2 hx, h.child x⟩,
    fun x hx => .inl ((h.doomed x).1 hx)⟩

theorem Advances.then (h : W.Advances T W₁) (hq : W₁.Quiet W') : W.Advances T W' := by
  have hstored (x : UInt32) : W'.pool.nodes x ≠ none ↔ W₁.pool.nodes x ≠ none := not_congr (hq.stored x)
  refine ⟨fun x hx hx' => ?_, fun x hx hx' => ?_, fun x hx => ?_⟩
  · rw [hq.isDirectory, h.kind x hx ((hstored x).1 hx')]
  · rw [hq.doomed, hq.child]
    exact h.doomed x hx ((hstored x).1 hx')
  · rw [hq.child]
    exact h.removed x ((hq.doomed x).1 hx)

theorem Quiet.then (hq : W.Quiet W₁) (h : W₁.Advances T W') : W.Advances T W' := by
  have hstored (x : UInt32) : W₁.pool.nodes x ≠ none ↔ W.pool.nodes x ≠ none := not_congr (hq.stored x)
  refine ⟨fun x hx hx' => ?_, fun x hx hx' => ?_, fun x hx => ?_⟩
  · rw [h.kind x ((hstored x).2 hx) hx', hq.isDirectory]
  · rw [← hq.child]
    exact h.doomed x ((hq.doomed x).2 hx) hx'
  · rw [← hq.doomed, ← hq.child]
    exact h.removed x hx

/-- A new inode. -/
theorem Added.advances {absolute : String} {size : Nat} {isDirectory : Bool} {t b : UInt32} {m : Node}
    (hO : W.Ordered K T) (ha : W.Added K T absolute size isDirectory t n b n' m W') : W.Advances T W' := by
  have hc := ha.created
  have hdoomed := doomed_congr ha.opens
  refine ⟨fun x hx _ => ?_, fun x hx _ => ⟨(hdoomed x).2 hx, ?_⟩, fun x hx => .inl ((hdoomed x).1 hx)⟩
  · have hxb : x ≠ b := by
      rintro rfl
      exact hx hc.fresh
    -- Of the inodes that were there, only the directory above has changed, and its kind has not.
    by_cases hxt : x = t
    · subst hxt
      rw [Pool.isDirectory_of_node ha.creatable.node, ha.parent, Pool.isDirectory_of_node ha.above, hc.parent]
    · rw [Pool.isDirectory, Pool.isDirectory, ha.node_of_ne hxt hxb]
  · refine (Pool.Alike.of_eq (ha.node_of_ne ?_ ?_)).child
    · rintro rfl
      exact hO.removed x hx ha.linked
    · rintro rfl
      obtain ⟨o, ho, -⟩ := hx
      rw [ha.closed] at ho
      cases ho

/-- An inode that has been removed. -/
theorem Erased.advances {absolute : String} {t : UInt32} {m : Node} (hO : W.Ordered K T)
    (he : W.Erased K T absolute t n x m n' W') : W.Advances T W' := by
  have hu := he.unlinked
  have hm := he.erasable.inode
  have hxl : T.linked x := (hO.rooted.place he.linked he.cut.entry he.cut.named).1
  -- The inode itself is there still only if somebody has it open, and then it is what it was.
  have hself (hx : W'.pool.nodes x ≠ none) : W'.pool.nodes x = W.pool.nodes x := by
    cases ho : W.opens x with
    | none => exact absurd (hu.gone ho).2.1 hx
    | some o => rw [(hu.marked o ho).2.1, hm]
  refine ⟨fun y hy hy' => ?_, fun y hy _ => ?_, fun y hy => ?_⟩
  · by_cases hyt : y = t
    · subst hyt
      rw [Pool.isDirectory_of_node hu.node, hu.isDirectory, Pool.isDirectory_of_node he.erasable.node]
    · by_cases hyx : y = x
      · subst hyx
        rw [Pool.isDirectory, Pool.isDirectory, hself hy']
      · rw [Pool.isDirectory, Pool.isDirectory, hu.others y hyt hyx]
  · have hyt : y ≠ t := by
      rintro rfl
      exact hO.removed y hy he.linked
    have hyx : y ≠ x := by
      rintro rfl
      exact hO.removed y hy hxl
    refine ⟨?_, (Pool.Alike.of_eq (hu.others y hyt hyx)).child⟩
    rwa [Doomed, hu.opens y hyx]
  · by_cases hyx : y = x
    · subst hyx
      obtain ⟨o', ho', -⟩ := hy
      have hopen : W.opens y ≠ none := fun hnone => by
        rw [(hu.gone hnone).1] at ho'
        cases ho'
      obtain ⟨o, ho⟩ := Option.ne_none_iff_exists'.1 hopen
      refine .inr ⟨hxl, (Pool.Alike.of_eq ((hu.marked o ho).2.1.trans hm.symm)).child, fun nm hnm => ?_⟩
      cases hz : W.pool.child y nm with
      | none => rfl
      | some z =>
        have hmdir : m.record.isDirectory = true := by
          rw [← Pool.isDirectory_of_node hm]
          exact Pool.isDirectory_of_child hz
        rw [Pool.child_of_node hm hmdir] at hz
        exact absurd ⟨hmdir, nm, z, hnm, hz⟩ he.erasable.removable.empty
    · refine .inl ?_
      rwa [Doomed, hu.opens y hyx] at hy

/-- Closing. -/
theorem advances_closed (ho : W.opens x = some o) (hc : Inode.Closed K W x o n W') : W.Advances T W' := by
  -- Only the last close of an inode that has been removed takes something away.
  by_cases hmore : 1 < o.openers
  · rw [hc.more hmore]
    exact (Quiet.marked ho (by rfl)).advances
  by_cases hremoved : o.removed = true
  · obtain ⟨hopens, hnodes, -, -⟩ := hc.gone (Nat.le_of_not_lt hmore) hremoved
    have hsame (y : UInt32) (hy : y ≠ x) : W'.pool.nodes y = W.pool.nodes y := by
      rw [hnodes, Function.update_of_ne hy]
    have hdoomed (y : UInt32) (hy : y ≠ x) : W'.Doomed y ↔ W.Doomed y := by
      rw [Doomed, Doomed, hopens, Function.update_of_ne hy]
    have hne (y : UInt32) (hy : W'.pool.nodes y ≠ none) : y ≠ x := by
      rintro rfl
      exact hy (by rw [hnodes, Function.update_self])
    refine ⟨fun y _ hy => ?_, fun y hd hy => ⟨(hdoomed y (hne y hy)).2 hd, ?_⟩, fun y hd => ?_⟩
    · rw [Pool.isDirectory, Pool.isDirectory, hsame y (hne y hy)]
    · exact (Pool.Alike.of_eq (hsame y (hne y hy))).child
    · by_cases hy : y = x
      · obtain ⟨o', ho', -⟩ := hd
        rw [hopens, hy, Function.update_self] at ho'
        cases ho'
      · exact .inl ((hdoomed y hy).1 hd)
  · rw [hc.last (Nat.le_of_not_lt hmore) (by simpa using hremoved)]
    refine (Quiet.left ?_).advances
    rintro ⟨o', ho', hremoved'⟩
    rw [ho] at ho'
    cases ho'
    exact hremoved hremoved'

/-- What one call may do to the names and to what is stored: nothing that can be told, a new inode, an inode
that is removed, or a close, which may give up an inode. -/
inductive Moves (K : Regime) (W : World) (T : Hierarchy) (W' : World) : Prop
  | quiet (h : W.Quiet W')
  | added {absolute : String} {size : Nat} {isDirectory : Bool} {t b : UInt32} {n n' m : Node} {W₁ : World}
    (h : W.Added K T absolute size isDirectory t n b n' m W₁) (after : W₁.Quiet W')
  | erased {absolute : String} {t x : UInt32} {n m n' : Node} (h : W.Erased K T absolute t n x m n' W')
  | closed {x : UInt32} {o : Opening} {n : Node} {W₁ : World} (before : W.Quiet W₁)
    (opened : W₁.opens x = some o) (h : Inode.Closed K W₁ x o n W')

theorem Moves.advances (hO : W.Ordered K T) (h : W.Moves K T W') : W.Advances T W' := by
  cases h with
  | quiet h => exact h.advances
  | added h after => exact (h.advances hO).then after
  | erased h => exact h.advances hO
  | closed before opened h => exact before.then (advances_closed opened h)

/-- In a step, directories that have been removed are left with their own two names. -/
theorem Advances.shorn (h : W.Advances T W') (hf : ¬K.faulty) (hO : W.Ordered K T) (hs : W.Shorn) :
    W'.Shorn := by
  intro x hx nm y hy
  have hstored : W'.pool.nodes x ≠ none := by
    obtain ⟨n, hn, -⟩ := Pool.isDirectory_node (Pool.isDirectory_of_child hy)
    simp [hn]
  -- What had been removed before is as it was. What was removed just now had no names but those of dots.
  rcases h.removed x hx with hd | ⟨hl, hchild, hnone⟩
  · rw [(h.doomed x hd hstored).2] at hy
    exact hs x hd nm y hy
  · rw [hchild] at hy
    obtain ⟨hdot, -⟩ := hO.dotted hf x hl (Pool.isDirectory_of_child hy)
    cases hnm : isDotName nm with
    | false =>
      rw [hnone nm hnm] at hy
      cases hy
    | true =>
      rcases Bool.or_eq_true_iff.1 hnm with he | he
      · obtain rfl := beq_iff_eq.1 he
        rw [hdot] at hy
        cases hy
        exact .inl ⟨rfl, rfl⟩
      · exact .inr (beq_iff_eq.1 he)

end World

namespace Call

variable {K : Regime} {W W' : World} {T : Hierarchy} {handles : List Handle} {q : Call}
  {res : Except Stop (Answer × List Handle)}

theorem quiet_arrives {α : Type} {f : UInt32 → α} {r : Except Error UInt32} {res : Except Stop α}
    (h : W.Arrives f r res W') : W.Quiet W' := by
  cases r with
  | error e =>
    obtain ⟨-, rfl⟩ := h
    exact .refl _
  | ok x =>
    obtain ⟨-, rfl⟩ := h
    exact .opened _ x

theorem quiet_writes {id : UInt32} {n : Node} {o : Opening} {offset : Nat} {data : ByteArray}
    {r : Except Stop Nat} (hn : W.pool.nodes id = some n) (hfile : n.record.isDirectory = false)
    (hw : Inode.Writes K W id n o offset data r W') : W.Quiet W' := by
  rcases hw with ⟨-, -, rfl⟩ | ⟨-, -, -, rfl⟩ | ⟨-, -, k, n', -, hb, hwrote⟩ | ⟨-, -, -, e, -, hs, -⟩
  · exact .refl _
  · exact .refl _
  · exact .becomes hb hn hfile hwrote.isDirectory
  · exact .stays hs

/-- What opening a file comes to. -/
theorem moves_opensFile {path cwd : String} {mode : Volume.OpenMode} {r : Except Stop File}
    (hf : ¬K.faulty) (hr : Volume.OpensFile K W T path cwd mode r W') : W.Moves K T W' := by
  rcases hr with ⟨x, W₁, T₁, W₂, rfl, hopens, htruncates, -, rfl⟩ | ⟨-, hu⟩
  · -- Emptying a file changes no name.
    have hemptied : W₁.Quiet W₂ := by
      cases htruncates with
      | kept _ _ => exact .refl W₁
      | emptied _ _ hn hfile hb hfile' _ _ => exact .becomes hb hn hfile (hfile'.trans hfile.symm)
    have hafter : W₁.Quiet (W₂.opened x) := hemptied.trans (.opened W₂ x)
    cases hopens with
    | found _ _ => exact .quiet hafter
    | made _ _ _ ha => exact .added ha hafter
  · exact .quiet (.undone hf hu)

/-- What every call does to the names. -/
theorem Comes.moves (hf : ¬K.faulty) (hproper : q.Proper W handles)
    (hc : q.Comes K W T handles res W') : W.Moves K T W' := by
  have hrefl : W.Moves K T W := .quiet (.refl W)
  -- One case for each call. Those that only read, and those that are refused, leave everything as it is.
  cases q with
  | create path cwd size isDirectory =>
    obtain ⟨r, ⟨-, absolute, t, n, b, n', m, -, ha⟩ | ⟨-, -, hu⟩, -⟩ := hc
    · exact .added ha (.refl W')
    · exact .quiet (.undone hf hu)
  | remove path cwd =>
    obtain ⟨r, ⟨-, absolute, t, n, x, m, n', -, he⟩ | ⟨-, -, hu⟩, -⟩ := hc
    · exact .erased he
    · exact .quiet (.undone hf hu)
  | changeDirectory path cwd => exact hc.2 ▸ hrefl
  | openInode path cwd => exact .quiet (quiet_arrives hc)
  | openDirectory path cwd => exact .quiet (quiet_arrives hc)
  | openFile path cwd mode =>
    obtain ⟨r, hr, -⟩ := hc
    exact moves_opensFile hf hr
  | close i =>
    rcases hc with ⟨-, -, rfl⟩ | ⟨x, n, o, hx, hn, ho, -, hclosed⟩
    · exact hrefl
    · -- A denial that is lifted first changes nothing about what has been removed.
      have hlifted : W.Quiet (W.setOpening x.target.number (some (o.lifted x.denies))) :=
        .marked ho (o.lifted_removed x.denies)
      exact .closed hlifted (Function.update_self ..) hclosed
  | reopen i =>
    rcases hc with ⟨-, -, rfl⟩ | ⟨x, n, o, -, -, -, -, rfl⟩
    · exact hrefl
    · exact .quiet (.opened W _)
  | readAt i offset count => rcases hc with ⟨-, -, rfl⟩ | ⟨x, n, o, -, -, -, -, rfl⟩ <;> exact hrefl
  | writeAt i offset data =>
    rcases hc with ⟨-, -, rfl⟩ | ⟨x, n, o, hx, hn, -, r, hr, -⟩
    · exact hrefl
    · exact .quiet (quiet_writes hn (hproper i x n rfl hx hn) hr)
  | grow i target =>
    rcases hc with ⟨-, -, rfl⟩ | ⟨x, n, o, hx, hn, -, r, ⟨n', -, hb, hgrown⟩ | ⟨e, -, hs, -⟩, -⟩
    · exact hrefl
    · exact .quiet (.becomes hb hn (hproper i x n rfl hx hn) hgrown.isDirectory)
    · exact .quiet (.stays hs)
  | clear i =>
    rcases hc with ⟨-, -, rfl⟩ |
      ⟨x, n, o, hx, hn, -, r, ⟨-, -, rfl⟩ | ⟨-, n', hb, hdir, -⟩ | ⟨-, -, -, rfl⟩, -⟩
    · exact hrefl
    · exact hrefl
    · exact .quiet (.becomes hb hn (hproper i x n rfl hx hn) hdir)
    · exact hrefl
  | read i count =>
    rcases hc with ⟨-, -, rfl⟩ | ⟨x, n, o, -, -, -, ⟨f, -, -, rfl⟩ | ⟨-, -, rfl⟩⟩ <;> exact hrefl
  | write i data =>
    rcases hc with ⟨-, -, rfl⟩ | ⟨x, n, o, hx, hn, -, ⟨f, rfl, r, hr, -⟩ | ⟨-, -, rfl⟩⟩
    · exact hrefl
    · exact .quiet (quiet_writes hn (hproper i _ n rfl hx hn) hr)
    · exact hrefl
  | seek i position =>
    rcases hc with ⟨-, -, rfl⟩ | ⟨x, n, o, -, -, -, ⟨f, -, -, rfl⟩ | ⟨-, -, rfl⟩⟩ <;> exact hrefl
  | denyWrite i =>
    rcases hc with ⟨-, -, rfl⟩ | ⟨x, n, o, -, -, ho, ⟨f, rfl, -, rfl⟩ | ⟨-, -, rfl⟩⟩
    · exact hrefl
    · exact .quiet (.marked ho (by rfl))
    · exact hrefl
  | allowWrite i =>
    rcases hc with ⟨-, -, rfl⟩ | ⟨x, n, o, -, -, ho, ⟨f, rfl, -, rfl⟩ | ⟨-, -, rfl⟩⟩
    · exact hrefl
    · exact .quiet (.marked ho (o.lifted_removed f.denying))
    · exact hrefl

end Call

end InodeVolume
