import InodeVolume.Proofs.FailingLinks
import InodeVolume.Proofs.FailingRemovals

/-!
# Creating files where accesses fail

A file that is there may be taken for missing if the table of its directory cannot be read. It may then be
created once more, and the new entry may even take the place of another one. But however creating a file comes
out, every file is as it was (`World.Spares`, `Volume.create_partly`), and each name leads where it led, to the
new file or nowhere.
-/

namespace InodeVolume

open Record

theorem VolumeM.Faithful.orUndo {x undo : VolumeM Unit} (hx : Faithful x) (hu : Faithful undo) :
    Faithful (Volume.orUndo x undo) := by
  refine hx.attemptBind ?_
  rintro q q' (v | e | e)
  · exact Faithful.pure ()
  · exact hu.bind fun _ => Faithful.fail e
  · exact Mimics.bind hu (fun _ _ _ => Mimics.throw (.io e)) (fun _ _ h => h.error_bind) fun _ _ h => h.isOk_eq

/-- All files are as they were, and so is what is open. -/
structure World.Spares (W W' : World) : Prop where
  files : ∀ x n, W.pool.nodes x = some n → n.record.isDirectory = false → W'.pool.nodes x = some n
  opens : W'.opens = W.opens

theorem World.Spares.refl (W : World) : W.Spares W := ⟨fun _ _ h _ => h, rfl⟩

/-- A name that has been linked is the only one that is new. -/
theorem Node.Takes.mem_entries {n n' : Node} {name nm : String} {number x : UInt32} {readable : Prop}
    (h : n.Takes name number readable n' (.ok ())) (hx : (nm, x) ∈ n'.entries) :
    (nm, x) ∈ n.entries ∨ x = number := by
  obtain ⟨lost, -, ⟨front, back, hold, hnew⟩, -⟩ := h
  rw [hnew] at hx
  rw [hold]
  simp only [List.mem_append, List.mem_singleton, Prod.mk.injEq] at hx ⊢
  rcases hx with (hx | hx) | hx
  · exact .inl (.inl (.inl hx))
  · exact .inr hx.2
  · exact .inl (.inr hx)

namespace Volume

variable {K : Regime} {W : World} {T : Hierarchy} {bad : Nat → Prop} {b t : UInt32} {n m : Node} {o : Opening}
  {name path cwd : String} {size : Nat}

/-! ## A new file -/

/-- An inode that is given up may stay where it cannot be read, but the others are as they were. -/
theorem giveUp_partly (hK : K.faulty) (hF : K.Fits) (hm : W.pool.nodes b = some m) (ho : W.opens b = none)
    (hb : K.IsData b.toNat) :
    Leads (Partly bad (Mounts K)) W (giveUp b) fun res W' => res = .ok () ∧ W'.opens = W.opens ∧
      ∀ x, x ≠ b → W'.pool.nodes x = W.pool.nodes x := by
  unfold giveUp
  refine Leads.ignoring (Leads.bind (Inode.acquire_partly hK hF hm) ?_ ?_)
  · rintro i W' (⟨hi, rfl⟩ | ⟨hi, -⟩)
    swap
    · cases hi
    cases hi
    -- Once it is open nothing more is read, so what may go wrong after that is only what a write may.
    have hfaithful : VolumeM.Faithful (do
        Inode.markRemoved ⟨b⟩
        Inode.close ⟨b⟩) := (Inode.markRemoved_faithful _).bind fun _ => Inode.close_faithful _
    refine Leads.mono (Leads.of_faithful hK hfaithful (drop_leads hF hm ho hb)) ?_
    rintro res W' ⟨r, htold, hsober, hopens, hnodes, -⟩
    refine ⟨?_, hopens, fun x hx => by rw [hnodes, Function.update_of_ne hx]⟩
    cases htold with
    | ok | same => exact hsober
    | io => exact sober_failed
  · rintro e W' (⟨he, -⟩ | ⟨he, rfl⟩)
    · cases he
    · cases he
      exact ⟨sober_failed, rfl, fun _ _ => rfl⟩

/-- What creating a file in directory `t` comes to where accesses may fail: all inodes but the directory are as
they were, and what has been created is the only one that can be found in it besides. -/
def CreatedAmid (W : World) (t : UInt32) (n : Node) (res : Except Stop Unit) (W' : World) : Prop :=
  Sober res ∧ W'.opens = W.opens ∧ (∀ x, x ≠ t → W.pool.nodes x ≠ none → W'.pool.nodes x = W.pool.nodes x) ∧
    ∃ n', W'.pool.nodes t = some n' ∧ n'.record.isDirectory = n.record.isDirectory ∧
      (res = .ok () → ∃ b m, W'.pool.nodes b = some m ∧ m.record.isDirectory = false ∧
        ∀ nm x, (nm, x) ∈ n'.entries → (nm, x) ∈ n.entries ∨ x = b)

theorem createdAmid_failed {W' : World} (hn : W.pool.nodes t = some n) (hnodes : W'.pool.nodes = W.pool.nodes)
    (hopens : W'.opens = W.opens) (e : Error) : CreatedAmid W t n (.error (.failed e)) W' :=
  ⟨sober_failed, hopens, fun x _ _ => congrFun hnodes x, n, by rw [hnodes, hn], rfl, nofun⟩

/-- Linking the name of a new file, which is given up if that fails. -/
theorem linkName_partly (hK : K.faulty) (hF : K.Fits) {W₂ : World} (hn : W.pool.nodes t = some n)
    (ho : W.opens t = some o) (hname : NulFree name) (h₂ : Nameless K W size false b m W₂) :
    Leads (Partly bad (Mounts K)) W₂ (orUndo (Directory.add { inode := ⟨t⟩ } name b) (giveUp b))
      (CreatedAmid W t n) := by
  have htb := h₂.ne hn
  -- What was stored before is another inode than the new one.
  have hold (x : UInt32) (hx : W.pool.nodes x ≠ none) : x ≠ b ∧ W₂.pool.nodes x = W.pool.nodes x := by
    have hxb : x ≠ b := by
      rintro rfl
      exact hx h₂.fresh
    exact ⟨hxb, by rw [h₂.nodes, Function.update_of_ne hxb]⟩
  have hadd : Leads (Partly bad (Mounts K)) W₂ (Directory.add { inode := ⟨t⟩ } name b)
      (Directory.TakenAmid W₂ bad t n name b) :=
    Directory.add_taken hK hF rfl (h₂.node hn) (by rw [h₂.opens, ho]) hname
  refine Leads.orUndo hadd ?_ ?_ ?_
  · rintro r W₃ ⟨n', -, -, htakes⟩
    cases htakes with
    | linked => exact sober_ok
    | refused => exact sober_failed
  · rintro W₃ ⟨n', hbecomes, hdir, htakes⟩
    refine ⟨sober_ok, hbecomes.opens.trans h₂.opens, fun x hx hs => ?_, n', hbecomes.node, hdir, fun _ =>
      ⟨b, m, ?_, h₂.kind, fun nm x hx => htakes.mem_entries hx⟩⟩
    · rw [hbecomes.node_of_ne hx, (hold x hs).2]
    · rw [hbecomes.node_of_ne htb.symm, h₂.nodes, Function.update_self]
  · rintro e W₃ ⟨n', hbecomes, hdir, -⟩
    have hm : W₃.pool.nodes b = some m := by
      rw [hbecomes.node_of_ne htb.symm, h₂.nodes, Function.update_self]
    have hopens : W₃.opens = W.opens := hbecomes.opens.trans h₂.opens
    refine Leads.mono (giveUp_partly hK hF hm (by rw [hopens, h₂.closed]) h₂.data) ?_
    rintro u W₄ ⟨rfl, hopens₄, hnodes⟩
    refine ⟨rfl, sober_failed, hopens₄.trans hopens, fun x hx hs => ?_, n', ?_, hdir, nofun⟩
    · rw [hnodes x (hold x hs).1, hbecomes.node_of_ne hx, (hold x hs).2]
    · rw [hnodes t htb, hbecomes.node]

/-- Storing the record of a new file, whose block is given back if that fails. -/
theorem storeInode_partly (hK : K.faulty) (hF : K.Fits) {W₁ : World} (hfresh : W.pool.nodes b = none)
    (hdata : K.IsData b.toNat) (hclosed : W.opens b = none) (hnodes₁ : W₁.pool.nodes = W.pool.nodes)
    (hheld₁ : W₁.pool.held = [b]) (hopens₁ : W₁.opens = W.opens)
    (hfree₁ : K.free W₁.pool.store.used + 1 = K.free W.pool.store.used) :
    Leads (Partly bad (Mounts K)) W₁
      (orUndo (Inode.create b size false) (VolumeM.ignoring (VolumeM.release b 1))) fun res W₂ =>
      (res = .ok () ∧ ∃ m, Nameless K W size false b m W₂) ∨
        ((∃ e, res = .error (.failed e)) ∧ W₂.opens = W.opens ∧ W₂.pool.nodes = W.pool.nodes) := by
  have hrelease : VolumeM.Faithful (VolumeM.release b 1) := VolumeM.Faithful.onDisk fun m =>
    m.release_faithful b 1
  -- The two steps are one faithful action, so what is known of failing writes is all there is to know.
  have hsettles : Leads (Mounts K) W₁
      (orUndo (if false then Directory.create b 0 else Inode.create b size false)
        (VolumeM.ignoring (VolumeM.release b 1))) _ :=
    storeInode_settles hF hfresh hdata hclosed hnodes₁ hheld₁ hopens₁ hfree₁
  refine Leads.mono
    (Leads.of_faithful hK ((Inode.create_faithful b size false).orUndo hrelease.ignoring) hsettles) ?_
  rintro res W₂ ⟨r, htold, ⟨rfl, hm⟩ | ⟨⟨e, rfl⟩, hopens, -, hnodes, -⟩⟩
  · exact .inl ⟨htold.of_ok, hm⟩
  · cases htold with
    | same | io => exact .inr ⟨⟨_, rfl⟩, hopens, hnodes⟩

/-- Creating a file in a directory changes no inode but that of the directory, whatever fails. -/
theorem createIn_partly (hK : K.faulty) (hF : K.Fits) (hroot : W.pool.nodes rootInode ≠ none)
    (hheld : W.pool.held = []) (hn : W.pool.nodes t = some n) (ho : W.opens t = some o) (hname : NulFree name)
    (parent : String) (size : Nat) :
    Leads (Partly bad (Mounts K)) W (createIn { inode := ⟨t⟩ } parent name size false) (CreatedAmid W t n) := by
  unfold createIn
  have hlookup : Answers (Partly bad (Mounts K)) W (Directory.lookup { inode := ⟨t⟩ } name) fun _ => True :=
    Answers.bind (Directory.find_partly hK rfl hn ho name) fun _ _ => Answers.pure trivial
  -- Nothing is known of the answer: the name may be missed where the table cannot be read.
  refine Answers.bind hlookup fun found _ => ?_
  by_cases hsome : found.isSome = true
  · rw [if_pos hsome]
    exact Leads.failBind (createdAmid_failed hn rfl rfl _)
  rw [if_neg hsome]
  have hallocate : VolumeM.Faithful (VolumeM.allocate 1) := VolumeM.Faithful.onDisk fun m =>
    m.allocate_faithful Nat.one_pos
  refine Leads.bind (Leads.of_faithful hK hallocate (VolumeM.allocate_leads hF)) ?_ ?_
  · rintro b W₁ ⟨r, htold, ⟨b', rfl, hnodes₁, hheld₁, hopens₁, hfree₁⟩ | ⟨e, rfl, -⟩⟩
    swap
    · cases htold
    cases htold
    rw [hheld] at hheld₁
    refine Leads.of_shown fun v hv => ?_
    obtain ⟨hfresh, hdata⟩ := held_fresh hv.shows (.inl (by rw [hnodes₁]; exact hroot)) hheld₁
    have hclosed : W.opens b = none := by
      by_contra hopen
      exact hv.shows.live b (hopens₁ ▸ hopen) hfresh
    refine Leads.bind (storeInode_partly hK hF (hnodes₁ ▸ hfresh) hdata hclosed hnodes₁ hheld₁ hopens₁
      hfree₁) ?_ ?_
    · rintro u W₂ (⟨-, m, h₂⟩ | ⟨⟨e, he⟩, -⟩)
      swap
      · cases he
      refine Leads.bind (linkName_partly hK hF hn ho hname h₂) (fun u W₃ h => Leads.pure h) fun e W₃ h => h
    · rintro e W₂ (⟨he, -⟩ | ⟨⟨e', he⟩, hopens, hnodes⟩)
      · cases he
      · cases he
        exact createdAmid_failed hn hnodes hopens e'
  · rintro e W₁ ⟨r, htold, ⟨b', rfl, -⟩ | ⟨e', rfl, rfl, -⟩⟩
    · cases htold
    · cases htold with
      | same | io => exact createdAmid_failed hn rfl rfl _

/-! ## Paths -/

/-- After a file has been created in directory `t`, names lead to what they led to or to the new file. -/
theorem CreatedAmid.walkable {W' : World} (hR : W.pool.Rooted T) (hl : T.linked t)
    (hn : W.pool.nodes t = some n) (hdir : n.record.isDirectory = true) (h : CreatedAmid W t n (.ok ()) W') :
    ∃ L, W'.pool.Walkable L := by
  obtain ⟨-, -, hothers, n', hn', hdir', hnew⟩ := h
  obtain ⟨b, m, hm, hfile, hentries⟩ := hnew rfl
  have hnode (x : UInt32) (hx : T.linked x) (hne : x ≠ t) : W'.pool.nodes x = W.pool.nodes x :=
    hothers x hne (hR.stored x hx)
  -- What can be walked is the old tree and the new file.
  refine ⟨fun x => T.linked x ∨ x = b, .inl hR.root, ?_, ?_, ?_⟩
  · by_cases hroot : rootInode = t
    · rw [hroot, Pool.isDirectory_of_node hn', hdir', hdir]
    · obtain ⟨r, hr, hrdir⟩ := Pool.isDirectory_node hR.rootDirectory
      rw [Pool.isDirectory_of_node (hnode _ hR.root hroot ▸ hr), hrdir]
  · rintro x (hx | rfl)
    · by_cases hxt : x = t
      · simp [hxt, hn']
      · rw [hnode x hx hxt]
        exact hR.stored x hx
    · simp [hm]
  · rintro d nm x (hd | rfl) hc
    · by_cases hdt : d = t
      · subst hdt
        rw [Pool.child_of_node hn' (hdir'.trans hdir)] at hc
        obtain ⟨j, -, hj⟩ := Node.child_some hc
        refine (hentries nm x (Node.mem_entries.2 ⟨j, hj⟩)).imp_left fun hx => ?_
        obtain ⟨i, hi⟩ := Node.mem_entries.1 hx
        have hold : W.pool.child d nm = some x := by
          rw [Pool.child_of_node hn hdir, (hR.tidy d hd n hn hdir).child_eq hi]
        exact hR.linked_child hd hold
      · rw [(Pool.Alike.of_eq (hnode d hd hdt)).child] at hc
        exact .inl (hR.linked_child hd hc)
    · -- The new inode is a file, so no name leads on from it.
      have hno := Pool.isDirectory_of_child hc
      rw [Pool.isDirectory_of_node hm, hfile] at hno
      cases hno

/-- Creating a file at a path leaves all files as they are, whatever fails. -/
theorem create_partly {absolute : String} (hK : K.faulty) (hF : K.Fits) (hO : W.Ordered K T)
    (habs : Path.toAbsolute path cwd = .ok absolute) (hname : NulFree (Path.leafPart absolute)) (size : Nat) :
    Leads (Partly bad (Mounts K)) W (create path cwd size false) fun res W' =>
      Sober res ∧ W.Spares W' ∧ (res = .ok () → ∃ L, W'.pool.Walkable L) := by
  have hR := hO.rooted
  have hrefused (e : Error) : Sober (.error (.failed e) : Except Stop Unit) ∧ W.Spares W ∧
      ((.error (.failed e) : Except Stop Unit) = .ok () → ∃ L, W.pool.Walkable L) :=
    ⟨sober_failed, World.Spares.refl W, nofun⟩
  unfold create
  rw [split_eq, habs]
  refine Yields.bind (v := (Path.parentPart absolute, Path.leafPart absolute)) Yields.pure ?_
  dsimp only
  by_cases hlong : nameMax < (Path.leafPart absolute).utf8ByteSize
  · rw [if_pos hlong]
    exact Leads.failBind (hrefused _)
  rw [if_neg hlong]
  by_cases hempty : (Path.leafPart absolute).isEmpty = true
  · rw [if_pos hempty]
    exact Leads.failBind (hrefused _)
  rw [if_neg hempty]
  refine within_partly hK hF hR.walkable hO.attended (fun t _ hl hdir => ?_) fun e => hrefused e
  obtain ⟨n, hn, hndir⟩ := Pool.isDirectory_node hdir
  refine Leads.mono (createIn_partly (W := W.opened t) hK hF (hR.stored _ hR.root) hO.held hn
    (W.opened_opens_self t) hname _ size) ?_
  rintro res W₁ hcreated
  -- The parts are needed here, and all of `hcreated` once more in the last case.
  obtain ⟨hsober, hopens, hothers, n', hn', -⟩ := id hcreated
  refine ⟨hsober, ⟨W₁.pool, W.opens⟩, World.eq_opened hopens, by simp [hn'], hO.attended t, hsober, ⟨?_, rfl⟩, ?_⟩
  · intro x m hm hfile
    have hxt : x ≠ t := by
      rintro rfl
      rw [hn] at hm
      cases hm
      rw [hfile] at hndir
      cases hndir
    have hsame : W₁.pool.nodes x = W.pool.nodes x := hothers x hxt (by simp [hm])
    exact hsame.trans hm
  · rintro rfl
    exact (CreatedAmid.walkable (W := W.opened t) hR hl hn hndir hcreated :)

/-- Opening a file that may be created first, whatever fails: an inode is open once more or a failure is reported,
and all files are as they were. Nothing has changed but that unless the file may be created. -/
theorem openOrCreate_partly {absolute : String} {x : UInt32} (hK : K.faulty) (hF : K.Fits) (hO : W.Ordered K T)
    (habs : Path.toAbsolute path cwd = .ok absolute) (hx : W.pool.find absolute = .ok x) (create? : Bool)
    (hname : NulFree (Path.leafPart absolute)) :
    Leads (Partly bad (Mounts K)) W (openOrCreate path cwd create?) fun res W' =>
      ∃ W₁, W.Spares W₁ ∧ (create? = false → W₁ = W) ∧
        (((∃ e, res = .error (.failed e)) ∧ W' = W₁) ∨
          ∃ y, res = .ok ⟨y⟩ ∧ (create? = false → y = x) ∧ W₁.pool.nodes y ≠ none ∧ W' = W₁.opened y) := by
  have hopen : Leads (Partly bad (Mounts K)) W (openInode path cwd) (W.ArrivesAmid Inode.mk (.ok x)) := by
    have h : Leads (Partly bad (Mounts K)) W (openInode path cwd) _ :=
      openInode_partly hK hF hO.rooted.walkable hO.attended path cwd
    rwa [habs, show (Except.ok absolute).bind W.pool.find = _ from hx] at h
  have hstored := hO.rooted.stored x (linked_find hO.rooted.walkable hx)
  unfold openOrCreate
  refine Leads.attemptVolumeBind hopen ?_ ?_ ?_
  · rintro r W' (⟨y, -, rfl, -⟩ | ⟨⟨e, rfl⟩, -⟩)
    · exact sober_ok
    · exact sober_failed
  · rintro i W' (⟨y, hy, hi, rfl⟩ | ⟨⟨e, hi⟩, -⟩)
    · cases hy
      cases hi
      exact Leads.pure ⟨W, World.Spares.refl W, fun _ => rfl, .inr ⟨x, rfl, fun _ => rfl, hstored, rfl⟩⟩
    · cases hi
  · rintro e W' (⟨y, -, he, -⟩ | ⟨⟨e', he⟩, rfl⟩)
    · cases he
    cases he
    dsimp only
    by_cases hask : e = .notFound ∧ create? = true
    · rw [if_pos hask]
      have hcreate := hask.2
      -- The name may only have been overlooked, so the path is walked anew in whatever tree creating leaves.
      refine Leads.bind (create_partly hK hF hO habs hname 0) ?_ ?_
      · rintro u W₁ ⟨-, hspares, hwalkable⟩
        obtain ⟨L, hL⟩ := hwalkable rfl
        have hattended : W₁.Attended := fun z o ho => hO.attended z o (hspares.opens ▸ ho)
        refine Leads.mono (openInode_partly hK hF hL hattended path cwd) ?_
        rintro res W' (⟨y, hy, rfl, rfl⟩ | ⟨he, rfl⟩)
        · rw [habs] at hy
          exact ⟨W₁, hspares, by simp [hcreate], .inr ⟨y, rfl, by simp [hcreate],
            hL.stored y (linked_find hL hy), rfl⟩⟩
        · exact ⟨W', hspares, by simp [hcreate], .inl ⟨he, rfl⟩⟩
      · rintro e' W₁ ⟨hsober, hspares, -⟩
        cases e' with
        | failed e' => exact ⟨W₁, hspares, by simp [hcreate], .inl ⟨⟨e', rfl⟩, rfl⟩⟩
        | misused rule => exact absurd rfl (hsober rule)
    · rw [if_neg hask]
      exact Leads.fail ⟨W', World.Spares.refl W', fun _ => rfl, .inl ⟨⟨e, rfl⟩, rfl⟩⟩

end Volume

end InodeVolume
