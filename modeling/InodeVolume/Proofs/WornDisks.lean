import InodeVolume.Proofs.SuccessfulCalls
import InodeVolume.Proofs.VolumeFrames
import InodeVolume.Proofs.WritingActions

/-!
# Disks that wear out

Whatever a client does on a disk none of whose accesses fails, it can do on one that wears out only afterwards,
with the same answers (`Client.Runs.worn`). So there are clients whose disks have been formatted and whose writes
fail from some point on. One is made here: it has a file of two blocks open when the disk wears out, and cannot
empty it (`Client.exists_worn`).
-/

namespace InodeVolume

/-! ## Writes that fail -/

/-- On a disk that is worn out every further write fails. -/
theorem Disk.scripted_worn {s : Disk} (hreads : ∀ n id, s.faults.read n id = false) (n : Nat) :
    (worn s.faults.writesSeen s).Scripted (List.replicate n true) := by
  refine ⟨hreads, fun i b id hb => ?_⟩
  obtain rfl := (List.mem_replicate.1 (List.mem_of_getElem? hb)).2
  show (s.faults.write (s.faults.writesSeen + i) id || decide (s.faults.writesSeen ≤ s.faults.writesSeen + i)) = true
  simp

/-- Where all writes fail, contents cannot be given up. -/
theorem Record.truncate_dies (id : UInt32) (r : Record) : Dies (Record.truncate id r) :=
  ((Record.ownedBlocks_reads r).bind fun _ => .pure _).inert.bind_dies fun _ =>
    (DiskM.writeBlock_dies _ _).bind

/-- An inode is as it was if its contents could not be given up. -/
theorem Inode.outcome_clear_of_error {i : Inode} {v : Volume} {node : OpenInode} {e : Error} {disk : Disk}
    (hv : v.registry[i.number]? = some node) (hd : node.denials = 0)
    (ht : outcome (Record.truncate i.number node.record) v.disk = (.error e, disk)) :
    outcome i.clear v = (.error (.failed e), { v with disk := disk }) := by
  have hcheck := i.outcome_checkWritable hv
  have hentry : outcome i.entry v = (.ok node, v) := by rw [outcome, Client.entry_of_registry hv]
  have htruncate : outcome (VolumeM.onDisk fun _ => Record.truncate i.number node.record) v =
      (.error (.failed e), { v with disk := disk }) := by
    rw [VolumeM.outcome_onDisk, ht]
    rfl
  rw [hd, if_neg (Nat.lt_irrefl 0)] at hcheck
  rw [clear, outcome_bind_ok hcheck, outcome_bind_ok hentry, outcome_bind_error htruncate]

/-! ## Runs -/

namespace Client

variable {c c' : Client} {q : Call} {a : Except Stop Answer} {disk : Disk} {k : Nat}

instance : Wears Client where
  tried c := tried c.volume
  worn k c := { c with volume := worn k c.volume }

theorem step_eq (c : Client) (q : Call) : c.step q =
    ((outcome (q.act c.handles) c.volume).1.map Prod.fst,
      ⟨(outcome (q.act c.handles) c.volume).2,
        Call.kept c.handles (outcome (q.act c.handles) c.volume).1⟩) := by
  simp only [step, outcome]
  cases q.act c.handles c.volume <;> rfl

/-- A call is answered alike if the disk wears out only afterwards. -/
theorem Does.worn (h : c.Does q a c') :
    tried c ≤ tried c' ∧ ∀ k, tried c' ≤ k → (worn k c).Does q a (worn k c') := by
  have hearly : Early (q.act c.handles) c.volume := (q.act_framed c.volume).2.2
  obtain ⟨hq, hstep⟩ := h
  rw [step_eq, Prod.mk.injEq] at hstep
  obtain ⟨rfl, rfl⟩ := hstep
  refine ⟨hearly.le, fun k hk => ⟨hq, ?_⟩⟩
  rw [step_eq, show (Wears.worn k c).volume = Wears.worn k c.volume from rfl,
    show (Wears.worn k c).handles = c.handles from rfl, hearly.same k hk]
  rfl

/-- A run has the same answers if the disk wears out only afterwards. -/
theorem Runs.worn {l : List (Call × Except Stop Answer)} (h : Runs c l c') :
    tried c ≤ tried c' ∧ ∀ k, tried c' ≤ k → Runs (worn k c) l (worn k c') := by
  induction h with
  | nil c => exact ⟨Nat.le_refl _, fun k _ => .nil _⟩
  | @cons c c' l q allowed rest ih =>
    obtain ⟨hle, hsame⟩ := Does.worn (c := c) (q := q) ⟨allowed, rfl⟩
    exact ⟨hle.trans ih.1, fun k hk => .next (hsame k (ih.1.trans hk)) (ih.2 k hk)⟩

/-- A disk can be formatted if it wears out only afterwards. -/
theorem Starts.worn (h : Starts False disk c) (hk : tried c ≤ k) : Starts True (worn k disk) (worn k c) := by
  obtain ⟨space, disk', hmap, hprepare⟩ := h.formats
  obtain ⟨-, hmap'⟩ := (SpaceMap.format_tame disk).2.2.run hmap
  obtain ⟨hle, hprepare'⟩ := (Volume.prepare_framed true ⟨disk', space, {}⟩).2.2.run hprepare
  exact
    { count_le := h.count_le
      works := ⟨h.works.holds, h.works.reads, fun hno => absurd trivial hno⟩
      formats := ⟨space, Wears.worn k disk', hmap' k (hle.trans hk), hprepare' k hk⟩
      handles := h.handles }

/-- Contents cannot be given up because writing is denied, or because the medium fails. -/
theorem Stands.clear_error {K : Regime} {W : World} {T : Hierarchy} (h : c.Stands K W T) {i : Nat} {e : Error}
    (hq : c.Allows (.clear i)) (he : (c.step (.clear i)).1 = .error (.failed e)) :
    e = .writeDenied ∨ e = .device .io := by
  obtain ⟨res, W', T', hcomes, hres, -⟩ := h.step hq
  rw [hres] at he
  rcases hcomes with ⟨-, rfl, -⟩ | ⟨y, n, o, -, -, -, r, hr, rfl⟩
  · cases he
  · rcases hr with ⟨-, rfl, -⟩ | ⟨-, n', -, -, -, -, ⟨rfl, -⟩ | ⟨-, rfl | rfl⟩⟩ | ⟨-, -, rfl, -⟩
    all_goals cases he
    · exact .inl rfl
    all_goals exact .inr rfl

/-- Where all writes fail a file cannot be emptied, and is as it was. -/
theorem Stands.fails_clear {K : Regime} {W : World} {T : Hierarchy} (h : c.Stands K W T) {i : Nat} {y : Handle}
    {node : OpenInode} (hy : c.handles[i]? = some y) (hnode : c.volume.registry[y.target.number]? = some node)
    (hfile : node.record.isDirectory = false) (hd : node.denials = 0)
    (hworn : ∀ n, c.volume.disk.Scripted (List.replicate n true)) :
    ∃ c', c.Does (.clear i) (.error (.failed (.device .io))) c' ∧ c'.volume.registry = c.volume.registry := by
  have hq : c.Allows (.clear i) := by
    refine ⟨trivial, fun j hj z node' hz hnode' => ?_⟩
    cases hj
    obtain rfl := Option.some.inj (hy.symm.trans hz)
    obtain rfl := Option.some.inj (hnode.symm.trans hnode')
    exact hfile
  obtain ⟨e, n, hdies⟩ := Record.truncate_dies y.target.number node.record c.volume.disk
  obtain ⟨htruncate, -⟩ := hdies [] c.volume.disk (.refl _) ((List.append_nil _).symm ▸ hworn n)
  have hclear := Inode.outcome_clear_of_error hnode hd (Prod.ext htruncate rfl)
  have hact := outcome_bind_error (f := fun _ => pure (Answer.done, c.handles)) hclear
  have hstep := c.step_eq (.clear i)
  simp only [Call.act, Call.onHandle, hy, hact] at hstep
  -- Which error it is follows from what emptying can come to at all.
  obtain rfl : e = .device .io := by
    rcases h.clear_error hq (by rw [hstep]; rfl) with rfl | he
    · exact absurd rfl ((Record.truncate_tame y.target.number node.record c.volume.disk).2.1 _ htruncate)
    · exact he
  exact ⟨_, ⟨hq, hstep⟩, rfl⟩

/-- A file is made and opened, and then cannot be emptied. -/
def wearing : List (Call × Except Stop Answer) :=
  [(.create "/a" "/" 600 false, .ok .done), (.openInode "/a" "/", .ok .done),
    (.clear 0, .error (.failed (.device .io)))]

/-- A file of two blocks is open when its disk wears out. It keeps its contents, as no write succeeds any more. -/
theorem exists_worn : ∃ (k : Nat) (c₀ c : Client) (x : UInt32) (e : OpenInode),
    Starts True { device := .inMemory 8, faults := .from none (some k) [] [] } c₀ ∧ Runs c₀ wearing c ∧
    c.volume.registry[x]? = some e ∧ e.record.length = 600 := by
  have hfits : Regime.Fits ⟨8, False⟩ := ⟨by decide, by decide⟩
  have ha : NulFree "/a" := by decide
  have habs : Path.toAbsolute "/a" "/" = .ok "/a" := by decide
  obtain ⟨c₁, W, T, x, r, n, hfirst⟩ := exists_first 600 false hfits ha habs
    (by decide) (by decide) (by decide) (by decide) (by decide) (by decide) (by decide)
  obtain ⟨c, T', hopens, hhandles, hs⟩ := hfirst.stands.does_openInode ha (by decide) habs hfirst.find
  obtain ⟨c₀, hstarts, hrun⟩ := hfirst.run
  obtain ⟨hle, hworn⟩ := (hrun.append (.next hopens (.nil c))).worn
  -- The disk lasts for what has been done so far, and no longer.
  have hstarts' := hstarts.worn hle
  have hrun' := hworn (tried c) (Nat.le_refl _)
  have hentry : (worn (tried c) c).volume.registry[x]? = some ⟨1, false, 0, n.record⟩ := by
    show c.volume.registry[x]? = _
    rw [hs.mounts.registry, World.entry_of_some (W.opened_opens_self x) hfirst.node, hfirst.opens]
    rfl
  have hget : (worn (tried c) c).handles[0]? = some (.inode ⟨x⟩) := by
    show c.handles[0]? = _
    rw [hhandles, hfirst.handles]
    rfl
  obtain ⟨W₀, hs₀, -⟩ := hstarts'.stands
  obtain ⟨W', T'', hs'⟩ := hrun'.stands hs₀
  obtain ⟨c', hclear, hregistry⟩ := hs'.fails_clear hget hentry hfirst.kind rfl fun n =>
    Disk.scripted_worn hs.mounts.disk.shows.reads n
  refine ⟨tried c, worn (tried c) c₀, c', x, ⟨1, false, 0, n.record⟩, ?_, hrun'.append (.next hclear (.nil c')),
    by rw [hregistry, hentry], UInt32.toNat.inj ((hfirst.file rfl).1.trans (by decide))⟩
  rw [← Faults.worn_never]
  exact hstarts'

end Client

end InodeVolume
