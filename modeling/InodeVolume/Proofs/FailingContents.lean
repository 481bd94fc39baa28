import InodeVolume.Proofs.FailingCreation
import InodeVolume.Proofs.FailingGrowth

/-!
# Writing and emptying where accesses fail

A write that reports an error has changed nothing, and one that reports a number of bytes has written these
and no others, whatever accesses fail (`Client.writes_of_asked`). Emptying is different: it stores the emptied
record first and then gives the blocks back, so when the latter fails it reports an error although the
contents are gone (`Client.clears_of_asked`).
-/

namespace InodeVolume

open Record SpaceMap

/-! ## Emptied inodes -/

section Emptying

variable {K : Regime} {W W' : World} {T : Hierarchy} {bad : Nat → Prop} {x : UInt32} {n : Node} {o : Opening}

/-- What emptying an inode comes to where accesses may fail: nothing has changed and a failure is reported, or
the contents are gone. Then a failure is reported exactly if not all of their blocks have been given back. -/
def Inode.EmptiedAmid (W : World) (x : UInt32) (n : Node) (res : Except Stop Unit) (W' : World) : Prop :=
  ((∃ e, res = .error (.failed e)) ∧ W' = W) ∨
    ∃ n' l, Emptied W x n l n' W' ∧ (∀ b ∈ n.owned, W.pool.store.used b.toNat = true) ∧
      ((res = .ok () ∧ l.Perm n.owned) ∨ ((∃ e, res = .error (.failed e)) ∧ ¬l.Perm n.owned))

theorem Inode.EmptiedAmid.sober {res : Except Stop Unit} (h : EmptiedAmid W x n res W') : Sober res := by
  obtain ⟨⟨e, rfl⟩, -⟩ | ⟨n', l, -, -, ⟨rfl, -⟩ | ⟨⟨e, rfl⟩, -⟩⟩ := h
  · exact sober_failed
  · exact sober_ok
  · exact sober_failed

theorem Inode.EmptiedAmid.opens {res : Except Stop Unit} (h : EmptiedAmid W x n res W') : W'.opens = W.opens := by
  obtain ⟨-, rfl⟩ | ⟨n', l, h, -⟩ := h
  · rfl
  · exact h.becomes.opens

/-- Emptying a file under any faults leaves it as it was, or empty, with its blocks given back as far as
told. -/
theorem Inode.clear_partly (hK : K.faulty) (hF : K.Fits) (hn : W.pool.nodes x = some n) (ho : W.opens x = some o) :
    Leads (Partly bad (Mounts K)) W (clear ⟨x⟩) (EmptiedAmid W x n) := by
  refine Leads.of_shown fun v hv => ?_
  have hused (b : UInt32) (hb : b ∈ n.owned) : W.pool.store.used b.toNat = true :=
    hv.shows.disk.sound.used x b (Pool.mem_area_blocks (Pool.mem_blocks_owned hn hb))
  refine Leads.mono (Leads.of_faithful hK (clear_faithful ⟨x⟩) (clear_empties hF hn ho)) ?_
  -- What the run with other faults answers is told of this one: refused, emptied, or emptied in part.
  rintro res W' ⟨r, htold, ⟨-, rfl, rfl⟩ | ⟨-, n', l, h, ⟨rfl, hall⟩ | ⟨-, hpart, rfl⟩⟩ | ⟨-, -, rfl, rfl⟩⟩
  · cases htold with
    | same | io => exact .inl ⟨⟨_, rfl⟩, rfl⟩
  · exact .inr ⟨n', l, h, hused, .inl ⟨htold.of_ok, hall⟩⟩
  · cases htold with
    | same | io => exact .inr ⟨n', l, h, hused, .inr ⟨⟨_, rfl⟩, hpart⟩⟩
  · cases htold with
    | same | io => exact .inl ⟨⟨_, rfl⟩, rfl⟩

namespace Volume

/-- What opening inode `x`, to be emptied if it is a file, leaves of `W`. -/
def OpenedAmid (W : World) (x : UInt32) (n : Node) (res : Except Stop Unit) (W' : World) : Prop :=
  ∃ W₁, Inode.EmptiedAmid W x n res W₁ ∧ W' = if res.isOk then W₁.opened x else W₁

/-- Emptying a file that has just been opened, which is closed again if that fails. -/
theorem truncate_partly (hK : K.faulty) (hF : K.Fits) (hW : W.Attended) (hn : W.pool.nodes x = some n) :
    Leads (Partly bad (Mounts K)) (W.opened x) (orUndo (Inode.clear ⟨x⟩) (Inode.close ⟨x⟩))
      (OpenedAmid W x n) := by
  -- Closing takes the opening back, so what has been emptied in `W.opened x` has been emptied in `W`.
  have hback {W' : World} {n' : Node} {l : List UInt32} (h : Inode.Emptied (W.opened x) x n l n' W') :
      Inode.Emptied W x n l n' ⟨W'.pool, W.opens⟩ ∧ W' = (⟨W'.pool, W.opens⟩ : World).opened x :=
    ⟨⟨⟨h.becomes.nodes, h.becomes.held, rfl⟩, h.isDirectory, h.size, h.byte, h.returned, h.used⟩,
      World.eq_opened h.becomes.opens⟩
  refine Leads.orUndo (Inode.clear_partly hK hF hn (W.opened_opens_self x)) (fun _ _ h => h.sober) ?_ ?_
  · rintro W' (⟨⟨e, he⟩, -⟩ | ⟨n', l, h, hused, ⟨-, hall⟩ | ⟨⟨e, he⟩, -⟩⟩)
    · cases he
    · obtain ⟨h₁, heq⟩ := hback h
      exact ⟨_, .inr ⟨n', l, h₁, hused, .inl ⟨rfl, hall⟩⟩, heq⟩
    · cases he
  · rintro e W' (⟨-, rfl⟩ | ⟨n', l, h, hused, ⟨he, -⟩ | ⟨-, hpart⟩⟩)
    · exact Yields.leads (close_partly hK hF hn (hW x)) ⟨rfl, W, .inl ⟨⟨e, rfl⟩, rfl⟩, rfl⟩
    · cases he
    · obtain ⟨h₁, heq⟩ := hback h
      rw [heq]
      exact Yields.leads (close_partly (W := ⟨W'.pool, W.opens⟩) hK hF h₁.becomes.node (hW x))
        ⟨rfl, _, .inr ⟨n', l, h₁, hused, .inr ⟨⟨e, rfl⟩, hpart⟩⟩, rfl⟩

/-- What opening a file to be emptied comes to where accesses may fail. Before anything is emptied the world is
`W₁`, in which all files are as they were; it is `W` unless the file may be created. -/
def EmptiesAmid (W : World) (x : UInt32) (create? : Bool) (res : Except Stop File) (W' : World) : Prop :=
  ∃ W₁, W.Spares W₁ ∧ (create? = false → W₁ = W) ∧
    (((∃ e, res = .error (.failed e)) ∧ W' = W₁) ∨
      ∃ y m, (create? = false → y = x) ∧ W₁.pool.nodes y = some m ∧
        ((m.record.isDirectory = true ∧ res = .ok (File.ofInode ⟨y⟩) ∧ W' = W₁.opened y) ∨
          ∃ r, m.record.isDirectory = false ∧ OpenedAmid W₁ y m r W' ∧ res = r.map fun _ => File.ofInode ⟨y⟩))

theorem openFile_partly {path cwd absolute : String} {mode : OpenMode} (hK : K.faulty) (hF : K.Fits)
    (hO : W.Ordered K T) (habs : Path.toAbsolute path cwd = .ok absolute) (hx : W.pool.find absolute = .ok x)
    (hname : NulFree (Path.leafPart absolute)) (hask : mode.truncate = true) :
    Leads (Partly bad (Mounts K)) W (openFile path cwd mode) (EmptiesAmid W x mode.create) := by
  unfold openFile
  refine Leads.bind (openOrCreate_partly hK hF hO habs hx mode.create hname) ?_ ?_
  swap
  · rintro e W' ⟨W₁, hspares, hsame, ⟨⟨e', he⟩, rfl⟩ | ⟨y, he, -⟩⟩
    · cases he
      exact ⟨W', hspares, hsame, .inl ⟨⟨e', rfl⟩, rfl⟩⟩
    · cases he
  rintro i W' ⟨W₁, hspares, hsame, ⟨⟨e, he⟩, -⟩ | ⟨y, hi, hy, hstored, rfl⟩⟩
  · cases he
  cases hi
  -- What has been opened may be a file that was created for it. It is emptied like any other.
  obtain ⟨m, hm⟩ := Option.ne_none_iff_exists'.1 hstored
  have hattended : W₁.Attended := fun z o ho => hO.attended z o (hspares.opens ▸ ho)
  refine Yields.bind (Yields.of_faithful hK (Inode.isDirectory_faithful _)
    (Inode.isDirectory_yields (W := W₁.opened y) hm (W₁.opened_opens_self y))) ?_
  rw [hask, Bool.true_and]
  cases hdir : m.record.isDirectory with
  | true => exact Leads.pure ⟨W₁, hspares, hsame, .inr ⟨y, m, hy, hm, .inl ⟨hdir, rfl, rfl⟩⟩⟩
  | false =>
    refine Leads.bind (truncate_partly hK hF hattended hm) ?_ ?_
    · intro u W' h
      exact Leads.pure ⟨W₁, hspares, hsame, .inr ⟨y, m, hy, hm, .inr ⟨.ok (), hdir, h, rfl⟩⟩⟩
    · intro e W' h
      exact ⟨W₁, hspares, hsame, .inr ⟨y, m, hy, hm, .inr ⟨.error e, hdir, h, rfl⟩⟩⟩

end Volume

end Emptying

namespace Client

/-! ## Writing -/

/-- The first `k` bytes of `data` are written over the contents of inode `x`, which were those of `n`, from
`offset` on. The contents reach as far as all of `data` would, with zeros where they did not reach before. -/
structure Overwrites (c : Client) (x : UInt32) (n : Node) (offset : Nat) (data : ByteArray) (k : Nat)
    (v : Volume) : Prop where
  count : k ≤ data.size
  fits : n.size < offset + data.size → offset + data.size ≤ maxFileSize
  changed : ∃ n', c.Changed x n' v ∧ n'.record.isDirectory = n.record.isDirectory ∧
    n'.size = max n.size (offset + data.size) ∧
    (∀ i, offset ≤ i → i < offset + k → n'.byte i = byteOf data (i - offset)) ∧
    ∀ i, i < offset ∨ offset + k ≤ i → n'.byte i = if i < n.size then n.byte i else 0
  free : v.disk.device.free + (totalBlocks (offset + data.size) - totalBlocks n.size) = c.device.free

/-- Writing has changed nothing, or as many bytes as it answers are written. -/
def Writes (c : Client) (x : UInt32) (n : Node) (offset : Nat) (data : ByteArray) (res : Except Stop Nat)
    (v : Volume) : Prop :=
  ((∃ e, res = .error (.failed e)) ∧ c.Unharmed v) ∨ ∃ k, res = .ok k ∧ c.Overwrites x n offset data k v

section Write

variable {K : Regime} {W W' : World} {T : Hierarchy} {c : Client} {v : Volume} {x : UInt32} {n n' : Node}
  {o : Opening} {offset k : Nat} {data : ByteArray} {bad : Nat → Prop}

/-- What is written over in the world is so for the client. -/
theorem Stands.overwrites (h : c.Stands K W T) (hf : ¬K.faulty) (hn : W.pool.nodes x = some n)
    (hb : W.Becomes x n' W') (hw : Inode.Wrote K.failing W n offset data k n' W')
    (hv : Partly bad (Mounts K.failing) W' v) : c.Overwrites x n offset data k v := by
  refine ⟨?_, fun hlong => hw.fits.resolve_left (Nat.not_le.2 hlong), ⟨n', h.changed hf hb (by simp [hn]) hv,
    hw.isDirectory, hw.size, fun i hle hlt => ?_, fun i hi => ?_⟩, ?_⟩
  · rcases hw.count with rfl | ⟨-, hle⟩
    · exact Nat.le_refl _
    · exact hle
  · rw [hw.byte, overwrite, if_pos ⟨hle, hlt⟩]
  · -- Outside of what has been written there is the old byte, which is zero behind the old end.
    rw [hw.byte, overwrite, if_neg (by omega)]
    split
    · rfl
    · exact (h.mounts.disk.sound.stored x n hn).tail i (by omega)
  · -- Writing has taken as many blocks as the longer contents need more.
    have hfree : K.free W'.pool.store.used + totalBlocks n'.size =
        K.free W.pool.store.used + totalBlocks n.size := hw.free
    have hdevice : v.disk.device.free = K.free W'.pool.store.used := (hv.calmed trivial).disk.free
    have hmono : totalBlocks n.size ≤ totalBlocks (max n.size (offset + data.size)) :=
      totalBlocks_mono (le_max_left _ _)
    rw [hw.size] at hfree
    rw [hdevice, h.mounts.disk.free, ← totalBlocks_max_sub]
    omega

/-- A write is refused, or as many bytes are written as it answers, whatever accesses fail. -/
theorem Stands.writes (h : c.Stands K W T) (hf : ¬K.faulty) (hn : W.pool.nodes x = some n)
    (ho : W.opens x = some o) (offset : Nat) (hdata : data.isEmpty = false) (f : Faults) :
    let (res, v) := outcome (Inode.write ⟨x⟩ offset data) (c.volume.under f)
    c.Writes x n offset data res v := by
  have hwrite : Leads (Partly f.spoils (Mounts K.failing)) W (Inode.write ⟨x⟩ offset data) _ :=
    Leads.of_faithful trivial (Inode.write_faithful ⟨x⟩ offset data)
      (Inode.write_leads h.fits.failing hn ho offset data)
  -- Writing is denied, or there is nothing to write, or something is written, or the write lies too far
  -- behind.
  obtain ⟨W', hv, r, htold, ⟨-, rfl, rfl⟩ | ⟨-, hempty, -⟩ | ⟨-, -, k, n', rfl, hbecomes, hwrote⟩ |
    ⟨-, -, -, e, rfl, hstays, -⟩⟩ := hwrite.comes (h.mounts.under f)
  · exact .inl ⟨htold.of_failed, h.unharmed hf rfl rfl (fun _ hi => hi) hv⟩
  · rw [hdata] at hempty
    cases hempty
  · exact .inr ⟨k, htold.of_ok, h.overwrites hf hn hbecomes hwrote hv⟩
  · exact .inl ⟨htold.of_failed, h.unharmed hf hstays.nodes hstays.opens hstays.leak.kept hv⟩

/-- Where no access fails, all bytes are written or none. -/
theorem Stands.writes_all (h : c.Stands K W T) (hf : ¬K.faulty) (hn : W.pool.nodes x = some n)
    (ho : W.opens x = some o) (offset : Nat) (hdata : data.isEmpty = false) {f : Faults} (hs : f.Silent) :
    ∀ k, (outcome (Inode.write ⟨x⟩ offset data) (c.volume.under f)).1 = .ok k → k = data.size := by
  -- Where nothing fails, the number of bytes can be smaller in no case.
  obtain ⟨W', -, ⟨-, hres, -⟩ | ⟨-, hempty, -⟩ | ⟨-, -, k, n', hres, -, hwrote⟩ | ⟨-, -, -, e, hres, -⟩⟩ :=
    (Inode.write_leads h.fits hn ho offset data).comes (h.mounts.under_silent hs)
  · rw [hres]
    exact nofun
  · rw [hdata] at hempty
    cases hempty
  · rw [hres]
    rintro _ ⟨⟩
    exact hwrote.count.resolve_right fun hno => hf hno.1
  · rw [hres]
    exact nofun

end Write

/-- Whatever accesses fail while bytes are written into an open inode: an error is reported and nothing has
changed, or as many bytes are written as is answered, and these are all of them where no access fails. -/
theorem writes_of_asked {c : Client} {x : UInt32} {e : OpenInode} (h : c.Asked)
    (hx : c.volume.registry[x]? = some e) (offset : Nat) {data : ByteArray} (hdata : data.isEmpty = false)
    (f : Faults) :
    ∃ n, c.pool.nodes x = some n ∧ n.record = e.record ∧
      let (res, v) := outcome (Inode.write ⟨x⟩ offset data) (c.volume.under f)
      c.Writes x n offset data res v ∧ (f.Silent → ∀ k, res = .ok k → k = data.size) := by
  obtain ⟨K, W, T, hf, ha⟩ := h.abides
  obtain ⟨o, n, ho, hn, rfl⟩ := ha.stands.entry_some hx
  exact ⟨n, ha.stands.node hn, rfl, ha.stands.writes hf hn ho offset hdata f,
    fun hs => ha.stands.writes_all hf hn ho offset hdata hs⟩

/-- Two blocks are written into an empty file where every write but the first six fails. -/
theorem writes_of_made : ∃ (c : Client) (x : UInt32) (e : OpenInode), c.Asked ∧
    c.volume.registry[x]? = some e ∧ (bytesFrom (fun _ => 7) 0 1024).isEmpty = false ∧
    ∃ n, c.pool.nodes x = some n ∧ n.record = e.record ∧
      let (res, v) := outcome (Inode.write ⟨x⟩ 0 (bytesFrom (fun _ => 7) 0 1024))
        (c.volume.under (.from none (some 6) [] []))
      c.Writes x n 0 (bytesFrom (fun _ => 7) 0 1024) res v ∧
        ((Faults.from none (some 6) [] []).Silent →
          ∀ k, res = .ok k → k = (bytesFrom (fun _ => 7) 0 1024).size) := by
  obtain ⟨-, c, W, -, T, x, -, -, -, hc, hs, hhandles⟩ := exists_made (Nat.zero_le 600)
  have hget : c.handles[0]? = some (.file (.ofInode ⟨x⟩)) := by rw [hhandles]; rfl
  obtain ⟨e, he⟩ := hs.entry_of_handle hget
  have hsize : (bytesFrom (fun _ => 7) 0 1024).isEmpty = false := by
    simp [ByteArray.isEmpty]
  exact ⟨c, x, e, hc, he, hsize, writes_of_asked hc he 0 hsize _⟩

/-! ## Emptying -/

/-- The contents of inode `x`, which was `n`, are gone, and of its blocks those of `l` are free. -/
structure Emptied (x : UInt32) (n : Node) (l : List UInt32) (v : Volume) : Prop where
  node : ∃ n', v.disk.device.pool.nodes x = some n' ∧ n'.record.isDirectory = n.record.isDirectory ∧
    n'.size = 0 ∧ (∀ i, n'.byte i = 0) ∧ ∀ e, v.registry[x]? = some e → e.record = n'.record
  returned : l.Subperm n.owned
  bit : ∀ b ∈ n.owned, SpaceMap.bit v.disk.device b.toNat = true ↔ b ∉ l

/-- The contents of inode `x` are gone, and nothing else has changed. -/
structure EmptiedAlone (c : Client) (x : UInt32) (n : Node) (l : List UInt32) (v : Volume) : Prop
    extends Emptied x n l v where
  others : ∀ y, c.Uses y → y ≠ x → v.disk.device.pool.nodes y = c.pool.nodes y
  registry : ∀ y : UInt32, y ≠ x → v.registry[y]? = c.volume.registry[y]?
  bits : ∀ b, b < c.device.blockCount →
    (SpaceMap.bit v.disk.device b = true ↔ SpaceMap.bit c.device b = true ∧ ∀ a ∈ l, a.toNat ≠ b)
  free : v.disk.device.free = c.device.free + l.length

/-- Emptying inode `x`, which answers `done`, has changed nothing and failed, or the contents are gone. It fails
then exactly if some of their blocks could not be given back. -/
def Empties {α : Type} (c : Client) (x : UInt32) (n : Node) (done : α) (res : Except Stop α) (v : Volume) : Prop :=
  ((∃ e, res = .error (.failed e)) ∧ c.Unharmed v) ∨
    ∃ l, c.EmptiedAlone x n l v ∧ ((res = .ok done ∧ l.length = totalBlocks n.size) ∨
      ((∃ e, res = .error (.failed e)) ∧ l.length < totalBlocks n.size))

/-- Inode `x` is as it was, or its contents are gone. A failure is reported then exactly if some of their blocks
could not be given back. -/
def SparesOrEmpties {α : Type} (x : UInt32) (n : Node) (res : Except Stop α) (v : Volume) : Prop :=
  v.disk.device.pool.nodes x = some n ∨
    ∃ l, Emptied x n l v ∧ (((∃ a, res = .ok a) ∧ l.length = totalBlocks n.size) ∨
      ((∃ e, res = .error (.failed e)) ∧ l.length < totalBlocks n.size))

section Empty

variable {K : Regime} {W W₁ W' : World} {T : Hierarchy} {c : Client} {v : Volume} {x : UInt32} {n n' : Node}
  {o : Opening} {l : List UInt32} {bad : Nat → Prop}

/-- What has been emptied in the world is so on the volume, also once the inode is open once more. -/
theorem emptied_of_world (hF : K.Fits) (h : Inode.Emptied W x n l n' W₁)
    (hused : ∀ b ∈ n.owned, W.pool.store.used b.toNat = true ∧ b.toNat < K.count)
    (hpool : W'.pool = W₁.pool) (hv : Partly bad (Mounts K.failing) W' v) : Emptied x n l v := by
  have hcalm := hv.calmed trivial
  have hn' : W'.pool.nodes x = some n' := by rw [hpool, h.becomes.node]
  refine ⟨⟨n', hv.node hF.failing hn', h.isDirectory, h.size, fun i => by rw [h.byte], fun e he => ?_⟩,
    h.returned, fun b hb => ?_⟩
  · have hentry : v.registry[x]? = W'.entry x := hcalm.registry x
    rw [hentry, World.entry, hn'] at he
    obtain ⟨o, -, he⟩ := Option.bind_eq_some_iff.1 he
    cases he
    rfl
  · have hbit : SpaceMap.bit v.disk.device b.toNat = W'.pool.store.used b.toNat :=
      hcalm.disk.bit (K := K.failing) (hused b hb).2
    rw [hbit, hpool, h.used]
    -- A block of the old contents is free exactly if it is one of those given back.
    by_cases hl : b ∈ l
    · simp [marked_of_mem hl, hl]
    · rw [marked_of_not_mem, (hused b hb).1]
      · simp [hl]
      · rintro a ha heq
        exact hl (UInt32.toNat_inj.1 heq ▸ ha)

theorem Stands.owned_used (h : c.Stands K W T) (hn : W.pool.nodes x = some n) {b : UInt32} (hb : b ∈ n.owned) :
    W.pool.store.used b.toNat = true ∧ b.toNat < K.count := by
  have harea := Pool.mem_area_blocks (Pool.mem_blocks_owned hn hb)
  exact ⟨h.mounts.disk.sound.used x b harea, h.mounts.disk.sound.mem_area_lt h.fits harea⟩

theorem Stands.emptiedAlone (h : c.Stands K W T) (hf : ¬K.faulty) (hn : W.pool.nodes x = some n)
    (he : Inode.Emptied W x n l n' W₁) (hpool : W'.pool = W₁.pool) (hopens : ∀ y, y ≠ x → W'.opens y = W.opens y)
    (hv : Partly bad (Mounts K.failing) W' v) : c.EmptiedAlone x n l v := by
  have hcalm := hv.calmed trivial
  have hnode (y : UInt32) (hy : y ≠ x) : W'.pool.nodes y = W.pool.nodes y := by
    rw [hpool, he.becomes.node_of_ne hy]
  refine ⟨emptied_of_world h.fits he (fun b hb => h.owned_used hn hb) hpool hv, fun y hy hne => ?_,
    fun y hne => ?_, fun b hb => ?_, ?_⟩
  · obtain ⟨m, hm⟩ := Option.ne_none_iff_exists'.1 ((h.uses_iff hf).1 hy)
    rw [h.node hm]
    exact hv.node h.fits.failing (by rw [hnode y hne, hm])
  · have hentry : v.registry[y]? = W'.entry y := hcalm.registry y
    rw [hentry, h.mounts.registry y, World.entry, World.entry, hopens y hne, hnode y hne]
  · have hcount : b < K.count := h.mounts.disk.shows.count ▸ hb
    have hbit : SpaceMap.bit v.disk.device b = W'.pool.store.used b :=
      hcalm.disk.bit (K := K.failing) hcount
    rw [hbit, h.mounts.disk.bit hcount, hpool, he.used]
    -- A block is free if it has just been given back, or if it was free before.
    by_cases hl : ∃ a ∈ l, a.toNat = b
    · obtain ⟨a, ha, rfl⟩ := hl
      rw [marked_of_mem ha]
      simpa using fun _ => ⟨a, ha, rfl⟩
    · push Not at hl
      rw [marked_of_not_mem hl]
      exact ⟨fun hb => ⟨hb, hl⟩, And.left⟩
  · have hdevice : v.disk.device.free = K.free W'.pool.store.used := hcalm.disk.free
    rw [hdevice, hpool, he.free h.fits h.mounts.disk.sound hn, h.mounts.disk.free]

/-- All blocks have been given back, or fewer than there were. -/
theorem length_lt_of_not_perm (hstored : n.owned.length = totalBlocks n.size) (hl : l.Subperm n.owned)
    (hno : ¬l.Perm n.owned) : l.length < totalBlocks n.size := by
  rw [← hstored]
  exact Nat.lt_of_le_of_ne hl.length_le fun heq => hno (hl.perm_of_length_le heq.ge)

/-- What emptying comes to in the world it comes to for the client. -/
theorem Stands.empties {α : Type} {done : α} {r : Except Stop Unit} {res : Except Stop α} (h : c.Stands K W T)
    (hf : ¬K.faulty) (hn : W.pool.nodes x = some n) (he : Inode.EmptiedAmid W x n r W₁)
    (hres : res = r.map fun _ => done) (hpool : W'.pool = W₁.pool) (hopens : ∀ y, y ≠ x → W'.opens y = W.opens y)
    (hsame : r ≠ .ok () → W'.opens = W.opens) (hv : Partly bad (Mounts K.failing) W' v) :
    c.Empties x n done res v := by
  have hlength := (h.mounts.disk.sound.stored x n hn).length_owned
  subst hres
  rcases he with ⟨⟨e, rfl⟩, rfl⟩ | ⟨n', l, he, -, ⟨rfl, hall⟩ | ⟨⟨e, rfl⟩, hpart⟩⟩
  · exact .inl ⟨⟨_, rfl⟩, h.unharmed hf (by rw [hpool]) (hsame nofun) (by rw [hpool]; exact fun _ hi => hi) hv⟩
  · exact .inr ⟨l, h.emptiedAlone hf hn he hpool hopens hv, .inl ⟨rfl, hall.length_eq.trans hlength⟩⟩
  · exact .inr ⟨l, h.emptiedAlone hf hn he hpool hopens hv,
      .inr ⟨⟨_, rfl⟩, length_lt_of_not_perm hlength he.returned hpart⟩⟩

theorem Stands.clears (h : c.Stands K W T) (hf : ¬K.faulty) (hn : W.pool.nodes x = some n)
    (ho : W.opens x = some o) (f : Faults) :
    let (res, v) := outcome (Inode.clear ⟨x⟩) (c.volume.under f)
    c.Empties x n () res v := by
  have hclear : Leads (Partly f.spoils (Mounts K.failing)) W (Inode.clear ⟨x⟩) (Inode.EmptiedAmid W x n) :=
    Inode.clear_partly trivial h.fits.failing hn ho
  obtain ⟨W', hv, he⟩ := hclear.comes (h.mounts.under f)
  have hopens := he.opens
  have hsame (r : Except Stop Unit) : r = r.map fun _ => () := by cases r <;> rfl
  exact h.empties hf hn he (hsame _) rfl (fun y _ => congrFun hopens y) (fun _ => hopens) hv

/-- What can be found at a path has a name that can be stored. -/
theorem nulFree_leaf {absolute : String} (h : c.Stands K W T) (hx : W.pool.find absolute = .ok x)
    (hn : W.pool.nodes x = some n) (hfile : n.record.isDirectory = false) : NulFree (Path.leafPart absolute) := by
  rw [Pool.find_eq] at hx
  -- The root is a directory, so the file is found by an entry, and the name of an entry holds no NUL.
  by_cases hroot : Path.isRoot absolute = true
  · rw [if_pos hroot] at hx
    cases hx
    obtain ⟨m, hm, hdir⟩ := Pool.isDirectory_node h.good.ordered.rooted.rootDirectory
    rw [hn] at hm
    cases hm
    rw [hfile] at hdir
    cases hdir
  · rw [if_neg hroot] at hx
    cases ht : W.pool.resolve rootInode (Path.components (Path.parentPart absolute)) with
    | error e =>
      rw [ht] at hx
      cases hx
    | ok t =>
      rw [ht] at hx
      cases hc : W.pool.child t (Path.leafPart absolute) with
      | none =>
        simp only [Except.bind, hc] at hx
        cases hx
      | some y =>
        obtain ⟨k, hk, hdir⟩ := Pool.isDirectory_node (Pool.isDirectory_of_child hc)
        rw [Pool.child_of_node hk hdir] at hc
        exact Node.nulFree_of_child hc

/-- What can be said of an inode after one like it may have been emptied. -/
theorem sparesOrEmpties_of_world {α : Type} {done : α} {y : UInt32} {m : Node} {r : Except Stop Unit}
    (hF : K.Fits) (hn : W.pool.nodes x = some n) (hm : W.pool.nodes y = some m)
    (hlength : n.owned.length = totalBlocks n.size) (hcount : ∀ b ∈ n.owned, b.toNat < K.count)
    (he : Inode.EmptiedAmid W y m r W₁) (hpool : W'.pool = W₁.pool)
    (hv : Partly bad (Mounts K.failing) W' v) : SparesOrEmpties x n (r.map fun _ => done) v := by
  have hkept (h : W₁.pool.nodes x = some n) : SparesOrEmpties x n (r.map fun _ => done) v :=
    .inl (hv.node hF.failing (by rw [hpool, h]))
  rcases he with ⟨-, rfl⟩ | ⟨m', l, he, hused, hres⟩
  · exact hkept hn
  · -- The one that has been emptied may be another inode, and then this one is as it was.
    by_cases hy : x = y
    · subst hy
      rw [hn] at hm
      cases hm
      refine .inr ⟨l, emptied_of_world hF he (fun b hb => ⟨hused b hb, hcount b hb⟩) hpool hv, ?_⟩
      rcases hres with ⟨rfl, hall⟩ | ⟨⟨e, rfl⟩, hpart⟩
      · exact .inl ⟨⟨done, rfl⟩, hall.length_eq.trans hlength⟩
      · exact .inr ⟨⟨_, rfl⟩, length_lt_of_not_perm hlength he.returned hpart⟩
    · exact hkept (by rw [he.becomes.node_of_ne hy, hn])

/-- Opening a file to be emptied empties it or leaves it as it was, whatever accesses fail. -/
theorem Stands.opensEmpty {path cwd absolute : String} {mode : Volume.OpenMode} (h : c.Stands K W T)
    (hf : ¬K.faulty) (habs : Path.toAbsolute path cwd = .ok absolute) (hx : W.pool.find absolute = .ok x)
    (hn : W.pool.nodes x = some n) (hfile : n.record.isDirectory = false) (hask : mode.truncate = true)
    (f : Faults) :
    let (res, v) := outcome (Volume.openFile path cwd mode) (c.volume.under f)
    SparesOrEmpties x n res v ∧ (mode.create = false → c.Empties x n (File.ofInode ⟨x⟩) res v) := by
  have hF := h.fits.failing
  -- Where accesses may fail, less is asked of an orderly world.
  have hO : W.Ordered K.failing T :=
    { h.good.ordered with
      dotted := fun hno => absurd trivial hno
      known := fun hno => absurd trivial hno }
  have hopen : Leads (Partly f.spoils (Mounts K.failing)) W (Volume.openFile path cwd mode)
      (Volume.EmptiesAmid W x mode.create) :=
    Volume.openFile_partly trivial hF hO habs hx (nulFree_leaf h hx hn hfile) hask
  obtain ⟨W', hv, W₁, hspares, hsame, hres⟩ := hopen.comes (h.mounts.under f)
  generalize outcome (Volume.openFile path cwd mode) (c.volume.under f) = p at hv hres
  obtain ⟨res, v⟩ := p
  dsimp only at hv hres ⊢
  have hn₁ := hspares.files x n hn hfile
  rcases hres with ⟨⟨e, rfl⟩, rfl⟩ | ⟨y, m, hy, hm, ⟨hdir, rfl, rfl⟩ | ⟨r, -, ⟨W₂, he, hW'⟩, rfl⟩⟩
  · refine ⟨.inl (hv.node hF hn₁), fun hcreate => ?_⟩
    cases hsame hcreate
    exact .inl ⟨⟨_, rfl⟩, h.unharmed hf rfl rfl (fun _ hi => hi) hv⟩
  · -- A directory is opened as it is. That cannot have been asked for by the path of `x`, which is a file.
    refine ⟨.inl (hv.node hF hn₁), fun hcreate => ?_⟩
    cases hsame hcreate
    cases hy hcreate
    rw [hn] at hm
    cases hm
    rw [hfile] at hdir
    cases hdir
  · have hpool : W'.pool = W₂.pool := by
      rw [hW']
      split <;> rfl
    refine ⟨sparesOrEmpties_of_world h.fits hn₁ hm (h.mounts.disk.sound.stored x n hn).length_owned
      (fun b hb => (h.owned_used hn hb).2) he hpool hv, fun hcreate => ?_⟩
    cases hsame hcreate
    cases hy hcreate
    rw [hn] at hm
    cases hm
    have hopens := he.opens
    refine h.empties hf hn he rfl hpool (fun z hz => ?_) (fun hno => ?_) hv
    · rw [hW']
      split
      · rw [World.opened_opens_of_ne _ hz, hopens]
      · rw [hopens]
    · cases r with
      | ok u => exact absurd rfl hno
      | error e => rw [hW', if_neg (by simp [Except.isOk, Except.toBool]), hopens]

end Empty

/-- Whatever accesses fail while an open inode is emptied, nothing has changed and a failure is reported, or the
contents are gone. A failure is reported then exactly if some of their blocks could not be given back. The same
holds of a file that is opened to be emptied. Should it be created if there is none, it may be taken for missing,
and it is emptied or left as it was. -/
theorem clears_of_asked {c : Client} (h : c.Asked) (f : Faults) :
    (∀ (x : UInt32) (e : OpenInode), c.volume.registry[x]? = some e →
      ∃ n, c.pool.nodes x = some n ∧ n.record = e.record ∧
        let (res, v) := outcome (Inode.clear ⟨x⟩) (c.volume.under f)
        c.Empties x n () res v) ∧
    ∀ (path cwd absolute : String) (x : UInt32) (n : Node) (mode : Volume.OpenMode),
      Path.toAbsolute path cwd = .ok absolute → c.pool.find absolute = .ok x → c.pool.nodes x = some n →
      n.record.isDirectory = false → mode.truncate = true →
        let (res, v) := outcome (Volume.openFile path cwd mode) (c.volume.under f)
        SparesOrEmpties x n res v ∧ (mode.create = false → c.Empties x n (File.ofInode ⟨x⟩) res v) := by
  obtain ⟨K, W, T, hf, ha⟩ := h.abides
  refine ⟨fun x e hx => ?_, fun path cwd absolute x n mode habs hx hn hfile hask => ?_⟩
  · obtain ⟨o, n, ho, hn, rfl⟩ := ha.stands.entry_some hx
    exact ⟨n, ha.stands.node hn, rfl, ha.stands.clears hf hn ho f⟩
  · -- What a path leads to is in the tree, so that the world has it as the device shows it.
    rw [ha.stands.find_eq] at hx
    have hl := Volume.linked_find ha.stands.good.ordered.rooted.walkable hx
    rw [ha.stands.nodes_linked hl] at hn
    exact ha.stands.opensEmpty hf habs hx hn hfile hask f

/-- A file of 600 bytes, where every write but the first fails, so that its blocks cannot all be given back. -/
theorem clears_of_made : ∃ (c : Client) (x : UInt32) (e : OpenInode) (n : Node), c.Asked ∧
    c.volume.registry[x]? = some e ∧ Path.toAbsolute "/a" "/" = .ok "/a" ∧ c.pool.find "/a" = .ok x ∧
    c.pool.nodes x = some n ∧ n.record.isDirectory = false ∧ n.size = 600 ∧
    (∃ n, c.pool.nodes x = some n ∧ n.record = e.record ∧
      let (res, v) := outcome (Inode.clear ⟨x⟩) (c.volume.under (.from none (some 1) [] []))
      c.Empties x n () res v) ∧
    let (res, v) := outcome (Volume.openFile "/a" "/" { truncate := true })
      (c.volume.under (.from none (some 1) [] []))
    SparesOrEmpties x n res v ∧ c.Empties x n (File.ofInode ⟨x⟩) res v := by
  obtain ⟨_, c, W, _, T, x, r, n, hfirst, hc, hs, hhandles⟩ := exists_made (Nat.le_refl 600)
  have hget : c.handles[0]? = some (.file (.ofInode ⟨x⟩)) := by rw [hhandles]; rfl
  obtain ⟨e, he⟩ := hs.entry_of_handle hget
  have hn : c.pool.nodes x = some n := hs.node hfirst.node
  have hfind : c.pool.find "/a" = .ok x := by rw [hs.find_eq, W.opened_pool, hfirst.find]
  have habs : Path.toAbsolute "/a" "/" = .ok "/a" := by decide
  -- The record is stored by the first write, and giving a block back is one of those that fail.
  have hclears := clears_of_asked hc (.from none (some 1) [] [])
  have hopens := hclears.2 "/a" "/" "/a" x n { truncate := true } habs hfind hn hfirst.kind rfl
  refine ⟨c, x, e, n, hc, he, habs, hfind, hn, hfirst.kind, (hfirst.file rfl).1, hclears.1 x e he, ?_⟩
  generalize outcome (Volume.openFile "/a" "/" { truncate := true })
    (c.volume.under (.from none (some 1) [] [])) = p at hopens ⊢
  exact ⟨hopens.1, hopens.2 rfl⟩

end Client

end InodeVolume
