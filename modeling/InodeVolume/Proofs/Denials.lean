import InodeVolume.Proofs.Entries

/-!
# Files whose writing is denied

While a denial of writing is in force for a regular file, no request changes its contents, through whatever
handle or path it is made: not one that writes or empties, not opening it to be emptied, not removing its
name, not closing other handles of it. There is one exception. Growing a file through one of its handles is
not refused, and makes it longer by zeros (`Client.denied_of_asked`).
-/

namespace InodeVolume

/-- `n'` is what growing makes of `n`: longer by zeros, or the same. -/
structure Node.GrownTo (n : Node) (target : Nat) (n' : Node) : Prop where
  isDirectory : n'.record.isDirectory = n.record.isDirectory
  byte : n'.byte = n.byte
  size : n'.size = max n.size target

namespace World

variable {K : Regime} {W W' : World} {T : Hierarchy} {x : UInt32} {n : Node} {o : Opening}

theorem exists_open_of_denials (hd : 0 < W.denials x) : ∃ o, W.opens x = some o ∧ 0 < o.denials := by
  cases ho : W.opens x with
  | none => simp [denials, ho] at hd
  | some o =>
    rw [denials_of_open ho] at hd
    exact ⟨o, rfl, hd⟩

/-- Opening changes nothing that is stored. -/
theorem Arrives.pool_eq {α : Type} {f : UInt32 → α} {r : Except Error UInt32} {res : Except Stop α}
    (h : W.Arrives f r res W') : W'.pool = W.pool := by
  cases r with
  | error e => rw [h.2]
  | ok y => rw [h.2, opened_pool]

/-! ## What changes the tree keeps regular files -/

/-- Creating changes a directory and what has not been stored. -/
theorem Added.keeps_file {absolute : String} {size : Nat} {isDirectory : Bool} {t b : UInt32} {nt n' m : Node}
    (ha : W.Added K T absolute size isDirectory t nt b n' m W') (hn : W.pool.nodes x = some n)
    (hfile : n.record.isDirectory = false) : W'.pool.nodes x = some n := by
  have hxt : x ≠ t := by
    rintro rfl
    rw [ha.creatable.node] at hn
    cases hn
    rw [ha.parent] at hfile
    cases hfile
  have hxb : x ≠ b := by
    rintro rfl
    rw [ha.created.fresh] at hn
    cases hn
  rw [ha.node_of_ne hxt hxb, hn]

/-- Removing changes a directory, and gives up only what is not open. -/
theorem Erased.keeps_file {absolute : String} {t y : UInt32} {nt m n' : Node}
    (he : W.Erased K T absolute t nt y m n' W') (hn : W.pool.nodes x = some n)
    (hfile : n.record.isDirectory = false) (ho : W.opens x = some o) : W'.pool.nodes x = some n := by
  -- The directory that was changed is no file.
  have hxt : x ≠ t := by
    rintro rfl
    rw [he.erasable.node] at hn
    cases hn
    rw [he.parent] at hfile
    cases hfile
  by_cases hxy : x = y
  · subst hxy
    rw [(he.unlinked.marked o ho).2.1, ← he.erasable.inode, hn]
  · rw [he.unlinked.others x hxt hxy, hn]

/-- An action that has failed changes directories only, where no write fails. -/
theorem Undone.keeps_file (hf : ¬K.faulty) (hu : W.Undone K T W') (hn : W.pool.nodes x = some n)
    (hfile : n.record.isDirectory = false) : W'.pool.nodes x = some n := by
  obtain ⟨-, hsame⟩ := hu.order.resolve_right fun hno => hf hno.1
  rcases hsame x with he | ⟨m, m', hm, -, hdir, -⟩
  · rw [he, hn]
  · rw [hm] at hn
    cases hn
    rw [hdir] at hfile
    cases hfile

end World

namespace Inode

variable {K : Regime} {W W' : World} {x id : UInt32} {n m : Node} {o : Opening}

/-! ## What works on one inode keeps others, and this one if it may not be written -/

theorem Writes.keeps_denied {offset : Nat} {data : ByteArray} {r : Except Stop Nat}
    (hw : Writes K W id m o offset data r W') (ho : W.opens id = some o) (hn : W.pool.nodes x = some n)
    (hd : 0 < W.denials x) : W'.pool.nodes x = some n := by
  have hne (hz : o.denials = 0) : x ≠ id := by
    rintro rfl
    rw [World.denials_of_open ho] at hd
    omega
  rcases hw with ⟨-, -, rfl⟩ | ⟨-, -, -, rfl⟩ | ⟨hz, -, k, n', -, hb, -⟩ | ⟨-, -, -, e, -, hs, -⟩
  · exact hn
  · exact hn
  · rw [hb.node_of_ne (hne hz), hn]
  · rw [hs.nodes, hn]

theorem Clears.keeps_denied {r : Except Stop Unit} (hc : Clears K W id m o r W') (ho : W.opens id = some o)
    (hn : W.pool.nodes x = some n) (hd : 0 < W.denials x) : W'.pool.nodes x = some n := by
  have hne (hz : o.denials = 0) : x ≠ id := by
    rintro rfl
    rw [World.denials_of_open ho] at hd
    omega
  rcases hc with ⟨-, -, rfl⟩ | ⟨hz, n', hb, -⟩ | ⟨-, -, -, rfl⟩
  · exact hn
  · rw [hb.node_of_ne (hne hz), hn]
  · exact hn

/-- What is open still after a close has not been given up. -/
theorem Closed.keeps_open (hc : Closed K W id o m W') (hn : W.pool.nodes x = some n)
    (hopen : W'.opens x ≠ none) : W'.pool.nodes x = some n := by
  -- Only the last close of an inode that has been removed gives something up, and it is not open any more
  -- then.
  by_cases hmore : 1 < o.openers
  · rw [hc.more hmore]
    exact hn
  · cases hremoved : o.removed with
    | false =>
      rw [hc.last (Nat.le_of_not_lt hmore) hremoved]
      exact hn
    | true =>
      obtain ⟨hopens, hnodes, -, -⟩ := hc.gone (Nat.le_of_not_lt hmore) hremoved
      have hne : x ≠ id := by
        rintro rfl
        rw [hopens, Function.update_self] at hopen
        exact hopen rfl
      rw [hnodes, Function.update_of_ne hne, hn]

end Inode

/-- Opening a file to be emptied is refused while its writing is denied. -/
theorem Volume.OpensFile.keeps_denied {K : Regime} {W W' : World} {T : Hierarchy} {path cwd : String}
    {mode : OpenMode} {r : Except Stop File} {x : UInt32} {n : Node} (hf : ¬K.faulty)
    (h : OpensFile K W T path cwd mode r W') (hn : W.pool.nodes x = some n)
    (hfile : n.record.isDirectory = false) (hd : 0 < W.denials x) : W'.pool.nodes x = some n := by
  rcases h with ⟨y, W₁, T₁, W₂, -, hopens, htruncates, -, rfl⟩ | ⟨-, hu⟩
  · -- Finding or making the file leaves others alone. What is emptied after that is another file, as this
    -- one may not be written.
    have hn₁ : W₁.pool.nodes x = some n := by
      cases hopens with
      | found _ _ => exact hn
      | made _ _ _ ha => exact ha.keeps_file hn hfile
    cases htruncates with
    | kept _ _ => exact hn₁
    | emptied _ allowed _ _ hb _ _ _ =>
      have hne : x ≠ y := by
        rintro rfl
        rw [World.denials, hopens.opens] at allowed
        exact absurd allowed (Nat.pos_iff_ne_zero.1 hd)
      show W₂.pool.nodes x = some n
      rw [hb.node_of_ne hne, hn₁]
  · exact hu.keeps_file hf hn hfile

/-! ## Every request -/

namespace Call

variable {K : Regime} {W W' : World} {T : Hierarchy} {handles : List Handle} {q : Call} {x : UInt32}
  {n : Node} {res : Except Stop (Answer × List Handle)}

/-- The call is to grow `x` to `target` bytes, through one of its handles. -/
def Grows (handles : List Handle) (x : UInt32) (target : Nat) (q : Call) : Prop :=
  ∃ i y, q = .grow i target ∧ handles[i]? = some y ∧ y.target.number = x

/-- A call leaves a file as it is whose writing is denied before and after, but for growing it. -/
theorem Comes.keeps_denied (hf : ¬K.faulty) (hc : q.Comes K W T handles res W')
    (hn : W.pool.nodes x = some n) (hfile : n.record.isDirectory = false) (hd : 0 < W.denials x)
    (hd' : 0 < W'.denials x) : W'.pool.nodes x = some n ∨
      ∃ target n', q.Grows handles x target ∧ W'.pool.nodes x = some n' ∧ n.GrownTo target n' := by
  obtain ⟨o', ho', -⟩ := World.exists_open_of_denials hd'
  -- What changes the tree keeps files that are open. What works on one inode is refused if that is `x`, but
  -- for growing.
  cases q with
  | create path cwd size isDirectory =>
    obtain ⟨r, ⟨-, absolute, t, nt, b, n', m, -, ha⟩ | ⟨-, -, hu⟩, -⟩ := hc
    · exact .inl (ha.keeps_file hn hfile)
    · exact .inl (hu.keeps_file hf hn hfile)
  | remove path cwd =>
    obtain ⟨o, ho, -⟩ := World.exists_open_of_denials hd
    obtain ⟨r, ⟨-, absolute, t, nt, y, m, n', -, he⟩ | ⟨-, -, hu⟩, -⟩ := hc
    · exact .inl (he.keeps_file hn hfile ho)
    · exact .inl (hu.keeps_file hf hn hfile)
  | changeDirectory path cwd =>
    rw [hc.2]
    exact .inl hn
  | openInode path cwd | openDirectory path cwd =>
    rw [hc.pool_eq]
    exact .inl hn
  | openFile path cwd mode =>
    obtain ⟨r, hr, -⟩ := hc
    exact .inl (hr.keeps_denied hf hn hfile hd)
  | close i =>
    rcases hc with ⟨-, -, rfl⟩ | ⟨y, m, o, -, -, -, -, hclosed⟩
    · exact .inl hn
    · exact .inl (hclosed.keeps_open hn (by simp [ho']))
  | reopen i =>
    rcases hc with ⟨-, -, rfl⟩ | ⟨y, m, o, -, -, -, -, rfl⟩ <;> exact .inl hn
  | readAt i offset count =>
    rcases hc with ⟨-, -, rfl⟩ | ⟨y, m, o, -, -, -, -, rfl⟩ <;> exact .inl hn
  | writeAt i offset data =>
    rcases hc with ⟨-, -, rfl⟩ | ⟨y, m, o, -, -, ho, r, hr, -⟩
    · exact .inl hn
    · exact .inl (hr.keeps_denied ho hn hd)
  | grow i target =>
    rcases hc with ⟨-, -, rfl⟩ | ⟨y, m, o, hy, hm, ho, r, ⟨n', -, hb, hgrown⟩ | ⟨e, -, hs, -⟩, -⟩
    · exact .inl hn
    · by_cases hxy : x = y.target.number
      · -- Growing does not ask whether writing is denied.
        subst hxy
        rw [hm] at hn
        cases hn
        exact .inr ⟨target, n', ⟨i, y, rfl, hy, rfl⟩, hb.node, hgrown.isDirectory, hgrown.byte, hgrown.size⟩
      · rw [hb.node_of_ne hxy]
        exact .inl hn
    · rw [hs.nodes]
      exact .inl hn
  | clear i =>
    rcases hc with ⟨-, -, rfl⟩ | ⟨y, m, o, -, -, ho, r, hr, -⟩
    · exact .inl hn
    · exact .inl (hr.keeps_denied ho hn hd)
  | write i data =>
    rcases hc with ⟨-, -, rfl⟩ | ⟨y, m, o, -, -, ho, ⟨f, rfl, r, hr, -⟩ | ⟨-, -, rfl⟩⟩
    · exact .inl hn
    · exact .inl (hr.keeps_denied ho hn hd)
    · exact .inl hn
  | read i count | seek i position | denyWrite i | allowWrite i =>
    rcases hc with ⟨-, -, rfl⟩ | ⟨y, m, o, -, -, -, ⟨f, -, -, rfl⟩ | ⟨-, -, rfl⟩⟩ <;> exact .inl hn

end Call

namespace Request

variable {K : Regime} {W W' : World} {T : Hierarchy} {handles : List Handle} {r : Request} {x : UInt32}
  {n : Node} {res : Except Stop (Response × List Handle)}

/-- The request is to grow `x` to `target` bytes, through one of its handles. -/
def Grows (handles : List Handle) (x : UInt32) (target : Nat) (r : Request) : Prop :=
  ∃ q, r = .call q ∧ q.Grows handles x target

/-- A request leaves a file as it is whose writing is denied before and after, but for growing it. -/
theorem Comes.keeps_denied (hf : ¬K.faulty) (hc : r.Comes K W T handles res W')
    (hn : W.pool.nodes x = some n) (hfile : n.record.isDirectory = false) (hd : 0 < W.denials x)
    (hd' : 0 < W'.denials x) : W'.pool.nodes x = some n ∨
      ∃ target n', r.Grows handles x target ∧ W'.pool.nodes x = some n' ∧ n.GrownTo target n' := by
  cases r with
  | call q =>
    obtain ⟨r, hr, -⟩ := hc
    rcases hr.keeps_denied hf hn hfile hd hd' with hkept | ⟨target, n', hgrows, hgrown⟩
    · exact .inl hkept
    · exact .inr ⟨target, n', ⟨q, rfl, hgrows⟩, hgrown⟩
  | lookup i name =>
    rcases hc with ⟨-, -, rfl⟩ | ⟨d, -, -, rfl⟩ <;> exact .inl hn
  | openEntry i name =>
    rcases hc with ⟨-, -, rfl⟩ | ⟨d, -, ha⟩
    · exact .inl hn
    · rw [ha.pool_eq]
      exact .inl hn
  | readNext i =>
    rcases hc with ⟨-, -, rfl⟩ | ⟨d, -, -, rfl⟩ <;> exact .inl hn
  | asDirectory i =>
    rcases hc with ⟨-, -, rfl⟩ | ⟨y, -, ⟨-, -, rfl⟩ | ⟨-, hclosed⟩⟩
    · exact .inl hn
    · exact .inl hn
    · -- A handle of a file is closed, which is no growing.
      rcases hclosed.keeps_denied hf hn hfile hd hd' with hkept | ⟨target, n', ⟨j, y, hno, -⟩, -⟩
      · exact .inl hkept
      · cases hno

end Request

namespace Client

variable {c c' : Client} {x : UInt32} {n : Node}

/-- The next request of `c` leaves inode `x` as it is, which is `n`, as long as its writing is denied. Only
one to grow it does not. -/
def Spares (c : Client) (x : UInt32) (n : Node) : Prop :=
  ∀ r, c.Permits r → 0 < (c.ask r).2.denials x → (c.ask r).2.pool.nodes x = some n ∨
    ∃ target n', r.Grows c.handles x target ∧ (c.ask r).2.pool.nodes x = some n' ∧ n.GrownTo target n'

theorem Abides.spares {K : Regime} {W : World} {T : Hierarchy} (ha : c.Abides K W T) (hf : ¬K.faulty)
    (hn : c.pool.nodes x = some n) (hfile : n.record.isDirectory = false) (hd : 0 < c.denials x) :
    c.Spares x n := by
  intro r hr hd'
  obtain ⟨res, W', T', hcomes, -, -, -, ha'⟩ := ha.ask hf hr
  rw [← ha.stands.denials_eq] at hd
  rw [← ha'.stands.denials_eq] at hd'
  -- What is open is stored, so the world has the inode as the device shows it.
  have hstored : W.pool.nodes x ≠ none := by
    obtain ⟨o, ho, -⟩ := World.exists_open_of_denials hd
    exact ha.stands.mounts.live x (by simp [ho])
  rw [ha.stands.nodes_eq hstored] at hn
  rcases hcomes.keeps_denied hf hn hfile hd hd' with hkept | ⟨target, n', hgrows, hn', hgrown⟩
  · exact .inl (ha'.stands.node hkept)
  · exact .inr ⟨target, n', hgrows, ha'.stands.node hn', hgrown⟩

/-- A file has been made in the root of a new device of eight blocks, and is open. -/
theorem exists_made {size : Nat} (hsize : size ≤ 600) :
    ∃ (c₁ c : Client) (W : World) (T₁ T : Hierarchy) (x : UInt32) (r n : Node),
      First ⟨8, False⟩ "/a" size false c₁ W T₁ x r n ∧ c.Asked ∧ c.Stands ⟨8, False⟩ (W.opened x) T ∧
        c.handles = [.file (.ofInode ⟨x⟩)] := by
  have hfits : Regime.Fits ⟨8, False⟩ := ⟨by decide, by decide⟩
  have hpath : NulFree "/a" := by decide
  have habs : Path.toAbsolute "/a" "/" = .ok "/a" := by decide
  have hblocks : Record.totalBlocks size ≤ 2 := (Record.totalBlocks_mono hsize).trans (by decide)
  have hstart : Regime.dataStart ⟨8, False⟩ = 2 := by decide
  obtain ⟨c₁, W, T₁, x, r, n, hfirst⟩ := exists_first size false hfits hpath habs (by decide) (by decide)
    (by decide) (by decide) (by decide) (fun _ => hsize.trans (by decide)) (by simp; omega)
  obtain ⟨c₀, hstarts, hrun⟩ := hfirst.run
  obtain ⟨c, T, hopen, hhandles, hs⟩ := hfirst.stands.does_openFile id hpath (by decide) habs hfirst.find
  refine ⟨c₁, c, W, T₁, T, x, r, n, hfirst, (hstarts.asked.runs hrun).next hopen, hs, ?_⟩
  rw [hhandles, hfirst.handles, List.nil_append]

/-- A file of 600 bytes can be kept from being written. -/
theorem exists_denying : ∃ (c₁ c : Client) (W₁ W : World) (T₁ T : Hierarchy) (x : UInt32) (r n : Node),
    First ⟨8, False⟩ "/a" 600 false c₁ W₁ T₁ x r n ∧ c.Asked ∧ c.Stands ⟨8, False⟩ W T ∧
      W.pool = W₁.pool ∧ c.handles = [.file { inode := ⟨x⟩, denying := true }] := by
  obtain ⟨c₁, c, W, T₁, T, x, r, n, hfirst, hc, hs, hhandles⟩ := exists_made (Nat.le_refl 600)
  have hget : c.handles[0]? = some (.file (.ofInode ⟨x⟩)) := by rw [hhandles]; rfl
  obtain ⟨c', W', T', hdeny, hhandles', hs', hpool⟩ := hs.does_denyWrite hget
  rw [hhandles] at hhandles'
  exact ⟨c₁, c', W, W', T₁, T', x, r, n, hfirst, hc.next hdeny, hs', hpool.trans (W.opened_pool x), hhandles'⟩

/-- While a regular file denies writing its bytes stay what they are, and so does its length but for requests
to grow it, which are not refused and add zeros. -/
theorem denied_of_asked (h : c.Asked) (hn : c.pool.nodes x = some n) (hfile : n.record.isDirectory = false)
    (hr : Asks (fun c => 0 < c.denials x) c c') :
    ∃ n', c'.pool.nodes x = some n' ∧ n'.record.isDirectory = false ∧ n'.byte = n.byte ∧ n.size ≤ n'.size ∧
      c'.Spares x n' := by
  obtain ⟨K, W, T, hf, ha⟩ := h.abides
  -- By induction on the run. Each request leaves the file as it is or grows it, and the next one starts
  -- from what the last one has left.
  induction hr with
  | start hd => exact ⟨n, hn, hfile, rfl, Nat.le_refl _, ha.spares hf hn hfile hd⟩
  | ask run r permitted hd ih =>
    obtain ⟨n₁, hn₁, hfile₁, hbyte₁, hsize₁, hspares⟩ := ih
    obtain ⟨W₁, T₁, ha₁⟩ := run.abides hf ha
    obtain ⟨-, W₂, T₂, -, -, -, -, ha₂⟩ := ha₁.ask hf permitted
    rcases hspares r permitted hd with hkept | ⟨target, n₂, -, hn₂, hgrown⟩
    · exact ⟨n₁, hkept, hfile₁, hbyte₁, hsize₁, ha₂.spares hf hkept hfile₁ hd⟩
    · have hfile₂ := hgrown.isDirectory.trans hfile₁
      refine ⟨n₂, hn₂, hfile₂, hgrown.byte.trans hbyte₁, ?_, ha₂.spares hf hn₂ hfile₂ hd⟩
      rw [hgrown.size]
      exact Nat.le_trans hsize₁ (Nat.le_max_left ..)

/-- A file of 600 bytes denies writing. Then writing is refused, and growing is not. -/
theorem denied_of_made : ∃ (c c₁ c' : Client) (x : UInt32) (n : Node), c.Asked ∧ c.pool.nodes x = some n ∧
    n.record.isDirectory = false ∧ n.size = 600 ∧
    c.Does (.writeAt 0 0 ⟨#[1]⟩) (.error (.failed .writeDenied)) c₁ ∧ c₁.Does (.grow 0 1100) (.ok .done) c' ∧
    Asks (fun c => 0 < c.denials x) c c' ∧ ∃ n', c'.pool.nodes x = some n' ∧ n'.size = 1100 ∧
      n'.record.isDirectory = false ∧ n'.byte = n.byte ∧ n.size ≤ n'.size ∧ c'.Spares x n' := by
  obtain ⟨_, c, W₁, W, _, T, x, r, n, hfirst, hc, hs, hpool, hhandles⟩ := exists_denying
  -- The handle, and that it denies writing, is the same all along.
  have hdenies {c' : Client} (h : c'.handles = [.file { inode := ⟨x⟩, denying := true }]) :
      c'.handles[0]? = some (.file { inode := ⟨x⟩, denying := true }) ∧ 0 < c'.denials x := by
    rw [Client.denials, h]
    exact ⟨rfl, by simp [Handle.target, Handle.denies]⟩
  have hn : W.pool.nodes x = some n := by rw [hpool, hfirst.node]
  have hsize : n.size = 600 := (hfirst.file rfl).1
  obtain ⟨c₁, T', hwrite, hhandles₁, hs₁⟩ := hs.does_refuse (hdenies hhandles).1 hn hfirst.kind
    (hs.denials_eq ▸ (hdenies hhandles).2) 0 ⟨#[1]⟩
  rw [hhandles] at hhandles₁
  have hspace : Record.totalBlocks 1100 - Record.totalBlocks n.size ≤ Regime.free ⟨8, False⟩ W.pool.store.used := by
    have hspace := hfirst.space
    have hstart : Regime.dataStart ⟨8, False⟩ = 2 := by decide
    have htwo : Record.totalBlocks 600 = 2 := by decide
    have hthree : Record.totalBlocks 1100 = 3 := by decide
    rw [hpool, hsize]
    simp only [Bool.false_eq_true, if_false, htwo, hthree] at hspace ⊢
    omega
  obtain ⟨c', W', T'', hgrow, hhandles', hs', n', hbecomes, hgrown⟩ :=
    hs₁.does_grow id (hdenies hhandles₁).1 hn hfirst.kind (by decide) hspace
  rw [hhandles₁] at hhandles'
  have hr : Asks (fun c => 0 < c.denials x) c c' :=
    ((Asks.start (hdenies hhandles).2).next hwrite (hdenies hhandles₁).2).next hgrow (hdenies hhandles').2
  obtain ⟨m, hm, hdenied⟩ := denied_of_asked hc (hs.node hn) hfirst.kind hr
  obtain rfl := Option.some.inj (hm.symm.trans (hs'.node hbecomes.node))
  exact ⟨c, c₁, c', x, n, hc, hs.node hn, hfirst.kind, hsize, hwrite, hgrow, hr, m, hm, by
    rw [hgrown.size, hsize]; decide, hdenied⟩

end Client

end InodeVolume
