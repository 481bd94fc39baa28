import InodeVolume.Proofs.AbsolutePaths
import InodeVolume.Proofs.Runs

/-!
# Calls that succeed

What is said of a call (`Call.Comes`) leaves open which of its cases comes about. Here it is settled for calls
whose conditions are met, on a volume none of whose accesses fail: what each answers, and which world it leaves
(`Client.Stands.does_create` and the like). Runs with known answers are put together from such calls, one after
the other (`Client.Runs.next`).

On a new device something can be created in the root, whatever its name is (`Client.exists_first`). What is
there then is known in full (`Client.First`), and other runs go on from it.
-/

namespace InodeVolume

open Record

/-- A directory whose table leaves a slot of its first block free has room for a name if there are two blocks
to spare. -/
theorem Volume.Room.of_short {K : Regime} {P : Pool} {n : Node} {denials size : Nat} {name : String}
    {isDirectory : Bool} (hnew : n.child name = none) (hwritable : denials = 0)
    (hsmall : isDirectory = false → size ≤ maxFileSize) (hshort : n.size + slotSize ≤ blockSize)
    (hspace : 2 + (if isDirectory then 1 else totalBlocks size) ≤ K.free P.store.used) :
    Volume.Room K P n denials name size isDirectory := by
  refine ⟨hnew, hwritable, hsmall, ?_, ?_⟩
  · have hend := (Nat.add_le_add_right n.vacant_mul_le slotSize).trans hshort
    exact hend.trans (by decide)
  · have hone : totalBlocks blockSize = 1 := by decide
    have hgain := n.gain_le.trans (totalBlocks_mono hshort)
    omega

/-- A directory that a path leads to is where all its components lead. -/
theorem Pool.resolve_of_find {P : Pool} {path : String} {x : UInt32} (hbelow : Path.isRoot path = false)
    (hnamed : Path.leafPart path ≠ "") (hx : P.find path = .ok x) (hdir : P.isDirectory x = true) :
    P.resolve rootInode (Path.components path) = .ok x := by
  rw [Pool.find_eq, if_neg (by simp [hbelow])] at hx
  -- The leaf is looked up in the directory that the parent leads to, which is the last step of the walk.
  rw [Path.components_leaf hnamed, Pool.resolve_concat_iff]
  cases ht : P.resolve rootInode (Path.components (Path.parentPart path)) with
  | error e =>
    rw [ht] at hx
    cases hx
  | ok t =>
    refine ⟨t, rfl, ?_, hdir⟩
    simp only [ht, Except.bind] at hx
    cases hc : P.child t (Path.leafPart path) with
    | none =>
      rw [hc] at hx
      cases hx
    | some y =>
      rw [hc] at hx
      cases hx
      rfl

/-- A file in the root can be removed. -/
theorem Pool.erasable_of_root {P : Pool} {denials : UInt32 → Nat} {path : String} {x : UInt32} {r m : Node}
    (hbelow : Path.isRoot path = false) (hparent : Path.parentPart path = "/")
    (hdot : isDotName (Path.leafPart path) = false) (hr : P.nodes rootInode = some r)
    (hx : r.child (Path.leafPart path) = some x) (hm : P.nodes x = some m) (hfile : m.record.isDirectory = false)
    (hd : denials rootInode = 0) : P.Erasable denials path rootInode r x m := by
  refine ⟨hbelow, ?_, hr, hm, hdot, hx, fun hbusy => ?_, hd⟩
  · rw [hparent, Path.components_root, Pool.resolve_nil]
  · rw [hfile] at hbusy
    cases hbusy.1

/-! ## What a call on a handle comes to -/

namespace World

variable {W W' : World} {handles : List Handle} {i : Nat} {x : Handle} {f : File} {n : Node} {o : Opening}
  {res : Except Stop (Answer × List Handle)}

/-- There is a handle, and it is known of which inode it is. -/
theorem OnHandle.there {P : Handle → Node → Opening → Except Stop (Answer × List Handle) → World → Prop}
    (h : W.OnHandle handles i P res W') (hx : handles[i]? = some x)
    (hn : W.pool.nodes x.target.number = some n) (ho : W.opens x.target.number = some o) : P x n o res W' := by
  rcases h with ⟨hnone, -⟩ | ⟨y, m, p, hy, hm, hp, h⟩
  · rw [hx] at hnone
    cases hnone
  · obtain rfl := Option.some.inj (hx.symm.trans hy)
    obtain rfl := Option.some.inj (hn.symm.trans hm)
    obtain rfl := Option.some.inj (ho.symm.trans hp)
    exact h

/-- There is a handle of a file, and it is known of which inode it is. -/
theorem OnFile.there {P : File → Node → Opening → Except Stop (Answer × List Handle) → World → Prop}
    (h : W.OnFile handles i P res W') (hx : handles[i]? = some (.file f))
    (hn : W.pool.nodes f.inode.number = some n) (ho : W.opens f.inode.number = some o) : P f n o res W' := by
  rcases OnHandle.there h hx hn ho with ⟨g, hg, h⟩ | ⟨hno, -⟩
  · cases hg
    exact h
  · exact absurd rfl (hno f)

end World

namespace Client

variable {K : Regime} {W : World} {T : Hierarchy} {c c' c'' : Client} {q : Call} {a : Except Stop Answer}
  {path cwd absolute : String} {size i : Nat} {isDirectory : Bool} {t x : UInt32} {n m : Node}
  {y : Handle} {f : File} {o : Opening}

/-- The client may make this call, is answered `a`, and is `c'` then. -/
structure Does (c : Client) (q : Call) (a : Except Stop Answer) (c' : Client) : Prop where
  allowed : c.Allows q
  step : c.step q = (a, c')

/-- A run that begins with a call whose answer is known. -/
theorem Runs.next {l : List (Call × Except Stop Answer)} (h : c.Does q a c') (hr : Runs c' l c'') :
    Runs c ((q, a) :: l) c'' := by
  have hrest : Runs (c.step q).2 l c'' := by rwa [h.step]
  have hrun := Runs.cons q h.allowed hrest
  rwa [h.step] at hrun

/-- One run after another. -/
theorem Runs.append {l l' : List (Call × Except Stop Answer)} (h : Runs c l c') (h' : Runs c' l' c'') :
    Runs c (l ++ l') c'' := by
  induction h with
  | nil c => exact h'
  | cons q allowed rest ih => exact .cons q allowed (ih h')

/-- A call does what all its cases have in common. -/
theorem Stands.does (h : c.Stands K W T) (hq : c.Allows q) {handles : List Handle} {P : World → Prop}
    (hcomes : ∀ res W', q.Comes K W T c.handles res W' →
      res.map Prod.fst = a ∧ Call.kept c.handles res = handles ∧ P W') :
    ∃ c' W' T', c.Does q a c' ∧ c'.handles = handles ∧ c'.Stands K W' T' ∧ P W' := by
  obtain ⟨res, W', T', hres, hanswer, hkept, hs⟩ := h.step hq
  obtain ⟨ha, hhandles, hP⟩ := hcomes res W' hres
  exact ⟨_, W', T', ⟨hq, Prod.ext (hanswer.trans ha) rfl⟩, hkept.trans hhandles, hs, hP⟩

/-- A call that leaves the world as it is, but perhaps for one more opening. -/
theorem Stands.does_leaving (h : c.Stands K W T) (hq : c.Allows q) {handles : List Handle} {W' : World}
    (hcomes : ∀ res W'', q.Comes K W T c.handles res W'' →
      res.map Prod.fst = a ∧ Call.kept c.handles res = handles ∧ W'' = W') :
    ∃ c' T', c.Does q a c' ∧ c'.handles = handles ∧ c'.Stands K W' T' := by
  obtain ⟨c', W'', T', hdoes, hhandles, hs, rfl⟩ := h.does hq hcomes
  exact ⟨c', T', hdoes, hhandles, hs⟩

/-! ## Calls on paths -/

/-- What can be created is created. -/
theorem Stands.does_create (h : c.Stands K W T) (hf : ¬K.faulty) (hpath : NulFree path) (hcwd : NulFree cwd)
    (habs : Path.toAbsolute path cwd = .ok absolute)
    (hcreatable : W.pool.Creatable K W.denials absolute size isDirectory t n) :
    ∃ c' W' T', c.Does (.create path cwd size isDirectory) (.ok .done) c' ∧ c'.handles = c.handles ∧
      c'.Stands K W' T' ∧ ∃ b n' m, W.Added K T absolute size isDirectory t n b n' m W' := by
  have hq : c.Allows (.create path cwd size isDirectory) := ⟨⟨hpath, hcwd⟩, nofun⟩
  refine h.does hq ?_
  rintro res W' ⟨r, ⟨rfl, absolute', t', n₀, b, n', m, habs', ha⟩ | ⟨hwhy, -⟩, rfl⟩
  · obtain ⟨rfl, rfl, rfl⟩ := Volume.parent_unique habs hcreatable.parent hcreatable.node habs'
      ha.creatable.parent ha.creatable.node
    exact ⟨rfl, rfl, b, n', m, ha⟩
  · exact absurd hcreatable (hwhy.resolve_left hf absolute t n habs)

/-- What can be removed is removed. -/
theorem Stands.does_remove (h : c.Stands K W T) (hf : ¬K.faulty) (hpath : NulFree path) (hcwd : NulFree cwd)
    (habs : Path.toAbsolute path cwd = .ok absolute) (herasable : W.pool.Erasable W.denials absolute t n x m) :
    ∃ c' W' T', c.Does (.remove path cwd) (.ok .done) c' ∧ c'.handles = c.handles ∧ c'.Stands K W' T' := by
  have hq : c.Allows (.remove path cwd) := ⟨⟨hpath, hcwd⟩, nofun⟩
  have hcomes (res : Except Stop (Answer × List Handle)) (W' : World)
      (h : Call.Comes K W T c.handles (.remove path cwd) res W') :
      res.map Prod.fst = .ok .done ∧ Call.kept c.handles res = c.handles ∧ True := by
    obtain ⟨r, ⟨rfl, -⟩ | ⟨hwhy, -⟩, rfl⟩ := h
    · exact ⟨rfl, rfl, trivial⟩
    · exact absurd herasable (hwhy.resolve_left hf absolute t n x m habs)
  obtain ⟨c', W', T', hdoes, hhandles, hs, -⟩ := h.does hq hcomes
  exact ⟨c', W', T', hdoes, hhandles, hs⟩

/-- What a path leads to is opened. -/
theorem Stands.does_openInode (h : c.Stands K W T) (hpath : NulFree path) (hcwd : NulFree cwd)
    (habs : Path.toAbsolute path cwd = .ok absolute) (hx : W.pool.find absolute = .ok x) :
    ∃ c' T', c.Does (.openInode path cwd) (.ok .done) c' ∧ c'.handles = c.handles ++ [.inode ⟨x⟩] ∧
      c'.Stands K (W.opened x) T' := by
  have hq : c.Allows (.openInode path cwd) := ⟨⟨hpath, hcwd⟩, nofun⟩
  refine h.does_leaving hq fun res W' hcomes => ?_
  simp only [Call.Comes, habs, Except.bind, hx] at hcomes
  obtain ⟨rfl, rfl⟩ := hcomes
  exact ⟨rfl, rfl, rfl⟩

/-- The directory that a path leads to is opened. -/
theorem Stands.does_openDirectory (h : c.Stands K W T) (hpath : NulFree path) (hcwd : NulFree cwd)
    (habs : Path.toAbsolute path cwd = .ok absolute)
    (hx : W.pool.resolve rootInode (Path.components absolute) = .ok x) :
    ∃ c' T', c.Does (.openDirectory path cwd) (.ok .done) c' ∧
      c'.handles = c.handles ++ [.directory (directoryAt x)] ∧ c'.Stands K (W.opened x) T' := by
  have hq : c.Allows (.openDirectory path cwd) := ⟨⟨hpath, hcwd⟩, nofun⟩
  refine h.does_leaving hq fun res W' hcomes => ?_
  simp only [Call.Comes, habs, Except.bind, hx] at hcomes
  obtain ⟨rfl, rfl⟩ := hcomes
  exact ⟨rfl, rfl, rfl⟩

/-- The root is always there to be opened. -/
theorem Stands.does_openRoot (h : c.Stands K W T) : ∃ c' T', c.Does (.openDirectory "/" "/") (.ok .done) c' ∧
    c'.handles = c.handles ++ [.directory (directoryAt rootInode)] ∧ c'.Stands K (W.opened rootInode) T' := by
  have habs : Path.toAbsolute "/" "/" = .ok "/" := by decide
  refine h.does_openDirectory (by decide) (by decide) habs ?_
  rw [Path.components_root, Pool.resolve_nil]

/-- A file that is there is opened, and stays as it is unless it is asked to be emptied. -/
theorem Stands.does_openFile (h : c.Stands K W T) (hf : ¬K.faulty) (hpath : NulFree path) (hcwd : NulFree cwd)
    (habs : Path.toAbsolute path cwd = .ok absolute) (hx : W.pool.find absolute = .ok x) :
    ∃ c' T', c.Does (.openFile path cwd {}) (.ok .done) c' ∧
      c'.handles = c.handles ++ [.file (.ofInode ⟨x⟩)] ∧ c'.Stands K (W.opened x) T' := by
  have hq : c.Allows (.openFile path cwd {}) := ⟨⟨hpath, hcwd⟩, nofun⟩
  refine h.does_leaving hq ?_
  rintro res W' ⟨r, ⟨z, W₁, T₁, W₂, rfl, hopens, htruncates, -, rfl⟩ | ⟨⟨e, -, hrefused⟩, -⟩, rfl⟩
  · cases hopens with
    | found habs' hz =>
      rw [habs] at habs'
      cases habs'
      rw [hx] at hz
      cases hz
      cases htruncates with
      | kept _ _ => exact ⟨rfl, rfl, rfl⟩
      | emptied asked _ _ _ _ _ _ _ => cases asked
    | made asked _ _ _ => cases asked
  · -- The file is there, none is to be made, and nothing is to be emptied.
    rw [Volume.OpenRefused, habs, Except.bind, hx] at hrefused
    rcases hrefused with hfaulty | ⟨hno, -⟩ | ⟨hno, -⟩ | ⟨hno, -⟩
    · exact absurd hfaulty hf
    · cases hno
    · cases hno
    · cases hno

/-! ## Calls on handles -/

/-- What is held open has an entry in the registry. -/
theorem Stands.entry_of_handle (h : c.Stands K W T) (hy : c.handles[i]? = some y) :
    ∃ e, c.volume.registry[y.target.number]? = some e := by
  obtain ⟨o, ho, -⟩ := h.good.tracks.opened_of_handle hy
  have ho : W.opens y.target.number = some o := ho
  obtain ⟨n, hn⟩ := Option.ne_none_iff_exists'.1 (h.mounts.live y.target.number (by simp [ho]))
  exact ⟨_, (h.mounts.registry _).trans (World.entry_of_some ho hn)⟩

/-- Contents may be changed through a handle of a regular file. -/
theorem Stands.allows (h : c.Stands K W T) (hy : c.handles[i]? = some y)
    (hn : W.pool.nodes y.target.number = some n) (hfile : n.record.isDirectory = false) (hq : q.Clean)
    (hi : q.changes = some i) : c.Allows q := by
  refine ⟨hq, fun j hj z node hz hnode => ?_⟩
  obtain rfl := Option.some.inj (hi.symm.trans hj)
  obtain rfl := Option.some.inj (hy.symm.trans hz)
  obtain ⟨o, ho, -⟩ := h.good.tracks.opened_of_handle hy
  rw [h.mounts.registry, World.entry_of_some ho hn] at hnode
  cases hnode
  exact hfile

/-- As many bytes are read as were asked for, or as there are. -/
theorem Stands.does_readAt (h : c.Stands K W T) (hy : c.handles[i]? = some y)
    (hn : W.pool.nodes y.target.number = some n) (offset count : Nat) :
    ∃ c' T', c.Does (.readAt i offset count)
        (.ok (.bytes (bytesFrom n.byte offset (min count (n.size - offset))))) c' ∧
      c'.handles = c.handles ∧ c'.Stands K W T' := by
  obtain ⟨o, ho, -⟩ := h.good.tracks.opened_of_handle hy
  have hq : c.Allows (.readAt i offset count) := ⟨trivial, nofun⟩
  refine h.does_leaving hq fun res W' hcomes => ?_
  rw [Call.Comes] at hcomes
  obtain ⟨rfl, rfl⟩ := hcomes.there hy hn ho
  exact ⟨rfl, rfl, rfl⟩

/-- Contents that reach far enough are written over. -/
theorem Stands.does_writeAt (h : c.Stands K W T) (hf : ¬K.faulty) (hy : c.handles[i]? = some y)
    (hn : W.pool.nodes y.target.number = some n) (hfile : n.record.isDirectory = false)
    (hd : W.denials y.target.number = 0) (offset : Nat) (data : ByteArray) (hdata : data.isEmpty = false)
    (hend : offset + data.size ≤ n.size) :
    ∃ c' W' T', c.Does (.writeAt i offset data) (.ok (.count data.size)) c' ∧ c'.handles = c.handles ∧
      c'.Stands K W' T' ∧
      ∃ n', W.Becomes y.target.number n' W' ∧ Inode.Wrote K W n offset data data.size n' W' := by
  obtain ⟨o, ho, -⟩ := h.good.tracks.opened_of_handle hy
  rw [World.denials_of_open ho] at hd
  have hq : c.Allows (.writeAt i offset data) := h.allows hy hn hfile trivial rfl
  refine h.does hq fun res W' hcomes => ?_
  rw [Call.Comes] at hcomes
  obtain ⟨r, hr, rfl⟩ := hcomes.there hy hn ho
  -- Of the four cases of a write only the third is left: it is not denied, there is something to write, and
  -- no growing is needed.
  rcases hr with ⟨hpos, -⟩ | ⟨-, hempty, -⟩ | ⟨-, -, k, n', rfl, hbecomes, hwrote⟩ | ⟨-, -, hlong, -⟩
  · omega
  · rw [hdata] at hempty
    cases hempty
  · obtain rfl := hwrote.count.resolve_right fun hno => hf hno.1
    exact ⟨rfl, rfl, n', hbecomes, hwrote⟩
  · omega

/-- Writing is refused while it is denied. -/
theorem Stands.does_refuse (h : c.Stands K W T) (hy : c.handles[i]? = some y)
    (hn : W.pool.nodes y.target.number = some n) (hfile : n.record.isDirectory = false)
    (hd : 0 < W.denials y.target.number) (offset : Nat) (data : ByteArray) :
    ∃ c' T', c.Does (.writeAt i offset data) (.error (.failed .writeDenied)) c' ∧ c'.handles = c.handles ∧
      c'.Stands K W T' := by
  obtain ⟨o, ho, -⟩ := h.good.tracks.opened_of_handle hy
  rw [World.denials_of_open ho] at hd
  have hq : c.Allows (.writeAt i offset data) := h.allows hy hn hfile trivial rfl
  refine h.does_leaving hq fun res W' hcomes => ?_
  rw [Call.Comes] at hcomes
  obtain ⟨r, hr, rfl⟩ := hcomes.there hy hn ho
  rcases hr with ⟨-, rfl, rfl⟩ | ⟨hzero, -⟩ | ⟨hzero, -⟩ | ⟨hzero, -⟩
  · exact ⟨rfl, rfl, rfl⟩
  all_goals omega

/-- Contents grow while there are blocks for them. -/
theorem Stands.does_grow (h : c.Stands K W T) (hf : ¬K.faulty) (hy : c.handles[i]? = some y)
    (hn : W.pool.nodes y.target.number = some n) (hfile : n.record.isDirectory = false) {target : Nat}
    (hmax : target ≤ maxFileSize) (hspace : totalBlocks target - totalBlocks n.size ≤ K.free W.pool.store.used) :
    ∃ c' W' T', c.Does (.grow i target) (.ok .done) c' ∧ c'.handles = c.handles ∧ c'.Stands K W' T' ∧
      ∃ n', W.Becomes y.target.number n' W' ∧ Inode.Grown K W n target n' W' := by
  obtain ⟨o, ho, -⟩ := h.good.tracks.opened_of_handle hy
  have hq : c.Allows (.grow i target) := h.allows hy hn hfile trivial rfl
  refine h.does hq fun res W' hcomes => ?_
  rw [Call.Comes] at hcomes
  obtain ⟨r, hr, rfl⟩ := hcomes.there hy hn ho
  rcases hr with ⟨n', rfl, hbecomes, hgrown⟩ | ⟨e, -, -, ⟨-, hlong⟩ | ⟨-, hfull⟩ | ⟨hfaulty, -⟩⟩
  · exact ⟨rfl, rfl, n', hbecomes, hgrown⟩
  · omega
  · omega
  · exact absurd hfaulty hf

/-- A handle of a file is made to deny writing. -/
theorem Stands.does_denyWrite (h : c.Stands K W T) (hy : c.handles[i]? = some (.file f)) :
    ∃ c' W' T', c.Does (.denyWrite i) (.ok .done) c' ∧
      c'.handles = c.handles.set i (.file { f with denying := true }) ∧ c'.Stands K W' T' ∧
      W'.pool = W.pool := by
  obtain ⟨o, ho, -⟩ := h.good.tracks.opened_of_handle hy
  have ho : W.opens f.inode.number = some o := ho
  obtain ⟨n, hn⟩ := Option.ne_none_iff_exists'.1 (h.mounts.live f.inode.number (by simp [ho]))
  have hq : c.Allows (.denyWrite i) := ⟨trivial, nofun⟩
  refine h.does hq fun res W' hcomes => ?_
  rw [Call.Comes] at hcomes
  obtain ⟨rfl, rfl⟩ := World.OnFile.there hcomes hy hn ho
  exact ⟨rfl, rfl, rfl⟩

/-! ## The first entry of a new device -/

/-- Something has been created in the root of a new device, and nothing else. It is inode `x`, which is `n`,
and the root is `r`. -/
structure First (K : Regime) (path : String) (size : Nat) (isDirectory : Bool) (c : Client) (W : World)
    (T : Hierarchy) (x : UInt32) (r n : Node) : Prop where
  run : ∃ c₀, Starts False { device := .inMemory K.count } c₀ ∧
    Runs c₀ [(.create path "/" size isDirectory, .ok .done)] c
  handles : c.handles = []
  stands : c.Stands K W T
  opens : W.opens = fun _ => none
  root : W.pool.nodes rootInode = some r
  rootKind : r.record.isDirectory = true
  rootChild : r.child = Function.update (Volume.dots rootInode rootInode) (Path.leafPart path) (some x)
  rootSize : r.size = slotSize * Volume.rootSlots
  node : W.pool.nodes x = some n
  kind : n.record.isDirectory = isDirectory
  file : isDirectory = false → n.size = size ∧ n.byte = fun _ => 0
  directory : isDirectory = true → n.size = slotSize * 2 ∧ n.child = Volume.dots x rootInode
  ne_root : rootInode ≠ x
  find : W.pool.find path = .ok x
  resolve : isDirectory = true → W.pool.resolve rootInode (Path.components path) = .ok x
  space : K.free W.pool.store.used + (1 + if isDirectory then 1 else totalBlocks size) + (K.dataStart + 1) =
    K.count

/-- In a new device that is large enough something can be created in the root. -/
theorem exists_first {count : Nat} (size : Nat) (isDirectory : Bool) (hK : Regime.Fits ⟨count, False⟩)
    (hpath : NulFree path) (habs : Path.toAbsolute path "/" = .ok path) (hbelow : Path.isRoot path = false)
    (hparent : Path.parentPart path = "/") (hnamed : (Path.leafPart path).isEmpty = false)
    (hshort : (Path.leafPart path).utf8ByteSize ≤ nameMax) (hdot : isDotName (Path.leafPart path) = false)
    (hsmall : isDirectory = false → size ≤ maxFileSize)
    (hspace : 1 + (if isDirectory then 1 else totalBlocks size) + (Regime.dataStart ⟨count, False⟩ + 1) ≤ count) :
    ∃ c W T x r n, First ⟨count, False⟩ path size isDirectory c W T x r n := by
  obtain ⟨c₀, W, m, hs, hW, hopens, hbare, hfree⟩ := exists_starts_bare hK
  have hdenials : W.denials rootInode = 0 := by simp [World.denials, hopens]
  have hcreatable : W.pool.Creatable ⟨count, False⟩ W.denials path size isDirectory rootInode m := by
    refine .mk hnamed hshort ?_ hbare.node (hbare.room hdot hdenials hsmall (by omega))
    rw [hparent, Path.components_root, Pool.resolve_nil]
  obtain ⟨c, W', T', hdoes, hhandles, hW', x, r, n, ha⟩ :=
    hW.does_create id hpath (by decide) habs hcreatable
  -- The new name lies within the table as it is, so only the new inode has taken blocks.
  have hgain : m.gain = 0 := by rw [Node.gain, hbare.size_linked, Nat.sub_self]
  have hleft := ha.created.free
  have hfresh := ha.created.fresh
  have hfind : W'.pool.find path = .ok x := Volume.find_added hW.good.ordered hbelow ha
  have hne : rootInode ≠ x := by
    rintro rfl
    rw [hbare.node] at hfresh
    cases hfresh
  refine ⟨c, W', T', x, r, n, ⟨c₀, hs, .next hdoes (.nil c)⟩, hhandles.trans hs.handles, hW',
    ha.opens.trans hopens, ha.above, ha.created.parent, ?_, ?_, ha.node, ha.created.kind, ha.created.file,
    fun hdir => ⟨ha.created.table hdir, (ha.created.directory hdir).2⟩, hne, hfind, fun hdir => ?_, ?_⟩
  · rw [ha.created.child, hbare.child]
  · rw [ha.created.length, hbare.size_linked, hbare.size]
  · exact Pool.resolve_of_find hbelow (by simpa using hnamed) hfind
      ((Pool.isDirectory_of_node ha.node).trans (ha.created.kind.trans hdir))
  · show _ = count
    omega

namespace First

variable {K : Regime} {W : World} {T : Hierarchy} {r : Node}

theorem child (h : First K path size isDirectory c W T x r n) : r.child (Path.leafPart path) = some x := by
  rw [h.rootChild, Function.update_self]

/-- No handle denies writing. -/
theorem denials (h : First K path size isDirectory c W T x r n) (z : UInt32) : W.denials z = 0 := by
  simp [World.denials, h.opens]

/-- Another name can be created beside the first one if there are two blocks to spare. -/
theorem creatable (h : First K path size isDirectory c W T x r n) {other : String} {size' : Nat}
    {isDirectory' : Bool} (hparent : Path.parentPart other = "/") (hnamed : (Path.leafPart other).isEmpty = false)
    (hshort : (Path.leafPart other).utf8ByteSize ≤ nameMax) (hdot : isDotName (Path.leafPart other) = false)
    (hne : Path.leafPart other ≠ Path.leafPart path) (hsmall : isDirectory' = false → size' ≤ maxFileSize)
    (hspace : 2 + (if isDirectory' then 1 else totalBlocks size') ≤ K.free W.pool.store.used) :
    W.pool.Creatable K W.denials other size' isDirectory' rootInode r := by
  refine .mk hnamed hshort ?_ h.root (.of_short ?_ (h.denials rootInode) hsmall ?_ hspace)
  · rw [hparent, Path.components_root, Pool.resolve_nil]
  · rw [h.rootChild, Function.update_of_ne hne, Volume.dots_none hdot]
  · rw [h.rootSize]
    decide

/-- No handle denies writing after something has been opened. -/
theorem denials_opened (h : First K path size isDirectory c W T x r n) (y z : UInt32) :
    (W.opened y).denials z = 0 := by
  by_cases hz : z = y
  · rw [World.denials, hz, W.opened_opens_self, h.opens]
    rfl
  · rw [World.denials, W.opened_opens_of_ne hz, h.opens]
    rfl

end First

/-- A file is written and read while it is open, and then removed. Each call succeeds. -/
def removal : List (Call × Except Stop Answer) :=
  [(.create "/a" "/" 600 false, .ok .done), (.openInode "/a" "/", .ok .done),
    (.writeAt 0 100 ⟨#[1, 2, 3]⟩, .ok (.count 3)), (.readAt 0 99 5, .ok (.bytes ⟨#[0, 1, 2, 3, 0]⟩)),
    (.remove "/a" "/", .ok .done)]

/-- A device of eight blocks has room for this. -/
theorem exists_removal : ∃ c₀ c : Client, Starts False { device := .inMemory 8 } c₀ ∧ Runs c₀ removal c := by
  have hfits : Regime.Fits ⟨8, False⟩ := ⟨by decide, by decide⟩
  have ha : NulFree "/a" := by decide
  have hslash : NulFree "/" := by decide
  have habs : Path.toAbsolute "/a" "/" = .ok "/a" := by decide
  obtain ⟨c₁, W, T, x, r, n, hfirst⟩ := exists_first 600 false hfits ha habs
    (by decide) (by decide) (by decide) (by decide) (by decide) (by decide) (by decide)
  obtain ⟨c₀, hstarts, hcreate⟩ := hfirst.run
  obtain ⟨hsize, hbyte⟩ := hfirst.file rfl
  obtain ⟨c₂, T₂, hopen, hhandles, hs₂⟩ := hfirst.stands.does_openInode ha hslash habs hfirst.find
  have hget : c₂.handles[0]? = some (.inode ⟨x⟩) := by
    rw [hhandles, hfirst.handles]
    rfl
  obtain ⟨c₃, W₃, T₃, hwrite, hhandles₃, hs₃, n₃, hbecomes, hwrote⟩ :=
    hs₂.does_writeAt id hget hfirst.node hfirst.kind (hfirst.denials_opened x x) 100 ⟨#[1, 2, 3]⟩ (by decide)
      (by rw [hsize]; decide)
  obtain ⟨c₄, T₄, hread, -, hs₄⟩ := hs₃.does_readAt (hhandles₃ ▸ hget) hbecomes.node 99 5
  -- Between zeros there are the three bytes that have been written.
  have hdata : bytesFrom n₃.byte 99 (min 5 (n₃.size - 99)) = ⟨#[0, 1, 2, 3, 0]⟩ := by
    rw [hwrote.byte, hwrote.size, hsize, hbyte]
    decide
  -- Writing has changed the file only, so that it is still found in the root.
  have herasable : W₃.pool.Erasable W₃.denials "/a" rootInode r x n₃ := by
    refine Pool.erasable_of_root (by decide) (by decide) (by decide)
      ((hbecomes.node_of_ne hfirst.ne_root).trans hfirst.root) hfirst.child hbecomes.node
      (hwrote.isDirectory.trans hfirst.kind) ?_
    rw [World.denials, hbecomes.opens]
    exact hfirst.denials_opened x rootInode
  obtain ⟨c₅, W₅, T₅, hremove, -⟩ := hs₄.does_remove id ha hslash habs herasable
  rw [hdata] at hread
  exact ⟨c₀, c₅, hstarts, hcreate.append (.next hopen (.next hwrite (.next hread (.next hremove (.nil c₅)))))⟩

end Client

end InodeVolume
