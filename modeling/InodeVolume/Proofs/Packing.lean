import InodeVolume.Proofs.AbsolutePaths
import InodeVolume.Proofs.HostListings
import InodeVolume.Proofs.Refinement

/-!
# Packing

What packing a tree of the host does to a world in order, where no write fails. Each file and each directory is
created in the directory that the path made of its name leads to, which is the one that is packed into
(`HostTree.Target`). So the items of a tree are copied one after the other, each into what the ones before have
left, and all of them are exactly if there is room for all (`HostTree.pack_leads`). What has been copied does not
tell the order: the items, and nothing else (`HostTree.Copies`).
-/

namespace InodeVolume

open Record

/-! ## Whole contents -/

namespace Volume

variable {K : Regime} {W W₁ W' : World} {T : Hierarchy} {path : String} {b : UInt32} {m : Node}
  {data : ByteArray}

/-- All contents of a file are `data`, and as many blocks are free as before. -/
structure Written (K : Regime) (W : World) (b : UInt32) (data : ByteArray) (m : Node) (W' : World) : Prop where
  becomes : W.Becomes b m W'
  file : m.record.isDirectory = false
  contents : m.contents = data
  free : K.free W'.pool.store.used = K.free W.pool.store.used

/-- Writing all contents into a file that is as long as they are. -/
theorem write_all_leads (hK : K.Fits) (hf : ¬K.faulty) {o : Opening} (hm : W.pool.nodes b = some m)
    (hfile : m.record.isDirectory = false) (ho : W.opens b = some o) (hwritable : o.denials = 0)
    (hsize : m.size = data.size) :
    Leads (Mounts K) W (Inode.write ⟨b⟩ 0 data) fun res W' =>
      res = .ok data.size ∧ ∃ m', Written K W b data m' W' := by
  apply Leads.mono (Inode.write_leads hK hm ho 0 data)
  rintro res W' (⟨hpos, -⟩ | ⟨-, hempty, rfl, rfl⟩ | ⟨-, -, k, m', rfl, hb, hw⟩ | ⟨-, -, hlong, -⟩)
  · omega
  · -- Nothing has to be written, so the file stays as it was made.
    have hzero : data.size = 0 := by simpa [ByteArray.isEmpty] using hempty
    refine ⟨by rw [hzero], m, ⟨(Function.update_eq_self_iff.2 hm.symm).symm, rfl, rfl⟩, hfile, ?_, rfl⟩
    apply Node.contents_eq hsize
    intro i hi
    omega
  · have hk : k = data.size := hw.count.resolve_right fun hfaulty => hf hfaulty.1
    have hsize' : m'.size = data.size := by
      rw [hw.size, hsize]
      omega
    refine ⟨by rw [hk], m', hb, hw.isDirectory.trans hfile, ?_, ?_⟩
    · apply Node.contents_eq hsize'
      intro i hi
      rw [hw.byte, overwrite, if_pos (by omega), Nat.sub_zero]
    · have hfree := hw.free
      rw [hsize', hsize] at hfree
      exact Nat.add_right_cancel hfree
  · omega

/-- Writing all contents into a new file and closing it, which has been opened for that. -/
theorem fill_leads (hK : K.Fits) (hf : ¬K.faulty) (hatt : W.Attended) (hm : W.pool.nodes b = some m)
    (hfile : m.record.isDirectory = false) (hclosed : W.opens b = none) (hsize : m.size = data.size) :
    Leads (Mounts K) (W.opened b) (VolumeM.andThen (Inode.write ⟨b⟩ 0 data) (Inode.close ⟨b⟩)) fun res W' =>
      res = .ok data.size ∧ ∃ m', Written K W b data m' W' := by
  -- The file has just been opened for the first time, and nobody denies writing to it.
  have hopening : (W.opened b).opens b = some ⟨1, false, 0⟩ := by
    rw [W.opened_opens_self, hclosed]
    rfl
  apply Leads.andThen (write_all_leads (W := W.opened b) hK hf hm hfile hopening rfl hsize)
  · rintro r W₁ ⟨rfl, -⟩
    exact sober_ok
  · rintro r W₁ ⟨rfl, m', hw⟩
    rw [World.eq_opened hw.becomes.opens]
    apply Yields.leads (Inode.close_opened (W := ⟨W₁.pool, W.opens⟩) hK hw.becomes.node (hatt b))
    exact ⟨rfl, rfl, m', ⟨hw.becomes.nodes, hw.becomes.held, rfl⟩, hw.file, hw.contents, hw.free⟩

/-- Where no write fails, a file is imported with all its contents exactly if it can be created. -/
theorem importFile_leads (hK : K.Fits) (hf : ¬K.faulty) (hO : W.Ordered K T) (hpath : NulFree path)
    (hbelow : ∀ absolute, Path.toAbsolute path "/" = .ok absolute → Path.isRoot absolute = false)
    (data : ByteArray) :
    Leads (Mounts K) W (importFile path data) fun res W' =>
      (res = .ok true ∧ ∃ absolute t n b n' m W₁ m', Path.toAbsolute path "/" = .ok absolute ∧
          W.Added K T absolute data.size false t n b n' m W₁ ∧ Written K W₁ b data m' W') ∨
        ((∃ e, res = .error (.failed e)) ∧ ∀ absolute t n, Path.toAbsolute path "/" = .ok absolute →
          ¬W.pool.Creatable K W.denials absolute data.size false t n) := by
  unfold importFile
  apply Leads.bind (create_leads hK hO hpath (by decide) data.size false)
  · rintro v W₁ (⟨-, absolute, t, n, b, n', m, habs, ha⟩ | ⟨-, ⟨e, he⟩, -⟩)
    swap
    · cases he
    -- The path that the file was created at leads to it.
    have hopen := openInode_leads hK ha.ordered.rooted.walkable ha.ordered.attended path "/"
    rw [habs] at hopen
    simp only [Except.bind, find_added hO (hbelow absolute habs) ha] at hopen
    apply Leads.bind hopen
    · rintro i W₂ ⟨hi, rfl⟩
      cases hi
      obtain ⟨hsize, -⟩ := ha.created.file rfl
      apply Leads.bind (fill_leads hK hf ha.ordered.attended ha.node ha.created.kind
        (by rw [ha.opens, ha.closed]) hsize)
      · rintro k W' ⟨hk, m', hw⟩
        cases hk
        exact Leads.pure (.inl ⟨by simp, absolute, t, n, b, n', m, W₁, m', habs, ha, hw⟩)
      · rintro e W' ⟨he, -⟩
        cases he
    · rintro e W₂ ⟨he, -⟩
      cases he
  · rintro e W₁ (⟨he, -⟩ | ⟨hwhy, ⟨e', he⟩, -⟩)
    · cases he
    · cases he
      exact .inr ⟨⟨e', rfl⟩, hwhy.resolve_left hf⟩

end Volume

/-- Inode `n` is a file with these contents or, if there are none, a directory. -/
def Node.Carries (n : Node) : Option ByteArray → Prop
  | some data => n.record.isDirectory = false ∧ n.contents = data
  | none => n.record.isDirectory = true

namespace HostTree

variable {K : Regime} {W W₁ W₂ : World} {T T₁ : Hierarchy} {place name absolute : String}
  {base : List String} {t b d : UInt32} {n n₁ n₂ m m' : Node} {l l₁ l₂ : List Item} {c : Copied}
  {size : Nat} {isDirectory : Bool}

/-! ## What is copied -/

/-- Creating a file of so many zeros, or an empty directory, takes as much room as the copy. -/
structure Copied.MadeBy (c : Copied) (size : Nat) (isDirectory : Bool) : Prop where
  small : c.size ≤ maxFileSize ↔ (isDirectory = false → size ≤ maxFileSize)
  blocks : c.blocks = 1 + if isDirectory then 1 else totalBlocks size

theorem Copied.madeBy_file (data : ByteArray) : (file data).MadeBy data.size false := by
  constructor
  · simp [Copied.size]
  · simp [Copied.blocks, Copied.size]

theorem Copied.madeBy_directory : (directory (tops [])).MadeBy 0 true := by
  have hsize : size (directory (tops [])) = slotSize * 2 := rfl
  constructor
  · rw [hsize]
    exact iff_of_true (by decide) nofun
  · rw [Copied.blocks, hsize, totalBlocks_new, if_pos rfl]

/-- The directory `t` of the tree, at `base` in the tree and named by the path `place`, into which a host's
tree is packed. -/
structure Target (K : Regime) (W : World) (T : Hierarchy) (place : String) (base : List String) (t : UInt32)
    (n : Node) : Prop where
  ordered : W.Ordered K T
  node : W.pool.nodes t = some n
  isDirectory : n.record.isDirectory = true
  resolves : W.pool.resolve rootInode (Path.components place) = .ok t
  tree : W.pool.tree base = some t

/-- There is room for the items in directory `t`. -/
def HasRoom (K : Regime) (W : World) (place : String) (t : UInt32) (n : Node) (l : List Item) : Prop :=
  Fits place (W.denials t) n.slots n.names.card (K.free W.pool.store.used) l

/-- The items have been copied into directory `t`, and nothing else has changed. -/
structure Copies (K : Regime) (W W' : World) (base : List String) (t : UInt32) (n n' : Node) (l : List Item) :
    Prop where
  node : W'.pool.nodes t = some n'
  isDirectory : n'.record.isDirectory = true
  slots : n'.slots = max n.slots (n.names.card + tops l)
  names : n'.names.card = n.names.card + tops l
  child : ∀ nm, (∀ c, ([nm], c) ∉ l) → n'.child nm = n.child nm
  opens : W'.opens = W.opens
  ways : ∀ q x, W.pool.resolve rootInode q = .ok x → W'.pool.resolve rootInode q = .ok x
  kept : ∀ x, x ≠ t → W.pool.nodes x ≠ none → W'.pool.nodes x = W.pool.nodes x
  gained : ∀ p ∈ l, ∃ b m, W.pool.nodes b = none ∧ W'.pool.tree (base ++ p.1) = some b ∧
    W'.pool.nodes b = some m ∧ m.Carries p.2.data
  others : ∀ q, (∀ p ∈ l, q ≠ base ++ p.1) → W'.pool.tree q = W.pool.tree q
  /-- Blocks are taken for the items and for the table of the directory. -/
  free : K.free W'.pool.store.used + (blocks l + totalBlocks (slotSize * n'.slots)) =
    K.free W.pool.store.used + totalBlocks (slotSize * n.slots)

theorem Target.linked (h : Target K W T place base t n) : T.linked t :=
  (h.ordered.rooted.linked_resolve h.ordered.rooted.root h.ordered.rooted.rootDirectory h.resolves).1

theorem Target.tidy (h : Target K W T place base t n) : n.Tidy :=
  h.ordered.rooted.tidy t h.linked n h.node h.isDirectory

theorem Target.nulFree (h : Target K W T place base t n) : NulFree place :=
  Path.nulFree_of_components (Pool.nulFree_of_resolve h.resolves)

/-- The directory is still there after items have been copied into it. -/
theorem Target.after (h : Target K W T place base t n) (hc : Copies K W W₁ base t n n₁ l)
    (hO : W₁.Ordered K T₁) (hne : ∀ p ∈ l, p.1 ≠ []) : Target K W₁ T₁ place base t n₁ := by
  constructor
  · exact hO
  · exact hc.node
  · exact hc.isDirectory
  · exact hc.ways _ _ h.resolves
  · rw [hc.others base, h.tree]
    intro p hp
    simpa using hne p hp

theorem Copies.refl (h : Target K W T place base t n) : Copies K W W base t n n [] := by
  have hcard := h.tidy.card_names_le
  constructor
  case node => exact h.node
  case isDirectory => exact h.isDirectory
  all_goals simp [tops, blocks, hcard]

/-- What is new now was new before. -/
theorem Copies.fresh (h : Copies K W W₁ base t n n₁ l) (hb : W₁.pool.nodes b = none) :
    W.pool.nodes b = none := by
  by_contra hold
  have hbt : b ≠ t := by
    rintro rfl
    simp [h.node] at hb
  rw [h.kept b hbt hold] at hb
  exact hold hb

/-- Copying some items and then others. -/
theorem Copies.append (hn : W.pool.nodes t = some n) (h : Copies K W W₁ base t n n₁ l₁)
    (h' : Copies K W₁ W₂ base t n₁ n₂ l₂) (honce : ((l₁ ++ l₂).map Prod.fst).Nodup) :
    Copies K W W₂ base t n n₂ (l₁ ++ l₂) := by
  -- The second list was copied into what the first left, so each clause is taken from both in turn.
  rw [List.map_append, List.nodup_append] at honce
  constructor
  case node => exact h'.node
  case isDirectory => exact h'.isDirectory
  case slots =>
    have hslots := h'.slots
    rw [h.slots, h.names] at hslots
    rw [hslots, tops_append]
    omega
  case names => rw [h'.names, h.names, tops_append, Nat.add_assoc]
  case child =>
    intro nm hnm
    rw [h'.child nm fun c hc => hnm c (List.mem_append_right _ hc),
      h.child nm fun c hc => hnm c (List.mem_append_left _ hc)]
  case opens => exact h'.opens.trans h.opens
  case ways =>
    intro q x hq
    exact h'.ways q x (h.ways q x hq)
  case kept =>
    intro x hx hold
    rw [h'.kept x hx (h.kept x hx hold ▸ hold), h.kept x hx hold]
  case gained =>
    intro p hp
    rcases List.mem_append.1 hp with hp | hp
    · obtain ⟨b, m, hfresh, htree, hnode, hcarries⟩ := h.gained p hp
      have hbt : b ≠ t := by
        rintro rfl
        simp [hn] at hfresh
      refine ⟨b, m, hfresh, ?_, ?_, hcarries⟩
      · -- None of the others has the place of this one.
        rw [h'.others, htree]
        intro p' hp' heq
        exact honce.2.2 _ (List.mem_map_of_mem hp) _ (List.mem_map_of_mem hp') (List.append_cancel_left heq)
      · rw [h'.kept b hbt (by simp [hnode]), hnode]
    · obtain ⟨b, m, hfresh, hrest⟩ := h'.gained p hp
      exact ⟨b, m, h.fresh hfresh, hrest⟩
  case others =>
    intro q hq
    rw [h'.others q fun p hp => hq p (List.mem_append_right _ hp),
      h.others q fun p hp => hq p (List.mem_append_left _ hp)]
  case free =>
    have hfree := h.free
    have hfree' := h'.free
    rw [blocks_append]
    omega

/-- Making a directory and then copying items into it. -/
theorem Copies.within (h : Copies K W W₁ base t n n₁ (within name [])) (hn : W.pool.nodes t = some n)
    (hd : W.pool.nodes d = none) (htree : W₁.pool.tree (base ++ [name]) = some d) (hslots : m.slots = 2)
    (hnames : m.names.card = 2) (h' : Copies K W₁ W₂ (base ++ [name]) d m m' l) (hne : ∀ p ∈ l, p.1 ≠ []) :
    Copies K W W₂ base t n n₁ (HostTree.within name l) := by
  have htd : t ≠ d := by
    rintro rfl
    simp [hn] at hd
  have htops : tops (HostTree.within name l) = tops (HostTree.within name []) := by
    rw [tops_within hne, tops_within (by simp)]
  have hinside (p : Item) (hp : p ∈ l) : p.under name ∈ HostTree.within name l :=
    mem_within.2 (.inr ⟨p, hp, rfl⟩)
  constructor
  case node => rw [h'.kept t htd (by simp [h.node]), h.node]
  case isDirectory => exact h.isDirectory
  case slots => rw [h.slots, htops]
  case names => rw [h.names, htops]
  case child =>
    intro nm hnm
    apply h.child
    intro c hc
    obtain ⟨rfl, -⟩ : nm = name ∧ c = .directory (tops []) := by simpa [HostTree.within] using hc
    exact hnm _ (mem_within.2 (.inl rfl))
  case opens => exact h'.opens.trans h.opens
  case ways =>
    intro q x hq
    exact h'.ways q x (h.ways q x hq)
  case kept =>
    intro x hx hold
    have hxd : x ≠ d := by
      rintro rfl
      exact hold hd
    rw [h'.kept x hxd (h.kept x hx hold ▸ hold), h.kept x hx hold]
  case gained =>
    -- The directory that is made is an item itself, and what is copied into it is the others.
    intro p hp
    rcases mem_within.1 hp with rfl | ⟨q, hq, rfl⟩
    · refine ⟨d, m', hd, ?_, h'.node, h'.isDirectory⟩
      rw [h'.others, htree]
      intro p hp
      simpa using hne p hp
    · obtain ⟨b, m, hfresh, htree, hrest⟩ := h'.gained q hq
      refine ⟨b, m, h.fresh hfresh, ?_, hrest⟩
      rw [← htree]
      simp [Item.under]
  case others =>
    intro q hq
    rw [h'.others, h.others]
    · intro p hp
      obtain rfl : p = ([name], .directory (tops [])) := by simpa [HostTree.within] using hp
      exact hq ([name], .directory (tops l)) (mem_within.2 (.inl rfl))
    · intro p hp
      have hplace := hq _ (hinside p hp)
      simpa [Item.under] using hplace
  case free =>
    have hfree := h.free
    have hfree' := h'.free
    have hslots' := h'.slots
    have hmax : max 2 (2 + tops l) = 2 + tops l := by omega
    rw [hslots, hnames, hmax] at hslots'
    rw [blocks_within_nil] at hfree
    rw [hslots, hslots', totalBlocks_new] at hfree'
    rw [blocks_within, Copied.blocks, Copied.size_directory]
    omega

/-- What has been copied does not tell the order. -/
theorem Copies.perm (h : Copies K W W₁ base t n n₁ l₁) (hp : l₁.Perm l₂) : Copies K W W₁ base t n n₁ l₂ := by
  have htops := tops_perm hp
  -- The order of the files counts nowhere: each clause speaks of membership, of a number of names or of a
  -- sum.
  constructor
  case node => exact h.node
  case isDirectory => exact h.isDirectory
  case slots => rw [← htops, h.slots]
  case names => rw [← htops, h.names]
  case child =>
    intro nm hnm
    apply h.child
    intro c hc
    exact hnm c (hp.mem_iff.1 hc)
  case opens => exact h.opens
  case ways => exact h.ways
  case kept => exact h.kept
  case gained =>
    intro p hmem
    exact h.gained p (hp.mem_iff.2 hmem)
  case others =>
    intro q hq
    apply h.others
    intro p hmem
    exact hq p (hp.mem_iff.1 hmem)
  case free => rw [← blocks_perm hp, h.free]

/-- How many blocks are left follows from what has been copied. -/
theorem Copies.free_eq (h : Copies K W W₁ base t n n₁ l) (h' : Copies K W W₂ base t n n₂ l) :
    K.free W₁.pool.store.used = K.free W₂.pool.store.used := by
  have hfree := h.free
  have hfree' := h'.free
  rw [h.slots] at hfree
  rw [h'.slots] at hfree'
  omega

/-! ## One entry -/

/-- What packing needs to know of the name of an entry. -/
structure Nameable (n : Node) (name : String) : Prop where
  named : name ≠ ""
  word : Path.Word name.toList
  nulFree : NulFree name
  notDot : isDotName name = false
  short : name.utf8ByteSize ≤ nameMax
  new : n.child name = none

theorem Nameable.nulFree_path (hname : Nameable n name) (h : Target K W T place base t n) :
    NulFree (Path.join place name) := Path.nulFree_join h.nulFree hname.nulFree

theorem Nameable.isEntry (hname : Nameable n name)
    (habs : Path.toAbsolute (Path.join place name) "/" = .ok absolute) : Path.IsEntry place name absolute :=
  Path.IsEntry.of_toAbsolute habs hname.word hname.named

theorem Nameable.components (hname : Nameable n name) (place : String) :
    Path.components (Path.join place name) = Path.components place ++ [name] := by
  rw [Path.components_join, Path.components_word hname.word hname.named]

/-- The directory in which something can be created under the name is the target. -/
theorem Target.unique (h : Target K W T place base t n) (hentry : Path.IsEntry place name absolute)
    (hc : W.pool.Creatable K W.denials absolute size isDirectory d m) : d = t ∧ m = n := by
  have hd := hc.parent
  rw [hentry.parent, h.resolves] at hd
  cases hd
  have hm := hc.node
  rw [h.node] at hm
  cases hm
  exact ⟨rfl, rfl⟩

/-- Something can be created under the name exactly if there is room for its copy. -/
theorem Target.creatable_iff (h : Target K W T place base t n) (hsize : n.size ≤ maxFileSize)
    (hname : Nameable n name) (habs : Path.toAbsolute (Path.join place name) "/" = .ok absolute)
    (hmade : c.MadeBy size isDirectory) :
    W.pool.Creatable K W.denials absolute size isDirectory t n ↔ HasRoom K W place t n [([name], c)] := by
  have hentry := hname.isEntry habs
  have htidy := h.tidy
  have hgain := Volume.gain_add htidy
  have hlinked := htidy.size_linked
  have hslots := htidy.size_eq
  have hblocks := hmade.blocks
  have htops : tops [([name], c)] = 1 := rfl
  have hsum : blocks [([name], c)] = c.blocks := by simp [blocks]
  -- That the name is short and new is known. Both sides ask besides for an allowed length, a table that may
  -- be written and can grow, and enough room.
  constructor
  · intro hc
    constructor
    · intro p hp
      obtain rfl : p = ([name], c) := by simpa using hp
      exact ⟨absolute, habs⟩
    · intro p hp
      obtain rfl : p = ([name], c) := by simpa using hp
      exact hmade.small.2 hc.room.small
    · exact fun _ => hc.room.writable
    · have hfits := hc.room.fits
      rw [htops]
      refine le_trans ?_ (max_le hsize hfits)
      rw [hlinked]
      exact Nat.mul_le_mul_left _ (le_max_right _ _)
    · have hspace := hc.room.space
      rw [htops, hsum]
      omega
  · intro hroom
    have hspace := hroom.space
    have htable := hroom.table
    rw [htops] at htable hspace
    rw [hsum] at hspace
    refine ⟨?_, ?_, ?_, h.node, ?_, ?_, ?_, ?_, ?_⟩
    · rw [hentry.leaf]
      simpa using hname.named
    · rw [hentry.leaf]
      exact hname.short
    · rw [hentry.parent]
      exact h.resolves
    · rw [hentry.leaf]
      exact hname.new
    · exact hroom.writable (by simp)
    · exact hmade.small.1 (hroom.small ([name], c) List.mem_cons_self)
    · refine (le_max_right n.size _).trans ?_
      rw [hlinked, ← Nat.mul_max_mul_left, ← hslots]
      exact max_le hsize htable
    · omega

/-- A new inode is the copy of an entry, once it has got its contents. -/
theorem Target.copies (h : Target K W T place base t n) (hname : Nameable n name)
    (hentry : Path.IsEntry place name absolute) (hmade : c.MadeBy size isDirectory)
    (ha : W.Added K T absolute size isDirectory t n b n₁ m W₁) (hb : W₁.Becomes b m' W₂)
    (hnames : W₂.pool.names = W₁.pool.names) (hfree : K.free W₂.pool.store.used = K.free W₁.pool.store.used)
    (hcarries : m'.Carries c.data) : Copies K W W₂ base t n n₁ [([name], c)] := by
  have hR := h.ordered.rooted
  have htidy := h.tidy
  have hleaf := hentry.leaf
  have hchild := ha.created.child
  rw [hleaf] at hchild
  have hslots : n₁.slots = max n.slots (n.names.card + 1) := by
    rw [Node.slots, ha.created.length, htidy.size_linked, Nat.mul_div_cancel_left _ (by decide)]
  have htree : W₂.pool.tree = Function.update W.pool.tree (base ++ [name]) (some b) := by
    rw [ha.ordered.rooted.tree_congr fun x _ => congrFun (congrArg Names.child hnames) x,
      hR.tree_link ha.grafted (hleaf ▸ hname.notDot) h.tree, hleaf]
  constructor
  case node => rw [hb.node_of_ne ha.ne.symm, ha.above]
  case isDirectory => exact ha.created.parent
  case slots => exact hslots
  case names => exact Node.card_names_linked hchild hname.new
  case child =>
    intro nm hnm
    have hne : nm ≠ name := by
      rintro rfl
      exact hnm c List.mem_cons_self
    rw [hchild, Function.update_of_ne hne]
  case opens => exact hb.opens.trans ha.opens
  case ways =>
    intro q x hq
    rw [Pool.resolve, hnames]
    exact hR.resolve_link ha.grafted hR.root hq
  case kept =>
    intro x hx hold
    have hxb : x ≠ b := by
      rintro rfl
      exact hold ha.created.fresh
    rw [hb.node_of_ne hxb, ha.node_of_ne hx hxb]
  case gained =>
    intro p hp
    obtain rfl : p = ([name], c) := by simpa using hp
    refine ⟨b, m', ha.created.fresh, ?_, hb.node, hcarries⟩
    rw [htree, Function.update_self]
  case others =>
    intro q hq
    rw [htree, Function.update_of_ne]
    exact hq ([name], c) List.mem_cons_self
  case free =>
    -- What creating spends, on the new inode and on the table, is what the copy takes.
    have hspent := ha.created.free
    have hgain := Volume.gain_add htidy
    have hblocks := hmade.blocks
    have hsum : blocks [([name], c)] = c.blocks := by simp [blocks]
    rw [hfree, hslots, hsum]
    omega

/-- What creating an entry says of the room for its copy. -/
theorem Target.hasRoom_of_added (h : Target K W T place base t n) (hsize : n.size ≤ maxFileSize)
    (hname : Nameable n name) (habs : Path.toAbsolute (Path.join place name) "/" = .ok absolute)
    (hmade : c.MadeBy size isDirectory) (ha : W.Added K T absolute size isDirectory d m b n₁ m' W₁) :
    d = t ∧ m = n ∧ HasRoom K W place t n [([name], c)] := by
  obtain ⟨rfl, rfl⟩ := h.unique (hname.isEntry habs) ha.creatable
  exact ⟨rfl, rfl, (h.creatable_iff hsize hname habs hmade).1 ha.creatable⟩

theorem Target.not_hasRoom (h : Target K W T place base t n) (hsize : n.size ≤ maxFileSize)
    (hname : Nameable n name) (hmade : c.MadeBy size isDirectory)
    (hno : ∀ absolute t n, Path.toAbsolute (Path.join place name) "/" = .ok absolute →
      ¬W.pool.Creatable K W.denials absolute size isDirectory t n) : ¬HasRoom K W place t n [([name], c)] := by
  intro hroom
  obtain ⟨absolute, habs⟩ := hroom.short ([name], c) List.mem_cons_self
  exact hno absolute t n habs ((h.creatable_iff hsize hname habs hmade).2 hroom)

/-! ## Packing -/

/-- What packing comes to: all items are copied, for which there was room, or it stops and there was not. -/
def Packed (K : Regime) (W : World) (place : String) (base : List String) (t : UInt32) (n : Node) (l : List Item)
    (res : Except Stop Packing) (W' : World) : Prop :=
  (∃ lines, res = .ok ⟨lines, .ok ()⟩ ∧ HasRoom K W place t n l ∧
      ∃ n' T', W'.Ordered K T' ∧ Copies K W W' base t n n' l) ∨
    (∃ lines e, res = .ok ⟨lines, .error e⟩ ∧ ¬HasRoom K W place t n l)

/-- The table of a directory is not too long. -/
theorem Target.size_le {v : Volume} (h : Target K W T place base t n) (hv : Mounts K W v) :
    n.size ≤ maxFileSize := (hv.disk.sound.stored t n h.node).size_le

/-- Packing one file writes it where it belongs, or reports why not, and then there was no room for it. -/
theorem packFile_leads (hK : K.Fits) (hf : ¬K.faulty) (h : Target K W T place base t n) (hname : Nameable n name)
    (data : ByteArray) : Leads (Mounts K) W (packFile (Path.join place name) data)
      (Packed K W place base t n [([name], .file data)]) := by
  apply Leads.of_shown
  intro v hv
  have hsize := h.size_le hv
  have hmade := Copied.madeBy_file data
  unfold packFile
  apply Leads.attemptVolumeBind (Volume.importFile_leads hK hf h.ordered (hname.nulFree_path h)
    (fun absolute habs => (hname.isEntry habs).below) data)
  · rintro r W₁ (⟨rfl, -⟩ | ⟨⟨e, rfl⟩, -⟩)
    · exact sober_ok
    · exact sober_failed
  · rintro done W₂ (⟨hdone, absolute, d, k, b, n₁, m, W₁, m', habs, ha, hw⟩ | ⟨⟨e, he⟩, -⟩)
    swap
    · cases he
    cases hdone
    -- The file was made and written, so its blocks and its slot are what the count of a copy says.
    obtain ⟨rfl, rfl, hroom⟩ := h.hasRoom_of_added hsize hname habs hmade ha
    have hkind := ha.created.kind
    have hO := ha.ordered.becomes hw.becomes ha.node (hw.file.trans hkind.symm) fun hdir => by simp [hkind] at hdir
    have hc := h.copies hname (hname.isEntry habs) hmade ha hw.becomes (hw.becomes.names ha.node hkind hw.file)
      hw.free ⟨hw.file, hw.contents⟩
    exact Leads.pure (.inl ⟨[], rfl, hroom, n₁, _, hO, hc⟩)
  · rintro e W₁ (⟨he, -⟩ | ⟨-, hno⟩)
    · cases he
    · -- An import that fails says so, and it fails only for want of room.
      exact Leads.pure (.inr ⟨[], _, rfl, h.not_hasRoom hsize hname hmade hno⟩)

/-- The new directory is a target itself. -/
theorem Target.inside (h : Target K W T place base t n) (hname : Nameable n name)
    (hentry : Path.IsEntry place name absolute) (ha : W.Added K T absolute 0 true t n b n₁ m W₁)
    (hc : Copies K W W₁ base t n n₁ [([name], c)]) :
    Target K W₁ (T.link b t (Path.leafPart absolute)) (Path.join place name) (base ++ [name]) b m := by
  have hkind := ha.created.kind
  have hchild : W₁.pool.child t name = some b := by
    rw [ha.grafted.child, hentry.leaf, Function.update_self]
  -- The new directory is reached by one more name, both by walking and in the tree.
  constructor
  · exact ha.ordered
  · exact ha.node
  · exact hkind
  · rw [hname.components, Pool.resolve_concat_iff]
    exact ⟨t, hc.ways _ _ h.resolves, hchild, (Pool.isDirectory_of_node ha.node).trans hkind⟩
  · rw [Pool.tree_concat_of (d := t) _ hname.notDot, hchild]
    rw [hc.others base, h.tree]
    simp

theorem packDirectory_leads {fill : VolumeM Packing} (hK : K.Fits) (hf : ¬K.faulty)
    (h : Target K W T place base t n) (hname : Nameable n name) (hne : ∀ p ∈ l, p.1 ≠ [])
    (hfill : ∀ W₁ T₁ d m, Target K W₁ T₁ (Path.join place name) (base ++ [name]) d m →
      m.child = Volume.dots d t →
        Leads (Mounts K) W₁ fill (Packed K W₁ (Path.join place name) (base ++ [name]) d m l)) :
    Leads (Mounts K) W (packDirectory (Path.join place name) fill)
      (Packed K W place base t n (HostTree.within name l)) := by
  apply Leads.of_shown
  intro v hv
  have hsize := h.size_le hv
  have hmade := Copied.madeBy_directory
  unfold packDirectory
  apply Leads.attemptVolumeBind (Volume.create_leads hK h.ordered (hname.nulFree_path h) (by decide) 0 true)
  · rintro r W₁ (⟨rfl, -⟩ | ⟨-, ⟨e, rfl⟩, -⟩)
    · exact sober_ok
    · exact sober_failed
  · rintro u W₁ (⟨-, absolute, d, k, b, n₁, m, habs, ha⟩ | ⟨-, ⟨e, he⟩, -⟩)
    swap
    · cases he
    obtain ⟨rfl, rfl, hroom⟩ := h.hasRoom_of_added hsize hname habs hmade ha
    have hstay : W₁.Becomes b m W₁ := ⟨(Function.update_eq_self_iff.2 ha.node.symm).symm, rfl, rfl⟩
    have hc := h.copies hname (hname.isEntry habs) hmade ha hstay rfl rfl ha.created.kind
    obtain ⟨htidy, hdots⟩ := ha.created.directory rfl
    have hslots : m.slots = 2 := by rw [Node.slots, ha.created.table rfl, Nat.mul_div_cancel_left _ (by decide)]
    have hnames := Volume.card_names_dots hdots
    -- Nobody has the new directory open, so nothing keeps it from being written.
    have hdenials : W₁.denials b = 0 := by
      rw [World.denials, ha.opens, ha.closed]
      rfl
    have hfree := hc.free
    -- So what is left of the room is the room that packing into it has.
    have hiff : HasRoom K W place d k (HostTree.within name l) ↔ HasRoom K W₁ (Path.join place name) b m l := by
      rw [HasRoom, HasRoom, hslots, hnames, hdenials]
      apply Fits.within_iff hne hroom
      have hslots₁ : n₁.slots = max k.slots (k.names.card + 1) := hc.slots
      rw [← hslots₁, ← hfree, ← blocks_within_nil]
      rfl
    apply Leads.mono (hfill W₁ _ b m (h.inside hname (hname.isEntry habs) ha hc) hdots)
    rintro res W₂ (⟨lines, rfl, hinside, m₂, T₂, hO, hfilled⟩ | ⟨lines, e, rfl, hno⟩)
    · refine .inl ⟨lines, rfl, hiff.2 hinside, n₁, T₂, hO, ?_⟩
      apply hc.within h.node ha.created.fresh _ hslots hnames hfilled hne
      exact (h.inside hname (hname.isEntry habs) ha hc).tree
    · exact .inr ⟨lines, e, rfl, fun hroom => hno (hiff.1 hroom)⟩
  · rintro e W₁ (⟨he, -⟩ | ⟨hwhy, -⟩)
    · cases he
    · apply Leads.pure
      refine .inr ⟨[], _, rfl, fun hroom => ?_⟩
      exact h.not_hasRoom hsize hname hmade (hwhy.resolve_left hf) (Fits.bare hne hroom)

/-- After the first items have been copied there is room for the others exactly if there was for all. -/
theorem Copies.hasRoom_iff (hc : Copies K W W₁ base t n n₁ l₁) (hroom : HasRoom K W place t n l₁)
    (l₂ : List Item) :
    HasRoom K W place t n (l₁ ++ l₂) ↔ HasRoom K W₁ place t n₁ l₂ := by
  have hfree := hc.free
  have hdenials : W₁.denials t = W.denials t := by rw [World.denials, World.denials, hc.opens]
  rw [hc.slots] at hfree
  rw [HasRoom, HasRoom, hdenials, hc.slots, hc.names]
  exact Fits.append_iff hroom hfree

/-- Copying an entry and going on with the rest. -/
theorem announce_leads {line : String} {copy rest : VolumeM Packing} (hn : W.pool.nodes t = some n)
    (honce : ((l₁ ++ l₂).map Prod.fst).Nodup) (hcopy : Leads (Mounts K) W copy (Packed K W place base t n l₁))
    (hrest : ∀ W₁ T₁ n₁, W₁.Ordered K T₁ → Copies K W W₁ base t n n₁ l₁ →
      Leads (Mounts K) W₁ rest (Packed K W₁ place base t n₁ l₂)) :
    Leads (Mounts K) W (announce line copy rest) (Packed K W place base t n (l₁ ++ l₂)) := by
  unfold announce
  apply Leads.bind hcopy
  · rintro copied W₁ (⟨lines, hcopied, hroom, n₁, T₁, hO, hc⟩ | ⟨lines, e, hcopied, hno⟩)
    · cases hcopied
      -- There is room for all of them just if there is room for the rest after the first.
      have hiff := hc.hasRoom_iff hroom l₂
      apply Leads.bind (hrest W₁ T₁ n₁ hO hc)
      · rintro others W₂ (⟨lines', hothers, hroom', n₂, T₂, hO', hc'⟩ | ⟨lines', e, hothers, hno⟩)
        · cases hothers
          exact Leads.pure (.inl ⟨_, rfl, hiff.2 hroom', n₂, T₂, hO', hc.append hn hc' honce⟩)
        · cases hothers
          exact Leads.pure (.inr ⟨_, e, rfl, fun h => hno (hiff.1 h)⟩)
      · rintro e W₂ (⟨lines', hothers, -⟩ | ⟨lines', e', hothers, -⟩)
        · cases hothers
        · cases hothers
    · cases hcopied
      exact Leads.pure (.inr ⟨_, e, rfl, fun h => hno (Fits.left h)⟩)
  · rintro e W₁ (⟨lines, hcopied, -⟩ | ⟨lines, e', hcopied, -⟩)
    · cases hcopied
    · cases hcopied

/-- A name of an item that the directory does not have yet. -/
theorem Proper.nameable (h : Proper (([name], c) :: l)) (hshort : name.utf8ByteSize ≤ nameMax)
    (hnew : n.child name = none) : Nameable n name := by
  obtain ⟨hnamed, hword, hnul, hdot⟩ := h.named ([name], c) List.mem_cons_self name List.mem_cons_self
  exact ⟨hnamed, hword, hnul, hdot, hshort, hnew⟩

/-- Names that none of the items copied first has are as new as before. -/
theorem Copies.new (hc : Copies K W W₁ base t n n₁ l₁) (h : Proper (l₁ ++ l₂))
    (hnew : ∀ nm c, ([nm], c) ∈ l₁ ++ l₂ → n.child nm = none) :
    ∀ nm c, ([nm], c) ∈ l₂ → n₁.child nm = none := by
  intro nm c hmem
  rw [hc.child, hnew nm c (List.mem_append_right _ hmem)]
  intro c' hmem'
  have honce := h.once
  rw [List.map_append, List.nodup_append] at honce
  exact honce.2.2 _ (List.mem_map_of_mem hmem') _ (List.mem_map_of_mem hmem) rfl

/-- Packing a tree copies all its items into the directory if there is room for all of them, and otherwise it
stops. -/
theorem pack_leads (hK : K.Fits) (hf : ¬K.faulty) (tree : HostTree) (h : Target K W T place base t n)
    (hproper : Proper (items tree)) (hnew : ∀ nm c, ([nm], c) ∈ items tree → n.child nm = none) :
    Leads (Mounts K) W (pack place tree) (Packed K W place base t n (items tree)) := by
  induction tree generalizing W T place base t n with
  | empty =>
    apply Leads.of_shown
    intro v hv
    have hsize := h.size_le hv
    rw [h.tidy.size_eq] at hsize
    have hcard := h.tidy.card_names_le
    have hroom : HasRoom K W place t n [] := by
      constructor
      case table => exact (Nat.mul_le_mul_left _ (by simpa [tops] using hcard)).trans hsize
      all_goals simp [tops, blocks, hcard]
    exact Leads.pure (.inl ⟨[], rfl, hroom, n, T, h.ordered, .refl h⟩)
  | link name rest ih => exact ih h hproper hnew
  | file raw data rest ih =>
    rw [items] at hproper hnew ⊢
    rw [pack]
    cases hfitting : fittingName raw with
    | none =>
      simp only [hfitting] at hproper hnew
      exact ih h hproper hnew
    | some name =>
      simp only [hfitting] at hproper hnew
      obtain ⟨-, hshort⟩ := fittingName_eq_some.1 hfitting
      have hname := hproper.nameable hshort (hnew name _ List.mem_cons_self)
      -- The file is copied first, into a directory that then is a target for the rest.
      have hfirst := packFile_leads hK hf h hname data
      apply announce_leads h.node hproper.once hfirst
      intro W₁ T₁ n₁ hO hc
      exact ih (h.after hc hO (by simp)) (hproper.sublist (List.sublist_cons_self _ _)) (hc.new hproper hnew)
  | directory raw inside rest ih ih' =>
    rw [items] at hproper hnew ⊢
    rw [pack]
    cases hfitting : fittingName raw with
    | none =>
      simp only [hfitting] at hproper hnew
      exact ih' h hproper hnew
    | some name =>
      simp only [hfitting] at hproper hnew
      obtain ⟨-, hshort⟩ := fittingName_eq_some.1 hfitting
      have hname := hproper.nameable hshort (hnew name _ List.mem_cons_self)
      have hwithin := hproper.sublist (List.sublist_append_left _ _)
      have hinside : Proper (items inside) := Proper.of_under (hwithin.sublist (List.sublist_cons_self _ _))
      have hne : ∀ p ∈ HostTree.within name (items inside), p.1 ≠ [] := by
        intro p hp
        rcases mem_within.1 hp with rfl | ⟨q, -, rfl⟩
        · simp
        · simp [Item.under]
      apply announce_leads h.node hproper.once
      · apply packDirectory_leads hK hf h hname fun p hp => ne_nil_of_mem_items hp
        intro W₁ T₁ d m hd hdots
        apply ih hd hinside
        -- A new directory has the two names of its own only, and no host has these.
        intro nm c hmem
        obtain ⟨-, -, -, hdot⟩ := hinside.named _ hmem nm List.mem_cons_self
        rw [hdots, Volume.dots_none hdot]
      · intro W₁ T₁ n₁ hO hc
        exact ih' (h.after hc hO hne) (hproper.sublist (List.sublist_append_right _ _)) (hc.new hproper hnew)

end HostTree

end InodeVolume
