import InodeVolume.Proofs.CurrentDirectories
import InodeVolume.Proofs.Packing
import InodeVolume.Proofs.TreeChanges

/-!
# Trees that have been packed

A client can have a tree of the host packed into a directory (`Client.pack`). Where no access fails, the order in
which the host lists its directories is no matter: packing succeeds in every order or in none, it leaves as many
blocks free, and what the device shows afterwards is what the tree says (`Client.packs_in_any_order`). The
directory has gained all files, with their contents, and all directories that the volume can hold, and nothing
else is other than before (`Client.Receives`).
-/

namespace InodeVolume

/-- The volume can hold what the tree has at this place: all names on the way to it fit. -/
def HostTree.Copyable (tree : HostTree) (place : List String) (data : Option ByteArray) : Prop :=
  tree.Has place data ∧ ∀ name ∈ place, name.utf8ByteSize ≤ nameMax

namespace Client

open HostTree

/-- Packs a tree of the host into the directory at a path. -/
def pack (c : Client) (place : String) (tree : HostTree) : Except Stop Packing × Client :=
  match packSource place (some tree) c.volume with
  | .ok p v => (.ok p, { c with volume := v })
  | .error e v => (.error e, { c with volume := v })

/-- Packing succeeds. -/
def Packs (c : Client) (place : String) (tree : HostTree) : Prop :=
  ∃ lines, (c.pack place tree).1 = .ok ⟨lines, .ok ()⟩

/-- How an inode is open: by how many openers, whether it has been removed, and how many of them deny writing. -/
def openings (c : Client) (x : UInt32) : Option (Nat × Bool × Nat) :=
  c.volume.registry[x]?.map fun e => (e.openers, e.removed, e.denials)

/-- Directory `t`, at `base` in the tree, has received what the volume can hold of a tree of the host. Nothing
else has changed, in the tree or out of it, and the same is open as before. -/
structure Receives (c c' : Client) (base : List String) (t : UInt32) (tree : HostTree) : Prop where
  gained : ∀ q data, tree.Copyable q data → ∃ b m, ¬c.Uses b ∧ c'.pool.tree (base ++ q) = some b ∧
    c'.pool.nodes b = some m ∧ m.Carries data
  others : ∀ q, (∀ q' data, tree.Copyable q' data → q ≠ base ++ q') → c'.pool.tree q = c.pool.tree q
  names : ∀ name, (∀ data, ¬tree.Copyable [name] data) → c'.pool.child t name = c.pool.child t name
  nodes : ∀ x, c.Uses x → x ≠ t → c'.pool.nodes x = c.pool.nodes x
  uses : ∀ x, c'.Uses x ↔ c.Uses x ∨ ∃ q data, tree.Copyable q data ∧ c'.pool.tree (base ++ q) = some x
  handles : c'.handles = c.handles
  openings : ∀ x, c'.openings x = c.openings x

section Stands

variable {K : Regime} {W W' : World} {T T' : Hierarchy} {c c' : Client} {place : String} {base : List String}
  {t x : UInt32} {n n' : Node} {tree tree' : HostTree}

theorem Stands.openings_eq (h : c.Stands K W T) (x : UInt32) :
    c.openings x = (W.opens x).map fun o => (o.openers, o.removed, o.denials) := by
  rw [openings, h.mounts.registry x, World.entry]
  cases ho : W.opens x with
  | none => rfl
  | some o =>
    obtain ⟨n, hn⟩ := Option.ne_none_iff_exists'.1 (h.mounts.live x (by simp [ho]))
    simp [hn]

/-- Packing succeeds exactly if there is room for all items, and then it has copied them. -/
theorem Stands.packs (hf : ¬K.faulty) (h : c.Stands K W T) (ht : Target K W T place base t n)
    (hproper : Proper tree.items) (hnew : ∀ name a, ([name], a) ∈ tree.items → n.child name = none) :
    (c.Packs place tree ↔ HasRoom K W place t n tree.items) ∧
      (c.Packs place tree → (c.pack place tree).2.handles = c.handles ∧
        ∃ W' T' n', (c.pack place tree).2.Stands K W' T' ∧ Copies K W W' base t n n' tree.items) := by
  rcases (pack_leads h.fits hf tree ht hproper hnew).run h.mounts with
    ⟨p, v, W', hrun, hmounts, hpacked⟩ | ⟨e, v, W', hrun, -, hpacked⟩
  · have hpack : c.pack place tree = (.ok p, { c with volume := v }) := by
      simp only [pack, packSource, hrun]
    rcases hpacked with ⟨lines, hp, hroom, n', T', hO, hc⟩ | ⟨lines, e, hp, hno⟩
    · cases hp
      constructor
      · exact iff_of_true ⟨lines, by rw [hpack]⟩ hroom
      · intro _
        rw [hpack]
        exact ⟨rfl, W', T', n', ⟨h.fits, hmounts, hO, h.good.tracks.of_opens hc.opens⟩, hc⟩
    · cases hp
      have hfails : ¬c.Packs place tree := by
        rintro ⟨lines', hlines⟩
        rw [hpack] at hlines
        cases hlines
      exact ⟨iff_of_false hfails hno, fun hpacks => absurd hpacks hfails⟩
  · -- What fails on the volume is part of what packing answers, so packing itself does not fail.
    rcases hpacked with ⟨lines, hp, -⟩ | ⟨lines, e', hp, -⟩
    · cases hp
    · cases hp

/-- What has been copied into a directory is there on the device, and all else is as it was. -/
theorem Stands.receives (hf : ¬K.faulty) (h : c.Stands K W T) (h' : c'.Stands K W' T')
    (hhandles : c'.handles = c.handles) (ht : Target K W T place base t n)
    (hc : Copies K W W' base t n n' tree.items) : c.Receives c' base t tree := by
  have hkept (x : UInt32) (hx : W.pool.nodes x ≠ none) : W'.pool.nodes x ≠ none := by
    by_cases hxt : x = t
    · simp [hxt, hc.node]
    · rwa [hc.kept x hxt hx]
  have hothers (q : List String) (hq : ∀ q' data, tree.Copyable q' data → q ≠ base ++ q') :
      W'.pool.tree q = W.pool.tree q := by
    apply hc.others
    intro p hp
    exact hq p.1 p.2.data (exists_item_iff.1 ⟨p, hp, rfl, rfl⟩)
  constructor
  case gained =>
    intro q data hq
    obtain ⟨p, hp, rfl, rfl⟩ := exists_item_iff.2 hq
    obtain ⟨b, m, hfresh, htree, hnode, hcarries⟩ := hc.gained p hp
    refine ⟨b, m, ?_, ?_, h'.node hnode, hcarries⟩
    · rw [h.uses_iff hf]
      exact fun hno => hno hfresh
    · rw [h'.tree_eq, htree]
  case others =>
    intro q hq
    rw [h.tree_eq, h'.tree_eq, hothers q hq]
  case names =>
    intro name hname
    rw [Pool.child_of_node (h'.node hc.node) hc.isDirectory, Pool.child_of_node (h.node ht.node) ht.isDirectory]
    apply hc.child
    intro a hmem
    exact hname a.data (exists_item_iff.1 ⟨_, hmem, rfl, rfl⟩)
  case nodes =>
    intro x hx hxt
    have hx := (h.uses_iff hf).1 hx
    rw [h.nodes_eq hx, h'.nodes_eq (hkept x hx), hc.kept x hxt hx]
  case uses =>
    intro x
    rw [h.uses_iff hf, h'.uses_iff hf, h'.tree_eq]
    constructor
    · intro hx
      by_cases hold : W.pool.nodes x = none
      · -- Nothing that is not stored is open, so what is new is in the tree.
        right
        rcases h'.good.ordered.known hf x hx with hl | ⟨o, ho, -⟩
        · obtain ⟨q, hq⟩ := h'.exists_place hf hl
          by_contra hno
          rw [hothers q] at hq
          · exact h.good.ordered.rooted.stored x (h.good.ordered.rooted.linked_tree hq) hold
          · rintro q' data hcopy rfl
            exact hno ⟨q', data, hcopy, hq⟩
        · rw [hc.opens] at ho
          exact absurd hold (h.mounts.live x (by simp [ho]))
      · exact .inl hold
    · rintro (hx | ⟨q, data, -, hq⟩)
      · exact hkept x hx
      · exact h'.good.ordered.rooted.stored x (h'.good.ordered.rooted.linked_tree hq)
  case handles => exact hhandles
  case openings =>
    intro x
    rw [h.openings_eq, h'.openings_eq, hc.opens]

end Stands

variable {c : Client} {place : String} {t : UInt32} {tree tree' : HostTree}

/-- Whether packing succeeds, what it leaves and how many blocks are free then does not depend on the order in
which the host lists its directories. If it succeeds, the directory at the path has received all that the volume
can hold of the tree. -/
theorem packs_in_any_order (h : c.Reached False) (hplace : c.OpensAt place "/" t) (hproper : Proper tree.items)
    (hnew : ∀ name data, tree.Has [name] data → c.pool.child t name = none) (hr : tree.Reordered tree') :
    (c.Packs place tree ↔ c.Packs place tree') ∧ (c.Packs place tree → ∃ base, c.pool.tree base = some t ∧
      c.Receives (c.pack place tree).2 base t tree ∧ c.Receives (c.pack place tree').2 base t tree ∧
        (c.pack place tree).2.device.free = (c.pack place tree').2.device.free) := by
  obtain ⟨K, W, T, hfaulty, hs⟩ := h.stands
  have hf : ¬K.faulty := by simp [hfaulty]
  have hO := hs.good.ordered
  have hperm := hr.items_perm
  -- The path leads to a directory of the tree, which has a place there.
  obtain ⟨absolute, habs, hresolve⟩ := hs.resolved_of_opensAt hplace
  rw [Path.components_toAbsolute_root habs] at hresolve
  obtain ⟨hlinked, hdir⟩ := hO.rooted.linked_resolve hO.rooted.root hO.rooted.rootDirectory hresolve
  obtain ⟨n, hn, hndir⟩ := Pool.isDirectory_node hdir
  obtain ⟨base, hbase⟩ := hs.exists_place hf hlinked
  have ht : Target K W T place base t n := ⟨hO, hn, hndir, hresolve, hbase⟩
  have hfree (name : String) (a : Copied) (ha : ([name], a) ∈ tree.items) : n.child name = none := by
    rw [← Pool.child_of_node (hs.node hn) hndir]
    exact hnew name a.data (exists_item_iff.1 ⟨_, ha, rfl, rfl⟩).1
  have hpacks := hs.packs hf ht hproper hfree
  have hpacks' := hs.packs hf ht (hproper.perm hperm) fun name a ha => hfree name a (hperm.mem_iff.2 ha)
  have hiff : c.Packs place tree ↔ c.Packs place tree' := by
    rw [hpacks.1, hpacks'.1]
    exact ⟨fun hroom => Fits.perm hroom hperm, fun hroom => Fits.perm hroom hperm.symm⟩
  refine ⟨hiff, fun hsucceeds => ⟨base, ?_, ?_⟩⟩
  · rw [hs.tree_eq, hbase]
  · obtain ⟨hhandles, W₁, T₁, n₁, hs₁, hc₁⟩ := hpacks.2 hsucceeds
    obtain ⟨hhandles', W₂, T₂, n₂, hs₂, hc₂⟩ := hpacks'.2 (hiff.1 hsucceeds)
    have hc₂ := hc₂.perm hperm.symm
    refine ⟨hs.receives hf hs₁ hhandles ht hc₁, hs.receives hf hs₂ hhandles' ht hc₂, ?_⟩
    exact hs₁.mounts.disk.free.trans ((hc₁.free_eq hc₂).trans hs₂.mounts.disk.free.symm)

/-- A host may list a directory with a file in it before another file or after it. -/
theorem exists_reordered : ∃ tree tree' : HostTree, tree.Reordered tree' ∧
    tree.Copyable ["sub", "b"] (some ⟨#[7]⟩) ∧ (∀ name data, tree.Has [name] data → isDotName name = false) ∧
      tree.items = [(["sub"], .directory 1), (["sub", "b"], .file ⟨#[7]⟩), (["a"], .file ⟨#[]⟩)] := by
  refine ⟨_, _, .swap (.directory (some "sub") (.file (some "b") ⟨#[7]⟩ .empty)) (.file (some "a") ⟨#[]⟩) .empty,
    ⟨?_, by decide⟩, ?_, rfl⟩
  · exact .inl ⟨"sub", rfl, .inr ⟨["b"], rfl, .inl ⟨"b", rfl, rfl, rfl⟩⟩⟩
  · intro name data hhas
    simp only [Entry.cons, Has, Option.some.injEq, List.cons.injEq, and_true, or_false] at hhas
    rcases hhas with ⟨nm, rfl, ⟨rfl, -⟩ | ⟨below, ⟨rfl, -⟩, -⟩⟩ | ⟨nm, rfl, rfl, -⟩
    · decide
    · decide
    · decide

/-- The root of a device of sixteen blocks has room for a directory with a file in it and for another file. -/
theorem exists_packs : ∃ (c : Client) (tree tree' : HostTree), c.Reached False ∧ c.OpensAt "/" "/" rootInode ∧
    Proper tree.items ∧ (∀ name data, tree.Has [name] data → c.pool.child rootInode name = none) ∧
      tree.Reordered tree' ∧ tree.Copyable ["sub", "b"] (some ⟨#[7]⟩) ∧ c.Packs "/" tree := by
  have hfits : Regime.Fits ⟨16, False⟩ := ⟨by decide, by decide⟩
  obtain ⟨c, W, m, hstarts, hs, hopens, hbare, hcount⟩ := exists_starts_bare hfits
  obtain ⟨tree, tree', hr, hcopy, hnames, hitems⟩ := exists_reordered
  have hm := hbare.node
  have hresolve : W.pool.resolve rootInode (Path.components "/") = .ok rootInode := by
    rw [Path.components_root, Pool.resolve_nil]
  have ht : Target ⟨16, False⟩ W Hierarchy.rootOnly "/" [] rootInode m :=
    ⟨hs.good.ordered, hm, hbare.isDirectory, hresolve, Pool.tree_nil _⟩
  have hproper : Proper tree.items := by
    rw [hitems]
    constructor
    · decide
    · decide
  have hroom : HasRoom ⟨16, False⟩ W "/" rootInode m tree.items := by
    have htops : tops tree.items = 2 := by
      rw [hitems]
      decide
    have hblocks : HostTree.blocks tree.items = 5 := by
      rw [hitems]
      decide
    have hstart : Regime.dataStart ⟨16, False⟩ = 2 := by decide
    have hmax : max Volume.rootSlots (2 + 2) = Volume.rootSlots := by decide
    rw [HasRoom, hbare.slots, Volume.card_names_dots hbare.child]
    constructor
    case short =>
      rw [hitems]
      intro p hp
      simp only [List.mem_cons, List.not_mem_nil, or_false] at hp
      rcases hp with rfl | rfl | rfl
      · exact ⟨"/sub", by decide⟩
      · exact ⟨"/sub/b", by decide⟩
      · exact ⟨"/a", by decide⟩
    case small =>
      rw [hitems]
      decide
    case writable => simp [World.denials, hopens]
    case table =>
      rw [htops]
      decide
    case space =>
      rw [hblocks, htops, hmax]
      omega
  -- The root has only the two names that no host has.
  have hnew (name : String) (hname : isDotName name = false) : m.child name = none := by
    rw [hbare.child, Volume.dots_none hname]
  have hpacks := (hs.packs id ht hproper fun name a hmem =>
    hnew name (hproper.named _ hmem name List.mem_cons_self).2.2.2).1.2 hroom
  refine ⟨c, tree, tree', ⟨_, c, [], hstarts, .nil c⟩, hs.opensAt (by decide) hresolve, hproper, ?_, hr, hcopy,
    hpacks⟩
  intro name data hhas
  rw [Pool.child_of_node (hs.node hm) hbare.isDirectory]
  exact hnew name (hnames name data hhas)

/-- What is packed into the root of this device. -/
theorem packs_in_any_order_at_root : ∃ (c : Client) (tree tree' : HostTree), c.Reached False ∧
    c.OpensAt "/" "/" rootInode ∧ tree.Reordered tree' ∧ tree.Copyable ["sub", "b"] (some ⟨#[7]⟩) ∧
      c.Packs "/" tree ∧ c.Packs "/" tree' ∧ ∃ base, c.pool.tree base = some rootInode ∧
        c.Receives (c.pack "/" tree).2 base rootInode tree ∧ c.Receives (c.pack "/" tree').2 base rootInode tree ∧
          (c.pack "/" tree).2.device.free = (c.pack "/" tree').2.device.free := by
  obtain ⟨c, tree, tree', hreached, hplace, hproper, hnew, hr, hcopy, hpacks⟩ := exists_packs
  obtain ⟨hiff, hreceives⟩ := packs_in_any_order hreached hplace hproper hnew hr
  exact ⟨c, tree, tree', hreached, hplace, hr, hcopy, hpacks, hiff.1 hpacks, hreceives hpacks⟩

end Client

end InodeVolume
