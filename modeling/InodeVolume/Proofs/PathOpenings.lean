import InodeVolume.Proofs.CurrentDirectories
import InodeVolume.Proofs.FailingRemovals

/-!
# Two ways to open a path

A directory is opened by a walk over all components of its path. An inode is opened by a walk over those
before the last separator, and by looking up what stands behind it, the leaf. As programs the two differ by
one step:

* behind a path that has its last component for its leaf, or that names the root, a directory is what opening
  the inode gives, used as a directory (`openDirectory_eq`);
* behind a path that ends with separators below the root, the leaf is empty. Then the directory itself is
  opened first, and the empty name is looked up in it (`openInode_eq_of_slashed`). No entry has this name.

Main statement: the two agree on every path of the first kind, in every state of a volume, and on no path
of the second kind that leads somewhere (`Client.openings_compared`).
-/

namespace InodeVolume

namespace Path

variable {absolute : String}

/-- The path ends with a separator and does not name the root. -/
def Slashed (absolute : String) : Prop := isRoot absolute = false ∧ leafPart absolute = ""

instance (absolute : String) : Decidable (Slashed absolute) := inferInstanceAs (Decidable (_ ∧ _))

/-- Nothing is cut off a path whose leaf is empty. -/
theorem parentPart_of_slashed (h : Slashed absolute) : parentPart absolute = absolute := by
  simpa [h.2] using parent_append_leaf absolute

end Path

namespace Volume

variable {path parent name cwd absolute : String}

/-! ## The two as programs -/

/-- A way down that is longer by one name ends with one more step. -/
theorem descend_concat (d : Directory) (names : List String) (name : String) :
    descend d (names ++ [name]) =
      descend d names >>= fun e => (e.openEntry name).andThen e.close >>= Directory.ofInode := by
  induction names generalizing d with
  | nil => simp only [List.nil_append, descend, pure_bind, bind_pure]
  | cons first rest ih => simp only [List.cons_append, descend, ih, bind_assoc]

/-- The walk to an entry opens the entry in the directory above, and uses it as a directory. -/
theorem walk_concat (h : Path.components path = Path.components parent ++ [name]) :
    walk path = within parent (·.openEntry name) >>= Directory.ofInode := by
  simp only [walk, within, h, descend_concat, bind_assoc]

/-- The walk to the root opens it, and uses it as a directory. -/
theorem walk_root (h : Path.components path = []) :
    walk path = Inode.acquire rootInode >>= Directory.ofInode := by
  simp only [walk, h, descend, bind_pure, Directory.openRoot]

theorem openDirectory_of_toAbsolute (h : Path.toAbsolute path cwd = .ok absolute) :
    openDirectory path cwd = walk absolute := by
  simp only [openDirectory, h, VolumeM.resume, pure_bind]

theorem openInode_of_toAbsolute (h : Path.toAbsolute path cwd = .ok absolute) :
    openInode path cwd = if Path.isRoot absolute then Inode.acquire rootInode
      else within (Path.parentPart absolute) (·.openEntry (Path.leafPart absolute)) := by
  simp only [openInode, leaf_eq, h, Except.map, VolumeM.resume, pure_bind]

/-- Opening a directory is opening its inode and using it as a directory. -/
theorem openDirectory_eq (h : Path.toAbsolute path cwd = .ok absolute) (hs : ¬Path.Slashed absolute) :
    openDirectory path cwd = openInode path cwd >>= Directory.ofInode := by
  rw [openDirectory_of_toAbsolute h, openInode_of_toAbsolute h]
  cases hroot : Path.isRoot absolute with
  | true => exact walk_root (Path.isRoot_iff.1 hroot).2
  | false =>
    have hleaf : Path.leafPart absolute ≠ "" := fun he => hs ⟨hroot, he⟩
    exact walk_concat (Path.components_leaf hleaf)

/-- Behind a separator, opening an inode opens the directory and looks for the empty name in it. -/
theorem openInode_eq_of_slashed (h : Path.toAbsolute path cwd = .ok absolute) (hs : Path.Slashed absolute) :
    openInode path cwd = openDirectory path cwd >>= fun d => (d.openEntry "").andThen d.close := by
  rw [openDirectory_of_toAbsolute h, openInode_of_toAbsolute h, hs.1, hs.2, Path.parentPart_of_slashed hs]
  rfl

/-- A directory is opened exactly if its inode is and is one of a directory; then both are the same inode, and
the volume is left the same. -/
theorem openDirectory_eq_ok_iff (h : Path.toAbsolute path cwd = .ok absolute) (hs : ¬Path.Slashed absolute)
    {d : Directory} {v v' : Volume} : openDirectory path cwd v = .ok d v' ↔
      openInode path cwd v = .ok d.inode v' ∧ d.position = 0 ∧ d.inode.isDirectory v' = .ok true v' := by
  rw [openDirectory_eq h hs]
  simp only [Bind.bind, EStateM.bind]
  -- Both open the inode first. A directory handle also asks what it is, and starts at its first slot.
  cases ho : openInode path cwd v with
  | error e w => simp
  | ok i w =>
    simp only [Directory.ofInode_eq_ok_iff, EStateM.Result.ok.injEq]
    constructor
    · rintro ⟨rfl, rfl, hdir⟩
      exact ⟨⟨rfl, rfl⟩, rfl, hdir⟩
    · rintro ⟨⟨rfl, rfl⟩, hposition, hdir⟩
      exact ⟨rfl, by cases d; cases hposition; rfl, hdir⟩

end Volume

/-! ## Clients -/

namespace Client

variable {c : Client} {path cwd absolute : String}

/-- Behind a separator nothing is found: where there is a directory, and where there is none for the reason
that there is none. -/
theorem openInode_of_slashed (hc : c.Asked) (h : Path.toAbsolute path cwd = .ok absolute)
    (hs : Path.Slashed absolute) : (outcome (Volume.openInode path cwd) c.volume).1 =
      match (outcome (Volume.openDirectory path cwd) c.volume).1 with
      | .ok _ => .error (.failed .notFound)
      | .error e => .error e := by
  obtain ⟨K, W, T, hf, ha, hN⟩ := hc.named
  have hR := ha.stands.good.ordered.rooted.walkable
  have hW := ha.stands.good.ordered.attended
  obtain ⟨W₁, -, hdirectory⟩ :=
    (Volume.openDirectory_leads ha.stands.fits hR hW path cwd).comes ha.stands.mounts
  obtain ⟨W₂, -, hinode⟩ := (Volume.openInode_leads ha.stands.fits hR hW path cwd).comes ha.stands.mounts
  simp only [h, Except.bind, Pool.find_eq, hs.1, hs.2, Path.parentPart_of_slashed hs, Bool.false_eq_true,
    if_false] at hdirectory hinode
  cases hr : W.pool.resolve rootInode (Path.components absolute) with
  | error e =>
    rw [hr] at hdirectory hinode
    rw [hdirectory.1, hinode.1]
  | ok t =>
    simp only [hr, hN t, Option.elim_none] at hdirectory hinode
    rw [hdirectory.1, hinode.1]

/-- What opening a directory and opening an inode by the same path have to do with each other. In every
state of a volume they agree, unless the path ends with a separator below the root. Behind such a separator
opening an inode asks the directory for an entry with the empty name, which no directory has that has been
made by requests. -/
theorem openings_compared (h : Path.toAbsolute path cwd = .ok absolute) :
    (¬Path.Slashed absolute → ∀ (v : Volume) (d : Directory) (v' : Volume),
      Volume.openDirectory path cwd v = .ok d v' ↔ Volume.openInode path cwd v = .ok d.inode v' ∧
        d.position = 0 ∧ d.inode.isDirectory v' = .ok true v') ∧
    (Path.Slashed absolute →
      Volume.openInode path cwd =
        Volume.openDirectory path cwd >>= (fun d => (d.openEntry "").andThen d.close) ∧
      ∀ c : Client, c.Asked → (outcome (Volume.openInode path cwd) c.volume).1 =
        match (outcome (Volume.openDirectory path cwd) c.volume).1 with
        | .ok _ => .error (.failed .notFound)
        | .error e => .error e) :=
  ⟨fun hs _ _ _ => Volume.openDirectory_eq_ok_iff h hs,
    fun hs => ⟨Volume.openInode_eq_of_slashed h hs, fun _ hc => openInode_of_slashed hc h hs⟩⟩

/-- The same directory with and without a separator behind its name. -/
theorem openings_compared_nested : ∃ c : Client, c.Asked ∧
    Path.toAbsolute "/d" "/" = .ok "/d" ∧ Path.toAbsolute "/d/" "/" = .ok "/d/" ∧
    (∃ i v, Volume.openInode "/d" "/" c.volume = .ok i v ∧ i.isDirectory v = .ok true v ∧
      Volume.openDirectory "/d" "/" c.volume = .ok { inode := i } v ∧
      Volume.openDirectory "/d/" "/" c.volume = .ok { inode := i } v) ∧
    (outcome (Volume.openInode "/d/" "/") c.volume).1 = .error (.failed .notFound) := by
  obtain ⟨c, z, n, hc, hz, -⟩ := exists_nested
  have habs : Path.toAbsolute "/d" "/" = .ok "/d" := by decide
  have habs' : Path.toAbsolute "/d/" "/" = .ok "/d/" := by decide
  have hcomponents : Path.components "/d/" = Path.components "/d" := by
    rw [Path.components_eq_filter, Path.components_eq_filter]
    decide
  -- Both paths have the same components, so that they lead to the same directory.
  have hsame : Volume.openDirectory "/d/" "/" = Volume.openDirectory "/d" "/" := by
    rw [Volume.openDirectory_of_toAbsolute habs, Volume.openDirectory_of_toAbsolute habs', Volume.walk,
      Volume.walk, hcomponents]
  obtain ⟨K, W, T, ha⟩ := hc.abides
  have hS := ha.2.stands
  obtain ⟨W', hv, hd⟩ := (Volume.openDirectory_leads hS.fits hS.good.ordered.rooted.walkable
    hS.good.ordered.attended "/d" "/").comes hS.mounts
  simp only [habs, Except.bind, ← hS.resolve_eq hS.good.ordered.rooted.root, hz] at hd
  have hopen : ∃ v, Volume.openDirectory "/d" "/" c.volume = .ok (directoryAt z) v := by
    have hd := hd.1
    unfold outcome at hd
    cases ho : Volume.openDirectory "/d" "/" c.volume with
    | ok d v =>
      rw [ho] at hd
      cases hd
      exact ⟨v, rfl⟩
    | error e v =>
      rw [ho] at hd
      cases hd
  obtain ⟨v, hv⟩ := hopen
  obtain ⟨hi, -, hdir⟩ := ((openings_compared habs).1 (by decide) _ _ _).1 hv
  refine ⟨c, hc, habs, habs', ⟨⟨z⟩, v, hi, hdir, hv, hsame ▸ hv⟩, ?_⟩
  rw [((openings_compared habs').2 (by decide)).2 c hc, hsame, outcome, hv]

end Client

end InodeVolume
