import InodeVolume.Proofs.SuccessfulCalls
import InodeVolume.Proofs.Views

/-!
# Current directories

Changing directory folds dots by the letters of a path, a walk follows the entries `.` and `..` that it
finds. In a tree in which every directory has these two entries both come to the same place
(`Rooted.resolve_folded`): a name leads down from the directory that `..` leads back to.

Main statement: the current directory that a client gets is canonical, leads where the path that it asked
for leads, and so does every relative path from there (`changeDirectory_agrees`).
-/

namespace InodeVolume

namespace Pool

variable {P : Pool} {T : Hierarchy} {d t : UInt32}

/-- A step from a place leads where following it by letters leads. -/
theorem Rooted.resolve_follow (hR : P.Rooted T) (hD : P.Dotted T) {place : List String} {name : String}
    (hplace : ∀ w ∈ place, isDotName w = false)
    (ht : P.resolve rootInode (place.reverse ++ [name]) = .ok t) :
    P.resolve rootInode (Path.follow place name).reverse = .ok t := by
  obtain ⟨d, hd, hc, -⟩ := resolve_concat_iff.1 ht
  obtain ⟨hlinked, hdir⟩ := hR.linked_resolve hR.root hR.rootDirectory hd
  obtain ⟨hself, habove⟩ := hD d hlinked hdir
  unfold Path.follow
  split
  · rename_i hname
    rw [hname, habove, Option.some_inj] at hc
    cases place with
    | nil =>
      -- Above the root there is only the root.
      cases hd
      rw [hR.top] at hc
      rw [← hc]
      rfl
    | cons w place =>
      rw [List.reverse_cons] at hd
      obtain ⟨b, hb, hchild, -⟩ := resolve_concat_iff.1 hd
      obtain ⟨hb', -⟩ := hR.linked_resolve hR.root hR.rootDirectory hb
      obtain ⟨-, -, hparent, -⟩ := hR.place hb' hchild (hplace w List.mem_cons_self)
      rw [← hc, hparent]
      exact hb
  · split
    · rename_i hname
      rw [hname, hself, Option.some_inj] at hc
      rw [← hc]
      exact hd
    · rw [List.reverse_cons]
      exact ht

theorem Rooted.resolve_foldl_follow (hR : P.Rooted T) (hD : P.Dotted T) {place names : List String}
    (hplace : ∀ w ∈ place, isDotName w = false)
    (ht : P.resolve rootInode (place.reverse ++ names) = .ok t) :
    P.resolve rootInode (names.foldl Path.follow place).reverse = .ok t := by
  induction names generalizing place with
  | nil => simpa using ht
  | cons name names ih =>
    -- The walk comes past the directory that the first name leads to.
    rw [List.append_cons, resolve_append] at ht
    cases hd : P.resolve rootInode (place.reverse ++ [name]) with
    | error e =>
      rw [hd] at ht
      cases ht
    | ok d =>
      have hfollow := hR.resolve_follow hD hplace hd
      have hnames : ∀ w ∈ Path.follow place name, isDotName w = false :=
        @Path.isDotName_foldl_follow [name] place hplace
      rw [hd] at ht
      apply ih hnames
      rw [resolve_append, hfollow]
      exact ht

/-- Where a path leads, its components lead that are left when dots have been followed. -/
theorem Rooted.resolve_folded (hR : P.Rooted T) (hD : P.Dotted T) {path : String}
    (ht : P.resolve rootInode (Path.components path) = .ok t) :
    P.resolve rootInode (Path.folded path) = .ok t := by
  have hnil : ∀ w ∈ ([] : List String), isDotName w = false := by simp
  exact hR.resolve_foldl_follow hD hnil ht

end Pool

/-- What changing directory answers is the normal form of a path that leads to a directory. -/
theorem Names.place_eq_ok {N : Names} {path cwd here : String} (h : N.place path cwd = .ok here) :
    ∃ absolute t, Path.toAbsolute path cwd = .ok absolute ∧ Path.isAbsolute absolute = true ∧
      N.resolve rootInode (Path.components absolute) = .ok t ∧ here = Path.normalize absolute := by
  -- Each of the three steps must have succeeded: making the path absolute, walking it, and giving it its
  -- normal form.
  unfold Names.place at h
  cases ha : Path.toAbsolute path cwd with
  | error e =>
    rw [ha] at h
    cases h
  | ok absolute =>
    cases ht : N.resolve rootInode (Path.components absolute) with
    | error e =>
      simp [ha, Except.bind, ht, Except.map] at h
    | ok t =>
      simp only [ha, Except.bind, ht, Except.map, Path.normalize?] at h
      by_cases habs : Path.isAbsolute absolute = true
      · simp only [habs, if_true, Option.elim_some, Except.ok.injEq] at h
        exact ⟨absolute, t, rfl, habs, ht, h.symm⟩
      · simp [habs] at h

namespace Client

variable {K : Regime} {W : World} {T : Hierarchy} {c c' : Client} {path cwd here : String} {t : UInt32}

/-- Opening the directory at a path gives a handle of `t`. -/
def OpensAt (c : Client) (path cwd : String) (t : UInt32) : Prop :=
  (c.step (.openDirectory path cwd)).1 = .ok .done ∧
    (c.step (.openDirectory path cwd)).2.handles = c.handles ++ [.directory (directoryAt t)]

/-- Opening a directory tells where its path leads. -/
theorem Stands.opens_path (h : c.Stands K W T) (path cwd : String) :
    ((c.step (.openDirectory path cwd)).1, (c.step (.openDirectory path cwd)).2.handles) =
      match (Path.toAbsolute path cwd).bind fun absolute =>
        W.pool.resolve rootInode (Path.components absolute) with
      | .ok t => (.ok .done, c.handles ++ [.directory (directoryAt t)])
      | .error e => (.error (.failed e), c.handles) := by
  obtain ⟨res, W', hres, hanswer, hhandles, -⟩ := step_of_leads (q := .openDirectory path cwd) h.mounts
    (Call.arrives_map (Volume.openDirectory_leads h.fits h.good.ordered.rooted.walkable h.good.ordered.attended path cwd))
  replace hres : W.Arrives (fun x => (Answer.done, c.handles ++ [.directory (directoryAt x)])) _ res W' := hres
  rw [hanswer, hhandles]
  -- The handle is added to the others exactly if the walk ends at a directory.
  cases hr : (Path.toAbsolute path cwd).bind fun absolute =>
      W.pool.resolve rootInode (Path.components absolute) with
  | error e =>
    rw [hr] at hres
    rw [hres.1]
    rfl
  | ok t =>
    rw [hr] at hres
    rw [hres.1]
    rfl

/-- Opening a directory tells where the components of its path lead. -/
theorem Stands.opens_resolved (h : c.Stands K W T) {absolute : String}
    (ha : Path.toAbsolute path cwd = .ok absolute) :
    ((c.step (.openDirectory path cwd)).1, (c.step (.openDirectory path cwd)).2.handles) =
      match W.pool.resolve rootInode (Path.components absolute) with
      | .ok t => (.ok .done, c.handles ++ [.directory (directoryAt t)])
      | .error e => (.error (.failed e), c.handles) := by
  rw [h.opens_path, ha]
  rfl

/-- A path by which a directory can be opened leads to it. -/
theorem Stands.resolved_of_opensAt (h : c.Stands K W T) (ht : c.OpensAt path cwd t) :
    ∃ absolute, Path.toAbsolute path cwd = .ok absolute ∧
      W.pool.resolve rootInode (Path.components absolute) = .ok t := by
  have hopens := h.opens_path path cwd
  rw [ht.1, ht.2] at hopens
  cases ha : Path.toAbsolute path cwd with
  | error e => simp [ha, Except.bind] at hopens
  | ok absolute =>
    cases hr : W.pool.resolve rootInode (Path.components absolute) with
    | error e => simp [ha, Except.bind, hr] at hopens
    | ok t' =>
      simp only [ha, Except.bind, hr, Prod.mk.injEq, true_and] at hopens
      obtain rfl : t = t' := by simpa using hopens
      exact ⟨absolute, rfl, hr⟩

theorem Stands.opensAt (h : c.Stands K W T) {absolute : String}
    (ha : Path.toAbsolute path cwd = .ok absolute)
    (ht : W.pool.resolve rootInode (Path.components absolute) = .ok t) : c.OpensAt path cwd t := by
  have hopens := h.opens_resolved ha
  rw [ht, Prod.mk.injEq] at hopens
  exact hopens

/-- Changing directory answers where it comes to, and leaves the world and the handles as they are. -/
theorem Stands.changes_directory (h : c.Stands K W T) (path cwd : String) :
    (c.step (.changeDirectory path cwd)).1 = (W.pool.names.place path cwd).map .place ∧
      (c.step (.changeDirectory path cwd)).2.handles = c.handles ∧
      (c.step (.changeDirectory path cwd)).2.Stands K W T := by
  obtain ⟨res, W', ⟨r, ⟨rfl, rfl⟩, rfl⟩, hanswer, hhandles, hmounts⟩ :=
    step_of_leads (q := .changeDirectory path cwd) h.mounts
      (Leads.mapBind (Volume.changeDirectory_leads h.fits h.good.ordered.rooted.walkable h.good.ordered.attended path cwd))
  rw [Call.kept_map] at hhandles
  refine ⟨?_, hhandles, h.fits, hmounts, hhandles ▸ h.good⟩
  rw [hanswer]
  cases W'.pool.names.place path cwd <;> rfl

/-- The current directory that a client gets is canonical and short enough. It leads to the same directory as
the path that the client asked for, followed entry by entry, and relative paths lead from the one where they
lead from the other. -/
theorem changeDirectory_agrees (h : c.Reached False)
    (hq : c.step (.changeDirectory path cwd) = (.ok (.place here), c')) :
    Path.Canonical here ∧ here.utf8ByteSize ≤ Path.pathMax ∧ c'.handles = c.handles ∧
      (∃ absolute t, Path.toAbsolute path cwd = .ok absolute ∧ c'.OpensAt absolute "/" t ∧
        c'.OpensAt here "/" t) ∧
      ∀ q whole whole', path ≠ "" → Path.isAbsolute q = false → Path.toAbsolute q here = .ok whole →
        Path.toAbsolute (path ++ "/" ++ q) cwd = .ok whole' →
        (c'.step (.openDirectory q here)).1 = (c'.step (.openDirectory (path ++ "/" ++ q) cwd)).1 ∧
          (c'.step (.openDirectory q here)).2.handles =
            (c'.step (.openDirectory (path ++ "/" ++ q) cwd)).2.handles := by
  obtain ⟨K, W, T, hfaulty, hs⟩ := h.stands
  have hf : ¬K.faulty := by simp [hfaulty]
  have hR := hs.good.ordered.rooted
  obtain ⟨hanswer, hhandles, hs'⟩ := hs.changes_directory path cwd
  rw [hq] at hanswer hhandles hs'
  -- The answer is the normal form of a path that leads to a directory.
  have hplace : W.pool.names.place path cwd = .ok here := by
    cases hp : W.pool.names.place path cwd with
    | error e => simp [hp, Except.map] at hanswer
    | ok p => simpa [hp, Except.map] using hanswer.symm
  obtain ⟨absolute, t, ha, habs, ht, rfl⟩ := Names.place_eq_ok hplace
  have hcanonical := Path.canonical_normalize absolute
  have hshort := (Path.toAbsolute_eq_ok ha).2
  have hsize := (Path.utf8ByteSize_normalize_le habs).trans hshort
  have ht' : W.pool.resolve rootInode (Path.components (Path.normalize absolute)) = .ok t := by
    rw [Path.components_normalize]
    exact hR.resolve_folded (hs.good.ordered.dotted hf) ht
  refine ⟨hcanonical, hsize, hhandles, ⟨absolute, t, ha, ?_, ?_⟩, ?_⟩
  · exact hs'.opensAt (Path.toAbsolute_of_isAbsolute habs hshort) ht
  · exact hs'.opensAt (Path.toAbsolute_of_isAbsolute hcanonical.absolute hsize) ht'
  · intro q whole whole' hne hq hwhole hwhole'
    have hopens := hs'.opens_resolved hwhole
    have hopens' := hs'.opens_resolved hwhole'
    -- Both ways come to the directory first and then follow the same components.
    have hsame : W.pool.resolve rootInode (Path.components whole) =
        W.pool.resolve rootInode (Path.components whole') := by
      rw [Path.components_toAbsolute hwhole, Path.components_toAbsolute_separated hne ha hwhole', hq,
        if_neg (by simp), Pool.resolve_append, Pool.resolve_append, ht']
      congr 1
      exact ht.symm
    rw [hsame, ← hopens', Prod.mk.injEq] at hopens
    exact hopens

/-- A directory below the root is reached by way of itself and the root. The directory above it is opened from
there by either path. -/
theorem changeDirectory_agrees_below : ∃ (c c' : Client) (x : UInt32), c.Reached False ∧ x ≠ rootInode ∧
    c.step (.changeDirectory "d/.././d" "/") = (.ok (.place "/d"), c') ∧ Path.Canonical "/d" ∧
    c'.OpensAt "/d/.././d" "/" x ∧ c'.OpensAt "/d" "/" x ∧ c'.OpensAt ".." "/d" rootInode ∧
    (c'.step (.openDirectory ".." "/d")).1 = (c'.step (.openDirectory "d/.././d/.." "/")).1 := by
  have hfits : Regime.Fits ⟨8, False⟩ := ⟨by decide, by decide⟩
  obtain ⟨c, W, T, x, r, n, hfirst⟩ := exists_first 0 true hfits (by decide)
    (show Path.toAbsolute "/d" "/" = .ok "/d" by decide) (by decide) (by decide) (by decide) (by decide) (by decide)
    (by decide) (by decide)
  obtain ⟨c₀, hstarts, hrun⟩ := hfirst.run
  have hreached : c.Reached False := ⟨_, c₀, _, hstarts, hrun⟩
  have habs : Path.toAbsolute "d/.././d" "/" = .ok "/d/.././d" := by decide
  have hcomponents : Path.components "/d/.././d" = ["d", "..", ".", "d"] := by
    rw [Path.components_eq_filter]
    decide
  -- The names lead from the root down, up again, to itself, and down again.
  have hroot := hfirst.stands.good.ordered.rooted.rootDirectory
  have hdir : W.pool.isDirectory x = true := (Pool.isDirectory_of_node hfirst.node).trans hfirst.kind
  have hdown : W.pool.child rootInode "d" = some x := by
    rw [Pool.child_of_node hfirst.root hfirst.rootKind]
    exact hfirst.child
  have hself : W.pool.child rootInode "." = some rootInode := by
    rw [Pool.child_of_node hfirst.root hfirst.rootKind, hfirst.rootChild]
    rfl
  have hup : W.pool.child x ".." = some rootInode := by
    rw [Pool.child_of_node hfirst.node hfirst.kind, (hfirst.directory rfl).2]
    rfl
  have hresolve : W.pool.resolve rootInode ["d", "..", ".", "d"] = .ok x := by
    simp [Pool.resolve_cons, Pool.resolve_nil, hdown, hup, hself, hroot, hdir]
  have habove : W.pool.resolve rootInode ["d", ".."] = .ok rootInode := by
    simp [Pool.resolve_cons, Pool.resolve_nil, hdown, hup, hroot, hdir]
  have hnormal : Path.normalize? "/d/.././d" = some "/d" := by
    rw [Path.normalize?, Path.normalize, hcomponents]
    decide
  have hplace : W.pool.names.place "d/.././d" "/" = .ok "/d" := by
    simp [Names.place, habs, Except.bind, hcomponents, hresolve, Except.map, hnormal]
  obtain ⟨hanswer, -, hs'⟩ := hfirst.stands.changes_directory "d/.././d" "/"
  rw [hplace] at hanswer
  have hstep : c.step (.changeDirectory "d/.././d" "/") =
      (.ok (.place "/d"), (c.step (.changeDirectory "d/.././d" "/")).2) := Prod.ext hanswer rfl
  have hopenUp : (c.step (.changeDirectory "d/.././d" "/")).2.OpensAt ".." "/d" rootInode := by
    refine hs'.opensAt (show Path.toAbsolute ".." "/d" = .ok "/d/.." by decide) ?_
    rwa [show Path.components "/d/.." = ["d", ".."] by rw [Path.components_eq_filter]; decide]
  obtain ⟨hcanonical, -, -, ⟨absolute, t, ha, hopens, hopens'⟩, hrelative⟩ :=
    changeDirectory_agrees hreached hstep
  rw [habs] at ha
  cases ha
  -- The handle is of one inode only, so it is known which one the path leads to.
  obtain rfl : t = x := by
    obtain ⟨absolute, ha, ht⟩ := hs'.resolved_of_opensAt hopens
    rw [show Path.toAbsolute "/d/.././d" "/" = .ok "/d/.././d" by decide] at ha
    cases ha
    rw [hcomponents, hresolve] at ht
    exact (Except.ok.inj ht).symm
  exact ⟨c, _, t, hreached, hfirst.ne_root.symm, hstep, hcanonical, hopens, hopens', hopenUp,
    (hrelative ".." "/d/.." "/d/.././d/.." (by decide) (by decide) (by decide) (by decide)).1⟩

end Client

end InodeVolume
