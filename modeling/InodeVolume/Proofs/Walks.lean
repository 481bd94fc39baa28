import InodeVolume.Proofs.Directories
import InodeVolume.Proofs.Paths
import InodeVolume.Proofs.Trees
import InodeVolume.Volume.Namespace

/-!
# Walks

A walk opens one directory after the other and leaves only the last one open. Where it comes to can be
told from the entries alone (`Pool.resolve`), and the walk comes to it (`descend_leads`, `walk_leads`).
What is done in the directory at a path is done as if the directory had been open and stayed so
(`within_leads`).
-/

namespace InodeVolume

/-- All names: what each stands for in each directory, and what is a directory. -/
structure Names where
  child : UInt32 → String → Option UInt32
  isDirectory : UInt32 → Bool

/-- Where following names from directory `d` leads to. -/
def Names.resolve (N : Names) : UInt32 → List String → Except Error UInt32
  | d, [] => .ok d
  | d, name :: rest =>
    match N.child d name with
    | none => .error .notFound
    | some x => if N.isDirectory x then N.resolve x rest else .error .notADirectory

theorem Names.resolve_append (N : Names) {d : UInt32} (l l' : List String) :
    N.resolve d (l ++ l') = (N.resolve d l).bind fun x => N.resolve x l' := by
  induction l generalizing d with
  | nil => rfl
  | cons name rest ih =>
    rw [List.cons_append, resolve, resolve]
    cases N.child d name with
    | none => rfl
    | some x =>
      dsimp only
      split
      · exact ih
      · rfl

namespace Pool

/-- The names in the directories of a pool. -/
def names (P : Pool) : Names := ⟨P.child, P.isDirectory⟩

/-- Where following names from directory `d` of a pool leads to. -/
abbrev resolve (P : Pool) (d : UInt32) (l : List String) : Except Error UInt32 := P.names.resolve d l

theorem resolve_append (P : Pool) (d : UInt32) (l l' : List String) :
    P.resolve d (l ++ l') = (P.resolve d l).bind fun x => P.resolve x l' :=
  P.names.resolve_append l l'

theorem resolve_nil (P : Pool) (d : UInt32) : P.resolve d [] = .ok d := rfl

theorem resolve_cons (P : Pool) (d : UInt32) (name : String) (rest : List String) :
    P.resolve d (name :: rest) =
      match P.child d name with
      | none => .error .notFound
      | some x => if P.isDirectory x then P.resolve x rest else .error .notADirectory := rfl

variable {P P' : Pool} {T : Hierarchy} {d t x b : UInt32} {name : String}

/-- A path with one more name in it leads to a directory with that name, in the directory that the path
without it leads to. -/
theorem resolve_concat_iff {l : List String} : P.resolve d (l ++ [name]) = .ok x ↔
    ∃ t, P.resolve d l = .ok t ∧ P.child t name = some x ∧ P.isDirectory x = true := by
  rw [resolve_append]
  cases P.resolve d l with
  | error e => simp [Except.bind]
  | ok t =>
    have hlast : P.resolve t [name] = .ok x ↔ P.child t name = some x ∧ P.isDirectory x = true := by
      rw [resolve_cons]
      cases P.child t name with
      | none => simp
      | some y =>
        -- The last step comes to `y`, provided that it is a directory.
        by_cases hy : P.isDirectory y = true
        · simp only [if_pos hy, resolve_nil, Except.ok.injEq, Option.some.injEq]
          exact ⟨fun he => ⟨he, he ▸ hy⟩, And.left⟩
        · simp only [if_neg hy, reduceCtorEq, false_iff, Option.some.injEq, not_and]
          rintro rfl
          exact hy
    simpa [Except.bind] using hlast

/-- Names that lead somewhere have no zero characters. -/
theorem nulFree_of_resolve {l : List String} (h : P.resolve d l = .ok x) : ∀ w ∈ l, NulFree w := by
  -- By induction on the names. Each of them is found in a table, and what a table holds has no NUL.
  induction l generalizing d with
  | nil => simp
  | cons name rest ih =>
    rw [resolve_cons] at h
    cases hc : P.child d name with
    | none => simp [hc] at h
    | some y =>
      simp only [hc] at h
      split at h
      · intro w hw
        rcases List.mem_cons.1 hw with rfl | hw
        · exact nulFree_of_child hc
        · exact ih h w hw
      · cases h

/-- From the root, names lead to inodes of `L` only, and all of these are stored. -/
structure Walkable (P : Pool) (L : UInt32 → Prop) : Prop where
  root : L rootInode
  rootDirectory : P.isDirectory rootInode = true
  stored : ∀ x, L x → P.nodes x ≠ none
  child : ∀ d name x, L d → P.child d name = some x → L x

theorem Rooted.walkable (h : P.Rooted T) : P.Walkable T.linked :=
  ⟨h.root, h.rootDirectory, h.stored, fun _ _ _ => h.linked_child⟩

/-- A walk ends at a directory that names lead to. -/
theorem Walkable.ends {L : UInt32 → Prop} (h : P.Walkable L) {l : List String} (hd : L d)
    (hdir : P.isDirectory d = true) (hx : P.resolve d l = .ok x) : L x ∧ P.isDirectory x = true := by
  induction l generalizing d with
  | nil =>
    cases hx
    exact ⟨hd, hdir⟩
  | cons name rest ih =>
    rw [resolve_cons] at hx
    cases hc : P.child d name with
    | none =>
      rw [hc] at hx
      cases hx
    | some y =>
      rw [hc] at hx
      dsimp only at hx
      -- The walk goes on from a directory only.
      by_cases hy : P.isDirectory y = true
      · rw [if_pos hy] at hx
        exact ih (h.child d name y hd hc) hy hx
      · rw [if_neg hy] at hx
        cases hx

/-- A walk inside the tree ends at a directory inside the tree. -/
theorem Rooted.linked_resolve (h : P.Rooted T) {l : List String} (hd : T.linked d)
    (hdir : P.isDirectory d = true) (hx : P.resolve d l = .ok x) :
    T.linked x ∧ P.isDirectory x = true :=
  h.walkable.ends hd hdir hx

/-- Names lead alike where what is in the tree looks alike. -/
theorem Rooted.resolve_alike (h : P.Rooted T) (ha : ∀ y, T.linked y → Alike P P' y) (hd : T.linked d)
    (l : List String) : P'.resolve d l = P.resolve d l := by
  induction l generalizing d with
  | nil => rfl
  | cons name rest ih =>
    rw [resolve_cons, resolve_cons, (ha d hd).child]
    cases hc : P.child d name with
    | none => rfl
    | some y =>
      have hy := h.linked_child hd hc
      dsimp only
      rw [(ha y hy).isDirectory, ih hy]

/-- Where names lead they lead still, as long as none of them has changed. -/
theorem Walkable.resolve_mono {L : UInt32 → Prop} (h : P.Walkable L)
    (hdir : ∀ y, L y → P'.isDirectory y = P.isDirectory y)
    (hchild : ∀ d name y, L d → P.child d name = some y → P'.child d name = some y) {l : List String}
    (hd : L d) (hx : P.resolve d l = .ok x) : P'.resolve d l = .ok x := by
  induction l generalizing d with
  | nil => exact hx
  | cons nm rest ih =>
    rw [resolve_cons] at hx ⊢
    cases hc : P.child d nm with
    | none =>
      rw [hc] at hx
      cases hx
    | some y =>
      -- The directory that is found is linked, so it is one in the other pool too.
      have hy := h.child d nm y hd hc
      rw [hc] at hx
      rw [hchild d nm y hd hc]
      dsimp only at hx ⊢
      rw [hdir y hy]
      by_cases hk : P.isDirectory y = true
      · rw [if_pos hk] at hx ⊢
        exact ih hy hx
      · rw [if_neg hk] at hx
        cases hx

/-- Linking a new inode leaves every way through the tree as it was. -/
theorem Rooted.resolve_link (h : P.Rooted T) (hg : Grafted P T b t name P') {l : List String}
    (hd : T.linked d) (hx : P.resolve d l = .ok x) : P'.resolve d l = .ok x := by
  refine h.walkable.resolve_mono (fun y hy => ?_) (fun d nm y hd hc => ?_) hd hx
  · by_cases ht : y = t
    · rw [ht, hg.isDirectory, hg.directory]
    · exact (hg.others y hy ht).isDirectory
  · -- The name that is new led nowhere before, so it is not this one.
    by_cases ht : d = t
    · subst ht
      rw [hg.child, Function.update_of_ne, hc]
      rintro rfl
      rw [hg.free] at hc
      cases hc
    · rw [(hg.others d hd ht).child, hc]

end Pool

namespace World

theorem opened_comm (W : World) (a b : UInt32) : (W.opened a).opened b = (W.opened b).opened a := by
  by_cases h : a = b
  · rw [h]
  · simp only [opened, setOpening, Function.update_of_ne h, Function.update_of_ne (Ne.symm h),
      Function.update_comm h]

/-- The contents of a file are no matter for names. -/
theorem Becomes.names {W W' : World} {x : UInt32} {n n' : Node} (h : W.Becomes x n' W')
    (hn : W.pool.nodes x = some n) (hfile : n.record.isDirectory = false)
    (hfile' : n'.record.isDirectory = false) : W'.pool.names = W.pool.names := by
  have hchild (d : UInt32) : W'.pool.child d = W.pool.child d := by
    funext name
    by_cases hd : d = x
    · simp [Pool.child, hd, hn, h.node, hfile, hfile']
    · simp [Pool.child, h.node_of_ne hd]
  have hdirectory (d : UInt32) : W'.pool.isDirectory d = W.pool.isDirectory d := by
    by_cases hd : d = x
    · rw [hd, Pool.isDirectory_of_node hn, Pool.isDirectory_of_node h.node, hfile, hfile']
    · simp [Pool.isDirectory, h.node_of_ne hd]
  simp only [Pool.names, funext hchild, funext hdirectory]

/-- Whatever is open has an opener. -/
def Attended (W : World) : Prop := ∀ x o, W.opens x = some o → 0 < o.openers

theorem Attended.opened {W : World} (h : W.Attended) (x : UInt32) : (W.opened x).Attended := by
  intro y o ho
  by_cases hy : y = x
  · subst hy
    rw [W.opened_opens_self] at ho
    cases ho
    cases W.opens y with
    | none => exact Nat.one_pos
    | some o => exact Nat.succ_pos _
  · rw [W.opened_opens_of_ne hy] at ho
    exact h y o ho

/-- What is open has an opener also after an inode was removed. -/
theorem Attended.dropped {K : Regime} {W W' : World} {id x : UInt32} {m n' : Node} (hW : W.Attended)
    (h : Directory.Dropped K W id x m n' W') : W'.Attended := by
  intro y oy hy
  -- What was unlinked is released if nobody has it open, and else it is marked as removed.
  by_cases hyx : y = x
  · subst hyx
    cases ho : W.opens y with
    | none =>
      rw [(h.gone ho).1] at hy
      cases hy
    | some ox =>
      rw [(h.marked ox ho).1] at hy
      cases hy
      exact hW y ox ho
  · rw [h.opens y hyx] at hy
    exact hW y oy hy

end World

/-- What looking for an inode comes to: the inode is open once more, by the handle `f` of it, or the
reason why there is none is reported. -/
def World.Arrives {α : Type} (W : World) (f : UInt32 → α) :
    Except Error UInt32 → Except Stop α → World → Prop
  | .ok x, res, W' => res = .ok (f x) ∧ W' = W.opened x
  | .error e, res, W' => res = .error (.failed e) ∧ W' = W

/-- The handle by which a directory is opened. -/
abbrev directoryAt (x : UInt32) : Directory := { inode := ⟨x⟩ }

namespace Volume

variable {K : Regime} {W : World} {L : UInt32 → Prop} {t x : UInt32} {n : Node}

/-- An open inode is used as a directory if it is one, and closed otherwise. -/
theorem ofInode_leads (hK : K.Fits) (hn : W.pool.nodes x = some n) (hW : W.Attended) :
    Leads (Mounts K) (W.opened x) (Directory.ofInode ⟨x⟩)
      (W.Arrives directoryAt (if W.pool.isDirectory x then .ok x else .error .notADirectory)) := by
  unfold Directory.ofInode
  refine Yields.bind (Inode.isDirectory_yields hn (W.opened_opens_self x)) ?_
  rw [Pool.isDirectory_of_node hn]
  by_cases hdir : n.record.isDirectory = true
  · rw [if_pos hdir, if_pos hdir]
    exact Leads.pure ⟨rfl, rfl⟩
  · rw [if_neg hdir, if_neg hdir]
    exact Yields.bind (Inode.close_opened hK hn (hW x)) (Leads.fail ⟨rfl, rfl⟩)

theorem openRoot_yields (hK : K.Fits) (hR : W.pool.Walkable L) (hW : W.Attended) :
    Yields (Mounts K) W Directory.openRoot { inode := ⟨rootInode⟩ } (W.opened rootInode) := by
  obtain ⟨n, hn, hdir⟩ := Pool.isDirectory_node hR.rootDirectory
  refine Yields.bind (Inode.acquire_yields hK hn) ?_
  refine Leads.mono (ofInode_leads hK hn hW) fun res W' h => ?_
  rw [hR.rootDirectory, if_pos rfl] at h
  exact h

/-- A walk comes to where the names lead. -/
theorem descend_leads (hK : K.Fits) (hR : W.pool.Walkable L) (hW : W.Attended) (ht : L t)
    (hdir : W.pool.isDirectory t = true) (names : List String) :
    Leads (Mounts K) (W.opened t) (descend { inode := ⟨t⟩ } names)
      (W.Arrives directoryAt (W.pool.resolve t names)) := by
  induction names generalizing t with
  | nil => exact Leads.pure ⟨rfl, rfl⟩
  | cons name rest ih =>
    obtain ⟨n, hn, hk⟩ := Pool.isDirectory_node hdir
    have hchild : W.pool.child t = n.child := Pool.child_of_node hn hk
    have hlinked (x : UInt32) (hx : n.child name = some x) : L x :=
      hR.child t name x ht ((congrFun hchild name).trans hx)
    unfold descend
    refine Leads.bind (M := fun res W' =>
      (∃ x, n.child name = some x ∧ res = .ok ⟨x⟩ ∧ W' = W.opened x) ∨
        (n.child name = none ∧ res = .error (.failed .notFound) ∧ W' = W)) ?_ ?_ ?_
    · -- The directory above is closed in either case.
      refine Leads.andThen (Directory.openEntry_leads (W := W.opened t) hK rfl hn
        (W.opened_opens_self t) fun x hx => hR.stored x (hlinked x hx)) ?_ ?_
      · rintro r W' (⟨x, -, rfl, -⟩ | ⟨-, rfl, -⟩)
        · exact sober_ok
        · exact sober_failed
      · rintro r W' (⟨x, hx, rfl, rfl⟩ | ⟨hx, rfl, rfl⟩)
        · rw [W.opened_comm t x]
          exact Yields.leads (Inode.close_opened (W := W.opened x) hK hn (hW.opened x t))
            ⟨rfl, .inl ⟨x, hx, rfl, rfl⟩⟩
        · exact Yields.leads (Inode.close_opened hK hn (hW t)) ⟨rfl, .inr ⟨hx, rfl, rfl⟩⟩
    · rintro i W' (⟨x, hx, hi, rfl⟩ | ⟨-, hi, -⟩)
      swap
      · cases hi
      cases hi
      obtain ⟨m, hm⟩ := Option.ne_none_iff_exists'.1 (hR.stored x (hlinked x hx))
      rw [Pool.resolve_cons, hchild, hx]
      dsimp only
      -- What was found has to be a directory, or it is closed again.
      refine Leads.bind (ofInode_leads hK hm hW) ?_ ?_
      · intro d W' hd
        by_cases hxdir : W.pool.isDirectory x = true
        · rw [if_pos hxdir] at hd ⊢
          obtain ⟨hd, rfl⟩ := hd
          cases hd
          exact ih (hlinked x hx) hxdir
        · rw [if_neg hxdir] at hd
          cases hd.1
      · intro e W' he
        by_cases hxdir : W.pool.isDirectory x = true
        · rw [if_pos hxdir] at he
          cases he.1
        · rw [if_neg hxdir] at he ⊢
          obtain ⟨he, rfl⟩ := he
          cases he
          exact ⟨rfl, rfl⟩
    · rintro e W' (⟨x, -, he, -⟩ | ⟨hx, he, rfl⟩)
      · cases he
      · cases he
        rw [Pool.resolve_cons, hchild, hx]
        exact ⟨rfl, rfl⟩

/-- Walking an absolute path comes to where its components lead from the root. -/
theorem walk_leads (hK : K.Fits) (hR : W.pool.Walkable L) (hW : W.Attended) (path : String) :
    Leads (Mounts K) W (walk path)
      (W.Arrives directoryAt (W.pool.resolve rootInode (Path.components path))) :=
  Yields.bind (openRoot_yields hK hR hW) (descend_leads hK hR hW hR.root hR.rootDirectory _)

/-- What is done in the directory at a path, which is opened for it and closed after it. -/
theorem within_leads {α : Type} {path : String} {x : Directory → VolumeM α}
    {post : Except Stop α → World → Prop} (hK : K.Fits) (hR : W.pool.Walkable L) (hW : W.Attended)
    (hx : ∀ t, W.pool.resolve rootInode (Path.components path) = .ok t → L t →
      W.pool.isDirectory t = true →
      Leads (Mounts K) (W.opened t) (x { inode := ⟨t⟩ }) fun r W₁ => Sober r ∧ ∃ W₂ : World,
        W₁ = W₂.opened t ∧ W₂.pool.nodes t ≠ none ∧ W₂.Attended ∧ post r W₂)
    (herr : ∀ e, W.pool.resolve rootInode (Path.components path) = .error e →
      post (.error (.failed e)) W) : Leads (Mounts K) W (within path x) post := by
  unfold within
  -- Where the walk fails, nothing is open. Where it ends, its directory is closed behind the work.
  cases hr : W.pool.resolve rootInode (Path.components path) with
  | ok t =>
    obtain ⟨ht, hdir⟩ := hR.ends hR.root hR.rootDirectory hr
    refine Leads.bind (walk_leads hK hR hW path) ?_ ?_
    · intro d W' hd
      rw [hr] at hd
      obtain ⟨hd, rfl⟩ := hd
      cases hd
      refine Leads.andThen (hx t hr ht hdir) (fun r W₁ h => h.1) ?_
      rintro r W₁ ⟨-, W₂, rfl, hstored, hatt, hpost⟩
      obtain ⟨n, hn⟩ := Option.ne_none_iff_exists'.1 hstored
      exact Yields.leads (Inode.close_opened hK hn (hatt t)) ⟨rfl, hpost⟩
    · intro e W' he
      rw [hr] at he
      cases he.1
  | error e =>
    refine Leads.bind (walk_leads hK hR hW path) ?_ ?_
    · intro d W' hd
      rw [hr] at hd
      cases hd.1
    · intro e' W' he
      rw [hr] at he
      obtain ⟨he, rfl⟩ := he
      cases he
      exact herr e hr

end Volume

end InodeVolume
