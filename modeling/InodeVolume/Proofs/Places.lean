import InodeVolume.Proofs.Trees

/-!
# Places in the tree

Two ways to say what is in the tree of a pool that say nothing of how the pool has its tree: what can be
reached from the root by entries in use (`Pool.Reachable`), and what is at a list of names none of which
is one of the two that every directory has (`Pool.tree`).

Main statements: both are as the hierarchy of the pool has it (`Rooted.reachable_iff`,
`Rooted.exists_tree`, `Rooted.tree_inj`), a new inode that is linked adds the place of its name and no
other (`Rooted.tree_link`), and unlinking an inode with nothing below it takes its place away and no other
(`Rooted.tree_cut`).
-/

namespace InodeVolume

namespace Pool

variable {P P' : Pool} {T : Hierarchy} {x y d b : UInt32} {name : String} {l l' : List String}

/-! ## Entries in use -/

/-- The inodes that entries in use lead to from the root. -/
inductive Reachable (P : Pool) : UInt32 → Prop
  | root : Reachable P rootInode
  | entry {d x : UInt32} {n : Node} {j : Nat} {name : String} (above : Reachable P d)
    (node : P.nodes d = some n) (directory : n.record.isDirectory = true) (entry : n.EntryAt j name x) :
    Reachable P x

theorem Reachable.linked (h : P.Rooted T) (hx : P.Reachable x) : T.linked x := by
  induction hx with
  | root => exact h.root
  | @entry d x n j name above hn hdir hentry ih =>
    have hchild : P.child d name = some x := by
      rw [child_of_node hn hdir]
      exact (h.tidy d ih n hn hdir).child_eq hentry
    exact h.linked_child ih hchild

theorem Reachable.child (h : P.Reachable d) (hc : P.child d name = some x) : P.Reachable x := by
  obtain ⟨n, hn, hdir⟩ := isDirectory_node (isDirectory_of_child hc)
  rw [child_of_node hn hdir] at hc
  obtain ⟨j, -, hj⟩ := Node.child_some hc
  exact .entry h hn hdir hj

/-! ## Places -/

/-- What is at a place: the inode that its names lead to from the root. -/
def tree (P : Pool) (l : List String) : Option UInt32 :=
  l.foldlM (fun d name => if isDotName name then none else P.child d name) rootInode

theorem tree_nil (P : Pool) : P.tree [] = some rootInode := rfl

theorem tree_concat (P : Pool) (l : List String) (name : String) : P.tree (l ++ [name]) =
    (P.tree l).bind fun d => if isDotName name then none else P.child d name := by
  simp only [tree, List.foldlM_append, List.foldlM_cons, List.foldlM_nil, Option.bind_eq_bind]
  congr 1
  funext d
  cases (if isDotName name then none else P.child d name) <;> rfl

theorem tree_concat_of (h : P.tree l = some d) (hname : isDotName name = false) :
    P.tree (l ++ [name]) = P.child d name := by
  rw [tree_concat, h, Option.bind_some, hname, if_neg (by decide)]

/-- The last step on the way to a place other than the root. -/
theorem tree_concat_some (h : P.tree (l ++ [name]) = some x) :
    ∃ d, P.tree l = some d ∧ isDotName name = false ∧ P.child d name = some x := by
  rw [tree_concat] at h
  obtain ⟨d, hd, hx⟩ := Option.bind_eq_some_iff.1 h
  cases hname : isDotName name with
  | true =>
    rw [hname, if_pos rfl] at hx
    cases hx
  | false =>
    rw [hname, if_neg (by decide)] at hx
    exact ⟨d, hd, rfl, hx⟩

theorem Rooted.linked_tree (h : P.Rooted T) (hx : P.tree l = some x) : T.linked x := by
  induction l using List.reverseRecOn generalizing x with
  | nil =>
    cases hx
    exact h.root
  | append_singleton l name ih =>
    obtain ⟨d, hd, hname, hc⟩ := tree_concat_some hx
    exact (h.place (ih hd) hc hname).1

/-- An inode has one place. -/
theorem Rooted.tree_inj (h : P.Rooted T) (hl : P.tree l = some x) (hl' : P.tree l' = some x) : l = l' := by
  -- By induction from the end of the first path. An inode has one parent and one name in it, so both paths
  -- end alike.
  induction l using List.reverseRecOn generalizing l' x with
  | nil =>
    cases hl
    induction l' using List.reverseRecOn with
    | nil => rfl
    | append_singleton l' name' _ =>
      obtain ⟨d, hd, hname, hc⟩ := tree_concat_some hl'
      exact absurd rfl (h.place (h.linked_tree hd) hc hname).2.1
  | append_singleton l name ih =>
    obtain ⟨d, hd, hname, hc⟩ := tree_concat_some hl
    obtain ⟨-, h0, hp, hn⟩ := h.place (h.linked_tree hd) hc hname
    induction l' using List.reverseRecOn with
    | nil =>
      cases hl'
      exact absurd rfl h0
    | append_singleton l' name' _ =>
      obtain ⟨d', hd', hname', hc'⟩ := tree_concat_some hl'
      obtain ⟨-, -, hp', hn'⟩ := h.place (h.linked_tree hd') hc' hname'
      have hdd : d = d' := hp.symm.trans hp'
      rw [ih hd (hdd ▸ hd'), hn.symm.trans hn']

/-- An entry that is not one of the two of every directory has a name of its own. -/
theorem Rooted.isDotName_name (h : P.Rooted T) (hdots : P.Dotted T) (hx : T.linked x) (h0 : x ≠ rootInode) :
    isDotName (T.name x) = false := by
  obtain ⟨hp, hlt, hc⟩ := h.up x hx h0
  obtain ⟨hdot, hdotdot⟩ := hdots _ hp (isDirectory_of_child hc)
  by_contra hname
  simp only [isDotName, Bool.not_eq_false, Bool.or_eq_true, beq_iff_eq] at hname
  rcases hname with hn | hn
  · rw [hn, hdot] at hc
    exact h.parent_ne hx h0 (Option.some.inj hc)
  · rw [hn, hdotdot] at hc
    -- If it stood under the name of its parent's parent, it would be above its own parent.
    have hdeeper : T.depth (T.parent (T.parent x)) ≤ T.depth (T.parent x) := by
      by_cases hp0 : T.parent x = rootInode
      · rw [hp0, h.top]
      · exact Nat.le_of_lt (h.up _ hp hp0).2.1
    rw [Option.some.inj hc] at hdeeper
    omega

/-- Every inode of the tree has a place. -/
theorem Rooted.exists_tree (h : P.Rooted T) (hdots : P.Dotted T) (hx : T.linked x) :
    ∃ l, P.tree l = some x := by
  induction hk : T.depth x using Nat.strong_induction_on generalizing x with
  | _ k ih =>
    by_cases h0 : x = rootInode
    · exact ⟨[], by rw [h0, tree_nil]⟩
    · obtain ⟨hp, hlt, hc⟩ := h.up x hx h0
      obtain ⟨l, hl⟩ := ih _ (hk ▸ hlt) hp rfl
      exact ⟨l ++ [T.name x], by rw [tree_concat_of hl (h.isDotName_name hdots hx h0), hc]⟩

theorem Rooted.reachable_iff (h : P.Rooted T) : P.Reachable x ↔ T.linked x := by
  refine ⟨Reachable.linked h, fun hx => ?_⟩
  induction hk : T.depth x using Nat.strong_induction_on generalizing x with
  | _ k ih =>
    by_cases h0 : x = rootInode
    · exact h0 ▸ .root
    · obtain ⟨hp, hlt, hc⟩ := h.up x hx h0
      exact (ih _ (hk ▸ hlt) hp rfl).child hc

/-! ## Changes of the tree -/

/-- The places of a pool are told by what the directories in the tree have as entries. -/
theorem Rooted.tree_congr (h : P.Rooted T) (hc : ∀ x, T.linked x → P'.child x = P.child x) :
    P'.tree = P.tree := by
  funext l
  induction l using List.reverseRecOn with
  | nil => rfl
  | append_singleton l name ih =>
    rw [tree_concat, tree_concat, ih]
    cases hd : P.tree l with
    | none => rfl
    | some d => rw [Option.bind_some, Option.bind_some, hc d (h.linked_tree hd)]

/-- What is at the place behind one that has nothing. -/
theorem tree_concat_none (h : P.tree l = none) (name : String) : P.tree (l ++ [name]) = none := by
  rw [tree_concat, h, Option.bind_none]

/-- Nothing is behind an inode that has no entry of that name. -/
theorem bind_child_none {o : Option UInt32}
    (h : ∀ x, o = some x → isDotName name = false → P.child x name = none) :
    (o.bind fun d => if isDotName name then none else P.child d name) = none := by
  cases ho : o with
  | none => rfl
  | some x =>
    rw [Option.bind_some]
    by_cases hname : isDotName name = true
    · rw [if_pos hname]
    · rw [if_neg hname]
      exact h x ho (by simpa using hname)

/-- A change of the entries of one directory of the tree at one name, where nothing is found under what
the name stood for or stands for. -/
theorem Rooted.tree_update {r : Option UInt32} (h : P.Rooted T) (hl : P.tree l = some d)
    (hname : isDotName name = false)
    (hothers : ∀ x, T.linked x → x ≠ d → P.child d name ≠ some x → P'.child x = P.child x)
    (hchild : P'.child d = Function.update (P.child d) name r)
    (hold : ∀ x nm, P.child d name = some x → isDotName nm = false → P.child x nm = none)
    (hnew : ∀ x nm, r = some x → isDotName nm = false → P'.child x nm = none) :
    P'.tree = Function.update P.tree (l ++ [name]) r := by
  have hplace : P.tree (l ++ [name]) = P.child d name := tree_concat_of hl hname
  have hne : l ++ [name] ≠ [] := by simp
  funext q
  -- A place is followed from its end: what is at it depends on the directory it is in and on its last name.
  induction q using List.reverseRecOn with
  | nil => rw [Function.update_of_ne hne.symm, tree_nil, tree_nil]
  | append_singleton q nm ih =>
    rw [tree_concat, ih]
    by_cases hq : q = l ++ [name]
    · -- Nothing is behind the place that changes, neither before nor after.
      have hlonger : q ++ [nm] ≠ l ++ [name] := by
        rw [hq]
        simp
      rw [Function.update_of_ne hlonger, hq, Function.update_self, tree_concat, hplace,
        bind_child_none fun x hx => hnew x nm hx, bind_child_none fun x hx => hold x nm hx]
    · rw [Function.update_of_ne hq]
      cases hy : P.tree q with
      | none =>
        have hql : q ++ [nm] ≠ l ++ [name] := by
          intro he
          have hqe : q = l := List.append_inj_left' he rfl
          rw [hqe, hl] at hy
          cases hy
        rw [Function.update_of_ne hql, tree_concat_none hy, Option.bind_none]
      | some y =>
        rw [Option.bind_some]
        by_cases hyd : y = d
        · subst hyd
          obtain rfl := h.tree_inj hy hl
          rw [hchild]
          by_cases hnm : nm = name
          · rw [hnm, Function.update_self, Function.update_self, hname, if_neg (by decide)]
          · have hql : q ++ [nm] ≠ q ++ [name] := fun he => hnm (by simpa using he)
            rw [Function.update_of_ne hql, Function.update_of_ne hnm, tree_concat, hl, Option.bind_some]
        · have hql : q ++ [nm] ≠ l ++ [name] := by
            intro he
            have hqe : q = l := List.append_inj_left' he rfl
            rw [hqe, hl] at hy
            exact hyd (Option.some.inj hy).symm
          have hxy : P.child d name ≠ some y := by
            intro hx
            exact hq (h.tree_inj hy (hplace.trans hx))
          rw [hothers y (h.linked_tree hy) hyd hxy, Function.update_of_ne hql, tree_concat, hy,
            Option.bind_some]

/-- A new inode that is linked is at the place of its name, and all else stays at its place. -/
theorem Rooted.tree_link (h : P.Rooted T) (hg : Grafted P T b d name P') (hname : isDotName name = false)
    (hl : P.tree l = some d) : P'.tree = Function.update P.tree (l ++ [name]) (some b) := by
  refine h.tree_update hl hname (fun x hx hd _ => (hg.others x hx hd).child) hg.child
    (fun x nm hx => ?_) fun x nm hx hnm => ?_
  · rw [hg.free] at hx
    cases hx
  · cases hx
    cases hc : P'.child b nm with
    | none => rfl
    | some y =>
      -- A new directory has no names below it other than those of dots.
      rcases hg.own nm y hc with ⟨rfl, -⟩ | ⟨rfl, -⟩
      · exact absurd hnm (by decide)
      · exact absurd hnm (by decide)

/-- Where an inode has been unlinked that had nothing below it nothing is any more, and all else stays at
its place. -/
theorem Rooted.tree_cut (h : P.Rooted T) (hc : Cut P T x d name P') (hl : P.tree l = some d)
    (hempty : ∀ nm, isDotName nm = false → P.child x nm = none) :
    P'.tree = Function.update P.tree (l ++ [name]) none := by
  refine h.tree_update hl hc.named (fun y hy hd hx => ?_) hc.child (fun y nm hy hnm => ?_) fun y nm hy => ?_
  · refine (hc.others y hy hd ?_).child
    rintro rfl
    exact hx hc.entry
  · rw [hc.entry] at hy
    cases hy
    exact hempty nm hnm
  · cases hy

end Pool

end InodeVolume
