import InodeVolume.Proofs.Views
import InodeVolume.Volume.Tree

/-!
# Trees as they are shown

What a volume shows of itself depends on the stored inodes alone. `Pool.shown` reads it off a pool, without
opening anything; looking at a volume whose pool has a tree answers that (`Tree.ofVolume_yields`), whatever
else is open, and leaves open what was.
-/

namespace InodeVolume

/-! ## What an inode shows of itself -/

namespace Node

/-- What there is to know about the inode from outside. -/
def status (n : Node) (number : UInt32) : Status where
  number := number
  isDirectory := n.record.isDirectory
  size := n.size
  blocks := Record.totalBlocks n.size

/-- Whether a slot holds a name that is listed. -/
def lists (s : Slot) : Bool := s.inUse && !isDotName s.name

/-- The names that are listed from slot `j` on. -/
def listedFrom (n : Node) (j : Nat) : List String :=
  ((List.range' j (n.slots - j)).filter fun i => lists (n.slot i)).map fun i => (n.slot i).name

/-- The names that the directory lists. -/
def listed (n : Node) : List String := n.listedFrom 0

variable {n : Node} {j k : Nat}

/-- A slot that lists a name is an entry for another name than `.` and `..`. -/
theorem entry_of_lists (hj : j < n.slots) (h : lists (n.slot j) = true) :
    n.EntryAt j (n.slot j).name (n.slot j).number ∧ isDotName (n.slot j).name = false := by
  simp only [lists, Bool.and_eq_true, Bool.not_eq_true'] at h
  exact ⟨⟨hj, h.1, rfl, rfl⟩, h.2⟩

/-- Every other entry lists its name. -/
theorem EntryAt.lists {name : String} {x : UInt32} (h : n.EntryAt j name x) (hdot : isDotName name = false) :
    Node.lists (n.slot j) = true := by
  rw [Node.lists, h.inUse, h.name_eq, hdot]
  rfl

/-- After the last name there is none. -/
theorem listedFrom_none (h : n.search lists j = none) : n.listedFrom j = [] := by
  rw [listedFrom, List.filter_eq_nil_iff.2, List.map_nil]
  intro i hi
  obtain ⟨hle, hlt⟩ := List.mem_range'_1.1 hi
  simpa using search_none h hle (by omega)

/-- The next name comes from the first slot that lists one. -/
theorem listedFrom_some (h : n.search lists j = some k) :
    n.listedFrom j = (n.slot k).name :: n.listedFrom (k + 1) := by
  obtain ⟨hjk, hk, hp, hfirst⟩ := search_some h
  have hsplit : List.range' j (n.slots - j) = List.range' j (k - j) ++ List.range' k (n.slots - k) := by
    rw [show n.slots - j = k - j + (n.slots - k) by omega, ← List.range'_append_1, Nat.add_sub_cancel' hjk]
  have hnext : List.range' k (n.slots - k) = k :: List.range' (k + 1) (n.slots - (k + 1)) := by
    rw [show n.slots - k = n.slots - (k + 1) + 1 by omega, List.range'_succ]
  -- The slots that are passed over are not listed.
  have hskip : (List.range' j (k - j)).filter (fun i => lists (n.slot i)) = [] := by
    refine List.filter_eq_nil_iff.2 fun i hi => ?_
    obtain ⟨hle, hlt⟩ := List.mem_range'_1.1 hi
    simpa using hfirst i hle (by omega)
  rw [listedFrom, hsplit, hnext, List.filter_append, hskip, List.nil_append, List.filter_cons, if_pos hp,
    List.map_cons, listedFrom]

end Node

namespace Pool

variable {P P' : Pool} {T : Hierarchy} {x : UInt32} {n : Node}

/-- What inode `x` shows of itself and of what is below it, `depth` levels of it. -/
def shown (P : Pool) (order : Tree.NameOrder) (depth : Nat) (x : UInt32) : Except Error Tree :=
  match P.nodes x with
  | none => .error .corruptRecord
  | some n =>
    if n.record.isDirectory then
      match depth with
      | 0 => .ok (.cutOff (n.status x))
      | depth + 1 => .ok (.directory (n.status x) ((order.arrange n.listed).map fun name =>
          (name, (n.child name).elim (.error .notFound) (P.shown order depth))))
    else .ok (.file (n.status x) n.contents)

theorem shown_file (hn : P.nodes x = some n) (hfile : n.record.isDirectory = false)
    (order : Tree.NameOrder) (depth : Nat) :
    P.shown order depth x = .ok (.file (n.status x) n.contents) := by
  rw [shown, hn]
  dsimp only
  rw [if_neg (by simp [hfile])]

theorem shown_cutOff (hn : P.nodes x = some n) (hdir : n.record.isDirectory = true)
    (order : Tree.NameOrder) : P.shown order 0 x = .ok (.cutOff (n.status x)) := by
  rw [shown, hn]
  dsimp only
  rw [if_pos hdir]

theorem shown_directory (hn : P.nodes x = some n) (hdir : n.record.isDirectory = true)
    (order : Tree.NameOrder) (depth : Nat) : P.shown order (depth + 1) x =
      .ok (.directory (n.status x) ((order.arrange n.listed).map fun name =>
        (name, (n.child name).elim (.error .notFound) (P.shown order depth)))) := by
  rw [shown, hn]
  dsimp only
  rw [if_pos hdir]

/-- What is stored shows itself. -/
theorem exists_shown (hx : P.nodes x ≠ none) (order : Tree.NameOrder) (depth : Nat) :
    ∃ t, P.shown order depth x = .ok t := by
  obtain ⟨n, hn⟩ := Option.ne_none_iff_exists'.1 hx
  cases hdir : n.record.isDirectory with
  | false => exact ⟨_, shown_file hn hdir order depth⟩
  | true =>
    cases depth with
    | zero => exact ⟨_, shown_cutOff hn hdir order⟩
    | succ depth => exact ⟨_, shown_directory hn hdir order depth⟩

/-- Two pools with the same inodes in one tree show the same tree. -/
theorem Rooted.shown_congr (h : P.Rooted T) (hsame : ∀ x, T.linked x → P'.nodes x = P.nodes x)
    (order : Tree.NameOrder) (depth : Nat) (hx : T.linked x) :
    P'.shown order depth x = P.shown order depth x := by
  obtain ⟨n, hn⟩ := Option.ne_none_iff_exists'.1 (h.stored x hx)
  have hn' : P'.nodes x = some n := (hsame x hx).trans hn
  cases hdir : n.record.isDirectory with
  | false => rw [shown_file hn' hdir, shown_file hn hdir]
  | true =>
    -- By induction on the depth that is left; files are shown whatever it is.
    induction depth generalizing x n with
    | zero => rw [shown_cutOff hn' hdir, shown_cutOff hn hdir]
    | succ depth ih =>
      have hbelow (name : String) (y : UInt32) (hy : n.child name = some y) :
          P'.shown order depth y = P.shown order depth y := by
        have hly : T.linked y := h.linked_child hx ((congrFun (child_of_node hn hdir) name).trans hy)
        obtain ⟨m, hm⟩ := Option.ne_none_iff_exists'.1 (h.stored y hly)
        have hm' : P'.nodes y = some m := (hsame y hly).trans hm
        cases hmdir : m.record.isDirectory with
        | false => rw [shown_file hm' hmdir, shown_file hm hmdir]
        | true => exact ih hly m hm hm' hmdir
      rw [shown_directory hn' hdir, shown_directory hn hdir]
      congr 3
      funext name
      cases hy : n.child name with
      | none => rfl
      | some y => exact congrArg (Prod.mk name) (hbelow name y hy)

end Pool

/-! ## Looking at a volume -/

section Look

variable {K : Regime} {W : World} {T : Hierarchy} {x : UInt32} {n : Node} {o : Opening} {α : Type}

/-- What only looks can be done while no access fails. -/
theorem withoutFaults_yields {y : VolumeM α} {v : α} (h : Yields (Mounts K) W y v W) :
    Yields (Mounts K) W (VolumeM.withoutFaults y) v W := by
  rintro ⟨⟨device, faults⟩, space, registry⟩ hv
  have hs := hv.disk.shows
  -- The volume without faults stands for the same world, and the faults are put back at the end.
  have hnever : Mounts K W ⟨⟨device, .never⟩, space, registry⟩ :=
    ⟨⟨⟨hs.count, hs.holds, fun _ _ => rfl, fun _ _ _ => rfl, hs.data, hs.used, hs.spare⟩, hv.disk.sound⟩,
      hv.space, hv.registry, hv.live⟩
  obtain ⟨v', hrun, hv'⟩ := h.run hnever
  have hs' := hv'.disk.shows
  unfold VolumeM.withoutFaults
  dsimp only
  rw [hrun]
  exact ⟨W, ⟨⟨⟨hs'.count, hs'.holds, hs.reads, hs.writes, hs'.data, hs'.used, hs'.spare⟩, hv'.disk.sound⟩,
    hv'.space, hv'.registry, hv'.live⟩, rfl, rfl⟩

namespace Directory

/-- The next name of a listing that has come to slot `j`. -/
theorem readNext_yields (hn : W.pool.nodes x = some n) (ho : W.opens x = some o) (j : Nat) :
    Yields (Mounts K) W (readNext ⟨⟨x⟩, j * slotSize⟩)
      (match n.search Node.lists j with
        | some k => (some (n.slot k).name, ⟨⟨x⟩, (k + 1) * slotSize⟩)
        | none => (none, ⟨⟨x⟩, max j n.slots * slotSize⟩)) W := by
  have hscan := Node.scanSlots_tells (K := K) hn Node.lists j n.record.slotBound
    (Nat.lt_succ_of_le (Nat.sub_le _ _))
  refine Yields.bind (search_yields rfl hn ho hscan) ?_
  cases n.search Node.lists j with
  | none => exact Yields.pure
  | some k =>
    dsimp only
    rw [Nat.succ_mul]
    exact Yields.pure

/-- A listing that has come to slot `j` goes on with the names from there. -/
theorem readNames_yields (hn : W.pool.nodes x = some n) (ho : W.opens x = some o) {j fuel : Nat}
    (hfuel : n.slots - j < fuel) : Leads (Mounts K) W (readNames ⟨⟨x⟩, j * slotSize⟩ fuel)
      fun r W' => (∃ d, r = .ok (n.listedFrom j, d)) ∧ W' = W := by
  -- By induction on the reads that are left. Each of them passes one slot at least.
  induction fuel generalizing j with
  | zero => omega
  | succ fuel ih =>
    refine Yields.bind (readNext_yields hn ho j) ?_
    cases hs : n.search Node.lists j with
    | none =>
      rw [Node.listedFrom_none hs]
      exact Leads.pure ⟨⟨_, rfl⟩, rfl⟩
    | some k =>
      obtain ⟨hjk, hk, -⟩ := Node.search_some hs
      rw [Node.listedFrom_some hs]
      refine Leads.bind (ih (j := k + 1) (by omega)) ?_ ?_
      · rintro names W' ⟨⟨d, hd⟩, rfl⟩
        cases hd
        exact Leads.pure ⟨⟨_, rfl⟩, rfl⟩
      · rintro e W' ⟨⟨d, he⟩, -⟩
        cases he

/-- A directory lists the names in its slots. -/
theorem names_answers (hn : W.pool.nodes x = some n) (ho : W.opens x = some o) :
    Answers (Mounts K) W (names { inode := ⟨x⟩ } none) fun found => found.1 = n.listed := by
  refine Yields.bind (open_entry_yields hn ho) ?_
  have hfuel : n.slots - 0 < n.record.slotBound := Nat.lt_succ_of_le (Nat.sub_le _ _)
  have hnames := readNames_yields (K := K) hn ho hfuel
  rw [Nat.zero_mul] at hnames
  refine Leads.mono hnames ?_
  rintro r W' ⟨⟨d, rfl⟩, rfl⟩
  exact ⟨⟨_, rfl, rfl⟩, rfl⟩

end Directory

namespace Inode

theorem status_yields (hn : W.pool.nodes x = some n) (ho : W.opens x = some o) :
    Yields (Mounts K) W (status ⟨x⟩) (n.status x) W :=
  Yields.bind (open_entry_yields hn ho) Yields.pure

/-- Contents are never too long to be shown. -/
theorem read_contents_yields (hn : W.pool.nodes x = some n) (ho : W.opens x = some o) :
    Yields (Mounts K) W (read ⟨x⟩ 0 (min n.size Tree.dataLimit)) n.contents W := by
  refine Leads.of_shown fun v hv => ?_
  have hsize := (hv.disk.sound.stored x n hn).size_le
  have hlimit : min n.size Tree.dataLimit = n.size :=
    Nat.min_eq_left (hsize.trans (by decide))
  have hread := read_yields (K := K) hn ho 0 n.size
  rw [hlimit]
  rwa [Nat.sub_zero, Nat.min_self] at hread

end Inode

/-- An inode that was opened for an action that leaves the world as it is, is closed after it. -/
theorem Inode.closing_yields {y : VolumeM α} {v : α} (hK : K.Fits) (hn : W.pool.nodes x = some n)
    (hW : W.Attended) (h : Yields (Mounts K) (W.opened x) y v (W.opened x)) :
    Yields (Mounts K) (W.opened x) (y.andThen (Inode.close ⟨x⟩)) v W := by
  refine Leads.andThen h (fun r W' hr => hr.1 ▸ sober_ok) ?_
  rintro r W' ⟨rfl, rfl⟩
  exact Yields.leads (Inode.close_opened hK hn (hW x)) ⟨rfl, rfl, rfl⟩

namespace Tree

/-- Looking at an open inode of the tree answers what the pool shows of it, and leaves the world as it is. -/
theorem ofInode_yields (hK : K.Fits) (hR : W.pool.Rooted T) (hW : W.Attended) (order : NameOrder)
    (depth : Nat) (hx : T.linked x) (ho : W.opens x = some o) {t : Tree}
    (ht : W.pool.shown order depth x = .ok t) : Yields (Mounts K) W (ofInode order depth ⟨x⟩) t W := by
  -- The induction is on the depth that is left; each entry is opened in a world of its own and closed
  -- again.
  induction depth generalizing W x o t with
  | zero =>
    obtain ⟨n, hn⟩ := Option.ne_none_iff_exists'.1 (hR.stored x hx)
    refine Yields.bind (Inode.status_yields hn ho) ?_
    show Leads _ _ (if n.record.isDirectory then _ else _) _
    cases hdir : n.record.isDirectory with
    | true =>
      rw [Pool.shown_cutOff hn hdir] at ht
      cases ht
      exact Yields.pure
    | false =>
      rw [Pool.shown_file hn hdir] at ht
      cases ht
      exact Yields.trans (Inode.read_contents_yields hn ho) Yields.pure
  | succ depth ih =>
    obtain ⟨n, hn⟩ := Option.ne_none_iff_exists'.1 (hR.stored x hx)
    refine Yields.bind (Inode.status_yields hn ho) ?_
    show Leads _ _ (if n.record.isDirectory then _ else _) _
    cases hdir : n.record.isDirectory with
    | true =>
      rw [Pool.shown_directory hn hdir] at ht
      cases ht
      refine Answers.bind (Directory.names_answers hn ho) ?_
      rintro ⟨names, d⟩ hnames
      obtain rfl : names = n.listed := hnames
      refine Yields.trans (Yields.mapM fun name _ => ?_) Yields.pure
      -- Entries of a directory of the tree are in the tree, so what they open is stored.
      have hlinked (y : UInt32) (hy : n.child name = some y) : T.linked y :=
        hR.linked_child hx ((congrFun (Pool.child_of_node hn hdir) name).trans hy)
      refine Yields.trans (Leads.attemptVolume (Leads.bind (Directory.openEntry_leads hK rfl hn ho
        fun y hy => hR.stored y (hlinked y hy)) ?_ ?_)) Yields.pure
      · rintro c W' (⟨y, hy, hc, rfl⟩ | ⟨-, hc, -⟩)
        swap
        · cases hc
        cases hc
        have hly := hlinked y hy
        obtain ⟨m, hm⟩ := Option.ne_none_iff_exists'.1 (hR.stored y hly)
        obtain ⟨t, ht⟩ := Pool.exists_shown (hR.stored y hly) order depth
        refine Yields.leads (Inode.closing_yields hK hm hW
          (ih (W := W.opened y) hR (hW.opened y) hly (W.opened_opens_self y) ht)) ⟨?_, rfl⟩
        rw [hy, Option.elim_some, ht]
        rfl
      · rintro e W' (⟨y, -, he, -⟩ | ⟨hnone, he, rfl⟩)
        · cases he
        cases he
        rw [hnone]
        exact ⟨rfl, rfl⟩
    | false =>
      rw [Pool.shown_file hn hdir] at ht
      cases ht
      exact Yields.trans (Inode.read_contents_yields hn ho) Yields.pure

/-- Looking at a volume answers what its pool shows from the root down, and leaves the world as it is. -/
theorem ofVolume_yields (hK : K.Fits) (hR : W.pool.Rooted T) (hW : W.Attended) (order : NameOrder)
    (depth : Nat) {t : Tree} (ht : W.pool.shown order depth rootInode = .ok t) :
    Yields (Mounts K) W (ofVolume order depth) t W := by
  obtain ⟨n, hn⟩ := Option.ne_none_iff_exists'.1 (hR.stored _ hR.root)
  refine withoutFaults_yields (Yields.bind (Volume.openRoot_yields hK hR.walkable hW) ?_)
  have hlook : Yields (Mounts K) (W.opened rootInode) (ofInode order depth ⟨rootInode⟩) t
      (W.opened rootInode) :=
    ofInode_yields (W := W.opened rootInode) hK hR (hW.opened _) order depth hR.root
      (W.opened_opens_self _) ht
  exact Inode.closing_yields hK hn hW hlook

end Tree

end Look

end InodeVolume
