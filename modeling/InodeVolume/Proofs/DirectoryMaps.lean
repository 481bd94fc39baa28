import InodeVolume.Proofs.DirectoryRuns
import InodeVolume.Proofs.ShownTrees
import Mathlib.Data.Finmap

/-!
# Directories are finite maps

A new directory, worked on by itself: names are linked and unlinked in it, looked up and listed
(`Directory.Run`). It is a finite map from names to inodes (`Directory.maps_of_run`). The slots of names that
have been unlinked are used again, so its table has never more slots than it was made with or than it has had
names at one time.

Every name but `.` and `..` is linked with an inode that has been made for it. Inodes are made on a volume that a
client has, or on one that has nothing but a new space map (`Stocked`).
-/

namespace InodeVolume

open Record

/-! ## Making inodes -/

/-- Takes a block and stores an inode in it by `create`. -/
def storedNew (create : UInt32 → VolumeM Unit) : VolumeM UInt32 := do
  let number ← VolumeM.allocate 1
  create number
  pure number

/-- Makes an inode of `size` zero bytes. -/
def newInode (size : Nat) (isDirectory : Bool) : VolumeM UInt32 :=
  storedNew fun number => Inode.create number size isDirectory

/-- Makes a directory with room for `slots` entries and opens it. -/
def newDirectory (slots : Nat) : VolumeM Directory := do
  let number ← storedNew fun number => Directory.create number slots
  Directory.ofInode (← Inode.acquire number)

/-- The inodes to spare after one more may have been made. -/
def stockedWith (spare : Finset UInt32) : Except Stop UInt32 → Finset UInt32
  | .ok b => insert b spare
  | .error _ => spare

/-- A volume on which no access fails, and the inodes `spare` that have been made on it for entries. It is that of a
client, or has nothing but a new space map. -/
inductive Stocked : Finset UInt32 → Volume → Prop
  | client {c : Client} (asked : c.Asked) : Stocked ∅ c.volume
  | map {disk disk' : Disk} {space : SpaceMap} (works : disk.Works False)
    (bounded : disk.device.blockCount ≤ 2 ^ (32 : Nat)) (mapped : Volume.mountSpace true disk = .ok space disk') :
    Stocked ∅ { disk := disk', space := space }
  | allocate {spare : Finset UInt32} {v : Volume} (stocked : Stocked spare v) :
    Stocked spare (outcome (VolumeM.allocate 1) v).2
  | make {spare : Finset UInt32} {v : Volume} (stocked : Stocked spare v) (size : Nat) (isDirectory : Bool) :
    Stocked (stockedWith spare (outcome (newInode size isDirectory) v).1) (outcome (newInode size isDirectory) v).2

/-- The volume shows the world `W`, in which the inodes that are `made` for entries are stored. -/
structure Stock (K : Regime) (W : World) (made : UInt32 → Prop) (v : Volume) : Prop where
  fits : K.Fits
  reliable : ¬K.faulty
  mounts : Mounts K W v
  attended : W.Attended
  root : W.pool.RootTaken
  made : ∀ x, made x → K.IsData x.toNat ∧ W.pool.nodes x ≠ none

/-- What is stored in `W` is stored in `W'` as it was, and nothing else is open. -/
structure World.Enlarges (W W' : World) : Prop where
  opens : W'.opens = W.opens
  root : W'.pool.RootTaken
  nodes : ∀ x, W.pool.nodes x ≠ none → W'.pool.nodes x = W.pool.nodes x

section Stock

variable {K : Regime} {W W' : World} {spare : Finset UInt32} {made made' : UInt32 → Prop} {v v' : Volume}
  {size slots : Nat} {isDirectory : Bool}

theorem allocate_enlarges (hK : K.Fits) (hroot : W.pool.RootTaken) :
    Leads (Mounts K) W (VolumeM.allocate 1) fun _ W' => W.Enlarges W' := by
  refine Leads.mono (VolumeM.allocate_leads hK) ?_
  rintro res W' (⟨b, -, hnodes, hheld, hopens, -⟩ | ⟨e, -, rfl, -⟩)
  · exact ⟨hopens, hroot.imp (hnodes ▸ ·) (hheld ▸ List.mem_cons_of_mem b ·), fun x _ => congrFun hnodes x⟩
  · exact ⟨rfl, hroot, fun _ _ => rfl⟩

/-- A new inode is stored in a block of its own, unless it is too long or there is no room for it. -/
theorem newInode_enlarges (hK : K.Fits) (hf : ¬K.faulty) (hroot : W.pool.RootTaken) (size : Nat)
    (isDirectory : Bool) : Leads (Mounts K) W (newInode size isDirectory) fun res W' => W.Enlarges W' ∧
      ((∃ b n, res = .ok b ∧ W.pool.nodes b = none ∧ W.opens b = none ∧ K.IsData b.toNat ∧
          W'.pool.nodes b = some n ∧ n.record.isDirectory = isDirectory ∧ n.size = size ∧ n.byte = (fun _ => 0) ∧
          K.free W'.pool.store.used + (totalBlocks size + 1) = K.free W.pool.store.used) ∨
        ((∃ e, res = .error (.failed e)) ∧
          (maxFileSize < size ∨ K.free W.pool.store.used < totalBlocks size + 1))) := by
  refine Leads.bind (VolumeM.allocate_leads hK) ?_ ?_
  · rintro b W₁ (⟨b', hb, hnodes₁, hheld₁, hopens₁, hfree₁⟩ | ⟨e, he, -⟩)
    swap
    · cases he
    cases hb
    refine Leads.of_shown fun v hv => ?_
    obtain ⟨hfresh, hdata, hclosed⟩ := Volume.unopened_fresh hv hroot hnodes₁ hopens₁ hheld₁
    refine Leads.bind (Inode.create_leads hK (hnodes₁ ▸ hfresh) hheld₁) ?_ ?_
    · rintro u W₂ (⟨n, -, hnodes₂, hheld₂, hopens₂, hdir, hsize, hbyte, -, -, hfree₂⟩ | ⟨e, he, -⟩)
      swap
      · cases he
      -- The block was not in use, so it is none that an inode was stored in.
      have hothers (x : UInt32) (hx : W.pool.nodes x ≠ none) : W₂.pool.nodes x = W.pool.nodes x := by
        have hxb : x ≠ b := by
          rintro rfl
          exact hx hfresh
        rw [hnodes₂, Function.update_of_ne hxb, hnodes₁]
      refine Leads.pure ⟨⟨hopens₂.trans hopens₁, hroot.imp (fun h => by rwa [hothers _ h]) (hheld₂ ▸ ·), hothers⟩,
        .inl ⟨b, n, rfl, hfresh, hclosed, hdata, by rw [hnodes₂, Function.update_self], hdir, hsize, hbyte, by omega⟩⟩
    · rintro e W₂ (⟨n, he, -⟩ | ⟨e', he, hstays, hwhy⟩)
      · cases he
      cases he
      refine ⟨⟨hstays.opens.trans hopens₁, ?_, fun x _ => by rw [hstays.nodes, hnodes₁]⟩, .inr ⟨⟨e', rfl⟩, ?_⟩⟩
      · -- The block that was taken for it is lost, but this changes nothing that is stored.
        exact hroot.imp (by rw [hstays.nodes, hnodes₁]; exact id)
          (by rw [hstays.held, hheld₁]; exact List.mem_cons_of_mem b)
      · rcases hwhy with ⟨-, hlong⟩ | ⟨-, hlow⟩ | ⟨hfaulty, -⟩
        · exact .inl hlong
        · exact .inr (by omega)
        · exact absurd hfaulty hf
  · rintro e W₁ (⟨b, he, -⟩ | ⟨e', he, rfl, ⟨-, hzero⟩ | ⟨hfaulty, -⟩⟩)
    · cases he
    · cases he
      exact ⟨⟨rfl, hroot, fun _ _ => rfl⟩, .inr ⟨⟨e', rfl⟩, .inr (by omega)⟩⟩
    · exact absurd hfaulty hf

theorem World.Enlarges.attended (h : W.Enlarges W') (hW : W.Attended) : W'.Attended :=
  fun x o ho => hW x o (h.opens ▸ ho)

/-- What is made for entries may have become more or less, so long as it is stored. -/
theorem Stock.renew (h : Stock K W made v) (hv : Mounts K W' v') (hattended : W'.Attended)
    (hroot : W'.pool.RootTaken)
    (hmade : ∀ x, made' x → K.IsData x.toNat ∧ W'.pool.nodes x ≠ none) : Stock K W' made' v' :=
  ⟨h.fits, h.reliable, hv, hattended, hroot, hmade⟩

/-- In a larger world there is what there was. -/
theorem Stock.enlarged (h : Stock K W made v) (hv : Mounts K W' v') (he : W.Enlarges W') : Stock K W' made v' :=
  h.renew hv (he.attended h.attended) he.root fun x hx =>
    ⟨(h.made x hx).1, by rw [he.nodes x (h.made x hx).2]; exact (h.made x hx).2⟩

theorem Stock.allocate (h : Stock K W made v) :
    ∃ W', Stock K W' made (outcome (VolumeM.allocate 1) v).2 ∧ W.Enlarges W' := by
  obtain ⟨W', hv, he⟩ := (allocate_enlarges h.fits h.root).comes h.mounts
  exact ⟨W', h.enlarged hv he, he⟩

/-- What has been made is there, and was not stored before. -/
theorem Stock.make (h : Stock K W made v) (size : Nat) (isDirectory : Bool) :
    let (res, v') := outcome (newInode size isDirectory) v
    ∃ W', Stock K W' (fun x => made x ∨ res = .ok x) v' ∧ W.Enlarges W' ∧
      ∀ b, res = .ok b → W.pool.nodes b = none := by
  have hmake : Leads (Mounts K) W (newInode size isDirectory) _ :=
    newInode_enlarges h.fits h.reliable h.root size isDirectory
  have hcomes := hmake.comes h.mounts
  generalize outcome (newInode size isDirectory) v = p at hcomes ⊢
  obtain ⟨res, v'⟩ := p
  obtain ⟨W', hv, he, ⟨b, n, rfl, hfresh, -, hdata, hn, -⟩ | ⟨⟨e, rfl⟩, -⟩⟩ := hcomes
  · refine ⟨W', h.renew hv (he.attended h.attended) he.root ?_, he, fun b' hb' => by cases hb'; exact hfresh⟩
    -- What was made before is still there, and the new inode is stored.
    rintro x (hx | hx)
    · exact (h.enlarged hv he).made x hx
    · cases hx
      exact ⟨hdata, by simp [hn]⟩
  · refine ⟨W', h.renew hv (he.attended h.attended) he.root ?_, he, fun b hb => by cases hb⟩
    rintro x (hx | hx)
    · exact (h.enlarged hv he).made x hx
    · cases hx

theorem mem_stockedWith {res : Except Stop UInt32} {x : UInt32} :
    x ∈ stockedWith spare res ↔ x ∈ spare ∨ res = .ok x := by
  cases res with
  | error e => simp [stockedWith]
  | ok b => simp [stockedWith, or_comm, eq_comm]

/-- Whatever was reached so far is described by a world, with the spare inodes in it. -/
theorem Stocked.stock (h : Stocked spare v) : ∃ K W, Stock K W (· ∈ spare) v := by
  -- By induction on how it was reached. A client has no spare inodes at first, and a new map has no inodes
  -- at all.
  induction h with
  | client asked =>
    obtain ⟨K, W, T, hf, ha⟩ := asked.abides
    have hO := ha.stands.good.ordered
    exact ⟨K, W, ha.stands.fits, hf, ha.stands.mounts, hO.attended, .inl (hO.rooted.stored _ hO.rooted.root),
      fun x hx => absurd hx (Finset.notMem_empty x)⟩
  | @map disk disk' space works bounded mapped =>
    rcases (map_leads (K := ⟨disk.device.blockCount, False⟩) bounded).run (a := none) works.zeroed with
      ⟨space', d, o, hx, hs, ⟨hspace, hroom, data, rfl⟩ | ⟨-, e, he⟩⟩ | ⟨e, d, o, hx, -⟩
    · cases hspace
      cases (show Volume.mountSpace true disk = _ from hx).symm.trans mapped
      exact ⟨_, _, ⟨bounded, hroom⟩, id, blank_mounts hs, fun x o ho => (by cases ho),
        .inr (List.mem_singleton_self _), fun x hx => absurd hx (Finset.notMem_empty x)⟩
    · cases he
    · cases (show Volume.mountSpace true disk = _ from hx).symm.trans mapped
  | allocate _ ih =>
    obtain ⟨K, W, h⟩ := ih
    obtain ⟨W', h', -⟩ := h.allocate
    exact ⟨K, W', h'⟩
  | make _ size isDirectory ih =>
    obtain ⟨K, W, h⟩ := ih
    obtain ⟨W', h', -⟩ := h.make size isDirectory
    exact ⟨K, W', { h' with made := fun x hx => h'.made x (mem_stockedWith.1 hx) }⟩

/-- A volume of eight blocks that has nothing but a space map, behind which six blocks are free. -/
theorem exists_stocked : ∃ W v, Stocked ∅ v ∧ Stock ⟨8, False⟩ W (· ∈ (∅ : Finset UInt32)) v ∧
    Regime.free ⟨8, False⟩ W.pool.store.used = 6 := by
  have hcount : (Device.inMemory 8).blockCount = 8 := by simp [Device.inMemory, Device.blockCount]
  have hworks : ({ device := .inMemory 8 } : Disk).Works False :=
    ⟨fun _ _ => rfl, fun _ _ => rfl, fun _ _ _ => rfl⟩
  have hzeroed := hworks.zeroed
  rw [hcount] at hzeroed
  have hK : Regime.Fits ⟨8, False⟩ := ⟨by decide, by decide⟩
  obtain ⟨disk, data, hmap, hshows⟩ := mountSpace_formats hK id hzeroed
  exact ⟨_, _, .map hworks (hcount.trans_le (by decide)) hmap,
    ⟨hK, id, blank_mounts hshows, fun x o ho => (by cases ho), .inr (List.mem_singleton_self _),
      fun x hx => absurd hx (Finset.notMem_empty x)⟩, blank_free_eq data⟩

/-- The directory `b` has just been made and opened. -/
structure NewDirectory (K : Regime) (W : World) (slots : Nat) (b : UInt32) (n : Node) (W' : World) : Prop where
  fresh : W.pool.nodes b = none
  attended : W'.Attended
  root : W'.pool.RootTaken
  nodes : ∀ x, W.pool.nodes x ≠ none → W'.pool.nodes x = W.pool.nodes x
  node : W'.pool.nodes b = some n
  opening : W'.opens b = some ⟨1, false, 0⟩
  tidy : n.Tidy
  child : n.child = fun _ => none
  size : n.size = slots * slotSize
  free : K.free W'.pool.store.used + (totalBlocks (slots * slotSize) + 1) = K.free W.pool.store.used

theorem newDirectory_leads (hK : K.Fits) (hf : ¬K.faulty) (hroot : W.pool.RootTaken) (hW : W.Attended)
    (slots : Nat) : Leads (Mounts K) W (newDirectory slots) fun res W' =>
      (∃ b n, res = .ok (directoryAt b) ∧ NewDirectory K W slots b n W') ∨
        ((∃ e, res = .error e) ∧ (maxFileSize < slots * slotSize ∨
          K.free W.pool.store.used < totalBlocks (slots * slotSize) + 1)) := by
  unfold newDirectory
  by_cases hlong : 2 ^ (64 : Nat) ≤ slots * slotSize
  · -- Nothing is stored for so long a table.
    have hmisuse : (fun number => Directory.create number slots) = fun _ => VolumeM.misuse .tableTooLong := by
      funext number
      rw [Directory.create, if_pos hlong]
    have hmax : maxFileSize < slots * slotSize := Nat.lt_of_lt_of_le (by decide) hlong
    rw [hmisuse]
    refine Leads.bind (M := fun res _ => ∃ e, res = .error e) (Leads.bind (M := fun _ _ => True)
      (Leads.mono (VolumeM.allocate_leads hK) fun _ _ _ => trivial) (fun b W₁ _ => Leads.throwBind ⟨_, rfl⟩)
      fun e W₁ _ => ⟨e, rfl⟩) ?_ fun e W₁ _ => .inr ⟨⟨e, rfl⟩, .inl hmax⟩
    rintro b W₁ ⟨e, he⟩
    cases he
  -- Otherwise a new directory is an inode with a table of zero bytes, which has no entries.
  have hcreate : storedNew (fun number => Directory.create number slots) = newInode (slots * slotSize) true := by
    unfold newInode
    congr 1
    funext number
    rw [Directory.create, if_neg hlong]
  rw [hcreate]
  refine Leads.bind (newInode_enlarges hK hf hroot (slots * slotSize) true) ?_ ?_
  · rintro b W₁ ⟨he, ⟨b', n, hb, hfresh, hclosed, -, hn, hdir, hsize, hbyte, hfree⟩ | ⟨⟨e, hres⟩, -⟩⟩
    swap
    · cases hres
    cases hb
    have hattended : W₁.Attended := fun x o ho => hW x o (he.opens ▸ ho)
    refine Yields.bind (Inode.acquire_yields hK hn) (Leads.mono (Volume.ofInode_leads hK hn hattended) ?_)
    rintro res W' harrives
    rw [Pool.isDirectory_of_node hn, hdir, if_pos rfl] at harrives
    obtain ⟨rfl, rfl⟩ := harrives
    obtain ⟨htidy, hchild⟩ := blank_table (by rw [hsize, Nat.mul_mod_left]) hbyte
    refine .inl ⟨b, n, rfl, hfresh, hattended.opened b, he.root, he.nodes, hn, ?_, htidy, hchild, hsize, hfree⟩
    rw [W₁.opened_opens_self, he.opens, hclosed]
    rfl
  · rintro e W₁ ⟨-, ⟨b, n, hres, -⟩ | ⟨⟨e', hres⟩, hwhy⟩⟩
    · cases hres
    · exact .inr ⟨⟨e, rfl⟩, hwhy⟩

end Stock

/-! ## Listing -/

namespace Node

variable {n : Node} {name : String}

theorem mem_listing {j : Nat} : j ∈ (List.range' 0 (n.slots - 0)).filter (fun i => lists (n.slot i)) ↔
    j < n.slots ∧ lists (n.slot j) = true := by
  rw [List.mem_filter, List.mem_range'_1, Nat.sub_zero, Nat.zero_add, and_iff_right (Nat.zero_le j)]

/-- The names that are listed are those that are linked, but for `.` and `..`. -/
theorem mem_listed : name ∈ n.listed ↔ isDotName name = false ∧ ∃ x, n.child name = some x := by
  rw [listed, listedFrom, List.mem_map]
  constructor
  · rintro ⟨j, hj, rfl⟩
    obtain ⟨hlt, hlists⟩ := mem_listing.1 hj
    obtain ⟨he, hdot⟩ := entry_of_lists hlt hlists
    exact ⟨hdot, Option.ne_none_iff_exists'.1 fun hnone => child_none_iff.1 hnone _ _ he⟩
  · rintro ⟨hdot, x, hx⟩
    obtain ⟨j, -, he⟩ := child_some hx
    exact ⟨j, mem_listing.2 ⟨he.lt, he.lists hdot⟩, he.name_eq⟩

/-- No name is listed twice. -/
theorem Tidy.nodup_listed (h : n.Tidy) : n.listed.Nodup := by
  rw [listed, listedFrom]
  refine List.Nodup.map_on (fun i hi j hj hname => ?_) ((List.nodup_range' ..).filter _)
  obtain ⟨hi, -⟩ := entry_of_lists (mem_listing.1 hi).1 (mem_listing.1 hi).2
  obtain ⟨hj, -⟩ := entry_of_lists (mem_listing.1 hj).1 (mem_listing.1 hj).2
  rw [hname] at hi
  exact h.unique i j _ _ _ hi hj

/-- Nothing is listed where there are no names but `.` and `..`. -/
theorem isEmpty_listed [Decidable n.Busy] : n.listed.isEmpty = !decide n.Busy := by
  rw [Bool.eq_iff_iff, List.isEmpty_iff, Bool.not_eq_true', decide_eq_false_iff_not, List.eq_nil_iff_forall_not_mem]
  simp only [mem_listed, Busy, not_exists, not_and]
  exact ⟨fun h name x hdot => h name hdot x, fun h name hdot x => h name x hdot⟩

end Node

namespace Directory

/-! ## Runs -/

/-- What has been done in a directory: which names are `linked` for which inodes, how many there were at `most` at
one time, and the inodes to `spare`, which are in no entry. -/
structure Ledger where
  linked : Finmap fun _ : String => UInt32
  most : Nat
  spare : Finset UInt32

/-- After linking a name has been tried. -/
def Ledger.added (l : Ledger) (name : String) (number : UInt32) : Except Stop Unit → Ledger
  | .ok () =>
    { linked := l.linked.insert name number
      most := max l.most (l.linked.insert name number).keys.card
      spare := if isDotName name then l.spare else l.spare.erase number }
  | .error _ => l

/-- After unlinking a name has been tried. -/
def Ledger.removed (l : Ledger) (name : String) : Except Stop Unit → Ledger
  | .ok () => { l with linked := l.linked.erase name }
  | .error _ => l

/-- The names that a fresh handle lists, which is closed again. -/
def list (d : Directory) : VolumeM (List String) := do
  let fresh ← d.reopen
  let (names, _) ← fresh.names none
  fresh.close
  pure names

/-- Work on the directory `d`, which was made with room for `slots` entries and opened. Names are linked without
zero characters, all but `.` and `..` for an inode that has been made for it. -/
inductive Run (d : Directory) (slots : Nat) : Ledger → Volume → Prop
  | made {spare : Finset UInt32} {v v' : Volume} (stocked : Stocked spare v)
    (made : outcome (newDirectory slots) v = (.ok d, v')) : Run d slots ⟨∅, 0, spare⟩ v'
  | allocate {l : Ledger} {v : Volume} (run : Run d slots l v) :
    Run d slots l (outcome (VolumeM.allocate 1) v).2
  | make {l : Ledger} {v : Volume} (run : Run d slots l v) (size : Nat) (isDirectory : Bool) :
    Run d slots { l with spare := stockedWith l.spare (outcome (newInode size isDirectory) v).1 }
      (outcome (newInode size isDirectory) v).2
  | add {l : Ledger} {v : Volume} (run : Run d slots l v) {name : String} {number : UInt32} (plain : NulFree name)
    (own : isDotName name = false → number ∈ l.spare) :
    Run d slots (l.added name number (outcome (d.add name number) v).1) (outcome (d.add name number) v).2
  | remove {l : Ledger} {v : Volume} (run : Run d slots l v) (name : String) :
    Run d slots (l.removed name (outcome (d.remove name) v).1) (outcome (d.remove name) v).2
  | lookup {l : Ledger} {v : Volume} (run : Run d slots l v) (name : String) :
    Run d slots l (outcome (d.lookup name) v).2
  | isEmpty {l : Ledger} {v : Volume} (run : Run d slots l v) : Run d slots l (outcome d.isEmpty v).2
  | list {l : Ledger} {v : Volume} (run : Run d slots l v) : Run d slots l (outcome d.list v).2

/-- The directory `d` is the finite map of the ledger. -/
structure Maps (d : Directory) (slots : Nat) (l : Ledger) (v : Volume) : Prop where
  lookup : ∀ name, d.lookedUp v name = .ok (l.linked.lookup name)
  list : ∃ names, (outcome d.list v).1 = .ok names ∧ (outcome d.isEmpty v).1 = .ok names.isEmpty ∧
    names.Nodup ∧ ∀ name, name ∈ names ↔ isDotName name = false ∧ name ∈ l.linked
  length : (outcome d.inode.length v).1 = .ok (slotSize * max slots l.most)
  /-- What fails leaves all names as they are. -/
  add_failed : ∀ name number e, (outcome (d.add name number) v).1 = .error e →
    ∀ other, d.lookedUp (outcome (d.add name number) v).2 other = d.lookedUp v other
  remove_failed : ∀ name e, (outcome (d.remove name) v).1 = .error e →
    ∀ other, d.lookedUp (outcome (d.remove name) v).2 other = d.lookedUp v other
  /-- While there is a slot that is not in use, linking a name does not make the table longer. -/
  add_free : ∀ name number, NulFree name → l.linked.keys.card < max slots l.most →
    (outcome d.inode.length (outcome (d.add name number) v).2).1 = (outcome d.inode.length v).1

/-! ## Keeping the ledger -/

namespace Ledger

variable {l : Ledger} {id x y number : UInt32} {name : String} {slots : Nat} {n n' : Node}

/-- Inode `x` has been made for an entry, and is in one or to spare. -/
def Holds (l : Ledger) (x : UInt32) : Prop :=
  x ∈ l.spare ∨ ∃ name, isDotName name = false ∧ l.linked.lookup name = some x

/-- An inode that was made for an entry is in no other one, and it is not the directory `id` itself. -/
structure Sound (l : Ledger) (id : UInt32) : Prop where
  apart : ¬l.Holds id
  own : ∀ name x, isDotName name = false → l.linked.lookup name = some x → x ∉ l.spare
  once : ∀ name name' x, isDotName name = false → isDotName name' = false → l.linked.lookup name = some x →
    l.linked.lookup name' = some x → name = name'

/-- The table of `n` is what the ledger says. -/
structure Tells (l : Ledger) (slots : Nat) (n : Node) : Prop where
  tidy : n.Tidy
  child : n.child = fun name => l.linked.lookup name
  size : n.size = slotSize * max slots l.most
  most : l.linked.keys.card ≤ l.most

/-- What a name stands for now it has stood for before, or it is the new one. -/
theorem linked_added {nm : String} (h : (l.added name number (.ok ())).linked.lookup nm = some x) :
    (nm = name ∧ x = number) ∨ (nm ≠ name ∧ l.linked.lookup nm = some x) := by
  rw [added] at h
  by_cases hnm : nm = name
  · rw [hnm, Finmap.lookup_insert] at h
    exact .inl ⟨hnm, (Option.some_inj.1 h).symm⟩
  · rw [Finmap.lookup_insert_of_ne _ hnm] at h
    exact .inr ⟨hnm, h⟩

/-- What is in an entry is not to spare any more. -/
theorem spare_added (h : x ∈ (l.added name number (.ok ())).spare) :
    x ∈ l.spare ∧ (isDotName name = false → x ≠ number) := by
  by_cases hname : isDotName name = true
  · rw [added, if_pos hname] at h
    exact ⟨h, fun hdot => by rw [hname] at hdot; cases hdot⟩
  · rw [added, if_neg hname] at h
    exact ⟨Finset.mem_of_mem_erase h, fun _ => Finset.ne_of_mem_erase h⟩

theorem holds_added (hown : isDotName name = false → number ∈ l.spare)
    (h : (l.added name number (.ok ())).Holds x) : l.Holds x := by
  rcases h with h | ⟨nm, hdot, h⟩
  · exact .inl (spare_added h).1
  · rcases linked_added h with ⟨rfl, rfl⟩ | ⟨-, h⟩
    · exact .inl (hown hdot)
    · exact .inr ⟨nm, hdot, h⟩

/-- Adding an entry keeps a log sound, if the number was spare or the name is one of dots. -/
theorem Sound.added (h : l.Sound id) (hown : isDotName name = false → number ∈ l.spare) :
    (l.added name number (.ok ())).Sound id := by
  refine ⟨fun hid => h.apart (holds_added hown hid), fun nm x hdot hx hmem => ?_,
    fun nm nm' x hdot hdot' hx hx' => ?_⟩
  · obtain ⟨hmem, hne⟩ := spare_added hmem
    -- The number is no longer spare, and nothing else that is linked has it.
    rcases linked_added hx with ⟨rfl, rfl⟩ | ⟨-, hx⟩
    · exact hne hdot rfl
    · exact h.own nm x hdot hx hmem
  · rcases linked_added hx with ⟨rfl, rfl⟩ | ⟨-, hold⟩
    · rcases linked_added hx' with ⟨rfl, -⟩ | ⟨-, hold'⟩
      · rfl
      · exact absurd (hown hdot) (h.own nm' x hdot' hold')
    · rcases linked_added hx' with ⟨rfl, rfl⟩ | ⟨-, hold'⟩
      · exact absurd (hown hdot') (h.own nm x hdot hold)
      · exact h.once nm nm' x hdot hdot' hold hold'

theorem linked_removed {nm : String} (h : (l.removed name (.ok ())).linked.lookup nm = some x) :
    nm ≠ name ∧ l.linked.lookup nm = some x := by
  rw [removed] at h
  by_cases hnm : nm = name
  · rw [hnm, Finmap.lookup_erase] at h
    cases h
  · rw [Finmap.lookup_erase_ne hnm] at h
    exact ⟨hnm, h⟩

/-- An inode whose name has been unlinked is not there any more. -/
theorem Sound.holds_removed (h : l.Sound id) (hdot : isDotName name = false) (hy : l.linked.lookup name = some y)
    (hx : (l.removed name (.ok ())).Holds x) : l.Holds x ∧ x ≠ y := by
  rcases hx with hx | ⟨nm, hdot', hx⟩
  · refine ⟨.inl hx, ?_⟩
    rintro rfl
    exact h.own name x hdot hy hx
  · obtain ⟨hne, hx⟩ := linked_removed hx
    refine ⟨.inr ⟨nm, hdot', hx⟩, ?_⟩
    rintro rfl
    exact hne (h.once nm name x hdot' hdot hx hy)

theorem Sound.removed (h : l.Sound id) (hdot : isDotName name = false) (hy : l.linked.lookup name = some y) :
    (l.removed name (.ok ())).Sound id :=
  ⟨fun hid => h.apart (h.holds_removed hdot hy hid).1,
    fun nm x hdot' hx => h.own nm x hdot' (linked_removed hx).2,
    fun nm nm' x hdot₁ hdot₂ hx hx' => h.once nm nm' x hdot₁ hdot₂ (linked_removed hx).2 (linked_removed hx').2⟩

/-- More inodes to spare. -/
theorem Sound.restocked {res : Except Stop UInt32} (h : l.Sound id) (hnew : ∀ b, res = .ok b → ¬l.Holds b ∧ b ≠ id) :
    { l with spare := stockedWith l.spare res : Ledger }.Sound id := by
  refine ⟨?_, fun nm x hdot hx hmem => ?_, h.once⟩
  · rintro (hmem | hlinked)
    · rcases mem_stockedWith.1 hmem with hmem | hres
      · exact h.apart (.inl hmem)
      · exact (hnew id hres).2 rfl
    · exact h.apart (.inr hlinked)
  · rcases mem_stockedWith.1 hmem with hmem | hres
    · exact h.own nm x hdot hx hmem
    · exact (hnew x hres).1 (.inr ⟨nm, hdot, hx⟩)

theorem holds_restocked {res : Except Stop UInt32}
    (h : { l with spare := stockedWith l.spare res : Ledger }.Holds x) : l.Holds x ∨ res = .ok x := by
  rcases h with hmem | hlinked
  · exact (mem_stockedWith.1 hmem).imp_left .inl
  · exact .inl (.inr hlinked)

/-- The names of the table are those of the ledger. -/
theorem Tells.names (h : l.Tells slots n) : n.names = l.linked.keys := by
  ext name
  rw [Node.mem_names, h.child, Finmap.mem_keys, ← Finmap.lookup_isSome, Option.isSome_iff_ne_none]

theorem Tells.slots_eq (h : l.Tells slots n) : n.slots = max slots l.most := by
  rw [Node.slots, h.size, Nat.mul_div_cancel_left _ (by decide)]

/-- Linking a name that was not linked. -/
theorem Tells.added (h : l.Tells slots n) (htidy : n'.Tidy) (hnew : n.child name = none)
    (hchild : n'.child = Function.update n.child name (some number))
    (hsize : n'.size = max n.size (n.vacant * slotSize + slotSize)) :
    (l.added name number (.ok ())).Tells slots n' := by
  have hlookup : n'.child = fun nm => (l.linked.insert name number).lookup nm := by
    funext nm
    rw [hchild, h.child]
    by_cases hnm : nm = name
    · rw [hnm, Function.update_self, Finmap.lookup_insert]
    · rw [Function.update_of_ne hnm, Finmap.lookup_insert_of_ne _ hnm]
  -- There is one name more, which needs a new slot only if all slots were in use (`Node.Tidy.size_linked`).
  have hcard : (l.linked.insert name number).keys.card = n.names.card + 1 := by
    rw [← Node.card_names_linked hchild hnew]
    congr 1
    ext nm
    rw [Node.mem_names, hlookup, Finmap.mem_keys, ← Finmap.lookup_isSome, Option.isSome_iff_ne_none]
  refine ⟨htidy, hlookup, ?_, Nat.le_max_right ..⟩
  rw [hsize, h.tidy.size_linked, h.slots_eq, ← hcard, Nat.max_assoc]
  rfl

/-- Unlinking a name that was linked. -/
theorem Tells.removed (h : l.Tells slots n) (htidy : n'.Tidy)
    (hchild : n'.child = Function.update n.child name none) (hsize : n'.size = n.size) :
    (l.removed name (.ok ())).Tells slots n' := by
  refine ⟨htidy, funext fun nm => ?_, hsize.trans h.size, ?_⟩
  · rw [hchild, h.child, Ledger.removed]
    by_cases hnm : nm = name
    · rw [hnm, Function.update_self, Finmap.lookup_erase]
    · rw [Function.update_of_ne hnm, Finmap.lookup_erase_ne hnm]
  · rw [Ledger.removed, Finmap.keys_erase]
    exact (Finset.card_erase_le).trans h.most

end Ledger

/-- The volume shows the world `W`, in which the directory is `n`, as the ledger says. -/
structure Booked (d : Directory) (slots : Nat) (l : Ledger) (v : Volume) (K : Regime) (W : World) (n : Node) :
    Prop where
  stock : Stock K W l.Holds v
  node : W.pool.nodes d.inode.number = some n
  opening : ∃ o, W.opens d.inode.number = some o
  table : l.Tells slots n
  sound : l.Sound d.inode.number

section Run

variable {K : Regime} {W W' : World} {d : Directory} {slots : Nat} {l : Ledger} {v v' : Volume} {n n' : Node}
  {name : String} {number : UInt32} {α : Type}

/-- What only looks answers what it does in the world, and changes nothing in it. -/
theorem Booked.looks {x : VolumeM α} {a : α} (h : d.Booked slots l v K W n) (hx : Yields (Mounts K) W x a W) :
    (outcome x v).1 = .ok a ∧ d.Booked slots l (outcome x v).2 K W n := by
  obtain ⟨W', hv, hres, rfl⟩ := hx.comes h.stock.mounts
  exact ⟨hres, { h with stock := { h.stock with mounts := hv } }⟩

theorem Booked.lookup (h : d.Booked slots l v K W n) (name : String) :
    d.lookedUp v name = .ok (l.linked.lookup name) ∧ d.Booked slots l (outcome (d.lookup name) v).2 K W n := by
  obtain ⟨o, ho⟩ := h.opening
  have hlook := h.looks (lookup_yields rfl h.node ho name)
  rw [h.table.child] at hlook
  exact hlook

theorem Booked.isEmpty (h : d.Booked slots l v K W n) : (outcome d.isEmpty v).1 = .ok n.listed.isEmpty ∧
    d.Booked slots l (outcome d.isEmpty v).2 K W n := by
  classical
  obtain ⟨o, ho⟩ := h.opening
  rw [Node.isEmpty_listed]
  exact h.looks (isEmpty_yields rfl h.node ho h.table.tidy)

theorem Booked.length (h : d.Booked slots l v K W n) : (outcome d.inode.length v).1 = .ok n.size := by
  obtain ⟨o, ho⟩ := h.opening
  exact (h.looks (Inode.length_yields h.node ho)).1

/-- A handle is opened for a listing and closed after it. -/
theorem Booked.list (h : d.Booked slots l v K W n) : (outcome d.list v).1 = .ok n.listed ∧
    d.Booked slots l (outcome d.list v).2 K W n := by
  obtain ⟨o, ho⟩ := h.opening
  refine h.looks ?_
  refine Yields.bind (Yields.trans (Inode.reopen_yields h.node ho) Yields.pure) ?_
  refine Answers.bind (names_answers (W := W.opened d.inode.number) h.node (W.opened_opens_self _)) ?_
  rintro ⟨names, _⟩ hnames
  obtain rfl : names = n.listed := hnames
  exact Yields.trans (Inode.close_opened h.stock.fits h.node (h.stock.attended _)) Yields.pure

/-- What is done elsewhere leaves the directory as it is. -/
theorem Booked.enlarged {l' : Ledger} (h : d.Booked slots l v K W n) (hs : Stock K W' l'.Holds v')
    (he : W.Enlarges W') (htable : l'.Tells slots n) (hsound : l'.Sound d.inode.number) :
    d.Booked slots l' v' K W' n :=
  ⟨hs, by rw [he.nodes _ (by simp [h.node]), h.node], by rw [he.opens]; exact h.opening, htable, hsound⟩

/-- Making an inode keeps the books of a directory. -/
theorem Booked.make (h : d.Booked slots l v K W n) (size : Nat) (isDirectory : Bool) :
    ∃ W', d.Booked slots { l with spare := stockedWith l.spare (outcome (newInode size isDirectory) v).1 }
      (outcome (newInode size isDirectory) v).2 K W' n := by
  have hmake := h.stock.make size isDirectory
  generalize outcome (newInode size isDirectory) v = p at hmake ⊢
  obtain ⟨res, v'⟩ := p
  obtain ⟨W', hs, he, hnew⟩ := hmake
  -- The new inode was not stored before, so it is linked nowhere.
  refine ⟨W', h.enlarged { hs with made := fun x hx => hs.made x (Ledger.holds_restocked hx) } he
    ⟨h.table.tidy, h.table.child, h.table.size, h.table.most⟩ (h.sound.restocked fun b hb => ⟨fun hholds => ?_, ?_⟩)⟩
  · exact (h.stock.made b hholds).2 (hnew b hb)
  · rintro rfl
    cases h.node.symm.trans (hnew _ hb)

/-- The directory has become another one, and the other inodes are as they were. -/
theorem Booked.becomes {l' : Ledger} (h : d.Booked slots l v K W n) (hv : Mounts K W' v')
    (hb : W.Becomes d.inode.number n' W') (htable : l'.Tells slots n') (hsound : l'.Sound d.inode.number)
    (hholds : ∀ x, l'.Holds x → l.Holds x) : d.Booked slots l' v' K W' n' := by
  have hstored (x : UInt32) (hx : W.pool.nodes x ≠ none) : W'.pool.nodes x ≠ none := by
    by_cases hd : x = d.inode.number
    · simp [hd, hb.node]
    · rwa [hb.node_of_ne hd]
  exact ⟨h.stock.renew hv (fun x o ho => h.stock.attended x o (hb.opens ▸ ho))
    (h.stock.root.imp (hstored _) (hb.held ▸ ·)) fun x hx => (h.stock.made x (hholds x hx)).imp_right (hstored x),
    hb.node, by rw [hb.opens]; exact h.opening, htable, hsound⟩

/-- Where nothing has changed in the pool, the directory is the same. -/
theorem Booked.stays (h : d.Booked slots l v K W n) (hv : Mounts K W' v') (hs : W.Stays K W') :
    d.Booked slots l v' K W' n :=
  h.becomes hv ⟨by rw [hs.nodes, Function.update_eq_self_iff.2 h.node.symm], hs.held, hs.opens⟩ h.table h.sound
    fun _ => id

/-- A name is linked, or nothing changes. -/
theorem Booked.add (h : d.Booked slots l v K W n) (hname : NulFree name)
    (hown : isDotName name = false → number ∈ l.spare) :
    ∃ W' n', d.Booked slots (l.added name number (outcome (d.add name number) v).1)
      (outcome (d.add name number) v).2 K W' n' := by
  obtain ⟨o, ho⟩ := h.opening
  have hadd : Leads (Mounts K) W (d.add name number) _ :=
    add_leads h.stock.fits rfl h.node ho h.table.tidy hname
  have hcomes := hadd.comes h.stock.mounts
  generalize outcome (d.add name number) v = p at hcomes ⊢
  obtain ⟨res, v'⟩ := p
  -- The name is new and there is room, or nothing has changed. A fault is ruled out.
  obtain ⟨W', hv, ⟨rfl, haddable, n', hb, htidy, hchild, -, hsize, -⟩ | ⟨-, e, rfl, hstays | ⟨hfaulty, -⟩⟩⟩ := hcomes
  · exact ⟨W', n', h.becomes hv hb (h.table.added htidy haddable.new hchild hsize) (h.sound.added hown)
      fun x => Ledger.holds_added hown⟩
  · exact ⟨W', n, h.stays hv hstays⟩
  · exact absurd hfaulty h.stock.reliable

/-- A name is unlinked and its inode is gone or marked, or nothing changes. -/
theorem Booked.remove (h : d.Booked slots l v K W n) (name : String) :
    ∃ W' n', d.Booked slots (l.removed name (outcome (d.remove name) v).1) (outcome (d.remove name) v).2 K W' n' := by
  obtain ⟨o, ho⟩ := h.opening
  -- What the name stands for has been made for it, so it is stored and not the directory itself.
  have hheld (x : UInt32) (hdot : isDotName name = false) (hx : n.child name = some x) : l.Holds x :=
    .inr ⟨name, hdot, by rw [h.table.child] at hx; exact hx⟩
  have hremove : Leads (Mounts K) W (d.remove name) _ :=
    remove_parts h.stock.fits h.stock.reliable rfl h.node ho fun x hdot hx => by
      obtain ⟨hdata, hstored⟩ := h.stock.made x (hheld x hdot hx)
      refine ⟨?_, hdata, hstored, h.stock.attended x⟩
      rintro rfl
      exact h.sound.apart (hheld _ hdot hx)
  have hcomes := hremove.comes h.stock.mounts
  generalize outcome (d.remove name) v = p at hcomes ⊢
  obtain ⟨res, v'⟩ := p
  obtain ⟨W', hv, ⟨rfl, j, x, m, n', hm, hp⟩ | ⟨⟨e, rfl⟩, rfl⟩⟩ := hcomes
  swap
  · exact ⟨W', n, { h with stock := { h.stock with mounts := hv } }⟩
  have hx : n.child name = some x := h.table.tidy.child_eq hp.entry
  have hdata := (h.stock.made x (hheld x hp.named hx)).1
  have hxd : x ≠ d.inode.number := by
    rintro rfl
    exact h.sound.apart (hheld _ hp.named hx)
  -- Block 0 is no data block, so the inode that goes is not the root.
  have hx0 : rootInode ≠ x := by
    rintro rfl
    exact absurd hdata.1 (Nat.not_le.2 K.dataStart_pos)
  have hstored (y : UInt32) (hyx : y ≠ x) (hy : W.pool.nodes y ≠ none) : W'.pool.nodes y ≠ none := by
    by_cases hyd : y = d.inode.number
    · simp [hyd, hp.dropped.node]
    · rwa [hp.dropped.others y hyd hyx]
  have hlookup : l.linked.lookup name = some x := by
    rw [h.table.child] at hx
    exact hx
  obtain ⟨htidy, hchild⟩ := h.table.tidy.of_unlinked (hp.size ▸ h.table.tidy.whole) hp.entry hp.entries
  refine ⟨W', n', ⟨h.stock.renew hv (h.stock.attended.dropped hp.dropped)
    (h.stock.root.imp (hstored _ hx0) (hp.dropped.held ▸ ·)) fun y hy => ?_, hp.dropped.node,
    ⟨o, by rw [hp.dropped.opens _ hxd.symm, ho]⟩, h.table.removed htidy hchild hp.size,
    h.sound.removed hp.named hlookup⟩⟩
  obtain ⟨hy, hyx⟩ := h.sound.holds_removed hp.named hlookup hy
  exact (h.stock.made y hy).imp_right (hstored y hyx)

/-- What fails to be linked leaves the directory as it is, whatever the name and the inode. -/
theorem Booked.add_failed {e : Stop} (h : d.Booked slots l v K W n)
    (he : (outcome (d.add name number) v).1 = .error e) :
    ∃ W', d.Booked slots l (outcome (d.add name number) v).2 K W' n := by
  obtain ⟨o, ho⟩ := h.opening
  have hadd : Leads (Mounts K) W (d.add name number) _ :=
    (add_mirrored h.stock.fits h.stock.reliable rfl h.node ho name number).leads
  obtain ⟨W', hv, ⟨hres, -⟩ | ⟨-, hstays⟩⟩ := hadd.comes h.stock.mounts
  · cases he.symm.trans hres
  · exact ⟨W', h.stays hv hstays⟩

/-- A name that is linked in a slot that is there already makes the table no longer. -/
theorem Booked.add_free (h : d.Booked slots l v K W n) (hname : NulFree name)
    (hfree : l.linked.keys.card < max slots l.most) :
    (outcome d.inode.length (outcome (d.add name number) v).2).1 = .ok n.size := by
  obtain ⟨o, ho⟩ := h.opening
  have hadd : Leads (Mounts K) W (d.add name number) _ :=
    add_leads h.stock.fits rfl h.node ho h.table.tidy hname
  obtain ⟨W', hv, ⟨-, -, n', hb, -, -, -, hsize, -⟩ | ⟨-, e, -, hstays | ⟨hfaulty, -⟩⟩⟩ := hadd.comes h.stock.mounts
  · have hsame : n'.size = n.size := by
      rw [hsize, h.table.tidy.size_linked, h.table.names, h.table.slots_eq, h.table.size, Nat.max_eq_left hfree]
    have hlength : Leads (Mounts K) W' d.inode.length _ :=
      Inode.length_yields hb.node (by rw [hb.opens, ho])
    obtain ⟨-, -, hres, -⟩ := hlength.comes hv
    rw [hres, hsame]
  · exact (h.stays hv hstays).length
  · exact absurd hfaulty h.stock.reliable

/-- A new directory has no names, and as many slots as it was made with. -/
theorem booked_made {spare : Finset UInt32} (hs : Stock K W (· ∈ spare) v)
    (made : outcome (newDirectory slots) v = (.ok d, v')) :
    ∃ W' n, d.Booked slots ⟨∅, 0, spare⟩ v' K W' n := by
  have hnew : Leads (Mounts K) W (newDirectory slots) _ :=
    newDirectory_leads hs.fits hs.reliable hs.root hs.attended slots
  obtain ⟨W', hv, hcomes⟩ := hnew.comes hs.mounts
  rw [made] at hv hcomes
  obtain ⟨b, n, hd, hn⟩ | ⟨⟨e, he⟩, -⟩ := hcomes
  swap
  · cases he
  cases hd
  -- A ledger without names holds nothing but the spare numbers.
  have hholds (x : UInt32) (hx : (⟨∅, 0, spare⟩ : Ledger).Holds x) : x ∈ spare := by
    rcases hx with hx | ⟨name, -, hx⟩
    · exact hx
    · rw [Finmap.lookup_empty] at hx
      cases hx
  refine ⟨W', n, hs.renew hv hn.attended hn.root fun x hx => ?_, hn.node, ⟨_, hn.opening⟩, ⟨hn.tidy, ?_, ?_, ?_⟩,
    fun hb => (hs.made b (hholds b hb)).2 hn.fresh, fun name x _ hx => ?_, fun name name' x _ _ hx => ?_⟩
  · obtain ⟨hdata, hstored⟩ := hs.made x (hholds x hx)
    exact ⟨hdata, by rwa [hn.nodes x hstored]⟩
  · rw [hn.child]
    rfl
  · rw [hn.size, Nat.max_zero, Nat.mul_comm]
  · exact Nat.le_refl 0
  · rw [Finmap.lookup_empty] at hx
    cases hx
  · rw [Finmap.lookup_empty] at hx
    cases hx

/-- Whatever work is done on a directory, it is as the ledger says. -/
theorem Run.booked (h : d.Run slots l v) : ∃ K W n, d.Booked slots l v K W n := by
  -- By induction on the run, with one lemma for each kind of work.
  induction h with
  | made stocked made =>
    obtain ⟨K, W, hs⟩ := stocked.stock
    obtain ⟨W', n, h⟩ := booked_made hs made
    exact ⟨K, W', n, h⟩
  | allocate _ ih =>
    obtain ⟨K, W, n, h⟩ := ih
    obtain ⟨W', hs, he⟩ := h.stock.allocate
    exact ⟨K, W', n, h.enlarged hs he h.table h.sound⟩
  | make _ size isDirectory ih =>
    obtain ⟨K, W, n, h⟩ := ih
    obtain ⟨W', h'⟩ := h.make size isDirectory
    exact ⟨K, W', n, h'⟩
  | add _ plain own ih =>
    obtain ⟨K, W, n, h⟩ := ih
    obtain ⟨W', n', h'⟩ := h.add plain own
    exact ⟨K, W', n', h'⟩
  | remove _ name ih =>
    obtain ⟨K, W, n, h⟩ := ih
    obtain ⟨W', n', h'⟩ := h.remove name
    exact ⟨K, W', n', h'⟩
  | lookup _ name ih =>
    obtain ⟨K, W, n, h⟩ := ih
    exact ⟨K, W, n, (h.lookup name).2⟩
  | isEmpty _ ih =>
    obtain ⟨K, W, n, h⟩ := ih
    exact ⟨K, W, n, h.isEmpty.2⟩
  | list _ ih =>
    obtain ⟨K, W, n, h⟩ := ih
    exact ⟨K, W, n, h.list.2⟩

/-- A directory with room for one entry, in which a file that has been made is linked as `a`. -/
theorem exists_run_file : ∃ (d : Directory) (x : UInt32) (l : Ledger) (v : Volume), d.Run 1 l v ∧
    l.linked.lookup "a" = some x := by
  obtain ⟨W, v, hstocked, hs, hfree⟩ := exists_stocked
  -- There is room for the directory, and for the file after it.
  have hnew : Leads (Mounts _) W (newDirectory 1) _ := newDirectory_leads hs.fits hs.reliable hs.root hs.attended 1
  obtain ⟨W₁, hv₁, ⟨b, n, hd, hn⟩ | ⟨-, hlong | hlow⟩⟩ := hnew.comes hs.mounts
  rotate_left
  · exact absurd hlong (by decide)
  · rw [hfree] at hlow
    exact absurd hlow (by decide)
  have hfree₁ : _ + 2 = _ := hn.free
  have hfile : Leads (Mounts _) W₁ (newInode 0 false) _ := newInode_enlarges hs.fits hs.reliable hn.root 0 false
  obtain ⟨W₂, hv₂, he, ⟨x, m, hx, -⟩ | ⟨-, hlong | hlow⟩⟩ := hfile.comes hv₁
  rotate_left
  · exact absurd hlong (by decide)
  · change _ < 1 at hlow
    omega
  have hname : NulFree "a" := by
    unfold NulFree
    decide
  have hrun : (directoryAt b).Run 1 _ _ :=
    ((Run.made hstocked (Prod.ext hd rfl)).make 0 false).add hname fun _ => mem_stockedWith.2 (.inr hx)
  have hnode : W₂.pool.nodes b = some n := by rw [he.nodes b (by simp [hn.node]), hn.node]
  have hopen : W₂.opens b = some ⟨1, false, 0⟩ := by rw [he.opens, hn.opening]
  have hvacant := Volume.vacant_of_no_names hn.child
  have hadd : Leads (Mounts _) W₂ ((directoryAt b).add "a" x) _ :=
    add_leads hs.fits rfl hnode hopen hn.tidy hname
  obtain ⟨W₃, -, ⟨hok, -⟩ | ⟨hno, -⟩⟩ := hadd.comes hv₂
  · refine ⟨_, x, _, _, hrun, ?_⟩
    rw [hok]
    exact Finmap.lookup_insert _
  · refine absurd ⟨by decide, by decide, rfl, by rw [hn.child], rfl, ?_, ?_⟩ (hno.resolve_left hs.reliable)
    · rw [hvacant]
      decide
    · rw [Volume.gain_first hn.tidy hvacant, hn.size, if_neg (by decide)]
      exact Nat.zero_le _

end Run

/-- A directory that is worked on by itself is a finite map. A name stands for the inode that it was linked for
last, until it is unlinked. A fresh listing gives each name once, but for `.` and `..`, and the directory is empty
if that gives none. What fails changes no name. The table has as many slots as it was made with, or as it has had
names at one time if these were more, so it does not become longer while there is a slot that is not in use. -/
theorem maps_of_run {d : Directory} {slots : Nat} {l : Ledger} {v : Volume} (h : d.Run slots l v) :
    d.Maps slots l v := by
  obtain ⟨K, W, n, h⟩ := h.booked
  refine ⟨fun name => (h.lookup name).1, ⟨n.listed, h.list.1, h.isEmpty.1, h.table.tidy.nodup_listed, fun name => ?_⟩,
    ?_, fun name number e he other => ?_, fun name e he other => ?_, fun name number hname hfree => ?_⟩
  · rw [Node.mem_listed, h.table.child, Finmap.mem_iff]
  · rw [h.length, h.table.size]
  · obtain ⟨W', h'⟩ := h.add_failed he
    rw [(h'.lookup other).1, (h.lookup other).1]
  · obtain ⟨W', n', h'⟩ := h.remove name
    rw [he] at h'
    rw [(h'.lookup other).1, (h.lookup other).1]
    rfl
  · rw [h.add_free hname hfree, h.length]

/-- Such a directory in which a name is linked. -/
theorem maps_of_run_file : ∃ (d : Directory) (x : UInt32) (l : Ledger) (v : Volume), d.Run 1 l v ∧
    l.linked.lookup "a" = some x ∧ d.Maps 1 l v := by
  obtain ⟨d, x, l, v, hrun, hx⟩ := exists_run_file
  exact ⟨d, x, l, v, hrun, hx, maps_of_run hrun⟩

end Directory

end InodeVolume
