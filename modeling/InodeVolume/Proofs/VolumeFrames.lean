import InodeVolume.Proofs.Confinement
import InodeVolume.Proofs.Deeds

/-!
# What no deed does to a volume

Whatever is asked of a volume, with whatever handles, it lies on a device of the same size afterwards, the
same accesses fail, and its space map is where it was (`Volume.Kept`). What is asked comes to the same if the
disk wears out only afterwards (`Early`). There is one lemma for each operation, up to `Deed.act_framed`; nothing
has to be known of what is stored.

That writing is denied is only reported by the check with which writing and emptying an inode begin
(`Inode.Guarded`), so they report it exactly if a denial is in force (`Inode.Guarded.denied_iff`).
-/

namespace InodeVolume

/-- What all operations leave as it is. -/
structure Volume.Kept (v v' : Volume) : Prop where
  disk : v.disk.Kept v'.disk
  space : v'.space = v.space

instance : IsPreorder Volume Volume.Kept where
  refl v := ⟨refl_of Disk.Kept v.disk, rfl⟩
  trans _ _ _ h h' := ⟨trans_of Disk.Kept h.disk h'.disk, h'.space.trans h.space⟩

instance : Wears Volume where
  tried v := tried v.disk
  worn k v := { v with disk := worn k v.disk }

namespace VolumeM

variable {α β : Type} {x : VolumeM α} {f : α → VolumeM β}

/-- The action leaves as it is what all operations do. -/
abbrev Framed (x : VolumeM α) : Prop := Confined Volume.Kept (fun _ => True) x

/-- As `Framed`, and it is never reported that writing is denied. -/
abbrev Undenied (x : VolumeM α) : Prop := Confined Volume.Kept (· ≠ .failed .writeDenied) x

theorem framed_of_undenied (hx : Undenied x) : Framed x := hx.mono fun _ _ => trivial

theorem fail_framed (e : Error) : Framed (fail e : VolumeM α) := .throw trivial

theorem misuse_framed (rule : Misuse) : Framed (misuse rule : VolumeM α) := .throw trivial

theorem attempt_framed (hx : Framed x) : Framed (attempt x) := by
  intro v
  obtain ⟨hkept, -, hearly⟩ := hx v
  refine ⟨?_, fun _ _ => trivial, ?_, fun k hk => ?_⟩
  · rwa [outcome_attempt]
  · rw [outcome_attempt]
    exact hearly.le
  · rw [outcome_attempt] at hk ⊢
    rw [outcome_attempt, hearly.same k hk]

theorem resume_framed (r : Except Error α) : Framed (resume r) := by
  cases r with
  | ok v => exact .pure v
  | error e => exact fail_framed e

theorem ignoring_framed {x : VolumeM Unit} (hx : Framed x) : Framed (ignoring x) :=
  (attempt_framed hx).bind fun _ => .pure ()

theorem andThen_framed {cleanup : VolumeM Unit} (hx : Framed x) (hc : Framed cleanup) :
    Framed (x.andThen cleanup) :=
  (attempt_framed hx).bind fun r => hc.bind fun _ => resume_framed r

theorem checkBind_framed {p : Prop} [Decidable p] {e : Error} {g : Unit → VolumeM β} (hg : Framed (g ())) :
    Framed (if p then VolumeM.fail e >>= g else g ()) :=
  .checkBind trivial hg

theorem misuse_undenied (rule : Misuse) : Undenied (misuse rule : VolumeM α) := .throw nofun

/-- Work on the disk of a volume leaves the registry alone and asks for no denial. -/
theorem onDisk_undenied {x : SpaceMap → DiskM α} (hx : ∀ m, DiskM.Tame (x m)) : Undenied (onDisk x) := by
  intro v
  obtain ⟨hkept, hreported, hearly⟩ := hx v.space v.disk
  refine ⟨?_, fun e he => ?_, ?_, fun k hk => ?_⟩
  · rw [outcome_onDisk]
    exact ⟨hkept, rfl⟩
  · rw [outcome_onDisk] at he
    dsimp only at he
    -- An error of the disk is handed on, and it is none about a denial.
    cases hr : (outcome (x v.space) v.disk).1 with
    | ok a =>
      rw [hr] at he
      cases he
    | error e' =>
      rw [hr] at he
      cases he
      exact fun hd => hreported e' hr (Stop.failed.inj hd)
  · rw [outcome_onDisk]
    exact hearly.le
  · rw [outcome_onDisk] at hk ⊢
    rw [outcome_onDisk, show (worn k v).disk = worn k v.disk from rfl,
      show (worn k v).space = v.space from rfl, hearly.same k hk]
    rfl

theorem transfer_undenied {x : DiskAction α} (hx : x.Tame) : Undenied (transfer x) := by
  rw [transfer_eq]
  exact onDisk_undenied fun _ => hx

theorem registry_undenied : Undenied registry :=
  fun v => ⟨refl_of Volume.Kept v, nofun, Nat.le_refl _, fun _ _ => rfl⟩

theorem changeRegistry_undenied (f : Registry → Registry) : Undenied (changeRegistry f) := by
  rintro ⟨disk, space, registry⟩
  exact ⟨⟨refl_of Disk.Kept disk, rfl⟩, nofun, Nat.le_refl _, fun _ _ => rfl⟩

theorem onDisk_framed {x : SpaceMap → DiskM α} (hx : ∀ m, DiskM.Tame (x m)) : Framed (onDisk x) :=
  framed_of_undenied (onDisk_undenied hx)

theorem transfer_framed {x : DiskAction α} (hx : x.Tame) : Framed (transfer x) :=
  framed_of_undenied (transfer_undenied hx)

theorem registry_framed : Framed registry := framed_of_undenied registry_undenied

theorem changeRegistry_framed (f : Registry → Registry) : Framed (changeRegistry f) :=
  framed_of_undenied (changeRegistry_undenied f)

theorem allocate_framed (count : Nat) : Framed (allocate count) := onDisk_framed fun m => m.allocate_tame count

theorem release_framed (first : UInt32) (count : Nat) : Framed (release first count) :=
  onDisk_framed fun m => m.release_tame first count

theorem freeCount_framed : Framed freeCount := by
  refine (onDisk_framed fun m => m.countUsed_tame.bind fun _ => .pure _).bind fun r => ?_
  dsimp only
  split
  · exact .pure _
  · exact misuse_framed _

end VolumeM

open VolumeM (Framed Undenied)

/-! ## Inodes -/

namespace Inode

variable (i : Inode)

theorem create_framed (number : UInt32) (size : Nat) (isDirectory : Bool) :
    Framed (create number size isDirectory) :=
  VolumeM.onDisk_framed fun m => Record.create_tame m number size isDirectory

theorem acquire_framed (number : UInt32) : Framed (acquire number) := by
  refine VolumeM.registry_framed.bind fun r => ?_
  split
  · exact (VolumeM.changeRegistry_framed _).bind fun _ => .pure _
  · refine (VolumeM.onDisk_framed fun _ => Record.load_tame number).bind fun record => ?_
    exact (VolumeM.changeRegistry_framed _).bind fun _ => .pure _

theorem entry_undenied : Undenied i.entry := by
  refine VolumeM.registry_undenied.bind fun r => ?_
  split
  · exact .pure _
  · exact VolumeM.misuse_undenied _

theorem setEntry_undenied (node : OpenInode) : Undenied (i.setEntry node) := VolumeM.changeRegistry_undenied _

theorem entry_framed : Framed i.entry := VolumeM.framed_of_undenied (entry_undenied i)

theorem setEntry_framed (node : OpenInode) : Framed (i.setEntry node) :=
  VolumeM.framed_of_undenied (setEntry_undenied i node)

theorem reopen_framed : Framed i.reopen :=
  (entry_framed i).bind fun _ => (setEntry_framed i _).bind fun _ => .pure _

theorem close_framed : Framed i.close := by
  refine (entry_framed i).bind fun node => ?_
  split
  · exact setEntry_framed i _
  · refine (VolumeM.changeRegistry_framed _).bind fun _ => ?_
    split
    · exact VolumeM.ignoring_framed (VolumeM.onDisk_framed fun m => Record.dissolve_tame m _ _)
    · exact .pure ()

theorem markRemoved_framed : Framed i.markRemoved := (entry_framed i).bind fun _ => setEntry_framed i _

theorem isDirectory_framed : Framed i.isDirectory := (entry_framed i).bind fun _ => .pure _

theorem status_framed : Framed i.status := (entry_framed i).bind fun _ => .pure _

theorem blockOf_framed (position : Nat) : Framed (i.blockOf position) := by
  refine (entry_framed i).bind fun node => ?_
  dsimp only
  split
  · exact .pure _
  · refine (VolumeM.attempt_framed (VolumeM.onDisk_framed fun _ => Record.blockAt_tame _ _)).bind fun r => ?_
    split <;> exact .pure _

theorem read_framed (offset count : Nat) : Framed (i.read offset count) :=
  (entry_framed i).bind fun _ => VolumeM.transfer_framed (Record.read_tame _ _ _)

theorem grow_undenied (target : Nat) : Undenied (i.grow target) :=
  (entry_undenied i).bind fun _ => (VolumeM.onDisk_undenied fun m => Record.grow_tame m _ _ _).bind fun _ =>
    setEntry_undenied i _

theorem grow_framed (target : Nat) : Framed (i.grow target) := VolumeM.framed_of_undenied (grow_undenied i target)

theorem checkWritable_framed : Framed i.checkWritable := by
  refine (entry_framed i).bind fun node => ?_
  split
  · exact VolumeM.fail_framed _
  · exact .pure ()

/-- The action begins with the check whether writing is denied, and nothing after it reports that. -/
def Guarded {α : Type} (i : Inode) (x : VolumeM α) : Prop :=
  ∃ f : Unit → VolumeM α, x = i.checkWritable >>= f ∧ ∀ u, Undenied (f u)

theorem Guarded.framed {α : Type} {i : Inode} {x : VolumeM α} (h : i.Guarded x) : Framed x := by
  obtain ⟨f, rfl, hf⟩ := h
  exact (checkWritable_framed i).bind fun u => VolumeM.framed_of_undenied (hf u)

/-- Whether writing is denied is seen from the registry alone. -/
theorem outcome_checkWritable {v : Volume} {node : OpenInode} (hv : v.registry[i.number]? = some node) :
    outcome i.checkWritable v =
      (if 0 < node.denials then .error (.failed .writeDenied) else .ok (), v) := by
  have hentry : i.entry v = .ok node v := Client.entry_of_registry hv
  simp only [outcome, checkWritable, Bind.bind, EStateM.bind, hentry]
  by_cases hd : 0 < node.denials
  · rw [if_pos hd, if_pos hd]
    rfl
  · rw [if_neg hd, if_neg hd]
    rfl

theorem Guarded.denied_iff {α : Type} {i : Inode} {x : VolumeM α} {v : Volume} {node : OpenInode} (h : i.Guarded x)
    (hv : v.registry[i.number]? = some node) :
    (outcome x v).1 = .error (.failed .writeDenied) ↔ 0 < node.denials := by
  obtain ⟨f, rfl, hf⟩ := h
  have hcheck := outcome_checkWritable i hv
  -- Either the check reports the denial, or it is passed and nothing behind it reports one.
  by_cases hd : 0 < node.denials
  · rw [if_pos hd] at hcheck
    simp only [outcome_bind_error hcheck, hd]
  · rw [if_neg hd] at hcheck
    simp only [outcome_bind_ok hcheck, hd, iff_false]
    exact fun he => (hf () v).2.1 _ he rfl

theorem write_guarded (offset : Nat) (data : ByteArray) : i.Guarded (i.write offset data) := by
  -- With or without growing first, the data is transferred at the end.
  have hwrite : Undenied (do
      let record := (← i.entry).record
      VolumeM.transfer (record.write offset data)) :=
    (entry_undenied i).bind fun _ => VolumeM.transfer_undenied (Record.write_tame _ _ _)
  refine ⟨_, rfl, fun _ => ?_⟩
  split
  · exact .pure _
  · refine ((entry_undenied i).bind fun _ => .pure _).bind fun length => ?_
    split
    · exact (grow_undenied i _).bind fun _ => hwrite
    · exact hwrite

theorem clear_guarded : i.Guarded i.clear := by
  refine ⟨_, rfl, fun _ => (entry_undenied i).bind fun node => ?_⟩
  refine (VolumeM.onDisk_undenied fun _ => Record.truncate_tame _ _).bind fun cleared => ?_
  exact (setEntry_undenied i _).bind fun _ => VolumeM.onDisk_undenied fun m => m.releaseEach_tame _

theorem write_framed (offset : Nat) (data : ByteArray) : Framed (i.write offset data) :=
  (write_guarded i offset data).framed

theorem clear_framed : Framed i.clear := (clear_guarded i).framed

theorem denyWrite_framed : Framed i.denyWrite := by
  refine (entry_framed i).bind fun node => ?_
  split
  · exact setEntry_framed i _
  · exact VolumeM.misuse_framed _

theorem allowWrite_framed : Framed i.allowWrite := by
  refine (entry_framed i).bind fun node => ?_
  split
  · exact setEntry_framed i _
  · exact VolumeM.misuse_framed _

end Inode

/-! ## Files -/

namespace File

variable (f : File)

theorem denyWrite_framed : Framed f.denyWrite := by
  unfold denyWrite
  split
  · exact .pure _
  · exact (Inode.denyWrite_framed _).bind fun _ => .pure _

theorem allowWrite_framed : Framed f.allowWrite := by
  unfold allowWrite
  split
  · exact (Inode.allowWrite_framed _).bind fun _ => .pure _
  · exact .pure _

theorem close_framed : Framed f.close := (allowWrite_framed f).bind fun f' => Inode.close_framed f'.inode

end File

theorem closeHandle_framed (x : Handle) : Framed (Session.closeHandle x) := by
  cases x with
  | inode i => exact Inode.close_framed i
  | directory d => exact Inode.close_framed d.inode
  | file f => exact File.close_framed f

theorem reopenHandle_framed (x : Handle) : Framed (Session.reopenHandle x) := by
  cases x with
  | inode i => exact (Inode.reopen_framed i).bind fun _ => .pure _
  | directory d => exact ((Inode.reopen_framed d.inode).bind fun _ => .pure _).bind fun _ => .pure _
  | file f => exact ((Inode.reopen_framed f.inode).bind fun _ => .pure _).bind fun _ => .pure _

/-! ## Directories -/

namespace Directory

variable (d : Directory)

theorem create_framed (number : UInt32) (slots : Nat) : Framed (create number slots) := by
  unfold create
  split
  · exact VolumeM.misuse_framed _
  · exact Inode.create_framed number _ true

theorem ofInode_framed (i : Inode) : Framed (ofInode i) := by
  refine (Inode.isDirectory_framed i).bind fun b => ?_
  split
  · exact .pure _
  · exact (Inode.close_framed i).bind fun _ => VolumeM.fail_framed _

theorem openRoot_framed : Framed openRoot := (Inode.acquire_framed rootInode).bind ofInode_framed

theorem search_framed {α : Type} {f : Record → DiskAction α} (hf : ∀ r, (f r).Tame) : Framed (d.search f) :=
  (Inode.entry_framed d.inode).bind fun _ => VolumeM.transfer_framed (hf _)

theorem find_framed (name : String) : Framed (d.find name) := search_framed d fun r => r.findName_tame name

theorem lookup_framed (name : String) : Framed (d.lookup name) := (find_framed d name).bind fun _ => .pure _

theorem openEntry_framed (name : String) : Framed (d.openEntry name) := by
  refine (find_framed d name).bind fun found => ?_
  split
  · exact VolumeM.fail_framed _
  · exact Inode.acquire_framed _

theorem writeSlot_framed (offset : Nat) (slot : Slot) : Framed (d.writeSlot offset slot) := by
  refine (Inode.write_framed d.inode offset _).bind fun n => ?_
  split
  · exact VolumeM.fail_framed _
  · exact .pure ()

theorem add_framed (name : String) (number : UInt32) : Framed (d.add name number) := by
  unfold add
  split
  · exact VolumeM.fail_framed _
  split
  · refine (Inode.entry_framed d.inode).bind fun node => VolumeM.checkBind_framed ?_
    refine (find_framed d name).bind fun found => VolumeM.checkBind_framed ?_
    exact (search_framed d fun r => r.vacancy_tame).bind fun offset => writeSlot_framed d _ _
  · exact VolumeM.fail_framed _

theorem isEmpty_framed : Framed d.isEmpty := (search_framed d fun r => r.hasEntries_tame).bind fun _ => .pure _

theorem unlink_framed (offset : Nat) (slot : Slot) (child : Inode) : Framed (d.unlink offset slot child) := by
  have hfree : Framed (do
      d.writeSlot offset slot.freed
      child.markRemoved) :=
    (writeSlot_framed d _ _).bind fun _ => Inode.markRemoved_framed child
  refine (Inode.isDirectory_framed child).bind fun b => ?_
  dsimp only
  split
  · exact (isEmpty_framed _).bind fun _ => VolumeM.checkBind_framed hfree
  · exact hfree

theorem remove_framed (name : String) : Framed (d.remove name) := by
  unfold remove
  refine VolumeM.checkBind_framed ((find_framed d name).bind fun found => ?_)
  split
  · exact VolumeM.fail_framed _
  · refine (Inode.acquire_framed _).bind fun child => ?_
    exact VolumeM.andThen_framed (unlink_framed d _ _ child) (Inode.close_framed child)

theorem readNext_framed : Framed d.readNext := by
  refine (search_framed d fun r => r.findSlot_tame _ _).bind fun found => ?_
  dsimp only
  split <;> exact .pure _

theorem readNames_framed (n : Nat) : Framed (d.readNames n) := by
  induction n generalizing d with
  | zero => exact .pure _
  | succ n ih =>
    refine (readNext_framed d).bind fun found => ?_
    split
    · exact .pure _
    · exact (ih _).bind fun _ => .pure _

theorem names_framed (limit : Option Nat) : Framed (d.names limit) :=
  (Inode.entry_framed d.inode).bind fun _ => readNames_framed d _

end Directory

/-! ## Mounting -/

namespace Volume

theorem formatRoot_framed : Framed formatRoot := by
  refine (Directory.create_framed rootInode rootSlots).bind fun _ => Directory.openRoot_framed.bind fun root => ?_
  have hlink := (root.add_framed "." rootInode).bind fun _ => root.add_framed ".." rootInode
  exact VolumeM.andThen_framed hlink (Inode.close_framed _)

theorem checkRoot_framed : Framed checkRoot := Directory.openRoot_framed.bind fun _ => Inode.close_framed _

theorem prepare_framed (format : Bool) : Framed (prepare format) := by
  cases format with
  | true => exact formatRoot_framed.bind fun _ => checkRoot_framed
  | false => exact checkRoot_framed

/-! ## Paths -/

theorem descend_framed (d : Directory) (names : List String) : Framed (descend d names) := by
  induction names generalizing d with
  | nil => exact .pure d
  | cons name rest ih =>
    refine (VolumeM.andThen_framed (d.openEntry_framed name) (Inode.close_framed _)).bind fun child => ?_
    exact (Directory.ofInode_framed child).bind ih

theorem walk_framed (path : String) : Framed (walk path) :=
  Directory.openRoot_framed.bind fun d => descend_framed d _

theorem within_framed {α : Type} {x : Directory → VolumeM α} (path : String) (hx : ∀ d, Framed (x d)) :
    Framed (within path x) :=
  (walk_framed path).bind fun d => VolumeM.andThen_framed (hx d) (Inode.close_framed _)

theorem giveUp_framed (number : UInt32) : Framed (giveUp number) :=
  VolumeM.ignoring_framed ((Inode.acquire_framed number).bind fun i =>
    (Inode.markRemoved_framed i).bind fun _ => Inode.close_framed i)

theorem linkDots_framed (path : String) (number parent : UInt32) : Framed (linkDots path number parent) :=
  within_framed path fun d => (d.add_framed _ _).bind fun _ => d.add_framed _ _

theorem orUndo_framed {x undo : VolumeM Unit} (hx : Framed x) (hundo : Framed undo) : Framed (orUndo x undo) := by
  refine (VolumeM.attempt_framed hx).bind fun r => ?_
  cases r with
  | ok u => exact .pure ()
  | error e => exact hundo.bind fun _ => VolumeM.fail_framed e

theorem createIn_framed (d : Directory) (parent name : String) (size : Nat) (isDirectory : Bool) :
    Framed (createIn d parent name size isDirectory) := by
  refine (d.lookup_framed name).bind fun found => VolumeM.checkBind_framed ?_
  refine (VolumeM.allocate_framed 1).bind fun number => ?_
  have hstored : Framed (if isDirectory then Directory.create number 0 else Inode.create number size false) := by
    split
    · exact Directory.create_framed number 0
    · exact Inode.create_framed number size false
  -- Each stage that fails takes back what the stages before it have done.
  have hback := VolumeM.ignoring_framed (VolumeM.release_framed number 1)
  refine (orUndo_framed hstored hback).bind fun _ => ?_
  refine (orUndo_framed (d.add_framed name number) (giveUp_framed number)).bind fun _ => ?_
  split
  · exact orUndo_framed (linkDots_framed _ _ _) (VolumeM.ignoring_framed (d.remove_framed name))
  · exact .pure ()

theorem create_framed (path cwd : String) (size : Nat) (isDirectory : Bool) :
    Framed (create path cwd size isDirectory) := by
  refine (VolumeM.resume_framed _).bind fun parts => ?_
  refine VolumeM.checkBind_framed (VolumeM.checkBind_framed ?_)
  exact within_framed _ fun d => createIn_framed d _ _ _ _

theorem openInode_framed (path cwd : String) : Framed (openInode path cwd) := by
  refine (VolumeM.resume_framed _).bind fun place => ?_
  dsimp only
  split
  · exact Inode.acquire_framed _
  · exact within_framed _ fun d => d.openEntry_framed _

theorem openDirectory_framed (path cwd : String) : Framed (openDirectory path cwd) :=
  (VolumeM.resume_framed _).bind fun _ => walk_framed _

theorem openOrCreate_framed (path cwd : String) (create? : Bool) : Framed (openOrCreate path cwd create?) := by
  refine (VolumeM.attempt_framed (openInode_framed path cwd)).bind fun r => ?_
  cases r with
  | ok i => exact .pure i
  | error e =>
    dsimp only
    split
    · exact (create_framed path cwd 0 false).bind fun _ => openInode_framed path cwd
    · exact VolumeM.fail_framed e

theorem openFile_framed (path cwd : String) (mode : OpenMode) : Framed (openFile path cwd mode) := by
  refine (openOrCreate_framed path cwd mode.create).bind fun i => ?_
  refine (Inode.isDirectory_framed i).bind fun b => ?_
  split
  · exact (orUndo_framed (Inode.clear_framed i) (Inode.close_framed i)).bind fun _ => .pure _
  · exact .pure _

theorem remove_framed (path cwd : String) : Framed (remove path cwd) := by
  refine (VolumeM.resume_framed _).bind fun place => ?_
  exact VolumeM.checkBind_framed (within_framed _ fun d => d.remove_framed _)

theorem changeDirectory_framed (path cwd : String) : Framed (changeDirectory path cwd) := by
  refine (VolumeM.resume_framed _).bind fun absolute => (walk_framed _).bind fun d => ?_
  refine (Inode.close_framed _).bind fun _ => ?_
  split
  · exact .pure _
  · exact VolumeM.misuse_framed _

end Volume

/-! ## Calls, requests and deeds -/

variable {handles : List Handle}

theorem Call.onHandle_framed {h : Nat} {f : Handle → VolumeM (Answer × List Handle)} (hf : ∀ x, Framed (f x)) :
    Framed (onHandle handles h f) := by
  unfold onHandle
  split
  · exact hf _
  · exact .pure _

theorem Call.onFile_framed {h : Nat} {f : File → VolumeM (Answer × List Handle)} (hf : ∀ x, Framed (f x)) :
    Framed (onFile handles h f) := by
  refine onHandle_framed fun x => ?_
  cases x with
  | file x => exact hf x
  | inode i => exact .pure _
  | directory d => exact .pure _

/-- Every call keeps the frame of a volume. -/
theorem Call.act_framed (q : Call) : Framed (q.act handles) := by
  -- Each of them is one program of the volume and an answer made from what it returns.
  cases q with
  | create path cwd size isDirectory => exact (Volume.create_framed _ _ _ _).bind fun _ => .pure _
  | remove path cwd => exact (Volume.remove_framed _ _).bind fun _ => .pure _
  | changeDirectory path cwd => exact (Volume.changeDirectory_framed _ _).bind fun _ => .pure _
  | openInode path cwd => exact (Volume.openInode_framed _ _).bind fun _ => .pure _
  | openDirectory path cwd => exact (Volume.openDirectory_framed _ _).bind fun _ => .pure _
  | openFile path cwd mode => exact (Volume.openFile_framed _ _ _).bind fun _ => .pure _
  | close h => exact onHandle_framed fun x => (closeHandle_framed x).bind fun _ => .pure _
  | reopen h => exact onHandle_framed fun x => (reopenHandle_framed x).bind fun _ => .pure _
  | readAt h offset count => exact onHandle_framed fun x => (x.target.read_framed _ _).bind fun _ => .pure _
  | writeAt h offset data => exact onHandle_framed fun x => (x.target.write_framed _ _).bind fun _ => .pure _
  | grow h target => exact onHandle_framed fun x => (x.target.grow_framed _).bind fun _ => .pure _
  | clear h => exact onHandle_framed fun x => x.target.clear_framed.bind fun _ => .pure _
  | read h count =>
    exact onFile_framed fun f => ((f.inode.read_framed _ _).bind fun _ => .pure _).bind fun _ => .pure _
  | write h data =>
    exact onFile_framed fun f => ((f.inode.write_framed _ _).bind fun _ => .pure _).bind fun _ => .pure _
  | seek h position => exact onFile_framed fun f => .pure _
  | denyWrite h => exact onFile_framed fun f => f.denyWrite_framed.bind fun _ => .pure _
  | allowWrite h => exact onFile_framed fun f => f.allowWrite_framed.bind fun _ => .pure _

theorem Request.onDirectory_framed {h : Nat} {f : Directory → VolumeM (Response × List Handle)}
    (hf : ∀ d, Framed (f d)) : Framed (onDirectory handles h f) := by
  unfold onDirectory
  split
  · exact hf _
  · exact .pure _

theorem Request.act_framed (r : Request) : Framed (r.act handles) := by
  cases r with
  | call q => exact q.act_framed.bind fun _ => .pure _
  | lookup h name => exact onDirectory_framed fun d => (d.lookup_framed name).bind fun _ => .pure _
  | openEntry h name => exact onDirectory_framed fun d => (d.openEntry_framed name).bind fun _ => .pure _
  | readNext h => exact onDirectory_framed fun d => d.readNext_framed.bind fun _ => .pure _
  | asDirectory h =>
    show Framed (onInode handles h _)
    unfold onInode
    split
    · refine (VolumeM.attempt_framed (Directory.ofInode_framed _)).bind fun r => ?_
      cases r <;> exact .pure _
    · exact .pure _

theorem Operation.onTarget_framed {h : Nat} {f : Inode → VolumeM Report} (hf : ∀ i, Framed (f i)) :
    Framed (onTarget handles h f) := by
  unfold onTarget
  split
  · exact (hf _).bind fun _ => .pure _
  · exact .pure _

theorem infoOf_framed (i : Inode) : Framed (Session.infoOf i) :=
  i.entry_framed.bind fun _ => i.status_framed.bind fun _ => .pure _

/-- Every operation keeps the frame of a volume. -/
theorem Operation.act_framed (op : Operation) : Framed (op.act handles) := by
  cases op with
  | call q => exact q.act_framed.bind fun _ => .pure _
  | markRemoved h => exact onTarget_framed fun i => i.markRemoved_framed.bind fun _ => .pure _
  | denyWrite h => exact onTarget_framed fun i => i.denyWrite_framed.bind fun _ => .pure _
  | allowWrite h => exact onTarget_framed fun i => i.allowWrite_framed.bind fun _ => .pure _
  | asFile h =>
    rw [act]
    split <;> exact .pure _
  | inspect h =>
    rw [act]
    exact onTarget_framed fun i => (infoOf_framed i).bind fun _ => .pure _
  | locate h position =>
    rw [act]
    exact onTarget_framed fun i => (i.blockOf_framed position).bind fun _ => .pure _
  | tell h =>
    rw [act]
    split <;> exact .pure _
  | countFree => exact VolumeM.freeCount_framed.bind fun _ => .pure _

theorem Deed.onDirectory_framed {h : Nat} {f : Directory → VolumeM (Finding × List Handle)}
    (hf : ∀ d, Framed (f d)) : Framed (onDirectory handles h f) := by
  unfold onDirectory
  split
  · exact hf _
  · exact .pure _

/-- No deed changes the size of the device, which accesses fail, or where the space map is. -/
theorem Deed.act_framed (d : Deed) : Framed (d.act handles) := by
  cases d with
  | request r => exact r.act_framed.bind fun _ => .pure _
  | operation op => exact op.act_framed.bind fun _ => .pure _
  | acquire number => exact (Inode.acquire_framed number).bind fun _ => .pure _
  | openRoot => exact Directory.openRoot_framed.bind fun _ => .pure _
  | storeInode number size isDirectory => exact (Inode.create_framed _ _ _).bind fun _ => .pure _
  | storeDirectory number slots => exact (Directory.create_framed _ _).bind fun _ => .pure _
  | link h name number => exact onDirectory_framed fun d => (d.add_framed _ _).bind fun _ => .pure _
  | unlink h name => exact onDirectory_framed fun d => (d.remove_framed _).bind fun _ => .pure _
  | isEmpty h => exact onDirectory_framed fun d => d.isEmpty_framed.bind fun _ => .pure _
  | names h limit => exact onDirectory_framed fun d => (d.names_framed limit).bind fun _ => .pure _
  | allocate count => exact (VolumeM.allocate_framed count).bind fun _ => .pure _
  | release first count => exact (VolumeM.release_framed first count).bind fun _ => .pure _
  | isFree id => exact (VolumeM.onDisk_framed fun _ => SpaceMap.isFree_tame id).bind fun _ => .pure _

end InodeVolume
