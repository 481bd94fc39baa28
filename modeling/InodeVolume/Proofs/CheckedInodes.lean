import InodeVolume.Proofs.CheckedTables
import InodeVolume.Proofs.DeedAccounts

/-!
# Open inodes, checked

What can be asked of an inode that is open: its contents by offsets and lengths of 64 bits, its blocks, its
status, and its entries if its contents are taken for a table. `Use` lists all of this, `Use.act` carries it out
and `Use.checked` does the same with all arithmetic checked.

The record of the inode may be any that a block can hold: nothing ties its length to its pointers, or these to
the device. After any sequence of uses, every use ends with a value or with an error that is reported, and no
check of its arithmetic fails (`Use.sound_of_acquire`).
-/

namespace InodeVolume

namespace Checked

variable {α : Type} {P : α → Prop}

/-! ## Volumes -/

/-- The volume may be asked about inode `id`: its map is not larger than that of any device, and the inode is
open. All that is reported are errors. -/
def mounted (id : UInt32) : Terms Stop Volume where
  state v := v.space.bits ≤ UInt32.size ∧ v.registry[id]? ≠ none
  error e := ∃ cause, e = .failed cause

/-- An action on the disk alone, given the space map. -/
def onVolume (x : SpaceMap → Checked Error Disk α) : Checked Stop Volume α := fun v =>
  let ⟨disk, space, registry⟩ := v
  match x space disk with
  | .ok a disk => .ok a ⟨disk, space, registry⟩
  | .error (.failed e) disk => .error (.failed (.failed e)) ⟨disk, space, registry⟩
  | .error (.panicked cause) disk => .error (.panicked cause) ⟨disk, space, registry⟩

theorem onVolume_agrees {id : UInt32} {g : SpaceMap → Checked Error Disk α} {x : SpaceMap → DiskM α}
    (h : ∀ m : SpaceMap, m.bits ≤ UInt32.size → Agrees .any P (g m) (x m)) :
    Agrees (mounted id) P (onVolume g) (VolumeM.onDisk x) := by
  rintro ⟨disk, space, registry⟩ ⟨hbits, hopen⟩
  obtain ⟨heq, hpost⟩ := h space hbits disk trivial
  simp only [onVolume, VolumeM.onDisk, plain, heq]
  cases hr : x space disk with
  | ok a disk' =>
    rw [hr] at hpost
    exact ⟨rfl, ⟨hbits, hopen⟩, hpost.2⟩
  | error e disk' => exact ⟨rfl, ⟨hbits, hopen⟩, e, rfl⟩

theorem attempt_onDisk (x : SpaceMap → DiskM α) :
    VolumeM.attempt (VolumeM.onDisk x) = VolumeM.onDisk fun m => InodeVolume.attempt (x m) := by
  funext ⟨disk, space, registry⟩
  simp only [VolumeM.attempt, VolumeM.onDisk, InodeVolume.attempt]
  cases x space disk <;> rfl

section Entries

variable {i : Inode}

theorem entry_agrees (i : Inode) : Agrees (mounted i.number) (fun _ => True) (plain i.entry) i.entry := by
  refine .plain fun v hv => ?_
  obtain ⟨node, hnode⟩ := Option.ne_none_iff_exists'.1 hv.2
  rw [Client.entry_of_registry hnode]
  exact ⟨hv, trivial⟩

theorem setEntry_agrees (i : Inode) (node : OpenInode) :
    Agrees (mounted i.number) (fun _ => True) (plain (i.setEntry node)) (i.setEntry node) := by
  refine .plain ?_
  rintro ⟨disk, space, registry⟩ ⟨hbits, -⟩
  refine ⟨⟨hbits, ?_⟩, trivial⟩
  show (registry.insert i.number node)[i.number]? ≠ none
  rw [Registry.getElem?_insert, if_pos rfl]
  exact nofun

theorem failed_agrees {id : UInt32} (e : Error) :
    Agrees (mounted id) P (fail (.failed e) : Checked Stop Volume α) (VolumeM.fail e) :=
  .fail ⟨e, rfl⟩

end Entries

/-! ## Contents -/

/-- The block of piece `index`. -/
def inodeBlockAt (i : Inode) (index : Nat) : Checked Stop Volume UInt32 := do
  let node ← plain i.entry
  onVolume fun _ => blockAt node.record index

/-- The block that holds byte `position` of the contents. -/
def blockOf (i : Inode) (position : Nat) : Checked Stop Volume (Option UInt32) := do
  let node ← plain i.entry
  if node.record.length.toNat ≤ position then pure none
  else
    match ← onVolume fun _ => attempt (blockAt node.record (position / blockSize)) with
    | .ok id => pure (some id)
    | .error (_ : Error) => pure none

/-- Reads up to `count` bytes from `offset` on. -/
def inodeRead (i : Inode) (offset count : Nat) : Checked Stop Volume ByteArray := do
  let node ← plain i.entry
  onVolume fun _ => read node.record offset count

/-- Grows the contents to `target` bytes. -/
def inodeGrow (i : Inode) (target : Nat) : Checked Stop Volume Unit := do
  let node ← plain i.entry
  let record ← onVolume fun m => grow m i.number node.record target
  plain (i.setEntry { node with record := record })

/-- Reports an error while a denial of writing is in force. -/
def checkWritable (i : Inode) : Checked Stop Volume Unit := do
  let node ← plain i.entry
  if 0 < node.denials then fail (.failed .writeDenied) else pure ()

/-- The record after growing to `stop` bytes if that is more than there are. -/
def grown (i : Inode) (stop : Nat) : Checked Stop Volume OpenInode := do
  let node ← plain i.entry
  if node.record.length.toNat < stop then do
    inodeGrow i stop
    plain i.entry
  else plain i.entry

/-- Writes `data` from `offset` on. -/
def inodeWrite (i : Inode) (offset : Nat) (data : ByteArray) : Checked Stop Volume Nat := do
  checkWritable i
  if data.isEmpty then pure 0
  else
    match sum? offset data.size with
    | none => fail (.failed .fileTooLarge)
    | some stop =>
      let node ← grown i stop
      onVolume fun _ => write node.record offset data

/-- Empties the contents and gives their blocks back. -/
def inodeClear (i : Inode) : Checked Stop Volume Unit := do
  checkWritable i
  let node ← plain i.entry
  let cleared ← onVolume fun _ => truncate i.number node.record
  plain (i.setEntry { node with record := cleared.2 })
  onVolume fun m => releaseEach m cleared.1

/-- What there is to know about the inode from outside. -/
def status (i : Inode) : Checked Stop Volume Status := do
  let node ← plain i.entry
  let blocks ← totalBlocks node.record.length.toNat
  pure
    { number := i.number
      isDirectory := node.record.isDirectory
      size := node.record.length.toNat
      blocks := blocks }

section Contents

variable {i : Inode}

theorem inodeBlockAt_agrees (i : Inode) (index : Nat) : Agrees (mounted i.number) (fun _ => True)
    (inodeBlockAt i index) (do
      let node ← i.entry
      VolumeM.onDisk fun _ => node.record.blockAt index) :=
  .bind (entry_agrees i) fun _ _ => onVolume_agrees fun _ _ => blockAt_follows _ _

theorem blockOf_agrees (i : Inode) (position : Nat) :
    Agrees (mounted i.number) (fun _ => True) (blockOf i position) (i.blockOf position) := by
  refine .bind (entry_agrees i) fun node _ => ?_
  dsimp only
  refine .ite (fun _ => .pure trivial) fun _ => ?_
  rw [attempt_onDisk]
  refine .bind (onVolume_agrees fun _ _ => Follows.attempt (blockAt_follows _ _)) fun r _ => ?_
  cases r with
  | ok id => exact .pure trivial
  | error e => exact .pure trivial

theorem inodeRead_agrees (i : Inode) (offset : Nat) {count : Nat} (hcount : count < UInt64.size) :
    Agrees (mounted i.number) (fun _ => True) (inodeRead i offset count) (i.read offset count) := by
  refine .bind (entry_agrees i) fun node _ => ?_
  rw [VolumeM.transfer_eq]
  exact (onVolume_agrees fun _ _ => read_agrees node.record offset hcount).mono fun _ _ => trivial

theorem inodeGrow_agrees (i : Inode) (target : Nat) :
    Agrees (mounted i.number) (fun _ => True) (inodeGrow i target) (i.grow target) := by
  refine .bind (entry_agrees i) fun node _ => ?_
  refine .bind (onVolume_agrees fun m hm => grow_follows hm i.number node.record target) fun record _ => ?_
  exact setEntry_agrees i _

theorem checkWritable_agrees (i : Inode) :
    Agrees (mounted i.number) (fun _ => True) (checkWritable i) i.checkWritable :=
  .bind (entry_agrees i) fun _ _ => .ite (fun _ => failed_agrees _) fun _ => .pure trivial

theorem inodeClear_agrees (i : Inode) :
    Agrees (mounted i.number) (fun _ => True) (inodeClear i) i.clear := by
  refine .bind (checkWritable_agrees i) fun _ _ => .bind (entry_agrees i) fun node _ => ?_
  refine .bind (onVolume_agrees fun _ _ => truncate_follows i.number node.record) fun cleared _ => ?_
  exact .bind (setEntry_agrees i _) fun _ _ => onVolume_agrees fun m hm => releaseEach_follows hm cleared.1

theorem status_agrees (i : Inode) : Agrees (mounted i.number) (fun _ => True) (status i) i.status :=
  .bind (entry_agrees i) fun _ _ => .check (totalBlocks_eq (UInt32.toNat_lt_size _)) (.pure trivial)

/-! ## Writing -/

theorem attempt_gives {ε δ σ : Type} {x : EStateM ε σ α} (h : Gives x P) :
    Gives (InodeVolume.attempt x : EStateM δ σ (Except ε α)) fun r => ∀ a, r = .ok a → P a := by
  intro s r s' hr a ha
  subst ha
  unfold InodeVolume.attempt at hr
  split at hr
  · rename_i hx
    cases hr
    exact h _ _ _ hx
  · cases hr

theorem onDisk_gives {x : SpaceMap → DiskM α} (h : ∀ m, Gives (x m) P) : Gives (VolumeM.onDisk x) P := by
  rintro ⟨disk, space, registry⟩ a v' hr
  simp only [VolumeM.onDisk] at hr
  split at hr
  · rename_i hx
    cases hr
    exact h space _ _ _ hx
  · cases hr

/-- What has been put into the registry is found there. -/
theorem setEntry_gives (i : Inode) (node : OpenInode) :
    Gives (i.setEntry node >>= fun _ => i.entry) fun found => found = node := by
  rintro ⟨disk, space, registry⟩ found v' hr
  have hnode : (registry.insert i.number node)[i.number]? = some node := by
    rw [Registry.getElem?_insert, if_pos rfl]
  have hentry := Client.entry_of_registry (v := ⟨disk, space, registry.insert i.number node⟩) (i := i) hnode
  simp only [Inode.setEntry, VolumeM.changeRegistry, Bind.bind, EStateM.bind] at hr hentry
  rw [hentry] at hr
  cases hr
  rfl

/-- A record that was grown is as long as was asked for. -/
theorem grow_gives (m : SpaceMap) (id : UInt32) (r : Record) (target : Nat) :
    Gives (r.grow m id target) fun grown => target ≤ grown.length.toNat := by
  unfold Record.grow
  by_cases hmax : maxFileSize < target
  · rw [if_pos hmax]
    exact .throw
  rw [if_neg hmax]
  by_cases hle : target ≤ r.length.toNat
  · rw [if_pos hle]
    exact .pure hle
  rw [if_neg hle]
  have hsmall : target < UInt32.size := Nat.lt_of_le_of_lt (Nat.le_of_not_lt hmax) (by decide)
  -- The length is set last and to what was asked for, whatever blocks the supply has.
  have hexpanded (supply : List UInt32) :
      Gives (r.expanded target supply) fun grown => target ≤ grown.length.toNat := by
    intro disk grown disk' hr
    unfold Record.expanded at hr
    split at hr
    · cases hr
      exact Nat.le_of_eq (UInt32.toNat_ofNat_of_lt' hsmall).symm
    · cases hr
  refine .last fun fresh => .bind (attempt_gives ((hexpanded fresh).bind fun grown h => .last fun _ => .pure h)) ?_
  intro outcome houtcome
  cases outcome with
  | ok grown => exact .pure (houtcome grown rfl)
  | error e => exact .last fun _ => .throw

theorem inodeGrow_gives (i : Inode) (stop : Nat) :
    Gives (i.grow stop >>= fun _ => i.entry) fun node => stop ≤ node.record.length.toNat := by
  simp only [Inode.grow, bind_assoc]
  refine .last fun node => .bind (onDisk_gives fun m => grow_gives m i.number node.record stop) fun record h => ?_
  intro v found v' hr
  rw [setEntry_gives i _ v found v' hr]
  exact h

/-- A length that is too large is reported at once. -/
theorem inodeGrow_tooLarge {v : Volume} {target : Nat} (hopen : v.registry[i.number]? ≠ none)
    (h : maxFileSize < target) : i.grow target v = .error (.failed .fileTooLarge) v := by
  obtain ⟨node, hnode⟩ := Option.ne_none_iff_exists'.1 hopen
  simp only [Inode.grow, Record.grow, if_pos h, Bind.bind, EStateM.bind, Client.entry_of_registry hnode]
  rfl

/-- The record that is written to reaches as far as what is written. -/
theorem grown_agrees (i : Inode) (stop : Nat) :
    Agrees (mounted i.number) (fun node => stop ≤ node.record.length.toNat) (grown i stop) (do
      let node ← i.entry
      if node.record.length.toNat < stop then do
        i.grow stop
        i.entry
      else i.entry) := by
  have hgrown : Agrees (mounted i.number) (fun _ => True) (grown i stop) (do
      let node ← i.entry
      if node.record.length.toNat < stop then do
        i.grow stop
        i.entry
      else i.entry) :=
    .bind (entry_agrees i) fun node _ => .ite
      (fun _ => .bind (inodeGrow_agrees i stop) fun _ _ => entry_agrees i) fun _ => entry_agrees i
  -- Growing leaves a record of the length that was asked for, and without it the record was long enough.
  refine hgrown.gives fun v hv found v' hr => ?_
  obtain ⟨node, hnode⟩ := Option.ne_none_iff_exists'.1 hv.2
  simp only [Bind.bind, EStateM.bind, Client.entry_of_registry hnode] at hr
  by_cases hshort : node.record.length.toNat < stop
  · rw [if_pos hshort] at hr
    exact inodeGrow_gives i stop v found v' hr
  · rw [if_neg hshort, Client.entry_of_registry hnode] at hr
    cases hr
    exact Nat.le_of_not_lt hshort

/-- Writing first looks at the record that there is, and then at the one to write to. -/
theorem write_grown (i : Inode) (offset : Nat) (data : ByteArray) :
    ((do
        let node ← i.entry
        if node.record.length.toNat < offset + data.size then do
          i.grow (offset + data.size)
          i.entry
        else i.entry) >>= fun node => VolumeM.transfer (node.record.write offset data)) =
      (do
        if (← i.length) < offset + data.size then i.grow (offset + data.size)
        let record := (← i.entry).record
        VolumeM.transfer (record.write offset data)) := by
  simp only [Inode.length, bind_assoc, pure_bind]
  refine bind_congr fun node => ?_
  by_cases hshort : node.record.length.toNat < offset + data.size
  · simp only [if_pos hshort, bind_assoc]
  · simp only [if_neg hshort]

theorem inodeWrite_agrees (i : Inode) (offset : Nat) (data : ByteArray) :
    Agrees (mounted i.number) (fun _ => True) (inodeWrite i offset data) (i.write offset data) := by
  refine .bind (checkWritable_agrees i) fun _ _ => .ite (fun _ => .pure trivial) fun _ => ?_
  unfold sum?
  by_cases hsum : offset + data.size < UInt64.size
  · have hgrown := (grown_agrees i (offset + data.size)).bind (Q := fun _ => True)
      (k := fun node => onVolume fun _ => write node.record offset data)
      (f := fun node => VolumeM.transfer (node.record.write offset data))
      fun node hnode => by
        rw [VolumeM.transfer_eq]
        exact onVolume_agrees fun _ _ => write_follows _ hnode
    rw [write_grown] at hgrown
    rw [if_pos hsum]
    exact hgrown
  · -- A sum that a machine does not have is larger than any contents, so growing would report it too.
    rw [if_neg hsum]
    refine .fail_of ⟨_, rfl⟩ fun v hv => ?_
    obtain ⟨node, hnode⟩ := Option.ne_none_iff_exists'.1 hv.2
    have hlength := node.record.length.toNat_lt_size
    have hsizes : UInt32.size < UInt64.size := by decide
    have hmax : maxFileSize < UInt64.size := by decide
    simp only [Inode.length, Bind.bind, EStateM.bind, Client.entry_of_registry hnode, Pure.pure, EStateM.pure]
    rw [if_pos (by omega)]
    simp only [EStateM.bind, inodeGrow_tooLarge hv.2 (show maxFileSize < offset + data.size by omega)]

end Contents

/-! ## Entries -/

/-- Looks for the first slot from byte `offset` on that is in use for a name that satisfies `p`. -/
def search (i : Inode) (p : String → Bool) (offset : Nat) : Checked Stop Volume (Nat × Option Slot) := do
  let node ← plain i.entry
  onVolume fun _ => findSlot node.record (inUseFor p) offset

/-- The number of the inode that `text` stands for. -/
def lookup (i : Inode) (text : String) : Checked Stop Volume (Option UInt32) := do
  let found ← search i (· == text) 0
  pure (found.2.map (·.number))

/-- The next name of a listing that has come to byte `position`, and the place behind it. -/
def readNextName (d : Directory) : Checked Stop Volume (Option String × Directory) := do
  let found ← search d.inode (!isDotName ·) d.position
  match found.2 with
  | none => pure (none, { d with position := found.1 })
  | some s =>
    let position ← add found.1 slotSize
    let text ← name s
    pure (some text, { d with position := position })

/-- Whether there is no entry but the two of every directory. -/
def isEmpty (i : Inode) : Checked Stop Volume Bool := do
  let found ← search i (!isDotName ·) 0
  pure !found.2.isSome

section Entries

theorem search_agrees (d : Directory) (p : String → Bool) (offset : Nat) : Agrees (mounted d.inode.number)
    (fun found => found.2 ≠ none → found.1 + slotSize < UInt64.size) (search d.inode p offset)
    (d.search (·.findSlot (fun s => s.inUse && p s.name) offset)) := by
  refine .bind (entry_agrees d.inode) fun node _ => ?_
  rw [VolumeM.transfer_eq]
  refine (onVolume_agrees fun _ _ => findSlot_agrees node.record (inUseFor_eq p) offset).mono fun found h hfound => ?_
  have hlength := node.record.length.toNat_lt_size
  exact Nat.lt_of_le_of_lt (h hfound) (Nat.lt_trans hlength (by decide))

/-- What is made of a finding does not need the table. -/
theorem search_map {β : Type} (d : Directory) (f : Record → DiskAction α) (g : α → β) :
    d.search (fun r => f r >>= fun a => pure (g a)) = d.search f >>= fun a => pure (g a) := by
  simp only [Directory.search, bind_assoc]
  rfl

theorem lookup_agrees (d : Directory) (text : String) :
    Agrees (mounted d.inode.number) (fun _ => True) (lookup d.inode text) (d.lookup text) := by
  have hfind : d.find text = d.search (·.findSlot (fun s => s.inUse && s.name == text) 0) >>= fun found =>
      pure (found.2.map (found.1, ·)) := search_map d _ _
  rw [Directory.lookup, hfind, bind_assoc]
  refine .bind (search_agrees d (· == text) 0) fun found _ => ?_
  rw [pure_bind, Option.map_map]
  exact .pure trivial

theorem readNextName_agrees (d : Directory) :
    Agrees (mounted d.inode.number) (fun _ => True) (readNextName d) d.readNext := by
  refine .bind (search_agrees d _ d.position) fun found hfound => ?_
  obtain ⟨offset, slot⟩ := found
  cases slot with
  | none => exact .pure trivial
  | some s => exact .check (add_eq (hfound nofun)) (.check (name_eq s) (.pure trivial))

theorem isEmpty_agrees (d : Directory) :
    Agrees (mounted d.inode.number) (fun _ => True) (isEmpty d.inode) d.isEmpty := by
  have hentries : d.search (·.hasEntries) =
      d.search (·.findSlot (fun s => s.inUse && !isDotName s.name) 0) >>= fun found => pure found.2.isSome :=
    search_map d _ _
  rw [Directory.isEmpty, hentries, bind_assoc]
  refine .bind (search_agrees d (!isDotName ·) 0) fun found _ => ?_
  rw [pure_bind]
  exact .pure trivial

end Entries

end Checked

/-! ## Uses of an open inode -/

/-- What can be asked of an open inode, with numbers as a machine has them. -/
inductive Use where
  /-- The block of a piece. -/
  | blockAt (index : UInt64)
  /-- The block of a byte. -/
  | blockOf (position : UInt64)
  | read (offset count : UInt64)
  | write (offset : UInt64) (data : ByteArray) (fits : data.size < UInt64.size)
  | grow (target : UInt64)
  | clear
  | status
  | lookup (name : String)
  /-- The next name of a listing that has come to a position. -/
  | readNext (position : UInt64)
  | isEmpty

namespace Use

/-- What a use answers. -/
abbrev Answer : Use → Type
  | .blockAt _ => UInt32
  | .blockOf _ => Option UInt32
  | .read _ _ => ByteArray
  | .write _ _ _ => Nat
  | .grow _ => Unit
  | .clear => Unit
  | .status => Status
  | .lookup _ => Option UInt32
  | .readNext _ => Option String × Directory
  | .isEmpty => Bool

/-- Carries out a use. -/
def act (i : Inode) : (u : Use) → VolumeM u.Answer
  | .blockAt index => do
    let node ← i.entry
    VolumeM.onDisk fun _ => node.record.blockAt index.toNat
  | .blockOf position => i.blockOf position.toNat
  | .read offset count => i.read offset.toNat count.toNat
  | .write offset data _ => i.write offset.toNat data
  | .grow target => i.grow target.toNat
  | .clear => i.clear
  | .status => i.status
  | .lookup name => Directory.lookup { inode := i } name
  | .readNext position => Directory.readNext { inode := i, position := position.toNat }
  | .isEmpty => Directory.isEmpty { inode := i }

/-- Carries out a use and checks all its arithmetic. -/
def checked (i : Inode) : (u : Use) → Checked Stop Volume u.Answer
  | .blockAt index => Checked.inodeBlockAt i index.toNat
  | .blockOf position => Checked.blockOf i position.toNat
  | .read offset count => Checked.inodeRead i offset.toNat count.toNat
  | .write offset data _ => Checked.inodeWrite i offset.toNat data
  | .grow target => Checked.inodeGrow i target.toNat
  | .clear => Checked.inodeClear i
  | .status => Checked.status i
  | .lookup name => Checked.lookup i name
  | .readNext position => Checked.readNextName { inode := i, position := position.toNat }
  | .isEmpty => Checked.isEmpty i

/-- The volume after a use, whatever came of it. -/
def run (i : Inode) (v : Volume) (u : Use) : Volume :=
  match u.act i v with
  | .ok _ v => v
  | .error _ v => v

/-- Each use does the same with its arithmetic checked. -/
theorem checked_agrees (i : Inode) (u : Use) :
    Agrees (Checked.mounted i.number) (fun _ => True) (u.checked i) (u.act i) := by
  cases u with
  | blockAt index => exact Checked.inodeBlockAt_agrees i _
  | blockOf position => exact Checked.blockOf_agrees i _
  | read offset count => exact Checked.inodeRead_agrees i _ count.toNat_lt_size
  | write offset data fits => exact Checked.inodeWrite_agrees i _ data
  | grow target => exact Checked.inodeGrow_agrees i _
  | clear => exact Checked.inodeClear_agrees i
  | status => exact Checked.status_agrees i
  | lookup name => exact Checked.lookup_agrees { inode := i } name
  | readNext position => exact Checked.readNextName_agrees { inode := i, position := position.toNat }
  | isEmpty => exact Checked.isEmpty_agrees { inode := i }

/-- A use leaves the inode open. -/
theorem run_mounted {i : Inode} {v : Volume} (hv : (Checked.mounted i.number).state v) (u : Use) :
    (Checked.mounted i.number).state (u.run i v) := by
  have hpost := (checked_agrees i u v hv).2
  unfold run
  cases hr : u.act i v with
  | ok a v' =>
    rw [hr] at hpost
    exact hpost.1
  | error e v' =>
    rw [hr] at hpost
    exact hpost.1

theorem foldl_mounted {i : Inode} {v : Volume} (hv : (Checked.mounted i.number).state v) (uses : List Use) :
    (Checked.mounted i.number).state (uses.foldl (run i) v) := by
  induction uses generalizing v with
  | nil => exact hv
  | cons u uses ih => exact ih (run_mounted hv u)

/-- After any sequence of uses, every use of the inode does the same with all its arithmetic checked, and it ends
with a value or with an error that is reported. -/
def Sound (i : Inode) (v : Volume) : Prop :=
  ∀ (uses : List Use) (u : Use),
    u.checked i (uses.foldl (run i) v) = Checked.plain (u.act i) (uses.foldl (run i) v) ∧
      ((∃ a v', u.checked i (uses.foldl (run i) v) = .ok a v') ∨
        ∃ e v', u.checked i (uses.foldl (run i) v) = .error (.failed (.failed e)) v')

/-- Every call on an inode of a mounted volume is sound, whatever calls came before it. -/
theorem sound_of_mounted {i : Inode} {v : Volume} (hv : (Checked.mounted i.number).state v) : Sound i v := by
  intro uses u
  obtain ⟨heq, hpost⟩ := checked_agrees i u _ (foldl_mounted hv uses)
  refine ⟨heq, ?_⟩
  rw [heq, Checked.plain]
  -- An error of the checked call is one of the program, not a panic.
  cases hr : u.act i (uses.foldl (run i) v) with
  | ok a v' => exact .inl ⟨a, v', rfl⟩
  | error e v' =>
    rw [hr] at hpost
    obtain ⟨-, cause, rfl⟩ := hpost
    exact .inr ⟨cause, v', rfl⟩

/-- An inode that was not open is opened with the record that its block holds. -/
theorem opened_of_acquire {v v₁ : Volume} {number : UInt32} {i : Inode}
    (h : Inode.acquire number v = .ok i v₁) : i.number = number ∧ v₁.space = v.space ∧
      ∃ node, v₁.registry[number]? = some node ∧ (v.registry[number]? = none →
        Record.decode (v.disk.device.block number.toNat) = .ok node.record) := by
  obtain ⟨disk, space, registry⟩ := v
  simp only [Inode.acquire, VolumeM.registry, Bind.bind, EStateM.bind] at h
  dsimp only
  cases hnode : registry[number]? with
  | some node =>
    -- It is open already, and its record stays the one of the first opening.
    rw [hnode] at h
    cases h
    exact ⟨rfl, rfl, { node with openers := node.openers + 1 }, by simp, fun hnone => by cases hnone⟩
  | none =>
    rw [hnode] at h
    simp only [VolumeM.onDisk, Record.load, Bind.bind, EStateM.bind] at h
    cases hread : DiskM.readBlock number.toNat disk with
    | error e disk' =>
      simp only [hread] at h
      cases h
    | ok b disk' =>
      obtain ⟨rfl, -, -⟩ := DiskM.readBlock_ok hread
      simp only [hread] at h
      cases hdecode : Record.decode (disk.device.block number.toNat) with
      | error e =>
        rw [hdecode] at h
        cases h
      | ok record =>
        rw [hdecode] at h
        cases h
        exact ⟨rfl, rfl, ⟨1, false, 0, record⟩, by simp, fun _ => rfl⟩

/-- An inode may be used however its record has come about: whatever block the record was decoded from, on
whatever device, and whichever accesses fail. -/
theorem sound_of_acquire {v v₁ : Volume} {number : UInt32} {i : Inode} (hbits : v.space.bits ≤ UInt32.size)
    (hopen : Inode.acquire number v = .ok i v₁) : Sound i v₁ ∧
      ∃ node, v₁.registry[number]? = some node ∧ (v.registry[number]? = none →
        Record.decode (v.disk.device.block number.toNat) = .ok node.record) := by
  obtain ⟨rfl, hspace, node, hnode, hdecode⟩ := opened_of_acquire hopen
  exact ⟨sound_of_mounted ⟨hspace ▸ hbits, by rw [hnode]; exact nofun⟩, node, hnode, hdecode⟩

/-- An inode whose record can be read is opened. -/
theorem exists_acquire {v : Volume} {number : UInt32} {r : Record} {disk : Disk}
    (hnone : v.registry[number]? = none) (hread : DiskM.readBlock number.toNat v.disk = .ok r.encode disk) :
    ∃ v₁, Inode.acquire number v = .ok ⟨number⟩ v₁ := by
  simp only [Inode.acquire, VolumeM.registry, VolumeM.onDisk, Record.load, Bind.bind, EStateM.bind, hnone, hread,
    Record.decode_encode]
  exact ⟨_, rfl⟩

/-- A directory that claims to have as many bytes as 32 bits can say, with pointers past the end of its device. -/
def wild : Record where
  length := 4294967295
  isDirectory := true
  direct := Vector.replicate directCount 7
  single := 0
  double := 4294967295

/-- A volume on a device of one block, which holds that record. -/
def wildVolume : Volume where
  disk := { device := { blocks := #[wild.encode], medium := .memory } }
  space := { bits := 1 }

theorem sound_of_wild : wildVolume.space.bits ≤ UInt32.size ∧
    ∃ i v₁, Inode.acquire 0 wildVolume = .ok i v₁ ∧ Sound i v₁ := by
  have hbits : wildVolume.space.bits ≤ UInt32.size := by decide
  have hnone : wildVolume.registry[(0 : UInt32)]? = none := Std.TreeMap.getElem?_emptyc
  have hblock : wildVolume.disk.device.block (0 : UInt32).toNat = wild.encode := rfl
  have hthere : (0 : UInt32).toNat < wildVolume.disk.device.blockCount := Nat.zero_lt_one
  obtain ⟨disk, hread, -, -⟩ := DiskM.readBlock_of_steady hthere (fun _ _ => rfl) rfl
  rw [hblock] at hread
  obtain ⟨v₁, hopen⟩ := exists_acquire hnone hread
  exact ⟨hbits, ⟨0⟩, v₁, hopen, (sound_of_acquire hbits hopen).1⟩

end Use

end InodeVolume
