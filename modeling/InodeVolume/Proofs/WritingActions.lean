import InodeVolume.Directory.Basic
import InodeVolume.Proofs.Counterparts

/-!
# Actions that end with a write

The actions that change what is stored read first and write then, also where they are made of several parts
of which one takes back what another has done. So each of them has a counterpart whose reads succeed
(`Mimics`), and what is known of it under failing writes holds under failing reads.
-/

namespace InodeVolume

open DiskM

/-! ## The space map -/

namespace SpaceMap

theorem load_reads (k : Nat) : Reads (load k) := readBlock_reads _

theorem findFrom_reads (m : SpaceMap) (count k run left : Nat) : Reads (m.findFrom count k run left) := by
  induction left generalizing k run with
  | zero => exact Reads.pure none
  | succ left ih =>
    refine (load_reads k).bind fun b => ?_
    split
    · exact Reads.pure _
    · exact ih _ _

/-- Looking at a piece of a range. -/
theorem lookPiece_reads (value : Bool) (p : Piece) : Reads (turnPiece value (fun _ _ => pure ()) p) := by
  refine (load_reads p.cell).bind fun b => ?_
  split
  · exact Reads.throw _
  · exact Reads.pure _

theorem turnPiece_faithful (value : Bool) (p : Piece) : Faithful (turnPiece value store p) := by
  refine (load_reads p.cell).before (fun b => ?_) fun b => ?_
  · split
    · exact Faithful.throw _
    · exact writeBlock_faithful _ _
  · split
    · exact Dies.throw _
    · exact writeBlock_dies _ _

theorem turnPiece_dies (value : Bool) (p : Piece) : Dies (turnPiece value store p) := by
  refine (load_reads p.cell).inert.bind_dies fun b => ?_
  split
  · exact Dies.throw _
  · exact writeBlock_dies _ _

theorem turnPieces_faithful (value : Bool) (parts : List Piece) :
    Faithful (parts.forM (turnPiece value store)) := by
  induction parts with
  | nil => exact Faithful.pure _
  | cons p parts ih => exact (turnPiece_faithful value p).bind fun _ => ih

theorem turnPieces_inert (value : Bool) (parts : List Piece) :
    Inert (parts.forM (turnPiece value store)) := by
  induction parts with
  | nil => exact Inert.pure _
  | cons p parts ih => exact (turnPiece_dies value p).inert.bind fun _ => ih

/-- Turning a range over looks at all of it before anything is stored. -/
theorem setRange_faithful (m : SpaceMap) (start count : Nat) (value : Bool) :
    Faithful (m.setRange start count value) := by
  have hbody : Faithful (do
      (pieces blockBits start count).forM (turnPiece value fun _ _ => pure ())
      (pieces blockBits start count).forM (turnPiece value store)) := by
    -- Nothing is written before every block of the map has been looked at.
    cases pieces blockBits start count with
    | nil => exact Faithful.pure _
    | cons p parts =>
      exact (Reads.forM fun q => lookPiece_reads value q).before
        (fun _ => turnPieces_faithful value (p :: parts))
        fun _ => (turnPiece_dies value p).bind
  unfold setRange
  split
  · exact (Faithful.throw _).bind fun _ => hbody
  · exact hbody

theorem setRange_inert (m : SpaceMap) (start count : Nat) (value : Bool) :
    Inert (m.setRange start count value) := by
  have hbody : Inert (do
      (pieces blockBits start count).forM (turnPiece value fun _ _ => pure ())
      (pieces blockBits start count).forM (turnPiece value store)) :=
    (Reads.forM fun q => lookPiece_reads value q).inert.bind fun _ => turnPieces_inert value _
  unfold setRange
  split
  · exact (Inert.throw _).bind fun _ => hbody
  · exact hbody

theorem setRange_dies (m : SpaceMap) (start : Nat) {count : Nat} (hc : 0 < count) (value : Bool) :
    Dies (m.setRange start count value) := by
  have hbody : Dies (do
      (pieces blockBits start count).forM (turnPiece value fun _ _ => pure ())
      (pieces blockBits start count).forM (turnPiece value store)) := by
    refine (Reads.forM fun q => lookPiece_reads value q).inert.bind_dies fun _ => ?_
    rw [pieces, if_neg (by simp only [blockBits]; omega)]
    exact (turnPiece_dies value _).bind
  unfold setRange
  split
  · exact (Inert.throw _).bind_dies fun _ => hbody
  · exact hbody

theorem allocate_faithful (m : SpaceMap) {count : Nat} (hc : 0 < count) :
    Faithful (m.allocate count) := by
  refine (findFrom_reads m count 0 0 m.blockCount).before (fun found => ?_) fun found => ?_
  · cases found with
    | none => exact Faithful.throw _
    | some start => exact (setRange_faithful m start count true).bind fun _ => Faithful.pure _
  · cases found with
    | none => exact Dies.throw _
    | some start => exact (setRange_dies m start hc true).bind

theorem release_faithful (m : SpaceMap) (first : UInt32) (count : Nat) :
    Faithful (m.release first count) := setRange_faithful m first.toNat count false

/-- The outcomes are the same, the blocks taken until a failure included. -/
inductive Took : Except (Error × List UInt32) (List UInt32) → Except (Error × List UInt32) (List UInt32) → Prop
  | ok (l : List UInt32) : Took (.ok l) (.ok l)
  | error (e e' : Error) (l : List UInt32) (h : Reported (.error e : Except Error Unit) (.error e')) :
    Took (.error (e, l)) (.error (e', l))

theorem takeZeroed_mimics (m : SpaceMap) (taken : List UInt32) (n : Nat) :
    Mimics Took (m.takeZeroed taken n) (m.takeZeroed taken n) := by
  induction n generalizing taken with
  | zero => exact Mimics.pure (.ok _)
  | succ n ih =>
    refine Mimics.attemptBind (allocate_faithful m Nat.one_pos) ?_
    rintro r r' (b | e | e)
    · refine Mimics.attemptBind (writeBlock_faithful b.toNat .zero) ?_
      rintro r r' (_ | e | e)
      · exact ih (b :: taken)
      · exact Mimics.throw (.error _ _ _ (.same e))
      · exact Mimics.throw (.error _ _ _ (.io e))
    · exact Mimics.throw (.error _ _ _ (.same e))
    · exact Mimics.throw (.error _ _ _ (.io e))

/-- The outcome of giving blocks back, as it is handed on. -/
def Resumed (r r' : Except Error (Except Error Unit)) : Prop :=
  ∃ o o', Reported o o' ∧ r = .ok o ∧ r' = .ok o'

/-- Giving back the same blocks goes the same way after outcomes that are reported the same. -/
theorem releases_mimic (m : SpaceMap) (blocks : List UInt32) {o o' : Except Error Unit} (h : Reported o o') :
    Mimics Resumed
      (blocks.foldlM (fun (outcome : Except Error Unit) b => do
        let released ← (attempt (m.release b 1) : DiskM (Except Error Unit))
        pure (outcome *> released)) o)
      (blocks.foldlM (fun (outcome : Except Error Unit) b => do
        let released ← (attempt (m.release b 1) : DiskM (Except Error Unit))
        pure (outcome *> released)) o') := by
  induction blocks generalizing o o' with
  | nil => exact Mimics.pure ⟨o, o', h, rfl, rfl⟩
  | cons b blocks ih =>
    have hstep : Mimics Resumed
        (do
          let released ← (attempt (m.release b 1) : DiskM (Except Error Unit))
          pure (o *> released))
        (do
          let released ← (attempt (m.release b 1) : DiskM (Except Error Unit))
          pure (o' *> released)) := by
      refine Mimics.attemptBind (release_faithful m b 1) fun r r' hr => Mimics.pure ⟨_, _, ?_, rfl, rfl⟩
      -- The first error is kept, so what the next block answers counts only after none.
      cases h with
      | ok => exact hr
      | same e => exact .same e
      | io e => exact .io e
    refine Mimics.bind hstep ?_ ?_ ?_
    · rintro v w ⟨o, o', ho, hv, hw⟩
      cases hv
      cases hw
      exact ih ho
    · rintro e e' ⟨o, o', -, ho, -⟩
      cases ho
    · rintro r r' ⟨o, o', -, rfl, rfl⟩
      rfl

theorem resume_mimics {o o' : Except Error Unit} (h : Reported o o') :
    Mimics Reported (resume o : DiskM Unit) (resume o') := by
  cases h with
  | ok v => exact Faithful.pure v
  | same e => exact Faithful.throw e
  | io e => exact Mimics.throw (.io e)

theorem releaseEach_faithful (m : SpaceMap) (blocks : List UInt32) : Faithful (m.releaseEach blocks) := by
  refine Mimics.bind (releases_mimic m blocks (.ok ())) ?_ ?_ ?_
  · rintro v w ⟨o, o', ho, hv, hw⟩
    cases hv
    cases hw
    exact resume_mimics ho
  · rintro e e' ⟨o, o', -, ho, -⟩
    cases ho
  · rintro r r' ⟨o, o', -, rfl, rfl⟩
    rfl

theorem resume_inert {α : Type} (o : Except Error α) : Inert (resume o : DiskM α) := by
  cases o with
  | ok v => exact Inert.pure v
  | error e => exact Inert.throw e

theorem releaseEach_inert (m : SpaceMap) (blocks : List UInt32) : Inert (m.releaseEach blocks) := by
  have hfold : ∀ o, Inert (blocks.foldlM (fun (outcome : Except Error Unit) b => do
      let released ← (attempt (m.release b 1) : DiskM (Except Error Unit))
      pure (outcome *> released)) o) := by
    induction blocks with
    | nil => exact fun o => Inert.pure o
    | cons b blocks ih =>
      intro o
      exact Inert.bind ((setRange_inert m b.toNat 1 false).attempt_bind fun _ => Inert.pure _) fun o => ih o
  exact (hfold _).bind fun o => resume_inert o

theorem discardEach_faithful (m : SpaceMap) (blocks : List UInt32) : Faithful (m.discardEach blocks) :=
  Mimics.attemptBind (releaseEach_faithful m blocks) fun _ _ _ => Faithful.pure ()

theorem allocateZeroed_faithful (m : SpaceMap) (n : Nat) : Faithful (m.allocateZeroed n) := by
  refine Mimics.attemptBind (takeZeroed_mimics m [] n) ?_
  rintro r r' (l | ⟨e, e', l, he⟩)
  · exact Faithful.pure l
  · exact Mimics.bind (discardEach_faithful m l) (fun _ _ _ => Mimics.throw he.error_bind)
      (fun _ _ h => h.error_bind) fun _ _ h => h.isOk_eq

end SpaceMap

/-! ## Records -/

namespace Record

/-- Looking up a block only reads. -/
theorem blockAt_reads (r : Record) (i : Nat) : Reads (r.blockAt i) := by
  unfold blockAt
  split
  · exact Reads.pure _
  · split
    · split
      · exact Reads.pure _
      · exact (readBlock_reads _).bind fun _ => Reads.pure _
    · split
      · split
        · exact Reads.pure _
        · refine (readBlock_reads _).bind fun outer => ?_
          dsimp only
          split
          · exact Reads.pure _
          · exact (readBlock_reads _).bind fun _ => Reads.pure _
      · exact Reads.throw _

theorem underPiece_reads (r : Record) (id : UInt32) (p : Piece) : Reads (r.underPiece id p) := by
  unfold underPiece
  split
  · exact Reads.pure _
  · split
    · exact readBlock_reads _
    · exact Reads.pure _

theorem writePiece_faithful (r : Record) (p : Piece) (data : ByteArray) : Faithful (r.writePiece p data) := by
  -- A read is allowed in front of what stores nothing once its writes fail, so both are needed of the rest.
  have hrest : ∀ id, Faithful (do
      let under ← r.underPiece id p
      DiskM.writeBlock id.toNat (under.patch p.start data)) := fun id =>
    (underPiece_reads r id p).before (fun _ => writeBlock_faithful _ _) fun _ => writeBlock_dies _ _
  have hdies : ∀ id, Dies (do
      let under ← r.underPiece id p
      DiskM.writeBlock id.toNat (under.patch p.start data)) := fun id =>
    (underPiece_reads r id p).inert.bind_dies fun _ => writeBlock_dies _ _
  refine (blockAt_reads r p.cell).before (fun id => ?_) fun id => ?_
  · split
    · exact (Faithful.throw _).bind fun _ => hrest id
    · exact hrest id
  · split
    · exact (Dies.throw _).bind
    · exact hdies id

theorem writePieces_faithful (r : Record) (data : ByteArray) (done : Nat) (ps : List Piece) :
    Faithful (ofAction (r.writePieces data done ps)) := by
  induction ps generalizing done with
  | nil => exact Faithful.pure done
  | cons p rest ih =>
    rw [ofAction_writePieces_cons]
    refine Mimics.attemptBind (writePiece_faithful r p _) ?_
    rintro r r' (_ | e | e)
    · exact ih _
    · exact Faithful.pure done
    · exact Faithful.pure done

/-! ## Extending a record -/

section Growth

open Growth

/-- A step of extending an index, as an action on the disk that hands the rest on. -/
def lowered {α : Type} (x : GrowthM α) (r : Record) (supply : List UInt32) :
    DiskM (α × Record × List UInt32) := fun disk =>
  match x ⟨disk, r, supply⟩ with
  | .ok v g => .ok (v, g.record, g.supply) g.disk
  | .error e g => .error e g.disk

/-- A step of extending an index that reads before it writes, or only reads. -/
def GrowthReads {α : Type} (x : GrowthM α) : Prop := ∀ r supply, Reads (lowered x r supply)

variable {α β : Type} {x : GrowthM α} {f : α → GrowthM β}

theorem lowered_bind (r : Record) (supply : List UInt32) :
    lowered (x >>= f) r supply = lowered x r supply >>= fun v => lowered (f v.1) v.2.1 v.2.2 := by
  funext disk
  simp only [lowered, Bind.bind, EStateM.bind]
  cases x ⟨disk, r, supply⟩ <;> rfl

theorem GrowthReads.pure (v : α) : GrowthReads (Pure.pure v) := fun r supply =>
  Reads.pure (v, r, supply)

theorem GrowthReads.bind (hx : GrowthReads x) (hf : ∀ v, GrowthReads (f v)) : GrowthReads (x >>= f) := by
  intro r supply
  rw [lowered_bind]
  exact (hx r supply).bind fun v => hf v.1 v.2.1 v.2.2

theorem next_reads : GrowthReads next := fun r supply => by
  cases supply with
  | nil => exact Reads.throw _
  | cons b rest => exact Reads.pure (b, r, rest)

theorem change_reads (g : Record → Record) : GrowthReads (change g) := fun r supply =>
  Reads.pure ((), g r, supply)

theorem current_reads : GrowthReads current := fun r supply => Reads.pure (r, r, supply)

theorem onDisk_reads {x : DiskM α} (h : Reads x) : GrowthReads (onDisk x) := fun r supply => by
  have hlow : lowered (onDisk x) r supply = x >>= fun v => Pure.pure (v, r, supply) := by
    funext disk
    simp only [lowered, onDisk, Bind.bind, EStateM.bind]
    cases x disk <;> rfl
  rw [hlow]
  exact h.bind fun _ => Reads.pure _

theorem writeBlock_reads (id : Nat) (b : Block) : Reads (DiskM.writeBlock id b) :=
  (writeBlock_faithful id b).reads (writeBlock_dies id b).inert

theorem fillDirect_reads (i n : Nat) : GrowthReads (fillDirect i n) := by
  induction n generalizing i with
  | zero => exact GrowthReads.pure ()
  | succ n ih => exact next_reads.bind fun _ => (change_reads _).bind fun _ => ih _

theorem fillTable_reads (table : Block) (i n : Nat) : GrowthReads (fillTable table i n) := by
  induction n generalizing table i with
  | zero => exact GrowthReads.pure table
  | succ n ih => exact next_reads.bind fun _ => ih _ _

theorem extendSingle_reads (first last : Nat) : GrowthReads (extendSingle first last) := by
  have hrest : ∀ table, GrowthReads (do
      let table ← fillTable table (first - directCount) (min last singleReach - first)
      onDisk (DiskM.writeBlock (← current).single.toNat table)) := fun table =>
    (fillTable_reads _ _ _).bind fun _ => current_reads.bind fun _ => onDisk_reads (writeBlock_reads _ _)
  unfold extendSingle
  split
  · exact next_reads.bind fun b => (change_reads _).bind fun _ => hrest _
  · exact current_reads.bind fun r => (onDisk_reads (readBlock_reads _)).bind fun _ => hrest _

theorem extendInner_reads (outer : Block) (p : Piece) : GrowthReads (extendInner outer p) := by
  have hrest (outer : Block) (id : UInt32) (table : Block) : GrowthReads (do
      let table ← fillTable table p.start p.size
      onDisk (DiskM.writeBlock id.toNat table)
      Pure.pure outer) :=
    (fillTable_reads _ _ _).bind fun _ => (onDisk_reads (writeBlock_reads _ _)).bind fun _ =>
      GrowthReads.pure _
  unfold extendInner
  split
  · simp only [pure_bind]
    exact next_reads.bind fun b => hrest _ _ _
  · simp only [pure_bind]
    exact (onDisk_reads (readBlock_reads _)).bind fun table => hrest _ _ _

theorem extendInners_reads (outer : Block) (parts : List Piece) :
    GrowthReads (parts.foldlM extendInner outer) := by
  induction parts generalizing outer with
  | nil => exact GrowthReads.pure outer
  | cons p parts ih => exact (extendInner_reads outer p).bind fun outer => ih outer

theorem extendDouble_reads (first last : Nat) : GrowthReads (extendDouble first last) := by
  have hrest : ∀ outer, GrowthReads (do
      let outer ← (pieces blockWords (first - singleReach) (last - first)).foldlM extendInner outer
      onDisk (DiskM.writeBlock (← current).double.toNat outer)) := fun outer =>
    (extendInners_reads _ _).bind fun _ => current_reads.bind fun _ => onDisk_reads (writeBlock_reads _ _)
  unfold extendDouble
  split
  · exact next_reads.bind fun b => (change_reads _).bind fun _ => hrest _
  · exact current_reads.bind fun r => (onDisk_reads (readBlock_reads _)).bind fun _ => hrest _

/-- Extending an index is such a step, tier by tier. -/
theorem extend_reads (first last : Nat) : GrowthReads (extend first last) := by
  -- Beyond the largest record there is only the error.
  by_cases hmax : last ≤ maxBlocks
  · rw [extend_eq first hmax]
    refine (fillDirect_reads _ _).bind fun _ => ?_
    split
    · exact GrowthReads.pure ()
    · refine GrowthReads.bind ?_ fun _ => ?_
      · split
        · exact extendSingle_reads _ _
        · exact GrowthReads.pure ()
      · split
        · exact GrowthReads.pure ()
        · exact extendDouble_reads _ _
  · unfold extend
    rw [if_pos (by omega)]
    exact fun _ _ => Reads.throw _

/-- Extending a record in memory, with its tables on the disk. -/
theorem expanded_eq (r : Record) (size : Nat) (supply : List UInt32) :
    r.expanded size supply =
      lowered (extend (dataBlocks r.length.toNat) (dataBlocks size)) r supply >>= fun v =>
        Pure.pure { v.2.1 with length := UInt32.ofNat size } := by
  funext disk
  simp only [expanded, expand, lowered, Bind.bind, EStateM.bind]
  cases extend (dataBlocks r.length.toNat) (dataBlocks size) ⟨disk, r, supply⟩ <;> rfl

theorem expanded_reads (r : Record) (size : Nat) (supply : List UInt32) : Reads (r.expanded size supply) := by
  rw [expanded_eq]
  exact (extend_reads _ _ r supply).bind fun _ => Reads.pure _

end Growth

/-- Extending a record and storing it is faithful, and so is giving the blocks back after an error. -/
theorem extendStored_faithful (m : SpaceMap) (id : UInt32) (r : Record) (size count : Nat) :
    Faithful (r.extendStored m id size count) := by
  refine (m.allocateZeroed_faithful count).bind fun fresh => ?_
  have hextended : Faithful (do
      let grown ← r.expanded size fresh
      grown.store id
      Pure.pure grown) :=
    (expanded_reads r size fresh).before
      (fun grown => (writeBlock_faithful _ _).bind fun _ => Faithful.pure grown)
      fun _ => (writeBlock_dies _ _).bind
  -- An error is handed on after the blocks, which are the same on both, have been given back.
  refine Mimics.attemptBind hextended ?_
  rintro r r' (grown | e | e)
  · exact Faithful.pure grown
  · exact (m.discardEach_faithful fresh).bind fun _ => Faithful.throw e
  · exact Mimics.bind (m.discardEach_faithful fresh) (fun _ _ _ => Mimics.throw (.io e))
      (fun _ _ h => h.error_bind) fun _ _ h => h.isOk_eq

theorem grow_faithful (m : SpaceMap) (id : UInt32) (r : Record) (target : Nat) :
    Faithful (Record.grow m id r target) := by
  have hrest : Faithful (if target ≤ r.length.toNat then Pure.pure r
      else r.extendStored m id target (totalBlocks target - totalBlocks r.length.toNat)) := by
    split
    · exact Faithful.pure r
    · exact extendStored_faithful m id r target _
  unfold Record.grow
  dsimp only
  by_cases hmax : maxFileSize < target
  · rw [if_pos hmax]
    exact (Faithful.throw _).bind fun _ => hrest
  · rw [if_neg hmax]
    exact hrest

theorem create_faithful (m : SpaceMap) (id : UInt32) (size : Nat) (isDirectory : Bool) :
    Faithful (Record.create m id size isDirectory) := by
  have hrest : Faithful (do
      let _ ← (empty isDirectory).extendStored m id size (totalBlocks size)) :=
    (extendStored_faithful m id _ size _).bind fun _ => Faithful.pure _
  unfold Record.create
  dsimp only
  by_cases hmax : maxFileSize < size
  · rw [if_pos hmax]
    exact (Faithful.throw _).bind fun _ => hrest
  · rw [if_neg hmax]
    exact hrest

/-! ## Emptying an inode and giving it up -/

theorem tableBlocks_reads (id : UInt32) (n : Nat) : Reads (tableBlocks id n) :=
  (readBlock_reads _).bind fun _ => Reads.pure _

theorem doubleBlocks_reads (id : UInt32) (n : Nat) : Reads (doubleBlocks id n) :=
  (readBlock_reads _).bind fun _ => (Reads.mapM fun _ => tableBlocks_reads _ _).bind fun _ => Reads.pure _

theorem ownedBlocks_reads (r : Record) : Reads r.ownedBlocks := by
  have hdouble : ∀ single, Reads (do
      let double ←
        if singleReach < dataBlocks r.length.toNat then
          doubleBlocks r.double (dataBlocks r.length.toNat - singleReach)
        else Pure.pure []
      Pure.pure (r.direct.toList.take (dataBlocks r.length.toNat) ++ single ++ double)) := by
    intro single
    split
    · exact (doubleBlocks_reads _ _).bind fun _ => Reads.pure _
    · exact Reads.pure _
  unfold ownedBlocks
  dsimp only
  split
  · exact (tableBlocks_reads _ _).bind hdouble
  · exact hdouble []

theorem truncate_faithful (id : UInt32) (r : Record) : Faithful (Record.truncate id r) :=
  ((ownedBlocks_reads r).bind fun _ => Reads.pure _).before
    (fun _ => (writeBlock_faithful _ _).bind fun _ => Faithful.pure _)
    fun _ => (writeBlock_dies _ _).bind

theorem dissolve_faithful (m : SpaceMap) (id : UInt32) (r : Record) : Faithful (r.dissolve m id) := by
  refine (ownedBlocks_reads r).before (fun blocks => ?_) fun blocks => ?_
  · refine Mimics.attemptBind (m.releaseEach_faithful blocks) fun o o' ho => ?_
    exact Mimics.bind (m.release_faithful id 1) (fun _ _ _ => SpaceMap.resume_mimics ho)
      (fun _ _ h => h.error_bind) fun _ _ h => h.isOk_eq
  · exact (m.releaseEach_inert blocks).attempt_bind_dies fun _ =>
      (m.setRange_dies id.toNat Nat.one_pos false).bind

end Record

/-! ## Open inodes and directories -/

namespace Inode

open VolumeM

theorem entry_faithful (i : Inode) : VolumeM.Faithful i.entry := by
  refine Faithful.registry.bind fun registry => ?_
  split
  · exact Faithful.pure _
  · exact Faithful.throw _

theorem setEntry_faithful (i : Inode) (node : OpenInode) : VolumeM.Faithful (i.setEntry node) :=
  Faithful.changeRegistry _

theorem markRemoved_faithful (i : Inode) : VolumeM.Faithful i.markRemoved :=
  (entry_faithful i).bind fun _ => setEntry_faithful i _

theorem isDirectory_faithful (i : Inode) : VolumeM.Faithful i.isDirectory :=
  (entry_faithful i).bind fun _ => Faithful.pure _

theorem length_faithful (i : Inode) : VolumeM.Faithful i.length :=
  (entry_faithful i).bind fun _ => Faithful.pure _

theorem checkWritable_faithful (i : Inode) : VolumeM.Faithful i.checkWritable := by
  refine (entry_faithful i).bind fun node => ?_
  split
  · exact Faithful.fail _
  · exact Faithful.pure ()

theorem close_faithful (i : Inode) : VolumeM.Faithful i.close := by
  refine (entry_faithful i).bind fun node => ?_
  split
  · exact setEntry_faithful i _
  · refine (Faithful.changeRegistry _).bind fun _ => ?_
    split
    · exact Faithful.ignoring (Faithful.onDisk fun m => node.record.dissolve_faithful m i.number)
    · exact Faithful.pure ()

theorem grow_faithful (i : Inode) (target : Nat) : VolumeM.Faithful (i.grow target) :=
  (entry_faithful i).bind fun node =>
    (Faithful.onDisk fun m => Record.grow_faithful m i.number node.record target).bind fun _ =>
      setEntry_faithful i _

theorem write_faithful (i : Inode) (offset : Nat) (data : ByteArray) :
    VolumeM.Faithful (i.write offset data) := by
  have hover : VolumeM.Faithful (do
      let record := (← i.entry).record
      VolumeM.transfer (record.write offset data)) :=
    (entry_faithful i).bind fun node => Faithful.transfer (node.record.writePieces_faithful data 0 _)
  refine (checkWritable_faithful i).bind fun _ => ?_
  split
  · exact Faithful.pure 0
  · refine (length_faithful i).bind fun length => ?_
    split
    · exact (grow_faithful i _).bind fun _ => hover
    · exact hover

theorem clear_faithful (i : Inode) : VolumeM.Faithful i.clear :=
  (checkWritable_faithful i).bind fun _ => (entry_faithful i).bind fun node =>
    (Faithful.onDisk fun _ => Record.truncate_faithful i.number node.record).bind fun _ =>
      (setEntry_faithful i _).bind fun _ => Faithful.onDisk fun m => m.releaseEach_faithful _

theorem create_faithful (number : UInt32) (size : Nat) (isDirectory : Bool) :
    VolumeM.Faithful (create number size isDirectory) :=
  Faithful.onDisk fun m => Record.create_faithful m number size isDirectory

end Inode

namespace Directory

open VolumeM

theorem writeSlot_faithful (d : Directory) (offset : Nat) (slot : Slot) :
    VolumeM.Faithful (d.writeSlot offset slot) := by
  refine (d.inode.write_faithful offset slot.encode).bind fun n => ?_
  split
  · exact Faithful.fail _
  · exact Faithful.pure ()

theorem ofInode_faithful (i : Inode) : VolumeM.Faithful (ofInode i) := by
  refine i.isDirectory_faithful.bind fun is => ?_
  split
  · exact Faithful.pure _
  · exact i.close_faithful.bind fun _ => Faithful.fail _

end Directory

end InodeVolume
