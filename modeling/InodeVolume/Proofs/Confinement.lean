import InodeVolume.Directory.Table
import InodeVolume.Proofs.Counterparts
import Mathlib.Order.Defs.Unbundled

/-!
# What no action on a disk does

Whatever a disk holds and whichever accesses fail, no action changes how many blocks there are, which
accesses fail, or that a block lies inside the medium (`Disk.Kept`), and no action reports that writing is
denied: denials are a matter of open inodes. Nor does an action notice that later writes will fail: it comes to
the same on a disk that wears out only when it is done (`Early`). Actions with these properties are tame
(`DiskM.Tame`), and there is one lemma for each action, made of the rules for composing them (`Confined`).
-/

namespace InodeVolume

/-! ## Disks that wear out -/

/-- The same faults, and from number `k` on every write fails. -/
def Faults.worn (k : Nat) (f : Faults) : Faults :=
  { f with write := fun n id => f.write n id || decide (k ≤ n) }

/-- A disk on which nothing has failed, when it wears out, has the pattern in which writes fail from a number on. -/
theorem Faults.worn_never (k : Nat) : Faults.never.worn k = .from none (some k) [] [] := by
  simp [worn, never, Faults.from]

/-- States that hold a disk which can wear out. -/
class Wears (σ : Type) where
  /-- How many writes have been tried. -/
  tried : σ → Nat
  /-- The state in which every write fails from number `k` on. -/
  worn : Nat → σ → σ

export Wears (tried worn)

instance : Wears Disk where
  tried s := s.faults.writesSeen
  worn k s := { s with faults := s.faults.worn k }

section Early

variable {ε δ σ α β : Type} [Wears σ] {x : EStateM ε σ α} {f : α → EStateM ε σ β} {s s' : σ}

/-- From this state the action comes to the same if the disk wears out only when it is done. -/
structure Early (x : EStateM ε σ α) (s : σ) : Prop where
  le : tried s ≤ tried (outcome x s).2
  same : ∀ k, tried (outcome x s).2 ≤ k → outcome x (worn k s) = ((outcome x s).1, worn k (outcome x s).2)

theorem Early.pure (v : α) (s : σ) : Early (pure v : EStateM ε σ α) s := ⟨Nat.le_refl _, fun _ _ => rfl⟩

theorem Early.throw (e : ε) (s : σ) : Early (throw e : EStateM ε σ α) s := ⟨Nat.le_refl _, fun _ _ => rfl⟩

/-- What fails goes on no further. -/
theorem Early.bind_error {e : ε} (hx : Early x s) (hrun : outcome x s = (.error e, s')) :
    Early (x >>= f) s := by
  obtain ⟨hle, hsame⟩ := hx
  rw [hrun] at hle hsame
  refine ⟨?_, fun k hk => ?_⟩
  · rwa [outcome_bind_error hrun]
  · rw [outcome_bind_error hrun] at hk ⊢
    exact outcome_bind_error (hsame k hk)

/-- The second action comes after the first one, so the disk that lasts for both lasts for the first. -/
theorem Early.bind_ok {v : α} (hx : Early x s) (hrun : outcome x s = (.ok v, s')) (hf : Early (f v) s') :
    Early (x >>= f) s := by
  obtain ⟨hle, hsame⟩ := hx
  rw [hrun] at hle hsame
  refine ⟨?_, fun k hk => ?_⟩
  · rw [outcome_bind_ok hrun]
    exact hle.trans hf.le
  · rw [outcome_bind_ok hrun] at hk ⊢
    rw [outcome_bind_ok (hsame k (hf.le.trans hk))]
    exact hf.same k hk

theorem Early.attempt_bind {g : Except ε α → EStateM δ σ β} (hx : Early x s)
    (hg : Early (g (outcome x s).1) (outcome x s).2) :
    Early ((attempt x : EStateM δ σ (Except ε α)) >>= g) s := by
  refine ⟨?_, fun k hk => ?_⟩
  · rw [outcome_attempt_bind]
    exact hx.le.trans hg.le
  · rw [outcome_attempt_bind] at hk ⊢
    rw [outcome_attempt_bind, hx.same k (hg.le.trans hk)]
    exact hg.same k hk

/-- An action that succeeds does so as well on a disk that wears out later. -/
theorem Early.run {v : α} (h : Early x s) (hr : x s = .ok v s') :
    tried s ≤ tried s' ∧ ∀ k, tried s' ≤ k → x (worn k s) = .ok v (worn k s') := by
  obtain ⟨hle, hsame⟩ := h
  have hrun : outcome x s = (.ok v, s') := by rw [outcome, hr]
  rw [hrun] at hle hsame
  refine ⟨hle, fun k hk => ?_⟩
  -- The same outcome is reached under more faults, so it is an answer there too.
  have hworn := hsame k hk
  unfold outcome at hworn
  cases hx : x (worn k s) with
  | ok w t =>
    rw [hx] at hworn
    cases hworn
    rfl
  | error e t =>
    rw [hx] at hworn
    cases hworn

end Early

/-! ## Actions that keep to a relation -/

section Rules

variable {ε δ σ α β : Type} [Wears σ] {R : σ → σ → Prop} {P : ε → Prop} {Q : δ → Prop}

/-- From every state the action leaves one that `R` relates to it, an error that it reports is one of which `P`
holds, and it comes to the same if the disk wears out only when it is done. -/
def Confined (R : σ → σ → Prop) (P : ε → Prop) (x : EStateM ε σ α) : Prop :=
  ∀ s, R s (outcome x s).2 ∧ (∀ e, (outcome x s).1 = .error e → P e) ∧ Early x s

variable {x : EStateM ε σ α} {f : α → EStateM ε σ β} {s s' : σ}

theorem Confined.mono {P' : ε → Prop} (h : Confined R P x) (hP : ∀ e, P e → P' e) : Confined R P' x :=
  fun s => ⟨(h s).1, fun e he => hP e ((h s).2.1 e he), (h s).2.2⟩

theorem Confined.of_ok {v : α} (h : Confined R P x) (hr : x s = .ok v s') : R s s' := by
  have hs := (h s).1
  rwa [outcome, hr] at hs

theorem Confined.of_error {e : ε} (h : Confined R P x) (hr : x s = .error e s') : R s s' := by
  have hs := (h s).1
  rwa [outcome, hr] at hs

variable [IsPreorder σ R]

theorem Confined.pure (v : α) : Confined R P (pure v : EStateM ε σ α) :=
  fun s => ⟨refl_of R s, nofun, .pure v s⟩

theorem Confined.throw {e : ε} (h : P e) : Confined R P (throw e : EStateM ε σ α) := by
  refine fun s => ⟨refl_of R s, ?_, .throw e s⟩
  rintro _ ⟨⟩
  exact h

/-- What is confined step by step is confined as a whole. -/
theorem Confined.bind (hx : Confined R P x) (hf : ∀ v, Confined R P (f v)) : Confined R P (x >>= f) := by
  intro s
  obtain ⟨hR, hP, hearly⟩ := hx s
  rcases hrun : outcome x s with ⟨e | v, s'⟩
  · -- A failed first step ends the run, and there the whole is as confined as that step.
    rw [hrun] at hR hP
    refine ⟨?_, ?_, hearly.bind_error hrun⟩
    · rwa [outcome_bind_error hrun]
    · rw [outcome_bind_error hrun]
      rintro _ ⟨⟩
      exact hP e rfl
  · rw [hrun] at hR
    obtain ⟨hR', hP', hearly'⟩ := hf v s'
    refine ⟨?_, ?_, hearly.bind_ok hrun hearly'⟩
    · rw [outcome_bind_ok hrun]
      exact trans_of R hR hR'
    · rwa [outcome_bind_ok hrun]

/-- Going on after a check that was passed. -/
theorem Confined.checkBind {p : Prop} [Decidable p] {e : ε} {g : Unit → EStateM ε σ β} (he : P e)
    (hg : Confined R P (g ())) :
    Confined R P (if p then (MonadExcept.throw e : EStateM ε σ Unit) >>= g else g ()) := by
  split
  · exact (Confined.throw he).bind fun _ => hg
  · exact hg

/-- Going on from the outcome of an action, whatever it is. -/
theorem Confined.attemptBind {g : Except ε α → EStateM δ σ β} (hx : Confined R P x)
    (hg : ∀ r, (∀ e, r = .error e → P e) → Confined R Q (g r)) :
    Confined R Q ((attempt x : EStateM δ σ (Except ε α)) >>= g) := by
  intro s
  obtain ⟨hR, hP, hearly⟩ := hx s
  obtain ⟨hR', hQ, hearly'⟩ := hg _ hP (outcome x s).2
  refine ⟨?_, ?_, hearly.attempt_bind hearly'⟩
  · rw [outcome_attempt_bind]
    exact trans_of R hR hR'
  · rwa [outcome_attempt_bind]

theorem Confined.resume {r : Except ε α} (h : ∀ e, r = .error e → P e) :
    Confined R P (resume r : EStateM ε σ α) := by
  cases r with
  | ok v => exact .pure v
  | error e => exact .throw (h e rfl)

theorem Confined.foldlM {g : β → α → EStateM ε σ β} (hg : ∀ b a, Confined R P (g b a)) (l : List α) (b : β) :
    Confined R P (l.foldlM g b) := by
  induction l generalizing b with
  | nil => exact .pure b
  | cons a l ih =>
    rw [List.foldlM_cons]
    exact (hg b a).bind ih

theorem Confined.forM {g : α → EStateM ε σ Unit} (hg : ∀ a, Confined R P (g a)) (l : List α) :
    Confined R P (l.forM g) := by
  induction l with
  | nil => exact .pure ()
  | cons a l ih =>
    rw [List.forM_eq_forM, List.forM_cons]
    exact (hg a).bind fun _ => ih

theorem Confined.mapM {g : α → EStateM ε σ β} (hg : ∀ a, Confined R P (g a)) (l : List α) :
    Confined R P (l.mapM g) := by
  induction l with
  | nil => exact .pure []
  | cons a l ih =>
    rw [List.mapM_cons]
    exact (hg a).bind fun _ => ih.bind fun _ => .pure _

end Rules

/-! ## Accesses -/

instance : IsPreorder Disk Disk.Kept where
  refl _ := ⟨rfl, rfl, rfl, fun _ h => h⟩
  trans _ _ _ h h' := ⟨h'.count.trans h.count, h'.reads.trans h.reads, h'.writes.trans h.writes,
    fun id hid => h'.holds id (h.holds id hid)⟩

namespace DiskM

variable {α : Type}

/-- The action leaves the size of the device and the pattern of faults as they are, and never reports that
writing is denied. -/
abbrev Tame (x : DiskM α) : Prop := Confined Disk.Kept (· ≠ .writeDenied) x

theorem device_ne_denied (e : DeviceError) : Error.device e ≠ .writeDenied := by
  intro h
  cases h

/-- Reading takes no notice of how writes fail. -/
theorem readBlock_early (id : Nat) (s : Disk) : Early (readBlock id) s where
  le := by
    show s.faults.writesSeen ≤ (outcome (readBlock id) s).2.faults.writesSeen
    rw [(outcome_readBlock id s).2.2]
  same k _ := by
    obtain ⟨device, ⟨read, write, reads, writes⟩⟩ := s
    simp only [outcome, readBlock, ofDevice, Disk.read, worn, Faults.worn]
    by_cases hf : read reads id = true
    · simp only [hf, ↓reduceIte]
    · simp only [hf]
      cases Device.read id blockSize device <;> rfl

/-- A write that is tried before the disk wears out fails or not as it would otherwise. -/
theorem writeBlock_early (id : Nat) (b : Block) (s : Disk) : Early (writeBlock id b) s := by
  have htried : tried (outcome (writeBlock id b) s).2 = s.faults.writesSeen + 1 := by
    rw [outcome_writeBlock]
    dsimp only
    split <;> rfl
  refine ⟨htried ▸ Nat.le_succ _, fun k hk => ?_⟩
  have hfault : (s.faults.worn k).write s.faults.writesSeen id = s.faults.write s.faults.writesSeen id := by
    rw [htried] at hk
    simp only [Faults.worn, decide_eq_false (Nat.not_le.2 hk), Bool.or_false]
  rw [outcome_writeBlock, outcome_writeBlock]
  show (if (s.faults.worn k).write s.faults.writesSeen id = true then _ else _) = _
  rw [hfault]
  split <;> rfl

theorem readBlock_tame (id : Nat) : Tame (readBlock id) := by
  intro s
  suffices h : s.Kept (outcome (readBlock id) s).2 ∧
      ∀ e, (outcome (readBlock id) s).1 = .error e → e ≠ .writeDenied from
    ⟨h.1, h.2, readBlock_early id s⟩
  obtain ⟨device, ⟨read, write, reads, writes⟩⟩ := s
  simp only [outcome, readBlock, ofDevice, Disk.read]
  by_cases hf : read reads id = true
  · rw [if_pos hf]
    exact ⟨⟨rfl, rfl, rfl, fun _ h => h⟩, fun e he => by cases he; exact device_ne_denied _⟩
  · rw [if_neg hf]
    cases hd : Device.read id blockSize device with
    | ok b device' =>
      -- Reading a block only counts the access.
      obtain ⟨-, hblocks, hmedium, -⟩ := Device.read_ok hd
      refine ⟨⟨congrArg Array.size hblocks, rfl, rfl, fun other h => ?_⟩, fun e he => by cases he⟩
      simpa only [Device.holds, hmedium] using h
    | error e device' =>
      obtain rfl := Device.read_error hd
      exact ⟨⟨rfl, rfl, rfl, fun _ h => h⟩, fun e he => by cases he; exact device_ne_denied _⟩

/-- A write changes a block or reports a fault of the device. Nothing else is touched. -/
theorem writeBlock_tame (id : Nat) (b : Block) : Tame (writeBlock id b) := by
  intro s
  suffices h : s.Kept (outcome (writeBlock id b) s).2 ∧
      ∀ e, (outcome (writeBlock id b) s).1 = .error e → e ≠ .writeDenied from
    ⟨h.1, h.2, writeBlock_early id b s⟩
  obtain ⟨device, ⟨read, write, reads, writes⟩⟩ := s
  simp only [outcome, writeBlock, ofDevice, Disk.write]
  -- A write that is refused leaves the device as it was. Any other is the device's own.
  by_cases hf : write writes id = true
  · rw [if_pos hf]
    exact ⟨⟨rfl, rfl, rfl, fun _ h => h⟩, fun e he => by cases he; exact device_ne_denied _⟩
  · rw [if_neg hf]
    cases hd : Device.write id b.bytes device with
    | ok u device' =>
      exact ⟨⟨Device.blockCount_write hd, rfl, rfl, Device.holds_write hd⟩, fun e he => by cases he⟩
    | error e device' =>
      obtain rfl := Device.write_error hd
      exact ⟨⟨rfl, rfl, rfl, fun _ h => h⟩, fun e he => by cases he; exact device_ne_denied _⟩

theorem blockCount_tame : Tame blockCount := fun disk =>
  ⟨refl_of Disk.Kept disk, nofun, Nat.le_refl _, fun _ _ => rfl⟩

end DiskM

open DiskM (Tame)

/-! ## The space map -/

namespace SpaceMap

theorem load_tame (k : Nat) : Tame (load k) := DiskM.readBlock_tame _

theorem store_tame (k : Nat) (b : Block) : Tame (store k b) := DiskM.writeBlock_tame _ b

theorem findFrom_tame (m : SpaceMap) (count k run left : Nat) : Tame (m.findFrom count k run left) := by
  induction left generalizing k run with
  | zero => exact .pure none
  | succ left ih =>
    refine (load_tame k).bind fun b => ?_
    split
    · exact .pure _
    · exact ih _ _

theorem turnPiece_tame (value : Bool) {keep : Nat → Block → DiskM Unit} (hkeep : ∀ k b, Tame (keep k b))
    (p : Piece) : Tame (turnPiece value keep p) := by
  refine (load_tame p.cell).bind fun b => ?_
  split
  · exact .throw nofun
  · exact hkeep _ _

theorem setRange_tame (m : SpaceMap) (start count : Nat) (value : Bool) :
    Tame (m.setRange start count value) := by
  unfold setRange
  refine .checkBind nofun ?_
  exact (Confined.forM (turnPiece_tame value fun _ _ => .pure ()) _).bind fun _ =>
    .forM (turnPiece_tame value store_tame) _

theorem allocate_tame (m : SpaceMap) (count : Nat) : Tame (m.allocate count) := by
  refine (findFrom_tame m count 0 0 _).bind fun found => ?_
  cases found with
  | none => exact .throw nofun
  | some start => exact (setRange_tame m start count true).bind fun _ => .pure _

theorem release_tame (m : SpaceMap) (first : UInt32) (count : Nat) : Tame (m.release first count) :=
  setRange_tame m _ count false

theorem isFree_tame (id : UInt32) : Tame (isFree id) := (load_tame _).bind fun _ => .pure _

theorem countUsed_tame (m : SpaceMap) : Tame m.countUsed :=
  .foldlM (fun _ k => (load_tame k).bind fun _ => .pure _) _ _

theorem ofDevice_tame : Tame ofDevice := DiskM.blockCount_tame.bind fun _ => .pure _

theorem format_tame : Tame format := by
  refine ofDevice_tame.bind fun m => .checkBind nofun ?_
  refine (Confined.forM (fun k => store_tame k .zero) _).bind fun _ => ?_
  exact (setRange_tame m 0 1 true).bind fun _ => (setRange_tame m _ _ true).bind fun _ => .pure m

/-! ## Taking and giving back several blocks -/

/-- As `Tame`, for an action whose failures come with the blocks that it has taken. -/
theorem takeZeroed_confined (m : SpaceMap) (taken : List UInt32) (n : Nat) :
    Confined Disk.Kept (fun e => e.1 ≠ .writeDenied) (m.takeZeroed taken n) := by
  induction n generalizing taken with
  | zero => exact .pure _
  | succ n ih =>
    refine (allocate_tame m 1).attemptBind fun r hr => ?_
    cases r with
    | error e => exact .throw (hr e rfl)
    | ok b =>
      refine (DiskM.writeBlock_tame b.toNat .zero).attemptBind fun r hr => ?_
      cases r with
      | error e => exact .throw (hr e rfl)
      | ok u => exact ih _

/-- The first failure stands, so it is enough that none of them is a denial. -/
theorem releaseEach_tame (m : SpaceMap) (blocks : List UInt32) : Tame (m.releaseEach blocks) := by
  have hrest (l : List UInt32) (r : Except Error Unit) (hr : ∀ e, r = .error e → e ≠ .writeDenied) :
      Tame (l.foldlM (fun r b => do
        let released ← attempt (m.release b 1)
        pure (r *> released)) r >>= resume) := by
    -- What has come of the blocks before is carried along.
    induction l generalizing r with
    | nil => exact .resume hr
    | cons b l ih =>
      rw [List.foldlM_cons]
      simp only [bind_assoc, pure_bind]
      refine (release_tame m b 1).attemptBind fun released hreleased => ih _ fun e he => ?_
      cases r with
      | error e' => exact hr e he
      | ok u => exact hreleased e he
  exact hrest blocks _ nofun

theorem discardEach_tame (m : SpaceMap) (blocks : List UInt32) : Tame (m.discardEach blocks) :=
  (releaseEach_tame m blocks).attemptBind fun _ _ => .pure ()

theorem allocateZeroed_tame (m : SpaceMap) (n : Nat) : Tame (m.allocateZeroed n) := by
  refine (takeZeroed_confined m [] n).attemptBind fun r hr => ?_
  cases r with
  | ok blocks => exact .pure _
  | error e => exact (discardEach_tame m _).bind fun _ => .throw (hr e rfl)

end SpaceMap

/-! ## Extending an index -/

namespace Growth

variable {α : Type}

/-- The disk of the one is as good as that of the other. -/
def Kept (g g' : Growth) : Prop := g.disk.Kept g'.disk

instance : IsPreorder Growth Growth.Kept where
  refl g := refl_of Disk.Kept g.disk
  trans _ _ _ h h' := trans_of Disk.Kept h h'

instance : Wears Growth where
  tried g := tried g.disk
  worn k g := { g with disk := worn k g.disk }

/-- As `DiskM.Tame`, for steps of extending an index. -/
abbrev Tame (x : GrowthM α) : Prop := Confined Growth.Kept (· ≠ .writeDenied) x

theorem outcome_onDisk (x : DiskM α) (g : Growth) : outcome (onDisk x) g =
    ((outcome x g.disk).1, { g with disk := (outcome x g.disk).2 }) := by
  simp only [outcome, onDisk]
  cases x g.disk <;> rfl

/-- Work on the disk is as tame inside a growth. -/
theorem onDisk_tame {x : DiskM α} (hx : DiskM.Tame x) : Tame (onDisk x) := by
  intro g
  obtain ⟨hkept, hreported, hearly⟩ := hx g.disk
  refine ⟨?_, ?_, ?_, fun k hk => ?_⟩
  · rwa [outcome_onDisk]
  · rwa [outcome_onDisk]
  · rw [outcome_onDisk]
    exact hearly.le
  · rw [outcome_onDisk] at hk ⊢
    rw [outcome_onDisk, show (worn k g).disk = worn k g.disk from rfl, hearly.same k hk]
    rfl

theorem next_tame : Tame next := by
  rintro ⟨disk, record, supply⟩
  cases supply with
  | nil => exact ⟨refl_of Disk.Kept disk, fun e he => by cases he; exact nofun, Nat.le_refl _, fun _ _ => rfl⟩
  | cons b rest => exact ⟨refl_of Disk.Kept disk, nofun, Nat.le_refl _, fun _ _ => rfl⟩

theorem change_tame (f : Record → Record) : Tame (change f) :=
  fun g => ⟨refl_of Disk.Kept g.disk, nofun, Nat.le_refl _, fun _ _ => rfl⟩

theorem current_tame : Tame current :=
  fun g => ⟨refl_of Disk.Kept g.disk, nofun, Nat.le_refl _, fun _ _ => rfl⟩

theorem fillDirect_tame (i n : Nat) : Tame (fillDirect i n) := by
  induction n generalizing i with
  | zero => exact .pure ()
  | succ n ih => exact next_tame.bind fun _ => (change_tame _).bind fun _ => ih _

theorem fillTable_tame (table : Block) (i n : Nat) : Tame (fillTable table i n) := by
  induction n generalizing table i with
  | zero => exact .pure table
  | succ n ih => exact next_tame.bind fun _ => ih _ _

theorem write_tame (f : Record → UInt32) (table : Block) :
    Tame (do onDisk (DiskM.writeBlock (f (← current)).toNat table)) :=
  current_tame.bind fun _ => onDisk_tame (DiskM.writeBlock_tame _ _)

theorem extendSingle_tame (first last : Nat) : Tame (extendSingle first last) := by
  -- A new table and one that is there are filled and written in the same way.
  have hrest (table : Block) : Tame (do
      let table ← fillTable table (first - directCount) (min last singleReach - first)
      onDisk (DiskM.writeBlock (← current).single.toNat table)) :=
    (fillTable_tame _ _ _).bind fun _ => write_tame Record.single _
  unfold extendSingle
  split
  · exact next_tame.bind fun _ => (change_tame _).bind fun _ => hrest _
  · exact current_tame.bind fun r => (onDisk_tame (DiskM.readBlock_tame _)).bind hrest

theorem extendInner_tame (outer : Block) (p : Piece) : Tame (extendInner outer p) := by
  have hrest (outer : Block) (id : UInt32) (table : Block) : Tame (do
      let table ← fillTable table p.start p.size
      onDisk (DiskM.writeBlock id.toNat table)
      pure outer) :=
    (fillTable_tame _ _ _).bind fun _ => (onDisk_tame (DiskM.writeBlock_tame _ _)).bind fun _ => .pure _
  unfold extendInner
  split
  · exact next_tame.bind fun _ => hrest _ _ _
  · exact (onDisk_tame (DiskM.readBlock_tame _)).bind fun _ => hrest _ _ _

theorem extendDouble_tame (first last : Nat) : Tame (extendDouble first last) := by
  have hrest (outer : Block) : Tame (do
      let outer ← (pieces blockWords (first - singleReach) (last - first)).foldlM extendInner outer
      onDisk (DiskM.writeBlock (← current).double.toNat outer)) :=
    (Confined.foldlM extendInner_tame _ _).bind fun _ => write_tame Record.double _
  unfold extendDouble
  split
  · exact next_tame.bind fun _ => (change_tame _).bind fun _ => hrest _
  · exact current_tame.bind fun r => (onDisk_tame (DiskM.readBlock_tame _)).bind hrest

theorem extend_tame (first last : Nat) : Tame (extend first last) := by
  have hdouble (first : Nat) : Tame (if first = last then pure () else extendDouble first last) := by
    split
    · exact .pure ()
    · exact extendDouble_tame _ _
  unfold extend
  refine .checkBind nofun ((fillDirect_tame _ _).bind fun _ => ?_)
  dsimp only
  split
  · exact .pure ()
  · split
    · exact (extendSingle_tame _ _).bind fun _ => hdouble _
    · exact hdouble _

end Growth

/-! ## Records -/

namespace Record

theorem store_tame (id : UInt32) (r : Record) : Tame (r.store id) := DiskM.writeBlock_tame _ _

theorem load_tame (id : UInt32) : Tame (load id) := by
  refine (DiskM.readBlock_tame _).bind fun b => .resume fun e he => ?_
  unfold decode at he
  split at he
  · cases he
  · cases he
    exact nofun

theorem outcome_expanded (r : Record) (size : Nat) (supply : List UInt32) (disk : Disk) :
    outcome (r.expanded size supply) disk =
      (let (res, g) := outcome (Growth.extend (dataBlocks r.length.toNat) (dataBlocks size)) ⟨disk, r, supply⟩
       (res.map fun _ => { g.record with length := .ofNat size }, g.disk)) := by
  simp only [outcome, expanded, expand]
  cases Growth.extend (dataBlocks r.length.toNat) (dataBlocks size) ⟨disk, r, supply⟩ <;> rfl

/-- Growing a record is a run of its own state, which holds the disk. What it keeps of the disk is kept. -/
theorem expanded_tame (r : Record) (size : Nat) (supply : List UInt32) : Tame (r.expanded size supply) := by
  intro disk
  obtain ⟨hkept, hreported, hearly⟩ :=
    Growth.extend_tame (dataBlocks r.length.toNat) (dataBlocks size) ⟨disk, r, supply⟩
  refine ⟨?_, fun e he => hreported e ?_, ?_, fun k hk => ?_⟩
  · rw [outcome_expanded]
    exact hkept
  · rw [outcome_expanded] at he
    dsimp only at he
    generalize (outcome (Growth.extend _ _) _).1 = res at he ⊢
    cases res with
    | ok u => cases he
    | error e =>
      cases he
      rfl
  · rw [outcome_expanded]
    exact hearly.le
  · rw [outcome_expanded] at hk ⊢
    rw [outcome_expanded, show (⟨worn k disk, r, supply⟩ : Growth) = worn k ⟨disk, r, supply⟩ from rfl,
      hearly.same k hk]
    rfl

/-- Extending a record and storing it is tame. -/
theorem extendStored_tame (m : SpaceMap) (id : UInt32) (r : Record) (size count : Nat) :
    Tame (r.extendStored m id size count) := by
  refine (m.allocateZeroed_tame count).bind fun fresh => ?_
  have hextended : Tame (do
      let grown ← r.expanded size fresh
      grown.store id
      pure grown) :=
    (expanded_tame r size fresh).bind fun grown => (store_tame id grown).bind fun _ => .pure _
  refine hextended.attemptBind fun res hres => ?_
  -- The error that is handed on after the blocks have been given back is the one that was met.
  cases res with
  | ok grown => exact .pure _
  | error e => exact (m.discardEach_tame fresh).bind fun _ => .throw (hres e rfl)

theorem create_tame (m : SpaceMap) (id : UInt32) (size : Nat) (isDirectory : Bool) :
    Tame (create m id size isDirectory) := by
  unfold create
  refine .checkBind nofun ?_
  exact (extendStored_tame m id _ _ _).bind fun _ => .pure _

theorem grow_tame (m : SpaceMap) (id : UInt32) (r : Record) (target : Nat) : Tame (r.grow m id target) := by
  unfold grow
  refine .checkBind nofun ?_
  split
  · exact .pure _
  · exact extendStored_tame m id r _ _

theorem tableBlocks_tame (id : UInt32) (n : Nat) : Tame (tableBlocks id n) :=
  (DiskM.readBlock_tame _).bind fun _ => .pure _

theorem doubleBlocks_tame (id : UInt32) (n : Nat) : Tame (doubleBlocks id n) :=
  (DiskM.readBlock_tame _).bind fun _ =>
    (Confined.mapM (fun _ => tableBlocks_tame _ _) _).bind fun _ => .pure _

theorem ownedBlocks_tame (r : Record) : Tame r.ownedBlocks := by
  -- The index of the third tier is read last, whether or not the second was.
  have hdouble (direct single : List UInt32) (count : Nat) : Tame (do
      let double ←
        if singleReach < count then doubleBlocks r.double (count - singleReach)
        else pure []
      pure (direct ++ single ++ double)) := by
    split
    · exact (doubleBlocks_tame _ _).bind fun _ => .pure _
    · exact .pure _
  unfold ownedBlocks
  dsimp only
  split
  · exact (tableBlocks_tame _ _).bind fun _ => hdouble _ _ _
  · exact hdouble _ _ _

theorem truncate_tame (id : UInt32) (r : Record) : Tame (truncate id r) :=
  ((ownedBlocks_tame r).bind fun _ => .pure _).bind fun _ => (store_tame id _).bind fun _ => .pure _

theorem dissolve_tame (m : SpaceMap) (id : UInt32) (r : Record) : Tame (r.dissolve m id) := by
  refine (ownedBlocks_tame r).bind fun blocks => ?_
  refine (m.releaseEach_tame blocks).attemptBind fun contents hcontents => ?_
  exact (m.release_tame id 1).bind fun _ => .resume hcontents

/-! ## Contents -/

theorem blockAt_tame (r : Record) (i : Nat) : Tame (r.blockAt i) := by
  -- A direct block needs no read. The second tier takes one read, the third two.
  unfold blockAt
  split
  · exact .pure _
  split
  · split
    · exact .pure _
    · exact (DiskM.readBlock_tame _).bind fun _ => .pure _
  split
  · split
    · exact .pure _
    · refine (DiskM.readBlock_tame _).bind fun outer => ?_
      dsimp only
      split
      · exact .pure _
      · exact (DiskM.readBlock_tame _).bind fun _ => .pure _
  · exact .throw nofun

theorem readPiece_tame (r : Record) (p : Piece) : Tame (r.readPiece p) := by
  refine (blockAt_tame r _).bind fun id => ?_
  split
  · exact .pure _
  · exact (DiskM.readBlock_tame _).bind fun _ => .pure _

theorem underPiece_tame (r : Record) (id : UInt32) (p : Piece) : Tame (r.underPiece id p) := by
  unfold underPiece
  split
  · exact .pure _
  split
  · exact DiskM.readBlock_tame _
  · exact .pure _

theorem writePiece_tame (r : Record) (p : Piece) (data : ByteArray) : Tame (r.writePiece p data) := by
  refine (blockAt_tame r _).bind fun id => ?_
  refine .checkBind nofun ?_
  exact (underPiece_tame r id p).bind fun _ => DiskM.writeBlock_tame _ _

end Record

/-! ## Actions that cannot fail -/

/-- As `DiskM.Tame`, for an action that cannot fail. -/
def DiskAction.Tame {α : Type} (x : DiskAction α) : Prop := DiskM.Tame (DiskM.ofAction x)

namespace DiskAction.Tame

variable {α β : Type} {x : DiskAction α} {f : α → DiskAction β}

theorem pure (v : α) : DiskAction.Tame (pure v : DiskAction α) := Confined.pure v

theorem bind (hx : DiskAction.Tame x) (hf : ∀ v, DiskAction.Tame (f v)) : DiskAction.Tame (x >>= f) :=
  Confined.bind hx hf

end DiskAction.Tame

namespace Record

theorem readPieces_tame (r : Record) (found : ByteArray) (ps : List Piece) :
    DiskAction.Tame (r.readPieces found ps) := by
  induction ps generalizing found with
  | nil => exact .pure found
  | cons p ps ih =>
    rw [DiskAction.Tame, DiskM.ofAction_readPieces_cons]
    refine (readPiece_tame r p).attemptBind fun res _ => ?_
    cases res with
    | ok bytes => exact ih _
    | error e => exact .pure _

theorem writePieces_tame (r : Record) (data : ByteArray) (done : Nat) (ps : List Piece) :
    DiskAction.Tame (r.writePieces data done ps) := by
  induction ps generalizing done with
  | nil => exact .pure done
  | cons p ps ih =>
    rw [DiskAction.Tame, DiskM.ofAction_writePieces_cons]
    refine (writePiece_tame r p _).attemptBind fun res _ => ?_
    cases res with
    | ok u => exact ih _
    | error e => exact .pure _

theorem read_tame (r : Record) (offset count : Nat) : DiskAction.Tame (r.read offset count) :=
  readPieces_tame r _ _

theorem write_tame (r : Record) (offset : Nat) (data : ByteArray) : DiskAction.Tame (r.write offset data) :=
  writePieces_tame r data 0 _

theorem slotAt_tame (r : Record) (offset : Nat) : DiskAction.Tame (r.slotAt offset) := by
  refine (read_tame r offset slotSize).bind fun bytes => ?_
  split <;> exact .pure _

theorem scanSlots_tame (r : Record) (p : Slot → Bool) (offset n : Nat) :
    DiskAction.Tame (r.scanSlots p offset n) := by
  induction n generalizing offset with
  | zero => exact .pure _
  | succ n ih =>
    refine (slotAt_tame r offset).bind fun slot => ?_
    cases slot with
    | none => exact .pure _
    | some s =>
      dsimp only
      split
      · exact .pure _
      · exact ih _

theorem findSlot_tame (r : Record) (p : Slot → Bool) (offset : Nat) : DiskAction.Tame (r.findSlot p offset) :=
  scanSlots_tame r p offset _

theorem findName_tame (r : Record) (name : String) : DiskAction.Tame (r.findName name) :=
  (findSlot_tame r _ 0).bind fun _ => .pure _

theorem vacancy_tame (r : Record) : DiskAction.Tame r.vacancy := (findSlot_tame r _ 0).bind fun _ => .pure _

theorem hasEntries_tame (r : Record) : DiskAction.Tame r.hasEntries :=
  (findSlot_tame r _ 0).bind fun _ => .pure _

end Record

end InodeVolume
