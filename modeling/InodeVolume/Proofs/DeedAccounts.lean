import InodeVolume.Proofs.Deeds

/-!
# Accounts of deeds

As requests do, deeds leave the registry counting the handles that are open after them, whatever is on the disk
and whichever accesses fail, as long as no inode is made to deny writing by itself (`Deed.act_balances`). They
may break a rule that has nothing to do with openers: a count of free blocks may find too many bits set, and a
table may be asked for that is too long.
-/

namespace InodeVolume

-- `^` on numbers is that of the core library, whatever else is known of them.
attribute [local instance (high)] instPowNat

/-! ## What an action can answer -/

section Gives

variable {ε σ α β A : Type} {x : EStateM ε σ α} {f : α → EStateM ε σ β} {P : α → Prop} {Q : β → Prop}

/-- Whatever the action answers, `P` holds of it. -/
def Gives (x : EStateM ε σ α) (P : α → Prop) : Prop := ∀ s v s', x s = .ok v s' → P v

theorem Gives.any (x : EStateM ε σ α) : Gives x fun _ => True := fun _ _ _ _ => trivial

theorem Gives.pure {v : α} (h : P v) : Gives (pure v : EStateM ε σ α) P := fun _ _ _ hr => by
  cases hr
  exact h

theorem Gives.throw {e : ε} : Gives (throw e : EStateM ε σ α) P := fun _ _ _ hr => by cases hr

theorem Gives.bind (hx : Gives x P) (hf : ∀ v, P v → Gives (f v) Q) : Gives (x >>= f) Q := by
  intro s w s' h
  simp only [Bind.bind, EStateM.bind] at h
  split at h
  · rename_i hr
    exact hf _ (hx _ _ _ hr) _ _ _ h
  · cases h

/-- What is answered last is all that counts. -/
theorem Gives.last (hf : ∀ v, Gives (f v) Q) : Gives (x >>= f) Q := (Gives.any x).bind fun v _ => hf v

theorem Leads.gives {R : A → σ → Prop} {a : A} {post : Except ε α → A → Prop} (h : Leads R a x post)
    (hx : Gives x P) : Leads R a x fun r b => post r b ∧ ∀ v, r = .ok v → P v := by
  intro s hs
  rcases h.run hs with ⟨v, s', b, hr, hb, hpost⟩ | ⟨e, s', b, hr, hb, hpost⟩
  · rw [hr]
    exact ⟨b, hb, hpost, fun w hw => by cases hw; exact hx _ _ _ hr⟩
  · rw [hr]
    exact ⟨b, hb, hpost, fun w hw => by cases hw⟩

end Gives

theorem Directory.readNext_gives (d : Directory) : Gives d.readNext fun w => w.2.inode = d.inode := by
  refine Gives.last fun found => ?_
  dsimp only
  split
  · exact .pure rfl
  · exact .pure rfl

/-- Listing names moves a directory, and it stays one of the same inode. -/
theorem Directory.readNames_gives (d : Directory) (n : Nat) :
    Gives (d.readNames n) fun w => w.2.inode = d.inode := by
  induction n generalizing d with
  | zero => exact .pure rfl
  | succ n ih =>
    refine (readNext_gives d).bind ?_
    rintro ⟨name, d'⟩ hd
    cases name with
    | none => exact .pure hd
    | some name => exact (ih d').bind fun _ hw => .pure (hw.trans hd)

/-! ## Rules that have nothing to do with openers -/

/-- The rule is one of opening, closing and denying. -/
def Misuse.OfOpeners : Misuse → Prop
  | .notOpen | .deniedTooOften | .allowedTooOften => True
  | _ => False

section Balances

variable {α β : Type} {handles : List Handle} {A : Tally fun _ => False}

/-- No rule of opening, closing and denying was broken. -/
def Fair (res : Except Stop α) : Prop := ∀ rule, res = .error (.misused rule) → ¬rule.OfOpeners

theorem fair_ok {v : α} : Fair (.ok v : Except Stop α) := fun _ h => by cases h

theorem Fair.of_error {e : Stop} (h : Fair (.error e : Except Stop α)) : Fair (.error e : Except Stop β) :=
  fun rule hr => h rule (by cases hr; rfl)

theorem Ruly.fair {res : Except Stop α} (h : Ruly res) : Fair res := fun rule hr => by
  rw [h rule hr]
  exact id

/-- As `Accounts`, where a rule that has nothing to do with openers may be broken. -/
def Balances (handles : List Handle) (res : Except Stop (α × List Handle)) (B : Tally fun _ => False) : Prop :=
  Fair res ∧ B.hold = holding (Request.kept handles res)

theorem Leads.balances {x : VolumeM (α × List Handle)} (h : Leads Counts A x (Accounts handles)) :
    Leads Counts A x (Balances handles) :=
  Leads.mono h fun _ _ hr => ⟨hr.1.fair, hr.2⟩

/-- Another answer makes no difference. -/
theorem Leads.balances_map {x : VolumeM (α × List Handle)} (h : Leads Counts A x (Balances handles)) (g : α → β) :
    Leads Counts A (x >>= fun p => Pure.pure (g p.1, p.2)) (Balances handles) := by
  refine Leads.bind h ?_ fun e B hB => ⟨hB.1.of_error, hB.2⟩
  rintro ⟨a, handles'⟩ B ⟨-, hB⟩
  exact Leads.pure ⟨fair_ok, hB⟩

/-- An action that opens and closes nothing, after which every inode has as many openers. -/
theorem Settles.balances {x : VolumeM α} {P : α → Prop} (hA : A.hold = holding handles) (hx : Keeps A x)
    (hP : Gives x P) (g : α → β × List Handle) (hg : ∀ v, P v → holding (g v).2 = holding handles) :
    Leads Counts A (x >>= fun v => Pure.pure (g v)) (Balances handles) := by
  refine Leads.bind (Leads.gives hx hP) ?_ ?_
  · rintro v B ⟨⟨-, rfl⟩, hv⟩
    exact Leads.pure ⟨fair_ok, hA.trans (hg v (hv v rfl)).symm⟩
  · rintro e B ⟨⟨hs, rfl⟩, -⟩
    exact ⟨(Ruly.of_sober (sober_error hs)).fair, hA⟩

/-- An action that opens and closes nothing and only answers something. -/
theorem Settles.answers {x : VolumeM α} (hA : A.hold = holding handles) (hx : Keeps A x) (g : α → β) :
    Leads Counts A (x >>= fun v => Pure.pure (g v, handles)) (Balances handles) :=
  hx.balances hA (Gives.any x) (fun v => (g v, handles)) fun _ _ => rfl

theorem absent_balances (hA : A.hold = holding handles) (b : β) :
    Leads Counts A (Pure.pure (b, handles)) (Balances handles) :=
  (absent_accounts hA b).balances

/-- A rule that has nothing to do with openers may be broken before anything has happened. -/
theorem misuse_balances (hA : A.hold = holding handles) {rule : Misuse} (h : ¬rule.OfOpeners)
    {f : α → VolumeM (β × List Handle)} :
    Leads Counts A (VolumeM.misuse rule >>= f) (Balances handles) :=
  Leads.throwBind ⟨fun rule' hr => by cases hr; exact h, hA⟩

end Balances

/-! ## Questions -/

section Questions

variable {marked : UInt32 → Prop} {A : Tally marked} {i : Inode}

theorem Inode.blockOf_keeps (h : A.Open i.number) (position : Nat) : Keeps A (i.blockOf position) := by
  refine (entry_keeps h).bind fun node => ?_
  dsimp only
  split
  · exact .pure rfl
  · exact (onDisk_keeps _).attemptBind (fun _ => .pure rfl) fun _ => .pure rfl

theorem infoOf_keeps (h : A.Open i.number) : Keeps A (Session.infoOf i) :=
  (Inode.entry_keeps h).bind fun _ => ((Inode.entry_keeps h).bind fun _ => .pure rfl).bind fun _ => .pure rfl

theorem Directory.readNext_keeps {d : Directory} (h : A.Open d.inode.number) : Keeps A d.readNext := by
  refine (search_keeps h _).bind fun found => ?_
  dsimp only
  split
  · exact .pure rfl
  · exact .pure rfl

/-- Reading names off an open directory leaves every count as it was. -/
theorem Directory.readNames_keeps {d : Directory} (h : A.Open d.inode.number) (n : Nat) :
    Keeps A (d.readNames n) := by
  induction n generalizing d with
  | zero => exact .pure rfl
  | succ n ih =>
    refine Leads.bind (Leads.gives (readNext_keeps h) (readNext_gives d)) ?_ ?_
    · rintro ⟨name, d'⟩ B ⟨⟨-, rfl⟩, hd⟩
      cases name with
      | none => exact Settles.pure rfl
      | some name => exact (ih (by rw [hd _ rfl]; exact h)).bind fun _ => .pure rfl
    · rintro e B ⟨⟨hs, rfl⟩, -⟩
      exact ⟨sober_error hs, rfl⟩

end Questions

/-! ## Operations and deeds -/

section Deeds

variable {handles : List Handle} {A : Tally fun _ => False}

theorem Operation.onTarget_balances {h : Nat} {f : Inode → VolumeM Report} (hA : A.hold = holding handles)
    (hf : ∀ i, A.Open i.number → Keeps A (f i)) : Leads Counts A (onTarget handles h f) (Balances handles) := by
  unfold onTarget
  split
  · rename_i x hx
    exact (hf x.target (Tally.open_of_handle hA hx)).answers hA id
  · exact absent_balances hA _

/-- Every operation but denying by an inode itself leaves the openers of the handles. -/
theorem Operation.act_balances (hA : A.hold = holding handles) (op : Operation)
    (hop : ∀ h, op ≠ .denyWrite h ∧ op ≠ .allowWrite h) :
    Leads Counts A (op.act handles) (Balances handles) := by
  cases op with
  | call q => exact (Call.act_counts hA q fun _ _ _ => False.elim).balances.balances_map Report.answer
  | markRemoved h => exact onTarget_balances hA fun i hi => (Inode.markRemoved_keeps hi).bind fun _ => .pure rfl
  | denyWrite h => exact absurd rfl (hop h).1
  | allowWrite h => exact absurd rfl (hop h).2
  | asFile h =>
    rw [act]
    split
    · rename_i i hx
      exact Leads.pure ⟨fair_ok, hA.trans (holding_set_same (y := .file (.ofInode i)) hx rfl rfl).symm⟩
    · exact absent_balances hA _
  | inspect h =>
    rw [act]
    exact onTarget_balances hA fun i hi => (infoOf_keeps hi).bind fun _ => .pure rfl
  | locate h position =>
    rw [act]
    exact onTarget_balances hA fun i hi => (Inode.blockOf_keeps hi position).bind fun _ => .pure rfl
  | tell h =>
    rw [act]
    split
    · exact absent_balances hA _
    · exact absent_balances hA _
  | countFree =>
    have hused : Keeps A (VolumeM.onDisk fun m => do pure (m.bits, ← m.countUsed)) := onDisk_keeps _
    simp only [act, VolumeM.freeCount, bind_assoc]
    refine Leads.bind hused ?_ fun e B hB => ⟨(Ruly.of_sober (sober_error hB.1)).fair, hB.2 ▸ hA⟩
    rintro ⟨bits, used⟩ B ⟨-, rfl⟩
    dsimp only
    split
    · rw [pure_bind]
      exact absent_balances hA _
    · -- More bits are set than there are blocks.
      exact misuse_balances hA id

theorem Deed.onDirectory_balances {h : Nat} {f : Directory → VolumeM (Finding × List Handle)}
    (hA : A.hold = holding handles)
    (hf : ∀ d, handles[h]? = some (.directory d) → A.Open d.inode.number →
      Leads Counts A (f d) (Balances handles)) :
    Leads Counts A (onDirectory handles h f) (Balances handles) := by
  unfold onDirectory
  split
  · rename_i d hx
    exact hf d hx (Tally.open_of_handle hA hx)
  · exact absent_balances hA _

/-- Writing is only denied by files, not by inodes themselves. -/
def Deed.ByFiles : Deed → Prop
  | .operation (.denyWrite _) | .operation (.allowWrite _) => False
  | _ => True

/-- Every such deed leaves the openers of the handles that are open after it. -/
theorem Deed.act_balances (hA : A.hold = holding handles) (d : Deed) (hd : d.ByFiles) :
    Leads Counts A (d.act handles) (Balances handles) := by
  cases d with
  | request r => exact (Request.act_counts hA r fun _ _ _ => False.elim).balances.balances_map Finding.response
  | operation op =>
    refine (op.act_balances hA fun h => ⟨?_, ?_⟩).balances_map Finding.report
    · rintro rfl
      exact hd
    · rintro rfl
      exact hd
  | acquire number =>
    exact (((Inode.acquire_hands number).handsOut Handle.inode (fun _ => rfl) fun _ => rfl).accounts hA
      fun _ => Finding.done).balances
  | openRoot =>
    exact ((Directory.openRoot_hands.handsOut Handle.directory (fun _ => rfl) fun _ => rfl).accounts hA
      fun _ => Finding.done).balances
  | storeInode number size isDirectory =>
    have hstored : Keeps A (Inode.create number size isDirectory) := onDisk_keeps _
    exact hstored.answers hA fun _ => Finding.done
  | storeDirectory number slots =>
    rw [act]
    by_cases hlong : 2 ^ (64 : Nat) ≤ slots * slotSize
    · rw [Directory.create, if_pos hlong]
      exact misuse_balances hA id
    · exact (Directory.create_keeps number (Nat.lt_of_not_le hlong)).answers hA fun _ => Finding.done
  | link h name number =>
    exact onDirectory_balances hA fun d _ hopen => (Directory.add_keeps hopen name number).answers hA fun _ => Finding.done
  | unlink h name =>
    exact onDirectory_balances hA fun d _ hopen => (Directory.remove_keeps hopen name).answers hA fun _ => Finding.done
  | isEmpty h =>
    exact onDirectory_balances hA fun d _ hopen => (Directory.isEmpty_keeps hopen).answers hA Finding.flag
  | names h limit =>
    refine onDirectory_balances hA fun d hx hopen => ?_
    have hnames : Keeps A (d.names limit) := (Inode.entry_keeps hopen).bind fun _ => d.readNames_keeps hopen _
    -- The directory is put back where it was, moved on.
    refine hnames.balances hA (Gives.last fun _ => d.readNames_gives _)
      (fun w => (Finding.names w.1, handles.set h (.directory w.2))) fun w hw => ?_
    exact holding_set_same hx hw rfl
  | allocate count => exact (onDisk_keeps _).answers hA Finding.number
  | release first count => exact (onDisk_keeps _).answers hA fun _ => Finding.done
  | isFree id => exact (onDisk_keeps _).answers hA Finding.flag

end Deeds

end InodeVolume
