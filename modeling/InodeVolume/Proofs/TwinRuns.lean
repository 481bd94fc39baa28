import InodeVolume.Proofs.Operations
import InodeVolume.Proofs.Remounting
import InodeVolume.Proofs.TwinNames

/-!
# Runs on disks that are alike

Two clients with the same handles, on volumes that are alike, get the same answers to the same operations, and
are alike again after each (`Client.Matched.operate`). So they are after a run of any length
(`Client.Matched.conducts`). What lies in blocks that are not in use never shows.
-/

namespace InodeVolume

open Record

variable {K : Regime} {W : World} {T : Hierarchy} {slot : UInt32 → Nat} {handles : List Handle}
  {id : UInt32} {n : Node} {o : Opening} {i : Nat} {x : Handle}

/-! ## Looking at open inodes -/

namespace Inode

theorem infoOf_mirrored (hK : K.Fits) (hf : ¬K.faulty) (hn : W.pool.nodes id = some n) (ho : W.opens id = some o) :
    Mirrored K W (Session.infoOf ⟨id⟩) fun _ V => V = W := by
  refine .of_yields (v := ⟨⟨id, n.record.isDirectory, n.size, totalBlocks n.size⟩, o.removed, o.openers⟩)
    hK hf W (fun st => ?_) rfl rfl
  have hentry := open_entry_yields (K := K) (W := W.onStore st) hn ho
  exact Yields.bind hentry (Yields.trans (Yields.trans hentry Yields.pure) Yields.pure)

/-- Which block holds a byte is found in the tables of the index, which are in use. -/
theorem blockOf_mirrored (hK : K.Fits) (hf : ¬K.faulty) (hn : W.pool.nodes id = some n) (ho : W.opens id = some o)
    (position : Nat) : Mirrored K W (blockOf ⟨id⟩ position) fun _ V => V = W := by
  refine Mirrored.seek hK hf W (fun st => open_entry_yields (W := W.onStore st) hn ho) rfl ?_
  dsimp only
  -- Behind the end there is no block, which the record tells. Inside, the index is read.
  by_cases hend : n.record.length.toNat ≤ position
  · rw [if_pos hend]
    exact .pure rfl
  rw [if_neg hend]
  have hpiece := piece_lt (Nat.lt_of_not_le hend)
  have hat : Mirrored K W (VolumeM.onDisk fun _ => n.record.blockAt (position / blockSize)) fun r V =>
      r = .ok (n.record.pieceIn W.pool.store.data (position / blockSize)) ∧ V = W :=
    ⟨onDisk_yields (Pool.piece_yields hn hpiece),
      (onDisk_echo (x := fun _ => n.record.blockAt (position / blockSize))
        (Pool.blockAt_twins (X := []) hK hf hn (by simp) hpiece)).of_imp fun _ _ h => h.paired⟩
  refine Mirrored.attemptBind hat ?_ ?_ ?_
  · rintro r V ⟨rfl, -⟩
    exact sober_ok
  · rintro b V ⟨-, rfl⟩
    exact .pure rfl
  · rintro e V ⟨he, -⟩
    cases he

/-! ## Denials -/

/-- One denial more, or too many. -/
theorem denyWrite_mirrored (hK : K.Fits) (hf : ¬K.faulty) (hn : W.pool.nodes id = some n)
    (ho : W.opens id = some o) : Mirrored K W (denyWrite ⟨id⟩) fun _ V =>
      ∃ d, V = W.setOpening id (some { o with denials := d }) := by
  by_cases hlt : o.denials < o.openers
  · exact .of_yields hK hf (W.setOpening id (some { o with denials := o.denials + 1 }))
      (fun st => denyWrite_yields (W := W.onStore st) hn ho hlt) rfl ⟨_, rfl⟩
  · refine Mirrored.seek hK hf W (fun st => open_entry_yields (W := W.onStore st) hn ho) rfl ?_
    rw [if_neg hlt]
    exact Mirrored.misuse _ ⟨o.denials, (World.setOpening_same ho).symm⟩

/-- One denial less, unless there is none. -/
theorem allowWrite_mirrored (hK : K.Fits) (hf : ¬K.faulty) (hn : W.pool.nodes id = some n)
    (ho : W.opens id = some o) : Mirrored K W (allowWrite ⟨id⟩) fun _ V =>
      ∃ d, V = W.setOpening id (some { o with denials := d }) := by
  by_cases hd : 0 < o.denials ∧ o.denials ≤ o.openers
  · exact .of_yields hK hf (W.setOpening id (some { o with denials := o.denials - 1 }))
      (fun st => allowWrite_yields (W := W.onStore st) hn ho hd.1 hd.2) rfl ⟨_, rfl⟩
  · refine Mirrored.seek hK hf W (fun st => open_entry_yields (W := W.onStore st) hn ho) rfl ?_
    rw [if_neg hd]
    exact Mirrored.misuse _ ⟨o.denials, (World.setOpening_same ho).symm⟩

end Inode

/-! ## Contents -/

namespace Inode

/-- Contents of a regular file are written, and the tree stays. -/
theorem write_mirrored (hK : K.Fits) (hf : ¬K.faulty) (h : W.Slotted T slot handles)
    (hn : W.pool.nodes id = some n) (ho : W.opens id = some o) (hfile : n.record.isDirectory = false)
    (offset : Nat) (data : ByteArray) :
    Mirrored K W (write ⟨id⟩ offset data) fun _ V => V.Slotted T slot handles := by
  refine Mirrored.mono ⟨write_leads hK hn ho offset data, write_twinned hK hf hn ho offset data⟩ ?_
  rintro res V (⟨-, -, rfl⟩ | ⟨-, -, -, rfl⟩ | ⟨-, -, k, n', -, hb, hwrote⟩ | ⟨-, -, -, e, -, hs, -⟩)
  · exact h
  · exact h
  · exact h.file hb hn hfile hwrote.isDirectory
  · exact h.stays hs

theorem grow_mirrored (hK : K.Fits) (hf : ¬K.faulty) (h : W.Slotted T slot handles)
    (hn : W.pool.nodes id = some n) (ho : W.opens id = some o) (hfile : n.record.isDirectory = false)
    (target : Nat) : Mirrored K W (grow ⟨id⟩ target) fun _ V => V.Slotted T slot handles := by
  refine Mirrored.mono ⟨grow_leads hK hn ho target, grow_twinned hK hf hn ho target⟩ ?_
  rintro res V (⟨n', -, hb, hgrown⟩ | ⟨e, -, hs, -⟩)
  · exact h.file hb hn hfile hgrown.isDirectory
  · exact h.stays hs

theorem clear_mirrored (hK : K.Fits) (hf : ¬K.faulty) (h : W.Slotted T slot handles)
    (hn : W.pool.nodes id = some n) (ho : W.opens id = some o) (hfile : n.record.isDirectory = false) :
    Mirrored K W (clear ⟨id⟩) fun _ V => V.Slotted T slot handles := by
  refine Mirrored.mono ⟨clear_leads hK hn ho, clear_twinned hK hf hn ho⟩ ?_
  rintro res V (⟨-, -, rfl⟩ | ⟨-, n', hb, hdir, -⟩ | ⟨-, -, -, rfl⟩)
  · exact h
  · exact h.file hb hn hfile hdir
  · exact h

theorem read_mirrored (hK : K.Fits) (hf : ¬K.faulty) (hn : W.pool.nodes id = some n)
    (ho : W.opens id = some o) (offset count : Nat) :
    Mirrored K W (read ⟨id⟩ offset count) fun _ V => V = W :=
  .of_yields hK hf W (fun st => read_yields (W := W.onStore st) hn ho offset count) rfl rfl

end Inode

/-! ## Files -/

namespace File

variable {f : File}

/-- A file denies writing once at most. -/
theorem denyWrite_mirrored (hK : K.Fits) (hf : ¬K.faulty) (hn : W.pool.nodes f.inode.number = some n)
    (ho : W.opens f.inode.number = some o) : Mirrored K W f.denyWrite fun r V =>
      (∃ d, V = W.setOpening f.inode.number (some { o with denials := d })) ∧
        ∀ f', r = .ok f' → f'.inode = f.inode := by
  unfold denyWrite
  split
  · exact .pure ⟨⟨o.denials, (World.setOpening_same ho).symm⟩, fun f' h => by cases h; rfl⟩
  · refine Mirrored.bind (Inode.denyWrite_mirrored hK hf hn ho) ?_ ?_
    · exact fun _ V hV => .pure ⟨hV, fun f' h => by cases h; rfl⟩
    · exact fun e V hV => ⟨hV, nofun⟩

/-- A file takes back the denial that is its own. -/
theorem allowWrite_mirrored (hK : K.Fits) (hf : ¬K.faulty) (hn : W.pool.nodes f.inode.number = some n)
    (ho : W.opens f.inode.number = some o) : Mirrored K W f.allowWrite fun r V =>
      (∃ d, V = W.setOpening f.inode.number (some { o with denials := d })) ∧
        ∀ f', r = .ok f' → f'.inode = f.inode := by
  unfold allowWrite
  split
  · refine Mirrored.bind (Inode.allowWrite_mirrored hK hf hn ho) ?_ ?_
    · exact fun _ V hV => .pure ⟨hV, fun f' h => by cases h; rfl⟩
    · exact fun e V hV => ⟨hV, nofun⟩
  · exact .pure ⟨⟨o.denials, (World.setOpening_same ho).symm⟩, fun f' h => by cases h; rfl⟩

theorem read_mirrored (hK : K.Fits) (hf : ¬K.faulty) (hn : W.pool.nodes f.inode.number = some n)
    (ho : W.opens f.inode.number = some o) (count : Nat) : Mirrored K W (f.read count) fun r V =>
      V = W ∧ ∀ v, r = .ok v → v.2.inode = f.inode := by
  refine Mirrored.bind (Inode.read_mirrored hK hf hn ho f.position count) ?_ ?_
  · exact fun _ V hV => .pure ⟨hV, fun v h => by cases h; rfl⟩
  · exact fun e V hV => ⟨hV, nofun⟩

theorem write_mirrored (hK : K.Fits) (hf : ¬K.faulty) (h : W.Slotted T slot handles)
    (hn : W.pool.nodes f.inode.number = some n) (ho : W.opens f.inode.number = some o)
    (hfile : n.record.isDirectory = false) (data : ByteArray) : Mirrored K W (f.write data) fun r V =>
      V.Slotted T slot handles ∧ ∀ v, r = .ok v → v.2.inode = f.inode := by
  refine Mirrored.bind (Inode.write_mirrored hK hf h hn ho hfile f.position data) ?_ ?_
  · exact fun _ V hV => .pure ⟨hV, fun v h => by cases h; rfl⟩
  · exact fun e V hV => ⟨hV, nofun⟩

end File

/-! ## Handles -/

section Handles

/-- Some tree is told by slots after an operation, with the handles that are open then. -/
def World.Leaves {α : Type} (handles : List Handle) (res : Except Stop (α × List Handle)) (V : World) : Prop :=
  V.Upheld (Request.kept handles res)

/-- Denials of writing do not matter to the tree. -/
theorem World.Slotted.redenied (h : W.Slotted T slot handles) (ho : W.opens id = some o) (d : Nat) :
    (W.setOpening id (some { o with denials := d })).Slotted T slot handles :=
  h.reopened ho rfl fun hr _ => hr

/-- A handle is closed, unless it denies writing and its denial is gone. -/
theorem closeHandle_mirrored (hK : K.Fits) (hf : ¬K.faulty) (h : W.Slotted T slot handles)
    (hx : handles[i]? = some x) (hn : W.pool.nodes x.target.number = some n)
    (ho : W.opens x.target.number = some o) :
    Mirrored K W (Session.closeHandle x) fun res V =>
      (res = .ok () ∧ V.Slotted T slot (handles.eraseIdx i)) ∨
        ((∃ e, res = .error e) ∧ V.Slotted T slot handles) := by
  -- The inode is closed after its denials have changed, if the handle is a file that denies writing.
  have hclose (d : Nat) : Mirrored K (W.setOpening x.target.number (some { o with denials := d }))
      x.target.close fun res V => res = .ok () ∧ V.Slotted T slot (handles.eraseIdx i) := by
    refine Mirrored.of_shown fun v hv => ⟨Leads.mono (Inode.close_leads (W := W.setOpening x.target.number _) hK hn
      (Function.update_self ..) fun _ hr => ?_) ?_, Inode.close_twinned hK hf ?_⟩
    · exact (h.redenied ho d).data_of_doomed hv hn ⟨_, Function.update_self .., hr⟩
    · rintro res V ⟨rfl, hclosed⟩
      refine ⟨rfl, h.closed hx ho ?_ ?_ hclosed⟩ <;> rfl
    · show Function.update W.opens x.target.number _ x.target.number ≠ none
      simp
  have hplain : Mirrored K W x.target.close fun res V =>
      (res = .ok () ∧ V.Slotted T slot (handles.eraseIdx i)) ∨
        ((∃ e, res = .error e) ∧ V.Slotted T slot handles) := by
    have hsame := hclose o.denials
    rw [World.setOpening_same ho] at hsame
    exact hsame.mono fun _ _ hV => .inl hV
  cases x with
  | inode i => exact hplain
  | directory d => exact hplain
  | file f =>
    refine Mirrored.bind (File.allowWrite_mirrored hK hf hn ho) ?_ ?_
    · rintro f' V ⟨⟨d, rfl⟩, hf'⟩
      rw [hf' f' rfl]
      exact (hclose d).mono fun _ _ hV => .inl hV
    · rintro e V ⟨⟨d, rfl⟩, -⟩
      exact .inr ⟨⟨e, rfl⟩, h.redenied ho d⟩

theorem reopenHandle_mirrored (hK : K.Fits) (hf : ¬K.faulty) (h : W.Slotted T slot handles)
    (hn : W.pool.nodes x.target.number = some n) (ho : W.opens x.target.number = some o) :
    Mirrored K W (Session.reopenHandle x) fun res V =>
      res = .ok x.again ∧ V.Slotted T slot (handles ++ [x.again]) := by
  refine .of_yields hK hf (W.opened x.target.number)
    (fun st => Call.reopenHandle_yields (W := W.onStore st) hn ho) rfl ⟨rfl, ?_⟩
  have hopened := h.opened x.again
  rwa [show x.again.target.number = x.target.number by cases x <;> rfl] at hopened

/-- What is asked of the handle at a place. -/
theorem onHandle_mirrored {f : Handle → VolumeM (Answer × List Handle)} (h : W.Slotted T slot handles)
    (hf : ∀ x n o, handles[i]? = some x → W.pool.nodes x.target.number = some n →
      W.opens x.target.number = some o → Mirrored K W (f x) (World.Leaves handles)) :
    Mirrored K W (Call.onHandle handles i f) (World.Leaves handles) := by
  unfold Call.onHandle
  split
  · rename_i x hx
    obtain ⟨o, ho⟩ := h.tallied.open_of_handle hx
    refine Mirrored.of_shown fun v hv => ?_
    obtain ⟨n, hn⟩ := Option.ne_none_iff_exists'.1 (hv.live x.target.number (by simp [ho]))
    exact hf x n o hx hn ho
  · exact .pure h.upheld

theorem onFile_mirrored {f : File → VolumeM (Answer × List Handle)} (h : W.Slotted T slot handles)
    (hf : ∀ x n o, handles[i]? = some (.file x) → W.pool.nodes x.inode.number = some n →
      W.opens x.inode.number = some o → Mirrored K W (f x) (World.Leaves handles)) :
    Mirrored K W (Call.onFile handles i f) (World.Leaves handles) := by
  refine onHandle_mirrored h fun x n o hx hn ho => ?_
  cases x with
  | inode i => exact .pure h.upheld
  | directory d => exact .pure h.upheld
  | file x => exact hf x n o hx hn ho

/-- What is asked of a file leaves a file of the same inode, which takes its place. -/
theorem exchange_mirrored {α : Type} {f : File} {y : VolumeM α} {g : α → Answer} {k : α → File}
    {M : Except Stop α → World → Prop} (hx : handles[i]? = some (.file f)) (hy : Mirrored K W y M)
    (hM : ∀ r V, M r V → V.Upheld handles ∧ ∀ v, r = .ok v → (k v).inode = f.inode) :
    Mirrored K W (y >>= fun v => pure (g v, handles.set i (.file (k v)))) (World.Leaves handles) := by
  refine Mirrored.bind hy ?_ ?_
  · intro v V hV
    obtain ⟨⟨T, slot, hslotted⟩, hsame⟩ := hM _ V hV
    exact .pure (hslotted.exchanged (y := .file (k v)) hx (hsame v rfl)).upheld
  · exact fun e V hV => (hM _ V hV).1

/-- What is asked of the inode behind the handle at a place. -/
theorem onTarget_mirrored {f : Inode → VolumeM Report} (h : W.Slotted T slot handles)
    (hf : ∀ x n o, handles[i]? = some x → W.pool.nodes x.target.number = some n →
      W.opens x.target.number = some o → Mirrored K W (f x.target) fun _ V => V.Slotted T slot handles) :
    Mirrored K W (Operation.onTarget handles i f) (World.Leaves handles) := by
  unfold Operation.onTarget
  split
  · rename_i x hx
    obtain ⟨o, ho⟩ := h.tallied.open_of_handle hx
    refine Mirrored.of_shown fun v hv => ?_
    obtain ⟨n, hn⟩ := Option.ne_none_iff_exists'.1 (hv.live x.target.number (by simp [ho]))
    exact Mirrored.bind (hf x n o hx hn ho) (fun _ V hV => .pure hV.upheld) fun _ V hV => hV.upheld
  · exact .pure h.upheld

end Handles

/-! ## Operations -/

namespace Call

/-- An inode is opened and its handle is kept. -/
theorem arrives_mirrored {α : Type} {y : VolumeM α} {f : UInt32 → α} {g : α → Handle} {r : Except Error UInt32}
    (h : W.Slotted T slot handles) (hg : ∀ z, (g (f z)).target.number = z)
    (hy : Mirrored K W y (W.Arrives f r)) :
    Mirrored K W (y >>= fun v => pure (Answer.done, handles ++ [g v])) (World.Leaves handles) := by
  -- Either nothing has been opened, or one inode, and its handle is added to the others.
  cases r with
  | error e =>
    refine Mirrored.bind hy ?_ ?_
    · rintro v V ⟨hv, -⟩
      cases hv
    · rintro e' V ⟨-, rfl⟩
      exact h.upheld
  | ok z =>
    refine Mirrored.bind hy ?_ ?_
    · rintro v V ⟨hv, rfl⟩
      cases hv
      have hopened := h.opened (g (f z))
      rw [hg] at hopened
      exact .pure hopened.upheld
    · rintro e' V ⟨he, -⟩
      cases he

/-- What an operation has found is answered, and no handle comes or goes. -/
theorem answers_mirrored {α : Type} {y : VolumeM α} {g : α → Answer} {M : Except Stop α → World → Prop}
    (hy : Mirrored K W y M) (hM : ∀ r V, M r V → V.Upheld handles) :
    Mirrored K W (y >>= fun v => pure (g v, handles)) (World.Leaves handles) :=
  Mirrored.bind hy (fun _ V hV => .pure (hM _ V hV)) fun _ V hV => hM _ V hV

/-- Every call comes to the same on volumes that are alike. -/
theorem act_mirrored (hK : K.Fits) (hf : ¬K.faulty) (h : W.Slotted T slot handles) (q : Call)
    (hq : q.Proper W handles) : Mirrored K W (q.act handles) (World.Leaves handles) := by
  -- Only opening and closing change which handles there are. The calls on files change one of them, which
  -- stays a handle of the same inode.
  cases q with
  | create path cwd size isDirectory =>
    exact answers_mirrored (Volume.create_mirrored hK hf h path cwd size isDirectory) fun _ V hV => hV.2
  | remove path cwd =>
    exact answers_mirrored (Volume.remove_mirrored hK hf h path cwd) fun _ V hV => hV.2
  | changeDirectory path cwd =>
    refine answers_mirrored (Volume.changeDirectory_mirrored hK hf h path cwd) ?_
    rintro r V ⟨-, rfl⟩
    exact h.upheld
  | openInode path cwd => exact arrives_mirrored h (fun _ => rfl) (Volume.openInode_mirrored hK hf h path cwd)
  | openDirectory path cwd =>
    exact arrives_mirrored h (fun _ => rfl) (Volume.openDirectory_mirrored hK hf h path cwd)
  | openFile path cwd mode =>
    refine Mirrored.bind (Volume.openFile_mirrored hK hf h path cwd mode) ?_ ?_
    · rintro f V (⟨f', hf', -, hup⟩ | ⟨⟨e, he⟩, -⟩)
      · cases hf'
        exact .pure hup
      · cases he
    · rintro e V (⟨f', hf', -⟩ | ⟨-, hup⟩)
      · cases hf'
      · exact hup
  | close i =>
    refine onHandle_mirrored h fun x n o hx hn ho => ?_
    refine Mirrored.bind (closeHandle_mirrored hK hf h hx hn ho) ?_ ?_
    · rintro v V (⟨-, hV⟩ | ⟨⟨e, he⟩, -⟩)
      · exact .pure hV.upheld
      · cases he
    · rintro e V (⟨he, -⟩ | ⟨-, hV⟩)
      · cases he
      · exact hV.upheld
  | reopen i =>
    refine onHandle_mirrored h fun x n o hx hn ho => ?_
    refine Mirrored.bind (reopenHandle_mirrored hK hf h hn ho) ?_ ?_
    · rintro y V ⟨hy, hV⟩
      cases hy
      exact .pure hV.upheld
    · rintro e V ⟨he, -⟩
      cases he
  | readAt i offset count =>
    refine onHandle_mirrored h fun x n o hx hn ho => ?_
    refine answers_mirrored (Inode.read_mirrored hK hf hn ho offset count) ?_
    rintro r V rfl
    exact h.upheld
  | writeAt i offset data =>
    refine onHandle_mirrored h fun x n o hx hn ho => ?_
    exact answers_mirrored (Inode.write_mirrored hK hf h hn ho (hq i x n rfl hx hn) offset data)
      fun _ V hV => hV.upheld
  | grow i target =>
    refine onHandle_mirrored h fun x n o hx hn ho => ?_
    exact answers_mirrored (Inode.grow_mirrored hK hf h hn ho (hq i x n rfl hx hn) target)
      fun _ V hV => hV.upheld
  | clear i =>
    refine onHandle_mirrored h fun x n o hx hn ho => ?_
    exact answers_mirrored (Inode.clear_mirrored hK hf h hn ho (hq i x n rfl hx hn)) fun _ V hV => hV.upheld
  | read i count =>
    refine onFile_mirrored h fun f n o hx hn ho => ?_
    refine exchange_mirrored hx (File.read_mirrored hK hf hn ho count) ?_
    rintro r V ⟨rfl, hsame⟩
    exact ⟨h.upheld, hsame⟩
  | write i data =>
    refine onFile_mirrored h fun f n o hx hn ho => ?_
    exact exchange_mirrored hx (File.write_mirrored hK hf h hn ho (hq i _ n rfl hx hn) data)
      fun _ _ hV => ⟨hV.1.upheld, hV.2⟩
  | seek i position =>
    refine onFile_mirrored h fun f n o hx hn ho => ?_
    exact .pure (h.exchanged (y := .file (f.seek position)) hx rfl).upheld
  | denyWrite i =>
    refine onFile_mirrored h fun f n o hx hn ho => ?_
    refine exchange_mirrored hx (File.denyWrite_mirrored hK hf hn ho) ?_
    rintro r V ⟨⟨d, rfl⟩, hsame⟩
    exact ⟨(h.redenied ho d).upheld, hsame⟩
  | allowWrite i =>
    refine onFile_mirrored h fun f n o hx hn ho => ?_
    refine exchange_mirrored hx (File.allowWrite_mirrored hK hf hn ho) ?_
    rintro r V ⟨⟨d, rfl⟩, hsame⟩
    exact ⟨(h.redenied ho d).upheld, hsame⟩

end Call

/-- Counting free blocks looks at the map only. -/
theorem freeCount_mirrored (hK : K.Fits) (hf : ¬K.faulty) :
    Mirrored K W VolumeM.freeCount fun _ V => V = W := by
  refine ⟨Leads.mono (VolumeM.freeCount_yields hK) fun _ _ h => h.2, ?_⟩
  -- The same blocks are in use on both volumes, so the same number is counted.
  have hcount : Echoes (Beside (Shows K) W.pool.store (Twins K [])) K.space.countUsed fun _ => Twins K [] :=
    twins_of_yields (v := (List.range (K.space.blockCount * blockBits)).countP W.pool.store.used) hK.mapped hf
      fun st' ha => by
        rw [← ha.used]
        exact SpaceMap.countUsed_yields hK
  have hused : Twinned K W (VolumeM.onDisk fun m => do pure (m.bits, ← m.countUsed)) := by
    refine (onDisk_echo (T := fun s t => Beside (Shows K) W.pool.store (Twins K []) s t)
      (Echoes.bind hcount (fun _ => Echo.pure _) fun _ _ _ h => h)).of_imp fun v w h => ?_
    exact h.paired.mono fun s t h => ⟨h.1.shows, h.2⟩
  refine Echoes.bind hused (fun v => ?_) fun _ _ _ h => h
  obtain ⟨bits, used⟩ := v
  show Echo _ (if used ≤ bits then pure (bits - used) else VolumeM.misuse .overfullMap)
  split
  · exact Echo.pure _
  · exact Echo.throw _

namespace Operation

/-- An operation only changes contents of regular files, and only marks inodes that have been removed. -/
structure Proper (W : World) (handles : List Handle) (op : Operation) : Prop where
  files : ∀ q, op = .call q → q.Proper W handles
  marks : ∀ i x o, op = .markRemoved i → handles[i]? = some x → W.opens x.target.number = some o →
    o.removed = true

/-- What has been found out about an inode is reported, and no handle comes or goes. -/
theorem reports_mirrored {α : Type} {y : VolumeM α} {g : α → Report} {M : Except Stop α → World → Prop}
    (hy : Mirrored K W y M) (hM : ∀ r V, M r V → V.Slotted T slot handles) :
    Mirrored K W (y >>= fun v => pure (g v)) fun _ V => V.Slotted T slot handles :=
  Mirrored.bind hy (fun _ V hV => .pure (hM _ V hV)) fun _ V hV => hM _ V hV

/-- Every operation comes to the same on volumes that are alike. -/
theorem act_mirrored (hK : K.Fits) (hf : ¬K.faulty) (h : W.Slotted T slot handles) (op : Operation)
    (hop : op.Proper W handles) : Mirrored K W (op.act handles) (World.Leaves handles) := by
  -- One case for each operation. Most of them work on the inode of a handle, which is the same on both
  -- volumes.
  cases op with
  | call q =>
    refine Mirrored.bind (Call.act_mirrored hK hf h q (hop.files q rfl)) ?_ ?_
    · rintro ⟨a, handles'⟩ V hV
      exact .pure hV
    · exact fun e V hV => hV
  | markRemoved i =>
    rw [act]
    refine onTarget_mirrored h fun x n o hx hn ho => ?_
    refine reports_mirrored (M := fun _ V => V.Slotted T slot handles) ?_ fun _ _ hV => hV
    exact .of_yields hK hf (W.setOpening x.target.number (some { o with removed := true }))
      (fun st => Inode.markRemoved_yields (W := W.onStore st) hn ho) rfl
      (h.reopened ho rfl fun _ _ => hop.marks i x o rfl hx ho)
  | denyWrite i =>
    rw [act]
    refine onTarget_mirrored h fun x n o hx hn ho => ?_
    refine reports_mirrored (Inode.denyWrite_mirrored hK hf hn ho) ?_
    rintro r V ⟨d, rfl⟩
    exact h.redenied ho d
  | allowWrite i =>
    rw [act]
    refine onTarget_mirrored h fun x n o hx hn ho => ?_
    refine reports_mirrored (Inode.allowWrite_mirrored hK hf hn ho) ?_
    rintro r V ⟨d, rfl⟩
    exact h.redenied ho d
  | asFile i =>
    rw [act]
    split
    · rename_i j hj
      exact .pure (h.exchanged (y := .file (File.ofInode j)) hj rfl).upheld
    · exact .pure h.upheld
  | inspect i =>
    rw [act]
    refine onTarget_mirrored h fun x n o hx hn ho => ?_
    refine reports_mirrored (Inode.infoOf_mirrored hK hf hn ho) ?_
    rintro r V rfl
    exact h
  | locate i position =>
    rw [act]
    refine onTarget_mirrored h fun x n o hx hn ho => ?_
    refine reports_mirrored (Inode.blockOf_mirrored hK hf hn ho position) ?_
    rintro r V rfl
    exact h
  | tell i =>
    rw [act]
    split <;> exact .pure h.upheld
  | countFree =>
    refine Mirrored.bind (freeCount_mirrored hK hf) ?_ ?_
    · rintro k V rfl
      exact .pure h.upheld
    · rintro e V rfl
      exact h.upheld

end Operation

/-! ## Clients -/

/-- The same is open in both volumes, the same blocks are in use, and these hold the same. -/
structure Volume.SameInUse (v w : Volume) : Prop where
  space : w.space = v.space
  count : w.disk.device.blockCount = v.disk.device.blockCount
  registry : ∀ id : UInt32, w.registry[id]? = v.registry[id]?
  used : ∀ i, i < v.disk.device.blockCount →
    SpaceMap.bit w.disk.device i = SpaceMap.bit v.disk.device i
  block : ∀ i, i < v.disk.device.blockCount → SpaceMap.bit v.disk.device i = true →
    w.disk.device.block i = v.disk.device.block i

/-- Volumes that are twins have the same blocks in use, with the same contents. -/
theorem Volume.Twins.sameInUse {v w : Volume} (hK : K.Fits) (h : Volume.Twins K [] W v w) : v.SameInUse w := by
  obtain ⟨hv, hp⟩ := h
  have hs := hv.disk.shows
  have ha := hp.disk.agree hs
  -- Both stand for stores that agree on what is in use.
  obtain ⟨st, hs', halike⟩ := hp.disk.shows hK.mapped hs
  have hbits {i : Nat} (hi : i < K.count) : i < K.space.blockCount * blockBits :=
    Nat.lt_of_lt_of_le hi K.count_le_bits
  refine ⟨hp.space'.trans hp.space.symm, hs'.count.trans hs.count.symm, hp.registry, fun i hi => ?_,
    fun i hi hu => ?_⟩
  · rw [hs.count] at hi
    rw [hs.used i (hbits hi), hs'.used i (hbits hi), halike.used]
  · rw [hs.count] at hi
    rw [hs.used i (hbits hi)] at hu
    exact ha.data i ⟨hi, .inr ⟨hu, by simp⟩⟩

namespace Client

variable {c d c' : Client} {op : Operation} {l : List (Operation × Except Stop Report)}

/-- Two clients that have the same handles open, on volumes that are alike. -/
structure Matched (K : Regime) (c d : Client) : Prop where
  fits : K.Fits
  works : ¬K.faulty
  handles : d.handles = c.handles
  world : ∃ W : World, W.Upheld c.handles ∧ Volume.Twins K [] W c.volume d.volume

/-- What a client may do is told by its handles and by what is open, so the other one may do it too. -/
theorem Matched.keeping (h : Matched K c d) (hop : c.Keeping op) : d.Keeping op := by
  obtain ⟨W, -, -, hp⟩ := h.world
  have hregular {i : Nat} (hi : c.Regular i) : d.Regular i := fun x node hx hnode =>
    hi x node (h.handles ▸ hx) (hp.registry _ ▸ hnode)
  refine ⟨?_, fun i x node hi hx hnode => hop.2 i x node hi (h.handles ▸ hx) (hp.registry _ ▸ hnode)⟩
  cases op with
  | call q => exact fun i hi => hregular (hop.1 i hi)
  | markRemoved i => exact hregular hop.1
  | _ => trivial

theorem Keeping.proper (hop : c.Keeping op) (hv : Mounts K W c.volume) (h : W.Slotted T slot c.handles) :
    op.Proper W c.handles := by
  refine ⟨?_, fun i x o hi hx ho => ?_⟩
  · rintro q rfl i x n hi hx hn
    obtain ⟨o, ho⟩ := h.tallied.open_of_handle hx
    exact hop.1 i hi x _ hx ((hv.registry _).trans (World.entry_of_some ho hn))
  · obtain ⟨n, hn⟩ := Option.ne_none_iff_exists'.1 (hv.live x.target.number (by simp [ho]))
    exact hop.2 i x _ hi hx ((hv.registry _).trans (World.entry_of_some ho hn))

/-- What an operation comes to for a client. -/
theorem operate_eq (c : Client) (op : Operation) :
    c.operate op = ((outcome (op.act c.handles) c.volume).1.map Prod.fst,
      ⟨(outcome (op.act c.handles) c.volume).2,
        Request.kept c.handles (outcome (op.act c.handles) c.volume).1⟩) := by
  rw [operate, outcome]
  cases op.act c.handles c.volume <;> rfl

/-- Clients that are matched get the same answer, and are matched after it. -/
theorem Matched.operate (h : Matched K c d) (hop : c.Keeping op) :
    (d.operate op).1 = (c.operate op).1 ∧ Matched K (c.operate op).2 (d.operate op).2 := by
  obtain ⟨W, ⟨T, slot, hW⟩, hvw⟩ := h.world
  obtain ⟨hleads, htwinned⟩ := op.act_mirrored h.fits h.works hW (hop.proper hvw.1 hW)
  obtain ⟨hsame, V, hV, htwins⟩ := Echoes.leads hleads htwinned c.volume d.volume hvw
  rw [operate_eq, operate_eq, h.handles, hsame]
  exact ⟨rfl, h.fits, h.works, rfl, V, hV, htwins⟩

/-- Whatever one of two matched clients does, the other one does with the same answers, and they are matched
then. -/
theorem Matched.conducts (h : Matched K c d) (hr : Conducts Keeping c l c') :
    ∃ d', Conducts Keeping d l d' ∧ Matched K c' d' := by
  induction hr generalizing d with
  | nil c => exact ⟨d, .nil d, h⟩
  | cons op allowed rest ih =>
    obtain ⟨hsame, hnext⟩ := h.operate allowed
    obtain ⟨d', hd', hmatched⟩ := ih hnext
    exact ⟨d', hsame ▸ .cons op (h.keeping allowed) hd', hmatched⟩

theorem Matched.sameInUse (h : Matched K c d) : c.volume.SameInUse d.volume := by
  obtain ⟨W, -, hvw⟩ := h.world
  exact hvw.sameInUse h.fits

end Client

end InodeVolume
