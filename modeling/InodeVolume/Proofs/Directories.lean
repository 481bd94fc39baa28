import InodeVolume.Directory.Basic
import InodeVolume.Proofs.OpenInodes
import InodeVolume.Proofs.Slots

/-!
# Actions on directories

What looking names up, linking and unlinking do to a world, in terms of the names and what they stand for
(`Node.child`).

* A name is linked exactly if it may be (`Addable`); otherwise no name changes (`add_leads`).
* Unlinking a name marks the inode that it stood for as removed, and gives it up if it is not open
  (`remove_leads`).
-/

namespace InodeVolume

open Record

/-- Contents are never longer than the longest that can be stored. -/
theorem Stored.size_le {K : Regime} {D : Nat → Block} {id : UInt32} {n : Node} (h : Stored K D id n) :
    n.size ≤ maxFileSize := by
  have := h.indexed.le
  simp only [dataBlocks, maxFileSize, blockSize] at this ⊢
  omega

/-- How many blocks a directory gains when one more name is linked. -/
def Node.gain (n : Node) : Nat :=
  totalBlocks (max n.size (n.vacant * slotSize + slotSize)) - totalBlocks n.size

/-- A table has its vacant place in it or at its end. -/
theorem Node.vacant_mul_le (n : Node) : n.vacant * slotSize ≤ n.size := by
  have hle := n.vacant_le
  simp only [slots, slotSize] at hle ⊢
  omega

/-- A directory grows by one slot at most. -/
theorem Node.gain_le (n : Node) : n.gain ≤ totalBlocks (n.size + slotSize) := by
  have hle := n.vacant_mul_le
  exact (Nat.sub_le _ _).trans (totalBlocks_mono (by omega))

namespace Directory

variable {K : Regime} {W : World} {d : Directory} {id number : UInt32} {n : Node} {o : Opening}
  {name : String}

/-! ## Using an open inode -/

/-- An inode is used as a directory exactly if it is one, by a handle at the start of its listing. -/
theorem ofInode_eq_ok_iff {i : Inode} {d : Directory} {v v' : Volume} :
    ofInode i v = .ok d v' ↔ v' = v ∧ d = { inode := i } ∧ i.isDirectory v = .ok true v := by
  -- Looking at the kind leaves the volume as it is.
  have hsame {b : Bool} {w : Volume} (h : i.isDirectory v = .ok b w) : w = v := by
    simp only [Inode.isDirectory, Inode.entry, Bind.bind, EStateM.bind, VolumeM.registry] at h
    cases hr : v.registry[i.number]? with
    | none =>
      rw [hr] at h
      cases h
    | some node =>
      rw [hr] at h
      cases h
      rfl
  cases hk : i.isDirectory v with
  | error e w => simp [ofInode, Bind.bind, EStateM.bind, hk]
  | ok b w =>
    obtain rfl := hsame hk
    cases b with
    | true =>
      simp only [ofInode, Bind.bind, EStateM.bind, hk, if_true]
      constructor
      · intro h
        cases h
        exact ⟨rfl, rfl, trivial⟩
      · rintro ⟨rfl, rfl, -⟩
        rfl
    | false =>
      simp only [ofInode, Bind.bind, EStateM.bind, hk, Bool.false_eq_true, if_false]
      constructor
      · intro h
        cases hc : i.close w with
        | ok u w' =>
          rw [hc] at h
          cases h
        | error e w' =>
          rw [hc] at h
          cases h
      · rintro ⟨-, -, h⟩
        cases h

/-! ## Looking names up -/

theorem search_yields {α : Type} {f : Record → DiskAction α} {v : α} (hd : d.inode = ⟨id⟩)
    (hn : W.pool.nodes id = some n) (ho : W.opens id = some o)
    (hf : Tells (Holds K) W.pool (f n.record) v) : Yields (Mounts K) W (d.search f) v W := by
  unfold search
  rw [hd]
  exact Yields.bind (open_entry_yields hn ho) (transfer_yields hf)

theorem find_yields (hd : d.inode = ⟨id⟩) (hn : W.pool.nodes id = some n) (ho : W.opens id = some o)
    (name : String) :
    Yields (Mounts K) W (d.find name) ((n.find name).map fun j => (j * slotSize, n.slot j)) W :=
  search_yields hd hn ho (Node.findName_tells hn name)

theorem lookup_yields (hd : d.inode = ⟨id⟩) (hn : W.pool.nodes id = some n) (ho : W.opens id = some o)
    (name : String) : Yields (Mounts K) W (d.lookup name) (n.child name) W := by
  refine Yields.bind (find_yields hd hn ho name) ?_
  rw [Option.map_map]
  exact Yields.pure

theorem openEntry_leads (hK : K.Fits) (hd : d.inode = ⟨id⟩) (hn : W.pool.nodes id = some n)
    (ho : W.opens id = some o) (hchild : ∀ x, n.child name = some x → W.pool.nodes x ≠ none) :
    Leads (Mounts K) W (d.openEntry name) fun res W' =>
      (∃ x, n.child name = some x ∧ res = .ok ⟨x⟩ ∧ W' = W.opened x) ∨
        (n.child name = none ∧ res = .error (.failed .notFound) ∧ W' = W) := by
  refine Yields.bind (find_yields hd hn ho name) ?_
  cases hf : n.find name with
  | none =>
    have hc : n.child name = none := by simp [Node.child, hf]
    exact Leads.fail (.inr ⟨hc, rfl, rfl⟩)
  | some j =>
    have hc : n.child name = some (n.slot j).number := by simp [Node.child, hf]
    obtain ⟨m, hm⟩ := Option.ne_none_iff_exists'.1 (hchild _ hc)
    exact Yields.leads (Inode.acquire_yields hK hm) (.inl ⟨_, hc, rfl, rfl⟩)

theorem isEmpty_yields (hd : d.inode = ⟨id⟩) (hn : W.pool.nodes id = some n) (ho : W.opens id = some o)
    (ht : n.Tidy) [Decidable n.Busy] : Yields (Mounts K) W d.isEmpty (!decide n.Busy) W :=
  Yields.bind (search_yields hd hn ho (Node.hasEntries_tells hn ht)) Yields.pure

/-- Whether a directory has entries is found by looking through its table. -/
theorem isEmpty_scans (hd : d.inode = ⟨id⟩) (hn : W.pool.nodes id = some n) (ho : W.opens id = some o) :
    Yields (Mounts K) W d.isEmpty
      (!(n.scanned 0 (n.search (fun s => s.inUse && !isDotName s.name) 0)).2.isSome) W :=
  Yields.bind (search_yields hd hn ho (Tells.bind (Node.findSlot_tells hn _) Tells.pure)) Yields.pure

/-! ## Linking -/

/-- A slot is stored completely, in part where writes may fail, or not at all. -/
theorem writeSlot_leads (hK : K.Fits) (hd : d.inode = ⟨id⟩) (hn : W.pool.nodes id = some n)
    (ho : W.opens id = some o) (offset : Nat) (slot : Slot) :
    Leads (Mounts K) W (d.writeSlot offset slot) fun res W' =>
      (0 < o.denials ∧ res = .error (.failed .writeDenied) ∧ W' = W) ∨
        (o.denials = 0 ∧ ∃ k n', W.Becomes id n' W' ∧ Inode.Wrote K W n offset slot.encode k n' W' ∧
          ((res = .ok () ∧ k = slotSize) ∨
            (K.faulty ∧ k < slotSize ∧ res = .error (.failed (.device .io))))) ∨
        (o.denials = 0 ∧ n.size < offset + slotSize ∧
          ∃ e, res = .error (.failed e) ∧ W.Stays K W' ∧
            Pool.Refused K W.pool (offset + slotSize)
              (totalBlocks (offset + slotSize) - totalBlocks n.size) e) := by
  have hsize := slot.size_encode
  -- A slot has bytes, so the case of an empty write does not arise.
  have hfull : slot.encode.isEmpty = false := by
    simp only [ByteArray.isEmpty, hsize]
    decide
  unfold writeSlot
  rw [hd]
  refine Leads.bind (Inode.write_leads hK hn ho offset slot.encode) ?_ ?_
  · rintro k W' (⟨-, hv, -⟩ | ⟨-, hempty, -⟩ | ⟨hz, -, k', n', hv, hbecomes, hwrote⟩ |
      ⟨-, -, -, e, hv, -⟩)
    · cases hv
    · rw [hfull] at hempty
      cases hempty
    · cases hv
      by_cases hk : k = slotSize
      · rw [if_neg (by simpa using hk)]
        exact Leads.pure (.inr (.inl ⟨hz, k, n', hbecomes, hwrote, .inl ⟨rfl, hk⟩⟩))
      · rw [if_pos hk]
        refine Leads.fail (.inr (.inl ⟨hz, k, n', hbecomes, hwrote, .inr ?_⟩))
        rcases hwrote.count with he | ⟨hf, hle⟩
        · exact absurd (he.trans hsize) hk
        · exact ⟨hf, by omega, rfl⟩
    · cases hv
  · rintro e W' (⟨hpos, hv, rfl⟩ | ⟨-, hempty, -⟩ | ⟨-, -, k', n', hv, -⟩ |
      ⟨hz, -, hlt, e', hv, hstays, hwhy⟩)
    · cases hv
      exact .inl ⟨hpos, rfl, rfl⟩
    · rw [hfull] at hempty
      cases hempty
    · cases hv
    · cases hv
      rw [hsize] at hlt hwhy
      exact .inr (.inr ⟨hz, hlt, e', rfl, hstays, hwhy⟩)

/-- A name may be linked: it fits, it is new, and the directory is neither removed nor denied writing and
can grow if it has to. -/
structure Addable (K : Regime) (W : World) (n : Node) (o : Opening) (name : String) : Prop where
  nonempty : name.isEmpty = false
  short : name.utf8ByteSize ≤ nameMax
  linked : o.removed = false
  new : n.child name = none
  writable : o.denials = 0
  fits : n.vacant * slotSize + slotSize ≤ maxFileSize
  space : n.gain ≤ K.free W.pool.store.used

/-- What linking a name comes to: it is linked, or no name changes. -/
def Linked (K : Regime) (W : World) (id : UInt32) (n : Node) (o : Opening) (name : String)
    (number : UInt32) (res : Except Stop Unit) (W' : World) : Prop :=
  (res = .ok () ∧ Addable K W n o name ∧ ∃ n', W.Becomes id n' W' ∧ n'.Tidy ∧
      n'.child = Function.update n.child name (some number) ∧
      n'.record.isDirectory = n.record.isDirectory ∧
      n'.size = max n.size (n.vacant * slotSize + slotSize) ∧ n.owned ⊆ n'.owned ∧
      K.free W'.pool.store.used + n.gain = K.free W.pool.store.used) ∨
    ((K.faulty ∨ ¬Addable K W n o name) ∧ ∃ e, res = .error (.failed e) ∧
      (W.Stays K W' ∨ (K.faulty ∧ ∃ n', W.Becomes id n' W' ∧ n'.Tidy ∧ n'.child = n.child ∧
        n'.record.isDirectory = n.record.isDirectory)))

theorem linked_refused {e : Error} (h : ¬Addable K W n o name) :
    Linked K W id n o name number (.error (.failed e)) W :=
  .inr ⟨.inr h, e, rfl, .inl (World.Stays.refl W)⟩

/-- Storing the slot of a name that is new. -/
theorem fill_leads (hK : K.Fits) (hd : d.inode = ⟨id⟩) (hn : W.pool.nodes id = some n)
    (ho : W.opens id = some o) (ht : n.Tidy) (hname : NulFree name) (hempty : name.isEmpty = false)
    (hshort : name.utf8ByteSize ≤ nameMax) (hremoved : o.removed = false) (hnew : n.child name = none) :
    Leads (Mounts K) W
      (d.writeSlot (n.vacant * slotSize) (Slot.ofName name number (Nat.le_succ_of_le hshort)))
      (Linked K W id n o name number) := by
  refine Leads.of_shown fun v hv => ?_
  have hstored := hv.disk.sound.stored id n hn
  generalize hslot : Slot.ofName name number (Nat.le_succ_of_le hshort) = slot
  have hslotName : slot.name = name := by
    rw [← hslot]
    exact Slot.name_ofName number _ hshort hname
  have hslotNumber : slot.number = number := by
    rw [← hslot]
    rfl
  have hslotInUse : slot.inUse = true := by
    rw [← hslot]
    rfl
  have hsize := slot.size_encode
  refine Leads.mono (writeSlot_leads hK hd hn ho _ slot) ?_
  rintro res W' (⟨hpos, rfl, rfl⟩ | ⟨hz, k, n', hbecomes, hwrote, hres⟩ |
    ⟨hz, hlong, e, rfl, hstays, hwhy⟩)
  · -- Writing to the table is denied.
    refine linked_refused fun h => ?_
    rw [h.writable] at hpos
    cases hpos
  · have hfilled : Node.Filled n slot k n' := ⟨by rw [hwrote.size, hsize], hwrote.byte⟩
    -- All of the slot has been written, or a failing write has cut it short before the byte that marks it
    -- as used.
    rcases hres with ⟨rfl, rfl⟩ | ⟨hf, hk, rfl⟩
    · have hgain := hwrote.free
      have hfits := hwrote.fits
      have hle := hstored.size_le
      have hgrow : totalBlocks n.size ≤ totalBlocks n'.size := by
        rw [hwrote.size]
        exact totalBlocks_mono (Nat.le_max_left _ _)
      have hsum : K.free W'.pool.store.used + n.gain = K.free W.pool.store.used := by
        rw [Node.gain, ← hfilled.size]
        omega
      rw [← hslotName] at hnew
      obtain ⟨ht', hchild⟩ := hfilled.linked ht hslotInUse hnew
      rw [hslotName] at hnew
      rw [hslotName, hslotNumber] at hchild
      exact .inl ⟨rfl, ⟨hempty, hshort, hremoved, hnew, hz, by omega, by omega⟩, n', hbecomes, ht', hchild,
        hwrote.isDirectory, hfilled.size, hwrote.owned, hsum⟩
    · obtain ⟨ht', hchild⟩ := hfilled.cut hk ht hstored.tail
      exact .inr ⟨.inl hf, _, rfl, .inr ⟨hf, n', hbecomes, ht', hchild, hwrote.isDirectory⟩⟩
  · -- The table cannot grow: it would be too long, there is no room, or a write fails.
    refine .inr ⟨?_, e, rfl, .inl hstays⟩
    have hmax : max n.size (n.vacant * slotSize + slotSize) = n.vacant * slotSize + slotSize := by omega
    rcases hwhy with ⟨-, hlt⟩ | ⟨-, hlt⟩ | ⟨hf, -⟩
    · refine .inr fun h => ?_
      have := h.fits
      omega
    · refine .inr fun h => ?_
      have := h.space
      rw [Node.gain, hmax] at this
      omega
    · exact .inl hf

/-- A name is linked exactly if it may be, unless writes fail. -/
theorem add_leads (hK : K.Fits) (hd : d.inode = ⟨id⟩) (hn : W.pool.nodes id = some n)
    (ho : W.opens id = some o) (ht : n.Tidy) (hname : NulFree name) :
    Leads (Mounts K) W (d.add name number) (Linked K W id n o name number) := by
  unfold add
  -- Each test refuses a name that may not be linked. What passes all of them is new and gets the first
  -- vacant slot.
  by_cases hempty : name.isEmpty = true
  · rw [if_pos hempty]
    refine Leads.fail (linked_refused fun h => ?_)
    rw [h.nonempty] at hempty
    cases hempty
  rw [if_neg hempty]
  by_cases hshort : name.utf8ByteSize ≤ nameMax
  swap
  · rw [dif_neg hshort]
    exact Leads.fail (linked_refused fun h => hshort h.short)
  rw [dif_pos hshort, hd]
  refine Yields.bind (open_entry_yields hn ho) ?_
  by_cases hremoved : o.removed = true
  · rw [if_pos hremoved]
    refine Leads.failBind (linked_refused fun h => ?_)
    rw [h.linked] at hremoved
    cases hremoved
  rw [if_neg hremoved]
  refine Yields.bind (find_yields hd hn ho name) ?_
  by_cases hfound : ((n.find name).map fun j => (j * slotSize, n.slot j)).isSome = true
  · rw [if_pos hfound]
    exact Leads.failBind (linked_refused fun h => (Node.child_eq_none_iff _).1 h.new hfound)
  rw [if_neg hfound]
  have hnew : n.child name = none := (Node.child_eq_none_iff _).2 hfound
  refine Yields.bind (search_yields hd hn ho (Node.vacancy_tells hn)) ?_
  exact fill_leads hK hd hn ho ht hname (by simpa using hempty) hshort (by simpa using hremoved) hnew

/-! ## Unlinking -/

section Unlink

variable {x : UInt32} {m : Node} {ox : Opening} {j : Nat}

/-- What freeing the slot of an entry comes to: the name is unlinked and its inode marked as removed, or
no name changes. -/
def Freed (K : Regime) (W : World) (id : UInt32) (n : Node) (o : Opening) (name : String) (x : UInt32)
    (m : Node) (ox : Opening) (res : Except Stop Unit) (W' : World) : Prop :=
  (res = .ok () ∧ o.denials = 0 ∧ ¬(m.record.isDirectory = true ∧ m.Busy) ∧
      ∃ n' W₁, W.Becomes id n' W₁ ∧ W' = W₁.setOpening x (some { ox with removed := true }) ∧
        n'.Tidy ∧ n'.child = Function.update n.child name none ∧
        n'.record.isDirectory = n.record.isDirectory ∧ n'.size = n.size ∧ n.owned ⊆ n'.owned ∧
        K.free W₁.pool.store.used = K.free W.pool.store.used) ∨
    ((K.faulty ∨ 0 < o.denials ∨ (m.record.isDirectory = true ∧ m.Busy)) ∧
      ∃ e, res = .error (.failed e) ∧
        (W' = W ∨ (K.faulty ∧ ∃ n', W.Becomes id n' W' ∧ n'.Tidy ∧ n'.child = n.child ∧
          n'.record.isDirectory = n.record.isDirectory)))

/-- What freeing the slot of an entry and marking its inode as removed comes to, whatever the inode is. -/
def Vacated (K : Regime) (W : World) (id : UInt32) (n : Node) (o : Opening) (name : String) (x : UInt32)
    (ox : Opening) (res : Except Stop Unit) (W' : World) : Prop :=
  (res = .ok () ∧ o.denials = 0 ∧ ∃ n' W₁, W.Becomes id n' W₁ ∧
      W' = W₁.setOpening x (some { ox with removed := true }) ∧
      n'.Tidy ∧ n'.child = Function.update n.child name none ∧
      n'.record.isDirectory = n.record.isDirectory ∧ n'.size = n.size ∧ n.owned ⊆ n'.owned ∧
      K.free W₁.pool.store.used = K.free W.pool.store.used) ∨
    ((K.faulty ∨ 0 < o.denials) ∧ ∃ e, res = .error (.failed e) ∧
      (W' = W ∨ (K.faulty ∧ ∃ n', W.Becomes id n' W' ∧ n'.Tidy ∧ n'.child = n.child ∧
        n'.record.isDirectory = n.record.isDirectory)))

/-- What storing a freed slot and marking its inode as removed comes to, whatever else is in the table. -/
def Cleared (K : Regime) (W : World) (id : UInt32) (n : Node) (o : Opening) (j : Nat) (x : UInt32)
    (ox : Opening) (res : Except Stop Unit) (W' : World) : Prop :=
  (res = .ok () ∧ o.denials = 0 ∧ ∃ n' W₁, W.Becomes id n' W₁ ∧
      W' = W₁.setOpening x (some { ox with removed := true }) ∧ n'.size = n.size ∧
      Inode.Wrote K W n (j * slotSize) (n.slot j).freed.encode slotSize n' W₁) ∨
    ((K.faulty ∨ 0 < o.denials) ∧ ∃ e, res = .error (.failed e) ∧
      (W' = W ∨ (K.faulty ∧ ∃ k n', k < slotSize ∧ W.Becomes id n' W' ∧ n'.size = n.size ∧
        Inode.Wrote K W n (j * slotSize) (n.slot j).freed.encode k n' W')))

theorem clearSlot_leads (hK : K.Fits) (hd : d.inode = ⟨id⟩) (hn : W.pool.nodes id = some n)
    (ho : W.opens id = some o) (hj : j < n.slots) (hne : x ≠ id)
    (hm : W.pool.nodes x = some m) (hox : W.opens x = some ox) :
    Leads (Mounts K) W (do
      d.writeSlot (j * slotSize) (n.slot j).freed
      Inode.markRemoved ⟨x⟩) (Cleared K W id n o j x ox) := by
  -- The slot lies inside the table, so freeing it takes no block and cannot be refused for want of room.
  have hend : j * slotSize + slotSize ≤ n.size := by
    simp only [Node.slots, slotSize] at hj ⊢
    omega
  have hencode := (n.slot j).freed.size_encode
  have hsize {n' : Node} {k : Nat} {W' : World}
      (h : Inode.Wrote K W n (j * slotSize) (n.slot j).freed.encode k n' W') : n'.size = n.size := by
    rw [h.size, hencode]
    omega
  refine Leads.bind (writeSlot_leads hK hd hn ho _ _) ?_ ?_
  · rintro v W₁ (⟨-, hv, -⟩ | ⟨hz, k, n', hbecomes, hwrote, hres⟩ | ⟨-, hlong, -⟩)
    · cases hv
    · rcases hres with ⟨-, rfl⟩ | ⟨-, -, hv⟩
      swap
      · cases hv
      have hm₁ : W₁.pool.nodes x = some m := by rw [hbecomes.node_of_ne hne, hm]
      have hox₁ : W₁.opens x = some ox := by rw [hbecomes.opens, hox]
      exact Yields.leads (Inode.markRemoved_yields hm₁ hox₁)
        (.inl ⟨rfl, hz, n', W₁, hbecomes, rfl, hsize hwrote, hwrote⟩)
    · omega
  · rintro e W₁ (⟨hpos, hv, rfl⟩ | ⟨hz, k, n', hbecomes, hwrote, hres⟩ | ⟨-, hlong, -⟩)
    · cases hv
      exact .inr ⟨.inr hpos, _, rfl, .inl rfl⟩
    · rcases hres with ⟨hv, -⟩ | ⟨hf, hk, hv⟩
      · cases hv
      cases hv
      exact .inr ⟨.inl hf, _, rfl, .inr ⟨hf, k, n', hk, hbecomes, hsize hwrote, hwrote⟩⟩
    · omega

/-- Clearing the slot of an open inode and marking it as removed does both, or the entry stays. -/
theorem vacate_leads (hK : K.Fits) (hd : d.inode = ⟨id⟩) (hn : W.pool.nodes id = some n)
    (ho : W.opens id = some o) (ht : n.Tidy) (hj : n.EntryAt j name x) (hne : x ≠ id)
    (hm : W.pool.nodes x = some m) (hox : W.opens x = some ox) :
    Leads (Mounts K) W (do
      d.writeSlot (j * slotSize) (n.slot j).freed
      Inode.markRemoved ⟨x⟩) (Vacated K W id n o name x ox) := by
  refine Leads.mono (clearSlot_leads hK hd hn ho hj.lt hne hm hox) ?_
  rintro res W' (⟨rfl, hz, n', W₁, hbecomes, rfl, hsize, hwrote⟩ |
    ⟨hwhy, e, rfl, rfl | ⟨hf, k, n', hk, hbecomes, hsize, hwrote⟩⟩)
  · obtain ⟨ht', hchild⟩ := Node.unlinked ht hj hsize hwrote.byte
    have hfree := hwrote.free
    rw [hsize] at hfree
    exact .inl ⟨rfl, hz, n', W₁, hbecomes, rfl, ht', hchild, hwrote.isDirectory, hsize, hwrote.owned, by omega⟩
  · exact .inr ⟨hwhy, e, rfl, .inl rfl⟩
  · -- A slot that was cleared in part is still in use, as the byte that says so comes last.
    obtain ⟨ht', hchild⟩ := Node.same_of_cut ht hk hsize hwrote.byte
    exact .inr ⟨hwhy, e, rfl, .inr ⟨hf, n', hbecomes, ht', hchild, hwrote.isDirectory⟩⟩

/-- Freeing the slot of an entry whose inode may go, and marking that as removed. -/
theorem free_leads (hK : K.Fits) (hd : d.inode = ⟨id⟩) (hn : W.pool.nodes id = some n)
    (ho : W.opens id = some o) (ht : n.Tidy) (hj : n.EntryAt j name x) (hne : x ≠ id)
    (hm : W.pool.nodes x = some m) (hox : W.opens x = some ox)
    (hfree : ¬(m.record.isDirectory = true ∧ m.Busy)) :
    Leads (Mounts K) W (do
      d.writeSlot (j * slotSize) (n.slot j).freed
      Inode.markRemoved ⟨x⟩) (Freed K W id n o name x m ox) := by
  refine Leads.mono (vacate_leads hK hd hn ho ht hj hne hm hox) ?_
  rintro res W' (⟨hres, hz, hvacated⟩ | ⟨hwhy, hrefused⟩)
  · exact .inl ⟨hres, hz, hfree, hvacated⟩
  · exact .inr ⟨hwhy.imp_right .inl, hrefused⟩

/-- Unlinking frees the slot of an entry that may go, and any other entry stays. -/
theorem unlink_leads (hK : K.Fits) (hd : d.inode = ⟨id⟩) (hn : W.pool.nodes id = some n)
    (ho : W.opens id = some o) (ht : n.Tidy) (hj : n.EntryAt j name x) (hne : x ≠ id)
    (hm : W.pool.nodes x = some m) (hox : W.opens x = some ox) (htm : m.record.isDirectory = true → m.Tidy) :
    Leads (Mounts K) W (d.unlink (j * slotSize) (n.slot j) ⟨x⟩) (Freed K W id n o name x m ox) := by
  classical
  unfold unlink
  refine Yields.bind (Inode.isDirectory_yields hm hox) ?_
  by_cases hdir : m.record.isDirectory = true
  · rw [if_pos hdir]
    refine Yields.bind (isEmpty_yields (d := { inode := ⟨x⟩ }) rfl hm hox (htm hdir)) ?_
    -- Only a directory with entries of its own is refused.
    by_cases hbusy : m.Busy
    · have hc : (!(!decide m.Busy)) = true := by simp [hbusy]
      rw [if_pos hc]
      exact Leads.failBind (.inr ⟨.inr (.inr ⟨hdir, hbusy⟩), _, rfl, .inl rfl⟩)
    · have hc : ¬(!(!decide m.Busy)) = true := by simp [hbusy]
      rw [if_neg hc]
      exact free_leads hK hd hn ho ht hj hne hm hox fun h => hbusy h.2
  · rw [if_neg hdir]
    exact free_leads hK hd hn ho ht hj hne hm hox fun h => hdir h.1

/-- A name may be unlinked that stands for inode `m`: it is not one of the two of every directory, no
directory with entries goes, and writing is not denied. -/
structure Removable (n : Node) (denials : Nat) (name : String) (x : UInt32) (m : Node) : Prop where
  named : isDotName name = false
  child : n.child name = some x
  empty : ¬(m.record.isDirectory = true ∧ m.Busy)
  writable : denials = 0

/-- The name `name` of directory `id` has been unlinked, and inode `x`, which was `m`, is marked as removed
or gone. -/
structure Unlinked (K : Regime) (W : World) (id : UInt32) (n : Node) (name : String) (x : UInt32)
    (m : Node) (n' : Node) (W' : World) : Prop where
  tidy : n'.Tidy
  child : n'.child = Function.update n.child name none
  isDirectory : n'.record.isDirectory = n.record.isDirectory
  size : n'.size = n.size
  owned : n.owned ⊆ n'.owned
  node : W'.pool.nodes id = some n'
  others : ∀ i, i ≠ id → i ≠ x → W'.pool.nodes i = W.pool.nodes i
  held : W'.pool.held = W.pool.held
  opens : ∀ i, i ≠ x → W'.opens i = W.opens i
  gone : W.opens x = none → W'.opens x = none ∧ W'.pool.nodes x = none ∧
    (¬K.faulty → K.free W'.pool.store.used =
      K.free W.pool.store.used + (totalBlocks m.size + 1))
  marked : ∀ ox, W.opens x = some ox → W'.opens x = some { ox with removed := true } ∧
    W'.pool.nodes x = some m ∧ K.free W'.pool.store.used = K.free W.pool.store.used

/-- Inode `x`, which was `m`, is marked as removed or gone, and directory `id` is `n'`. -/
structure Dropped (K : Regime) (W : World) (id x : UInt32) (m n' : Node) (W' : World) : Prop where
  node : W'.pool.nodes id = some n'
  others : ∀ i, i ≠ id → i ≠ x → W'.pool.nodes i = W.pool.nodes i
  held : W'.pool.held = W.pool.held
  opens : ∀ i, i ≠ x → W'.opens i = W.opens i
  gone : W.opens x = none → W'.opens x = none ∧ W'.pool.nodes x = none ∧
    (¬K.faulty → K.free W'.pool.store.used =
      K.free W.pool.store.used + (totalBlocks m.size + 1))
  marked : ∀ ox, W.opens x = some ox → W'.opens x = some { ox with removed := true } ∧
    W'.pool.nodes x = some m ∧ K.free W'.pool.store.used = K.free W.pool.store.used

/-- Closing an inode that has been marked as removed after it was opened for that: it is gone unless others
have it open. -/
theorem closeDropped_leads {n' : Node} {W₁ : World} (hK : K.Fits) (hne : x ≠ id)
    (hdata : K.IsData x.toNat) (hm : W.pool.nodes x = some m)
    (hpos : ∀ ox, W.opens x = some ox → 0 < ox.openers) (hbecomes : (W.opened x).Becomes id n' W₁)
    (hsame : K.free W₁.pool.store.used = K.free W.pool.store.used) :
    Leads (Mounts K) (W₁.setOpening x (some { World.moreOpen (W.opens x) with removed := true }))
      (Inode.close ⟨x⟩) fun res W' => res = .ok () ∧ Dropped K W id x m n' W' := by
  have hm₁ : W₁.pool.nodes x = some m := by
    rw [hbecomes.node_of_ne hne]
    exact hm
  have hopens (i : UInt32) (hi : i ≠ x) : W₁.opens i = W.opens i := by
    rw [hbecomes.opens, World.opened_opens_of_ne W hi]
  refine Leads.mono (Inode.close_leads (W := W₁.setOpening x _) hK hm₁ (Function.update_self ..)
    fun _ _ => hdata) ?_
  rintro res W' ⟨rfl, hclosed⟩
  refine ⟨rfl, ?_⟩
  cases hox : W.opens x with
  | none =>
    obtain ⟨hopens', hnodes', hheld', hfree'⟩ := hclosed.gone (by rw [hox]; exact Nat.le_refl 1) rfl
    refine ⟨?_, fun i hi hi' => ?_, hheld'.trans hbecomes.held,
      fun i hi => ?_, fun _ => ⟨?_, ?_, fun hf => ?_⟩, fun ox h => ?_⟩
    · rw [hnodes', Function.update_of_ne hne.symm]
      exact hbecomes.node
    · rw [hnodes', Function.update_of_ne hi']
      exact hbecomes.node_of_ne hi
    · rw [hopens', Function.update_of_ne hi, World.setOpening_opens, Function.update_of_ne hi]
      exact hopens i hi
    · rw [hopens', Function.update_self]
    · rw [hnodes', Function.update_self]
    · rw [hfree' hf]
      exact congrArg (· + _) hsame
    · rw [hox] at h
      cases h
  | some ox =>
    -- Somebody else has it open, and it stays.
    have hmore : 1 < (World.moreOpen (W.opens x)).openers := by
      rw [hox]
      exact Nat.succ_lt_succ (hpos ox hox)
    have hW' := hclosed.more hmore
    rw [hox] at hW'
    subst hW'
    refine ⟨hbecomes.node, fun i hi _ => hbecomes.node_of_ne hi,
      hbecomes.held, fun i hi => ?_, fun h => ?_, fun ox' h => ⟨?_, hm₁, hsame⟩⟩
    · rw [World.setOpening_opens, Function.update_of_ne hi, World.setOpening_opens,
        Function.update_of_ne hi]
      exact hopens i hi
    · rw [hox] at h
      cases h
    · rw [hox] at h
      cases h
      exact Function.update_self ..

/-- Closing the inode of a name that has been unlinked, which was opened for it: it is gone or marked as
removed then. -/
theorem closeUnlinked_leads {n' : Node} {W₁ : World} (hK : K.Fits) (hne : x ≠ id)
    (hdata : K.IsData x.toNat) (hm : W.pool.nodes x = some m)
    (hpos : ∀ ox, W.opens x = some ox → 0 < ox.openers) (hbecomes : (W.opened x).Becomes id n' W₁)
    (ht : n'.Tidy) (hchild : n'.child = Function.update n.child name none)
    (hdir : n'.record.isDirectory = n.record.isDirectory) (hsize : n'.size = n.size)
    (howned : n.owned ⊆ n'.owned) (hsame : K.free W₁.pool.store.used = K.free W.pool.store.used) :
    Leads (Mounts K) (W₁.setOpening x (some { World.moreOpen (W.opens x) with removed := true }))
      (Inode.close ⟨x⟩) fun res W' => res = .ok () ∧ Unlinked K W id n name x m n' W' :=
  Leads.mono (closeDropped_leads hK hne hdata hm hpos hbecomes hsame) fun _ _ ⟨hres, h⟩ =>
    ⟨hres, ht, hchild, hdir, hsize, howned, h.node, h.others, h.held, h.opens, h.gone, h.marked⟩

/-- A name is unlinked exactly if it may be, unless writes fail. -/
theorem remove_leads (hK : K.Fits) (hd : d.inode = ⟨id⟩) (hn : W.pool.nodes id = some n)
    (ho : W.opens id = some o) (ht : n.Tidy)
    (hchild : ∀ x, isDotName name = false → n.child name = some x → x ≠ id ∧ K.IsData x.toNat ∧
      (∃ m, W.pool.nodes x = some m ∧ (m.record.isDirectory = true → m.Tidy)) ∧
      ∀ ox, W.opens x = some ox → 0 < ox.openers) :
    Leads (Mounts K) W (d.remove name) fun res W' =>
      (res = .ok () ∧ ∃ x m n', W.pool.nodes x = some m ∧ Removable n o.denials name x m ∧
          Unlinked K W id n name x m n' W') ∨
        ((K.faulty ∨ ∀ x m, W.pool.nodes x = some m → ¬Removable n o.denials name x m) ∧
          ∃ e, res = .error (.failed e) ∧
            (W' = W ∨ (K.faulty ∧ ∃ n', W.Becomes id n' W' ∧ n'.Tidy ∧ n'.child = n.child ∧
              n'.record.isDirectory = n.record.isDirectory))) := by
  unfold remove
  by_cases hdot : isDotName name = true
  · rw [if_pos hdot]
    refine Leads.failBind (.inr ⟨.inr fun x m _ h => ?_, _, rfl, .inl rfl⟩)
    have := h.named
    rw [hdot] at this
    cases this
  rw [if_neg hdot]
  have hdot : isDotName name = false := by simpa using hdot
  refine Yields.bind (find_yields hd hn ho name) ?_
  cases hf : n.find name with
  | none =>
    refine Leads.fail (.inr ⟨.inr fun x m _ h => ?_, _, rfl, .inl rfl⟩)
    have hc := h.child
    rw [Node.child, hf] at hc
    cases hc
  | some j =>
    have hj := Node.find_some hf
    have hc := ht.child_eq hj
    generalize hx : (n.slot j).number = x at hj hc
    obtain ⟨hne, hdata, ⟨m, hm, htm⟩, hpos⟩ := hchild x hdot hc
    dsimp only [Option.map_some]
    rw [hx]
    -- Whatever could be removed under this name is the inode that was found.
    have hnode (x' : UInt32) (m' : Node) (hm' : W.pool.nodes x' = some m')
        (h : Removable n o.denials name x' m') : m' = m := by
      have hx' := h.child
      rw [hc] at hx'
      cases hx'
      rw [hm] at hm'
      cases hm'
      rfl
    refine Yields.bind (Inode.acquire_yields hK hm) ?_
    have ho' : (W.opened x).opens id = some o := by rw [World.opened_opens_of_ne W hne.symm, ho]
    refine Leads.andThen (unlink_leads hK hd hn ho' ht hj hne hm (W.opened_opens_self x) htm) ?_ ?_
    · rintro r W' (⟨rfl, -⟩ | ⟨-, e, rfl, -⟩)
      · exact sober_ok
      · exact sober_failed
    -- The inode is closed again in either case. After a removal that gives it up unless others have it
    -- open.
    rintro r W₂ (⟨rfl, hz, hfree, n', W₁, hbecomes, rfl, ht', hchild', hdir, hsize, howned, hsame⟩ |
      ⟨hwhy, e, rfl, hsame⟩)
    · refine Leads.mono (closeUnlinked_leads hK hne hdata hm hpos hbecomes ht' hchild' hdir hsize howned
        hsame) ?_
      rintro res W' ⟨rfl, hunlinked⟩
      exact ⟨rfl, .inl ⟨rfl, x, m, n', hm, ⟨hdot, hc, hfree, hz⟩, hunlinked⟩⟩
    · have hwhy' : K.faulty ∨ ∀ x' m', W.pool.nodes x' = some m' → ¬Removable n o.denials name x' m' := by
        rcases hwhy with hf | hpos | hbusy
        · exact .inl hf
        · refine .inr fun x' m' _ h => ?_
          have := h.writable
          omega
        · exact .inr fun x' m' hm' h => h.empty (hnode x' m' hm' h ▸ hbusy)
      rcases hsame with rfl | ⟨hf, n', hbecomes, ht', hchild', hdir⟩
      · refine Yields.leads (Inode.close_opened hK hm hpos) ⟨rfl, .inr ⟨hwhy', e, rfl, .inl rfl⟩⟩
      · rw [World.eq_opened hbecomes.opens]
        have hm₂ : W₂.pool.nodes x = some m := by
          rw [hbecomes.node_of_ne hne]
          exact hm
        refine Yields.leads (Inode.close_opened (W := ⟨W₂.pool, W.opens⟩) hK hm₂ hpos)
          ⟨rfl, .inr ⟨hwhy', e, rfl, .inr ⟨hf, n', ?_, ht', hchild', hdir⟩⟩⟩
        exact ⟨hbecomes.nodes, hbecomes.held, rfl⟩

/-- Directory `id`, which was `n`, has lost the entry for `name` in slot `j`, and inode `x` that it stood for
is marked as removed or gone. -/
structure Parted (K : Regime) (W : World) (id : UInt32) (n : Node) (name : String) (j : Nat) (x : UInt32)
    (m n' : Node) (W' : World) : Prop where
  named : isDotName name = false
  find : n.find name = some j
  entry : n.EntryAt j name x
  entries : ∀ i nm y, n'.EntryAt i nm y ↔ n.EntryAt i nm y ∧ i ≠ j
  isDirectory : n'.record.isDirectory = n.record.isDirectory
  size : n'.size = n.size
  dropped : Dropped K W id x m n' W'

/-- What striking an entry out comes to where no write fails: its slot is freed and its inode is marked as
removed, or nothing changes. -/
def Struck (K : Regime) (W : World) (id : UInt32) (n : Node) (j : Nat) (x : UInt32) (ox : Opening)
    (res : Except Stop Unit) (W' : World) : Prop :=
  (res = .ok () ∧ ∃ n' W₁, W.Becomes id n' W₁ ∧ W' = W₁.setOpening x (some { ox with removed := true }) ∧
      n'.size = n.size ∧ Inode.Wrote K W n (j * slotSize) (n.slot j).freed.encode slotSize n' W₁) ∨
    ((∃ e, res = .error (.failed e)) ∧ W' = W)

/-- Unlinking an open inode clears its slot and marks it as removed, or changes nothing. -/
theorem unlink_strikes (hK : K.Fits) (hf : ¬K.faulty) (hd : d.inode = ⟨id⟩) (hn : W.pool.nodes id = some n)
    (ho : W.opens id = some o) (hj : j < n.slots) (hne : x ≠ id) (hm : W.pool.nodes x = some m)
    (hox : W.opens x = some ox) :
    Leads (Mounts K) W (d.unlink (j * slotSize) (n.slot j) ⟨x⟩) (Struck K W id n j x ox) := by
  have hstrike : Leads (Mounts K) W (do
      d.writeSlot (j * slotSize) (n.slot j).freed
      Inode.markRemoved ⟨x⟩) (Struck K W id n j x ox) := by
    refine Leads.mono (clearSlot_leads hK hd hn ho hj hne hm hox) ?_
    rintro res W' (⟨hres, -, h⟩ | ⟨-, e, rfl, rfl | ⟨hfaulty, -⟩⟩)
    · exact .inl ⟨hres, h⟩
    · exact .inr ⟨⟨e, rfl⟩, rfl⟩
    · exact absurd hfaulty hf
  unfold unlink
  refine Yields.bind (Inode.isDirectory_yields hm hox) ?_
  -- A directory is looked through first. What has entries is left alone.
  split
  · refine Yields.bind (isEmpty_scans (d := { inode := ⟨x⟩ }) rfl hm hox) ?_
    split
    · exact Leads.failBind (.inr ⟨⟨_, rfl⟩, rfl⟩)
    · exact hstrike
  · exact hstrike

/-- Where no write fails a name is removed completely or not at all, whatever else is in the table. -/
theorem remove_parts (hK : K.Fits) (hf : ¬K.faulty) (hd : d.inode = ⟨id⟩) (hn : W.pool.nodes id = some n)
    (ho : W.opens id = some o)
    (hchild : ∀ x, isDotName name = false → n.child name = some x → x ≠ id ∧ K.IsData x.toNat ∧
      W.pool.nodes x ≠ none ∧ ∀ ox, W.opens x = some ox → 0 < ox.openers) :
    Leads (Mounts K) W (d.remove name) fun res W' =>
      (res = .ok () ∧ ∃ j x m n', W.pool.nodes x = some m ∧ Parted K W id n name j x m n' W') ∨
        ((∃ e, res = .error (.failed e)) ∧ W' = W) := by
  unfold remove
  by_cases hdot : isDotName name = true
  · rw [if_pos hdot]
    exact Leads.failBind (.inr ⟨⟨_, rfl⟩, rfl⟩)
  rw [if_neg hdot]
  have hdot : isDotName name = false := by simpa using hdot
  refine Yields.bind (find_yields hd hn ho name) ?_
  cases hfound : n.find name with
  | none => exact Leads.fail (.inr ⟨⟨_, rfl⟩, rfl⟩)
  | some j =>
    have hj := Node.find_some hfound
    generalize hx : (n.slot j).number = x at hj
    have hc : n.child name = some x := by rw [Node.child, hfound, Option.map_some, hx]
    obtain ⟨hne, hdata, hstored, hpos⟩ := hchild x hdot hc
    obtain ⟨m, hm⟩ := Option.ne_none_iff_exists'.1 hstored
    dsimp only [Option.map_some]
    rw [hx]
    refine Yields.bind (Inode.acquire_yields hK hm) ?_
    have ho' : (W.opened x).opens id = some o := by rw [World.opened_opens_of_ne W hne.symm, ho]
    -- The inode is open while its slot is freed, so it goes when it is closed again, unless others have it
    -- open.
    refine Leads.andThen (unlink_strikes hK hf hd hn ho' hj.lt hne hm (W.opened_opens_self x)) ?_ ?_
    · rintro r W₁ (⟨rfl, -⟩ | ⟨⟨e, rfl⟩, -⟩)
      · exact sober_ok
      · exact sober_failed
    · rintro r W₁ (⟨rfl, n', W₂, hbecomes, rfl, hsize, hwrote⟩ | ⟨⟨e, rfl⟩, rfl⟩)
      · have hsame : K.free W₂.pool.store.used = K.free W.pool.store.used := by
          have hfree := hwrote.free
          rw [hsize] at hfree
          exact Nat.add_right_cancel hfree
        refine Leads.mono (closeDropped_leads hK hne hdata hm hpos hbecomes hsame) ?_
        rintro res W' ⟨rfl, hdropped⟩
        exact ⟨rfl, .inl ⟨rfl, j, x, m, n', hm, hdot, hfound, hj,
          fun _ _ _ => Node.freed_entry_iff hsize hwrote.byte, hwrote.isDirectory, hsize, hdropped⟩⟩
      · exact Yields.leads (Inode.close_opened hK hm hpos) ⟨rfl, .inr ⟨⟨e, rfl⟩, rfl⟩⟩

end Unlink

end Directory

end InodeVolume
