import InodeVolume.Inode
import InodeVolume.Proofs.StoredInodes

/-!
# Volumes with open inodes

A `World` is a mounted volume seen as a pool of stored inodes and, for each open inode, how often it is
open, whether it is to be given up, and how many denials of writing are in force. The record that the
registry keeps is no matter of its own: it is always that of the stored inode (`World.entry`).

Actions on open inodes change the registry and the pool one after the other, so they are first looked
at with the two apart (`Bare`). What an action comes to is then said of worlds (`leads_of_bare`).
-/

namespace InodeVolume

open Record

/-- How an inode is open. -/
structure Opening where
  openers : Nat
  removed : Bool
  denials : Nat
  deriving DecidableEq

/-- A mounted volume: what is stored and what is open. -/
structure World where
  pool : Pool
  opens : UInt32 → Option Opening

namespace World

/-- The registry's entry for inode `id`. -/
def entry (W : World) (id : UInt32) : Option OpenInode :=
  (W.opens id).bind fun o => (W.pool.nodes id).map fun n => ⟨o.openers, o.removed, o.denials, n.record⟩

/-- The world with another state of inode `id`. -/
def setOpening (W : World) (id : UInt32) (o : Option Opening) : World :=
  { W with opens := Function.update W.opens id o }

/-- One opener more. -/
def moreOpen : Option Opening → Opening
  | some o => { o with openers := o.openers + 1 }
  | none => ⟨1, false, 0⟩

/-- The world in which inode `id` has one opener more. -/
def opened (W : World) (id : UInt32) : World := W.setOpening id (some (moreOpen (W.opens id)))

@[simp] theorem setOpening_pool (W : World) (id : UInt32) (o : Option Opening) :
    (W.setOpening id o).pool = W.pool := rfl

@[simp] theorem opened_pool (W : World) (id : UInt32) : (W.opened id).pool = W.pool := rfl

@[simp] theorem setOpening_opens (W : World) (id : UInt32) (o : Option Opening) :
    (W.setOpening id o).opens = Function.update W.opens id o := rfl

theorem setOpening_opens_self (W : World) (id : UInt32) : W.setOpening id (W.opens id) = W := by
  rw [setOpening, Function.update_eq_self]

theorem setOpening_self (W : World) (id : UInt32) (o : Option Opening) :
    (W.setOpening id o).setOpening id (W.opens id) = W := by
  simp [setOpening]

theorem setOpening_idem (W : World) (id : UInt32) (o o' : Option Opening) :
    (W.setOpening id o).setOpening id o' = W.setOpening id o' := by
  simp [setOpening]

/-- A world in which the same is open as in another one with one opener more. -/
theorem eq_opened {W W' : World} {id : UInt32} (h : W'.opens = (W.opened id).opens) :
    W' = (⟨W'.pool, W.opens⟩ : World).opened id := by
  obtain ⟨pool, opens⟩ := W'
  simp only at h
  subst h
  rfl

theorem opened_opens_self (W : World) (id : UInt32) :
    (W.opened id).opens id = some (moreOpen (W.opens id)) := Function.update_self ..

theorem opened_opens_of_ne (W : World) {id i : UInt32} (h : i ≠ id) :
    (W.opened id).opens i = W.opens i := Function.update_of_ne h ..

theorem entry_of_some {W : World} {id : UInt32} {o : Opening} {n : Node} (ho : W.opens id = some o)
    (hn : W.pool.nodes id = some n) :
    W.entry id = some ⟨o.openers, o.removed, o.denials, n.record⟩ := by
  simp [entry, ho, hn]

/-- A change to one inode changes its entry only. -/
theorem entry_eq_update (W W' : World) (id : UInt32) (hopens : ∀ i, i ≠ id → W'.opens i = W.opens i)
    (hnodes : ∀ i, i ≠ id → W'.pool.nodes i = W.pool.nodes i) :
    W'.entry = Function.update W.entry id (W'.entry id) := by
  funext i
  by_cases hi : i = id
  · rw [hi, Function.update_self]
  · rw [Function.update_of_ne hi, entry, entry, hopens i hi, hnodes i hi]

theorem entry_setOpening {W : World} {id : UInt32} {o : Opening} {n : Node}
    (hn : W.pool.nodes id = some n) :
    (W.setOpening id (some o)).entry =
      Function.update W.entry id (some ⟨o.openers, o.removed, o.denials, n.record⟩) := by
  rw [entry_eq_update W (W.setOpening id (some o)) id (fun i hi => Function.update_of_ne hi _ _)
    fun _ _ => rfl]
  congr 1
  exact entry_of_some (by simp) hn

theorem entry_of_none {W : World} {id : UInt32} (ho : W.opens id = none) : W.entry id = none := by
  simp [entry, ho]

end World

/-- The volume shows the world `W`. -/
structure Mounts (K : Regime) (W : World) (v : Volume) : Prop where
  disk : Holds K W.pool v.disk
  space : v.space = K.space
  registry : ∀ id, v.registry[id]? = W.entry id
  /-- What is open is stored. -/
  live : ∀ id, W.opens id ≠ none → W.pool.nodes id ≠ none

/-! ## Pool and registry apart -/

/-- A pool and a registry. -/
structure Bare where
  pool : Pool
  registry : UInt32 → Option OpenInode

/-- The volume shows this pool and this registry. -/
structure ShowsBare (K : Regime) (B : Bare) (v : Volume) : Prop where
  disk : Holds K B.pool v.disk
  space : v.space = K.space
  registry : ∀ id, v.registry[id]? = B.registry id

theorem Registry.getElem?_insert (r : Registry) (id : UInt32) (node : OpenInode) (i : UInt32) :
    (r.insert id node)[i]? = if i = id then some node else r[i]? := by
  rw [Std.TreeMap.getElem?_insert]
  by_cases h : i = id
  · simp [h]
  · simp [h, Ne.symm h]

theorem Registry.getElem?_erase (r : Registry) (id i : UInt32) :
    (r.erase id)[i]? = if i = id then none else r[i]? := by
  rw [Std.TreeMap.getElem?_erase]
  by_cases h : i = id
  · simp [h]
  · simp [h, Ne.symm h]

section Bare

variable {K : Regime} {P : Pool} {reg : UInt32 → Option OpenInode} {α : Type}

/-- What an error of the disk is to the volume. -/
def raised {α : Type} : Except Error α → Except Stop α
  | .ok v => .ok v
  | .error e => .error (.failed e)

@[simp] theorem handled_raised {α : Type} (r : Except Error α) : handled (raised r) = .ok r := by
  cases r <;> rfl

theorem onDisk_leads {x : SpaceMap → DiskM α} {post : Except Error α → Pool → Prop}
    (h : Leads (Holds K) P (x K.space) post) :
    Leads (ShowsBare K) ⟨P, reg⟩ (VolumeM.onDisk x) fun res B =>
      B.registry = reg ∧ ∃ r, res = raised r ∧ post r B.pool := by
  rintro ⟨disk, space, registry⟩ ⟨hd, hs, hr⟩
  simp only at hd hs hr
  subst hs
  rcases h.run hd with ⟨v, disk', P', hx, hP', hpost⟩ | ⟨e, disk', P', hx, hP', hpost⟩
  · simp only [VolumeM.onDisk, hx]
    exact ⟨⟨P', reg⟩, ⟨hP', rfl, hr⟩, rfl, .ok v, rfl, hpost⟩
  · simp only [VolumeM.onDisk, hx]
    exact ⟨⟨P', reg⟩, ⟨hP', rfl, hr⟩, rfl, .error e, rfl, hpost⟩

theorem transfer_leads {x : DiskAction α} {post : α → Pool → Prop} (h : Replies (Holds K) P x post) :
    Leads (ShowsBare K) ⟨P, reg⟩ (VolumeM.transfer x) fun res B =>
      B.registry = reg ∧ ∃ v, res = .ok v ∧ post v B.pool := by
  rintro ⟨disk, space, registry⟩ ⟨hd, hs, hr⟩
  obtain ⟨v, disk', P', hx, hP', hpost⟩ := h disk hd
  simp only [VolumeM.transfer, hx]
  exact ⟨⟨P', reg⟩, ⟨hP', hs, hr⟩, rfl, v, rfl, hpost⟩

theorem registry_answers :
    Answers (ShowsBare K) ⟨P, reg⟩ VolumeM.registry fun r => ∀ id, r[id]? = reg id :=
  fun v hs => ⟨⟨P, reg⟩, hs, ⟨v.registry, rfl, hs.registry⟩, rfl⟩

theorem insert_yields (id : UInt32) (node : OpenInode) :
    Yields (ShowsBare K) ⟨P, reg⟩ (VolumeM.changeRegistry (·.insert id node)) ()
      ⟨P, Function.update reg id (some node)⟩ := by
  rintro ⟨disk, space, registry⟩ ⟨hd, hs, hr⟩
  refine ⟨⟨P, Function.update reg id (some node)⟩, ⟨hd, hs, fun i => ?_⟩, rfl, rfl⟩
  show _ = Function.update reg id (some node) i
  rw [Registry.getElem?_insert, Function.update_apply]
  split
  · rfl
  · exact hr i

theorem erase_yields (id : UInt32) :
    Yields (ShowsBare K) ⟨P, reg⟩ (VolumeM.changeRegistry (·.erase id)) ()
      ⟨P, Function.update reg id none⟩ := by
  rintro ⟨disk, space, registry⟩ ⟨hd, hs, hr⟩
  refine ⟨⟨P, Function.update reg id none⟩, ⟨hd, hs, fun i => ?_⟩, rfl, rfl⟩
  show _ = Function.update reg id none i
  rw [Registry.getElem?_erase, Function.update_apply]
  split
  · rfl
  · exact hr i

theorem entry_yields {i : Inode} {node : OpenInode} (h : reg i.number = some node) :
    Yields (ShowsBare K) ⟨P, reg⟩ i.entry node ⟨P, reg⟩ := by
  refine Answers.bind registry_answers fun r hr => ?_
  rw [hr, h]
  exact Yields.pure

/-- What an action comes to, said of worlds. -/
theorem leads_of_bare {W : World} {x : VolumeM α} {post : Except Stop α → World → Prop}
    (h : (∀ id, W.opens id ≠ none → W.pool.nodes id ≠ none) →
      Leads (ShowsBare K) ⟨W.pool, W.entry⟩ x fun res B => ∃ W' : World, W'.pool = B.pool ∧
        W'.entry = B.registry ∧ (∀ id, W'.opens id ≠ none → W'.pool.nodes id ≠ none) ∧ post res W') :
    Leads (Mounts K) W x post := by
  intro v hv
  rcases (h hv.live).run ⟨hv.disk, hv.space, hv.registry⟩ with
    ⟨w, v', B, hx, hs, W', hpool, hentry, hlive, hpost⟩ |
    ⟨e, v', B, hx, hs, W', hpool, hentry, hlive, hpost⟩
  · rw [hx]
    exact ⟨W', ⟨hpool ▸ hs.disk, hs.space, fun id => by rw [hentry]; exact hs.registry id, hlive⟩, hpost⟩
  · rw [hx]
    exact ⟨W', ⟨hpool ▸ hs.disk, hs.space, fun id => by rw [hentry]; exact hs.registry id, hlive⟩, hpost⟩

end Bare

/-! ## Changes of one inode -/

/-- Inode `id` has become `n'`, and nothing else has changed but which blocks are in use. -/
structure World.Becomes (W : World) (id : UInt32) (n' : Node) (W' : World) : Prop where
  nodes : W'.pool.nodes = Function.update W.pool.nodes id (some n')
  held : W'.pool.held = W.pool.held
  opens : W'.opens = W.opens

/-- Nothing has changed but that blocks may have been lost. -/
structure World.Stays (K : Regime) (W W' : World) : Prop where
  nodes : W'.pool.nodes = W.pool.nodes
  held : W'.pool.held = W.pool.held
  opens : W'.opens = W.opens
  leak : Leak K W.pool.store.used W'.pool.store.used

section Changes

variable {K : Regime} {W : World} {id : UInt32} {n n' : Node} {o : Opening} {α : Type}

theorem World.Stays.refl (W : World) : W.Stays K W := ⟨rfl, rfl, rfl, Leak.refl _⟩

theorem World.Becomes.node {W' : World} (h : W.Becomes id n' W') : W'.pool.nodes id = some n' := by
  rw [h.nodes, Function.update_self]

theorem World.Becomes.node_of_ne {W' : World} (h : W.Becomes id n' W') {i : UInt32} (hi : i ≠ id) :
    W'.pool.nodes i = W.pool.nodes i := by
  rw [h.nodes, Function.update_of_ne hi]

theorem World.Becomes.trans {W' W'' : World} {n'' : Node} (h : W.Becomes id n' W')
    (h' : W'.Becomes id n'' W'') : W.Becomes id n'' W'' :=
  ⟨by rw [h'.nodes, h.nodes, Function.update_idem], h'.held.trans h.held, h'.opens.trans h.opens⟩

/-- The world of a pool in which one inode has changed, with its new record in the registry. -/
theorem becomes_of_bare {P : Pool} (hlive : ∀ i, W.opens i ≠ none → W.pool.nodes i ≠ none)
    (ho : W.opens id = some o) (hnodes : P.nodes = Function.update W.pool.nodes id (some n'))
    (hheld : P.held = W.pool.held) :
    let W' : World := ⟨P, W.opens⟩
    W'.entry = Function.update W.entry id (some ⟨o.openers, o.removed, o.denials, n'.record⟩) ∧
      (∀ i, W'.opens i ≠ none → W'.pool.nodes i ≠ none) ∧ W.Becomes id n' W' := by
  have hself : P.nodes id = some n' := by rw [hnodes, Function.update_self]
  refine ⟨?_, fun i hi => ?_, ⟨hnodes, hheld, rfl⟩⟩
  · rw [World.entry_eq_update W ⟨P, W.opens⟩ id (fun _ _ => rfl) fun i hi => by
      show P.nodes i = _
      rw [hnodes, Function.update_of_ne hi]]
    -- Of the entry only the record has changed.
    congr 1
    exact World.entry_of_some ho hself
  · by_cases he : i = id
    · simp [he, hself]
    · show P.nodes i ≠ none
      rw [hnodes, Function.update_of_ne he]
      exact hlive i hi

/-- In a pool with the same inodes, the same is open. -/
theorem same_of_bare {P : Pool} (hlive : ∀ i, W.opens i ≠ none → W.pool.nodes i ≠ none)
    (hnodes : P.nodes = W.pool.nodes) :
    let W' : World := ⟨P, W.opens⟩
    W'.entry = W.entry ∧ ∀ i, W'.opens i ≠ none → W'.pool.nodes i ≠ none := by
  refine ⟨?_, fun i hi => ?_⟩
  · funext i
    simp only [World.entry, hnodes]
  · show P.nodes i ≠ none
    rw [hnodes]
    exact hlive i hi

theorem open_entry_yields (hn : W.pool.nodes id = some n) (ho : W.opens id = some o) :
    Yields (Mounts K) W (Inode.entry ⟨id⟩) ⟨o.openers, o.removed, o.denials, n.record⟩ W := by
  refine leads_of_bare fun hlive => ?_
  refine Leads.mono (entry_yields (World.entry_of_some ho hn)) ?_
  rintro res B ⟨rfl, rfl⟩
  exact ⟨W, rfl, rfl, hlive, rfl, rfl⟩

/-- Looking something up on the disk. -/
theorem onDisk_yields {x : SpaceMap → DiskM α} {v : α}
    (h : Yields (Holds K) W.pool (x K.space) v W.pool) : Yields (Mounts K) W (VolumeM.onDisk x) v W := by
  refine leads_of_bare fun hlive => ?_
  refine Leads.mono (onDisk_leads h) ?_
  rintro res ⟨P, reg⟩ ⟨rfl, r, rfl, rfl, rfl⟩
  exact ⟨W, rfl, rfl, hlive, rfl, rfl⟩

/-- Looking something up on the disk that only reads. -/
theorem transfer_yields {x : DiskAction α} {v : α} (h : Tells (Holds K) W.pool x v) :
    Yields (Mounts K) W (VolumeM.transfer x) v W := by
  refine leads_of_bare fun hlive => ?_
  refine Leads.mono (transfer_leads h) ?_
  rintro res ⟨P, reg⟩ ⟨rfl, v, rfl, rfl, rfl⟩
  exact ⟨W, rfl, rfl, hlive, rfl, rfl⟩

end Changes

end InodeVolume
