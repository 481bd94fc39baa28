import InodeVolume.Proofs.Contents
import InodeVolume.Proofs.Supply

/-!
# The pool of stored inodes

A `Pool` is a disk seen as what it is for: which inodes are stored on it, with their records and the
bytes of their contents, and which blocks have been taken and are not in an inode yet. In a sound pool
(`Pool.Sound`) no block serves two purposes and every block in use is marked as used; where writes do
not fail, every other block is free.

Main statement: a change to one inode and to the blocks held keeps a pool sound if it only uses blocks
that this inode had, that were held, or that were free (`Pool.Sound.update`).
-/

namespace InodeVolume

/-- Whether a block can be that of an inode: it is there for data, or is the first one. -/
def Regime.Hosts (K : Regime) (b : UInt32) : Prop := b = 0 ∨ K.IsData b.toNat

theorem Regime.Hosts.plain {K : Regime} {b : UInt32} (hK : K.Fits) (h : K.Hosts b) :
    K.Plain b.toNat := by
  rcases h with rfl | hd
  · exact hK.plain_zero
  · exact hd.plain

/-- A stored inode. -/
structure Node where
  record : Record
  /-- The blocks of its contents and of their tables. -/
  owned : List UInt32
  /-- The bytes of its contents, and zeros behind them. -/
  byte : Nat → UInt8

/-- The length of the contents in bytes. -/
def Node.size (n : Node) : Nat := n.record.length.toNat

/-- The inode `n` is stored under `id`. -/
structure Stored (K : Regime) (D : Nat → Block) (id : UInt32) (n : Node) : Prop where
  record : Record.decode (D id.toNat) = .ok n.record
  indexed : n.record.Indexed K D (Record.dataBlocks n.size)
  owned : n.owned = n.record.blocksIn D (Record.dataBlocks n.size)
  byte : ∀ i, i < Record.dataBlocks n.size * blockSize → n.record.byteIn D i = n.byte i
  tail : ∀ i, n.size ≤ i → n.byte i = 0

section Stored

variable {K : Regime} {D D' : Nat → Block} {id b : UInt32} {n : Node}

theorem Stored.owned_data (h : Stored K D id n) (hb : b ∈ n.owned) : K.IsData b.toNat :=
  h.indexed.data b (h.owned ▸ hb)

theorem Stored.owned_nodup (h : Stored K D id n) : n.owned.Nodup :=
  h.owned ▸ h.indexed.nodup

theorem Stored.length_owned (h : Stored K D id n) : n.owned.length = Record.totalBlocks n.size := by
  rw [h.owned, Record.length_blocksIn, Record.totalBlocks_eq]

theorem Stored.tail_zero (h : Stored K D id n) {i : Nat} (hi : n.size ≤ i)
    (hc : i < Record.dataBlocks n.size * blockSize) : n.record.byteIn D i = 0 := by
  rw [h.byte i hc, h.tail i hi]

/-- What is stored depends on the block of the record and the blocks it refers to. -/
theorem Stored.congr (h : Stored K D id n) (hid : D' id.toNat = D id.toNat)
    (howned : ∀ b ∈ n.owned, D' b.toNat = D b.toNat) : Stored K D' id n := by
  -- All that is read of the inode is its record and the blocks that it owns.
  have hblocks (b : UInt32) (hb : b ∈ n.record.blocksIn D (Record.dataBlocks n.size)) :
      D' b.toNat = D b.toNat := howned b (h.owned ▸ hb)
  have htables (t : UInt32) (ht : t ∈ n.record.tablesIn D (Record.dataBlocks n.size)) :
      D' t.toNat = D t.toNat := hblocks t (Record.table_mem ht)
  refine ⟨?_, h.indexed.congr htables, ?_, fun i hi => ?_, h.tail⟩
  · rw [hid]
    exact h.record
  · rw [Record.blocksIn_congr htables]
    exact h.owned
  · rw [Record.byteIn_congr hblocks hi]
    exact h.byte i hi

end Stored

/-- A disk with stored inodes. -/
structure Pool where
  store : Store
  nodes : UInt32 → Option Node
  /-- Blocks that were taken and are in no inode. -/
  held : List UInt32

namespace Pool

/-- The blocks of inode `id`, its record's block first. -/
def blocks (P : Pool) (id : UInt32) : List UInt32 := (P.nodes id).elim [] fun n => id :: n.owned

/-- The blocks that a change to inode `id` may have to do with. -/
def area (P : Pool) (id : UInt32) : List UInt32 := P.blocks id ++ P.held

/-- No block serves two purposes, and every block in use is marked as used. -/
structure Sound (K : Regime) (P : Pool) : Prop where
  stored : ∀ id n, P.nodes id = some n → Stored K P.store.data id n
  place : ∀ id, P.nodes id ≠ none → K.Hosts id
  held : ∀ b ∈ P.held, K.Hosts b
  nodup : ∀ id, (P.area id).Nodup
  apart : ∀ id id' b, b ∈ P.blocks id → b ∈ P.blocks id' → id = id'
  used : ∀ id, ∀ b ∈ P.area id, P.store.used b.toNat = true
  reserved : ∀ i, i < K.dataStart → P.store.used i = true
  /-- Where writes do not fail, no block is lost. -/
  exact : ¬K.faulty → ∀ i, P.store.used i = true →
    i < K.dataStart ∨ ∃ id, ∃ b ∈ P.area id, b.toNat = i

variable {K : Regime} {P : Pool} {id id' b : UInt32} {n : Node}

theorem blocks_of_some (h : P.nodes id = some n) : P.blocks id = id :: n.owned := by
  simp [blocks, h]

theorem blocks_of_none (h : P.nodes id = none) : P.blocks id = [] := by
  simp [blocks, h]

theorem mem_blocks_self (h : P.nodes id = some n) : id ∈ P.blocks id := by
  simp [blocks, h]

theorem mem_blocks_owned (h : P.nodes id = some n) (hb : b ∈ n.owned) : b ∈ P.blocks id := by
  simp [blocks, h, hb]

theorem mem_area_blocks (hb : b ∈ P.blocks id) : b ∈ P.area id := List.mem_append_left _ hb

theorem mem_area_held (hb : b ∈ P.held) : b ∈ P.area id := List.mem_append_right _ hb

theorem Sound.self_not_owned (hP : P.Sound K) (h : P.nodes id = some n) : id ∉ n.owned := by
  have hn := (List.nodup_append.1 (hP.nodup id)).1
  rw [blocks_of_some h] at hn
  exact (List.nodup_cons.1 hn).1

/-- A block of another inode is not in the area of this one. -/
theorem Sound.not_mem_area (hP : P.Sound K) (hne : id' ≠ id) (hb : b ∈ P.blocks id') :
    b ∉ P.area id := by
  intro hm
  rcases List.mem_append.1 hm with hm | hm
  · exact hne (hP.apart id' id b hb hm)
  · have hd := (List.nodup_append.1 (hP.nodup id')).2.2
    exact hd b hb b hm rfl

theorem Sound.mem_area_lt (hK : K.Fits) (hP : P.Sound K) (hb : b ∈ P.area id) : b.toNat < K.count := by
  rcases List.mem_append.1 hb with hb | hb
  · cases hn : P.nodes id with
    | none => simp [blocks_of_none hn] at hb
    | some n =>
      rw [blocks_of_some hn] at hb
      rcases List.mem_cons.1 hb with rfl | hb
      · exact ((hP.place b (by simp [hn])).plain hK).1
      · exact ((hP.stored id n hn).owned_data hb).2
  · exact ((hP.held b hb).plain hK).1

/-- A free block is a block for data. -/
theorem Sound.free_data (hP : P.Sound K) (hb : b.toNat < K.count) (hfree : P.store.used b.toNat = false) :
    K.IsData b.toNat := by
  refine ⟨?_, hb⟩
  by_contra hlt
  rw [hP.reserved _ (Nat.lt_of_not_le hlt)] at hfree
  cases hfree

/-- The pool after inode `id` has become `o` and the blocks held are others. -/
def put (P : Pool) (id : UInt32) (o : Option Node) (held : List UInt32) (st : Store) : Pool where
  store := st
  nodes := Function.update P.nodes id o
  held := held

section Put

variable {o : Option Node} {held : List UInt32} {st : Store}

@[simp] theorem put_store : (P.put id o held st).store = st := rfl

@[simp] theorem put_held : (P.put id o held st).held = held := rfl

@[simp] theorem put_nodes_self : (P.put id o held st).nodes id = o := Function.update_self ..

theorem put_nodes_of_ne (h : id' ≠ id) : (P.put id o held st).nodes id' = P.nodes id' :=
  Function.update_of_ne h ..

theorem put_blocks_of_ne (h : id' ≠ id) : (P.put id o held st).blocks id' = P.blocks id' := by
  simp only [blocks, put_nodes_of_ne h]

theorem put_blocks_self : (P.put id o held st).blocks id = o.elim [] fun n => id :: n.owned := by
  simp only [blocks, put_nodes_self]

/-- What a change to inode `id` and to the blocks held has to keep to. -/
structure Fair (K : Regime) (P : Pool) (id : UInt32) (o : Option Node) (held : List UInt32)
    (st : Store) : Prop where
  stored : ∀ n, o = some n → Stored K st.data id n
  place : o ≠ none → K.Hosts id
  heldHosts : ∀ b ∈ held, K.Hosts b
  nodup : ((P.put id o held st).area id).Nodup
  /-- Only blocks of the inode, blocks held and free ones are used. -/
  source : ∀ b ∈ (P.put id o held st).area id, b ∈ P.area id ∨ P.store.used b.toNat = false
  used : ∀ b ∈ (P.put id o held st).area id, st.used b.toNat = true
  reserved : ∀ i, i < K.dataStart → st.used i = true
  /-- Blocks elsewhere stay in use. -/
  kept : ∀ i, P.store.used i = true → (∀ b ∈ P.area id, b.toNat ≠ i) → st.used i = true
  frame : ∀ i, P.store.used i = true → (∀ b ∈ P.area id, b.toNat ≠ i) →
    st.data i = P.store.data i
  /-- Where writes do not fail, nothing is lost. -/
  exact : ¬K.faulty → ∀ i, st.used i = true →
    (P.store.used i = true ∧ ∀ b ∈ P.area id, b.toNat ≠ i) ∨
      ∃ b ∈ (P.put id o held st).area id, b.toNat = i

/-- A fair change keeps a pool sound. -/
theorem Sound.update (hP : P.Sound K) (h : Fair K P id o held st) : (P.put id o held st).Sound K := by
  -- Blocks of other inodes are none of those that the change has to do with.
  have hother (id' b : UInt32) (hne : id' ≠ id) (hb : b ∈ P.blocks id') :
      ∀ b' ∈ P.area id, b'.toNat ≠ b.toNat := fun b' hb' he =>
    hP.not_mem_area hne hb (UInt32.toNat_inj.1 he ▸ hb')
  have hothers (id' b : UInt32) (hne : id' ≠ id) (hb : b ∈ P.blocks id') :
      b ∉ (P.put id o held st).area id := by
    intro hm
    rcases h.source b hm with hm | hfree
    · exact hP.not_mem_area hne hb hm
    · rw [hP.used id' b (mem_area_blocks hb)] at hfree
      cases hfree
  refine ⟨fun id' n hn => ?_, fun id' hn => ?_, h.heldHosts, fun id' => ?_, fun id₁ id₂ b h₁ h₂ => ?_,
    fun id' b hb => ?_, h.reserved, fun hf i hi => ?_⟩
  · by_cases he : id' = id
    · subst he
      exact h.stored n (by simpa using hn)
    · rw [put_nodes_of_ne he] at hn
      refine (hP.stored id' n hn).congr (h.frame _ ?_ ?_) fun b hb => h.frame _ ?_ ?_
      · exact hP.used id' id' (mem_area_blocks (mem_blocks_self hn))
      · exact hother id' id' he (mem_blocks_self hn)
      · exact hP.used id' b (mem_area_blocks (mem_blocks_owned hn hb))
      · exact hother id' b he (mem_blocks_owned hn hb)
  · by_cases he : id' = id
    · subst he
      exact h.place (by simpa using hn)
    · rw [put_nodes_of_ne he] at hn
      exact hP.place id' hn
  · by_cases he : id' = id
    · subst he
      exact h.nodup
    · rw [area, put_blocks_of_ne he, put_held, List.nodup_append]
      refine ⟨(List.nodup_append.1 (hP.nodup id')).1, ?_, fun b hb b' hb' hbb => ?_⟩
      · exact (List.nodup_append.1 h.nodup).2.1
      · subst hbb
        exact hothers id' b he hb (mem_area_held (P := P.put id o held st) hb')
  · by_cases he₁ : id₁ = id
    · by_cases he₂ : id₂ = id
      · rw [he₁, he₂]
      · rw [put_blocks_of_ne he₂] at h₂
        subst he₁
        exact absurd (mem_area_blocks h₁) (hothers id₂ b he₂ h₂)
    · rw [put_blocks_of_ne he₁] at h₁
      by_cases he₂ : id₂ = id
      · subst he₂
        exact absurd (mem_area_blocks h₂) (hothers id₁ b he₁ h₁)
      · rw [put_blocks_of_ne he₂] at h₂
        exact hP.apart id₁ id₂ b h₁ h₂
  · by_cases he : id' = id
    · subst he
      exact h.used b hb
    · rcases List.mem_append.1 hb with hb | hb
      · rw [put_blocks_of_ne he] at hb
        exact h.kept _ (hP.used id' b (mem_area_blocks hb)) (hother id' b he hb)
      · exact h.used b (mem_area_held (P := P.put id o held st) hb)
  · rcases h.exact hf i hi with ⟨hu, hout⟩ | ⟨b, hb, he⟩
    · rcases hP.exact hf i hu with hlt | ⟨id', b, hb, he⟩
      · exact .inl hlt
      · by_cases hid : id' = id
        · subst hid
          exact absurd he (hout b hb)
        · rcases List.mem_append.1 hb with hb | hb
          · refine .inr ⟨id', b, mem_area_blocks ?_, he⟩
            rwa [put_blocks_of_ne hid]
          · exact absurd he (hout b (mem_area_held hb))
    · exact .inr ⟨id, b, hb, he⟩

end Put

end Pool

/-- The disk shows the sound pool `P`. -/
structure Holds (K : Regime) (P : Pool) (disk : Disk) : Prop where
  shows : Shows K P.store disk
  sound : P.Sound K

end InodeVolume
