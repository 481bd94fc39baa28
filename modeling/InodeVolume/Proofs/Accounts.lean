import InodeVolume.Proofs.Views
import InodeVolume.Proofs.WornDisks

/-!
# Accounts

Which blocks of a client's device are used, and for what. No two inodes in use share a block, and every
block of theirs is marked as used, whatever writes have failed (`Pool.Apart`). Where no write fails, these
are all blocks that are marked, and closing gives back exactly the blocks of an inode that has been
removed and is open no more (`Client.Accounted`). The part of a last block that the contents do not fill
holds zeros, whatever writes have failed (`Client.ZeroPast`).
-/

namespace InodeVolume

open Record

/-- The inodes of `U` are stored, no block belongs to two of them or twice to one, and every block of
theirs is marked as used. -/
structure Pool.Apart (P : Pool) (U : UInt32 → Prop) : Prop where
  stored : ∀ x, U x → ∃ n, P.nodes x = some n ∧ (x :: n.owned).Nodup ∧
    n.owned.length = totalBlocks n.size
  unshared : ∀ x y b, U x → U y → b ∈ P.blocks x → b ∈ P.blocks y → x = y
  used : ∀ x b, U x → b ∈ P.blocks x → P.store.used b.toNat = true

/-- Opens inode `x` and asks which block holds byte `position` of its contents. -/
def Volume.blockAt (v : Volume) (x : UInt32) (position : Nat) : Option UInt32 :=
  match (Inode.acquire x >>= (·.blockOf position) : VolumeM (Option UInt32)) v with
  | .ok b _ => b
  | .error _ _ => none

section Mounts

variable {K : Regime} {W : World} {v : Volume} {x : UInt32} {n : Node} {i : Nat}

/-- On any volume that shows its inode, a byte of the contents has its block where the index says. -/
theorem Mounts.blockAt_eq (hK : K.Fits) (h : Mounts K W v) (hn : W.pool.nodes x = some n) (hi : i < n.size) :
    v.blockAt x i = some (n.record.pieceIn W.pool.store.data (i / blockSize)) := by
  have hyields : Yields (Mounts K) W (Inode.acquire x >>= (·.blockOf i))
      (some (n.record.pieceIn W.pool.store.data (i / blockSize))) (W.opened x) :=
    Yields.trans (Inode.acquire_yields hK hn)
      (Inode.blockOf_yields (W := W.opened x) hn (W.opened_opens_self x) hi)
  obtain ⟨v', hrun, -⟩ := hyields.run h
  rw [Volume.blockAt, hrun]

/-- The blocks of the contents are listed first among those of the inode. -/
theorem Mounts.blockAt_owned (hK : K.Fits) (h : Mounts K W v) (hn : W.pool.nodes x = some n) (hi : i < n.size) :
    v.blockAt x i = n.owned[i / blockSize]? := by
  rw [h.blockAt_eq hK hn hi, (h.disk.sound.stored x n hn).owned, Pool.owned_getElem? _ (piece_lt hi)]

end Mounts

namespace Client

/-- Inode `x` is in use: it can be reached from the root, or it has been removed and is still open. -/
def Uses (c : Client) (x : UInt32) : Prop :=
  c.pool.Reachable x ∨
    ((∃ e, c.volume.registry[x]? = some e ∧ e.removed = true) ∧ ∃ h ∈ c.handles, h.target.number = x)

/-- How many blocks closing the handle at place `i` gives back, if that is a handle of inode `n` with the
registry's entry `e`: all of them if the inode has been removed and has no other handle. -/
def returns (c : Client) (i : Nat) (x : UInt32) (e : OpenInode) (n : Node) : Nat :=
  if e.removed = true ∧ (c.handles.eraseIdx i).countP (·.target.number == x) = 0
  then totalBlocks n.size + 1 else 0

/-- Every block of the device is accounted for. -/
structure Accounted (c : Client) : Prop where
  apart : c.pool.Apart c.Uses
  /-- Inodes lie behind the space map, all but the root's record. -/
  behind : ∀ x b, c.Uses x → b ∈ c.pool.blocks x →
    (c.device.reserved ≤ b.toNat ∧ b.toNat < c.device.blockCount) ∨ (b = rootInode ∧ x = rootInode)
  exact : ∀ i, i < c.device.blockCount → (SpaceMap.bit c.device i = true ↔
    i < c.device.reserved ∨ ∃ x, c.Uses x ∧ ∃ b ∈ c.pool.blocks x, b.toNat = i)
  /-- Every byte of the contents has a block, and this is one of the inode's. -/
  found : ∀ x n position, c.Uses x → c.pool.nodes x = some n → position < n.size →
    ∃ b, c.volume.blockAt x position = some b ∧ b ≠ 0 ∧ b ∈ n.owned
  /-- No two bytes have the same block unless they lie in the same piece of the same inode. -/
  distinct : ∀ x y n m i j b, c.Uses x → c.Uses y → c.pool.nodes x = some n → c.pool.nodes y = some m →
    i < n.size → j < m.size → c.volume.blockAt x i = some b → c.volume.blockAt y j = some b →
    x = y ∧ i / blockSize = j / blockSize
  close : ∀ i h, c.handles[i]? = some h → ∃ e n, c.volume.registry[h.target.number]? = some e ∧
    c.pool.nodes h.target.number = some n ∧ (c.step (.close i)).1 = .ok .done ∧
    (c.step (.close i)).2.device.free = c.device.free + c.returns i h.target.number e n

section Stands

variable {K : Regime} {W : World} {T : Hierarchy} {c : Client} {x y b : UInt32} {n : Node} {i : Nat}

theorem Stands.blocks_eq (h : c.Stands K W T) (hx : W.pool.nodes x ≠ none) :
    c.pool.blocks x = W.pool.blocks x := by
  rw [Pool.blocks, Pool.blocks, h.nodes_eq hx]

/-- Stored inodes are apart from each other on the device. -/
theorem Stands.apart (h : c.Stands K W T) {U : UInt32 → Prop} (hU : ∀ x, U x → W.pool.nodes x ≠ none) :
    c.pool.Apart U := by
  have hsound := h.mounts.disk.sound
  refine ⟨fun x hx => ?_, fun x y b hx hy hbx hby => ?_, fun x b hx hb => ?_⟩
  · obtain ⟨n, hn⟩ := Option.ne_none_iff_exists'.1 (hU x hx)
    have hstored := hsound.stored x n hn
    exact ⟨n, h.node hn, List.nodup_cons.2 ⟨hsound.self_not_owned hn, hstored.owned_nodup⟩,
      hstored.length_owned⟩
  · rw [h.blocks_eq (hU x hx)] at hbx
    rw [h.blocks_eq (hU y hy)] at hby
    exact hsound.apart x y b hbx hby
  · rw [h.blocks_eq (hU x hx)] at hb
    have harea := Pool.mem_area_blocks hb
    exact (h.mounts.disk.bit (hsound.mem_area_lt h.fits harea)).trans (hsound.used x b harea)

/-- What has a registry entry is open in the world. -/
theorem Stands.entry_some (h : c.Stands K W T) {e : OpenInode} (he : c.volume.registry[x]? = some e) :
    ∃ o n, W.opens x = some o ∧ W.pool.nodes x = some n ∧
      e = ⟨o.openers, o.removed, o.denials, n.record⟩ := by
  rw [h.mounts.registry x] at he
  obtain ⟨o, ho, he⟩ := Option.bind_eq_some_iff.1 he
  obtain ⟨n, hn, rfl⟩ := Option.map_eq_some_iff.1 he
  exact ⟨o, n, ho, hn, rfl⟩

theorem Stands.registered (h : c.Stands K W T) (hx : c.volume.registry[x]? ≠ none) :
    W.pool.nodes x ≠ none := by
  obtain ⟨e, he⟩ := Option.ne_none_iff_exists'.1 hx
  obtain ⟨o, n, -, hn, -⟩ := h.entry_some he
  simp [hn]

/-- Where no write fails, the inodes in use are those that are stored. -/
theorem Stands.uses_iff (h : c.Stands K W T) (hf : ¬K.faulty) : c.Uses x ↔ W.pool.nodes x ≠ none := by
  constructor
  · rintro (hx | ⟨⟨e, he, -⟩, -⟩)
    · exact h.good.ordered.rooted.stored x (h.reachable_iff.1 hx)
    · exact h.registered (by simp [he])
  · intro hx
    rcases h.good.ordered.known hf x hx with hl | ⟨o, ho, hremoved⟩
    · exact .inl (h.reachable_iff.2 hl)
    · obtain ⟨n, hn⟩ := Option.ne_none_iff_exists'.1 hx
      exact .inr ⟨⟨_, (h.mounts.registry x).trans (World.entry_of_some ho hn), hremoved⟩,
        h.good.open_iff.2 (by simp [ho])⟩

/-- A byte of the contents of a stored inode has its block where the index says. -/
theorem Stands.blockAt_eq (h : c.Stands K W T) (hn : W.pool.nodes x = some n) (hi : i < n.size) :
    c.volume.blockAt x i = some (n.record.pieceIn W.pool.store.data (i / blockSize)) :=
  h.mounts.blockAt_eq h.fits hn hi

/-- Closing the last handle of an inode that has been removed gives its blocks back, and no other close
gives any back. -/
theorem Stands.close_free (h : c.Stands K W T) (hf : ¬K.faulty) {x : Handle} (hx : c.handles[i]? = some x) :
    ∃ e n, c.volume.registry[x.target.number]? = some e ∧ c.pool.nodes x.target.number = some n ∧
      (c.step (.close i)).1 = .ok .done ∧
      (c.step (.close i)).2.device.free = c.device.free + c.returns i x.target.number e n := by
  obtain ⟨res, W', T', hcomes, hres, -, h'⟩ := h.step (q := .close i) ⟨trivial, nofun⟩
  rcases hcomes with ⟨hnone, -, -⟩ | ⟨y, n, o, hy, hn, ho, rfl, hclosed⟩
  · rw [hnone] at hx
    cases hx
  rw [hx] at hy
  cases hy
  refine ⟨_, n, (h.mounts.registry _).trans (World.entry_of_some ho hn), h.node hn, hres, ?_⟩
  rw [h'.mounts.disk.free, h.mounts.disk.free, returns]
  have hremoved := o.lifted_removed x.denies
  have hcount := o.lifted_openers x.denies
  have hopeners := h.good.tracks.openers x.target.number
  rw [ho, Option.elim_some, countP_of_getElem? _ hx, if_pos (by simp)] at hopeners
  -- Only the last close of an inode that has been removed gives blocks back.
  by_cases hmore : 1 < o.openers
  · rw [if_neg (fun hlast => by omega), hclosed.more (hcount ▸ hmore)]
    rfl
  · have hlast : (o.lifted x.denies).openers ≤ 1 := by omega
    by_cases hr : o.removed = true
    · rw [if_pos ⟨hr, by omega⟩, (hclosed.gone hlast (hremoved.trans hr)).2.2.2 hf]
      rfl
    · rw [if_neg (fun hboth => hr hboth.1), hclosed.last hlast (hremoved.trans (by simpa using hr))]
      rfl

/-- The block of a stored piece holds zeros where the contents have ended. -/
theorem Stands.zero_past (h : c.Stands K W T) (hn : W.pool.nodes x = some n) {position k : Nat}
    (hp : position < n.size) (hk : k < blockSize) (hend : n.size ≤ position / blockSize * blockSize + k) :
    (c.device.block (n.record.pieceIn W.pool.store.data (position / blockSize)).toNat).byte k = 0 := by
  have hstored : Stored K c.device.block x n := h.mounts.disk.stored h.fits hn
  have hpiece := piece_lt hp
  -- The index says the same on the device as in the world, since both list the blocks of the inode.
  have hsame : n.record.pieceIn c.device.block (position / blockSize) =
      n.record.pieceIn W.pool.store.data (position / blockSize) := by
    have howned := hstored.owned.symm.trans (h.mounts.disk.sound.stored x n hn).owned
    have hlisted := congrArg (·[position / blockSize]?) howned
    simpa only [Pool.owned_getElem? _ hpiece, Option.some.injEq] using hlisted
  have hlast : position / blockSize * blockSize + k < dataBlocks n.size * blockSize := by
    have := Nat.mul_le_mul_right blockSize (Nat.succ_le_of_lt hpiece)
    rw [Nat.succ_mul] at this
    omega
  have hzero := hstored.tail_zero hend hlast
  have hpos : 0 < blockSize := Nat.zero_lt_of_lt hk
  rw [byteIn, Nat.mul_comm, Nat.mul_add_div hpos, Nat.div_eq_of_lt hk, Nat.mul_add_mod, Nat.mod_eq_of_lt hk,
    Nat.add_zero, hsame] at hzero
  exact hzero

end Stands

/-- Between two calls every block of the device is accounted for, if no access has failed. -/
theorem accounted_of_reached {c : Client} (h : c.Reached False) : c.Accounted := by
  obtain ⟨K, W, T, hfaulty, hs⟩ := h.stands
  have hf : ¬K.faulty := fun hno => hfaulty ▸ hno
  have hsound := hs.mounts.disk.sound
  have huses (x : UInt32) : c.Uses x ↔ W.pool.nodes x ≠ none := hs.uses_iff hf
  have hcount : c.device.blockCount = K.count := hs.mounts.disk.shows.count
  refine ⟨hs.apart fun x hx => (huses x).1 hx, fun x b hx hb => ?_, fun i hi => ?_,
    fun x n position hx hn hp => ?_, fun x y n m i j b hx hy hn hm hi hj hbi hbj => ?_,
    fun i h hi => hs.close_free hf hi⟩
  · obtain ⟨n, hn⟩ := Option.ne_none_iff_exists'.1 ((huses x).1 hx)
    rw [hs.blocks_eq ((huses x).1 hx), Pool.blocks_of_some hn] at hb
    rw [hs.mounts.disk.reserved, hcount]
    rcases List.mem_cons.1 hb with rfl | howned
    · exact (hsound.place b (by simp [hn])).symm.imp_right fun h0 => ⟨h0, h0⟩
    · exact .inl ((hsound.stored x n hn).owned_data howned)
  · rw [hcount] at hi
    rw [hs.mounts.disk.bit hi, hs.mounts.disk.reserved]
    -- Outside the reserved blocks a bit is set exactly for the blocks that some inode in use has.
    constructor
    · intro hused
      refine (hsound.exact hf i hused).imp_right ?_
      rintro ⟨x, b, hb, hbi⟩
      rw [Pool.area, hs.good.ordered.held, List.append_nil] at hb
      have hx : W.pool.nodes x ≠ none := by
        intro hnone
        rw [Pool.blocks_of_none hnone] at hb
        cases hb
      exact ⟨x, (huses x).2 hx, b, hs.blocks_eq hx ▸ hb, hbi⟩
    · rintro (hres | ⟨x, hx, b, hb, rfl⟩)
      · exact hsound.reserved i hres
      · rw [hs.blocks_eq ((huses x).1 hx)] at hb
        exact hsound.used x b (Pool.mem_area_blocks hb)
  · obtain ⟨m, hm⟩ := Option.ne_none_iff_exists'.1 ((huses x).1 hx)
    obtain rfl : n = m := Option.some.inj (hn.symm.trans (hs.node hm))
    have hstored := hsound.stored x n hm
    refine ⟨_, hs.blockAt_eq hm hp, toNat_ne_zero (hstored.indexed.piece_data (piece_lt hp)), ?_⟩
    rw [hstored.owned]
    exact pieceIn_mem (piece_lt hp)
  · obtain ⟨n', hn'⟩ := Option.ne_none_iff_exists'.1 ((huses x).1 hx)
    obtain ⟨m', hm'⟩ := Option.ne_none_iff_exists'.1 ((huses y).1 hy)
    obtain rfl : n = n' := Option.some.inj (hn.symm.trans (hs.node hn'))
    obtain rfl : m = m' := Option.some.inj (hm.symm.trans (hs.node hm'))
    rw [hs.blockAt_eq hn' hi] at hbi
    rw [hs.blockAt_eq hm' hj] at hbj
    have hin : b ∈ n.owned := by
      rw [(hsound.stored x n hn').owned, ← Option.some.inj hbi]
      exact pieceIn_mem (piece_lt hi)
    have him : b ∈ m.owned := by
      rw [(hsound.stored y m hm').owned, ← Option.some.inj hbj]
      exact pieceIn_mem (piece_lt hj)
    obtain rfl := hsound.apart x y b (Pool.mem_blocks_owned hn' hin) (Pool.mem_blocks_owned hm' him)
    obtain rfl : n = m := Option.some.inj (hn'.symm.trans hm')
    exact ⟨rfl, (hsound.stored x n hn').indexed.piece_inj (piece_lt hi) (piece_lt hj)
      (Option.some.inj (hbi.trans hbj.symm))⟩

/-- On a device of eight blocks, after a file has been written and removed while it is open. -/
theorem accounted_of_removal : ∃ c₀ c : Client, Starts False { device := .inMemory 8 } c₀ ∧ Runs c₀ removal c ∧
    c.Reached False ∧ c.Accounted := by
  obtain ⟨c₀, c, hs, hr⟩ := exists_removal
  have hc : c.Reached False := ⟨_, c₀, _, hs, hr⟩
  exact ⟨c₀, c, hs, hr, hc, accounted_of_reached hc⟩

/-- Between two calls no two inodes that can be reached or are open share a block, and all their blocks
are marked as used, whatever writes have failed. -/
theorem apart_of_reached {c : Client} {faulty : Prop} (h : c.Reached faulty) :
    c.pool.Apart (fun x => c.pool.Reachable x ∨ c.volume.registry[x]? ≠ none) ∧
      ∀ x e, c.volume.registry[x]? = some e → ∃ n, c.pool.nodes x = some n ∧ n.record = e.record := by
  obtain ⟨K, W, T, -, hs⟩ := h.stands
  refine ⟨hs.apart ?_, fun x e he => ?_⟩
  · rintro x (hx | hx)
    · exact hs.good.ordered.rooted.stored x (hs.reachable_iff.1 hx)
    · exact hs.registered hx
  · obtain ⟨o, n, -, hn, rfl⟩ := hs.entry_some he
    exact ⟨n, hs.node hn, rfl⟩

/-- On a disk that has worn out, after a file could not be emptied. -/
theorem apart_of_worn : ∃ (k : Nat) (c₀ c : Client),
    Starts True { device := .inMemory 8, faults := .from none (some k) [] [] } c₀ ∧ Runs c₀ wearing c ∧
    c.Reached True ∧ c.pool.Apart (fun x => c.pool.Reachable x ∨ c.volume.registry[x]? ≠ none) ∧
      ∀ x e, c.volume.registry[x]? = some e → ∃ n, c.pool.nodes x = some n ∧ n.record = e.record := by
  obtain ⟨k, c₀, c, x, e, hs, hr, -⟩ := exists_worn
  have hc : c.Reached True := ⟨_, c₀, _, hs, hr⟩
  exact ⟨k, c₀, c, hs, hr, hc, apart_of_reached hc⟩

/-! ## Past the end of the contents -/

/-- Inode `x` is stored, with the record that the registry has for it while it is open. Every byte of its
contents lies in a block, and what this block holds for positions at and past their end is zero. -/
def ZeroPast (c : Client) (x : UInt32) : Prop :=
  ∃ n, c.pool.nodes x = some n ∧ (∀ e, c.volume.registry[x]? = some e → e.record = n.record) ∧
    ∀ position, position < n.size → ∃ b, c.volume.blockAt x position = some b ∧ b ≠ 0 ∧
      ∀ k, k < blockSize → n.size ≤ position / blockSize * blockSize + k →
        (c.device.block b.toNat).byte k = 0

/-- Between two calls the last block of every inode that can be reached or is open holds zeros past the end of
the contents, whatever writes have failed. -/
theorem zeroPast_of_reached {c : Client} {faulty : Prop} (h : c.Reached faulty) {x : UInt32}
    (hx : c.pool.Reachable x ∨ c.volume.registry[x]? ≠ none) : c.ZeroPast x := by
  obtain ⟨K, W, T, -, hs⟩ := h.stands
  have hne : W.pool.nodes x ≠ none :=
    hx.elim (fun hr => hs.good.ordered.rooted.stored x (hs.reachable_iff.1 hr)) hs.registered
  obtain ⟨n, hn⟩ := Option.ne_none_iff_exists'.1 hne
  refine ⟨n, hs.node hn, fun e he => ?_, fun position hp => ?_⟩
  · obtain ⟨o, m, -, hm, rfl⟩ := hs.entry_some he
    rw [Option.some.inj (hn.symm.trans hm)]
  · have hindexed := (hs.mounts.disk.sound.stored x n hn).indexed
    exact ⟨_, hs.blockAt_eq hn hp, toNat_ne_zero (hindexed.piece_data (piece_lt hp)),
      fun k hk hend => hs.zero_past hn hp hk hend⟩

/-- The contents of a file that does not fill its second block, after it could not be emptied. -/
theorem zeroPast_of_worn : ∃ (k : Nat) (c₀ c : Client) (x : UInt32) (e : OpenInode),
    Starts True { device := .inMemory 8, faults := .from none (some k) [] [] } c₀ ∧ Runs c₀ wearing c ∧
    c.Reached True ∧ c.volume.registry[x]? = some e ∧ e.record.length = 600 ∧
    (c.pool.Reachable x ∨ c.volume.registry[x]? ≠ none) ∧ c.ZeroPast x := by
  obtain ⟨k, c₀, c, x, e, hs, hr, he, hlength⟩ := exists_worn
  have hc : c.Reached True := ⟨_, c₀, _, hs, hr⟩
  have hx : c.pool.Reachable x ∨ c.volume.registry[x]? ≠ none := .inr (by simp [he])
  exact ⟨k, c₀, c, x, e, hs, hr, hc, he, hlength, hx, zeroPast_of_reached hc hx⟩

end Client

end InodeVolume
