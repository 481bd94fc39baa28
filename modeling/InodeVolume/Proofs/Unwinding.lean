import InodeVolume.Proofs.TreeChanges

/-!
# What a failed creation gives back

Creating takes blocks for a record, for contents, for a longer table of the parent and for the table of a new
directory, and when the blocks run out it takes all steps back. The blocks that were free are free again
(`Client.GivesBack`), with one exception: unlinking a name does not make a table shorter. Where a directory
was to be created and its own two entries were all that there was no block for (`Client.Cramped`), the table
of the parent keeps the blocks by which it has grown.
-/

namespace InodeVolume

open Record

/-! ## Blocks in use -/

namespace Pool

variable {K : Regime} {P P' : Pool} {t : UInt32} {n n' : Node} {i : Nat}

/-- Where writes do not fail and no block is held, the blocks in use are those that inodes have. -/
theorem Sound.used_iff (hP : P.Sound K) (hf : ¬K.faulty) (hheld : P.held = []) :
    P.store.used i = true ↔ i < K.dataStart ∨ ∃ x, ∃ b ∈ P.blocks x, b.toNat = i := by
  have harea (x : UInt32) : P.area x = P.blocks x := by rw [area, hheld, List.append_nil]
  constructor
  · intro hused
    refine (hP.exact hf i hused).imp_right ?_
    rintro ⟨x, b, hb, hbi⟩
    exact ⟨x, b, harea x ▸ hb, hbi⟩
  · rintro (hlt | ⟨x, b, hb, rfl⟩)
    · exact hP.reserved i hlt
    · exact hP.used x b (mem_area_blocks hb)

/-- When one inode has kept its blocks and has others besides, these were free and are in use now, and
nothing else is free or in use that was not before. -/
theorem Sound.taken_of_update (hK : K.Fits) (hP : P.Sound K) (hP' : P'.Sound K) (hf : ¬K.faulty)
    (hheld : P.held = []) (hheld' : P'.held = []) (hn : P.nodes t = some n)
    (hnodes : P'.nodes = Function.update P.nodes t (some n')) (howned : n.owned ⊆ n'.owned) :
    ∃ l, n'.owned.Perm (n.owned ++ l) ∧ l.Nodup ∧
      (∀ b ∈ l, b.toNat < K.count ∧ P.store.used b.toNat = false) ∧
      ∀ i, P'.store.used i = true ↔ P.store.used i = true ∨ ∃ b ∈ l, b.toNat = i := by
  have hn' : P'.nodes t = some n' := by rw [hnodes, Function.update_self]
  have hothers (x : UInt32) (hx : x ≠ t) : P'.blocks x = P.blocks x := by
    rw [blocks, blocks, hnodes, Function.update_of_ne hx]
  obtain ⟨l₀, hl₀, hsub⟩ := (hP.stored t n hn).owned_nodup.subperm howned
  obtain ⟨l, hl⟩ := hsub.exists_perm_append
  have hperm : n'.owned.Perm (n.owned ++ l) := hl.trans (hl₀.append_right l)
  obtain ⟨-, hnodup, hdisjoint⟩ :=
    List.nodup_append.1 (hperm.nodup_iff.1 (hP'.stored t n' hn').owned_nodup)
  have hmem (b : UInt32) (hb : b ∈ l) : b ∈ P'.blocks t :=
    mem_blocks_owned hn' (hperm.mem_iff.2 (List.mem_append_right _ hb))
  have hiff (i : Nat) : P'.store.used i = true ↔ P.store.used i = true ∨ ∃ b ∈ l, b.toNat = i := by
    rw [hP.used_iff hf hheld, hP'.used_iff hf hheld', or_assoc]
    refine or_congr_right ⟨?_, ?_⟩
    · rintro ⟨x, b, hb, rfl⟩
      by_cases hx : x = t
      · subst hx
        rw [blocks_of_some hn'] at hb
        rcases List.mem_cons.1 hb with rfl | hb
        · exact .inl ⟨b, b, mem_blocks_self hn, rfl⟩
        · rcases List.mem_append.1 (hperm.mem_iff.1 hb) with hb | hb
          · exact .inl ⟨x, b, mem_blocks_owned hn hb, rfl⟩
          · exact .inr ⟨b, hb, rfl⟩
      · exact .inl ⟨x, b, hothers x hx ▸ hb, rfl⟩
    · rintro (⟨x, b, hb, rfl⟩ | ⟨b, hb, rfl⟩)
      · by_cases hx : x = t
        · subst hx
          rw [blocks_of_some hn] at hb
          rcases List.mem_cons.1 hb with rfl | hb
          · exact ⟨b, b, mem_blocks_self hn', rfl⟩
          · exact ⟨x, b, mem_blocks_owned hn' (howned hb), rfl⟩
        · exact ⟨x, b, (hothers x hx).symm ▸ hb, rfl⟩
      · exact ⟨t, b, hmem b hb, rfl⟩
  refine ⟨l, hperm, hnodup, fun b hb => ⟨hP'.mem_area_lt hK (mem_area_blocks (hmem b hb)), ?_⟩, hiff⟩
  -- A block of another inode cannot have become one of this inode, nor one that is reserved.
  by_contra hused
  rw [Bool.not_eq_false, hP.used_iff hf hheld] at hused
  rcases hused with hlt | ⟨x, c, hc, hcb⟩
  · have hdata := (hP'.stored t n' hn').owned_data (hperm.mem_iff.2 (List.mem_append_right _ hb))
    exact absurd hlt (Nat.not_lt.2 hdata.1)
  · obtain rfl : c = b := UInt32.toNat_inj.1 hcb
    by_cases hx : x = t
    · subst hx
      rw [blocks_of_some hn] at hc
      rcases List.mem_cons.1 hc with rfl | hc
      · exact hP'.self_not_owned hn' (hperm.mem_iff.2 (List.mem_append_right _ hb))
      · exact hdisjoint c hc c hb rfl
    · exact hx (hP'.apart x t c ((hothers x hx).symm ▸ hc) (hmem c hb))

end Pool

/-- What is in use besides was free before. -/
theorem Regime.free_of_taken {K : Regime} {used used' : Nat → Bool} {l : List UInt32} (hn : l.Nodup)
    (hl : ∀ b ∈ l, b.toNat < K.count ∧ used b.toNat = false)
    (h : ∀ i, used' i = true ↔ used i = true ∨ ∃ b ∈ l, b.toNat = i) :
    K.free used' + l.length = K.free used := by
  have he : used' = marked used l true := by
    funext i
    rw [Bool.eq_iff_iff, h i]
    by_cases hi : ∃ b ∈ l, b.toNat = i
    · obtain ⟨b, hb, rfl⟩ := hi
      rw [marked_of_mem hb]
      exact iff_of_true (.inr ⟨b, hb, rfl⟩) rfl
    · rw [marked_of_not_mem fun b hb he => hi ⟨b, hb, he⟩]
      exact or_iff_left hi
  rw [he, K.free_marked hn hl]

theorem Regime.free_le (K : Regime) (used : Nat → Bool) : K.free used ≤ K.count :=
  (Finset.card_filter_le ..).trans (Nat.le_of_eq (Finset.card_range _))

/-! ## Clients -/

namespace Client

/-- A directory can be linked at an absolute path, in directory `t`, but the blocks that are free are those
for its record and for the longer table of `t`: there is none for the entries of its own. -/
def Cramped (c : Client) (absolute : String) (t : UInt32) (n : Node) : Prop :=
  c.pool.Cramped (c.device.regime False) c.denials absolute t n

/-- What a call that could not create something leaves of the space of the device. -/
structure GivesBack (c c' : Client) (path cwd : String) (isDirectory : Bool) : Prop where
  /-- The free blocks are those that were free before, unless the table of a parent has grown. -/
  same : (∀ absolute t n, isDirectory = true → Path.toAbsolute path cwd = .ok absolute →
      c.Cramped absolute t n → n.gain = 0) →
    ∀ i, i < c.device.blockCount → SpaceMap.bit c'.device i = SpaceMap.bit c.device i
  /-- The blocks by which it has grown are in use then, and belong to the parent. -/
  grown : ∀ absolute t n, isDirectory = true → Path.toAbsolute path cwd = .ok absolute →
    c.Cramped absolute t n → ∃ n' l, c'.pool.nodes t = some n' ∧ n'.owned.Perm (n.owned ++ l) ∧
      l.length = n.gain ∧ c'.device.free + n.gain = c.device.free ∧
      ∀ i, i < c.device.blockCount → (SpaceMap.bit c'.device i = true ↔
        SpaceMap.bit c.device i = true ∨ ∃ b ∈ l, b.toNat = i)

section Stands

variable {K : Regime} {W W' : World} {T T' : Hierarchy} {c c' : Client} {path cwd absolute : String}
  {size : Nat} {isDirectory : Bool} {t : UInt32} {n : Node} {i : Nat}

theorem Stands.cramped_iff (h : c.Stands K W T) :
    c.Cramped absolute t n ↔ W.pool.Cramped K W.denials absolute t n := by
  have hfree : (c.device.regime False).free c.pool.store.used = K.free W.pool.store.used :=
    h.mounts.disk.free
  rw [Cramped, ← h.denials_eq]
  constructor
  · rintro ⟨named, short, parent, node, ⟨new, writable, fits, space⟩⟩
    obtain ⟨parent, node⟩ := (h.parent_iff _).1 ⟨parent, node⟩
    exact ⟨named, short, parent, node, new, writable, fits, hfree ▸ space⟩
  · rintro ⟨named, short, parent, node, ⟨new, writable, fits, space⟩⟩
    obtain ⟨parent, node⟩ := (h.parent_iff _).2 ⟨parent, node⟩
    exact ⟨named, short, parent, node, new, writable, fits, hfree.symm ▸ space⟩

theorem Stands.bit_eq (h : c.Stands K W T) (hi : i < c.device.blockCount) :
    SpaceMap.bit c.device i = W.pool.store.used i :=
  h.mounts.disk.bit (h.mounts.disk.shows.count ▸ hi)

/-- A call that creates something, with what it leaves if it fails. -/
theorem Stands.create (h : c.Stands K W T) (hpath : NulFree path) (hcwd : NulFree cwd) (size : Nat)
    (isDirectory : Bool) : ∃ r W' T', Volume.CreatesOrSettles K W T path cwd size isDirectory r W' ∧
      (c.step (.create path cwd size isDirectory)).1 = r.map (fun _ => .done) ∧
      (c.step (.create path cwd size isDirectory)).2.Stands K W' T' := by
  have hgood {r : Except Stop Unit} {W' : World}
      (hr : Volume.CreatesOrSettles K W T path cwd size isDirectory r W') :
      ∃ T', Call.Good K W' T' c.handles := by
    have hcomes : Call.Comes K W T c.handles (.create path cwd size isDirectory)
      (r.map fun _ => (.done, c.handles)) W' := ⟨r, hr.1, rfl⟩
    have hgood := hcomes.good h.good
      (h.proper (q := .create path cwd size isDirectory) ⟨⟨hpath, hcwd⟩, nofun⟩)
    rwa [Call.kept_map] at hgood
  -- The call ends with what creating ends with, so only the outcomes that fit each other are left.
  rcases (Leads.mapBind (f := fun _ => (Answer.done, c.handles)) (Volume.create_settles h.fits h.good.ordered
      hpath hcwd size isDirectory)).run h.mounts with
    ⟨⟨a, handles⟩, v, W', hact, hv, r, hr, hres⟩ | ⟨e, v, W', hact, hv, r, hr, hres⟩
  · obtain ⟨T', hgood⟩ := hgood hr
    cases r with
    | error e => cases hres
    | ok u =>
      cases hres
      refine ⟨.ok u, W', T', hr, ?_⟩
      rw [Client.step, Call.act, hact]
      exact ⟨rfl, h.fits, hv, hgood⟩
  · obtain ⟨T', hgood⟩ := hgood hr
    cases r with
    | ok u => cases hres
    | error e =>
      cases hres
      refine ⟨.error e, W', T', hr, ?_⟩
      rw [Client.step, Call.act, hact]
      exact ⟨rfl, h.fits, hv, hgood⟩

/-- What takes more blocks than there are cannot be created. -/
theorem Stands.create_fails (h : c.Stands K W T) (hpath : NulFree path) (hcwd : NulFree cwd)
    (hlarge : K.count < 1 + totalBlocks size) : (c.step (.create path cwd size false)).1 ≠ .ok .done := by
  obtain ⟨r, W', T', hr, hres, -⟩ := h.create hpath hcwd size false
  rw [hres]
  rcases hr.1 with ⟨-, absolute, t, n, b, n', m, -, ha⟩ | ⟨-, ⟨e, rfl⟩, -⟩
  · have hspace := ha.creatable.room.space
    have hfree := K.free_le W.pool.store.used
    rw [if_neg (by decide)] at hspace
    omega
  · nofun

/-- What settling leaves of the space of the device. -/
theorem Stands.givesBack (hf : ¬K.faulty) (h : c.Stands K W T) (h' : c'.Stands K W' T')
    (hs : W.Settles K path cwd isDirectory W') : c.GivesBack c' path cwd isDirectory := by
  obtain ⟨t, n, n', hn, hbecomes, howned, hsize⟩ := hs
  have hsound := h.mounts.disk.sound
  have hsound' := h'.mounts.disk.sound
  obtain ⟨l, hperm, hnodup, hl, hused⟩ := hsound.taken_of_update h.fits hsound' hf h.good.ordered.held
    h'.good.ordered.held hn hbecomes.nodes howned
  have hlength := hperm.length_eq
  rw [List.length_append, (hsound.stored t n hn).length_owned,
    (hsound'.stored t n' hbecomes.node).length_owned] at hlength
  have hcount : c'.device.blockCount = c.device.blockCount :=
    h'.mounts.disk.shows.count.trans h.mounts.disk.shows.count.symm
  have hbit (i : Nat) (hi : i < c.device.blockCount) : SpaceMap.bit c'.device i = true ↔
      SpaceMap.bit c.device i = true ∨ ∃ b ∈ l, b.toNat = i := by
    rw [h.bit_eq hi, h'.bit_eq (hcount ▸ hi)]
    exact hused i
  -- Either the table has its old length and no block was taken, or it has grown and `l` is what it has
  -- grown by.
  rcases hsize with ⟨hsize, hno⟩ | ⟨hsize, hd, absolute, habs, hc⟩
  · have hnil : l = [] := List.length_eq_zero_iff.1 (by rw [hsize] at hlength; omega)
    refine ⟨fun _ i hi => ?_, fun a t₀ n₀ hd ha hc => absurd ⟨hd, h.cramped_iff.1 hc⟩ (hno a t₀ n₀ ha)⟩
    rw [Bool.eq_iff_iff, hbit i hi, hnil]
    simp
  · have hgain : l.length = n.gain := by
      rw [hsize] at hlength
      rw [Node.gain]
      omega
    refine ⟨fun hzero i hi => ?_, fun a t₀ n₀ _ ha hc₀ => ?_⟩
    · have hnil : l = [] :=
        List.length_eq_zero_iff.1 (hgain.trans (hzero absolute t n hd habs (h.cramped_iff.2 hc)))
      rw [Bool.eq_iff_iff, hbit i hi, hnil]
      simp
    · rw [habs] at ha
      cases ha
      have hc₀ := h.cramped_iff.1 hc₀
      obtain rfl : t = t₀ := Except.ok.inj (hc.parent.symm.trans hc₀.parent)
      obtain rfl : n = n₀ := Option.some.inj (hn.symm.trans hc₀.node)
      refine ⟨n', l, h'.node hbecomes.node, hperm, hgain, ?_, hbit⟩
      rw [h.mounts.disk.free, h'.mounts.disk.free, ← hgain]
      exact Regime.free_of_taken hnodup hl hused

end Stands

/-- Where no access fails, a creation that fails gives all blocks back that it has taken, but those of a
parent's table that has grown for a directory which could not get the entries of its own. -/
theorem givesBack_of_reached {c : Client} (h : c.Reached False) {path cwd : String} (hpath : NulFree path)
    (hcwd : NulFree cwd) (size : Nat) (isDirectory : Bool)
    (hfails : (c.step (.create path cwd size isDirectory)).1 ≠ .ok .done) :
    c.GivesBack (c.step (.create path cwd size isDirectory)).2 path cwd isDirectory := by
  obtain ⟨K, W, T, hfaulty, hs⟩ := h.stands
  have hf : ¬K.faulty := fun hno => hfaulty ▸ hno
  obtain ⟨r, W', T', hr, hres, hs'⟩ := hs.create hpath hcwd size isDirectory
  refine hs.givesBack hf hs' (hr.2 (fun hok => hfails ?_) hf)
  rw [hres, hok]
  rfl

/-- On a device of eight blocks, after a file has been removed while it is open, a file of nine blocks. -/
theorem givesBack_of_removal : ∃ c₀ c : Client, Starts False { device := .inMemory 8 } c₀ ∧ Runs c₀ removal c ∧
    c.Reached False ∧ (c.step (.create "/b" "/" 4096 false)).1 ≠ .ok .done ∧
    c.GivesBack (c.step (.create "/b" "/" 4096 false)).2 "/b" "/" false := by
  obtain ⟨c₀, c, hs, hr⟩ := exists_removal
  obtain ⟨W₀, hs₀, -⟩ := hs.stands
  obtain ⟨W, T, hstands⟩ := hr.stands hs₀
  have hb : NulFree "/b" := by decide
  have hslash : NulFree "/" := by decide
  have hfails : (c.step (.create "/b" "/" 4096 false)).1 ≠ .ok .done := by
    refine hstands.create_fails hb hslash ?_
    have hcount : (Device.inMemory 8).blockCount = 8 := by simp [Device.inMemory, Device.blockCount]
    have hblocks : totalBlocks 4096 = 8 := by decide
    show (Device.inMemory 8).blockCount < 1 + totalBlocks 4096
    omega
  have hc : c.Reached False := ⟨_, c₀, _, hs, hr⟩
  exact ⟨c₀, c, hs, hr, hc, hfails, givesBack_of_reached hc hb hslash 4096 false hfails⟩

end Client

end InodeVolume
