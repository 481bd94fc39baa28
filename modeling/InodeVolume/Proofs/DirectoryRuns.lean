import InodeVolume.Proofs.FailingLinks
import InodeVolume.Proofs.TwinNames

/-!
# Directories that are worked on by themselves

A directory that is open can be given entries under any texts, for any numbers, and have them taken away again
(`Directory.Edits`). A text is kept up to its first zero character only (`beforeNul`), but whether it is new is
asked of the whole of it. So an entry under a text that has such a character cannot be found under that text, and
what it is kept as may be there twice. Texts that have none name one entry each, and linking one changes no other
name (`Directory.names_of_edits`).
-/

namespace InodeVolume

open Record

namespace Directory

/-- What a name stands for. -/
def lookedUp (d : Directory) (v : Volume) (name : String) : Except Stop (Option UInt32) :=
  (outcome (d.lookup name) v).1

/-- Work on directory `d`, in which entries are linked under `allowed` names: it leads to the volume, and `live`
are the inodes that entries may be removed with. It starts with a directory that a client has open, or with a
new one; inodes may be made for new entries. -/
inductive Edits (d : Directory) (allowed : String → Prop) : (UInt32 → Prop) → Volume → Prop
  | held {c : Client} {i : Nat} {e : Directory} (asked : c.Asked) (handle : c.handles[i]? = some (.directory e))
    (same : e.inode = d.inode) :
    Edits d allowed (fun x => c.Uses x ∧ x ≠ rootInode ∧ x ≠ d.inode.number) c.volume
  | made {c : Client} {slots : Nat} {v₁ v₂ v₃ : Volume} (asked : c.Asked)
    (allocated : outcome (VolumeM.allocate 1) c.volume = (.ok d.inode.number, v₁))
    (created : outcome (create d.inode.number slots) v₁ = (.ok (), v₂))
    (opened : outcome (Inode.acquire d.inode.number) v₂ = (.ok d.inode, v₃)) :
    Edits d allowed (fun x => c.Uses x ∧ x ≠ rootInode) v₃
  | inode {live : UInt32 → Prop} {b : UInt32} {size : Nat} {isDirectory : Bool} {v v₁ v₂ : Volume}
    (run : Edits d allowed live v) (allocated : outcome (VolumeM.allocate 1) v = (.ok b, v₁))
    (created : outcome (Inode.create b size isDirectory) v₁ = (.ok (), v₂)) :
    Edits d allowed (fun x => live x ∨ x = b) v₂
  | add {live : UInt32 → Prop} {v : Volume} (run : Edits d allowed live v) {name : String} (number : UInt32)
    (kept : allowed name) : Edits d allowed live (outcome (d.add name number) v).2
  | remove {live : UInt32 → Prop} {v : Volume} (run : Edits d allowed live v) {name : String}
    (stands : ∀ x, isDotName name = false → d.lookedUp v name = .ok (some x) → live x) :
    Edits d allowed (fun x => live x ∧
      ((outcome (d.remove name) v).1 = .ok () → d.lookedUp v name ≠ .ok (some x))) (outcome (d.remove name) v).2

/-- The volume `v` shows the world `W`, in which the directory is `n`, and every live inode is stored. -/
structure Edited (d : Directory) (allowed : String → Prop) (live : UInt32 → Prop) (v : Volume) (K : Regime)
    (W : World) (n : Node) (o : Opening) : Prop where
  fits : K.Fits
  reliable : ¬K.faulty
  mounts : Mounts K W v
  node : W.pool.nodes d.inode.number = some n
  opening : W.opens d.inode.number = some o
  attended : W.Attended
  root : W.pool.nodes rootInode ≠ none
  live : ∀ x, live x → x ≠ d.inode.number ∧ x ≠ rootInode ∧ W.pool.nodes x ≠ none
  tidy : (∀ name, allowed name → NulFree name) → o.removed = false → n.Tidy

section Edits

variable {K : Regime} {W W' : World} {d : Directory} {allowed : String → Prop} {live live' : UInt32 → Prop}
  {v v' : Volume} {n n' : Node} {o : Opening} {name : String} {number : UInt32}

theorem Edited.lookedUp (h : d.Edited allowed live v K W n o) (name : String) :
    d.lookedUp v name = .ok (n.child name) := by
  obtain ⟨W', -, hres, -⟩ := (lookup_yields (d := d) rfl h.node h.opening name).comes h.mounts
  exact hres

/-- What is on the device of the directory. -/
theorem Edited.onDevice (h : d.Edited allowed live v K W n o) :
    v.disk.device.pool.nodes d.inode.number = some n := h.mounts.disk.node h.fits h.node

/-- The same inodes are stored, but for the directory. -/
theorem Edited.renew (h : d.Edited allowed live v K W n o) (hv : Mounts K W' v')
    (hb : W.Becomes d.inode.number n' W')
    (ht : (∀ name, allowed name → NulFree name) → o.removed = false → n.Tidy → n'.Tidy) :
    d.Edited allowed live v' K W' n' o := by
  have hstored (x : UInt32) (hx : W.pool.nodes x ≠ none) : W'.pool.nodes x ≠ none := by
    by_cases hd : x = d.inode.number
    · simp [hd, hb.node]
    · rwa [hb.node_of_ne hd]
  exact ⟨h.fits, h.reliable, hv, hb.node, by rw [hb.opens, h.opening],
    fun x o ho => h.attended x o (hb.opens ▸ ho), hstored _ h.root,
    fun x hx => (h.live x hx).imp_right (And.imp_right (hstored x)), fun hall hr => ht hall hr (h.tidy hall hr)⟩

/-- Where nothing has changed in the pool, work goes on as before. -/
theorem Edited.stays (h : d.Edited allowed live v K W n o) (hv : Mounts K W' v') (hs : W.Stays K W') :
    d.Edited allowed live v' K W' n o :=
  h.renew hv ⟨by rw [hs.nodes, Function.update_eq_self_iff.2 h.node.symm], hs.held, hs.opens⟩ fun _ _ ht => ht

/-- Linking a name gives the directory one entry more, or changes nothing. -/
theorem Edited.add (h : d.Edited allowed live v K W n o) (name : String) (number : UInt32) :
    let (res, v') := outcome (d.add name number) v
    ∃ W', Mounts K W' v' ∧ ((res = .ok () ∧ ∃ n', Entered W d.inode.number n name number n' W') ∨
      ((∃ e, res = .error (.failed e)) ∧ W.Stays K W')) :=
  (add_mirrored h.fits h.reliable rfl h.node h.opening name number).leads.comes h.mounts

/-- The same inodes are stored, but for one that may be gone; the directory has lost an entry or none. -/
theorem Edited.remove (h : d.Edited allowed live v K W n o)
    (stands : ∀ x, isDotName name = false → d.lookedUp v name = .ok (some x) → live x) :
    ∃ W' n', d.Edited allowed (fun x => live x ∧
      ((outcome (d.remove name) v).1 = .ok () → d.lookedUp v name ≠ .ok (some x)))
      (outcome (d.remove name) v).2 K W' n' o := by
  have hremove : Leads (Mounts K) W (d.remove name) _ :=
    remove_parts h.fits h.reliable rfl h.node h.opening fun x hdot hc => by
      obtain ⟨hne, h0, hstored⟩ := h.live x (stands x hdot (by rw [h.lookedUp, hc]))
      exact ⟨hne, (h.mounts.disk.sound.place x hstored).resolve_left h0, hstored, fun ox => h.attended x ox⟩
  -- An entry has gone, perhaps with its inode, or nothing has changed.
  obtain ⟨W', hv, ⟨hres, j, x, m, n', -, hp⟩ | ⟨⟨e, hres⟩, rfl⟩⟩ := hremove.comes h.mounts
  swap
  · exact ⟨W', n, { h with mounts := hv, live := fun x hx => h.live x hx.1 }⟩
  have hc : n.child name = some x := by rw [Node.child, hp.find, Option.map_some, hp.entry.number]
  obtain ⟨hne, h0, -⟩ := h.live x (stands x hp.named (by rw [h.lookedUp, hc]))
  have hdropped := hp.dropped
  refine ⟨W', n', h.fits, h.reliable, hv, hdropped.node, by rw [hdropped.opens _ hne.symm, h.opening],
    h.attended.dropped hdropped, ?_, ?_, ?_⟩
  · by_cases hd : rootInode = d.inode.number
    · simp [hd, hdropped.node]
    · rw [hdropped.others _ hd (Ne.symm h0)]
      exact h.root
  · -- The one that may be gone is no longer live.
    rintro y ⟨hy, hnot⟩
    obtain ⟨hyd, hy0, hstored⟩ := h.live y hy
    refine ⟨hyd, hy0, ?_⟩
    have hyx : y ≠ x := by
      rintro rfl
      exact hnot hres (by rw [h.lookedUp, hc])
    rwa [hdropped.others y hyd hyx]
  · intro hall hr
    have ht := h.tidy hall hr
    exact ⟨by rw [hp.size, ht.whole], fun i k nm y z hi hk =>
      ht.unique i k nm y z ((hp.entries i nm y).1 hi).1 ((hp.entries k nm z).1 hk).1⟩

/-- A new inode is stored under a block on which there was none, and the others are as they were. -/
theorem new_inode {b : UInt32} {size : Nat} {isDirectory : Bool} {v₁ v₂ : Volume} (hK : K.Fits)
    (hv : Mounts K W v) (hroot : W.pool.nodes rootInode ≠ none)
    (allocated : outcome (VolumeM.allocate 1) v = (.ok b, v₁))
    (created : outcome (Inode.create b size isDirectory) v₁ = (.ok (), v₂)) :
    ∃ W₂ m, Mounts K W₂ v₂ ∧ (∀ x, W.pool.nodes x ≠ none → x ≠ b ∧ W₂.pool.nodes x = W.pool.nodes x) ∧
      W₂.opens = W.opens ∧ W₂.pool.nodes b = some m ∧ m.size = size ∧ m.byte = fun _ => 0 := by
  obtain ⟨W₁, hv₁, htaken⟩ := (VolumeM.allocate_leads hK).comes hv
  rw [allocated] at hv₁ htaken
  obtain ⟨b', hb, hnodes₁, hheld₁, hopens₁, -⟩ | ⟨e, he, -⟩ := htaken
  swap
  · cases he
  cases hb
  -- The block was free, so no inode was stored under it.
  have hnone : W₁.pool.nodes b = none := (Volume.held_fresh hv₁ (.inl (hnodes₁ ▸ hroot)) hheld₁).1
  have hcreate : Leads (Mounts K) W₁ (Inode.create b size isDirectory) _ :=
    Inode.create_leads hK hnone hheld₁
  obtain ⟨W₂, hv₂, hmade⟩ := hcreate.comes hv₁
  rw [created] at hv₂ hmade
  obtain ⟨m, -, hnodes₂, -, hopens₂, -, hsize, hbyte, -⟩ | ⟨e, he, -⟩ := hmade
  swap
  · cases he
  refine ⟨W₂, m, hv₂, fun x hx => ?_, hopens₂.trans hopens₁, by rw [hnodes₂, Function.update_self], hsize, hbyte⟩
  have hxb : x ≠ b := by
    rintro rfl
    exact hx (hnodes₁ ▸ hnone)
  exact ⟨hxb, by rw [hnodes₂, Function.update_of_ne hxb, hnodes₁]⟩

/-- A new inode is stored beside the directory, and can stand in an entry. -/
theorem Edited.inode {b : UInt32} {size : Nat} {isDirectory : Bool} {v₁ v₂ : Volume}
    (h : d.Edited allowed live v K W n o) (allocated : outcome (VolumeM.allocate 1) v = (.ok b, v₁))
    (created : outcome (Inode.create b size isDirectory) v₁ = (.ok (), v₂)) :
    ∃ W', d.Edited allowed (fun x => live x ∨ x = b) v₂ K W' n o := by
  obtain ⟨W₂, m, hv₂, hnode, hopens, hm, -⟩ := new_inode h.fits h.mounts h.root allocated created
  have hd : W.pool.nodes d.inode.number ≠ none := by simp [h.node]
  refine ⟨W₂, h.fits, h.reliable, hv₂, by rw [(hnode _ hd).2, h.node], by rw [hopens, h.opening],
    fun x ox hx => h.attended x ox (hopens ▸ hx), by rw [(hnode _ h.root).2]; exact h.root, ?_, h.tidy⟩
  rintro x (hx | rfl)
  · obtain ⟨hxd, hx0, hstored⟩ := h.live x hx
    exact ⟨hxd, hx0, by rw [(hnode x hstored).2]; exact hstored⟩
  · exact ⟨(hnode _ hd).1.symm, (hnode _ h.root).1.symm, by simp [hm]⟩

/-- A directory that a client has open. Its names are in one slot each unless it has been removed. -/
theorem edited_held {c : Client} {i : Nat} {e : Directory} (asked : c.Asked)
    (handle : c.handles[i]? = some (.directory e)) (same : e.inode = d.inode) :
    ∃ K W n o,
      d.Edited allowed (fun x => c.Uses x ∧ x ≠ rootInode ∧ x ≠ d.inode.number) c.volume K W n o := by
  obtain ⟨K, W, T, hf, ha⟩ := asked.abides
  have hO := ha.stands.good.ordered
  obtain ⟨o, ho, -⟩ := ha.stands.good.tracks.opened_of_handle handle
  have ho : W.opens d.inode.number = some o := same ▸ ho
  obtain ⟨n, hn, hdir⟩ := Pool.isDirectory_node (ha.fitting e (List.mem_of_getElem? handle))
  rw [same] at hn
  refine ⟨K, W, n, o, ha.stands.fits, hf, ha.stands.mounts, hn, ho, hO.attended,
    hO.rooted.stored _ hO.rooted.root, fun x ⟨hx, h0, hd⟩ => ⟨hd, h0, (ha.stands.uses_iff hf).1 hx⟩,
    fun _ hr => ?_⟩
  -- It lies in the tree, where tables are tidy, or it has been removed.
  rcases hO.known hf d.inode.number (by simp [hn]) with hl | ⟨o', ho', hr'⟩
  · exact hO.rooted.tidy _ hl n hn hdir
  · rw [ho] at ho'
    cases ho'
    rw [hr] at hr'
    cases hr'

/-- A directory that is made and opened. Its slots are all vacant. -/
theorem edited_made {c : Client} {slots : Nat} {v₁ v₂ v₃ : Volume} (asked : c.Asked)
    (allocated : outcome (VolumeM.allocate 1) c.volume = (.ok d.inode.number, v₁))
    (created : outcome (create d.inode.number slots) v₁ = (.ok (), v₂))
    (opened : outcome (Inode.acquire d.inode.number) v₂ = (.ok d.inode, v₃)) :
    ∃ K W n o, d.Edited allowed (fun x => c.Uses x ∧ x ≠ rootInode) v₃ K W n o := by
  obtain ⟨K, W, T, hf, ha⟩ := asked.abides
  have hO := ha.stands.good.ordered
  have hroot := hO.rooted.stored _ hO.rooted.root
  -- The bound on the number of slots was kept, or nothing would have been made.
  have hinode : outcome (Inode.create d.inode.number (slots * slotSize) true) v₁ = (.ok (), v₂) := by
    unfold create at created
    split at created
    · cases created
    · exact created
  obtain ⟨W₂, m, hv₂, hnode, hopens, hm, hsize, hbyte⟩ :=
    new_inode ha.stands.fits ha.stands.mounts hroot allocated hinode
  have hacquire : Yields (Mounts K) W₂ (Inode.acquire d.inode.number) _ _ :=
    Inode.acquire_yields ha.stands.fits hm
  obtain ⟨W₃, hv₃, -, rfl⟩ := hacquire.comes hv₂
  rw [opened] at hv₃
  have hstored (x : UInt32) (hx : W.pool.nodes x ≠ none) : x ≠ d.inode.number ∧ W₂.pool.nodes x ≠ none := by
    obtain ⟨hxd, hsame⟩ := hnode x hx
    exact ⟨hxd, by rwa [hsame]⟩
  have hattended : W₂.Attended := fun x o hx => hO.attended x o (hopens ▸ hx)
  refine ⟨K, _, m, _, ha.stands.fits, hf, hv₃, hm, W₂.opened_opens_self _, hattended.opened _,
    (hstored _ hroot).2, fun x ⟨hx, h0⟩ => ?_, fun _ _ => (blank_table ?_ hbyte).1⟩
  · have hx := hstored x ((ha.stands.uses_iff hf).1 hx)
    exact ⟨hx.1, h0, hx.2⟩
  · rw [hsize, Nat.mul_mod_left]

/-- Whatever work is done on a directory, the volume shows a world with it. -/
theorem Edits.edited (h : d.Edits allowed live v) : ∃ K W n o, d.Edited allowed live v K W n o := by
  -- By induction on the work done, one lemma for each kind of it.
  induction h with
  | held asked handle same => exact edited_held asked handle same
  | made asked allocated created opened => exact edited_made asked allocated created opened
  | inode _ allocated created ih =>
    obtain ⟨K, W, n, o, h⟩ := ih
    obtain ⟨W', h'⟩ := h.inode allocated created
    exact ⟨K, W', n, o, h'⟩
  | @add live v _ name number kept ih =>
    obtain ⟨K, W, n, o, h⟩ := ih
    obtain ⟨W', hv, ⟨-, n', hentered⟩ | ⟨-, hstays⟩⟩ := h.add name number
    · exact ⟨K, W', n', o, h.renew hv hentered.becomes fun hall _ ht => hentered.tidy ht (hall _ kept)⟩
    · exact ⟨K, W', n, o, h.stays hv hstays⟩
  | remove _ stands ih =>
    obtain ⟨K, W, n, o, h⟩ := ih
    obtain ⟨W', n', h'⟩ := h.remove stands
    exact ⟨K, W', n', o, h'⟩

end Edits

/-! ## Names -/

/-- No name is listed twice. -/
theorem nodup_names {n : Node} (h : n.Tidy) : (n.entries.map Prod.fst).Nodup := by
  have hentry {j : Nat} {name : String} (hlt : j ∈ List.range n.slots)
      (hj : ((n.slot j).link).map Prod.fst = some name) : n.EntryAt j name (n.slot j).number := by
    obtain ⟨⟨nm, x⟩, hlink, rfl⟩ := Option.map_eq_some_iff.1 hj
    simp only [Slot.link, Option.ite_none_right_eq_some, Option.some.injEq, Prod.mk.injEq] at hlink
    exact ⟨List.mem_range.1 hlt, hlink.1, hlink.2.1, rfl⟩
  rw [Node.entries, List.map_filterMap, List.Nodup, List.pairwise_filterMap]
  refine List.nodup_range.imp_of_mem fun hi hj hne name hname _ hname' heq => ?_
  subst heq
  exact hne (h.unique _ _ name _ _ (hentry hi hname) (hentry hj hname'))

/-- What is kept of a linked text can be found. -/
theorem Entered.child_kept {W W' : World} {id number : UInt32} {n n' : Node} {name : String}
    (h : Entered W id n name number n' W') : ∃ x, n'.child (beforeNul name) = some x := by
  refine Option.ne_none_iff_exists'.1 fun hnone => ?_
  exact Node.child_none_iff.1 hnone _ _ ((h.entry _ _ _).2 (.inr ⟨rfl, rfl, rfl⟩))

/-- Linking a name leaves every other text standing for what it stood for but that which is kept of it. A name
without zero characters can be found then. One that has such a character cannot, but what is kept of it can.
As long as all names that are linked are without them, no two slots are in use for the same name, unless the
directory has been removed. -/
theorem names_of_edits {d : Directory} {allowed : String → Prop} {live : UInt32 → Prop} {v : Volume}
    (h : d.Edits allowed live v) :
    (∃ n, v.disk.device.pool.nodes d.inode.number = some n ∧
      (∀ name, d.lookedUp v name = .ok (n.child name)) ∧
      ((∀ name, allowed name → NulFree name) → (∀ e, v.registry[d.inode.number]? = some e → e.removed = false) →
        (n.entries.map Prod.fst).Nodup)) ∧
    ∀ (name : String) (number : UInt32),
      let (res, v') := outcome (d.add name number) v
      res = .ok () → d.lookedUp v name = .ok none ∧
        (∀ other, other ≠ beforeNul name → d.lookedUp v' other = d.lookedUp v other) ∧
        (NulFree name → d.lookedUp v' name = .ok (some number)) ∧
        (¬NulFree name → d.lookedUp v' name = .ok none ∧
          ∃ x, d.lookedUp v' (beforeNul name) = .ok (some x)) := by
  obtain ⟨K, W, n, o, h⟩ := h.edited
  refine ⟨⟨n, h.onDevice, h.lookedUp, fun hall hkept => nodup_names (h.tidy hall ?_)⟩, fun name number => ?_⟩
  · exact hkept _ ((h.mounts.registry _).trans (World.entry_of_some h.opening h.node))
  have hadd := h.add name number
  generalize outcome (d.add name number) v = p at hadd ⊢
  obtain ⟨res, v'⟩ := p
  obtain ⟨W', hv, hadd⟩ := hadd
  rintro (rfl : res = .ok ())
  obtain ⟨-, n', hentered⟩ | ⟨⟨e, he⟩, -⟩ := hadd
  swap
  · cases he
  -- Nothing has to be known here of which names are allowed.
  have h' : d.Edited (fun _ => True) live v' K W' n' o :=
    Edited.renew { h with tidy := fun hall => absurd (hall "\x00" trivial) (by decide) } hv hentered.becomes
      fun hall => absurd (hall "\x00" trivial) (by decide)
  simp only [h.lookedUp, h'.lookedUp, Except.ok.injEq]
  refine ⟨hentered.new, fun other hne => hentered.child_of_ne hne, fun hname => hentered.child_self hname,
    fun hname => ⟨?_, hentered.child_kept⟩⟩
  cases hc : n'.child name with
  | none => rfl
  | some x => exact absurd (Node.nulFree_of_child hc) hname

/-- On a device of eight blocks that has been formatted, a name can be linked in the root. -/
theorem exists_linked : ∃ (c : Client) (v : Volume), c.Asked ∧
    c.handles[0]? = some (.directory (directoryAt rootInode)) ∧
    outcome ((directoryAt rootInode).add "b" 5) c.volume = (.ok (), v) ∧
    ∀ e, v.registry[rootInode]? = some e → e.removed = false := by
  have hfits : Regime.Fits ⟨8, False⟩ := ⟨by decide, by decide⟩
  obtain ⟨c₀, W, m, hstarts, hW, hopens, hbare, hfree⟩ := Client.exists_starts_bare hfits
  obtain ⟨c, T, hopen, hhandles, hs⟩ := hW.does_openRoot
  have hopening : (W.opened rootInode).opens rootInode = some ⟨1, false, 0⟩ := by
    rw [W.opened_opens_self, hopens]
    rfl
  -- The name is new, and it fits into the table as it is.
  have haddable : Addable ⟨8, False⟩ (W.opened rootInode) m ⟨1, false, 0⟩ "b" := by
    have hroom : Volume.Room ⟨8, False⟩ W.pool m 0 "b" 0 false := by
      refine hbare.room (by decide) rfl (fun _ => Nat.zero_le _) ?_
      have hstart : Regime.dataStart ⟨8, False⟩ = 2 := by decide
      have hnone : totalBlocks 0 = 0 := by decide
      simp only [Bool.false_eq_true, if_false, hnone]
      omega
    exact ⟨by decide, by decide, rfl, hroom.new, rfl, hroom.fits, (Nat.le_add_left ..).trans hroom.space⟩
  have hadd : Leads (Mounts ⟨8, False⟩) (W.opened rootInode) ((directoryAt rootInode).add "b" 5) _ :=
    add_leads hfits rfl hbare.node hopening hbare.tidy (by decide)
  obtain ⟨W', hv, ⟨hres, -, n, hbecomes, -⟩ | ⟨hno, -⟩⟩ := hadd.comes hs.mounts
  swap
  · exact absurd haddable (hno.resolve_left id)
  refine ⟨c, _, hstarts.asked.next hopen, by rw [hhandles, hstarts.handles]; rfl, Prod.ext hres rfl, fun e he => ?_⟩
  rw [hv.registry, World.entry_of_some (hbecomes.opens ▸ hopening) hbecomes.node] at he
  cases he
  rfl

/-- The root of a device of eight blocks. When an entry has been linked under a text with a zero character, all
is as said. When one has been linked under another name, it is found, and no name is listed twice. -/
theorem names_of_root : ∃ (c : Client) (v v₁ : Volume),
    v = (outcome ((directoryAt rootInode).add "a\x00b" 5) c.volume).2 ∧
    (directoryAt rootInode).Edits (fun _ => True)
      (fun x => c.Uses x ∧ x ≠ rootInode ∧ x ≠ (directoryAt rootInode).inode.number) v ∧
    ((∃ n, v.disk.device.pool.nodes (directoryAt rootInode).inode.number = some n ∧
      (∀ name, (directoryAt rootInode).lookedUp v name = .ok (n.child name)) ∧
      ((∀ name : String, True → NulFree name) →
        (∀ e, v.registry[(directoryAt rootInode).inode.number]? = some e → e.removed = false) →
        (n.entries.map Prod.fst).Nodup)) ∧
    ∀ (name : String) (number : UInt32),
      let (res, v') := outcome ((directoryAt rootInode).add name number) v
      res = .ok () → (directoryAt rootInode).lookedUp v name = .ok none ∧
        (∀ other, other ≠ beforeNul name →
          (directoryAt rootInode).lookedUp v' other = (directoryAt rootInode).lookedUp v other) ∧
        (NulFree name → (directoryAt rootInode).lookedUp v' name = .ok (some number)) ∧
        (¬NulFree name → (directoryAt rootInode).lookedUp v' name = .ok none ∧
          ∃ x, (directoryAt rootInode).lookedUp v' (beforeNul name) = .ok (some x))) ∧
    outcome ((directoryAt rootInode).add "b" 5) c.volume = (.ok (), v₁) ∧
    (directoryAt rootInode).Edits NulFree
      (fun x => c.Uses x ∧ x ≠ rootInode ∧ x ≠ (directoryAt rootInode).inode.number) v₁ ∧
    (directoryAt rootInode).lookedUp v₁ "b" = .ok (some 5) ∧
    ∃ n, v₁.disk.device.pool.nodes rootInode = some n ∧
      (∀ name, (directoryAt rootInode).lookedUp v₁ name = .ok (n.child name)) ∧
      (n.entries.map Prod.fst).Nodup := by
  obtain ⟨c, v₁, hc, hd, hadd, hkept⟩ := exists_linked
  have hheld : (directoryAt rootInode).Edits (fun _ => True) _ c.volume := .held hc hd rfl
  have hedits : (directoryAt rootInode).Edits (fun _ => True) _
      (outcome ((directoryAt rootInode).add "a\x00b" 5) c.volume).2 := hheld.add 5 trivial
  have hheld₁ : (directoryAt rootInode).Edits NulFree _ c.volume := .held hc hd rfl
  have hedits₁ : (directoryAt rootInode).Edits NulFree _
      (outcome ((directoryAt rootInode).add "b" 5) c.volume).2 := hheld₁.add 5 (by decide)
  -- The text without zero characters is linked from the state before, so that what is said of it there says
  -- that it is found.
  have hlinked := (names_of_edits hheld₁).2 "b" 5
  rw [hadd] at hedits₁ hlinked
  obtain ⟨n, hn, hlooked, hnodup⟩ := (names_of_edits hedits₁).1
  exact ⟨c, _, v₁, rfl, hedits, names_of_edits hedits, hadd, hedits₁, (hlinked rfl).2.2.1 (by decide), n, hn,
    hlooked, hnodup (fun _ hname => hname) hkept⟩

end Directory

end InodeVolume
