import InodeVolume.Proofs.Entries
import InodeVolume.Proofs.FailingReads

/-!
# Linking where accesses fail

What linking a name does to the entries of a directory (`Node.entries`) when any accesses may fail. The slot
for a new entry is where the scan for a vacant one ends, and a scan ends at a slot that cannot be read. So the
new entry may take the place of another one, or a write that fails may leave another one with some bytes of
the new one; all other entries stay as they are (`Client.added_of_asked`). Nothing of this happens as long as
the table can be read, whatever else fails.
-/

namespace InodeVolume

open Record

/-! ## Entries of a table -/

/-- `new` is `old` with `got` where `lost` was. -/
def Exchanged {α : Type} (old lost got new : List α) : Prop :=
  ∃ front back, old = front ++ lost ++ back ∧ new = front ++ got ++ back

theorem Exchanged.refl {α : Type} (l : List α) : Exchanged l [] [] l := ⟨l, [], by simp, by simp⟩

theorem Exchanged.eq_of_nil {α : Type} {old new : List α} (h : Exchanged old [] [] new) : new = old := by
  obtain ⟨front, back, rfl, rfl⟩ := h
  rfl

/-- Lists that are filled place by place, and differ in what one place gives. -/
theorem exchanged_filterMap {α : Type} {f g : Nat → Option α} {j m : Nat} (hj : j < m)
    (h : ∀ i, i ≠ j → g i = f i) :
    Exchanged ((List.range m).filterMap f) (f j).toList (g j).toList ((List.range m).filterMap g) := by
  obtain ⟨d, rfl⟩ := Nat.exists_eq_add_of_lt hj
  have hfront : (List.range j).filterMap g = (List.range j).filterMap f :=
    List.filterMap_congr fun i hi => h i (Nat.ne_of_lt (List.mem_range.1 hi))
  have hback : (List.range d).filterMap (g ∘ (j + 1 + ·)) = (List.range d).filterMap (f ∘ (j + 1 + ·)) :=
    List.filterMap_congr fun i _ => h (j + 1 + i) (by omega)
  -- The range is cut around the place: what stands before it and behind it is the same.
  have hsplit (k : Nat → Option α) : (List.range (j + d + 1)).filterMap k =
      (List.range j).filterMap k ++ (k j).toList ++ (List.range d).filterMap (k ∘ (j + 1 + ·)) := by
    rw [show j + d + 1 = j + 1 + d by omega, List.range_add, List.range_succ, List.filterMap_append,
      List.filterMap_append, List.filterMap_map]
    cases hk : k j <;> simp [hk]
  exact ⟨_, _, hsplit f, by rw [hsplit g, hfront, hback]⟩

/-- The name that a slot is in use for, and the inode that it stands for. -/
def Slot.link (s : Slot) : Option (String × UInt32) :=
  if s.inUse then some (s.name, s.number) else none

namespace Node

variable {n n' : Node} {name : String} {x : UInt32} {j k : Nat} {s : Slot}

/-- The entries of a directory, in the order of their slots. -/
def entries (n : Node) : List (String × UInt32) := (List.range n.slots).filterMap fun j => (n.slot j).link

theorem mem_entries : (name, x) ∈ n.entries ↔ ∃ j, n.EntryAt j name x := by
  simp only [entries, List.mem_filterMap, List.mem_range, Slot.link, Option.ite_none_right_eq_some,
    Option.some.injEq, Prod.mk.injEq]
  exact exists_congr fun j => ⟨fun ⟨hlt, huse, hname, hx⟩ => ⟨hlt, huse, hname, hx⟩,
    fun h => ⟨h.lt, h.inUse, h.name_eq, h.number⟩⟩

/-- A name has entries exactly if it stands for an inode. -/
theorem not_mem_entries (h : n.child name = none) : (name, x) ∉ n.entries := fun hx => by
  obtain ⟨j, hj⟩ := mem_entries.1 hx
  exact child_none_iff.1 h j x hj

/-- Behind the table there are only zeros, which are no entries. -/
theorem link_past (htail : ∀ i, n.size ≤ i → n.byte i = 0) (hj : n.slots ≤ j) :
    (n.slot j).link = none := by
  have hlast : n.byte (j * slotSize + 19) = 0 := by
    refine htail _ ?_
    simp only [slots, slotSize] at hj ⊢
    omega
  have hfree : (n.slot j).inUse = false := by
    simp only [slot, Slot.decode, getElem_bytesFrom, hlast]
    rfl
  rw [Slot.link, hfree, if_neg Bool.false_ne_true]

theorem entries_eq (htail : ∀ i, n.size ≤ i → n.byte i = 0) {m : Nat} (hm : n.slots ≤ m) :
    n.entries = (List.range m).filterMap fun j => (n.slot j).link := by
  obtain ⟨d, rfl⟩ := Nat.exists_eq_add_of_le hm
  have hpast : ((List.range d).map (n.slots + ·)).filterMap (fun j => (n.slot j).link) = [] := by
    refine List.filterMap_eq_nil_iff.2 fun j hj => ?_
    obtain ⟨i, -, rfl⟩ := List.mem_map.1 hj
    exact link_past htail (Nat.le_add_right ..)
  rw [entries, List.range_add, List.filterMap_append, hpast, List.append_nil]

/-- Writing the first bytes of a slot, in the table or at its end, changes the entry of this slot only. -/
theorem entries_written (htail : ∀ i, n.size ≤ i → n.byte i = 0) (hk : k ≤ slotSize)
    (hsize : n'.size = max n.size (j * slotSize + slotSize))
    (hbyte : n'.byte = overwrite n.byte (j * slotSize) s.encode k) :
    Exchanged n.entries (n.slot j).link.toList (n'.slot j).link.toList n'.entries := by
  have hle : n.slots ≤ n'.slots ∧ j < n'.slots := by
    simp only [slots, hsize, slotSize]
    omega
  rw [entries_eq htail hle.1]
  exact exchanged_filterMap (f := fun j => (n.slot j).link) (g := fun j => (n'.slot j).link) hle.2
    fun i hi => by rw [slot_other hi hk hbyte]

/-- No entry is lost where a new one goes first. -/
theorem link_vacant (htail : ∀ i, n.size ≤ i → n.byte i = 0) : (n.slot n.vacant).link = none := by
  rcases Nat.lt_or_ge n.vacant n.slots with hlt | hge
  · rw [Slot.link, vacant_inUse hlt, if_neg Bool.false_ne_true]
  · exact link_past htail hge

/-- A slot of which the last byte has not been written has an entry exactly if it had one before. -/
theorem length_link_cut (hk : k < slotSize) (hbyte : n'.byte = overwrite n.byte (j * slotSize) s.encode k) :
    (n'.slot j).link.toList.length = (n.slot j).link.toList.length := by
  simp only [Slot.link, inUse_cut hk hbyte]
  split <;> simp only [Option.toList_some, Option.toList_none, List.length_singleton]

/-- What linking a name does to the entries: it gains the new one or it fails, and one other entry at most
is changed. It is none if the directory is `readable`. -/
inductive Takes (n : Node) (name : String) (number : UInt32) (readable : Prop) (n' : Node) :
    Except Stop Unit → Prop
  | linked (lost : List (String × UInt32)) (one : lost.length ≤ 1)
      (entries : Exchanged n.entries lost [(name, number)] n'.entries)
      (clean : readable → (∀ x, (name, x) ∉ n.entries) ∧ lost = []) : Takes n name number readable n' (.ok ())
  | refused (e : Error) (lost got : List (String × UInt32)) (one : lost.length ≤ 1)
      (same : got.length = lost.length) (entries : Exchanged n.entries lost got n'.entries)
      (clean : readable → n'.entries = n.entries) : Takes n name number readable n' (.error (.failed e))

variable {number : UInt32} {readable : Prop}

theorem takes_refused (n : Node) (e : Error) : Takes n name number readable n (.error (.failed e)) :=
  .refused e [] [] (Nat.zero_le 1) rfl (Exchanged.refl _) fun _ => rfl

theorem length_link_le (s : Slot) : s.link.toList.length ≤ 1 := by
  cases s.link <;> simp

end Node

/-! ## Storing the slot of a name -/

namespace Directory

variable {K : Regime} {W : World} {bad : Nat → Prop} {d : Directory} {id number : UInt32} {n : Node}
  {o : Opening} {name : String} {j : Nat}

/-- What linking a name to `number` in directory `id` comes to where accesses may fail. -/
def LinkedAmid (W : World) (bad : Nat → Prop) (id : UInt32) (n : Node) (name : String) (number : UInt32)
    (res : Except Stop Unit) (W' : World) : Prop :=
  (∀ i, i ≠ id → W'.pool.nodes i = W.pool.nodes i) ∧
    ∃ n', W'.pool.nodes id = some n' ∧ n.Takes name number (¬Marred bad n.owned) n' res

/-- Directory `id` takes the name, and nothing else has changed. -/
def TakenAmid (W : World) (bad : Nat → Prop) (id : UInt32) (n : Node) (name : String) (number : UInt32)
    (res : Except Stop Unit) (W' : World) : Prop :=
  ∃ n', W.Becomes id n' W' ∧ n'.record.isDirectory = n.record.isDirectory ∧
    n.Takes name number (¬Marred bad n.owned) n' res

theorem TakenAmid.linkedAmid {res : Except Stop Unit} {W' : World}
    (h : TakenAmid W bad id n name number res W') : LinkedAmid W bad id n name number res W' := by
  obtain ⟨n', hbecomes, -, htakes⟩ := h
  exact ⟨fun i hi => hbecomes.node_of_ne hi, n', hbecomes.node, htakes⟩

theorem takenAmid_refused {W' : World} (hn : W.pool.nodes id = some n) (hnodes : W'.pool.nodes = W.pool.nodes)
    (hheld : W'.pool.held = W.pool.held) (hopens : W'.opens = W.opens) (e : Error) :
    TakenAmid W bad id n name number (.error (.failed e)) W' :=
  ⟨n, ⟨by rw [hnodes, Function.update_eq_self_iff.2 hn.symm], hheld, hopens⟩, rfl, n.takes_refused e⟩

/-- Storing the slot of a name in place `j`, which is vacant and the name new unless the table cannot be
read. -/
theorem fill_partly (hK : K.faulty) (hF : K.Fits) (hd : d.inode = ⟨id⟩) (hn : W.pool.nodes id = some n)
    (ho : W.opens id = some o) (hname : NulFree name) (hshort : name.utf8ByteSize ≤ nameMax)
    (hclean : ¬Marred bad n.owned → n.child name = none ∧ j = n.vacant) :
    Leads (Partly bad (Mounts K)) W
      (d.writeSlot (j * slotSize) (Slot.ofName name number (Nat.le_succ_of_le hshort)))
      (TakenAmid W bad id n name number) := by
  refine Leads.of_shown fun v hv => ?_
  have htail := (hv.shows.disk.sound.stored id n hn).tail
  generalize hslot : Slot.ofName name number (Nat.le_succ_of_le hshort) = slot
  have hlink : slot.link = some (name, number) := by
    have hslotName : slot.name = name := by
      rw [← hslot]
      exact Slot.name_ofName number _ hshort hname
    have hslotInUse : slot.inUse = true := by
      rw [← hslot]
      rfl
    rw [Slot.link, if_pos hslotInUse, hslotName, ← hslot]
    rfl
  have hvacant (hr : ¬Marred bad n.owned) : (n.slot j).link.toList = [] := by
    rw [(hclean hr).2, Node.link_vacant htail, Option.toList_none]
  refine Leads.mono (Leads.of_faithful hK (writeSlot_faithful d _ slot)
    (writeSlot_leads hF hd hn ho (j * slotSize) slot)) ?_
  rintro res W' ⟨r, htold, ⟨-, rfl, rfl⟩ | ⟨-, k, n', hbecomes, hwrote, hres⟩ | ⟨-, -, e, rfl, hstays, -⟩⟩
  · cases htold with
    | same | io => exact takenAmid_refused hn rfl rfl rfl _
  · refine ⟨n', hbecomes, hwrote.isDirectory, ?_⟩
    have hsize := hwrote.size
    rw [slot.size_encode] at hsize
    have hk : k ≤ slotSize := by
      rcases hres with ⟨-, rfl⟩ | ⟨-, hk, -⟩
      · exact Nat.le_refl _
      · exact Nat.le_of_lt hk
    have hentries := Node.entries_written htail hk hsize hwrote.byte
    have hone := Node.length_link_le (n.slot j)
    -- The mark of a slot in use is its last byte, so a slot that is cut short is in use if it was before.
    rcases hres with ⟨rfl, rfl⟩ | ⟨-, hcut, rfl⟩
    · rw [Node.slot_written hwrote.byte, hlink] at hentries
      cases htold with
      | ok => exact .linked _ hone hentries fun hr =>
          ⟨fun x => Node.not_mem_entries (hclean hr).1, hvacant hr⟩
    · have hlength := Node.length_link_cut hcut hwrote.byte
      have hsame (hr : ¬Marred bad n.owned) : n'.entries = n.entries := by
        rw [hvacant hr, List.length_nil, List.length_eq_zero_iff] at hlength
        rw [hvacant hr, hlength] at hentries
        exact hentries.eq_of_nil
      cases htold with
      | same | io => exact .refused _ _ _ hone hlength hentries hsame
  · cases htold with
    | same | io => exact takenAmid_refused hn hstays.nodes hstays.held hstays.opens _

/-- Linking a name changes at most one entry besides, whatever fails, and none if the table can be read. -/
theorem add_taken (hK : K.faulty) (hF : K.Fits) (hd : d.inode = ⟨id⟩) (hn : W.pool.nodes id = some n)
    (ho : W.opens id = some o) (hname : NulFree name) :
    Leads (Partly bad (Mounts K)) W (d.add name number) (TakenAmid W bad id n name number) := by
  have hrefused (e : Error) : TakenAmid W bad id n name number (.error (.failed e)) W :=
    takenAmid_refused hn rfl rfl rfl e
  unfold add
  by_cases hempty : name.isEmpty = true
  · rw [if_pos hempty]
    exact Leads.fail (hrefused _)
  rw [if_neg hempty]
  by_cases hshort : name.utf8ByteSize ≤ nameMax
  swap
  · rw [dif_neg hshort]
    exact Leads.fail (hrefused _)
  rw [dif_pos hshort, hd]
  refine Yields.bind (Inode.entry_partly hK hn ho) ?_
  by_cases hremoved : o.removed = true
  · rw [if_pos hremoved]
    exact Leads.failBind (hrefused _)
  rw [if_neg hremoved]
  refine Answers.bind (find_partly hK hd hn ho name) fun found hfound => ?_
  by_cases hsome : found.isSome = true
  · rw [if_pos hsome]
    exact Leads.failBind (hrefused _)
  rw [if_neg hsome]
  -- Only if the whole table can be read, a name that is not found is known to be new.
  have hnew (hr : ¬Marred bad n.owned) : n.child name = none := by
    rcases hfound with rfl | ⟨hbad, -⟩
    · exact (Node.child_eq_none_iff _).2 hsome
    · exact absurd hbad hr
  refine Answers.bind (search_partly hK hd hn ho (Node.vacancy_replies hK hn)) ?_
  rintro offset (rfl | ⟨hbad, j, -, rfl⟩)
  · exact fill_partly hK hF hd hn ho hname hshort fun hr => ⟨hnew hr, rfl⟩
  · exact fill_partly hK hF hd hn ho hname hshort fun hr => absurd hbad hr

theorem add_partly (hK : K.faulty) (hF : K.Fits) (hd : d.inode = ⟨id⟩) (hn : W.pool.nodes id = some n)
    (ho : W.opens id = some o) (hname : NulFree name) :
    Leads (Partly bad (Mounts K)) W (d.add name number) (LinkedAmid W bad id n name number) :=
  Leads.mono (add_taken hK hF hd hn ho hname) fun _ _ h => h.linkedAmid

end Directory

/-! ## Clients -/

namespace Client

variable {c : Client} {i : Nat} {d : Directory} {name : String}

/-- On a device of eight blocks that has been formatted, the root can be held open. -/
theorem exists_asked_at_root : ∃ c : Client, c.Asked ∧
    c.handles[0]? = some (.directory (directoryAt rootInode)) := by
  have hfits : Regime.Fits ⟨8, False⟩ := ⟨by decide, by decide⟩
  obtain ⟨c₀, W, m, hs, hW, -⟩ := exists_starts_bare hfits
  obtain ⟨c, T, hopen, hhandles, -⟩ := hW.does_openRoot
  refine ⟨c, hs.asked.next hopen, ?_⟩
  rw [hhandles, hs.handles]
  rfl

/-- Whatever fails while a name is linked, the directory has all entries that it had, but at most one: the new
entry has taken its place, or is to be found there in part. Nothing is lost if the blocks of the table can be
read, and the name is linked then only if it is new. All other inodes stay as they are. -/
theorem added_of_asked (h : c.Asked) (hd : c.handles[i]? = some (.directory d)) (hname : NulFree name)
    (number : UInt32) (f : Faults) :
    let (res, v) := outcome (d.add name number) (c.volume.under f)
    (∃ n n', c.pool.nodes d.inode.number = some n ∧ v.disk.device.pool.nodes d.inode.number = some n' ∧
        n.Takes name number (¬Marred f.spoils n.owned) n' res) ∧
      ∀ x, c.Uses x → x ≠ d.inode.number → v.disk.device.pool.nodes x = c.pool.nodes x := by
  obtain ⟨K, W, T, hf, ha⟩ := h.abides
  obtain ⟨o, ho, -⟩ := ha.stands.good.tracks.opened_of_handle hd
  have ho : W.opens d.inode.number = some o := ho
  obtain ⟨n, hn⟩ := Option.ne_none_iff_exists'.1 (ha.stands.mounts.live d.inode.number (by simp [ho]))
  have hF := ha.stands.fits.failing
  -- The volume is taken as one on which anything may fail from now on, with the reads that fail named.
  have hadd : Leads (Partly f.spoils (Mounts K.failing)) W (d.add name number)
      (Directory.LinkedAmid W f.spoils d.inode.number n name number) :=
    Directory.add_partly trivial hF rfl hn ho hname
  obtain ⟨W', hv, hothers, n', hn', htakes⟩ := hadd.comes (ha.stands.mounts.under f)
  refine ⟨⟨n, n', ha.stands.node hn, hv.node hF hn', htakes⟩, fun x hx hne => ?_⟩
  obtain ⟨m, hm⟩ := Option.ne_none_iff_exists'.1 ((ha.stands.uses_iff hf).1 hx)
  rw [ha.stands.node hm]
  exact hv.node hF ((hothers x hne).trans hm)

/-- The root of a device of eight blocks, whose table cannot be read. -/
theorem added_of_holding_root : ∃ c : Client, c.Asked ∧
    c.handles[0]? = some (.directory (directoryAt rootInode)) ∧ NulFree "a" ∧
    let (res, v) := outcome ((directoryAt rootInode).add "a" 5) (c.volume.under (.from none none [2] []))
    (∃ n n', c.pool.nodes rootInode = some n ∧ v.disk.device.pool.nodes rootInode = some n' ∧
        n.Takes "a" 5 (¬Marred (Faults.from none none [2] []).spoils n.owned) n' res) ∧
      ∀ x, c.Uses x → x ≠ rootInode → v.disk.device.pool.nodes x = c.pool.nodes x := by
  obtain ⟨c, hc, hd⟩ := exists_asked_at_root
  exact ⟨c, hc, hd, by decide, added_of_asked hc hd (by decide) 5 _⟩

end Client

end InodeVolume
