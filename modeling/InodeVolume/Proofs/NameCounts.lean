import InodeVolume.Proofs.Slots
import Mathlib.Data.Finset.Image

/-!
# How many names a table holds

A table has one slot for each of its names and perhaps some that are vacant. So how long it is after one more
name has been linked follows from the number of names and that of slots, wherever the vacant ones are
(`Tidy.size_linked`).
-/

namespace InodeVolume

namespace Node

variable {n n' : Node} {name : String} {x : UInt32}

/-- The places of the slots that are in use. -/
def taken (n : Node) : Finset Nat := (Finset.range n.slots).filter fun j => (n.slot j).inUse = true

/-- The names in a table. -/
def names (n : Node) : Finset String := n.taken.image fun j => (n.slot j).name

theorem mem_taken {j : Nat} : j ∈ n.taken ↔ j < n.slots ∧ (n.slot j).inUse = true := by
  simp [taken]

theorem mem_names : name ∈ n.names ↔ n.child name ≠ none := by
  rw [names, Finset.mem_image]
  constructor
  · rintro ⟨j, hj, hname⟩ hnone
    rw [mem_taken] at hj
    exact child_none_iff.1 hnone j _ ⟨hj.1, hj.2, hname, rfl⟩
  · intro h
    obtain ⟨x, hx⟩ := Option.ne_none_iff_exists'.1 h
    obtain ⟨j, -, hj⟩ := child_some hx
    exact ⟨j, mem_taken.2 ⟨hj.lt, hj.inUse⟩, hj.name_eq⟩

theorem names_eq_empty (h : n.child = fun _ => none) : n.names = ∅ := by
  ext name
  simp [mem_names, h]

/-- Each name has a slot of its own. -/
theorem Tidy.card_names (h : n.Tidy) : n.names.card = n.taken.card := by
  apply Finset.card_image_of_injOn
  intro i hi j hj hname
  have hi := mem_taken.1 (Finset.mem_coe.1 hi)
  have hj := mem_taken.1 (Finset.mem_coe.1 hj)
  exact h.unique i j _ _ _ ⟨hi.1, hi.2, rfl, rfl⟩ ⟨hj.1, hj.2, hname.symm, rfl⟩

theorem Tidy.card_names_le (h : n.Tidy) : n.names.card ≤ n.slots := by
  rw [h.card_names]
  simpa [taken] using Finset.card_filter_le (Finset.range n.slots) fun j => (n.slot j).inUse = true

/-- Where a slot is vacant there are fewer names than slots. -/
theorem Tidy.card_names_lt (h : n.Tidy) (hv : n.vacant < n.slots) : n.names.card < n.slots := by
  -- There is a slot that is not in use, so fewer are in use than there are.
  have hsub : n.taken ⊆ (Finset.range n.slots).erase n.vacant := by
    intro j hj
    rw [mem_taken] at hj
    rw [Finset.mem_erase, Finset.mem_range]
    refine ⟨?_, hj.1⟩
    rintro rfl
    have hfree := vacant_inUse hv
    rw [hj.2] at hfree
    cases hfree
  have hle := Finset.card_le_card hsub
  rw [Finset.card_erase_of_mem (Finset.mem_range.2 hv), Finset.card_range] at hle
  rw [h.card_names]
  omega

/-- Where no slot is vacant every slot has its name. -/
theorem Tidy.card_names_of_full (h : n.Tidy) (hv : n.vacant = n.slots) : n.names.card = n.slots := by
  -- No slot is free, so the search for one has gone through all of them.
  have hall : n.taken = Finset.range n.slots := by
    apply Finset.filter_true_of_mem
    intro j hj
    rw [Finset.mem_range, ← hv] at hj
    cases hs : n.search (fun s => !s.inUse) 0 with
    | none =>
      have hlt : j < n.slots := hv ▸ hj
      simpa using search_none hs (Nat.zero_le j) hlt
    | some k =>
      rw [vacant, hs, Option.getD_some] at hj
      simpa using (search_some hs).2.2.2 j (Nat.zero_le j) hj
  rw [h.card_names, hall, Finset.card_range]

theorem Tidy.size_eq (h : n.Tidy) : n.size = slotSize * n.slots := by
  rw [slots, Nat.mul_div_cancel' (Nat.dvd_of_mod_eq_zero h.whole)]

/-- How long a table is after one more name has been linked. -/
theorem Tidy.size_linked (h : n.Tidy) :
    max n.size (n.vacant * slotSize + slotSize) = slotSize * max n.slots (n.names.card + 1) := by
  have hsize := h.size_eq
  rcases Nat.lt_or_eq_of_le n.vacant_le with hv | hv
  · have hlt := h.card_names_lt hv
    simp only [slotSize] at hsize ⊢
    omega
  · have hcard := h.card_names_of_full hv
    simp only [slotSize] at hsize ⊢
    omega

theorem names_linked (h : n'.child = Function.update n.child name (some x)) :
    n'.names = insert name n.names := by
  ext nm
  rw [Finset.mem_insert, mem_names, mem_names, h]
  by_cases hnm : nm = name
  · simp [hnm]
  · simp [hnm]

theorem card_names_linked (h : n'.child = Function.update n.child name (some x)) (hnew : n.child name = none) :
    n'.names.card = n.names.card + 1 := by
  rw [names_linked h, Finset.card_insert_of_notMem]
  simp [mem_names, hnew]

end Node

end InodeVolume
