import InodeVolume.Directory.Slot
import InodeVolume.Record.Content

/-!
# The table of a directory

Looking through the slots of a directory in order. A scan begins at some byte of the table and goes on
slot by slot until a slot is what is looked for, or until no whole slot can be read: at the end of the
table, or where the device fails.
-/

namespace InodeVolume

/-- Whether a name is one of the two that every directory keeps for itself. -/
def isDotName (name : String) : Bool := name == "." || name == ".."

namespace Record

/-- The slot at byte `offset` of the table, if all of it can be read. -/
def slotAt (r : Record) (offset : Nat) : DiskAction (Option Slot) := do
  let bytes ← r.read offset slotSize
  if h : bytes.size = slotSize then pure (some (Slot.decode bytes h)) else pure none

/-- Looks at up to `n` slots from byte `offset` on for one that satisfies `p`. Answers the byte at which
the scan ended, and the slot if there is one. -/
def scanSlots (r : Record) (p : Slot → Bool) (offset : Nat) : Nat → DiskAction (Nat × Option Slot)
  | 0 => pure (offset, none)
  | n + 1 => do
    match ← r.slotAt offset with
    | none => pure (offset, none)
    | some s => if p s then pure (offset, some s) else r.scanSlots p (offset + slotSize) n

/-- How many slots a scan has to look at to be sure to meet the end of the table. -/
def slotBound (r : Record) : Nat := r.length.toNat / slotSize + 1

/-- Looks from byte `offset` on for the first slot that satisfies `p`. -/
def findSlot (r : Record) (p : Slot → Bool) (offset : Nat) : DiskAction (Nat × Option Slot) :=
  r.scanSlots p offset r.slotBound

/-- The slot in use for `name`, with its place. -/
def findName (r : Record) (name : String) : DiskAction (Option (Nat × Slot)) := do
  let (offset, slot) ← r.findSlot (fun s => s.inUse && s.name == name) 0
  pure (slot.map (offset, ·))

/-- The place for a new slot: the first one not in use, or else the end of the table. -/
def vacancy (r : Record) : DiskAction Nat := do
  pure (← r.findSlot (fun s => !s.inUse) 0).1

/-- Whether some slot in use has another name than the two of every directory. -/
def hasEntries (r : Record) : DiskAction Bool := do
  pure (← r.findSlot (fun s => s.inUse && !isDotName s.name) 0).2.isSome

end Record

end InodeVolume
