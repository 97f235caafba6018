import Mathlib.Data.List.Basic

/-!
# Event groups

The groups a program has created, in the order of their creation. A handle is a
position in that order, so it names one group for ever and a deleted group can
be told from a live one.
-/

namespace IndustrialIot.EventGroup

/-- One group: its bits, and whether it has been deleted. -/
structure Group where
  bits : UInt32
  deleted : Bool
  deriving DecidableEq, Repr

/-- A new group, named by the number of groups before it. -/
def create (groups : List Group) : List Group := groups ++ [⟨0, false⟩]

/-- Delete the group behind a handle. Its memory keeps the last bits. -/
def delete (groups : List Group) (handle : Nat) : List Group :=
  groups.modify handle fun group => { group with deleted := true }

/-- Set bits of the group behind a handle. -/
def setBits (groups : List Group) (handle : Nat) (bits : UInt32) : List Group :=
  groups.modify handle fun group => { group with bits := group.bits ||| bits }

/-- The bits behind a handle. -/
def bitsOf (groups : List Group) (handle : Nat) : UInt32 :=
  (groups[handle]?.map Group.bits).getD 0

/-- The handle names a group that has been created and not deleted. -/
def Live (groups : List Group) (handle : Nat) : Prop :=
  ∃ group, groups[handle]? = some group ∧ group.deleted = false

instance (groups : List Group) (handle : Nat) : Decidable (Live groups handle) :=
  match h : groups[handle]? with
  | none => isFalse (by simp [Live, h])
  | some group => decidable_of_iff (group.deleted = false) (by simp [Live, h])

variable {groups : List Group} {handle other : Nat}

theorem live_create (groups : List Group) : Live (create groups) groups.length :=
  ⟨⟨0, false⟩, by simp [create], rfl⟩

theorem Live.create (h : Live groups handle) : Live (create groups) handle := by
  obtain ⟨group, hget, hlive⟩ := h
  refine ⟨group, ?_, hlive⟩
  have hlt : handle < groups.length := (List.getElem?_eq_some_iff.mp hget).1
  rw [EventGroup.create, List.getElem?_append_left hlt, hget]

theorem live_setBits (bits : UInt32) :
    Live (setBits groups other bits) handle ↔ Live groups handle := by
  rw [Live, Live, setBits, List.getElem?_modify]
  cases groups[handle]? with
  | none => simp
  | some group => by_cases h : other = handle <;> simp [h]

/-- A deletion kills exactly the group it names. -/
theorem live_delete :
    Live (delete groups other) handle ↔ Live groups handle ∧ handle ≠ other := by
  rw [Live, Live, delete, List.getElem?_modify]
  cases groups[handle]? with
  | none => simp
  | some group => rcases eq_or_ne other handle with rfl | h <;> simp [*, Ne.symm]

theorem bitsOf_create (groups : List Group) (handle : Nat) :
    bitsOf (create groups) handle = bitsOf groups handle := by
  rw [bitsOf, bitsOf, create, List.getElem?_append]
  split
  · rfl
  · rw [List.getElem?_eq_none (l := groups) (by omega)]
    cases handle - groups.length <;> simp

/-- Bits are set in the group that is named, and in no other. -/
theorem bitsOf_setBits (bits : UInt32) :
    bitsOf (setBits groups other bits) handle =
      if other = handle ∧ handle < groups.length then bitsOf groups handle ||| bits
      else bitsOf groups handle := by
  rw [bitsOf, bitsOf, setBits, List.getElem?_modify]
  by_cases hlt : handle < groups.length
  · by_cases h : other = handle <;> simp [h, hlt]
  · simp [hlt]

end IndustrialIot.EventGroup
