/-
A slab: a growing row of slots with a stack of vacant ones.

Inserting fills the slot vacated last, or appends one, and answers the slot's
index.  Removing empties a slot and puts its index on the stack.  Draining hands
over the live items in ascending order and leaves nothing behind, however many of
them the caller looks at.
-/
namespace TaskDispatch

/-- Items under small indices that are reused after a removal. -/
structure Slab (α : Type) where
  /-- The slots, vacant or live. -/
  slots : List (Option α) := []
  /-- The vacant indices, the one vacated last in front. -/
  free : List Nat := []
  /-- The number of live items. -/
  len : Nat := 0

namespace Slab

variable {α : Type}

/-- The item under an index, if that slot is live. -/
def get? (s : Slab α) (i : Nat) : Option α := (s.slots[i]?).join

/-- Puts an item into the slot vacated last, or into a new one, and answers its index. -/
def insert (s : Slab α) (item : α) : Nat × Slab α :=
  match s.free with
  | i :: free => (i, ⟨s.slots.set i (some item), free, s.len + 1⟩)
  | [] => (s.slots.length, ⟨s.slots ++ [some item], [], s.len + 1⟩)

/-- Takes the item out of a live slot; anything else changes nothing. -/
def remove? (s : Slab α) (i : Nat) : Option α × Slab α :=
  match s.get? i with
  | none => (none, s)
  | some item => (some item, ⟨s.slots.set i none, i :: s.free, s.len - 1⟩)

/-- Replaces the item of a live slot. -/
def modify (s : Slab α) (i : Nat) (f : α → α) : Slab α :=
  { s with slots := s.slots.modify i (Option.map f) }

/-- Hands over the live items, lowest index first, and empties the slab. -/
def drain (s : Slab α) : List α × Slab α :=
  (s.slots.filterMap id, {})

/-! ### The items under their indices -/

theorem remove?_of_get?_eq_none {s : Slab α} {i : Nat} (h : s.get? i = none) :
    s.remove? i = (none, s) := by
  rw [remove?, h]

theorem remove?_of_get?_eq_some {s : Slab α} {i : Nat} {a : α} (h : s.get? i = some a) :
    s.remove? i = (some a, ⟨s.slots.set i none, i :: s.free, s.len - 1⟩) := by
  rw [remove?, h]

/-- A drained slab holds nothing. -/
@[simp] theorem get?_drain (s : Slab α) (i : Nat) : s.drain.2.get? i = none := rfl

end Slab

end TaskDispatch
