/-
Shared objects and their holders.

Several parties can hold one object.  It is made with one holder; the last one to
let go is handed the object and has to let go of what it holds in turn.  Objects
that hold each other in a ring are never handed out.
-/
namespace TaskDispatch.Machine

/-- An object and the number of its holders. -/
structure Held (α : Type) where
  object : α
  holders : Nat

/-- Shared objects under numbers that are never reused. -/
structure Pool (α : Type) where
  slots : Array (Option (Held α)) := #[]

namespace Pool

variable {α : Type}

/-- The object under a number, while somebody holds it. -/
def get? (p : Pool α) (id : Nat) : Option α := do
  return (← (← p.slots[id]?)).object

/-- Puts a new object in, with one holder. -/
def add (p : Pool α) (a : α) : Nat × Pool α :=
  (p.slots.size, ⟨p.slots.push (some ⟨a, 1⟩)⟩)

/-- Changes an object. -/
def modify (p : Pool α) (id : Nat) (f : α → α) : Pool α :=
  ⟨p.slots.modify id (Option.map fun h => { h with object := f h.object })⟩

/-- Replaces an object. -/
def put (p : Pool α) (id : Nat) (a : α) : Pool α := p.modify id fun _ => a

/-- Adds a holder. -/
def hold (p : Pool α) (id : Nat) : Pool α :=
  ⟨p.slots.modify id (Option.map fun h => { h with holders := h.holders + 1 })⟩

/-- Takes a holder off; the last one is handed the object. -/
def release (p : Pool α) (id : Nat) : Option α × Pool α :=
  match (p.slots[id]?).join with
  | none => (none, p)
  | some h =>
    if h.holders ≤ 1 then (some h.object, ⟨p.slots.modify id fun _ => none⟩)
    else (none, ⟨p.slots.modify id (Option.map fun h => { h with holders := h.holders - 1 })⟩)

end Pool

end TaskDispatch.Machine
