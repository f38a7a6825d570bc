/-
Named things, each under one name.
-/
namespace TaskDispatch.Machine

/-- Things under names; putting a thing under a name replaces what was there. -/
abbrev Names (α : Type) := List (String × α)

namespace Names

variable {α : Type}

def get? (names : Names α) (name : String) : Option α := names.lookup name

/-- The names without one of them. -/
def erase (names : Names α) (name : String) : Names α := names.filter (·.1 != name)

def put (names : Names α) (name : String) (a : α) : Names α := (name, a) :: names.erase name

/-- Changes what is under a name, or what would be there by default. -/
def update (names : Names α) (name : String) (default : α) (f : α → α) : Names α :=
  names.put name (f ((names.get? name).getD default))

@[simp] theorem get?_put (names : Names α) (name : String) (a : α) :
    (names.put name a).get? name = some a := by
  simp [get?, put]

end Names

end TaskDispatch.Machine
