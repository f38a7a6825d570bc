/-
The values that tasks produce and that logs and answers are made of.

A task never looks into its value, so the type is the plain data of a message:
null, truth values, integers, texts, lists, and records whose fields keep the
order in which they were given.
-/
namespace TaskDispatch

/-- A message value. -/
inductive Value where
  | null
  | bool (b : Bool)
  | int (n : Int)
  | text (s : String)
  | list (items : List Value)
  | record (fields : List (String × Value))
  deriving Inhabited

namespace Value

/-- A record with one field. -/
def single (field : String) (v : Value) : Value := .record [(field, v)]

/-- A count as a value. -/
def nat (n : Nat) : Value := .int (Int.ofNat n)

end Value

end TaskDispatch
