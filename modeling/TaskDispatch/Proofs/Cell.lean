/-
A cell of its own, to which anything is done in any order.

What may still happen to a cell can be told from its state, and every deed can only lower
it: a write needs a cell that is still empty (`countP_writes_le`), and a value moves out of a
cell that has one or may still get one (`countP_moves_le`).  Taking from an empty cell is a
panic, and spoils it: it counts as written from then on.
-/
import TaskDispatch.Cell
import TaskDispatch.Proofs.Interleaving

namespace TaskDispatch.Cell

variable {α : Type}

/-- What is done to a cell. -/
inductive Deed (α : Type) where
  | complete (outcome : Outcome α)
  | get
  | take

/-- What a deed answers, which is an outcome or nothing, and what it leaves.  A cell that refuses an outcome
stays as it is. -/
def perform (c : Cell α) : Deed α → Except Panic (Option (Outcome α)) × Cell α
  | .complete outcome =>
    match c.complete outcome with
    | .ok c' => (.ok none, c')
    | .error p => (.error p, c)
  | .get => (c.get.map some, c)
  | .take => (c.take.1.map some, c.take.2)

/-- The cell after deeds, one after another. -/
def after (c : Cell α) (deeds : List (Deed α)) : Cell α := deeds.foldl (fun c d => (c.perform d).2) c

/-- Deeds, one after another, each with its answer. -/
def history (c : Cell α) : List (Deed α) → List (Deed α × Except Panic (Option (Outcome α)))
  | [] => []
  | d :: rest => (d, (c.perform d).1) :: (c.perform d).2.history rest

/-- The deed wrote an outcome. -/
def writes : Deed α × Except Panic (Option (Outcome α)) → Bool
  | (.complete _, .ok _) => true
  | _ => false

/-- The deed moved a value out. -/
def moves : Deed α × Except Panic (Option (Outcome α)) → Bool
  | (.take, .ok (some (.ok _))) => true
  | _ => false

/-- A value is there or may still be written. -/
def mayMove : Cell α → Bool
  | empty | value _ => true
  | error _ | consumed => false

/-- What is read tells what the cell is. -/
theorem get_injective : Function.Injective (get : Cell α → Except Panic (Outcome α)) := by
  have htexts : Panic.readTooEarly ≠ Panic.alreadyTaken := by decide
  intro c d h
  cases c <;> cases d <;> simp_all [get]

/-! ### One deed -/

/-- A deed that writes uses the cell up, and no deed makes it empty again. -/
theorem writes_perform_le (c : Cell α) (d : Deed α) :
    (writes (d, (c.perform d).1)).toNat + (c.perform d).2.isEmpty.toNat ≤ c.isEmpty.toNat := by
  cases d with
  | complete outcome => cases c <;> cases outcome <;> simp [perform, complete, writes, ofOutcome, isEmpty]
  | get => cases c <;> simp [perform, writes, isEmpty]
  | take => cases c <;> simp [perform, take, writes, isEmpty]

/-- A deed that moves a value out leaves none behind, and no deed brings one back. -/
theorem moves_perform_le (c : Cell α) (d : Deed α) :
    (moves (d, (c.perform d).1)).toNat + (c.perform d).2.mayMove.toNat ≤ c.mayMove.toNat := by
  cases d with
  | complete outcome => cases c <;> cases outcome <;> simp [perform, complete, moves, ofOutcome, mayMove]
  | get => cases c <;> simp [perform, moves, mayMove]
  | take => cases c <;> simp [perform, take, moves, mayMove, Except.map]

/-! ### Any deeds -/

/-- A deed at the head of a history counts if it is of the kind. -/
theorem countP_history_le {p : Deed α × Except Panic (Option (Outcome α)) → Bool} {may : Cell α → Bool}
    (hstep : ∀ c d, (p (d, (c.perform d).1)).toNat + (may (c.perform d).2).toNat ≤ (may c).toNat)
    (c : Cell α) (deeds : List (Deed α)) : (c.history deeds).countP p ≤ (may c).toNat := by
  induction deeds generalizing c with
  | nil => exact Nat.zero_le _
  | cons d rest ih =>
      have hhead := hstep c d
      have htail := ih (c.perform d).2
      rw [history, countP_cons_eq_add]
      omega

/-- **A cell is written once**, if it is empty, and else never. -/
theorem countP_writes_le (c : Cell α) (deeds : List (Deed α)) :
    (c.history deeds).countP writes ≤ c.isEmpty.toNat :=
  countP_history_le writes_perform_le c deeds

/-- **A value moves out once.** -/
theorem countP_moves_le (c : Cell α) (deeds : List (Deed α)) :
    (c.history deeds).countP moves ≤ c.mayMove.toNat :=
  countP_history_le moves_perform_le c deeds

/-- A cell that is not empty never is again. -/
theorem isEmpty_after {c : Cell α} (h : c.isEmpty = false) (deeds : List (Deed α)) :
    (c.after deeds).isEmpty = false := by
  induction deeds generalizing c with
  | nil => exact h
  | cons d rest ih =>
      have hhead := writes_perform_le c d
      rw [h, Bool.toNat_false] at hhead
      have hleft : (c.perform d).2.isEmpty.toNat = 0 := by omega
      exact ih (Bool.toNat_eq_zero.mp hleft)

/-- A cell that is not empty refuses every outcome. -/
theorem complete_of_isEmpty_eq_false {c : Cell α} (h : c.isEmpty = false) (outcome : Outcome α) :
    c.complete outcome = .error .writtenTwice := by
  cases c with
  | empty => cases h
  | value v | error e | consumed => rfl

end TaskDispatch.Cell
