/-
Reading a task that has its outcome.

It can be looked at, asked whether it is ready, polled until it is ready and polled by value,
in any order.  None of these runs a body.  An error is there for every one of them.  A value
is there for all that look at it, until the first poll by value moves it out; from then on
there is a panic for every reader, and the task stays as it is.

What is left of an outcome is said in one place, `Cell.left`, by the outcome and by whether
it has been claimed.
-/
import TaskDispatch.Proofs.Cell
import TaskDispatch.Proofs.Frame.Hosted

namespace TaskDispatch

variable {β α : Type} {out : Outcome α} {claimed : Bool}

/-! ### What is left of an outcome -/

/-- The cell that was given this outcome, and has been claimed or not: a value that is claimed moves out. -/
def Cell.left (out : Outcome α) (claimed : Bool) : Cell α :=
  match out, claimed with
  | .ok _, true => .consumed
  | out, _ => .ofOutcome out

/-- What there is to read in it. -/
def replayed (out : Outcome α) (claimed : Bool) : Except Panic (Outcome α) :=
  match out, claimed with
  | .ok _, true => .error .alreadyTaken
  | out, _ => .ok out

theorem Cell.get_left (out : Outcome α) (claimed : Bool) : (left out claimed).get = replayed out claimed := by
  cases out <;> cases claimed <;> rfl

theorem Cell.take_left (out : Outcome α) (claimed : Bool) :
    (left out claimed).take = (replayed out claimed, left out true) := by
  cases out <;> cases claimed <;> rfl

/-- The task has this outcome, claimed or not. -/
def Task.Keeps (t : Task β α) (out : Outcome α) (claimed : Bool) : Prop :=
  t = ⟨some ⟨.completed, none, .left out claimed⟩⟩

/-! ### Readings -/

/-- How a task is read. -/
inductive Reading (β α : Type) where
  /-- Looks at the outcome. -/
  | look
  /-- Asks whether the task is ready. -/
  | ask
  /-- Polls the task until it is ready, and so its body, if it has one. -/
  | wait (r : Polled β α)
  /-- Polls the task by value, and so its body, if it has one. -/
  | claim (r : Polled β α)

/-- What a reading answers: an outcome, or a panic in place of one; or whether the task is ready. -/
inductive Reply (α : Type) where
  | outcome (o : Except Panic (Outcome α))
  | ready (b : Bool)

namespace Reading

/-- Whether it moves a value out. -/
def claims : Reading β α → Bool
  | claim _ => true
  | look | ask | wait _ => false

/-- The reply of a task that is ready and in which there is this to read. -/
def told (o : Except Panic (Outcome α)) : Reading β α → Reply α
  | look | claim _ => .outcome o
  | ask | wait _ => .ready true

end Reading

namespace Task

/-- What a reading answers, and the task after it. -/
def reply (t : Task β α) : Reading β α → Reply α × Task β α
  | .look => (.outcome t.result, t)
  | .ask => (.ready t.isReady, t)
  | .wait r =>
    match t.polled r with
    | .error p => (.outcome (.error p), t)
    | .ok (ready, t') => (.ready ready, t')
  | .claim r =>
    match t.polled r with
    | .error p => (.outcome (.error p), t)
    | .ok (false, t') => (.ready false, t')
    | .ok (true, t') => (.outcome t'.takeOutcome.1, t'.takeOutcome.2)

/-- The task after readings, one after another. -/
def after (t : Task β α) (readings : List (Reading β α)) : Task β α :=
  readings.foldl (fun t rd => (t.reply rd).2) t

namespace Keeps

variable {t : Task β α}

theorem isOver (h : t.Keeps out claimed) : t.Over := by
  rw [h]
  exact ⟨rfl, rfl⟩

theorem result (h : t.Keeps out claimed) : t.result = replayed out claimed := by
  rw [h]
  exact Cell.get_left out claimed

theorem takeOutcome (h : t.Keeps out claimed) :
    t.takeOutcome.1 = replayed out claimed ∧ t.takeOutcome.2.Keeps out true := by
  rw [h]
  simp only [Task.takeOutcome, Cell.take_left]
  exact ⟨trivial, rfl⟩

/-- **One reading** tells what is left of the outcome, and claims it or leaves it. -/
theorem reply (h : t.Keeps out claimed) (rd : Reading β α) :
    (t.reply rd).1 = rd.told (replayed out claimed) ∧ (t.reply rd).2.Keeps out (claimed || rd.claims) := by
  cases rd with
  | look =>
      simp only [Task.reply, h.result, Reading.claims, Bool.or_false]
      exact ⟨rfl, h⟩
  | ask =>
      simp only [Task.reply, h.isOver.1, Reading.claims, Bool.or_false]
      exact ⟨rfl, h⟩
  | wait r =>
      simp only [Task.reply, h.isOver.polled r, Reading.claims, Bool.or_false]
      exact ⟨rfl, h⟩
  | claim r =>
      simp only [Task.reply, h.isOver.polled r, h.takeOutcome.1, Reading.claims, Bool.or_true]
      exact ⟨rfl, h.takeOutcome.2⟩

/-- Any readings claim the outcome if one of them does. -/
theorem after (h : t.Keeps out claimed) (readings : List (Reading β α)) :
    (t.after readings).Keeps out (claimed || readings.any (·.claims)) := by
  induction readings generalizing t claimed with
  | nil =>
      rw [List.any_nil, Bool.or_false]
      exact h
  | cons rd rest ih =>
      rw [List.any_cons, ← Bool.or_assoc]
      exact ih (h.reply rd).2

/-- What is left does not change by a claim that comes too late, nor by one of an error. -/
theorem eq_of_claimed {u : Task β α} {again : Bool} (h : t.Keeps out claimed) (hu : u.Keeps out again)
    (hsame : claimed = again ∨ out.toBool = false) : u = t := by
  rw [h, hu]
  rcases hsame with rfl | herror
  · rfl
  · cases out with
    | ok v => cases herror
    | error e => cases claimed <;> cases again <;> rfl

end Keeps

/-- A poll that ends the body, or panics, leaves the task with its outcome, which nobody has claimed. -/
theorem Runs.keeps {t : Task β α} {body : β} (h : t.Runs body) {r : Polled β α} (hout : r.outcome? = some out) :
    ∃ t', t.polled r = .ok (true, t') ∧ t'.Keeps out false := by
  refine ⟨⟨some ⟨.completed, none, .left out false⟩⟩, ?_, rfl⟩
  rw [Task.polled, h.begin?]
  cases r with
  | suspended next => cases hout
  | ended o =>
      obtain rfl := Option.some.inj hout
      cases o <;> rfl
  | panicked p =>
      obtain rfl := Option.some.inj hout
      rfl

end Task

end TaskDispatch
