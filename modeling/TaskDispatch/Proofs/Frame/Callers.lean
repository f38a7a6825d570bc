/-
One frame and all who call it.

Any number of callers resume a frame (to start it or to wake it is to resume it) and
any number take its task, and they take turns step by step.  A body may be any: each
poll of it suspends, ends or panics as the act says.  A call that is made from inside
a poll or from inside the notifier is a call like the others; the one it is made
inside stands still meanwhile, which is one of the orders of turns.

Two counts are kept along with what the callers share: the polls begun and the times
the notifier was called.  Each call remembers how many polls had begun when it last
looked at the word.  What one call can do is said once, by `Moves`; the invariants
of the modules that follow are case analyses of it.
-/
import TaskDispatch.Frame
import TaskDispatch.Proofs.Interleaving
import TaskDispatch.Task

namespace TaskDispatch

/-- What a poll of a body comes to. -/
inductive Polled (β α : Type) where
  | suspended (body : β)
  | ended (outcome : Outcome α)
  | panicked (p : Panic)

variable {β α : Type}

/-- What a poll of a task comes to, when the poll of its body, if there is one, comes to `r`: whether the
task is ready, and the task back.  A panic of the body is the task's error. -/
def Task.polled (t : Task β α) (r : Polled β α) : Except Panic (Bool × Task β α) :=
  match t.begin? with
  | none => .ok (true, t)
  | some (_, record) =>
    match r with
    | .suspended body => .ok (false, ⟨some (record.suspend body)⟩)
    | .ended outcome => (record.finish outcome).map fun record => (true, ⟨some record⟩)
    | .panicked p => (record.finish (.error p.toError)).map fun record => (true, ⟨some record⟩)

namespace Frame

/-- Whether some caller owns the task. -/
def Word.isHeld : Word → Bool
  | running | notified => true
  | idle | completed | taken => false

/-- Whether the task has moved out or is about to. -/
def Word.isTaken : Word → Bool
  | taken => true
  | _ => false

/-- The place of one call. -/
inductive Place (β α : Type) where
  /-- In `resume`. -/
  | resuming (pc : Pc)
  /-- Inside a poll of the task, which the poll holds. -/
  | inPoll (lent : Task β α)
  /-- A poll let a panic out, which has ended the call. -/
  | unwound
  | inNotifier
  /-- About to exchange `completed` for `taken`. -/
  | taking
  /-- Has exchanged it and is about to move the task out. -/
  | moving
  | took (task : Option (Task β α))

/-- A call, and how many polls had begun when it last looked at the word. -/
structure Call (β α : Type) where
  place : Place β α
  lookedAt : Nat := 0

/-- What the calls share; and how many polls have begun and how often the notifier was called. -/
structure Shared (β α : Type) where
  word : Word := .idle
  task : Task β α
  polls : Nat := 0
  notices : Nat := 0

namespace Call

/-- Whether the call owns the task.  A poll that let a panic out keeps it. -/
def owns (c : Call β α) : Bool :=
  match c.place with
  | .resuming .polling | .resuming .retire | .resuming .renew | .resuming .publish => true
  | .inPoll _ | .unwound => true
  | _ => false

/-- Whether the call is inside a poll. -/
def polls (c : Call β α) : Bool :=
  match c.place with
  | .inPoll _ => true
  | _ => false

/-- Whether the call is about to call the notifier. -/
def announces (c : Call β α) : Bool :=
  match c.place with
  | .resuming .notifying => true
  | _ => false

/-- Whether the call moves the task out, or has. -/
def takes (c : Call β α) : Bool :=
  match c.place with
  | .moving | .took (some _) => true
  | _ => false

/-- Whether a call of `resume` has returned. -/
def returned (c : Call β α) : Bool :=
  match c.place with
  | .resuming .done => true
  | _ => false

/-- A call inside a poll owns the task. -/
theorem owns_of_polls {c : Call β α} (h : c.polls = true) : c.owns = true := by
  obtain ⟨place, lookedAt⟩ := c
  cases place with
  | inPoll lent => rfl
  | _ => cases h

theorem place_of_announces {c : Call β α} (h : c.announces = true) : c.place = .resuming .notifying := by
  rw [announces] at h
  split at h
  · next hplace => exact hplace
  · cases h

theorem place_of_returned {c : Call β α} (h : c.returned = true) : c.place = .resuming .done := by
  rw [returned] at h
  split at h
  · next hplace => exact hplace
  · cases h

end Call

/-- What one step of a call can do: from what is shared and its place, to both. -/
inductive Moves (x : Shared β α) : Call β α → Shared β α → Call β α → Prop
  -- in `resume`
  | load (n : Nat) : Moves x ⟨.resuming .load, n⟩ x ⟨.resuming (.seeing x.word), x.polls⟩
  | fail (seen : Word) (n : Nat) :
    Moves x ⟨.resuming (.exchange seen), n⟩ x ⟨.resuming (.seeing x.word), x.polls⟩
  | claim (n : Nat) (h : x.word = .idle) :
    Moves x ⟨.resuming (.exchange .idle), n⟩ { x with word := .running }
      ⟨.resuming .polling, x.polls⟩
  | mark (n : Nat) (h : x.word = .running) :
    Moves x ⟨.resuming (.exchange .running), n⟩ { x with word := .notified }
      ⟨.resuming .done, x.polls⟩
  | give (seen : Word) (n : Nat) (h : x.word = seen) (hnone : seen.entry? = none) :
    Moves x ⟨.resuming (.exchange seen), n⟩ x ⟨.resuming .done, x.polls⟩
  -- the owner
  | poll (n : Nat) :
    Moves x ⟨.resuming .polling, n⟩ { x with task := .empty, polls := x.polls + 1 }
      ⟨.inPoll x.task, n⟩
  | suspend (lent t : Task β α) (n : Nat) :
    Moves x ⟨.inPoll lent, n⟩ { x with task := t } ⟨.resuming .retire, n⟩
  | finish (lent t : Task β α) (n : Nat) :
    Moves x ⟨.inPoll lent, n⟩ { x with task := t } ⟨.resuming .publish, n⟩
  | unwind (lent : Task β α) (n : Nat) : Moves x ⟨.inPoll lent, n⟩ x ⟨.unwound, n⟩
  | retire (n : Nat) (h : x.word = .running) :
    Moves x ⟨.resuming .retire, n⟩ { x with word := .idle } ⟨.resuming .done, n⟩
  | again (n : Nat) (h : x.word = .notified) :
    Moves x ⟨.resuming .retire, n⟩ x ⟨.resuming .renew, n⟩
  | breaks (n : Nat) (h : x.word.isHeld = false) :
    Moves x ⟨.resuming .retire, n⟩ x ⟨.resuming .broken, n⟩
  | renew (n : Nat) :
    Moves x ⟨.resuming .renew, n⟩ { x with word := .running } ⟨.resuming .polling, n⟩
  | publish (n : Nat) :
    Moves x ⟨.resuming .publish, n⟩ { x with word := .completed } ⟨.resuming .notifying, n⟩
  | notify (n : Nat) :
    Moves x ⟨.resuming .notifying, n⟩ { x with notices := x.notices + 1 } ⟨.inNotifier, n⟩
  | leave (n : Nat) : Moves x ⟨.inNotifier, n⟩ x ⟨.resuming .done, n⟩
  -- in `take`
  | win (n : Nat) (h : x.word = .completed) :
    Moves x ⟨.taking, n⟩ { x with word := .taken } ⟨.moving, n⟩
  | lose (n : Nat) (h : x.word ≠ .completed) : Moves x ⟨.taking, n⟩ x ⟨.took none, n⟩
  | move (n : Nat) :
    Moves x ⟨.moving, n⟩ { x with task := .empty } ⟨.took (some x.task), n⟩

/-- The next step of a call.  The exchange that enters may fail for no reason, and `r` is what the poll
of the body comes to; at the places that wait for a body, `r` is all that matters. -/
def Call.step? (c : Call β α) (spurious : Bool) (r : Polled β α) (x : Shared β α) :
    Option (Shared β α × Call β α) :=
  match c.place with
  | .resuming .polling =>
    some ({ x with task := .empty, polls := x.polls + 1 }, { c with place := .inPoll x.task })
  | .resuming .notifying =>
    some ({ x with notices := x.notices + 1 }, { c with place := .inNotifier })
  | .resuming .done | .resuming .broken => none
  | .resuming .load =>
    let (word, pc) := Pc.load.step spurious x.word
    some ({ x with word }, ⟨.resuming pc, x.polls⟩)
  | .resuming (.exchange seen) =>
    let (word, pc) := (Pc.exchange seen).step spurious x.word
    some ({ x with word }, ⟨.resuming pc, x.polls⟩)
  | .resuming pc =>
    let (word, pc) := pc.step spurious x.word
    some ({ x with word }, { c with place := .resuming pc })
  | .inPoll lent =>
    match lent.polled r with
    | .ok (ready, t) => some ({ x with task := t }, { c with place := .resuming (.afterPoll ready) })
    | .error _ => some (x, { c with place := .unwound })
  | .inNotifier => some (x, { c with place := .resuming .done })
  | .taking =>
    match x.word.take? with
    | some word => some ({ x with word }, { c with place := .moving })
    | none => some (x, { c with place := .took none })
  | .moving => some ({ x with task := .empty }, { c with place := .took (some x.task) })
  | .unwound | .took _ => none

/-- The exchange that enters claims an idle frame, marks a running one, or has to look again. -/
theorem moves_of_exchange {x x' : Shared β α} {seen : Word} {n : Nat} {c' : Call β α}
    {spurious : Bool} {r : Polled β α}
    (h : Call.step? ⟨.resuming (.exchange seen), n⟩ spurious r x = some (x', c')) :
    Moves x ⟨.resuming (.exchange seen), n⟩ x' c' := by
  simp only [Call.step?, Pc.step, Option.some.injEq] at h
  by_cases hsame : (x.word = seen && !spurious) = true
  · obtain ⟨hw, -⟩ := Bool.and_eq_true_iff.mp hsame
    have hword : x.word = seen := of_decide_eq_true hw
    rw [if_pos hsame] at h
    cases hs : seen with
    | idle =>
        subst hs
        cases h
        exact .claim n hword
    | running =>
        subst hs
        cases h
        exact .mark n hword
    | notified | completed | taken =>
        subst hs
        cases h
        exact .give _ n hword rfl
  · rw [if_neg hsame] at h
    cases h
    exact .fail seen n

/-- The exchange back to `idle` ends the call, or sends it to poll once more. -/
theorem moves_of_retire {x x' : Shared β α} {n : Nat} {c' : Call β α} {spurious : Bool}
    {r : Polled β α} (h : Call.step? ⟨.resuming .retire, n⟩ spurious r x = some (x', c')) :
    Moves x ⟨.resuming .retire, n⟩ x' c' := by
  obtain ⟨word, task, polls, notices⟩ := x
  cases word with
  | running =>
      cases h
      exact .retire n rfl
  | notified =>
      cases h
      exact .again n rfl
  | idle | completed | taken =>
      cases h
      exact .breaks n rfl

/-- Of the calls that take, the one that finds `completed` wins. -/
theorem moves_of_taking {x x' : Shared β α} {n : Nat} {c' : Call β α} {spurious : Bool}
    {r : Polled β α} (h : Call.step? ⟨.taking, n⟩ spurious r x = some (x', c')) :
    Moves x ⟨.taking, n⟩ x' c' := by
  obtain ⟨word, task, polls, notices⟩ := x
  cases word with
  | completed =>
      cases h
      exact .win n rfl
  | idle | running | notified | taken =>
      cases h
      exact .lose n (by simp)

/-- **What a step of a call can do.** -/
theorem moves_of_step? {x x' : Shared β α} {c c' : Call β α} {spurious : Bool} {r : Polled β α}
    (h : c.step? spurious r x = some (x', c')) : Moves x c x' c' := by
  obtain ⟨place, n⟩ := c
  cases place with
  | resuming pc =>
      cases pc with
      | load =>
          cases h
          exact .load n
      | exchange seen => exact moves_of_exchange h
      | polling =>
          cases h
          exact .poll n
      | retire => exact moves_of_retire h
      | renew =>
          cases h
          exact .renew n
      | publish =>
          cases h
          exact .publish n
      | notifying =>
          cases h
          exact .notify n
      | done => cases h
      | broken => cases h
  | inPoll lent =>
      simp only [Call.step?] at h
      cases hpolled : lent.polled r with
      | error p =>
          rw [hpolled] at h
          cases h
          exact .unwind lent n
      | ok back =>
          obtain ⟨ready, t⟩ := back
          rw [hpolled] at h
          cases ready with
          | false =>
              cases h
              exact .suspend lent t n
          | true =>
              cases h
              exact .finish lent t n
  | unwound => cases h
  | inNotifier =>
      cases h
      exact .leave n
  | taking => exact moves_of_taking h
  | moving =>
      cases h
      exact .move n
  | took t => cases h

/-- What the calls share, and the calls. -/
structure Callers (β α : Type) where
  shared : Shared β α
  calls : List (Call β α) := []

namespace Callers

/-- A frame around a task, before any call. -/
def start (t : Task β α) : Callers β α := { shared := { task := t } }

/-- Who moves. -/
inductive Act (β α : Type) where
  /-- Somebody calls `resume`. -/
  | resume
  /-- Somebody calls `take`. -/
  | take
  /-- A call takes its next step. -/
  | go (i : Nat) (spurious : Bool) (r : Polled β α)

/-- The callers after an act, if it can happen. -/
def step? (s : Callers β α) : Act β α → Option (Callers β α)
  | .resume => some { s with calls := s.calls ++ [⟨.resuming .load, 0⟩] }
  | .take => some { s with calls := s.calls ++ [⟨.taking, 0⟩] }
  | .go i spurious r =>
    match s.calls[i]? with
    | none => none
    | some c =>
      match c.step? spurious r s.shared with
      | none => none
      | some (shared, c) => some ⟨shared, s.calls.set i c⟩

/-- What an act can do: a call begins, or one call moves. -/
inductive Turns (s : Callers β α) : Callers β α → Prop
  | begin (place : Place β α) (h : place = .resuming .load ∨ place = .taking) :
    Turns s { s with calls := s.calls ++ [⟨place, 0⟩] }
  | go (i : Nat) (c c' : Call β α) (x : Shared β α) (hc : s.calls[i]? = some c)
    (h : Moves s.shared c x c') : Turns s ⟨x, s.calls.set i c'⟩

theorem turns_of_step? {s s' : Callers β α} {a : Act β α} (h : s.step? a = some s') : Turns s s' := by
  cases a with
  | resume =>
      cases h
      exact .begin _ (Or.inl rfl)
  | take =>
      cases h
      exact .begin _ (Or.inr rfl)
  | go i spurious r =>
      simp only [step?] at h
      cases hc : s.calls[i]? with
      | none => simp [hc] at h
      | some c =>
          cases hstep : c.step? spurious r s.shared with
          | none => simp [hc, hstep] at h
          | some next =>
              obtain ⟨x, c'⟩ := next
              simp only [hc, hstep, Option.some.injEq] at h
              subst h
              exact .go i c c' x hc (moves_of_step? hstep)

end Callers

end Frame

end TaskDispatch
