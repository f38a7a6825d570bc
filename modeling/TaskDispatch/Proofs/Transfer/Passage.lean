/-
The passage of a transfer: polls by any thread, and the workers that run its hops.

The transfer is the body of a task.  In a poll of that task it looks where its latest hop
has come down, or polls the wrapped task, or posts a hop; each of these is a step, and
between any two of them, also inside the wrapped task, workers go on with the events of
the port and others post theirs.  The hops and the workers are those of a `Journey`.  What
a poll of the wrapped task's body comes to is said by the act, so the body may be any.

Beside the parties stands what the theorems are about: which threads have polled the
wrapped task, what the polls of its body came to, what came of the task itself, and whose
poll completed the transfer.  What comes of the wrapped task alone is `Task.awaited`.
-/
import TaskDispatch.Proofs.Hop.Journey
import TaskDispatch.Proofs.Task.Shape
import TaskDispatch.Transfer

namespace TaskDispatch

variable {β α ω : Type}

/-! ### Awaiting a task alone -/

namespace Task

/-- What comes of awaiting a task by value when the polls of its body come to these, one after another:
nothing while each of them suspends. -/
def awaited : Task β α → List (Polled β α) → Option (Except Panic (Outcome α))
  | t, [] => if t.begin?.isSome then none else some t.takeOutcome.1
  | t, r :: rest =>
    match t.polled r with
    | .error p => some (.error p)
    | .ok (false, t') => t'.awaited rest
    | .ok (true, t') => some t'.takeOutcome.1

/-- A task as its owner keeps it between polls, of which nobody has taken the value away. -/
def Unspent (t : Task β α) : Prop := (∃ body, t.Runs body) ∨ t.Over ∧ ∃ o, t.result = .ok o

theorem Over.awaited {t : Task β α} (h : t.Over) (polls : List (Polled β α)) :
    t.awaited polls = some t.takeOutcome.1 := by
  cases polls with
  | nil => simp [Task.awaited, h.2]
  | cons r rest => rw [Task.awaited, h.polled r]

/-- **A poll of an unspent task** suspends, and awaiting what is left comes to the same, or it ends the
wait. -/
theorem Unspent.polled {t : Task β α} (h : t.Unspent) (r : Polled β α) :
    (∃ t', t.polled r = .ok (false, t') ∧ t'.Unspent ∧
      ∀ rest, t.awaited (t.heard r ++ rest) = t'.awaited rest) ∨
    ∃ t' o, t.polled r = .ok (true, t') ∧ t'.takeOutcome.1 = .ok o ∧
      ∀ rest, t.awaited (t.heard r ++ rest) = some (.ok o) := by
  rcases h with ⟨body, hruns⟩ | ⟨hover, o, hresult⟩
  · have hheard : t.heard r = [r] := by rw [Task.heard, hruns.begin?]; rfl
    rw [hheard]
    cases hr : r.body? with
    | some next =>
        cases r with
        | suspended b =>
            obtain ⟨t', hpolled, hruns'⟩ := hruns.suspended b
            exact .inl ⟨t', hpolled, .inl ⟨b, hruns'⟩, fun rest => by simp [Task.awaited, hpolled]⟩
        | ended o | panicked p => cases hr
    | none =>
        obtain ⟨o, ho⟩ := Polled.exists_outcome hr
        obtain ⟨t', hpolled, -, hresult⟩ := hruns.ended ho
        have htaken := takeOutcome_of_result hresult
        exact .inr ⟨t', o, hpolled, htaken, fun rest => by simp [Task.awaited, hpolled, htaken]⟩
  · have hheard : t.heard r = [] := by simp [Task.heard, hover.2]
    have htaken := takeOutcome_of_result hresult
    refine .inr ⟨t, o, hover.polled r, htaken, fun rest => ?_⟩
    rw [hheard, List.nil_append, hover.awaited, htaken]

/-- Nobody gets anything out of an empty task, and a panic of a body is what its awaiter gets. -/
example (p : Panic) : (empty : Task Nat Nat).awaited [] = some (.ok (.error .brokenTask)) ∧
    (new 0 : Task Nat Nat).awaited [.suspended 1, .panicked p] = some (.ok (.error p.toError)) := ⟨rfl, rfl⟩

end Task

/-! ### Looking at a hop by its number -/

namespace Journey

/-- What a poll on a thread does about a hop. -/
def see (j : Journey ω) (thread : Nat) (hop : Option Nat) : HopMove :=
  .of do return (← j.hops[← hop]?).landing thread

/-- The number of the latest hop, if there is one. -/
def last? (j : Journey ω) : Option Nat := if j.hops = [] then none else some (j.hops.length - 1)

theorem see_last? (j : Journey ω) (thread : Nat) : j.see thread j.last? = .of (j.latest thread) := by
  rw [see, last?, latest, List.getLast?_eq_getElem?]
  by_cases hnil : j.hops = []
  · simp [hnil]
  · cases hget : j.hops[j.hops.length - 1]? <;> simp [hnil, hget]

theorem last?_of_length {j j' : Journey ω} (h : j'.hops.length = j.hops.length) : j'.last? = j.last? := by
  have hnil : j'.hops = [] ↔ j.hops = [] := by rw [← List.length_eq_zero_iff, h, List.length_eq_zero_iff]
  simp only [last?, hnil, h]

theorem last?_of_concat {j : Journey ω} {hops : List (Hop ω)} {hop : Hop ω} (h : j.hops = hops ++ [hop]) :
    j.last? = some hops.length := by
  simp [last?, h]

/-- A poll of a future that nobody polls finds out about the latest hop at once. -/
theorem after?_look {j : Journey ω} (hidle : j.stage = .idle) (thread : Nat) (waker : ω) :
    after? step? j [.poll thread waker, .advance] = some (j.sees thread waker (j.latest thread)) := by
  have hsame : ({ j with stage := .looking thread waker } : Journey ω).sees thread waker (j.latest thread) =
      j.sees thread waker (j.latest thread) := by
    unfold sees
    split <;> rfl
  rw [after?, step?, hidle, ← hsame]
  rfl

end Journey

/-! ### The parties -/

namespace Passage

/-- Where the poll under way stands. -/
inductive Stage (β α ω : Type) where
  | idle
  /-- About to do what the transfer does next. -/
  | running (thread : Nat) (waker : ω) (b : Transfer β α)
  /-- In a poll of the wrapped task, which the poll holds. -/
  | inTask (thread : Nat) (waker : ω) (hopped : Bool) (lent : Task β α)
  /-- About to post a hop that is to bring this over. -/
  | posting (thread : Nat) (cargo : Cargo β α)

end Passage

/-- The task around a transfer, its hops, and the poll under way; and which threads have begun polls of the
wrapped task, what the polls of its body have come to, what has come of it, and on which thread the
transfer has been completed. -/
structure Passage (β α ω : Type) where
  task : Task (Transfer β α) α
  journey : Journey ω := {}
  stage : Passage.Stage β α ω := .idle
  visitors : List Nat := []
  heard : List (Polled β α) := []
  outcome : Option (Outcome α) := none
  completedOn : Option Nat := none

namespace Passage

/-- A transfer that nobody has awaited. -/
def start (b : Transfer β α) : Passage β α ω := { task := .new b }

/-- Who moves. -/
inductive Act (β α ω : Type) where
  /-- A thread polls the transfer's task. -/
  | poll (thread : Nat) (waker : ω)
  /-- The poll under way takes its next step; a poll of the wrapped task's body comes to `r`. -/
  | advance (r : Polled β α)
  /-- Somebody posts a wake-up, or a resumption of something else. -/
  | post (wakeUp : Bool)
  /-- A worker takes the oldest event. -/
  | take (thread : Nat)
  /-- A worker that has taken a hop takes its next step with it. -/
  | carry (i : Nat)

/-- The poll under way ends so, and so does the poll of the transfer's task.  That would be a panic only if
the task had its outcome before, which it has not. -/
def ends? (s : Passage β α ω) (thread : Nat) (r : Polled (Transfer β α) α) : Option (Passage β α ω) :=
  match s.task.polled r with
  | .error _ => none
  | .ok (false, task) => some { s with task, stage := .idle }
  | .ok (true, task) => some { s with task, stage := .idle, completedOn := some thread }

/-- The poll under way goes on as the transfer says. -/
def follow? (s : Passage β α ω) (thread : Nat) (waker : ω) : Course β α → Option (Passage β α ω)
  | .await hopped t =>
    some { s with stage := .inTask thread waker hopped t, visitors := s.visitors ++ [thread] }
  | .go b => some { s with stage := .running thread waker b }
  | .suspend b => s.ends? thread (.suspended b)
  | .post cargo => some { s with stage := .posting thread cargo }
  | .finish o => s.ends? thread (.ended o)

/-- The next step of a poll that does what the transfer does next.  If that is to hop it looks at the
latest hop. -/
def run? (s : Passage β α ω) (thread : Nat) (waker : ω) (b : Transfer β α) : Option (Passage β α ω) :=
  let course := b.course (s.journey.see thread)
  match b with
  | .hopping .. =>
    match after? Journey.step? s.journey [.poll thread waker, .advance] with
    | none => none
    | some journey => { s with journey }.follow? thread waker course
  | .awaiting .. => s.follow? thread waker course

/-- A poll of the wrapped task comes back. -/
def back? (s : Passage β α ω) (thread : Nat) (waker : ω) (hopped : Bool) (lent : Task β α)
    (r : Polled β α) : Option (Passage β α ω) :=
  let s := { s with heard := s.heard ++ lent.heard r }
  match lent.polled r with
  | .error p => s.ends? thread (.panicked p)
  | .ok (false, t) => s.ends? thread (.suspended (.awaiting hopped t))
  | .ok (true, t) =>
    match t.takeOutcome.1 with
    | .error p => s.ends? thread (.panicked p)
    | .ok o => { s with outcome := some o }.follow? thread waker (Transfer.onward hopped o)

/-- The next step of the poll under way. -/
def advance? (s : Passage β α ω) (r : Polled β α) : Option (Passage β α ω) :=
  match s.stage with
  | .idle => none
  | .running thread waker b => s.run? thread waker b
  | .inTask thread waker hopped lent => s.back? thread waker hopped lent r
  | .posting thread cargo =>
    match s.journey.step? .advance with
    | none => none
    | some journey =>
      { s with journey }.ends? thread (.suspended (.hopping (some s.journey.hops.length) cargo))

/-- The hops and the workers move. -/
def moves? (s : Passage β α ω) (a : Journey.Act ω) : Option (Passage β α ω) :=
  (s.journey.step? a).map fun journey => { s with journey }

/-- The passage after an act, if it can happen.  The task is polled by one thread at a time; a poll that
finds nothing to run is over at once. -/
def step? (s : Passage β α ω) : Act β α ω → Option (Passage β α ω)
  | .poll thread waker =>
    match s.stage, s.task.begin? with
    | .idle, some (b, _) => some { s with stage := .running thread waker b }
    | .idle, none => some s
    | _, _ => none
  | .advance r => s.advance? r
  | .post wakeUp => s.moves? (.post wakeUp)
  | .take thread => s.moves? (.take thread)
  | .carry i => s.moves? (.carry i)

variable {s : Passage β α ω} {b : Transfer β α}

/-- A poll that suspends leaves the transfer with its task. -/
theorem ends?_suspended (h : s.task.Runs b) (thread : Nat) (next : Transfer β α) :
    ∃ task, s.ends? thread (.suspended next) = some { s with task, stage := .idle } ∧ task.Runs next := by
  obtain ⟨task, hpolled, hruns⟩ := h.suspended next
  exact ⟨task, by rw [ends?, hpolled], hruns⟩

/-- A poll that ends the transfer completes its task. -/
theorem ends?_ended (h : s.task.Runs b) (thread : Nat) (o : Outcome α) :
    ∃ task, s.ends? thread (.ended o) = some { s with task, stage := .idle, completedOn := some thread } ∧
      task.Over ∧ task.result = .ok o := by
  obtain ⟨task, hpolled, hover, hresult⟩ := h.ended (r := .ended o) rfl
  exact ⟨task, by rw [ends?, hpolled], hover, hresult⟩

end Passage

end TaskDispatch
