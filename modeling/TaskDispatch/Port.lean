/-
The port of a dispatch service: a queue of events in posting order.

An event is a resumption, to be woken by whoever takes it, or a wake-up, which
only asks the taker to look at the stop flag again.
-/
namespace TaskDispatch

/-- What the port hands out; `ω` is the type of wakers. -/
inductive Event (ω : Type) where
  | wakeUp
  | resume (w : ω)

/-- Events in posting order. -/
structure Port (ω : Type) where
  queue : List (Event ω) := []

namespace Port

variable {ω : Type}

/-- Adds an event behind all others. -/
def post (p : Port ω) (e : Event ω) : Port ω := ⟨p.queue ++ [e]⟩

/-- Takes the oldest event. -/
def next? (p : Port ω) : Option (Event ω × Port ω) :=
  match p.queue with
  | [] => none
  | e :: rest => some (e, ⟨rest⟩)

@[simp] theorem queue_post (p : Port ω) (e : Event ω) : (p.post e).queue = p.queue ++ [e] := rfl

/-- The oldest event stays the oldest when another is posted. -/
theorem next?_post {p p' : Port ω} {first e : Event ω} (h : p.next? = some (first, p')) :
    (p.post e).next? = some (first, p'.post e) := by
  obtain ⟨queue⟩ := p
  cases queue with
  | nil => cases h
  | cons a rest => cases h; rfl

end Port

end TaskDispatch
