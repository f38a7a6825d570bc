/-
Everybody who deals with one service: its crew.

Any number of callers run the event loop, each with its own mode, any number of
callers stop the service, resumptions are posted and resets are made, and all of
them take turns step by step.  A resumption that a caller runs may do any of this
too.  Such a nested call is a caller like the others; the one that it is made inside
stands at `run` meanwhile, and to stand still is one of the orders of turns.

What one step of the event loop can do is said once, by `EventLoop.Moves`.  The
crew's first invariant is that the roster's number is the number of callers that
stand inside.
-/
import TaskDispatch.Proofs.Interleaving
import TaskDispatch.Roster

namespace TaskDispatch

variable {ω : Type}

/-- Whether an event asks its taker to look at the stop flag. -/
def Event.isWakeUp : Event ω → Bool
  | .wakeUp => true
  | .resume _ => false

/-- How many wake-ups a port holds. -/
def Port.wakeUps (p : Port ω) : Nat := p.queue.countP Event.isWakeUp

@[simp] theorem Port.wakeUps_post (p : Port ω) (e : Event ω) :
    (p.post e).wakeUps = p.wakeUps + e.isWakeUp.toNat := by
  cases e <;> simp [wakeUps, Event.isWakeUp]

/-- Taking an event takes it off the count. -/
theorem Port.wakeUps_of_next? {p p' : Port ω} {e : Event ω} (h : p.next? = some (e, p')) :
    p.wakeUps = e.isWakeUp.toNat + p'.wakeUps := by
  obtain ⟨queue⟩ := p
  cases queue with
  | nil => cases h
  | cons first rest =>
      cases h
      rw [wakeUps, wakeUps, List.countP_cons]
      cases e <;> simp [Event.isWakeUp, Nat.add_comm]

/-- How many wake-ups a caller that raised the flag still has to post. -/
def Stop.owed : Stop → Nat
  | .posting left => left
  | .raise => 0
  | .returned => 0

namespace EventLoop

/-- Whether a caller is counted as active. -/
def isInside : EventLoop ω → Bool
  | take _ | recheck _ | run .. | leave _ => true
  | enter | returned _ => false

/-- Whether a caller is inside and has not decided to leave. -/
def isUndecided : EventLoop ω → Bool
  | take _ | recheck _ | run .. => true
  | enter | leave _ | returned _ => false

/-- Whether a caller has taken a wake-up and not looked at the flag since. -/
def isRechecking : EventLoop ω → Bool
  | recheck _ => true
  | _ => false

/-- What one step of a caller can do: from its place, to a roster, a port and a place. -/
inductive Moves (m : EventMode) (r : Roster) (p : Port ω) :
    EventLoop ω → Roster → Port ω → EventLoop ω → Prop
  | refused (h : r.stopRequested = true) : Moves m r p enter r p (returned 0)
  | entered (h : r.stopRequested = false) :
    Moves m r p enter { r with active := r.active + 1 } p (take 0)
  | full (n : Nat) (h : m.admits n = false) : Moves m r p (take n) r p (leave n)
  | wakeUp (n : Nat) (p' : Port ω) (h : p.next? = some (.wakeUp, p')) :
    Moves m r p (take n) r p' (recheck n)
  | resumption (n : Nat) (w : ω) (p' : Port ω) (h : p.next? = some (.resume w, p')) :
    Moves m r p (take n) r p' (run w n)
  | empty (n : Nat) (h : p.next? = none) (hwait : m.wait = false) : Moves m r p (take n) r p (leave n)
  | told (n : Nat) (h : r.stopRequested = true) : Moves m r p (recheck n) r p (leave n)
  | stale (n : Nat) (h : r.stopRequested = false) : Moves m r p (recheck n) r p (take n)
  | left (n : Nat) : Moves m r p (leave n) r.leave p (returned n)
  | running (w : ω) (n : Nat) : Moves m r p (run w n) r p (run w n)
  | gone (n : Nat) : Moves m r p (returned n) r p (returned n)

theorem moves_of_step? {m : EventMode} {pc pc' : EventLoop ω} {r r' : Roster} {p p' : Port ω}
    (h : pc.step? m r p = some (r', p', pc')) : Moves m r p pc r' p' pc' := by
  cases pc with
  | enter =>
      cases hstop : r.stopRequested with
      | true =>
          simp only [step?, Roster.enter?, hstop, if_true] at h
          cases h
          exact .refused hstop
      | false =>
          have henter : r.enter? = some { r with active := r.active + 1 } := by
            rw [Roster.enter?, if_neg (by simp [hstop])]
          simp only [step?, henter] at h
          cases h
          exact .entered hstop
  | take n =>
      cases hfull : m.admits n with
      | false =>
          simp only [step?, hfull] at h
          cases h
          exact .full n hfull
      | true =>
          simp only [step?, hfull, if_true] at h
          cases hnext : p.next? with
          | none =>
              cases hwait : m.wait with
              | true => simp [hnext, hwait] at h
              | false =>
                  simp only [hnext, hwait] at h
                  cases h
                  exact .empty n hnext hwait
          | some taken =>
              obtain ⟨e, q⟩ := taken
              cases e with
              | wakeUp =>
                  simp only [hnext] at h
                  cases h
                  exact .wakeUp n _ hnext
              | resume w =>
                  simp only [hnext] at h
                  cases h
                  exact .resumption n w _ hnext
  | recheck n =>
      cases hstop : r.stopRequested with
      | true =>
          simp only [step?, hstop, if_true] at h
          cases h
          exact .told n hstop
      | false =>
          simp only [step?, hstop] at h
          cases h
          exact .stale n hstop
  | run w n =>
      cases h
      exact .running w n
  | leave n =>
      cases h
      exact .left n
  | returned n =>
      cases h
      exact .gone n

/-- A caller that cannot go on waits at an empty port. -/
theorem waits_of_step?_eq_none {m : EventMode} {pc : EventLoop ω} {r : Roster} {p : Port ω}
    (h : pc.step? m r p = none) : ∃ n, pc = take n ∧ p.next? = none := by
  cases pc with
  | take n =>
      refine ⟨n, rfl, ?_⟩
      cases hnext : p.next? with
      | none => rfl
      | some taken =>
          obtain ⟨e, q⟩ := taken
          cases e <;> cases hfull : m.admits n <;> simp [step?, hfull, hnext] at h
  | enter => cases hstop : r.stopRequested <;> simp [step?, Roster.enter?, hstop] at h
  | recheck n => simp [step?] at h
  | run w n => simp [step?] at h
  | leave n => simp [step?] at h
  | returned n => simp [step?] at h

/-- The roster's number follows the caller in and out, and its flag is left alone. -/
theorem Moves.roster {m : EventMode} {pc pc' : EventLoop ω} {r r' : Roster} {p p' : Port ω}
    (h : Moves m r p pc r' p' pc') (hin : pc.isInside = true → 0 < r.active) :
    r'.stopRequested = r.stopRequested ∧
      r'.active + pc.isInside.toNat = r.active + pc'.isInside.toNat := by
  cases h with
  | left n =>
      have := hin rfl
      refine ⟨rfl, ?_⟩
      simp only [Roster.leave, isInside, Bool.toNat_true, Bool.toNat_false]
      omega
  | _ => simp [isInside]

end EventLoop

/-- One caller of the event loop: how it runs events, and its place. -/
structure Worker (ω : Type) where
  mode : EventMode
  pc : EventLoop ω := .enter

/-- A service, those who run its events and those who stop it; and, for telling them apart, the caller
that raised the stop flag last. -/
structure Crew (ω : Type) where
  roster : Roster := {}
  port : Port ω := {}
  workers : List (Worker ω) := []
  stops : List Stop := []
  raiser : Option Nat := none

namespace Crew

/-- Who moves. -/
inductive Act (ω : Type) where
  /-- Somebody calls the event loop. -/
  | join (mode : EventMode)
  /-- Somebody posts a resumption. -/
  | post (w : ω)
  /-- Somebody calls stop. -/
  | stop
  /-- Somebody resets, in one step. -/
  | reset
  /-- A caller of the event loop takes its next step. -/
  | work (i : Nat)
  /-- The resumption that a caller of the event loop runs has run. -/
  | ran (i : Nat)
  /-- It has panicked, and the caller leaves. -/
  | panicked (i : Nat)
  /-- A caller of stop takes its next step. -/
  | halt (j : Nat)

/-- The crew after an act, if it can happen. -/
def step? (s : Crew ω) : Act ω → Option (Crew ω)
  | .join mode => some { s with workers := s.workers ++ [{ mode }] }
  | .post w => some { s with port := s.port.post (.resume w) }
  | .stop => some { s with stops := s.stops ++ [.raise] }
  | .reset => some { s with roster := s.roster.reset.2 }
  | .work i =>
    match s.workers[i]? with
    | none => none
    | some c =>
      match c.pc.step? c.mode s.roster s.port with
      | none => none
      | some (roster, port, pc) =>
        some { s with roster, port, workers := s.workers.set i { c with pc } }
  | .ran i =>
    match s.workers[i]? with
    | none => none
    | some c => some { s with workers := s.workers.set i { c with pc := c.pc.afterRun } }
  | .panicked i =>
    match s.workers[i]? with
    | some ⟨mode, .run _ n⟩ =>
      some { s with roster := s.roster.leave, workers := s.workers.set i ⟨mode, .returned n⟩ }
    | _ => none
  | .halt j =>
    match s.stops[j]? with
    | none => none
    | some pc =>
      let (roster, port, pc') := pc.step s.roster s.port
      let raises := pc == .raise && !s.roster.stopRequested
      some { s with roster, port, stops := s.stops.set j pc', raiser := if raises then some j else s.raiser }

/-- How many callers have a place of some kind. -/
def countAt (s : Crew ω) (place : EventLoop ω → Bool) : Nat := s.workers.countP fun c => place c.pc

end Crew

end TaskDispatch
