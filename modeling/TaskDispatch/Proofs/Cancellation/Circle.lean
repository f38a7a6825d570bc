/-
Everybody who deals with one cancellation source: its circle.

Any number of callers register callbacks, any number drop their registrations, and any
number ask the source to cancel, through whichever clone of it; all of them take turns
step by step.  A callback may do any of this too.  Such a nested call is a caller like
the others; the one that it is made inside stands still meanwhile, and to stand still is
one of the orders of turns.

A callback is named by the number of its registration.  `begun` and `ended` write down
every run of a callback, by the request that has detached it, or by the call that came
too late to enrol it.
-/
import TaskDispatch.Cancellation
import TaskDispatch.Proofs.Interleaving

namespace TaskDispatch

/-- How far a registration has come. -/
inductive Registration where
  /-- About to enrol its callback. -/
  | enrolling
  /-- It came too late: the call runs the callback itself, next. -/
  | late
  /-- The call is inside the callback. -/
  | running
  /-- The callback has run and the call has returned; there is nothing to drop. -/
  | inert
  /-- The call has returned the key of the callback. -/
  | held (key : Nat)
  /-- Dropped, before the callbacks of the source were detached (`early`) or after. -/
  | dropped (early : Bool)
  deriving DecidableEq

/-- The place of one caller that asks the source to cancel. -/
inductive Asker where
  /-- In the request; if callbacks are left, about to run the first. -/
  | between (pc : Source.Request Nat)
  /-- Inside this callback, before the rest. -/
  | inside (i : Nat) (rest : List Nat)

/-- A source and all who deal with it; and, for telling them apart, the caller that raised the flag, and
whether the callbacks have been detached. -/
structure Circle where
  source : Source Nat := {}
  registrations : List Registration := []
  requests : List Asker := []
  first : Option Nat := none
  detached : Bool := false
  begun : List Nat := []
  ended : List Nat := []

namespace Circle

/-- Who moves. -/
inductive Act where
  /-- Somebody registers a callback. -/
  | join
  /-- Somebody asks the source to cancel. -/
  | request
  /-- The call that makes a registration takes its next step. -/
  | register (i : Nat)
  /-- A registration is dropped. -/
  | drop (i : Nat)
  /-- A request takes its next step. -/
  | ask (j : Nat)

/-- Whether this step of a request detaches the callbacks. -/
def detaches (pc : Source.Request Nat) : Bool :=
  match pc with
  | .detach => true
  | _ => false

/-- The next step of the call that makes the registration with number `i`. -/
def register? (s : Circle) (i : Nat) : Option Circle :=
  match s.registrations[i]? with
  | some .enrolling =>
    match s.source.enrol i with
    | (none, _) => some { s with registrations := s.registrations.set i .late }
    | (some key, source) =>
      some { s with source, registrations := s.registrations.set i (.held key) }
  | some .late =>
    some { s with registrations := s.registrations.set i .running, begun := s.begun ++ [i] }
  | some .running =>
    some { s with registrations := s.registrations.set i .inert, ended := s.ended ++ [i] }
  | _ => none

/-- The next step of the request with number `j`. -/
def ask? (s : Circle) (j : Nat) : Option Circle :=
  match s.requests[j]? with
  | none | some (.between .returned) => none
  | some (.between (.running (i :: rest))) =>
    some { s with requests := s.requests.set j (.inside i rest), begun := s.begun ++ [i] }
  | some (.inside i rest) =>
    let pc := (Source.Request.running (i :: rest)).afterFirst
    some { s with requests := s.requests.set j (.between pc), ended := s.ended ++ [i] }
  | some (.between pc) =>
    let (source, next) := pc.step s.source
    some { s with
      source
      requests := s.requests.set j (.between next)
      first := if source.requested && !s.source.requested then some j else s.first
      detached := s.detached || detaches pc }

/-- The circle after an act, if it can happen. -/
def step? (s : Circle) : Act → Option Circle
  | .join => some { s with registrations := s.registrations ++ [.enrolling] }
  | .request => some { s with requests := s.requests ++ [.between .raise] }
  | .register i => s.register? i
  | .drop i =>
    match s.registrations[i]? with
    | some (.held key) =>
      some { s with
        source := (s.source.withdraw key).2
        registrations := s.registrations.set i (.dropped !s.detached) }
    | _ => none
  | .ask j => s.ask? j

/-- What an act can do. -/
inductive Turns (s : Circle) : Circle → Prop
  | join : Turns s { s with registrations := s.registrations ++ [.enrolling] }
  | request : Turns s { s with requests := s.requests ++ [.between .raise] }
  -- a registration
  | late (i : Nat) (hi : s.registrations[i]? = some .enrolling) (h : s.source.requested = true) :
    Turns s { s with registrations := s.registrations.set i .late }
  | enrol (i : Nat) (hi : s.registrations[i]? = some .enrolling) (h : s.source.requested = false) :
    Turns s { s with
      source := { s.source with callbacks := (s.source.callbacks.insert i).2 }
      registrations := s.registrations.set i (.held (s.source.callbacks.insert i).1) }
  | beginLate (i : Nat) (hi : s.registrations[i]? = some .late) :
    Turns s { s with registrations := s.registrations.set i .running, begun := s.begun ++ [i] }
  | endLate (i : Nat) (hi : s.registrations[i]? = some .running) :
    Turns s { s with registrations := s.registrations.set i .inert, ended := s.ended ++ [i] }
  | drop (i key : Nat) (hi : s.registrations[i]? = some (.held key)) :
    Turns s { s with
      source := (s.source.withdraw key).2
      registrations := s.registrations.set i (.dropped !s.detached) }
  -- a request
  | again (j : Nat) (hj : s.requests[j]? = some (.between .raise)) (h : s.source.requested = true) :
    Turns s { s with requests := s.requests.set j (.between .returned) }
  | raise (j : Nat) (hj : s.requests[j]? = some (.between .raise)) (h : s.source.requested = false) :
    Turns s { s with
      source := { s.source with requested := true }
      requests := s.requests.set j (.between .detach)
      first := some j }
  | detach (j : Nat) (hj : s.requests[j]? = some (.between .detach)) :
    Turns s { s with
      source := { s.source with callbacks := {} }
      requests := s.requests.set j (.between (.running s.source.callbacks.drain.1))
      detached := true }
  | begin (i j : Nat) (rest : List Nat) (hj : s.requests[j]? = some (.between (.running (i :: rest)))) :
    Turns s { s with requests := s.requests.set j (.inside i rest), begun := s.begun ++ [i] }
  | end (i j : Nat) (rest : List Nat) (hj : s.requests[j]? = some (.inside i rest)) :
    Turns s { s with requests := s.requests.set j (.between (.running rest)), ended := s.ended ++ [i] }
  | finish (j : Nat) (hj : s.requests[j]? = some (.between (.running []))) :
    Turns s { s with requests := s.requests.set j (.between .returned) }

variable {s t : Circle}

theorem turns_of_register? {i : Nat} (h : s.register? i = some t) : Turns s t := by
  rw [register?] at h
  split at h
  · next hi =>
      cases hrequested : s.source.requested with
      | true =>
          rw [Source.enrol_of_requested hrequested] at h
          cases h
          exact .late i hi hrequested
      | false =>
          rw [Source.enrol_of_not_requested hrequested] at h
          cases h
          exact .enrol i hi hrequested
  · next hi =>
      cases h
      exact .beginLate i hi
  · next hi =>
      cases h
      exact .endLate i hi
  · cases h

theorem turns_of_ask? {j : Nat} (h : s.ask? j = some t) : Turns s t := by
  rw [ask?] at h
  cases hj : s.requests[j]? with
  | none => simp [hj] at h
  | some r =>
      rw [hj] at h
      cases r with
      | inside i rest =>
          cases h
          exact .end i j rest hj
      | between pc =>
          cases pc with
          | raise =>
              cases hrequested : s.source.requested with
              | true =>
                  simp only [Source.Request.step, Source.raise_of_requested hrequested, hrequested, detaches,
                    Bool.or_false, if_true, Bool.not_true, Bool.and_false, Bool.false_eq_true, if_false,
                    Option.some.injEq] at h
                  subst h
                  exact .again j hj hrequested
              | false =>
                  simp only [Source.Request.step, Source.raise, hrequested, detaches, Bool.or_false,
                    Bool.false_eq_true, if_false, Bool.not_false, Bool.and_true, if_true,
                    Option.some.injEq] at h
                  subst h
                  exact .raise j hj hrequested
          | detach =>
              simp only [Source.Request.step, Source.detach, Slab.drain, detaches, Bool.and_not_self,
                Bool.false_eq_true, if_false, Bool.or_true, Option.some.injEq] at h
              subst h
              exact .detach j hj
          | running callbacks =>
              cases callbacks with
              | nil =>
                  simp only [Source.Request.step, detaches, Bool.and_not_self, Bool.false_eq_true, if_false,
                    Bool.or_false, Option.some.injEq] at h
                  subst h
                  exact .finish j hj
              | cons i rest =>
                  cases h
                  exact .begin i j rest hj
          | returned => cases h

/-- **What an act can do.** -/
theorem turns_of_step? {a : Act} (h : s.step? a = some t) : Turns s t := by
  cases a with
  | join =>
      cases h
      exact .join
  | request =>
      cases h
      exact .request
  | register i => exact turns_of_register? h
  | drop i =>
      rw [step?] at h
      split at h
      · next key hi =>
          cases h
          exact .drop i key hi
      · cases h
  | ask j => exact turns_of_ask? h

end Circle

end TaskDispatch
