/-
The timed waits of one service.

Any number of waits register: each looks at its token, enrols the sweep of the queue
with its source, and does its errands.  A source may serve one wait or many, and a wait
may have none.  Any number of requests cancel sources: each raises the flag, detaches
the callbacks, and runs them one after another.  The timer thread goes round its loop,
and its owner may shut it down.

All of them take turns step by step.  What the clock shows, whether the heap has room
and whether an exchange fails for no reason may differ from step to step.  The callback
that a wait enrols is its number in the list of waits, and so is the item of its timer.
-/
import Mathlib.Logic.Function.Basic
import TaskDispatch.Cancellation
import TaskDispatch.Hop
import TaskDispatch.Proofs.Interleaving
import TaskDispatch.Proofs.Timer.Watch

namespace TaskDispatch

namespace Timer

/-- What the waits, those that cancel them and the timer thread share. -/
structure Desk where
  sources : Nat → Source Nat := fun _ => {}
  shared : Shared Nat := {}

namespace Desk

/-- Changes one source. -/
def putSource (d : Desk) (k : Nat) (source : Source Nat) : Desk :=
  { d with sources := Function.update d.sources k source }

@[simp] theorem putSource_self (d : Desk) (k : Nat) : d.putSource k (d.sources k) = d := by
  rw [putSource, Function.update_eq_self]

/-- A caller of the timer thread takes its next step. -/
def call (d : Desk) (spurious : Bool) (c : Caller Nat) : Desk × Caller Nat :=
  let (shared, c) := c.step spurious d.shared
  ({ d with shared }, c)

end Desk

/-! ### Waits -/

/-- How far a wait has come. -/
inductive Wait.Place where
  /-- About to look whether its token was asked to cancel. -/
  | checking
  /-- It was: nothing is armed. -/
  | refused
  /-- About to enrol the sweep of the queue with its source. -/
  | enrolling
  /-- Doing its errands. -/
  | busy (left : List (Errand Nat))
  /-- Registered: to be resumed when its timer is due or its token is asked to cancel. -/
  | pending
  /-- Resolved or dropped. -/
  | left

/-- A timed wait: its source and due time, the key of its callback, and its rendezvous with the timer
thread, of whose two parties the second posts the resumption. -/
structure Wait where
  source : Option Nat
  due : Nat
  key : Option Nat := none
  place : Wait.Place := .checking
  rendezvous : Rendezvous := {}
  posts : Nat := 0

namespace Wait

/-- Whether the token of the wait was asked to cancel. -/
def isRequested (w : Wait) (sources : Nat → Source Nat) : Bool :=
  w.source.any fun k => (sources k).requested

/-- Whether the wait has enrolled and has not resolved. -/
def isEnrolled (w : Wait) : Bool :=
  match w.place with
  | .busy _ | .pending => true
  | _ => false

/-- Whether no registration is under way: the wait is pending or over. -/
def isSettled (w : Wait) : Bool :=
  match w.place with
  | .refused | .pending | .left => true
  | _ => false

/-- The call of the timer thread that the wait is in, if it is in one. -/
def caller? (w : Wait) : Option (Caller Nat) :=
  match w.place with
  | .busy (.call c :: _) => some c
  | _ => none

/-- One of the two parties arrives; the second posts the resumption. -/
def arrive (w : Wait) : Wait :=
  let (second, rendezvous) := w.rendezvous.arrive
  { w with rendezvous, posts := if second then w.posts + 1 else w.posts }

/-- The callback of a wait that resolves or is dropped is withdrawn. -/
def withdraw (w : Wait) (d : Desk) : Desk :=
  match w.source, w.key with
  | some k, some key => d.putSource k ((d.sources k).withdraw key).2
  | _, _ => d

/-- The next step of the wait with number `i`; an exchange of its push may fail for no reason. -/
def step? (i : Nat) (spurious : Bool) (w : Wait) (d : Desk) : Option (Desk × Wait) :=
  let armed : Entry Nat := ⟨w.due, i⟩
  match w.place with
  | .checking =>
    some (d, { w with place := if w.isRequested d.sources then .refused else .enrolling })
  | .enrolling =>
    match w.source with
    | none => some (d, { w with place := .busy (errands false armed) })
    | some k =>
      match (d.sources k).enrol i with
      | (none, _) => some (d, { w with place := .busy (errands true armed) })
      | (some key, source) =>
        some (d.putSource k source,
          { w with key := some key, place := .busy (errands false armed) })
  | .busy [] => some (d, { w with place := .pending })
  | .busy (.arrive :: rest) => some (d, { w.arrive with place := .busy rest })
  | .busy (.call .done :: rest) => some (d, { w with place := .busy rest })
  | .busy (.call c :: rest) =>
    let (d, c) := d.call spurious c
    some (d, { w with place := .busy (.call c :: rest) })
  | .refused | .pending | .left => none

/-- What one step of the wait with number `i` can do. -/
inductive Moves (i : Nat) (w : Wait) (d : Desk) : Desk → Wait → Prop
  | refuse (hp : w.place = .checking) (h : w.isRequested d.sources = true) :
    Moves i w d d { w with place := .refused }
  | check (hp : w.place = .checking) (h : w.isRequested d.sources = false) :
    Moves i w d d { w with place := .enrolling }
  | free (hp : w.place = .enrolling) (h : w.source = none) :
    Moves i w d d { w with place := .busy (errands false ⟨w.due, i⟩) }
  | late (hp : w.place = .enrolling) (k : Nat) (h : w.source = some k)
    (hk : (d.sources k).requested = true) :
    Moves i w d d { w with place := .busy (errands true ⟨w.due, i⟩) }
  | enrol (hp : w.place = .enrolling) (k : Nat) (h : w.source = some k)
    (hk : (d.sources k).requested = false) :
    Moves i w d
      (d.putSource k { d.sources k with callbacks := ((d.sources k).callbacks.insert i).2 })
      { w with
        key := some ((d.sources k).callbacks.insert i).1
        place := .busy (errands false ⟨w.due, i⟩) }
  | call (c : Caller Nat) (rest : List (Errand Nat)) (spurious : Bool)
    (hp : w.place = .busy (.call c :: rest)) :
    Moves i w d (d.call spurious c).1 { w with place := .busy (.call (d.call spurious c).2 :: rest) }
  | called (rest : List (Errand Nat)) (hp : w.place = .busy (.call .done :: rest)) :
    Moves i w d d { w with place := .busy rest }
  | arrive (rest : List (Errand Nat)) (hp : w.place = .busy (.arrive :: rest)) :
    Moves i w d d { w.arrive with place := .busy rest }
  | settle (hp : w.place = .busy []) : Moves i w d d { w with place := .pending }

variable {i : Nat} {spurious : Bool} {w w' : Wait} {d d' : Desk}

theorem moves_of_enrolling (hp : w.place = .enrolling) (h : step? i spurious w d = some (d', w')) :
    Moves i w d d' w' := by
  obtain ⟨source, due, key, place, rendezvous, posts⟩ := w
  cases hp
  cases source with
  | none =>
      cases h
      exact .free rfl rfl
  | some k =>
      cases hk : (d.sources k).requested with
      | true =>
          simp only [step?, Source.enrol_of_requested hk] at h
          cases h
          exact .late rfl k rfl hk
      | false =>
          simp only [step?, Source.enrol_of_not_requested hk] at h
          cases h
          exact .enrol rfl k rfl hk

theorem moves_of_busy {left : List (Errand Nat)} (hp : w.place = .busy left)
    (h : step? i spurious w d = some (d', w')) : Moves i w d d' w' := by
  simp only [step?, hp] at h
  match left with
  | [] =>
      cases h
      exact .settle hp
  | .arrive :: rest =>
      cases h
      exact .arrive rest hp
  | .call .done :: rest =>
      cases h
      exact .called rest hp
  | .call (.arm pc) :: rest =>
      cases h
      exact .call _ rest spurious hp
  | .call .sweep :: rest | .call .shutdown :: rest | .call .signal :: rest =>
      cases h
      exact .call _ rest spurious hp

/-- **What a step of a wait can do.** -/
theorem moves_of_step? (h : step? i spurious w d = some (d', w')) : Moves i w d d' w' := by
  cases hp : w.place with
  | checking =>
      cases hrequested : w.isRequested d.sources with
      | true =>
          simp only [step?, hp, hrequested] at h
          cases h
          exact .refuse hp hrequested
      | false =>
          simp only [step?, hp, hrequested] at h
          cases h
          exact .check hp hrequested
  | enrolling => exact moves_of_enrolling hp h
  | busy left => exact moves_of_busy hp h
  | refused | pending | left => simp [step?, hp] at h

end Wait

/-! ### Requests -/

/-- The place of one caller of a request. -/
inductive Requester.Place where
  /-- In the request; if callbacks are left, about to run the first. -/
  | at (pc : Source.Request Nat)
  /-- Inside the callback before these, which has the queue swept. -/
  | inside (c : Caller Nat) (rest : List Nat)

/-- A caller that asks a source to cancel. -/
structure Requester where
  source : Nat
  place : Requester.Place := .at .raise

namespace Requester

/-- The callbacks that are still to run. -/
def waiting (r : Requester) : List Nat :=
  match r.place with
  | .at (.running callbacks) => callbacks
  | .inside _ rest => rest
  | _ => []

/-- The call of the timer thread that the request is in, if it is in one. -/
def caller? (r : Requester) : Option (Caller Nat) :=
  match r.place with
  | .inside c _ => some c
  | _ => none

/-- Whether the request has returned. -/
def isReturned (r : Requester) : Bool :=
  match r.place with
  | .at .returned => true
  | _ => false

/-- The next step of a request. -/
def step? (spurious : Bool) (r : Requester) (d : Desk) : Option (Desk × Requester) :=
  match r.place with
  | .at .returned => none
  | .at (.running (_ :: rest)) => some (d, { r with place := .inside .sweep rest })
  | .inside .done rest => some (d, { r with place := .at (.running rest) })
  | .inside c rest =>
    let (d, c) := d.call spurious c
    some (d, { r with place := .inside c rest })
  | .at pc =>
    let (source, pc) := pc.step (d.sources r.source)
    some (d.putSource r.source source, { r with place := .at pc })

/-- What one step of a request can do. -/
inductive Moves (r : Requester) (d : Desk) : Desk → Requester → Prop
  | again (hp : r.place = .at .raise) (h : (d.sources r.source).requested = true) :
    Moves r d d { r with place := .at .returned }
  | raise (hp : r.place = .at .raise) (h : (d.sources r.source).requested = false) :
    Moves r d (d.putSource r.source { d.sources r.source with requested := true })
      { r with place := .at .detach }
  | detach (hp : r.place = .at .detach) :
    Moves r d (d.putSource r.source { d.sources r.source with callbacks := {} })
      { r with place := .at (.running (d.sources r.source).callbacks.drain.1) }
  | run (i : Nat) (rest : List Nat) (hp : r.place = .at (.running (i :: rest))) :
    Moves r d d { r with place := .inside .sweep rest }
  | call (c : Caller Nat) (rest : List Nat) (spurious : Bool) (hp : r.place = .inside c rest) :
    Moves r d (d.call spurious c).1 { r with place := .inside (d.call spurious c).2 rest }
  | ran (rest : List Nat) (hp : r.place = .inside .done rest) :
    Moves r d d { r with place := .at (.running rest) }
  | finish (hp : r.place = .at (.running [])) : Moves r d d { r with place := .at .returned }

/-- **What a step of a request can do.** -/
theorem moves_of_step? {spurious : Bool} {r r' : Requester} {d d' : Desk}
    (h : r.step? spurious d = some (d', r')) : Moves r d d' r' := by
  cases hp : r.place with
  | inside c rest =>
      simp only [step?, hp] at h
      cases c with
      | done =>
          cases h
          exact .ran rest hp
      | arm pc | sweep | shutdown | signal =>
          cases h
          exact .call _ rest spurious hp
  | «at» pc =>
      cases pc with
      | raise =>
          cases hrequested : (d.sources r.source).requested with
          | true =>
              simp only [step?, hp, Source.Request.step, Source.raise_of_requested hrequested,
                Desk.putSource_self] at h
              cases h
              exact .again hp hrequested
          | false =>
              simp only [step?, hp, Source.Request.step, Source.raise, hrequested] at h
              cases h
              exact .raise hp hrequested
      | detach =>
          simp only [step?, hp] at h
          cases h
          exact .detach hp
      | running callbacks =>
          cases callbacks with
          | nil =>
              simp only [step?, hp, Source.Request.step, Desk.putSource_self] at h
              cases h
              exact .finish hp
          | cons i rest =>
              simp only [step?, hp] at h
              cases h
              exact .run i rest hp
      | returned => simp [step?, hp] at h

end Requester

/-! ### The whole -/

/-- The waits of a service, and all who move them. -/
structure TimedWaits where
  desk : Desk := {}
  keeper : Keeper Nat := {}
  waits : List Wait := []
  requests : List Requester := []
  /-- Those who shut the timer thread down. -/
  closers : List (Caller Nat) := []

namespace TimedWaits

/-- Who moves. -/
inductive Act where
  /-- Somebody polls a new wait. -/
  | wait (source : Option Nat) (due : Nat)
  /-- Somebody asks a source to cancel. -/
  | request (source : Nat)
  /-- Somebody shuts the timer thread down. -/
  | close
  /-- A wait takes its next step. -/
  | register (i : Nat) (spurious : Bool)
  /-- A registered wait resolves or is dropped. -/
  | leave (i : Nat)
  /-- A request takes its next step. -/
  | cancel (j : Nat) (spurious : Bool)
  /-- Whoever shuts down takes its next step. -/
  | shut (j : Nat) (spurious : Bool)
  /-- The timer thread takes its next step. -/
  | keep (now : Nat) (room : Bool)

/-- Whether the wait with this number was asked to cancel. -/
def isCancelled (s : TimedWaits) (i : Nat) : Bool :=
  (s.waits[i]?).any (·.isRequested s.desk.sources)

/-- The next step of the timer thread.  A timer that fires arrives at the rendezvous of its wait. -/
def keep? (s : TimedWaits) (now : Nat) (room : Bool) : Option TimedWaits :=
  match s.keeper.served? with
  | some (i, keeper) =>
    let waits := match s.keeper.pc with
      | .firing .. => s.waits.modify i Wait.arrive
      | _ => s.waits
    some { s with keeper, waits }
  | none =>
    match s.keeper.step? s.isCancelled now room s.desk.shared with
    | none => none
    | some (shared, keeper) => some { s with desk := { s.desk with shared }, keeper }

/-- The waits after an act, if it can happen. -/
def step? (s : TimedWaits) : Act → Option TimedWaits
  | .wait source due => some { s with waits := s.waits ++ [{ source, due }] }
  | .request source => some { s with requests := s.requests ++ [{ source }] }
  | .close => some { s with closers := s.closers ++ [.shutdown] }
  | .register i spurious =>
    match s.waits[i]? with
    | none => none
    | some w =>
      match w.step? i spurious s.desk with
      | none => none
      | some (desk, w) => some { s with desk, waits := s.waits.set i w }
  | .leave i =>
    match s.waits[i]? with
    | none => none
    | some w =>
      match w.place with
      | .pending =>
        some { s with
          desk := w.withdraw s.desk
          waits := s.waits.set i { w with key := none, place := .left } }
      | _ => none
  | .cancel j spurious =>
    match s.requests[j]? with
    | none => none
    | some r =>
      match r.step? spurious s.desk with
      | none => none
      | some (desk, r) => some { s with desk, requests := s.requests.set j r }
  | .shut j spurious =>
    match s.closers[j]? with
    | none => none
    | some c =>
      let (desk, c) := s.desk.call spurious c
      some { s with desk, closers := s.closers.set j c }
  | .keep now room => s.keep? now room

/-- What an act can do. -/
inductive Turns (s : TimedWaits) : TimedWaits → Prop
  | wait (source : Option Nat) (due : Nat) :
    Turns s { s with waits := s.waits ++ [{ source, due }] }
  | request (source : Nat) : Turns s { s with requests := s.requests ++ [{ source }] }
  | close : Turns s { s with closers := s.closers ++ [.shutdown] }
  | register (i : Nat) (w w' : Wait) (desk : Desk) (hw : s.waits[i]? = some w)
    (h : Wait.Moves i w s.desk desk w') :
    Turns s { s with desk, waits := s.waits.set i w' }
  | leave (i : Nat) (w : Wait) (hw : s.waits[i]? = some w) (hp : w.place = .pending) :
    Turns s { s with
      desk := w.withdraw s.desk
      waits := s.waits.set i { w with key := none, place := .left } }
  | cancel (j : Nat) (r r' : Requester) (desk : Desk) (hr : s.requests[j]? = some r)
    (h : Requester.Moves r s.desk desk r') :
    Turns s { s with desk, requests := s.requests.set j r' }
  | shut (j : Nat) (c : Caller Nat) (spurious : Bool) (hc : s.closers[j]? = some c) :
    Turns s { s with
      desk := (s.desk.call spurious c).1
      closers := s.closers.set j (s.desk.call spurious c).2 }
  | serve (i : Nat) (keeper : Keeper Nat) (h : s.keeper.served? = some (i, keeper))
    (waits : List Wait)
    (hw : ∀ j : Nat, waits[j]? = s.waits[j]? ∨ waits[j]? = (s.waits[j]?).map Wait.arrive) :
    Turns s { s with keeper, waits }
  | keep (now : Nat) (room : Bool) (shared : Shared Nat) (keeper : Keeper Nat)
    (h : Keeper.Moves s.isCancelled now room s.keeper.queue s.desk.shared s.keeper.pc shared keeper) :
    Turns s { s with desk := { s.desk with shared }, keeper }

variable {s s' : TimedWaits}

theorem turns_of_keep? {now : Nat} {room : Bool} (h : s.keep? now room = some s') : Turns s s' := by
  cases hserved : s.keeper.served? with
  | none =>
      simp only [keep?, hserved] at h
      cases hstep : s.keeper.step? s.isCancelled now room s.desk.shared with
      | none => simp [hstep] at h
      | some next =>
          obtain ⟨shared, keeper⟩ := next
          simp only [hstep, Option.some.injEq] at h
          subst h
          exact .keep now room shared keeper (Keeper.moves_of_step? hserved hstep)
  | some next =>
      obtain ⟨i, keeper⟩ := next
      simp only [keep?, hserved] at h
      cases h
      refine .serve i keeper hserved _ fun j => ?_
      split
      · rw [List.getElem?_modify]
        by_cases hj : i = j
        · right
          simp [hj]
        · left
          simp [hj]
      · exact Or.inl rfl

theorem register_of_step? {i : Nat} {spurious : Bool} (h : s.step? (.register i spurious) = some s') :
    ∃ w w' desk, s.waits[i]? = some w ∧ Wait.Moves i w s.desk desk w' ∧
      s' = { s with desk, waits := s.waits.set i w' } := by
  simp only [step?] at h
  split at h
  · cases h
  · next w hw =>
      split at h
      · cases h
      · next desk w' hstep =>
          exact ⟨w, w', desk, hw, Wait.moves_of_step? hstep, (Option.some.inj h).symm⟩

theorem leave_of_step? {i : Nat} (h : s.step? (.leave i) = some s') :
    ∃ w, s.waits[i]? = some w ∧ w.place = .pending ∧
      s' = { s with
        desk := w.withdraw s.desk
        waits := s.waits.set i { w with key := none, place := .left } } := by
  simp only [step?] at h
  split at h
  · cases h
  · next w hw =>
      split at h
      · next hp => exact ⟨w, hw, hp, (Option.some.inj h).symm⟩
      · cases h

theorem cancel_of_step? {j : Nat} {spurious : Bool} (h : s.step? (.cancel j spurious) = some s') :
    ∃ r r' desk, s.requests[j]? = some r ∧ Requester.Moves r s.desk desk r' ∧
      s' = { s with desk, requests := s.requests.set j r' } := by
  simp only [step?] at h
  split at h
  · cases h
  · next r hr =>
      split at h
      · cases h
      · next desk r' hstep =>
          exact ⟨r, r', desk, hr, Requester.moves_of_step? hstep, (Option.some.inj h).symm⟩

theorem shut_of_step? {j : Nat} {spurious : Bool} (h : s.step? (.shut j spurious) = some s') :
    ∃ c, s.closers[j]? = some c ∧
      s' = { s with
        desk := (s.desk.call spurious c).1
        closers := s.closers.set j (s.desk.call spurious c).2 } := by
  simp only [step?] at h
  split at h
  · cases h
  · next c hc => exact ⟨c, hc, (Option.some.inj h).symm⟩

/-- **What an act can do.** -/
theorem turns_of_step? {a : Act} (h : s.step? a = some s') : Turns s s' := by
  cases a with
  | wait source due =>
      cases h
      exact .wait source due
  | request source =>
      cases h
      exact .request source
  | close =>
      cases h
      exact .close
  | register i spurious =>
      obtain ⟨w, w', desk, hw, hmove, rfl⟩ := register_of_step? h
      exact .register i w w' desk hw hmove
  | leave i =>
      obtain ⟨w, hw, hp, rfl⟩ := leave_of_step? h
      exact .leave i w hw hp
  | cancel j spurious =>
      obtain ⟨r, r', desk, hr, hmove, rfl⟩ := cancel_of_step? h
      exact .cancel j r r' desk hr hmove
  | shut j spurious =>
      obtain ⟨c, hc, rfl⟩ := shut_of_step? h
      exact .shut j c spurious hc
  | keep now room => exact turns_of_keep? h

end TimedWaits

end Timer

end TaskDispatch
