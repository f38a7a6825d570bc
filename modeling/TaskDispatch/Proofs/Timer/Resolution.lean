/-
One timed wait, from its first poll to its resolution.

The wait is one of the many of a service (`TimedWaits`), and it is polled and run through
the port like any future that hops (`Journey`).  Its first poll is its registration.  Two
parties arrive at its rendezvous, the thread that registers it and the timer thread; the
exchange that tells the second one so and the posting of the first hop are separate steps.
A later poll that finds itself on the thread that ran the latest hop withdraws the callback
of the wait and then reads the flag of its token.

The state also keeps what happened: who arrived and in which order, who posted, what the
clock has shown to the timer thread, and whether the timer was published.
-/
import TaskDispatch.Error
import TaskDispatch.Proofs.Hop.Landing
import TaskDispatch.Proofs.Timer.Callbacks
import TaskDispatch.Proofs.Timer.Ripe

namespace TaskDispatch.Timer

variable {ω : Type}

/-- Who arrives at the rendezvous of a wait. -/
inductive Party where
  /-- The thread that registers the wait. -/
  | registrant
  /-- The timer thread. -/
  | keeper
  deriving DecidableEq

/-- Whether the wait is about to look at its token, which was asked to cancel. -/
def Wait.isRefused (w : Wait) (sources : Nat → Source Nat) : Bool :=
  match w.place with
  | .checking => w.isRequested sources
  | _ => false

/-- Whether the wait has passed its first look at the token and has yet to enrol. -/
def Wait.isEnrolling (w : Wait) : Bool :=
  match w.place with
  | .enrolling => true
  | _ => false

/-- Whether the wait has passed its first look at the token. -/
def Wait.hasPassed (w : Wait) : Bool :=
  match w.place with
  | .checking | .refused => false
  | .enrolling | .busy _ | .pending | .left => true

/-- Whether the wait has returned from its first poll and waits. -/
def Wait.isPending (w : Wait) : Bool :=
  match w.place with
  | .pending => true
  | _ => false

/-- Whether the wait has given up its registration. -/
def Wait.hasLeft (w : Wait) : Bool :=
  match w.place with
  | .left => true
  | _ => false

/-- Whether the caller has pushed its timer on the inbox. -/
def Caller.hasPushed {α : Type} : Caller α → Bool
  | arm (.pushed _) => true
  | _ => false

/-- What a timed wait resolves with, by the flag of its token. -/
def resolution (requested : Bool) : Outcome Unit :=
  if requested then .error .operationCancelled else .ok ()

/-- What belongs to one wait: its hops, and what became of its rendezvous; `ω` is the type of wakers. -/
structure Meeting (ω : Type) where
  journey : Journey ω := {}
  /-- Whether the timer of the wait was pushed on the inbox. -/
  published : Bool := false
  /-- Who has arrived at the rendezvous, in order. -/
  arrivals : List Party := []
  /-- Who was told to be second and has yet to post the first hop. -/
  owing : List Party := []
  /-- Who has posted the first hop. -/
  posted : List Party := []

namespace Meeting

/-- A party arrives, and is told by the rendezvous whether it is the second. -/
def arrive (m : Meeting ω) (r : Rendezvous) (p : Party) : Meeting ω :=
  { m with
    arrivals := m.arrivals ++ [p]
    owing := if r.arrive.1 then m.owing ++ [p] else m.owing }

/-- The first hop is made, for this waker. -/
def arm (m : Meeting ω) (first : ω) : Meeting ω :=
  { m with journey := { m.journey with hops := [.new first], unfired := true } }

/-- What a step of its registration is for the wait, whose first poll came with the waker `first`. -/
def registers (first : ω) (m : Meeting ω) (w : Wait) : Meeting ω :=
  match w.place with
  | .enrolling => m.arm first
  | .busy (.arrive :: _) => m.arrive w.rendezvous .registrant
  | .busy (.call c :: _) => { m with published := m.published || c.hasPushed }
  | _ => m

end Meeting

/-- The waits of a service, and one of them with what belongs to it. -/
structure TimedRun (ω : Type) where
  service : TimedWaits := {}
  /-- Whether the timer thread was started. -/
  started : Bool := false
  meeting : Meeting ω := {}
  /-- What the clock has shown to the timer thread. -/
  shown : List Nat := []
  outcome : Option (Outcome Unit) := none

namespace TimedRun

/-- Who moves. -/
inductive Act (ω : Type) where
  /-- Somebody of the service; the first poll of the wait is its registration. -/
  | service (a : TimedWaits.Act)
  /-- A wait that has passed its first look has the timer thread started. -/
  | start (j : Nat)
  /-- Somebody polls the wait again, runs its hops, or uses the port. -/
  | hop (a : Journey.Act ω)
  /-- Who was told to be second at the rendezvous posts the first hop. -/
  | deliver
  /-- The poll that has found itself on the right thread withdraws the callback. -/
  | unregister
  /-- The poll reads the flag and resolves. -/
  | conclude

/-- Whether somebody of the service may move.  The timer thread has to be started, by a wait before it
enrols; who owes a post is not done before; and the wait gives up its registration only as it resolves. -/
def mayMove (i : Nat) (s : TimedRun ω) : TimedWaits.Act → Bool
  | .register j _ =>
    !(j == i && s.meeting.owing.contains .registrant) &&
      (s.started || !(s.service.waits[j]?).any Wait.isEnrolling)
  | .leave j => j != i
  | .keep .. => s.started && !s.meeting.owing.contains .keeper
  | _ => true

/-- What a step of the service is for the wait with number `i`. -/
def sees (i : Nat) (first : ω) (s : TimedRun ω) (a : TimedWaits.Act) : Meeting ω :=
  match s.service.waits[i]? with
  | none => s.meeting
  | some w =>
    match a with
    | .register j _ => if j = i then s.meeting.registers first w else s.meeting
    | a => if s.service.fires i a then s.meeting.arrive w.rendezvous .keeper else s.meeting

/-- The outcome after a step of the service: a first look at a token that was asked to cancel is one. -/
def refuses (i : Nat) (s : TimedRun ω) : TimedWaits.Act → Option (Outcome Unit)
  | .register j _ =>
    if j = i && (s.service.waits[i]?).any (·.isRefused s.service.desk.sources) then
      some (resolution true)
    else s.outcome
  | _ => s.outcome

/-- The state after an act, if it can happen. -/
def step? (i : Nat) (first : ω) (s : TimedRun ω) : Act ω → Option (TimedRun ω)
  | .service a =>
    if s.mayMove i a then
      match s.service.step? a with
      | none => none
      | some service =>
        some { s with
          service
          meeting := s.sees i first a
          shown := s.shown ++ s.service.reading a
          outcome := s.refuses i a }
    else none
  | .start j =>
    if (s.service.waits[j]?).any Wait.isEnrolling then some { s with started := true } else none
  | .hop .fire => none
  | .hop (.poll thread waker) =>
    if (s.service.waits[i]?).any Wait.isPending then
      match s.meeting.journey.step? (.poll thread waker) with
      | none => none
      | some journey => some { s with meeting := { s.meeting with journey } }
    else none
  | .hop a =>
    match s.meeting.journey.step? a with
    | none => none
    | some journey => some { s with meeting := { s.meeting with journey } }
  | .deliver =>
    match s.meeting.owing with
    | [] => none
    | p :: rest =>
      match s.meeting.journey.step? .fire with
      | none => none
      | some journey =>
        some { s with
          meeting := { s.meeting with journey, posted := s.meeting.posted ++ [p], owing := rest } }
  | .unregister =>
    match s.meeting.journey.stage with
    | .ready _ =>
      match s.service.step? (.leave i) with
      | none => none
      | some service => some { s with service }
    | _ => none
  | .conclude =>
    match s.service.waits[i]?, s.outcome with
    | some w, none =>
      if w.hasLeft then
        some { s with outcome := some (resolution (w.isRequested s.service.desk.sources)) }
      else none
    | _, _ => none

/-- What an act can do. -/
inductive Turns (i : Nat) (first : ω) (s : TimedRun ω) : TimedRun ω → Prop
  | service (a : TimedWaits.Act) (service : TimedWaits) (hmay : s.mayMove i a = true)
    (h : s.service.step? a = some service) (hstays : a ≠ .leave i) :
    Turns i first s { s with
      service
      meeting := s.sees i first a
      shown := s.shown ++ s.service.reading a
      outcome := s.refuses i a }
  | start (j : Nat) (w : Wait) (hw : s.service.waits[j]? = some w) (hp : w.isEnrolling = true) :
    Turns i first s { s with started := true }
  | poll (a : Journey.Act ω) (journey : Journey ω) (w : Wait) (hw : s.service.waits[i]? = some w)
    (hp : w.isPending = true) (h : s.meeting.journey.step? a = some journey) (hfire : a ≠ .fire) :
    Turns i first s { s with meeting := { s.meeting with journey } }
  | hop (a : Journey.Act ω) (journey : Journey ω) (h : s.meeting.journey.step? a = some journey)
    (hfire : a ≠ .fire) (hpoll : ∀ thread waker, a ≠ .poll thread waker) :
    Turns i first s { s with meeting := { s.meeting with journey } }
  | deliver (p : Party) (rest : List Party) (journey : Journey ω) (howing : s.meeting.owing = p :: rest)
    (h : s.meeting.journey.step? .fire = some journey) :
    Turns i first s { s with
      meeting := { s.meeting with journey, posted := s.meeting.posted ++ [p], owing := rest } }
  | unregister (thread : Nat) (service : TimedWaits) (hready : s.meeting.journey.stage = .ready thread)
    (h : s.service.step? (.leave i) = some service) : Turns i first s { s with service }
  | conclude (w : Wait) (hw : s.service.waits[i]? = some w) (hp : w.hasLeft = true)
    (hnone : s.outcome = none) :
    Turns i first s
      { s with outcome := some (resolution (w.isRequested s.service.desk.sources)) }

variable {i : Nat} {first : ω} {s s' : TimedRun ω}

theorem turns_of_service {a : TimedWaits.Act} (h : s.step? i first (.service a) = some s') :
    Turns i first s s' := by
  simp only [step?] at h
  split at h
  · next hmay =>
      split at h
      · simp at h
      · next service hservice =>
          obtain rfl := Option.some.inj h
          refine .service a service hmay hservice ?_
          rintro rfl
          simp [mayMove] at hmay
  · simp at h

theorem turns_of_hop {a : Journey.Act ω} (h : s.step? i first (.hop a) = some s') :
    Turns i first s s' := by
  cases a with
  | fire => simp [step?] at h
  | poll thread waker =>
      simp only [step?] at h
      split at h
      · next hpending =>
          split at h
          · simp at h
          · next journey hstep =>
              obtain rfl := Option.some.inj h
              cases hw : s.service.waits[i]? with
              | none => simp [hw] at hpending
              | some w =>
                  rw [hw] at hpending
                  exact .poll _ journey w hw hpending hstep nofun
      · simp at h
  | advance | post wakeUp | take thread | carry j =>
      simp only [step?] at h
      split at h
      · simp at h
      · next journey hstep =>
          obtain rfl := Option.some.inj h
          exact .hop _ journey hstep nofun nofun

theorem of_deliver (h : s.step? i first .deliver = some s') :
    ∃ p rest journey, s.meeting.owing = p :: rest ∧ s.meeting.journey.step? .fire = some journey ∧
      s' = { s with
        meeting := { s.meeting with journey, posted := s.meeting.posted ++ [p], owing := rest } } := by
  simp only [step?] at h
  split at h
  · cases h
  · next p rest howing =>
      split at h
      · cases h
      · next journey hfire => exact ⟨p, rest, journey, howing, hfire, (Option.some.inj h).symm⟩

/-- **What an act can do.** -/
theorem turns_of_step? {a : Act ω} (h : s.step? i first a = some s') : Turns i first s s' := by
  cases a with
  | service a => exact turns_of_service h
  | start j =>
      simp only [step?] at h
      split at h
      · next henrolling =>
          obtain rfl := Option.some.inj h
          cases hw : s.service.waits[j]? with
          | none => simp [hw] at henrolling
          | some w =>
              rw [hw] at henrolling
              exact .start j w hw henrolling
      · simp at h
  | hop a => exact turns_of_hop h
  | deliver =>
      obtain ⟨p, rest, journey, howing, hfire, rfl⟩ := of_deliver h
      exact .deliver p rest journey howing hfire
  | unregister =>
      simp only [step?] at h
      split at h
      · next thread hready =>
          split at h
          · simp at h
          · next service hleave =>
              obtain rfl := Option.some.inj h
              exact .unregister thread service hready hleave
      · simp at h
  | conclude =>
      simp only [step?] at h
      split at h
      · next w hw hnone =>
          split at h
          · next hleft =>
              obtain rfl := Option.some.inj h
              exact .conclude w hw hleft hnone
          · simp at h
      · simp at h

end TimedRun

end TaskDispatch.Timer
