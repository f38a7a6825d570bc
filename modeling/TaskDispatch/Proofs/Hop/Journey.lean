/-
The journey of one future through the port of a service.

A future that hops is polled by one thread after another, and its hops are run by
workers.  A worker takes a hop from the port, records its thread on it and only then
wakes the waker that came with it; between these steps anybody may poll.  Other events
go through the same port.  A timed wait begins with a hop that its timer has still to
post (`armed`); a plain one begins with none.

`turns_of_step?` says once what an act can do.
-/
import TaskDispatch.Hop
import TaskDispatch.Port
import TaskDispatch.Proofs.Interleaving

namespace TaskDispatch

/-- What a resumption in the port is for. -/
inductive Ticket where
  /-- The hop of this number. -/
  | own (hop : Nat)
  | other
  deriving DecidableEq

/-- Whether an event resumes this future with the hop of this number. -/
def Event.carries (h : Nat) : Event Ticket → Bool
  | .resume (.own k) => k == h
  | _ => false

/-- Whether an event resumes this future. -/
def Event.isOwn : Event Ticket → Bool
  | .resume (.own _) => true
  | _ => false

/-- What is for somebody else carries none of the hops. -/
theorem Event.not_carries {e : Event Ticket} (h : e.isOwn = false) (k : Nat) : e.carries k = false := by
  match e with
  | .wakeUp => rfl
  | .resume .other => rfl
  | .resume (.own hop) => cases h

/-- How often a hop is in the port. -/
def Port.copies (p : Port Ticket) (h : Nat) : Nat := p.queue.countP (Event.carries h)

/-- How many resumptions of this future are in the port. -/
def Port.ownHops (p : Port Ticket) : Nat := p.queue.countP Event.isOwn

theorem Port.copies_post (p : Port Ticket) (e : Event Ticket) (h : Nat) :
    (p.post e).copies h = p.copies h + (e.carries h).toNat := by
  simp only [copies, queue_post, List.countP_append, List.countP_singleton]
  cases e.carries h <;> simp

theorem Port.copies_of_next? {p p' : Port Ticket} {e : Event Ticket} (hnext : p.next? = some (e, p'))
    (h : Nat) : p.copies h = (e.carries h).toNat + p'.copies h := by
  obtain ⟨queue⟩ := p
  cases queue with
  | nil => simp [next?] at hnext
  | cons first rest =>
      simp only [next?, Option.some.injEq, Prod.mk.injEq] at hnext
      obtain ⟨rfl, rfl⟩ := hnext
      simp only [copies, List.countP_cons]
      cases hcarries : first.carries h <;> simp
      omega

/-- If no other hop is in the port, all that is there of the future is copies of one. -/
theorem Port.ownHops_eq_copies {p : Port Ticket} {h : Nat} (hothers : ∀ k, k ≠ h → p.copies k = 0) :
    p.ownHops = p.copies h := by
  refine List.countP_congr fun e he => ?_
  cases e with
  | wakeUp => simp [Event.isOwn, Event.carries]
  | resume t =>
      cases t with
      | other => simp [Event.isOwn, Event.carries]
      | own k =>
          by_cases hk : k = h
          · simp [Event.isOwn, Event.carries, hk]
          · have hzero := List.countP_eq_zero.mp (hothers k hk) _ he
            simp [Event.carries] at hzero

/-! ### The parties -/

/-- How far a worker has come with a hop it has taken; `ω` is the type of wakers. -/
inductive Carrier.Place (ω : Type) where
  /-- About to record its thread. -/
  | taken
  /-- About to wake. -/
  | landed
  | woke (w : ω)

/-- A worker that has taken a hop. -/
structure Carrier (ω : Type) where
  thread : Nat
  hop : Nat
  place : Carrier.Place ω := .taken

namespace Journey

/-- Where the future stands with its polls. -/
inductive Stage (ω : Type) where
  /-- Nobody polls it. -/
  | idle
  /-- A poll is about to look where the latest hop has come down. -/
  | looking (thread : Nat) (waker : ω)
  /-- A poll has found the latest hop so, if there was one, and is about to post a new one. -/
  | posting (thread : Nat) (waker : ω) (found : Option Landing)
  /-- A poll on this thread has made it ready. -/
  | ready (thread : Nat)
  deriving DecidableEq

/-- A poll that has ended and has left the future waiting: who made it and with which waker, and where
it found the latest hop, if there was one. -/
structure Poll (ω : Type) where
  thread : Nat
  waker : ω
  found : Option Landing

/-- Whether the poll had to post a hop of its own. -/
def Poll.posted {ω : Type} (p : Poll ω) : Bool := HopMove.of p.found = .post

end Journey

/-- One future with all its hops, the latest last, the polls that have left it waiting and the workers
that have taken its hops. -/
structure Journey (ω : Type) where
  port : Port Ticket := {}
  hops : List (Hop ω) := []
  /-- Whether a timer has still to post the first hop. -/
  unfired : Bool := false
  stage : Journey.Stage ω := .idle
  past : List (Journey.Poll ω) := []
  carriers : List (Carrier ω) := []

namespace Journey

variable {ω : Type}

/-- A future before its first poll, or a timed wait whose timer is armed: its first hop is made for this
waker and is not posted. -/
def start : Option ω → Journey ω
  | none => {}
  | some w => { hops := [.new w], unfired := true }

/-- Who moves. -/
inductive Act (ω : Type) where
  /-- A thread polls the future. -/
  | poll (thread : Nat) (waker : ω)
  /-- The poll under way takes its next step. -/
  | advance
  /-- The timer posts the first hop. -/
  | fire
  /-- Somebody posts a wake-up, or a resumption of something else. -/
  | post (wakeUp : Bool)
  /-- A worker takes the oldest event. -/
  | take (thread : Nat)
  /-- A worker that has taken a hop takes its next step with it. -/
  | carry (i : Nat)

/-- Where a poll finds the latest hop, if there is one. -/
def latest (s : Journey ω) (thread : Nat) : Option Landing := s.hops.getLast?.map (·.landing thread)

/-- What a poll does that has found the latest hop so. -/
def sees (s : Journey ω) (thread : Nat) (waker : ω) (found : Option Landing) : Journey ω :=
  match HopMove.of found with
  | .arrive => { s with stage := .ready thread }
  | .wait => { s with stage := .idle, past := s.past ++ [{ thread, waker, found }] }
  | .post => { s with stage := .posting thread waker found }

/-- The next step of the poll under way. -/
def advance? (s : Journey ω) : Option (Journey ω) :=
  match s.stage with
  | .looking thread waker => some (s.sees thread waker (s.latest thread))
  | .posting thread waker found =>
    some { s with
      port := s.port.post (.resume (.own s.hops.length))
      hops := s.hops ++ [.new waker]
      stage := .idle
      past := s.past ++ [{ thread, waker, found }] }
  | .idle | .ready _ => none

/-- The next step of the worker with number `i`. -/
def carry? (s : Journey ω) (i : Nat) (c : Carrier ω) : Option (Journey ω) :=
  match c.place with
  | .taken =>
    some { s with
      hops := s.hops.modify c.hop (·.land c.thread)
      carriers := s.carriers.set i { c with place := .landed } }
  | .landed =>
    match s.hops[c.hop]? with
    | none => none
    | some hop => some { s with carriers := s.carriers.set i { c with place := .woke hop.waker } }
  | .woke _ => none

/-- The journey after an act, if it can happen.  A future is polled by one thread at a time, and not after
it was ready. -/
def step? (s : Journey ω) : Act ω → Option (Journey ω)
  | .poll thread waker =>
    match s.stage with
    | .idle => some { s with stage := .looking thread waker }
    | .looking .. | .posting .. | .ready _ => none
  | .advance => s.advance?
  | .fire =>
    if s.unfired then some { s with unfired := false, port := s.port.post (.resume (.own 0)) }
    else none
  | .post wakeUp => some { s with port := s.port.post (if wakeUp then .wakeUp else .resume .other) }
  | .take thread =>
    match s.port.next? with
    | none => none
    | some (.resume (.own hop), port) =>
      some { s with port, carriers := s.carriers ++ [{ thread, hop }] }
    | some (_, port) => some { s with port }
  | .carry i =>
    match s.carriers[i]? with
    | none => none
    | some c => s.carry? i c

/-- What an act can do. -/
inductive Turns (s : Journey ω) : Journey ω → Prop
  | poll (thread : Nat) (waker : ω) (h : s.stage = .idle) :
    Turns s { s with stage := .looking thread waker }
  | look (thread : Nat) (waker : ω) (h : s.stage = .looking thread waker) :
    Turns s (s.sees thread waker (s.latest thread))
  | post (thread : Nat) (waker : ω) (found : Option Landing) (h : s.stage = .posting thread waker found) :
    Turns s { s with
      port := s.port.post (.resume (.own s.hops.length))
      hops := s.hops ++ [.new waker]
      stage := .idle
      past := s.past ++ [{ thread, waker, found }] }
  | fire (h : s.unfired = true) :
    Turns s { s with unfired := false, port := s.port.post (.resume (.own 0)) }
  | others (e : Event Ticket) (h : e.isOwn = false) : Turns s { s with port := s.port.post e }
  | take (thread hop : Nat) (port : Port Ticket) (h : s.port.next? = some (.resume (.own hop), port)) :
    Turns s { s with port, carriers := s.carriers ++ [{ thread, hop }] }
  | skip (e : Event Ticket) (port : Port Ticket) (h : s.port.next? = some (e, port))
    (he : e.isOwn = false) : Turns s { s with port }
  | land (i : Nat) (c : Carrier ω) (hc : s.carriers[i]? = some c) (h : c.place = .taken) :
    Turns s { s with
      hops := s.hops.modify c.hop (·.land c.thread)
      carriers := s.carriers.set i { c with place := .landed } }
  | wake (i : Nat) (c : Carrier ω) (hop : Hop ω) (hc : s.carriers[i]? = some c)
    (h : c.place = .landed) (hhop : s.hops[c.hop]? = some hop) :
    Turns s { s with carriers := s.carriers.set i { c with place := .woke hop.waker } }

variable {s s' : Journey ω}

theorem of_poll {thread : Nat} {waker : ω} (h : s.step? (.poll thread waker) = some s') :
    s.stage = .idle ∧ s' = { s with stage := .looking thread waker } := by
  simp only [step?] at h
  split at h
  · next hidle => exact ⟨hidle, (Option.some.inj h).symm⟩
  all_goals cases h

theorem turns_of_advance? (h : s.advance? = some s') : Turns s s' := by
  unfold advance? at h
  split at h
  · next thread waker hstage =>
      obtain rfl := Option.some.inj h
      exact .look thread waker hstage
  · next thread waker found hstage =>
      obtain rfl := Option.some.inj h
      exact .post thread waker found hstage
  all_goals simp at h

theorem of_fire (h : s.step? .fire = some s') :
    s.unfired = true ∧ s' = { s with unfired := false, port := s.port.post (.resume (.own 0)) } := by
  simp only [step?] at h
  split at h
  · next hunfired => exact ⟨hunfired, (Option.some.inj h).symm⟩
  · cases h

theorem turns_of_take {thread : Nat} (h : s.step? (.take thread) = some s') : Turns s s' := by
  simp only [step?] at h
  split at h
  · simp at h
  · next hop port hnext =>
      obtain rfl := Option.some.inj h
      exact .take thread hop port hnext
  · next e port hnot hnext =>
      obtain rfl := Option.some.inj h
      refine .skip e port hnext ?_
      match e with
      | .wakeUp => rfl
      | .resume .other => rfl
      | .resume (.own hop) => exact absurd rfl (hnot hop)

theorem turns_of_carry? {i : Nat} {c : Carrier ω} (hc : s.carriers[i]? = some c)
    (h : s.carry? i c = some s') : Turns s s' := by
  unfold carry? at h
  split at h
  · next hplace =>
      obtain rfl := Option.some.inj h
      exact .land i c hc hplace
  · next hplace =>
      split at h
      · simp at h
      · next hop hhop =>
          obtain rfl := Option.some.inj h
          exact .wake i c hop hc hplace hhop
  · simp at h

/-- **What an act can do.** -/
theorem turns_of_step? {a : Act ω} (h : s.step? a = some s') : Turns s s' := by
  cases a with
  | poll thread waker =>
      obtain ⟨hidle, rfl⟩ := of_poll h
      exact .poll thread waker hidle
  | advance => exact turns_of_advance? h
  | fire =>
      obtain ⟨hunfired, rfl⟩ := of_fire h
      exact .fire hunfired
  | post wakeUp =>
      obtain rfl := Option.some.inj h
      exact .others _ (by cases wakeUp <;> rfl)
  | take thread => exact turns_of_take h
  | carry i =>
      simp only [step?] at h
      split at h
      · simp at h
      · next c hc => exact turns_of_carry? hc h

/-! ### The steps of a poll -/

theorem sees_of_arrive {found : Option Landing} (h : HopMove.of found = .arrive) (thread : Nat) (waker : ω) :
    s.sees thread waker found = { s with stage := .ready thread } := by
  rw [sees, h]

theorem sees_of_wait {found : Option Landing} (h : HopMove.of found = .wait) (thread : Nat) (waker : ω) :
    s.sees thread waker found =
      { s with stage := .idle, past := s.past ++ [{ thread, waker, found }] } := by
  rw [sees, h]

theorem sees_of_post {found : Option Landing} (h : HopMove.of found = .post) (thread : Nat) (waker : ω) :
    s.sees thread waker found = { s with stage := .posting thread waker found } := by
  rw [sees, h]

theorem advance_of_looking {thread : Nat} {waker : ω} (h : s.stage = .looking thread waker) :
    s.step? .advance = some (s.sees thread waker (s.latest thread)) := by
  rw [step?, advance?, h]

theorem advance_of_posting {thread : Nat} {waker : ω} {found : Option Landing}
    (h : s.stage = .posting thread waker found) :
    ∃ t, s.step? .advance = some t ∧ t.stage = .idle ∧ t.hops = s.hops ++ [.new waker] := by
  refine ⟨{ s with
    port := s.port.post (.resume (.own s.hops.length))
    hops := s.hops ++ [.new waker]
    stage := .idle
    past := s.past ++ [{ thread, waker, found }] }, ?_, rfl, rfl⟩
  rw [step?, advance?, h]

/-! ### What acts leave alone -/

theorem unfired_sees (s : Journey ω) (thread : Nat) (waker : ω) (found : Option Landing) :
    (s.sees thread waker found).unfired = s.unfired := by
  unfold sees
  split <;> rfl

/-- A worker that takes an event may have a hop to carry then. -/
theorem of_take {thread : Nat} (h : s.step? (.take thread) = some s') :
    ∃ port carriers, s' = { s with port, carriers } := by
  simp only [step?] at h
  split at h
  · cases h
  · exact ⟨_, _, (Option.some.inj h).symm⟩
  · exact ⟨_, s.carriers, (Option.some.inj h).symm⟩

/-- A worker that goes on with a hop makes none. -/
theorem of_carry {i : Nat} (h : s.step? (.carry i) = some s') :
    ∃ hops carriers, hops.length = s.hops.length ∧ s' = { s with hops, carriers } := by
  simp only [step?] at h
  split at h
  · cases h
  · next c hc =>
      unfold carry? at h
      split at h
      · exact ⟨_, _, List.length_modify .., (Option.some.inj h).symm⟩
      · split at h
        · cases h
        · exact ⟨s.hops, _, rfl, (Option.some.inj h).symm⟩
      · cases h

/-- Only the timer posts the first hop. -/
theorem unfired_of_step? {a : Act ω} (h : s.step? a = some s') (ha : a ≠ .fire) :
    s'.unfired = s.unfired := by
  cases a with
  | fire => exact absurd rfl ha
  | advance =>
      simp only [step?, advance?] at h
      split at h
      · obtain rfl := Option.some.inj h
        exact unfired_sees s _ _ _
      · obtain rfl := Option.some.inj h
        rfl
      all_goals simp at h
  | poll thread waker =>
      obtain ⟨-, rfl⟩ := of_poll h
      rfl
  | post wakeUp =>
      obtain rfl := Option.some.inj h
      rfl
  | take thread =>
      obtain ⟨port, carriers, rfl⟩ := of_take h
      rfl
  | carry i =>
      obtain ⟨hops, carriers, -, rfl⟩ := of_carry h
      rfl

/-- A future that is ready stays so. -/
theorem ready_of_step? {a : Act ω} {thread : Nat} (h : s.step? a = some s')
    (hready : s.stage = .ready thread) : s'.stage = .ready thread := by
  cases turns_of_step? h with
  | poll t waker hidle =>
      rw [hready] at hidle
      cases hidle
  | look t waker hlooking =>
      rw [hready] at hlooking
      cases hlooking
  | post t waker found hposting =>
      rw [hready] at hposting
      cases hposting
  | _ => exact hready

/-- What workers, a timer and others do leaves the polls alone, and makes no hop. -/
theorem polls_of_step? {a : Act ω} (h : s.step? a = some s') (hpoll : ∀ thread waker, a ≠ .poll thread waker)
    (hadvance : a ≠ .advance) :
    s'.stage = s.stage ∧ s'.hops.length = s.hops.length ∧ s'.past = s.past := by
  cases a with
  | poll thread waker => exact absurd rfl (hpoll thread waker)
  | advance => exact absurd rfl hadvance
  | post wakeUp =>
      obtain rfl := Option.some.inj h
      exact ⟨rfl, rfl, rfl⟩
  | fire =>
      obtain ⟨-, rfl⟩ := of_fire h
      exact ⟨rfl, rfl, rfl⟩
  | take thread =>
      obtain ⟨port, carriers, rfl⟩ := of_take h
      exact ⟨rfl, rfl, rfl⟩
  | carry i =>
      obtain ⟨hops, carriers, hlength, rfl⟩ := of_carry h
      exact ⟨rfl, hlength, rfl⟩

/-- Where nobody polls there is no poll to go on with. -/
theorem ne_advance_of_idle {a : Act ω} (h : s.step? a = some s') (hidle : s.stage = .idle) : a ≠ .advance := by
  rintro rfl
  simp [step?, advance?, hidle] at h

/-- A future that nobody polls is polled by nobody after what others do. -/
theorem idle_of_step? {a : Act ω} (h : s.step? a = some s') (hpoll : ∀ thread waker, a ≠ .poll thread waker)
    (hidle : s.stage = .idle) : s'.stage = .idle :=
  (polls_of_step? h hpoll (ne_advance_of_idle h hidle)).1.trans hidle

/-- A future that nobody polls and that has no hop has none after what others do. -/
theorem untouched_of_step? {a : Act ω} (h : s.step? a = some s') (hpoll : ∀ thread waker, a ≠ .poll thread waker)
    (hidle : s.stage = .idle) (hhops : s.hops = []) (hpast : s.past = []) :
    s'.stage = .idle ∧ s'.hops = [] ∧ s'.past = [] := by
  obtain ⟨-, hlength, hsame⟩ := polls_of_step? h hpoll (ne_advance_of_idle h hidle)
  refine ⟨idle_of_step? h hpoll hidle, List.length_eq_zero_iff.mp ?_, hsame.trans hpast⟩
  rw [hlength, hhops, List.length_nil]

end Journey

end TaskDispatch
