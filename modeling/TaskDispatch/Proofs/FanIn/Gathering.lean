/-
One fan-in with all its inputs.

The first poll starts the frame of one input after another, each by a call that has
to return before the next, and then counts the awaiter in.  A later poll looks whether
the countdown is complete.  A poll that goes on takes the tasks out of the frames, one
after another.  Meanwhile anybody who holds the waker of a frame that has been polled
may wake it, every call of every frame takes its steps, the bodies' polls come to
anything, and a frame whose task has its outcome takes its steps on the countdown
inside its notifier.

A future that has been ready is not polled again.  Kept along are the wakers of the
polls begun and whether, when the latest began, every input had notified.

`turns_of_step?` says once what an act can do.
-/
import TaskDispatch.Proofs.FanIn.Roll
import TaskDispatch.Proofs.Frame.Hosted

namespace TaskDispatch

variable {β α ω : Type}

namespace Gathering

open TaskDispatch.Frame (Callers Hosted)

/-- Where a fan-in stands with its polls. -/
inductive Stage (β α ω : Type) where
  /-- Nobody polls it. -/
  | resting
  /-- A poll has begun and is about to look how things stand. -/
  | looking (w : ω)
  /-- The first poll is about to start the input with this number, or, after the last, to count. -/
  | starting (w : ω) (k : Nat)
  /-- It has called that input's frame. -/
  | running (w : ω) (k : Nat)
  /-- It counts the awaiter in. -/
  | counting
  /-- A poll has taken these tasks out of their frames. -/
  | collecting (outs : List (Task β α))
  /-- It has called the next frame for its task; `c` is the number of that call. -/
  | taking (outs : List (Task β α)) (c : Nat)
  /-- A poll has made the fan-in ready. -/
  | finished (outs : List (Task β α))
  /-- A frame had no task to give. -/
  | broken

end Gathering

open TaskDispatch.Frame (Callers Hosted)

/-- One fan-in: the countdown and who counts on it, the frames of its inputs, whether it has been started,
and where it stands; the wakers of the polls begun, the latest last; and whether every input had notified
when the latest began. -/
structure Gathering (β α ω : Type) where
  roll : Roll ω
  hosts : List (Hosted β α)
  started : Bool := false
  stage : Gathering.Stage β α ω := .resting
  wakers : List ω := []
  late : Bool := false

namespace Gathering

/-- A fan-in over these tasks. -/
def start (inputs : List (Task β α)) : Gathering β α ω :=
  { roll := .start inputs.length, hosts := inputs.map .start }

/-- Who moves. -/
inductive Act (β α ω : Type) where
  /-- Somebody polls the fan-in with this waker. -/
  | poll (w : ω)
  /-- The poll under way takes its next step. -/
  | advance
  /-- Somebody wakes the frame of an input. -/
  | wake (k : Nat)
  /-- A call of the frame of an input takes its next step. -/
  | call (k j : Nat) (spurious : Bool) (r : Polled β α)
  /-- An input takes its next step on the countdown. -/
  | notify (k : Nat)

/-- A poll of a body, as good as any, where none ends. -/
def noPoll : Polled β α := .panicked .other

/-- One frame moves. -/
def onHost? (s : Gathering β α ω) (k : Nat) (a : Callers.Act β α) : Option (Gathering β α ω) :=
  match s.hosts[k]? with
  | none => none
  | some f =>
    match f.step? a with
    | none => none
    | some f => some { s with hosts := s.hosts.set k f }

/-- One party of the countdown moves. -/
def onRoll? (s : Gathering β α ω) (a : Roll.Act ω) : Option (Gathering β α ω) :=
  match s.roll.step? a with
  | none => none
  | some roll => some { s with roll }

/-- Where the poll under way goes on. -/
def moveTo (s : Gathering β α ω) (stage : Stage β α ω) : Gathering β α ω := { s with stage }

/-- The next step of the poll under way. -/
def advance? (s : Gathering β α ω) : Option (Gathering β α ω) :=
  match s.stage with
  | .looking w =>
    match Countdown.glance s.started s.hosts.length s.roll.countdown.isReady with
    | .nothing => some { s with started := true, stage := .finished [] }
    | .start => some { s with started := true, stage := .starting w 0 }
    | .collect => some (s.moveTo (.collecting []))
    | .pending => some (s.moveTo .resting)
  | .starting w k =>
    if k < s.hosts.length then (s.onHost? k .resume).map (·.moveTo (.running w k))
    else (s.onRoll? (.await w)).map (·.moveTo .counting)
  | .running w k =>
    match s.hosts[k]? with
    | none => none
    | some f =>
      match f.frame.calls[0]? with
      | none => none
      | some c => if c.returned then some (s.moveTo (.starting w (k + 1))) else none
  | .counting =>
    match s.roll.awaiter with
    | some .suspended => some (s.moveTo .resting)
    | some .proceeds => some (s.moveTo (.collecting []))
    | _ => s.onRoll? .advance
  | .collecting outs =>
    match s.hosts[outs.length]? with
    | none => some (s.moveTo (.finished outs))
    | some f => (s.onHost? outs.length .take).map (·.moveTo (.taking outs f.frame.calls.length))
  | .taking outs c =>
    match s.hosts[outs.length]? with
    | none => none
    | some f =>
      match f.frame.calls[c]? with
      | some ⟨.took (some t), _⟩ => some (s.moveTo (.collecting (outs ++ [t])))
      | some ⟨.took none, _⟩ => some (s.moveTo .broken)
      | _ => none
  | .resting | .finished _ | .broken => none

/-- The next step of a call.  The one that calls the notifier enters the countdown, and it leaves the
notifier when it is done there. -/
def call? (s : Gathering β α ω) (k j : Nat) (spurious : Bool) (r : Polled β α) :
    Option (Gathering β α ω) :=
  match (s.hosts[k]?).bind (·.frame.calls[j]?) with
  | none => none
  | some c =>
    match c.place with
    | .resuming .notifying => (s.onHost? k (.go j spurious r)).bind (·.onRoll? (.enter k))
    | .inNotifier =>
      match s.roll.parties[k]? with
      | some (some .left) => s.onHost? k (.go j spurious r)
      | _ => none
    | _ => s.onHost? k (.go j spurious r)

/-- The fan-in after an act, if it can happen. -/
def step? (s : Gathering β α ω) : Act β α ω → Option (Gathering β α ω)
  | .poll w =>
    match s.stage with
    | .resting =>
      some { s with stage := .looking w, wakers := s.wakers ++ [w], late := s.roll.allLeft }
    | _ => none
  | .advance => s.advance?
  | .wake k =>
    match s.hosts[k]? with
    | none => none
    | some f => if 0 < f.frame.shared.polls then s.onHost? k .resume else none
  | .call k j spurious r => s.call? k j spurious r
  | .notify k => s.onRoll? (.step k)

/-- What an act can do. -/
inductive Turns (s : Gathering β α ω) : Gathering β α ω → Prop
  -- the poll under way
  | poll (w : ω) (h : s.stage = .resting) :
    Turns s { s with stage := .looking w, wakers := s.wakers ++ [w], late := s.roll.allLeft }
  | nothing (w : ω) (h : s.stage = .looking w) (hfirst : s.started = false) (hnone : s.hosts = []) :
    Turns s { s with started := true, stage := .finished [] }
  | begin (w : ω) (h : s.stage = .looking w) (hfirst : s.started = false) (hsome : s.hosts ≠ []) :
    Turns s { s with started := true, stage := .starting w 0 }
  | collect (w : ω) (h : s.stage = .looking w) (hlater : s.started = true)
    (hready : s.roll.countdown.complete = true) : Turns s (s.moveTo (.collecting []))
  | pend (w : ω) (h : s.stage = .looking w) (hlater : s.started = true)
    (hready : s.roll.countdown.complete = false) : Turns s (s.moveTo .resting)
  | start (w : ω) (k : Nat) (f f' : Hosted β α) (h : s.stage = .starting w k)
    (hf : s.hosts[k]? = some f) (hstep : f.step? .resume = some f') :
    Turns s { s with hosts := s.hosts.set k f', stage := .running w k }
  | started (w : ω) (k : Nat) (f : Hosted β α) (c : Frame.Call β α) (h : s.stage = .running w k)
    (hf : s.hosts[k]? = some f) (hc : f.frame.calls[0]? = some c) (hreturned : c.returned = true) :
    Turns s (s.moveTo (.starting w (k + 1)))
  | await (w : ω) (k : Nat) (roll : Roll ω) (h : s.stage = .starting w k) (hall : s.hosts.length ≤ k)
    (hroll : s.roll.step? (.await w) = some roll) : Turns s { s with roll, stage := .counting }
  | count (roll : Roll ω) (h : s.stage = .counting) (hroll : s.roll.step? .advance = some roll) :
    Turns s { s with roll }
  | suspend (h : s.stage = .counting) (ha : s.roll.awaiter = some .suspended) :
    Turns s (s.moveTo .resting)
  | proceed (h : s.stage = .counting) (ha : s.roll.awaiter = some .proceeds) :
    Turns s (s.moveTo (.collecting []))
  | take (outs : List (Task β α)) (f f' : Hosted β α) (h : s.stage = .collecting outs)
    (hf : s.hosts[outs.length]? = some f) (hstep : f.step? .take = some f') :
    Turns s { s with
      hosts := s.hosts.set outs.length f'
      stage := .taking outs f.frame.calls.length }
  | took (outs : List (Task β α)) (c n : Nat) (f : Hosted β α) (t : Task β α)
    (h : s.stage = .taking outs c) (hf : s.hosts[outs.length]? = some f)
    (hc : f.frame.calls[c]? = some ⟨.took (some t), n⟩) : Turns s (s.moveTo (.collecting (outs ++ [t])))
  | missed (outs : List (Task β α)) (c n : Nat) (f : Hosted β α)
    (h : s.stage = .taking outs c) (hf : s.hosts[outs.length]? = some f)
    (hc : f.frame.calls[c]? = some ⟨.took none, n⟩) : Turns s (s.moveTo .broken)
  | finish (outs : List (Task β α)) (h : s.stage = .collecting outs)
    (hall : s.hosts.length ≤ outs.length) : Turns s (s.moveTo (.finished outs))
  -- everybody else
  | wake (k : Nat) (f f' : Hosted β α) (hf : s.hosts[k]? = some f)
    (hpolls : 0 < f.frame.shared.polls) (hstep : f.step? .resume = some f') :
    Turns s { s with hosts := s.hosts.set k f' }
  | call (k j : Nat) (spurious : Bool) (r : Polled β α) (f f' : Hosted β α) (c : Frame.Call β α)
    (hf : s.hosts[k]? = some f) (hc : f.frame.calls[j]? = some c) (hquiet : c.announces = false)
    (hleft : c.place = .inNotifier → s.roll.parties[k]? = some (some .left))
    (hstep : f.step? (.go j spurious r) = some f') : Turns s { s with hosts := s.hosts.set k f' }
  | announce (k j n : Nat) (spurious : Bool) (r : Polled β α) (f f' : Hosted β α) (roll : Roll ω)
    (hf : s.hosts[k]? = some f) (hc : f.frame.calls[j]? = some ⟨.resuming .notifying, n⟩)
    (hstep : f.step? (.go j spurious r) = some f') (hroll : s.roll.step? (.enter k) = some roll) :
    Turns s { s with roll, hosts := s.hosts.set k f' }
  | notify (k : Nat) (roll : Roll ω) (hroll : s.roll.step? (.step k) = some roll) :
    Turns s { s with roll }

variable {s t : Gathering β α ω}

theorem of_onHost? {k : Nat} {a : Callers.Act β α} (h : s.onHost? k a = some t) :
    ∃ f f', s.hosts[k]? = some f ∧ f.step? a = some f' ∧ t = { s with hosts := s.hosts.set k f' } := by
  rw [onHost?] at h
  split at h
  · cases h
  · next f hf =>
      split at h
      · cases h
      · next f' hstep => exact ⟨f, f', hf, hstep, (Option.some.inj h).symm⟩

theorem of_onRoll? {a : Roll.Act ω} (h : s.onRoll? a = some t) :
    ∃ roll, s.roll.step? a = some roll ∧ t = { s with roll } := by
  rw [onRoll?] at h
  split at h
  · cases h
  · next roll hroll => exact ⟨roll, hroll, (Option.some.inj h).symm⟩

theorem of_poll {w : ω} (h : s.step? (.poll w) = some t) :
    s.stage = .resting ∧
      t = { s with stage := .looking w, wakers := s.wakers ++ [w], late := s.roll.allLeft } := by
  simp only [step?] at h
  split at h
  · next hstage => exact ⟨hstage, (Option.some.inj h).symm⟩
  · cases h

theorem of_wake {k : Nat} (h : s.step? (.wake k) = some t) :
    ∃ f f', s.hosts[k]? = some f ∧ 0 < f.frame.shared.polls ∧ f.step? .resume = some f' ∧
      t = { s with hosts := s.hosts.set k f' } := by
  simp only [step?] at h
  split at h
  · cases h
  · next f hf =>
      split at h
      · next hpolls =>
          obtain ⟨g, g', hg, hstep, rfl⟩ := of_onHost? h
          obtain rfl := Option.some.inj (hf.symm.trans hg)
          exact ⟨f, g', hf, hpolls, hstep, rfl⟩
      · cases h

/-- A call moves one frame, and the countdown only where it enters it. -/
theorem of_call {k j : Nat} {spurious : Bool} {r : Polled β α}
    (h : s.step? (.call k j spurious r) = some t) :
    ∃ f f' roll, s.hosts[k]? = some f ∧ f.step? (.go j spurious r) = some f' ∧
      t = { s with roll, hosts := s.hosts.set k f' } ∧
      (roll = s.roll ∨ s.roll.step? (.enter k) = some roll) := by
  simp only [step?, call?] at h
  split at h
  · cases h
  · split at h
    · obtain ⟨u, hu, henter⟩ := Option.bind_eq_some_iff.mp h
      obtain ⟨f, f', hf, hstep, rfl⟩ := of_onHost? hu
      obtain ⟨roll, hroll, rfl⟩ := of_onRoll? henter
      exact ⟨f, f', roll, hf, hstep, rfl, Or.inr hroll⟩
    · split at h
      · obtain ⟨f, f', hf, hstep, rfl⟩ := of_onHost? h
        exact ⟨f, f', s.roll, hf, hstep, rfl, Or.inl rfl⟩
      · cases h
    · obtain ⟨f, f', hf, hstep, rfl⟩ := of_onHost? h
      exact ⟨f, f', s.roll, hf, hstep, rfl, Or.inl rfl⟩

/-- What a poll makes of what it sees. -/
theorem turns_of_looking {w : ω} (hstage : s.stage = .looking w) (h : s.advance? = some t) :
    Turns s t := by
  simp only [advance?, hstage, Countdown.glance] at h
  cases hstarted : s.started with
  | true =>
      cases hready : s.roll.countdown.complete with
      | true =>
          simp only [hstarted, Countdown.isReady, hready, if_true] at h
          obtain rfl := Option.some.inj h
          exact .collect w hstage hstarted hready
      | false =>
          simp only [hstarted, Countdown.isReady, hready, if_true] at h
          obtain rfl := Option.some.inj h
          exact .pend w hstage hstarted hready
  | false =>
      by_cases hnone : s.hosts = []
      · simp only [hstarted, hnone, List.length_nil, if_true] at h
        rw [← hnone] at h
        obtain rfl := Option.some.inj h
        exact .nothing w hstage hstarted hnone
      · have hlen : s.hosts.length ≠ 0 := fun hzero => hnone (List.length_eq_zero_iff.mp hzero)
        simp only [hstarted, hlen, if_false] at h
        obtain rfl := Option.some.inj h
        exact .begin w hstage hstarted hnone

theorem turns_of_advance? (h : s.advance? = some t) : Turns s t := by
  cases hstage : s.stage with
  | looking w => exact turns_of_looking hstage h
  | starting w k =>
      simp only [advance?, hstage] at h
      split at h
      · obtain ⟨u, hu, rfl⟩ := Option.map_eq_some_iff.mp h
        obtain ⟨f, f', hf, hstep, rfl⟩ := of_onHost? hu
        exact .start w k f f' hstage hf hstep
      · next hall =>
          obtain ⟨u, hu, rfl⟩ := Option.map_eq_some_iff.mp h
          obtain ⟨roll, hroll, rfl⟩ := of_onRoll? hu
          exact .await w k roll hstage (Nat.le_of_not_lt hall) hroll
  | running w k =>
      simp only [advance?, hstage] at h
      split at h
      · cases h
      · next f hf =>
          split at h
          · cases h
          · next c hc =>
              split at h
              · next hreturned =>
                  obtain rfl := Option.some.inj h
                  exact .started w k f c hstage hf hc hreturned
              · cases h
  | counting =>
      simp only [advance?, hstage] at h
      split at h
      · next ha =>
          obtain rfl := Option.some.inj h
          exact .suspend hstage ha
      · next ha =>
          obtain rfl := Option.some.inj h
          exact .proceed hstage ha
      · obtain ⟨roll, hroll, rfl⟩ := of_onRoll? h
        exact .count roll hstage hroll
  | collecting outs =>
      simp only [advance?, hstage] at h
      split at h
      · next hnone =>
          obtain rfl := Option.some.inj h
          exact .finish outs hstage (List.getElem?_eq_none_iff.mp hnone)
      · next f hf =>
          obtain ⟨u, hu, rfl⟩ := Option.map_eq_some_iff.mp h
          obtain ⟨g, g', hg, hstep, rfl⟩ := of_onHost? hu
          obtain rfl := Option.some.inj (hf.symm.trans hg)
          exact .take outs f g' hstage hf hstep
  | taking outs c =>
      simp only [advance?, hstage] at h
      split at h
      · cases h
      · next f hf =>
          split at h
          · next t n hc =>
              obtain rfl := Option.some.inj h
              exact .took outs c n f t hstage hf hc
          · next n hc =>
              obtain rfl := Option.some.inj h
              exact .missed outs c n f hstage hf hc
          · cases h
  | resting => simp [advance?, hstage] at h
  | finished outs => simp [advance?, hstage] at h
  | broken => simp [advance?, hstage] at h

theorem turns_of_call? {k j : Nat} {spurious : Bool} {r : Polled β α}
    (h : s.call? k j spurious r = some t) : Turns s t := by
  rw [call?] at h
  split at h
  · cases h
  · next c hc =>
      obtain ⟨f, hf, hcall⟩ := Option.bind_eq_some_iff.mp hc
      obtain ⟨place, n⟩ := c
      split at h
      · next hplace =>
          obtain rfl : place = .resuming .notifying := hplace
          obtain ⟨u, hu, henter⟩ := Option.bind_eq_some_iff.mp h
          obtain ⟨g, g', hg, hstep, rfl⟩ := of_onHost? hu
          obtain ⟨roll, hroll, rfl⟩ := of_onRoll? henter
          obtain rfl := Option.some.inj (hf.symm.trans hg)
          exact .announce k j n spurious r f g' roll hf hcall hstep hroll
      · next hplace =>
          obtain rfl : place = .inNotifier := hplace
          split at h
          · next hleft =>
              obtain ⟨g, g', hg, hstep, rfl⟩ := of_onHost? h
              obtain rfl := Option.some.inj (hf.symm.trans hg)
              exact .call k j spurious r f g' _ hf hcall rfl (fun _ => hleft) hstep
          · cases h
      · next hannounces hnotifier =>
          obtain ⟨g, g', hg, hstep, rfl⟩ := of_onHost? h
          obtain rfl := Option.some.inj (hf.symm.trans hg)
          refine .call k j spurious r f g' _ hf hcall ?_ (fun hp => absurd hp hnotifier) hstep
          exact Bool.eq_false_iff.mpr fun hcalls => hannounces (Frame.Call.place_of_announces hcalls)

/-- **What an act can do.** -/
theorem turns_of_step? {a : Act β α ω} (h : s.step? a = some t) : Turns s t := by
  cases a with
  | poll w =>
      obtain ⟨hstage, rfl⟩ := of_poll h
      exact .poll w hstage
  | advance => exact turns_of_advance? h
  | wake k =>
      obtain ⟨f, f', hf, hpolls, hstep, rfl⟩ := of_wake h
      exact .wake k f f' hf hpolls hstep
  | call k j spurious r => exact turns_of_call? h
  | notify k =>
      obtain ⟨roll, hroll, rfl⟩ := of_onRoll? h
      exact .notify k roll hroll

end Gathering

end TaskDispatch
