/-
The life of one task.

A task lies in a slot of some owner.  It is polled there, by somebody who awaits it by
value and takes its outcome away, or by somebody who waits until it is ready and leaves
it; such a wait may be given up or repeated at any time.  It moves from slot to slot and
leaves an empty task behind, and it moves into a frame or into a fan-in among any other
tasks, where any number of calls take turns with it, and out again when it is done.  Of
its body nothing is known: each poll suspends, ends or panics, as the act says.

Slots that the task has left are there as before, and what is done with an empty task is
part of its life too.  Looking at the task (`Task.isReady`, `Task.result`) changes
nothing and is no act.
-/
import TaskDispatch.Proofs.Task.Lodging

namespace TaskDispatch

open TaskDispatch.Frame (Callers Hosted Lodged)

/-- What a task may have moved into: a frame, or a fan-in as the input with this number. -/
inductive Lodging (β α ω : Type) where
  | none
  | frame (f : Hosted β α)
  | fanIn (i : Nat) (g : Gathering β α ω)

/-- Every slot that a task has been in, what it has moved into, and the polls of its body from before. -/
structure Life (β α ω : Type) where
  slots : List (Task β α)
  lodging : Lodging β α ω := .none
  before : List (Polled β α) := []

variable {β α ω : Type}

/-- The polls of the body since the task has moved in. -/
def Lodging.log : Lodging β α ω → List (Polled β α)
  | none => []
  | frame f => f.log
  | fanIn i g => ((g.hosts[i]?).map (·.log)).getD []

/-- This is the task that has moved in. -/
def Lodging.Holds (t : Task β α) : Lodging β α ω → Prop
  | none => False
  | frame f => f.Holds t
  | fanIn i g => (∃ f, g.hosts[i]? = some f ∧ f.Holds t) ∨ g.stage.outs[i]? = some t

namespace Life

/-- A task in the slot where it was made. -/
def start (o : Origin β α) : Life β α ω := { slots := [o.task] }

/-- All polls of the body. -/
def polls (s : Life β α ω) : List (Polled β α) := s.before ++ s.lodging.log

/-- This task is in one of the places where the task has been or is. -/
def Has (s : Life β α ω) (t : Task β α) : Prop := t ∈ s.slots ∨ s.lodging.Holds t

/-- What happens to the task. -/
inductive Act (β α ω : Type) where
  /-- The task in a slot is polled, by value or until it is ready, and so its body, if it has one. -/
  | poll (k : Nat) (byValue : Bool) (r : Polled β α)
  /-- The task in a slot moves into another slot. -/
  | move (k : Nat)
  /-- The task in a slot moves into a frame. -/
  | enterFrame (k : Nat)
  /-- The task in a slot moves into a fan-in, between these others. -/
  | enterFanIn (k : Nat) (lefts rights : List (Task β α))
  | inFrame (a : Callers.Act β α)
  | inFanIn (a : Gathering.Act β α ω)
  /-- The call with this number, which has taken the task out of the frame, hands it to a slot. -/
  | leaveFrame (j : Nat)
  /-- The fan-in, which is finished, hands the task to a slot. -/
  | leaveFanIn

/-- Whether somebody begins to await the task: in a slot, in its frame, or as part of its fan-in. -/
def Act.awaits : Act β α ω → Bool
  | .poll .. => true
  | .inFrame .resume => true
  | .inFanIn (.poll _) => true
  | _ => false

/-- What a poll leaves in the slot: who awaits the task by value takes the outcome of a ready one away. -/
def leave (byValue : Bool) (t : Task β α) : Task β α :=
  if t.isReady && byValue then t.takeOutcome.2 else t

/-- The task that is to move in somewhere, and what is left behind.  One has moved in at a time, and an
empty task has nothing that could move. -/
def moveIn? (s : Life β α ω) (k : Nat) : Option (Task β α × List (Task β α)) :=
  match s.lodging, s.slots[k]? with
  | .none, some t => if t.isEmpty then none else some (t, s.slots.set k .empty)
  | _, _ => none

/-- What has become of the task after an act, if it can happen.  A poll that is a panic of its own would
end here: there is none (`Fits.polled`). -/
def step? (s : Life β α ω) : Act β α ω → Option (Life β α ω)
  | .poll k byValue r =>
    match s.slots[k]? with
    | none => none
    | some t =>
      match t.polled r with
      | .error _ => none
      | .ok (_, t') =>
        some { s with slots := s.slots.set k (leave byValue t'), before := s.before ++ t.heard r }
  | .move k =>
    match s.slots[k]? with
    | none => none
    | some t => some { s with slots := s.slots.set k .empty ++ [t] }
  | .enterFrame k =>
    match s.moveIn? k with
    | none => none
    | some (t, slots) => some { s with slots, lodging := .frame (.start t) }
  | .enterFanIn k lefts rights =>
    match s.moveIn? k with
    | none => none
    | some (t, slots) =>
      some { s with slots, lodging := .fanIn lefts.length (.start (lefts ++ t :: rights)) }
  | .inFrame a =>
    match s.lodging with
    | .frame f => (f.step? a).map fun f => { s with lodging := .frame f }
    | _ => none
  | .inFanIn a =>
    match s.lodging with
    | .fanIn i g => (g.step? a).map fun g => { s with lodging := .fanIn i g }
    | _ => none
  | .leaveFrame j =>
    match s.lodging with
    | .frame f =>
      match f.frame.calls[j]? with
      | some ⟨.took (some t), _⟩ => some { slots := s.slots ++ [t], before := s.before ++ f.log }
      | _ => none
    | _ => none
  | .leaveFanIn =>
    match s.lodging with
    | .fanIn i g =>
      match g.stage with
      | .finished outs =>
        match outs[i]? with
        | some t => some { slots := s.slots ++ [t], before := s.polls }
        | none => none
      | _ => none
    | _ => none

/-- What an act can do. -/
inductive Turns (s : Life β α ω) : Act β α ω → Life β α ω → Prop
  | poll (k : Nat) (byValue : Bool) (r : Polled β α) (t t' : Task β α) (ready : Bool)
    (ht : s.slots[k]? = some t) (hpolled : t.polled r = .ok (ready, t')) :
    Turns s (.poll k byValue r)
      { s with slots := s.slots.set k (leave byValue t'), before := s.before ++ t.heard r }
  | move (k : Nat) (t : Task β α) (ht : s.slots[k]? = some t) :
    Turns s (.move k) { s with slots := s.slots.set k .empty ++ [t] }
  | enterFrame (k : Nat) (t : Task β α) (hnone : s.lodging = .none) (ht : s.slots[k]? = some t)
    (hsome : t.isEmpty = false) :
    Turns s (.enterFrame k) { s with slots := s.slots.set k .empty, lodging := .frame (.start t) }
  | enterFanIn (k : Nat) (lefts rights : List (Task β α)) (t : Task β α) (hnone : s.lodging = .none)
    (ht : s.slots[k]? = some t) (hsome : t.isEmpty = false) :
    Turns s (.enterFanIn k lefts rights) { s with
      slots := s.slots.set k .empty
      lodging := .fanIn lefts.length (.start (lefts ++ t :: rights)) }
  | inFrame (a : Callers.Act β α) (f f' : Hosted β α) (hf : s.lodging = .frame f)
    (hstep : f.step? a = some f') : Turns s (.inFrame a) { s with lodging := .frame f' }
  | inFanIn (a : Gathering.Act β α ω) (i : Nat) (g g' : Gathering β α ω) (hg : s.lodging = .fanIn i g)
    (hstep : g.step? a = some g') : Turns s (.inFanIn a) { s with lodging := .fanIn i g' }
  | leaveFrame (f : Hosted β α) (j n : Nat) (t : Task β α) (hf : s.lodging = .frame f)
    (hc : f.frame.calls[j]? = some ⟨.took (some t), n⟩) :
    Turns s (.leaveFrame j) { slots := s.slots ++ [t], before := s.before ++ f.log }
  | leaveFanIn (i : Nat) (g : Gathering β α ω) (outs : List (Task β α)) (t : Task β α)
    (hg : s.lodging = .fanIn i g) (hstage : g.stage = .finished outs) (ht : outs[i]? = some t) :
    Turns s .leaveFanIn { slots := s.slots ++ [t], before := s.polls }

variable {s t : Life β α ω}

theorem of_moveIn? {k : Nat} {u : Task β α} {slots : List (Task β α)} (h : s.moveIn? k = some (u, slots)) :
    s.lodging = .none ∧ s.slots[k]? = some u ∧ u.isEmpty = false ∧ slots = s.slots.set k .empty := by
  rw [moveIn?] at h
  split at h
  · next hnone hu =>
      split at h
      · cases h
      · next hsome =>
          cases h
          exact ⟨hnone, hu, Bool.eq_false_iff.mpr hsome, rfl⟩
  · cases h

/-- **What an act can do.** -/
theorem turns_of_step? {a : Act β α ω} (h : s.step? a = some t) : Turns s a t := by
  cases a with
  | poll k byValue r =>
      simp only [step?] at h
      split at h
      · cases h
      · next u hu =>
          split at h
          · cases h
          · next ready u' hpolled =>
              obtain rfl := Option.some.inj h
              exact .poll k byValue r u u' ready hu hpolled
  | move k =>
      simp only [step?] at h
      split at h
      · cases h
      · next u hu =>
          obtain rfl := Option.some.inj h
          exact .move k u hu
  | enterFrame k =>
      simp only [step?] at h
      split at h
      · cases h
      · next u slots hin =>
          obtain ⟨hnone, hu, hsome, rfl⟩ := of_moveIn? hin
          obtain rfl := Option.some.inj h
          exact .enterFrame k u hnone hu hsome
  | enterFanIn k lefts rights =>
      simp only [step?] at h
      split at h
      · cases h
      · next u slots hin =>
          obtain ⟨hnone, hu, hsome, rfl⟩ := of_moveIn? hin
          obtain rfl := Option.some.inj h
          exact .enterFanIn k lefts rights u hnone hu hsome
  | inFrame a =>
      simp only [step?] at h
      split at h
      · next f hf =>
          obtain ⟨f', hstep, rfl⟩ := Option.map_eq_some_iff.mp h
          exact .inFrame a f f' hf hstep
      · cases h
  | inFanIn a =>
      simp only [step?] at h
      split at h
      · next i g hg =>
          obtain ⟨g', hstep, rfl⟩ := Option.map_eq_some_iff.mp h
          exact .inFanIn a i g g' hg hstep
      · cases h
  | leaveFrame j =>
      simp only [step?] at h
      split at h
      · next f hf =>
          split at h
          · next u n hc =>
              obtain rfl := Option.some.inj h
              exact .leaveFrame f j n u hf hc
          · cases h
      · cases h
  | leaveFanIn =>
      simp only [step?] at h
      split at h
      · next i g hg =>
          split at h
          · next outs hstage =>
              split at h
              · next u hu =>
                  obtain rfl := Option.some.inj h
                  exact .leaveFanIn i g outs u hg hstage hu
              · cases h
          · cases h
      · cases h

end Life

end TaskDispatch
