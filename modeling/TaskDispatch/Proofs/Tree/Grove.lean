/-
A tree of tasks at work.

`sync_wait` makes a frame around the root, starts it and waits for the latch that the
frame's notifier sets.  A body that gathers tasks makes a fan-in of its own, a branch,
which holds one frame for each of them.  Each poll of a frame runs a body (`Visit`),
with the waker of that frame.

A leaf that is polled before it is open keeps the waker.  Opening it sends that wake on
its way, as does a fan-in that is complete; a wake that arrives is one more call of its
frame.  A leaf of one frame has one waker to keep; frames may share a leaf, which then
has a waker of each.  Anybody may open leaves, in any order and at any time, and anybody may
wake any frame that has been polled.  All calls, polls, countdowns and the waiting
caller take their steps in any order; a wake made from inside another call is one of
these orders.

`turns_of_step?` says once what an act can do.
-/
import TaskDispatch.Latch
import TaskDispatch.Proofs.FanIn.Gathering
import TaskDispatch.Proofs.Tree.Visit

namespace TaskDispatch

namespace Grove

/-- Which frame: that of the root, or that of an input of a fan-in. -/
inductive Seat where
  | root
  | input (g k : Nat)
  deriving DecidableEq

/-- A fan-in, and the frame whose body made it. -/
structure Branch (ℓ α : Type) where
  owner : Seat
  fan : Gathering (Body ℓ α) α Seat

/-- Where the caller of `sync_wait` is. -/
inductive Main (α : Type) where
  /-- About to start the frame. -/
  | made
  /-- In the call that starts it. -/
  | starting
  /-- Waiting for the latch. -/
  | waits (w : Latch.Waiter)
  /-- In the call that takes the task, which has this number. -/
  | takes (j : Nat)
  | returned (outcome : Except Panic (Outcome α))
  /-- The frame had no task to give. -/
  | unreachable

end Grove

open TaskDispatch.Frame (Hosted Callers)

/-- The frame of the root, the fan-ins in the order in which they were made, and the poll under way in each
frame; which leaves are open, which wakers the others keep, and which wakes are on their way; the latch and
the caller that waits for it. -/
structure Grove (ℓ α : Type) where
  root : Hosted (Grove.Body ℓ α) α
  branches : List (Grove.Branch ℓ α) := []
  visits : Grove.Seat → Option (Grove.Visit ℓ α) := fun _ => none
  opened : ℓ → Bool := fun _ => false
  kept : List (ℓ × Grove.Seat) := []
  wakes : List Grove.Seat := []
  latch : Latch := {}
  main : Grove.Main α := .made

namespace Grove

variable {ℓ α : Type}

/-- `sync_wait` has made a frame around a task. -/
def start (t : Tree ℓ α) : Grove ℓ α := { root := .start t.toTask }

/-- Who moves. -/
inductive Act (ℓ : Type) where
  /-- The caller of `sync_wait` takes its next step. -/
  | main
  /-- A call of a frame takes its next step. -/
  | call (n : Seat) (j : Nat) (spurious : Bool)
  /-- The poll of a frame's body takes its next step. -/
  | visit (n : Seat)
  /-- An input of a fan-in takes its next step on the countdown. -/
  | notify (g k : Nat)
  /-- A wake arrives. -/
  | arrive (i : Nat)
  /-- Somebody opens a leaf. -/
  | unlock (l : ℓ)
  /-- Somebody wakes a frame for no reason. -/
  | wake (n : Seat)

/-- Whether the tree does this by itself; the exchange that enters a frame may fail for no reason, and it is
not the tree's doing when it does. -/
def Act.isOwn : Act ℓ → Bool
  | .main | .visit _ | .notify _ _ | .arrive _ => true
  | .call _ _ spurious => !spurious
  | .unlock _ | .wake _ => false

/-- The frame at a seat. -/
def host? (s : Grove ℓ α) : Seat → Option (Hosted (Body ℓ α) α)
  | .root => some s.root
  | .input g k => (s.branches[g]?).bind (·.fan.hosts[k]?)

/-- The outcomes that the inputs of a fan-in will come to. -/
def Branch.promises (b : Branch ℓ α) : List (Outcome α) := (b.fan.hosts.map (·.input)).map promise

def promises (s : Grove ℓ α) (g : Nat) : List (Outcome α) := (s.branches[g]?).elim [] (·.promises)

/-- A poll goes on, or is over. -/
def setVisit (s : Grove ℓ α) (n : Seat) (v : Option (Visit ℓ α)) : Grove ℓ α :=
  { s with visits := fun m => if m = n then v else s.visits m }

@[simp] theorem visits_setVisit_self (s : Grove ℓ α) (n : Seat) (v : Option (Visit ℓ α)) :
    (s.setVisit n v).visits n = v := if_pos rfl

theorem visits_setVisit_of_ne (s : Grove ℓ α) {n m : Seat} (v : Option (Visit ℓ α)) (h : m ≠ n) :
    (s.setVisit n v).visits m = s.visits m := if_neg h

@[simp] theorem host?_setVisit (s : Grove ℓ α) (n m : Seat) (v : Option (Visit ℓ α)) :
    (s.setVisit n v).host? m = s.host? m := by
  cases m <;> rfl

@[simp] theorem promises_setVisit (s : Grove ℓ α) (n : Seat) (v : Option (Visit ℓ α)) :
    (s.setVisit n v).promises = s.promises := rfl

theorem setVisit_self {s : Grove ℓ α} {n : Seat} {v : Option (Visit ℓ α)} (h : s.visits n = v) :
    s.setVisit n v = s := by
  have hvisits : (fun m => if m = n then v else s.visits m) = s.visits := by
    funext m
    by_cases hm : m = n
    · rw [if_pos hm, hm, h]
    · rw [if_neg hm]
  rw [setVisit, hvisits]

/-- One fan-in moves. -/
def onBranch? (s : Grove ℓ α) (g : Nat) (a : Gathering.Act (Body ℓ α) α Seat) : Option (Grove ℓ α) :=
  match s.branches[g]? with
  | none => none
  | some b =>
    match b.fan.step? a with
    | none => none
    | some fan => some { s with branches := s.branches.set g { b with fan } }

/-- The frame of the root moves. -/
def onRoot? (s : Grove ℓ α) (a : Callers.Act (Body ℓ α) α) : Option (Grove ℓ α) :=
  (s.root.step? a).map fun root => { s with root }

/-- Where the waiting caller is when the latch is set. -/
def Main.notify : Main α → Main α
  | .waits w => .waits w.notify
  | m => m

/-- The notifier of the root's frame sets the latch. -/
def ring (s : Grove ℓ α) : Grove ℓ α := { s with latch := s.latch.set, main := s.main.notify }

/-- The frame at a seat is woken, by somebody who holds its waker. -/
def wake? (s : Grove ℓ α) : Seat → Option (Grove ℓ α)
  | .root => if 0 < s.root.frame.shared.polls then s.onRoot? .resume else none
  | .input g k => s.onBranch? g (.wake k)

/-- A call of the frame at a seat takes its next step. -/
def go? (s : Grove ℓ α) (n : Seat) (j : Nat) (spurious : Bool) (r : Polled (Body ℓ α) α) :
    Option (Grove ℓ α) :=
  match n with
  | .input g k => s.onBranch? g (.call k j spurious r)
  | .root =>
    match s.root.frame.calls[j]? with
    | none => none
    | some c =>
      if c.announces then (s.onRoot? (.go j spurious r)).map ring else s.onRoot? (.go j spurious r)

/-- The next step of a call.  One that begins a poll goes into the task's body, if it has one, and waits
until that poll is over. -/
def call? (s : Grove ℓ α) (n : Seat) (j : Nat) (spurious : Bool) : Option (Grove ℓ α) :=
  match s.host? n with
  | none => none
  | some f =>
    match f.frame.calls[j]? with
    | none => none
    | some c =>
      match c.place with
      | .resuming .polling =>
        (s.go? n j spurious Gathering.noPoll).map
          (·.setVisit n (f.frame.shared.task.begin?.map fun (b, _) => { focus := .body b }))
      | .inPoll lent =>
        match lent.begin? with
        | none => s.go? n j spurious Gathering.noPoll
        | some _ =>
          match (s.visits n).bind Visit.result? with
          | none => none
          | some r => (s.go? n j spurious r).map (·.setVisit n none)
      | _ => s.go? n j spurious Gathering.noPoll

/-- The outcomes that a body reads from the outputs of a fan-in. -/
def outcomesOf (outs : List (Task (Body ℓ α) α)) : Except Panic (List (Outcome α)) :=
  outs.mapM (·.takeOutcome.1)

/-- A body goes on with the outcomes it has read. -/
def reads (read : Except Panic (List (Outcome α))) (next : List (Outcome α) → Program ℓ α) : Focus ℓ α :=
  match read with
  | .error p => .panicked p
  | .ok outcomes => .body (.run (next outcomes))

/-- The next step of the poll of a body. -/
def visit? [DecidableEq ℓ] (s : Grove ℓ α) (n : Seat) (v : Visit ℓ α) : Option (Grove ℓ α) :=
  let goTo (focus : Focus ℓ α) (s : Grove ℓ α) : Grove ℓ α := s.setVisit n (some { v with focus })
  match v.focus with
  | .body (.run (.leaf l next)) =>
    if s.opened l then some (goTo (.body (.run next)) s)
    else some (goTo (.suspended (.run (.leaf l next))) { s with kept := s.kept.insert (l, n) })
  | .body (.run (.all _ _ inputs next)) =>
    let b : Branch ℓ α := { owner := n, fan := .start (List.ofFn fun i => (inputs i).toTask) }
    some (goTo (.asks s.branches.length next) { s with branches := s.branches ++ [b] })
  | .asks g next => (s.onBranch? g (.poll n)).map (goTo (.awaits g next))
  | .awaits g next =>
    match s.branches[g]? with
    | none => none
    | some b =>
      match b.fan.stage with
      | .resting => some (goTo (.suspended (.inAll g next)) s)
      | .finished outs => some (goTo (reads (outcomesOf outs) next) s)
      | _ => s.onBranch? g .advance
  | _ => v.turn?.map fun w => s.setVisit n (some w)

/-- The next step of the caller of `sync_wait`. -/
def main? (s : Grove ℓ α) : Option (Grove ℓ α) :=
  match s.main with
  | .made => (s.onRoot? .resume).map ({ · with main := .starting })
  | .starting =>
    match s.root.frame.calls[0]? with
    | none => none
    | some c => if c.returned then some { s with main := .waits .looking } else none
  | .waits .looking => some { s with main := .waits (Latch.Waiter.looking.look s.latch) }
  | .waits .parked => none
  | .waits .returned => (s.onRoot? .take).map ({ · with main := .takes s.root.frame.calls.length })
  | .takes j =>
    match s.root.frame.calls[j]? with
    | some ⟨.took (some t), _⟩ => some { s with main := .returned t.takeOutcome.1 }
    | some ⟨.took none, _⟩ => some { s with main := .unreachable }
    | _ => none
  | .returned _ | .unreachable => none

/-- A leaf is opened: the wakes it has kept are on their way. -/
def unlock [DecidableEq ℓ] (s : Grove ℓ α) (l : ℓ) : Grove ℓ α :=
  { s with
    opened := fun l' => l' = l || s.opened l'
    kept := s.kept.filter fun (l', _) => l' ≠ l
    wakes := s.wakes ++ (s.kept.filter fun (l', _) => l' = l).map Prod.snd }

/-- An input takes its next step on the countdown; its wake of the awaiter is then on its way. -/
def notify? (s : Grove ℓ α) (g k : Nat) : Option (Grove ℓ α) :=
  match s.branches[g]? with
  | none => none
  | some b =>
    match b.fan.roll.parties[k]? with
    | some (some (.wake w)) => (s.onBranch? g (.notify k)).map fun s => { s with wakes := s.wakes ++ [w] }
    | _ => s.onBranch? g (.notify k)

/-- The tree after an act, if it can happen. -/
def step? [DecidableEq ℓ] (s : Grove ℓ α) : Act ℓ → Option (Grove ℓ α)
  | .main => s.main?
  | .call n j spurious => s.call? n j spurious
  | .visit n =>
    match s.visits n with
    | none => none
    | some v => s.visit? n v
  | .notify g k => s.notify? g k
  | .arrive i =>
    match s.wakes[i]? with
    | none => none
    | some n => (s.wake? n).map fun s => { s with wakes := s.wakes.eraseIdx i }
  | .unlock l => some (s.unlock l)
  | .wake n => s.wake? n

/-- The branch of a fan-in moves. -/
def setFan (s : Grove ℓ α) (g : Nat) (b : Branch ℓ α) (fan : Gathering (Body ℓ α) α Seat) : Grove ℓ α :=
  { s with branches := s.branches.set g { b with fan } }

/-- What an act can do. -/
inductive Turns [DecidableEq ℓ] (s : Grove ℓ α) : Act ℓ → Grove ℓ α → Prop
  -- the caller of `sync_wait`
  | enter (root : Hosted (Body ℓ α) α) (h : s.main = .made) (hstep : s.root.step? .resume = some root) :
    Turns s .main { s with root, main := .starting }
  | wait (c : Frame.Call (Body ℓ α) α) (h : s.main = .starting) (hc : s.root.frame.calls[0]? = some c)
    (hreturned : c.returned = true) : Turns s .main { s with main := .waits .looking }
  | look (h : s.main = .waits .looking) :
    Turns s .main { s with main := .waits (Latch.Waiter.looking.look s.latch) }
  | fetch (root : Hosted (Body ℓ α) α) (h : s.main = .waits .returned)
    (hstep : s.root.step? .take = some root) :
    Turns s .main { s with root, main := .takes s.root.frame.calls.length }
  | gain (j n : Nat) (t : Task (Body ℓ α) α) (h : s.main = .takes j)
    (hc : s.root.frame.calls[j]? = some ⟨.took (some t), n⟩) :
    Turns s .main { s with main := .returned t.takeOutcome.1 }
  | miss (j n : Nat) (h : s.main = .takes j) (hc : s.root.frame.calls[j]? = some ⟨.took none, n⟩) :
    Turns s .main { s with main := .unreachable }
  -- the calls of the frames
  | move (n : Seat) (j : Nat) (spurious : Bool) (f : Hosted (Body ℓ α) α) (c : Frame.Call (Body ℓ α) α)
    (t : Grove ℓ α) (hf : s.host? n = some f) (hc : f.frame.calls[j]? = some c)
    (hbegin : c.place ≠ .resuming .polling) (hback : ∀ lent, c.place = .inPoll lent → lent.begin? = none)
    (hgo : s.go? n j spurious Gathering.noPoll = some t) : Turns s (.call n j spurious) t
  | begin (n : Seat) (j m : Nat) (spurious : Bool) (f : Hosted (Body ℓ α) α) (t : Grove ℓ α)
    (hf : s.host? n = some f) (hc : f.frame.calls[j]? = some ⟨.resuming .polling, m⟩)
    (hgo : s.go? n j spurious Gathering.noPoll = some t) :
    Turns s (.call n j spurious)
      (t.setVisit n (f.frame.shared.task.begin?.map fun (b, _) => { focus := .body b }))
  | back (n : Seat) (j m : Nat) (spurious : Bool) (f : Hosted (Body ℓ α) α) (lent : Task (Body ℓ α) α)
    (b : Body ℓ α × Record (Body ℓ α) α) (v : Visit ℓ α) (r : Polled (Body ℓ α) α) (t : Grove ℓ α)
    (hf : s.host? n = some f) (hc : f.frame.calls[j]? = some ⟨.inPoll lent, m⟩)
    (hb : lent.begin? = some b) (hv : s.visits n = some v) (hr : v.result? = some r)
    (hgo : s.go? n j spurious r = some t) : Turns s (.call n j spurious) (t.setVisit n none)
  -- the polls of the bodies
  | turn (n : Seat) (v w : Visit ℓ α) (hv : s.visits n = some v) (hturn : v.turn? = some w) :
    Turns s (.visit n) (s.setVisit n (some w))
  | pass (n : Seat) (v : Visit ℓ α) (l : ℓ) (next : Program ℓ α) (hv : s.visits n = some v)
    (hfocus : v.focus = .body (.run (.leaf l next))) (hopen : s.opened l = true) :
    Turns s (.visit n) (s.setVisit n (some { v with focus := .body (.run next) }))
  | park (n : Seat) (v : Visit ℓ α) (l : ℓ) (next : Program ℓ α) (hv : s.visits n = some v)
    (hfocus : v.focus = .body (.run (.leaf l next))) (hshut : s.opened l = false) :
    Turns s (.visit n) (setVisit { s with kept := s.kept.insert (l, n) } n
      (some { v with focus := .suspended (.run (.leaf l next)) }))
  | gather (n : Seat) (v : Visit ℓ α) (k : Nat) (hk : k < 2 ^ 64) (inputs : Fin k → Tree ℓ α)
    (next : List (Outcome α) → Program ℓ α) (hv : s.visits n = some v)
    (hfocus : v.focus = .body (.run (.all k hk inputs next))) :
    Turns s (.visit n) (setVisit
      { s with branches := s.branches ++ [⟨n, .start (List.ofFn fun i => (inputs i).toTask)⟩] } n
      (some { v with focus := .asks s.branches.length next }))
  | ask (n : Seat) (v : Visit ℓ α) (g : Nat) (next : List (Outcome α) → Program ℓ α) (b : Branch ℓ α)
    (fan : Gathering (Body ℓ α) α Seat) (hv : s.visits n = some v) (hfocus : v.focus = .asks g next)
    (hb : s.branches[g]? = some b) (hstep : b.fan.step? (.poll n) = some fan) :
    Turns s (.visit n) ((s.setFan g b fan).setVisit n (some { v with focus := .awaits g next }))
  | advance (n : Seat) (v : Visit ℓ α) (g : Nat) (next : List (Outcome α) → Program ℓ α) (b : Branch ℓ α)
    (fan : Gathering (Body ℓ α) α Seat) (hv : s.visits n = some v) (hfocus : v.focus = .awaits g next)
    (hb : s.branches[g]? = some b) (hstage : b.fan.stage ≠ .resting)
    (hstep : b.fan.step? .advance = some fan) : Turns s (.visit n) (s.setFan g b fan)
  | rest (n : Seat) (v : Visit ℓ α) (g : Nat) (next : List (Outcome α) → Program ℓ α) (b : Branch ℓ α)
    (hv : s.visits n = some v) (hfocus : v.focus = .awaits g next) (hb : s.branches[g]? = some b)
    (hstage : b.fan.stage = .resting) :
    Turns s (.visit n) (s.setVisit n (some { v with focus := .suspended (.inAll g next) }))
  | read (n : Seat) (v : Visit ℓ α) (g : Nat) (next : List (Outcome α) → Program ℓ α) (b : Branch ℓ α)
    (outs : List (Task (Body ℓ α) α)) (hv : s.visits n = some v) (hfocus : v.focus = .awaits g next)
    (hb : s.branches[g]? = some b) (hstage : b.fan.stage = .finished outs) :
    Turns s (.visit n) (s.setVisit n (some { v with focus := reads (outcomesOf outs) next }))
  -- everybody else
  | notify (g k : Nat) (b : Branch ℓ α) (fan : Gathering (Body ℓ α) α Seat) (w : Option Seat)
    (hb : s.branches[g]? = some b) (hstep : b.fan.step? (.notify k) = some fan)
    (hw : ∀ n, w = some n ↔ b.fan.roll.parties[k]? = some (some (.wake n))) :
    Turns s (.notify g k) { s.setFan g b fan with wakes := s.wakes ++ w.toList }
  | arrive (i : Nat) (n : Seat) (t : Grove ℓ α) (hi : s.wakes[i]? = some n) (hwake : s.wake? n = some t) :
    Turns s (.arrive i) { t with wakes := t.wakes.eraseIdx i }
  | unlock (l : ℓ) : Turns s (.unlock l) (s.unlock l)
  | wake (n : Seat) (t : Grove ℓ α) (hwake : s.wake? n = some t) : Turns s (.wake n) t

variable {s t : Grove ℓ α}

theorem of_onBranch? {g : Nat} {a : Gathering.Act (Body ℓ α) α Seat} (h : s.onBranch? g a = some t) :
    ∃ b fan, s.branches[g]? = some b ∧ b.fan.step? a = some fan ∧ t = s.setFan g b fan := by
  rw [onBranch?] at h
  split at h
  · cases h
  · next b hb =>
      split at h
      · cases h
      · next fan hstep => exact ⟨b, fan, hb, hstep, (Option.some.inj h).symm⟩

theorem of_onRoot? {a : Callers.Act (Body ℓ α) α} (h : s.onRoot? a = some t) :
    ∃ root, s.root.step? a = some root ∧ t = { s with root } := by
  obtain ⟨root, hstep, rfl⟩ := Option.map_eq_some_iff.mp h
  exact ⟨root, hstep, rfl⟩

section

variable [DecidableEq ℓ]

theorem turns_of_main? (h : s.main? = some t) : Turns s .main t := by
  cases hmain : s.main with
  | made =>
      simp only [main?, hmain] at h
      obtain ⟨u, hu, rfl⟩ := Option.map_eq_some_iff.mp h
      obtain ⟨root, hstep, rfl⟩ := of_onRoot? hu
      exact .enter root hmain hstep
  | starting =>
      simp only [main?, hmain] at h
      split at h
      · cases h
      · next c hc =>
          split at h
          · next hreturned =>
              obtain rfl := Option.some.inj h
              exact .wait c hmain hc hreturned
          · cases h
  | waits w =>
      cases w with
      | looking =>
          simp only [main?, hmain] at h
          obtain rfl := Option.some.inj h
          exact .look hmain
      | parked => simp [main?, hmain] at h
      | returned =>
          simp only [main?, hmain] at h
          obtain ⟨u, hu, rfl⟩ := Option.map_eq_some_iff.mp h
          obtain ⟨root, hstep, rfl⟩ := of_onRoot? hu
          exact .fetch root hmain hstep
  | takes j =>
      simp only [main?, hmain] at h
      split at h
      · next t n hc =>
          obtain rfl := Option.some.inj h
          exact .gain j n t hmain hc
      · next n hc =>
          obtain rfl := Option.some.inj h
          exact .miss j n hmain hc
      · cases h
  | returned outcome => simp [main?, hmain] at h
  | unreachable => simp [main?, hmain] at h

theorem turns_of_call? {n : Seat} {j : Nat} {spurious : Bool} (h : s.call? n j spurious = some t) :
    Turns s (.call n j spurious) t := by
  rw [call?] at h
  split at h
  · cases h
  · next f hf =>
      split at h
      · cases h
      · next c hc =>
          obtain ⟨place, m⟩ := c
          split at h
          · next hplace =>
              obtain rfl : place = .resuming .polling := hplace
              obtain ⟨u, hgo, rfl⟩ := Option.map_eq_some_iff.mp h
              exact .begin n j m spurious f u hf hc hgo
          · next lent hplace =>
              obtain rfl : place = .inPoll lent := hplace
              split at h
              · next hnone =>
                  refine .move n j spurious f _ t hf hc nofun (fun l hl => ?_) h
                  cases hl
                  exact hnone
              · next b hb =>
                  split at h
                  · cases h
                  · next r hr =>
                      obtain ⟨v, hv, hresult⟩ := Option.bind_eq_some_iff.mp hr
                      obtain ⟨u, hgo, rfl⟩ := Option.map_eq_some_iff.mp h
                      exact .back n j m spurious f lent b v r u hf hc hb hv hresult hgo
          · next hpolling hpoll =>
              exact .move n j spurious f _ t hf hc hpolling (fun lent hl => absurd hl (hpoll lent)) h

theorem turns_of_awaiting {n : Seat} {v : Visit ℓ α} {g : Nat} {next : List (Outcome α) → Program ℓ α}
    (hv : s.visits n = some v) (hfocus : v.focus = .awaits g next) (h : s.visit? n v = some t) :
    Turns s (.visit n) t := by
  simp only [visit?, hfocus] at h
  split at h
  · cases h
  · next b hb =>
      split at h
      · next hstage =>
          obtain rfl := Option.some.inj h
          exact .rest n v g next b hv hfocus hb hstage
      · next outs hstage =>
          obtain rfl := Option.some.inj h
          exact .read n v g next b outs hv hfocus hb hstage
      · next hresting hfinished =>
          obtain ⟨b', fan, hb', hstep, rfl⟩ := of_onBranch? h
          obtain rfl := Option.some.inj (hb.symm.trans hb')
          exact .advance n v g next b fan hv hfocus hb hresting hstep

theorem turns_of_visit? {n : Seat} {v : Visit ℓ α} (hv : s.visits n = some v)
    (h : s.visit? n v = some t) : Turns s (.visit n) t := by
  have hturn : v.turn?.map (fun w => s.setVisit n (some w)) = some t → Turns s (.visit n) t := by
    intro h
    obtain ⟨w, hw, rfl⟩ := Option.map_eq_some_iff.mp h
    exact .turn n v w hv hw
  cases hfocus : v.focus with
  | body b =>
      simp only [visit?, hfocus] at h
      split at h
      · next l next hleaf =>
          cases hleaf
          split at h
          · next hopen =>
              obtain rfl := Option.some.inj h
              exact .pass n v l next hv hfocus hopen
          · next hshut =>
              obtain rfl := Option.some.inj h
              exact .park n v l next hv hfocus (Bool.eq_false_iff.mpr hshut)
      · next k hk inputs next hall =>
          cases hall
          obtain rfl := Option.some.inj h
          exact .gather n v k hk inputs next hv hfocus
      · next hasks => cases hasks
      · next hawaits => cases hawaits
      · exact hturn h
  | asks g next =>
      simp only [visit?, hfocus] at h
      obtain ⟨u, hu, rfl⟩ := Option.map_eq_some_iff.mp h
      obtain ⟨b, fan, hb, hstep, rfl⟩ := of_onBranch? hu
      exact .ask n v g next b fan hv hfocus hb hstep
  | awaits g next => exact turns_of_awaiting hv hfocus h
  | suspended b =>
      simp only [visit?, hfocus] at h
      exact hturn h
  | ended outcome =>
      simp only [visit?, hfocus] at h
      exact hturn h
  | panicked p =>
      simp only [visit?, hfocus] at h
      exact hturn h

/-- **What an act can do.** -/
theorem turns_of_step? {a : Act ℓ} (h : s.step? a = some t) : Turns s a t := by
  cases a with
  | main => exact turns_of_main? h
  | call n j spurious => exact turns_of_call? h
  | visit n =>
      simp only [step?] at h
      split at h
      · cases h
      · next v hv => exact turns_of_visit? hv h
  | notify g k =>
      simp only [step?, notify?] at h
      split at h
      · cases h
      · next b hb =>
          split at h
          · next w hw =>
              obtain ⟨u, hu, rfl⟩ := Option.map_eq_some_iff.mp h
              obtain ⟨b', fan, hb', hstep, rfl⟩ := of_onBranch? hu
              obtain rfl := Option.some.inj (hb.symm.trans hb')
              exact .notify g k b fan (some w) hb hstep fun n => by simp [hw]
          · next hquiet =>
              obtain ⟨b', fan, hb', hstep, rfl⟩ := of_onBranch? h
              obtain rfl := Option.some.inj (hb.symm.trans hb')
              have hnone := Turns.notify g k b fan none hb hstep fun n => by
                simpa using fun hw => hquiet n hw
              rwa [Option.toList_none, List.append_nil] at hnone
  | arrive i =>
      simp only [step?] at h
      split at h
      · cases h
      · next n hi =>
          obtain ⟨u, hwake, rfl⟩ := Option.map_eq_some_iff.mp h
          exact .arrive i n u hi hwake
  | unlock l =>
      obtain rfl := Option.some.inj h
      exact .unlock l
  | wake n => exact .wake n t h

end

end Grove

end TaskDispatch
