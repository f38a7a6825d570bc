/-
The timer thread and all who call it.

Any number of callers arm timers, ask for a sweep or shut the thread down, sources are
asked to cancel at any time, and the thread goes round its loop; all of them take turns
step by step.  What the clock shows, whether the heap has room and whether an exchange
fails for no reason may differ from step to step.  A timer is named by the number of the
caller that arms it.

`readings` are what the clock has shown in this turn, the latest first.  `fired` and
`abandoned` write down what the thread has done with its timers.
-/
import TaskDispatch.Proofs.Interleaving
import TaskDispatch.Proofs.Timer.Order

namespace TaskDispatch.Timer

/-- What a caller wants of the timer thread. -/
inductive Call where
  /-- To arm a timer, due then, whose wait is cancelled with this source. -/
  | arm (due : Nat) (source : Option Nat)
  | sweep
  | shutdown

/-- A caller of the timer thread. -/
structure Client where
  call : Call
  place : Caller Nat

/-- The caller with number `j` before its first step. -/
def Call.client (call : Call) (j : Nat) : Client where
  call
  place :=
    match call with
    | arm due _ => .arm (.place ⟨due, j⟩)
    | sweep => .sweep
    | shutdown => .shutdown

/-- Whether the wait that the caller arms a timer for was asked to cancel, when these sources were. -/
def Client.isCancelled (c : Client) (cancelled : List Nat) : Bool :=
  match c.call with
  | .arm _ (some k) => cancelled.contains k
  | _ => false

/-- The timer thread, what it shares with its callers, and these. -/
structure Loop where
  shared : Shared Nat := {}
  keeper : Keeper Nat := {}
  clients : List Client := []
  /-- The sources that were asked to cancel. -/
  cancelled : List Nat := []
  readings : List Nat := []
  fired : List Nat := []
  abandoned : List Nat := []

namespace Loop

/-- Who moves. -/
inductive Act where
  /-- Somebody calls the timer thread. -/
  | join (call : Call)
  /-- A source is asked to cancel. -/
  | cancel (k : Nat)
  /-- A caller takes its next step. -/
  | call (j : Nat) (spurious : Bool)
  /-- The timer thread takes its next step. -/
  | keep (now : Nat) (room : Bool)

/-- Whether the wait of this timer was asked to cancel. -/
def isCancelled (s : Loop) (i : Nat) : Bool := (s.clients[i]?).any (·.isCancelled s.cancelled)

/-- What the clock has shown in this turn after a step at this place: a turn begins with the look for
shutdown. -/
def readingsAfter (pc : Pc Nat) (now : Nat) (readings : List Nat) : List Nat :=
  match pc with
  | .shutdown => []
  | .clock | .clockAgain => now :: readings
  | _ => readings

/-- The next step of the timer thread. -/
def keep? (s : Loop) (now : Nat) (room : Bool) : Option Loop :=
  match s.keeper.served? with
  | some (i, keeper) =>
    match s.keeper.pc with
    | .firing .. => some { s with keeper, fired := s.fired ++ [i] }
    | _ => some { s with keeper, abandoned := s.abandoned ++ [i] }
  | none =>
    match s.keeper.step? s.isCancelled now room s.shared with
    | none => none
    | some (shared, keeper) =>
      some { s with shared, keeper, readings := readingsAfter s.keeper.pc now s.readings }

/-- The loop after an act, if it can happen. -/
def step? (s : Loop) : Act → Option Loop
  | .join call => some { s with clients := s.clients ++ [call.client s.clients.length] }
  | .cancel k => some { s with cancelled := k :: s.cancelled }
  | .call j spurious =>
    match s.clients[j]? with
    | none => none
    | some c =>
      let (shared, place) := c.place.step spurious s.shared
      some { s with shared, clients := s.clients.set j { c with place } }
  | .keep now room => s.keep? now room

/-- What an act can do. -/
inductive Turns (s : Loop) : Loop → Prop
  | join (call : Call) : Turns s { s with clients := s.clients ++ [call.client s.clients.length] }
  | cancel (k : Nat) : Turns s { s with cancelled := k :: s.cancelled }
  | call (j : Nat) (c : Client) (spurious : Bool) (hc : s.clients[j]? = some c) :
    Turns s { s with
      shared := (c.place.step spurious s.shared).1
      clients := s.clients.set j { c with place := (c.place.step spurious s.shared).2 } }
  | fire (i : Nat) (rest : List Nat) (after : Pc Nat) (h : s.keeper.pc = .firing (i :: rest) after) :
    Turns s { s with
      keeper := { s.keeper with pc := .firing rest after }
      fired := s.fired ++ [i] }
  | abandon (i : Nat) (rest : List Nat) (after : Pc Nat) (h : s.keeper.pc = .dropping (i :: rest) after) :
    Turns s { s with
      keeper := { s.keeper with pc := .dropping rest after }
      abandoned := s.abandoned ++ [i] }
  | keep (now : Nat) (room : Bool) (shared : Shared Nat) (keeper : Keeper Nat)
    (h : Keeper.Moves s.isCancelled now room s.keeper.queue s.shared s.keeper.pc shared keeper) :
    Turns s { s with shared, keeper, readings := readingsAfter s.keeper.pc now s.readings }

variable {s t : Loop}

theorem turns_of_keep? {now : Nat} {room : Bool} (h : s.keep? now room = some t) : Turns s t := by
  cases hserved : s.keeper.served? with
  | none =>
      simp only [keep?, hserved] at h
      cases hstep : s.keeper.step? s.isCancelled now room s.shared with
      | none => simp [hstep] at h
      | some next =>
          obtain ⟨shared, keeper⟩ := next
          simp only [hstep, Option.some.injEq] at h
          subst h
          exact .keep now room shared keeper (Keeper.moves_of_step? hserved hstep)
  | some next =>
      obtain ⟨i, keeper⟩ := next
      have hkeeper := hserved
      rw [Keeper.served?] at hkeeper
      split at hkeeper
      · next rest after hpc =>
          cases hkeeper
          simp only [keep?, hserved, hpc, Option.some.injEq] at h
          subst h
          exact .fire i rest after hpc
      · next rest after hpc =>
          cases hkeeper
          simp only [keep?, hserved, hpc, Option.some.injEq] at h
          subst h
          exact .abandon i rest after hpc
      · cases hkeeper

/-- **What an act can do.** -/
theorem turns_of_step? {a : Act} (h : s.step? a = some t) : Turns s t := by
  cases a with
  | join call =>
      cases h
      exact .join call
  | cancel k =>
      cases h
      exact .cancel k
  | call j spurious =>
      simp only [step?] at h
      cases hc : s.clients[j]? with
      | none => simp [hc] at h
      | some c =>
          simp only [hc, Option.some.injEq] at h
          subst h
          exact .call j c spurious hc
  | keep now room => exact turns_of_keep? h

theorem sorted_of_turns (h : Sorted (s.keeper.pc.overflow s.keeper.queue)) (hturn : Turns s t) :
    Sorted (t.keeper.pc.overflow t.keeper.queue) := by
  cases hturn with
  | fire i rest after hpc =>
      rw [hpc] at h
      exact h
  | abandon i rest after hpc =>
      rw [hpc] at h
      exact h
  | keep now room shared keeper hmove => exact hmove.sorted_overflow h
  | _ => exact h

/-- The overflow list is sorted in every state that acts lead to. -/
theorem sorted_of_leads (h : Leads step? {} s) : Sorted (s.keeper.pc.overflow s.keeper.queue) := by
  refine h.keeps (P := fun u : Loop => Sorted (u.keeper.pc.overflow u.keeper.queue)) ?_ List.Pairwise.nil
  exact fun u a v hu hstep => sorted_of_turns hu (turns_of_step? hstep)

end Loop

end TaskDispatch.Timer
