/-
What the timer thread can do.

`Keeper.Moves` says once what one step of the thread's loop can do, when the thread has
no timer to serve; the modules that follow are case analyses of it.
-/
import TaskDispatch.Timer.Turn

namespace TaskDispatch.Timer

variable {α : Type}

namespace Keeper

/-- What one step of the timer thread can do, when it has no timer to serve. -/
inductive Moves (isCancelled : α → Bool) (now : Nat) (room : Bool) (q : Queue α) (s : Shared α) :
    Pc α → Shared α → Keeper α → Prop
  | goesOn (h : s.shutdownRequested = false) : Moves isCancelled now room q s .shutdown s ⟨q, .sweep⟩
  | closes (h : s.shutdownRequested = true) :
    Moves isCancelled now room q s .shutdown s ⟨q, .abandonQueue⟩
  -- the sweep
  | skip (h : s.sweepRequested = false ∨ q.isEmpty = true) :
    Moves isCancelled now room q s .sweep { s with sweepRequested := false } ⟨q, .clock⟩
  | sweep (h : s.sweepRequested = true) (hq : q.isEmpty = false) :
    Moves isCancelled now room q s .sweep { s with sweepRequested := false }
      ⟨{ q with heap := [] }, .siftHeap [] [] q.heap⟩
  | heapGoes (kept gone rest : List (Entry α)) (e : Entry α) (h : isCancelled e.item = true) :
    Moves isCancelled now room q s (.siftHeap kept gone (e :: rest)) s
      ⟨q, .siftHeap kept (gone ++ [e]) rest⟩
  | heapStays (kept gone rest : List (Entry α)) (e : Entry α) (h : isCancelled e.item = false) :
    Moves isCancelled now room q s (.siftHeap kept gone (e :: rest)) s
      ⟨q, .siftHeap (kept ++ [e]) gone rest⟩
  | heapSifted (kept gone : List (Entry α)) :
    Moves isCancelled now room q s (.siftHeap kept gone []) s
      ⟨{ q with heap := kept, overflow := [] }, .firing (gone.map (·.item)) (.siftOverflow q.overflow)⟩
  | listGoes (rest : List (Entry α)) (e : Entry α) (h : isCancelled e.item = true) :
    Moves isCancelled now room q s (.siftOverflow (e :: rest)) s
      ⟨{ q with overflowLen := q.overflowLen - 1 }, .firing [e.item] (.siftOverflow rest)⟩
  | listStays (rest : List (Entry α)) (e : Entry α) (h : isCancelled e.item = false) :
    Moves isCancelled now room q s (.siftOverflow (e :: rest)) s
      ⟨{ q with overflow := q.overflow ++ [e] }, .siftOverflow rest⟩
  | listSifted : Moves isCancelled now room q s (.siftOverflow []) s ⟨q, .clock⟩
  -- the inbox and what is due
  | clock : Moves isCancelled now room q s .clock s ⟨q, .detach now⟩
  | detach (t : Nat) :
    Moves isCancelled now room q s (.detach t) { s with inbox := s.inbox.detach.2 }
      ⟨q, .sort t s.inbox.head⟩
  | sorted (t : Nat) (chain : Option Nat) (h : s.inbox.next? chain = none) :
    Moves isCancelled now room q s (.sort t chain) s ⟨q, .clockAgain⟩
  | fires (t : Nat) (chain next : Option Nat) (e : Entry α) (inbox : Inbox (Entry α))
    (h : s.inbox.next? chain = some (e, next, inbox)) (he : e.due ≤ t ∨ isCancelled e.item = true) :
    Moves isCancelled now room q s (.sort t chain) { s with inbox }
      ⟨q, .firing [e.item] (.sort t next)⟩
  | enqueues (t : Nat) (chain next : Option Nat) (e : Entry α) (inbox : Inbox (Entry α))
    (h : s.inbox.next? chain = some (e, next, inbox)) (hdue : t < e.due)
    (he : isCancelled e.item = false) :
    Moves isCancelled now room q s (.sort t chain) { s with inbox }
      ⟨q.enqueue room e, .sort t next⟩
  | clockAgain : Moves isCancelled now room q s .clockAgain s ⟨q, .dequeue now⟩
  | dequeues (t : Nat) (handed : Handed α) (q' : Queue α) (h : q.dequeue? t = some (handed, q')) :
    Moves isCancelled now room q s (.dequeue t) s ⟨q', .firing [handed.entry.item] (.dequeue t)⟩
  | dequeued (t : Nat) (h : q.dequeue? t = none) :
    Moves isCancelled now room q s (.dequeue t) s ⟨q, .waiting .looking⟩
  -- the wait
  | release (h : s.signal.signalled = true) :
    Moves isCancelled now room q s (.waiting .looking) { s with signal := ⟨false⟩ }
      ⟨q, .waiting .returned⟩
  | park (h : s.signal.signalled = false) :
    Moves isCancelled now room q s (.waiting .looking) s ⟨q, .waiting .parked⟩
  | notified (h : s.signal.signalled = true) :
    Moves isCancelled now room q s (.waiting .parked) s ⟨q, .waiting .looking⟩
  | expires (h : s.signal.signalled = false) (due : Nat) (hdue : q.earliest? = some due)
    (hnow : due ≤ now) :
    Moves isCancelled now room q s (.waiting .parked) s ⟨q, .waiting .expired⟩
  | expired :
    Moves isCancelled now room q s (.waiting .expired) { s with signal := ⟨false⟩ }
      ⟨q, .waiting .returned⟩
  | turn : Moves isCancelled now room q s (.waiting .returned) s ⟨q, .shutdown⟩
  | fired (after : Pc α) : Moves isCancelled now room q s (.firing [] after) s ⟨q, after⟩
  -- the end
  | abandonQueue :
    Moves isCancelled now room q s .abandonQueue s
      ⟨{}, .dropping (q.drain.1.map (·.entry.item)) .abandonIntake⟩
  | abandonIntake :
    Moves isCancelled now room q s .abandonIntake { s with inbox := s.inbox.detach.2 }
      ⟨q, .abandonChain s.inbox.head⟩
  | abandons (chain next : Option Nat) (e : Entry α) (inbox : Inbox (Entry α))
    (h : s.inbox.next? chain = some (e, next, inbox)) :
    Moves isCancelled now room q s (.abandonChain chain) { s with inbox }
      ⟨q, .dropping [e.item] (.abandonChain next)⟩
  | exit (chain : Option Nat) (h : s.inbox.next? chain = none) :
    Moves isCancelled now room q s (.abandonChain chain) s ⟨q, .exited⟩
  | dropped (after : Pc α) : Moves isCancelled now room q s (.dropping [] after) s ⟨q, after⟩
  | exited : Moves isCancelled now room q s .exited s ⟨q, .exited⟩

variable {isCancelled : α → Bool} {now : Nat} {room : Bool} {q : Queue α} {s s' : Shared α}
  {k' : Keeper α}

/-- The swap of the sweep flag begins a sweep, unless there is nothing to sweep. -/
theorem moves_of_sweep (h : Keeper.step? isCancelled now room ⟨q, .sweep⟩ s = some (s', k')) :
    Moves isCancelled now room q s .sweep s' k' := by
  simp only [step?] at h
  by_cases hsweep : (s.sweepRequested && !q.isEmpty) = true
  · rw [if_pos hsweep] at h
    cases h
    obtain ⟨hs, hq⟩ := Bool.and_eq_true_iff.mp hsweep
    exact .sweep hs (by simpa using hq)
  · rw [if_neg hsweep] at h
    cases h
    refine .skip ?_
    cases hs : s.sweepRequested with
    | false => exact Or.inl rfl
    | true =>
        rw [hs] at hsweep
        exact Or.inr (by simpa using hsweep)

/-- A node of the detached chain is fired, or put into the queue. -/
theorem moves_of_sort {t : Nat} {chain : Option Nat}
    (h : Keeper.step? isCancelled now room ⟨q, .sort t chain⟩ s = some (s', k')) :
    Moves isCancelled now room q s (.sort t chain) s' k' := by
  simp only [step?] at h
  cases hnext : s.inbox.next? chain with
  | none =>
      rw [hnext] at h
      cases h
      exact .sorted t chain hnext
  | some taken =>
      obtain ⟨e, next, inbox⟩ := taken
      simp only [hnext] at h
      by_cases hfire : (decide (e.due ≤ t) || isCancelled e.item) = true
      · rw [if_pos hfire] at h
        cases h
        exact .fires t chain next e inbox hnext (by simpa using hfire)
      · rw [if_neg hfire] at h
        cases h
        rw [Bool.not_eq_true, Bool.or_eq_false_iff, decide_eq_false_iff_not] at hfire
        exact .enqueues t chain next e inbox hnext (Nat.lt_of_not_le hfire.1) hfire.2

/-- A parked thread moves when it is signalled, or else when its deadline has passed. -/
theorem moves_of_parked (h : Keeper.step? isCancelled now room ⟨q, .waiting .parked⟩ s = some (s', k')) :
    Moves isCancelled now room q s (.waiting .parked) s' k' := by
  cases hs : s.signal.signalled with
  | true =>
      simp only [step?, hs] at h
      cases h
      exact .notified hs
  | false =>
      simp only [step?, hs, Signal.Waiter.clock, deadline] at h
      cases hdue : q.earliest? with
      | none => simp [hdue] at h
      | some due =>
          by_cases hnow : due ≤ now
          · simp only [hdue, hnow] at h
            cases h
            exact .expires hs due hdue hnow
          · simp [hdue, hnow] at h

/-- **What a step of the timer thread can do.** -/
theorem moves_of_step? {k : Keeper α} (hserved : k.served? = none)
    (h : k.step? isCancelled now room s = some (s', k')) :
    Moves isCancelled now room k.queue s k.pc s' k' := by
  obtain ⟨q, pc⟩ := k
  cases pc with
  | shutdown =>
      cases hs : s.shutdownRequested with
      | true =>
          simp only [step?, hs] at h
          cases h
          exact .closes hs
      | false =>
          simp only [step?, hs] at h
          cases h
          exact .goesOn hs
  | sweep => exact moves_of_sweep h
  | siftHeap kept gone rest =>
      cases rest with
      | nil =>
          cases h
          exact .heapSifted kept gone
      | cons e rest =>
          cases he : isCancelled e.item with
          | true =>
              simp only [step?, he] at h
              cases h
              exact .heapGoes kept gone rest e he
          | false =>
              simp only [step?, he] at h
              cases h
              exact .heapStays kept gone rest e he
  | siftOverflow rest =>
      cases rest with
      | nil =>
          cases h
          exact .listSifted
      | cons e rest =>
          cases he : isCancelled e.item with
          | true =>
              simp only [step?, he] at h
              cases h
              exact .listGoes rest e he
          | false =>
              simp only [step?, he] at h
              cases h
              exact .listStays rest e he
  | clock =>
      cases h
      exact .clock
  | detach t =>
      cases h
      exact .detach t
  | sort t chain => exact moves_of_sort h
  | clockAgain =>
      cases h
      exact .clockAgain
  | dequeue t =>
      simp only [step?] at h
      cases hdequeue : q.dequeue? t with
      | none =>
          rw [hdequeue] at h
          cases h
          exact .dequeued t hdequeue
      | some taken =>
          obtain ⟨handed, q'⟩ := taken
          rw [hdequeue] at h
          cases h
          exact .dequeues t handed q' hdequeue
  | waiting w =>
      cases w with
      | looking =>
          cases hs : s.signal.signalled with
          | true =>
              simp only [step?, Signal.Waiter.look, hs] at h
              cases h
              exact .release hs
          | false =>
              simp only [step?, Signal.Waiter.look, hs] at h
              cases h
              exact .park hs
      | parked => exact moves_of_parked h
      | expired =>
          cases h
          exact .expired
      | returned =>
          cases h
          exact .turn
  | firing timers after =>
      cases timers with
      | nil =>
          cases h
          exact .fired after
      | cons a rest => cases hserved
  | abandonQueue =>
      cases h
      exact .abandonQueue
  | abandonIntake =>
      cases h
      exact .abandonIntake
  | abandonChain chain =>
      simp only [step?] at h
      cases hnext : s.inbox.next? chain with
      | none =>
          rw [hnext] at h
          cases h
          exact .exit chain hnext
      | some taken =>
          obtain ⟨e, next, inbox⟩ := taken
          rw [hnext] at h
          cases h
          exact .abandons chain next e inbox hnext
  | dropping timers after =>
      cases timers with
      | nil =>
          cases h
          exact .dropped after
      | cons a rest => cases hserved
  | exited =>
      cases h
      exact .exited

end Keeper

end TaskDispatch.Timer
