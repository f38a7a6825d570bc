/-
A stop reaches every caller of the event loop.

The stop that raises the flag reads the number of active callers in the same step,
so at that moment it owes at least as many wake-ups as there are callers that have
not decided to leave.  From then on nobody enters, and whatever uses up a wake-up
makes a caller leave: the wake-up goes from the debt to the port, from the port to
a caller that is about to look at the flag, and with that caller it is gone.  A
caller that leaves for another reason leaves its wake-up behind.  `Told` counts the
wake-ups in these three places, and of the debts only that of the stop which raised
the flag, so that stops and resets made before do not matter.

When that stop has returned its debt is paid.  If the port is then empty, every
caller that has not decided holds a wake-up, and a caller that waits holds none.
-/
import Mathlib.Algebra.Order.BigOperators.Group.List
import Mathlib.Algebra.Order.Ring.Nat
import TaskDispatch.Proofs.Service.Crew

namespace TaskDispatch

variable {ω : Type}

/-! ### Where a wake-up goes -/

/-- While the flag is up, a caller that gives up a wake-up has decided to leave. -/
theorem EventLoop.Moves.wakeUps {m : EventMode} {pc pc' : EventLoop ω} {r r' : Roster}
    {p p' : Port ω} (h : Moves m r p pc r' p' pc') (hs : r.stopRequested = true) :
    pc'.isUndecided.toNat + p.wakeUps + pc.isRechecking.toNat
      ≤ pc.isUndecided.toNat + p'.wakeUps + pc'.isRechecking.toNat := by
  cases h with
  | entered hdown => simp [hdown] at hs
  | stale n hdown => simp [hdown] at hs
  | wakeUp n _ hnext =>
      have := Port.wakeUps_of_next? hnext
      simp only [isUndecided, isRechecking, Event.isWakeUp, Bool.toNat_true, Bool.toNat_false] at *
      omega
  | resumption n w _ hnext =>
      have := Port.wakeUps_of_next? hnext
      simp only [isUndecided, isRechecking, Event.isWakeUp, Bool.toNat_true, Bool.toNat_false] at *
      omega
  | told n _ => simp [isUndecided, isRechecking, Nat.add_comm]
  | _ => simp [isUndecided, isRechecking]

/-- A caller that has not decided to leave is inside. -/
theorem EventLoop.isInside_of_isUndecided {pc : EventLoop ω} (h : pc.isUndecided = true) :
    pc.isInside = true := by
  cases pc with
  | take n | recheck n | run w n => rfl
  | enter | leave n | returned n => cases h

namespace Stop

variable {pc pc' : Stop} {r r' : Roster} {p p' : Port ω}

/-- While the flag is up, a stop leaves the roster alone and pays its debt into the port. -/
theorem step_of_stopRequested (h : pc.step r p = (r', p', pc')) (hs : r.stopRequested = true) :
    r' = r ∧ p.wakeUps ≤ p'.wakeUps ∧ p'.wakeUps + pc'.owed = p.wakeUps + pc.owed := by
  obtain ⟨requested, active⟩ := r
  cases hs
  cases pc with
  | posting left =>
      cases left with
      | zero =>
          cases h
          exact ⟨rfl, Nat.le_refl _, rfl⟩
      | succ left =>
          cases h
          have hpost := Port.wakeUps_post p .wakeUp
          simp only [Event.isWakeUp, Bool.toNat_true] at hpost
          exact ⟨rfl, by omega, by simp only [owed]; omega⟩
  | raise =>
      cases h
      exact ⟨rfl, Nat.le_refl _, rfl⟩
  | returned =>
      cases h
      exact ⟨rfl, Nat.le_refl _, rfl⟩

/-- A stop that finds the flag down either raises it and owes a wake-up to each active caller, or had
raised it before and leaves the roster alone. -/
theorem step_of_not_stopRequested (h : pc.step r p = (r', p', pc')) (hs : r.stopRequested = false) :
    (pc = raise ∧ r' = { r with stopRequested := true } ∧ p' = p ∧ pc' = posting r.active) ∨
      (pc ≠ raise ∧ r' = r) := by
  obtain ⟨requested, active⟩ := r
  cases hs
  cases pc with
  | raise =>
      cases h
      exact Or.inl ⟨rfl, rfl, rfl, rfl⟩
  | posting left =>
      cases left <;> cases h <;> exact Or.inr ⟨by simp, rfl⟩
  | returned =>
      cases h
      exact Or.inr ⟨by simp, rfl⟩

end Stop

namespace Crew

/-- What a crew keeps: the roster counts who is inside, and while the flag is up there is a wake-up for
each caller that has not decided to leave. -/
structure Told (s : Crew ω) : Prop where
  active : s.roster.active = s.countAt EventLoop.isInside
  raised : s.roster.stopRequested = true →
    ∃ j pc, s.raiser = some j ∧ s.stops[j]? = some pc ∧
      s.countAt EventLoop.isUndecided
        ≤ s.port.wakeUps + pc.owed + s.countAt EventLoop.isRechecking

/-- Moving one caller changes a count by that caller alone. -/
theorem countAt_set {s : Crew ω} {i : Nat} {c : Worker ω} (hc : s.workers[i]? = some c)
    (place : EventLoop ω → Bool) (c' : Worker ω) (roster : Roster) (port : Port ω) :
    ({ s with roster, port, workers := s.workers.set i c' } : Crew ω).countAt place
      + (place c.pc).toNat = s.countAt place + (place c'.pc).toNat :=
  countP_set_add (fun d : Worker ω => place d.pc) _ hc

/-- A caller that stands at a place is counted there. -/
theorem toNat_le_countAt {s : Crew ω} {c : Worker ω} (hc : c ∈ s.workers)
    (place : EventLoop ω → Bool) : (place c.pc).toNat ≤ s.countAt place := by
  cases hp : place c.pc with
  | false => exact Nat.zero_le _
  | true => exact List.countP_pos_iff.mpr ⟨c, hc, hp⟩

/-- Callers that have not decided to leave are inside. -/
theorem countAt_isUndecided_le (s : Crew ω) :
    s.countAt EventLoop.isUndecided ≤ s.countAt EventLoop.isInside :=
  List.countP_mono_left fun _ _ h => EventLoop.isInside_of_isUndecided h

/-- Moving a caller keeps the crew told, if the move keeps the two balances. -/
theorem Told.set {s : Crew ω} (ok : Told s) {i : Nat} {c : Worker ω} (c' : Worker ω) {r : Roster}
    {p : Port ω} (hc : s.workers[i]? = some c) (hflag : r.stopRequested = s.roster.stopRequested)
    (hactive : r.active + c.pc.isInside.toNat = s.roster.active + c'.pc.isInside.toNat)
    (hwake : s.roster.stopRequested = true →
      c'.pc.isUndecided.toNat + s.port.wakeUps + c.pc.isRechecking.toNat
        ≤ c.pc.isUndecided.toNat + p.wakeUps + c'.pc.isRechecking.toNat) :
    Told { s with roster := r, port := p, workers := s.workers.set i c' } := by
  refine ⟨?_, ?_⟩
  · have hin := countAt_set hc EventLoop.isInside c' r p
    have := ok.active
    show r.active = _
    omega
  · intro hup
    have hs : s.roster.stopRequested = true := by rw [← hflag]; exact hup
    obtain ⟨j, pc, hj, hpc, hle⟩ := ok.raised hs
    refine ⟨j, pc, hj, hpc, ?_⟩
    have hund := countAt_set hc EventLoop.isUndecided c' r p
    have hre := countAt_set hc EventLoop.isRechecking c' r p
    have := hwake hs
    show _ ≤ p.wakeUps + pc.owed + _
    omega

/-- A step of the event loop keeps the crew told. -/
theorem Told.work {s : Crew ω} (ok : Told s) {i : Nat} {c : Worker ω} {r : Roster} {p : Port ω}
    {pc : EventLoop ω} (hc : s.workers[i]? = some c)
    (hstep : c.pc.step? c.mode s.roster s.port = some (r, p, pc)) :
    Told { s with roster := r, port := p, workers := s.workers.set i { c with pc } } := by
  have hmoves := EventLoop.moves_of_step? hstep
  have hin : c.pc.isInside = true → 0 < s.roster.active := by
    intro h
    have := toNat_le_countAt (List.mem_of_getElem? hc) EventLoop.isInside
    rw [h, Bool.toNat_true, ← ok.active] at this
    exact this
  obtain ⟨hflag, hactive⟩ := hmoves.roster hin
  exact ok.set _ hc hflag hactive fun hs => hmoves.wakeUps hs

/-- A resumption that has run keeps the crew told. -/
theorem Told.ran {s : Crew ω} (ok : Told s) {i : Nat} {c : Worker ω}
    (hc : s.workers[i]? = some c) :
    Told { s with workers := s.workers.set i { c with pc := c.pc.afterRun } } := by
  refine ok.set { c with pc := c.pc.afterRun } hc rfl ?_ ?_
  · cases hpc : c.pc <;> simp [EventLoop.afterRun, EventLoop.isInside]
  · intro _
    cases hpc : c.pc <;>
      simp [EventLoop.afterRun, EventLoop.isUndecided, EventLoop.isRechecking]

/-- A resumption that panics takes its caller out of the event loop, which keeps the crew told. -/
theorem Told.panicked {s : Crew ω} (ok : Told s) {i n : Nat} {mode : EventMode} {w : ω}
    (hc : s.workers[i]? = some ⟨mode, .run w n⟩) :
    Told { s with roster := s.roster.leave, workers := s.workers.set i ⟨mode, .returned n⟩ } := by
  have hin := toNat_le_countAt (List.mem_of_getElem? hc) EventLoop.isInside
  rw [← ok.active] at hin
  refine ok.set ⟨mode, .returned n⟩ hc rfl ?_ ?_
  · simp only [EventLoop.isInside, Roster.leave, Bool.toNat_true, Bool.toNat_false] at *
    omega
  · intro _
    simp only [EventLoop.isUndecided, EventLoop.isRechecking, Bool.toNat_true, Bool.toNat_false]
    omega

/-- A step of a stop keeps the crew told: it raises the flag, pays into the port, or does nothing. -/
theorem Told.halt {s : Crew ω} (ok : Told s) {j : Nat} {pc pc' : Stop} {r : Roster} {p : Port ω}
    (hpc : s.stops[j]? = some pc) (hmove : pc.step s.roster s.port = (r, p, pc')) :
    Told { s with
      roster := r, port := p, stops := s.stops.set j pc'
      raiser := if pc == .raise && !s.roster.stopRequested then some j else s.raiser } := by
  obtain ⟨hj, -⟩ := List.getElem?_eq_some_iff.mp hpc
  cases hs : s.roster.stopRequested with
  | true =>
      obtain ⟨rfl, hmore, hdebt⟩ := Stop.step_of_stopRequested hmove hs
      refine ⟨ok.active, fun _ => ?_⟩
      obtain ⟨k, owing, hk, howing, hle⟩ := ok.raised hs
      by_cases hjk : j = k
      · -- The stop that raised the flag: what it pays is in the port.
        subst hjk
        rw [hpc] at howing
        cases howing
        refine ⟨j, pc', by simpa using hk, List.getElem?_set_self hj, ?_⟩
        show s.countAt _ ≤ p.wakeUps + pc'.owed + s.countAt _
        omega
      · refine ⟨k, owing, by simpa using hk, ?_, ?_⟩
        · rw [List.getElem?_set_ne hjk]
          exact howing
        · show s.countAt _ ≤ p.wakeUps + owing.owed + s.countAt _
          omega
  | false =>
      rcases Stop.step_of_not_stopRequested hmove hs with ⟨rfl, rfl, rfl, rfl⟩ | ⟨hne, rfl⟩
      · refine ⟨ok.active, fun _ => ⟨j, _, by simp, List.getElem?_set_self hj, ?_⟩⟩
        have := countAt_isUndecided_le s
        have := ok.active
        show s.countAt _ ≤ s.port.wakeUps + s.roster.active + s.countAt _
        omega
      · refine ⟨ok.active, fun hup => ?_⟩
        rw [hs] at hup
        cases hup

/-- Every act keeps the crew told. -/
theorem Told.step {s s' : Crew ω} {a : Act ω} (ok : Told s) (h : s.step? a = some s') : Told s' := by
  cases a with
  | join mode =>
      cases h
      have hcount : ∀ place : EventLoop ω → Bool, place .enter = false →
          ({ s with workers := s.workers ++ [{ mode }] } : Crew ω).countAt place
            = s.countAt place := by
        intro place hplace
        simp [countAt, hplace]
      refine ⟨?_, ?_⟩
      · rw [hcount _ rfl]
        exact ok.active
      · rw [hcount _ rfl, hcount _ rfl]
        exact ok.raised
  | post w =>
      cases h
      refine ⟨ok.active, ?_⟩
      rw [Port.wakeUps_post]
      exact ok.raised
  | stop =>
      cases h
      refine ⟨ok.active, ?_⟩
      intro hs
      obtain ⟨j, pc, hj, hpc, hle⟩ := ok.raised hs
      obtain ⟨hlt, -⟩ := List.getElem?_eq_some_iff.mp hpc
      exact ⟨j, pc, hj, by rw [List.getElem?_append_left hlt]; exact hpc, hle⟩
  | reset =>
      cases h
      exact ⟨ok.active, fun hup => by cases hup⟩
  | work i =>
      simp only [step?] at h
      cases hc : s.workers[i]? with
      | none => simp [hc] at h
      | some c =>
          cases hstep : c.pc.step? c.mode s.roster s.port with
          | none => simp [hc, hstep] at h
          | some next =>
              obtain ⟨r, p, pc⟩ := next
              simp only [hc, hstep, Option.some.injEq] at h
              subst h
              exact ok.work hc hstep
  | ran i =>
      simp only [step?] at h
      cases hc : s.workers[i]? with
      | none => simp [hc] at h
      | some c =>
          simp only [hc, Option.some.injEq] at h
          subst h
          exact ok.ran hc
  | panicked i =>
      simp only [step?] at h
      split at h
      · rename_i mode w n hc
        cases h
        exact ok.panicked hc
      · cases h
  | halt j =>
      simp only [step?] at h
      cases hpc : s.stops[j]? with
      | none => simp [hpc] at h
      | some pc =>
          simp only [hpc, Option.some.injEq] at h
          subst h
          exact ok.halt hpc rfl

/-- Every reachable crew is told. -/
theorem told_of_leads {s : Crew ω} (h : Leads step? {} s) : Told s :=
  h.keeps (fun _ _ _ => Told.step) ⟨rfl, fun hup => by cases hup⟩

/-- A caller of the event loop that waits at an empty port. -/
def Parked (s : Crew ω) (c : Worker ω) : Prop := c.pc.step? c.mode s.roster s.port = none

/--
**A stop strands no caller of the event loop.**  While the flag is up there are at least as many
wake-ups, in the port, still to be posted, or taken by a caller that has not looked at the flag since, as
there are callers that have not decided to leave.  Once the stop that raised the flag has returned,
nobody waits at an empty port.
-/
theorem stop_strands_nobody {s : Crew ω} (h : Leads step? {} s)
    (hs : s.roster.stopRequested = true) :
    s.countAt EventLoop.isUndecided
        ≤ s.port.wakeUps + (s.stops.map Stop.owed).sum + s.countAt EventLoop.isRechecking ∧
      ∃ j, s.raiser = some j ∧
        (s.stops[j]? = some .returned → ∀ c ∈ s.workers, ¬ s.Parked c) := by
  obtain ⟨j, pc, hj, hpc, hle⟩ := (told_of_leads h).raised hs
  refine ⟨?_, j, hj, ?_⟩
  · have howed : pc.owed ≤ (s.stops.map Stop.owed).sum :=
      List.le_sum_of_mem (List.mem_map_of_mem (List.mem_of_getElem? hpc))
    omega
  · intro hreturned c hc hparked
    rw [hpc] at hreturned
    cases hreturned
    obtain ⟨n, hplace, hempty⟩ := EventLoop.waits_of_step?_eq_none hparked
    have hnone : s.port.wakeUps = 0 := by
      cases hport : s.port with
      | mk queue =>
          cases queue with
          | nil => rfl
          | cons e rest => rw [hport] at hempty; cases hempty
    -- The one that waits has not decided, and it is not about to look at the flag.
    have hfewer : s.countAt EventLoop.isRechecking < s.countAt EventLoop.isUndecided := by
      refine countP_lt_countP ?_ hc (by simp [hplace, EventLoop.isRechecking])
        (by simp [hplace, EventLoop.isUndecided])
      intro d hd
      cases hpc : d.pc <;> simp_all [EventLoop.isRechecking, EventLoop.isUndecided]
    simp only [hnone, Stop.owed] at hle
    omega

/-- A caller that waits for events when a stop comes finds the wake-up of that stop in the port. -/
theorem stop_strands_nobody_waiting :
    let s : Crew Nat := ⟨⟨true, 1⟩, ⟨[.wakeUp]⟩, [⟨⟨true, none⟩, .take 0⟩], [.returned], some 0⟩
    Leads step? {} s ∧ s.roster.stopRequested = true ∧
      s.countAt EventLoop.isUndecided
          ≤ s.port.wakeUps + (s.stops.map Stop.owed).sum + s.countAt EventLoop.isRechecking ∧
        ∃ j, s.raiser = some j ∧
          (s.stops[j]? = some .returned → ∀ c ∈ s.workers, ¬ s.Parked c) := by
  intro s
  have h : Leads step? {} s :=
    .of_after? [.join ⟨true, none⟩, .work 0, .stop, .halt 0, .halt 0, .halt 0] rfl
  exact ⟨h, rfl, stop_strands_nobody h rfl⟩

end Crew

end TaskDispatch
