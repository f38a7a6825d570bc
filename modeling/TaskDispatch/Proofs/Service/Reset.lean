/-
A reset that is refused.

A reset lowers the stop flag and reads the number of callers inside the event loop in
one step, and refuses if there are any.  By then the flag is down, and it stays down.
Nothing else has changed, so the refusal shows only later: a caller that was told to
stop takes its wake-up, finds the flag down, and takes the wake-up for a stale one.
-/
import TaskDispatch.Proofs.Service.Stop

namespace TaskDispatch

variable {ω : Type}

namespace Roster

/-- The word after a reset is as before exactly if no stop was requested. -/
theorem reset_eq_self_iff (r : Roster) : r.reset.2 = r ↔ r.stopRequested = false := by
  obtain ⟨stopRequested, active⟩ := r
  simp [reset, eq_comm]

end Roster

/-- A caller that has taken a wake-up and finds the flag down goes back for the next event. -/
theorem EventLoop.step?_recheck_of_not_stopRequested {m : EventMode} {n : Nat} {r : Roster} {p : Port ω}
    (h : r.stopRequested = false) : (recheck n : EventLoop ω).step? m r p = some (r, p, take n) := by
  simp [step?, h]

namespace Crew

/--
**A refused reset lowers the stop flag and changes nothing else.**  It says how many callers are
inside.  The crew is as before exactly if no stop was requested; and whoever has taken a wake-up, told to
stop or not, goes back for the next event.
-/
theorem refused_reset_lowers_the_flag {s : Crew ω} (h : Leads step? {} s) {c : Worker ω}
    (hc : c ∈ s.workers) (hin : c.pc.isInside = true) :
    s.roster.reset.1 = .error (.text
        s!"reset() called while {s.countAt EventLoop.isInside} thread(s) are running the event loop") ∧
      ∃ t, s.step? .reset = some t ∧
        t = { s with roster := { s.roster with stopRequested := false } } ∧
        (t = s ↔ s.roster.stopRequested = false) ∧
        ∀ i d n, t.workers[i]? = some d → d.pc = .recheck n →
          t.step? (.work i) = some { t with workers := t.workers.set i { d with pc := .take n } } := by
  have hactive := (told_of_leads h).active
  have hpos : 0 < s.countAt EventLoop.isInside := List.countP_pos_iff.mpr ⟨c, hc, hin⟩
  refine ⟨?_, _, rfl, rfl, ?_, ?_⟩
  · rw [← hactive] at hpos ⊢
    rw [Roster.reset, if_neg (Nat.ne_of_gt hpos)]
  · rw [← Roster.reset_eq_self_iff]
    constructor
    · intro heq
      exact congrArg roster heq
    · intro heq
      rw [heq]
  · intro i d n hd hplace
    have hgo := EventLoop.step?_recheck_of_not_stopRequested (m := d.mode) (n := n)
      (r := s.roster.reset.2) (p := s.port) rfl
    simp only [step?, hd, hplace, hgo]

/-- Two callers are inside when a reset is refused: one that waits for events, and one that a stop has
told to leave and that has taken its wake-up. -/
theorem refused_reset_lowers_the_flag_rechecking :
    let s : Crew Nat := ⟨⟨true, 2⟩, ⟨[.wakeUp]⟩, [⟨⟨true, none⟩, .take 0⟩, ⟨⟨true, none⟩, .recheck 0⟩],
      [.returned], some 0⟩
    Leads step? {} s ∧ ⟨⟨true, none⟩, .take 0⟩ ∈ s.workers ∧
      (.take 0 : EventLoop Nat).isInside = true ∧
      s.roster.reset.1 = .error (.text
        s!"reset() called while {s.countAt EventLoop.isInside} thread(s) are running the event loop") ∧
      ∃ t, s.step? .reset = some t ∧
        t = { s with roster := { s.roster with stopRequested := false } } ∧
        (t = s ↔ s.roster.stopRequested = false) ∧
        ∀ i d n, t.workers[i]? = some d → d.pc = .recheck n →
          t.step? (.work i) = some { t with workers := t.workers.set i { d with pc := .take n } } := by
  intro s
  have h : Leads step? {} s :=
    .of_after? [.join ⟨true, none⟩, .join ⟨true, none⟩, .work 0, .work 1, .stop, .halt 0, .halt 0,
      .halt 0, .halt 0, .work 1] rfl
  exact ⟨h, List.mem_cons_self, rfl, refused_reset_lowers_the_flag h List.mem_cons_self rfl⟩

/-- **A refused reset can strand a caller.**  The stop has returned, the reset is refused because the
caller is inside, and then the caller takes its wake-up for a stale one and waits at an empty port. -/
theorem refused_reset_strands_a_caller :
    let s : Crew Nat := ⟨⟨true, 1⟩, ⟨[.wakeUp]⟩, [⟨⟨true, none⟩, .take 0⟩], [.returned], some 0⟩
    let t : Crew Nat := { s with roster := ⟨false, 1⟩ }
    let u : Crew Nat := { t with port := {} }
    Leads step? {} s ∧ 0 < s.countAt EventLoop.isInside ∧ (∃ p, s.roster.reset.1 = .error p) ∧
      s.step? .reset = some t ∧ t.roster ≠ s.roster ∧
      after? step? t [.work 0, .work 0] = some u ∧ ∃ c ∈ u.workers, u.Parked c := by
  intro s t u
  have h : Leads step? {} s :=
    .of_after? [.join ⟨true, none⟩, .work 0, .stop, .halt 0, .halt 0, .halt 0] rfl
  exact ⟨h, by decide, ⟨_, rfl⟩, rfl, by decide, rfl, _, List.mem_cons_self, rfl⟩

end Crew

end TaskDispatch
