/-
No cancellation of a timed wait is lost.

When nobody is part-way, what is heard is up as a flag and what rouses is up as a
signal.  A parked thread whose signal is clear therefore has nothing in its inbox and no
sweep to make, and holds no timer of a wait that was asked to cancel.
-/
import TaskDispatch.Proofs.Timer.Attended
import TaskDispatch.Proofs.Timer.Heard

namespace TaskDispatch.Timer

/-- Every state that acts lead to keeps all cancellations heard and the thread attending. -/
theorem heard_and_attended {s : TimedWaits} (h : Leads TimedWaits.step? {} s) :
    Heard s ∧ Attended s := by
  refine (h.keeps (P := fun u => Registered u ∧ Heard u ∧ Attended u) ?_ ⟨?_, ?_, ?_⟩).2
  · intro u a v ⟨hreg, hheard, hattended⟩ hstep
    have hturn := TimedWaits.turns_of_step? hstep
    exact ⟨hreg.step hturn, hheard.step hreg hturn, hattended.step hturn⟩
  · refine ⟨fun _ => Slab.sound_empty, nofun, ?_, nofun⟩
    intro i w key hw
    cases hw
  · intro e he
    cases he
  · exact ⟨nofun, fun hhead => absurd rfl hhead, fun hflag => by cases hflag⟩

/-- A wait that is settled calls nobody. -/
theorem Wait.caller?_of_isSettled {w : Wait} (h : w.isSettled = true) : w.caller? = none := by
  rw [isSettled] at h
  rw [caller?]
  cases hp : w.place with
  | busy left =>
      rw [hp] at h
      cases h
  | _ => rfl

namespace Requester

variable {r : Requester}

theorem place_of_isReturned (h : r.isReturned = true) : r.place = .at .returned := by
  rw [isReturned] at h
  split at h
  · next hp => exact hp
  · cases h

theorem caller?_of_isReturned (h : r.isReturned = true) : r.caller? = none := by
  rw [caller?, place_of_isReturned h]

/-- A request that has returned owes nothing. -/
theorem not_owes_of_isReturned (h : r.isReturned = true) (d : Desk) (i : Nat) : ¬ r.Owes d i := by
  rw [Owes, caller?_of_isReturned h, waiting, place_of_isReturned h]
  rintro (hsweeps | hmem | ⟨hdetach, -⟩)
  · cases hsweeps
  · cases hmem
  · cases hdetach

end Requester

/-- When nobody is part-way, no sweep is to come but one whose flag is up. -/
theorem Coming.flag_of_settled {s : TimedWaits} {i : Nat} (h : Coming s i)
    (hwaits : ∀ w ∈ s.waits, w.isSettled = true)
    (hrequests : ∀ r ∈ s.requests, r.isReturned = true) :
    s.desk.shared.sweepRequested = true := by
  rcases h with hflag | ⟨w, hw, hsweeps⟩ | ⟨r, hr, howes⟩
  · exact hflag
  · rw [Wait.caller?_of_isSettled (hwaits w hw)] at hsweeps
    cases hsweeps
  · exact absurd howes (Requester.not_owes_of_isReturned (hrequests r hr) s.desk i)

/-- When nobody is part-way, only the signal itself can rouse the thread. -/
theorem Roused.signalled_of_settled {s : TimedWaits} (h : Roused s)
    (hwaits : ∀ w ∈ s.waits, w.isSettled = true)
    (hrequests : ∀ r ∈ s.requests, r.isReturned = true) :
    s.desk.shared.signal.signalled = true := by
  rcases h with hup | ⟨w, hw, hsignals⟩ | ⟨r, hr, hsignals⟩
  · exact hup
  · rw [Wait.caller?_of_isSettled (hwaits w hw)] at hsignals
    cases hsignals
  · rw [Requester.caller?_of_isReturned (hrequests r hr)] at hsignals
    cases hsignals

/-- **No cancellation of a timed wait is lost.**  For any number of waits with sources of their own,
shared ones or none, in every order of the steps of their registrations, of requests to cancel and of
the timer thread: while the thread is parked with its signal clear, and no registration and no request
is part-way, no timer in the inbox or in the queue belongs to a pending wait that was asked to cancel. -/
theorem no_cancellation_is_lost {s : TimedWaits} (h : Leads TimedWaits.step? {} s)
    (hparked : s.keeper.pc = .waiting .parked) (hclear : s.desk.shared.signal.signalled = false)
    (hwaits : ∀ w ∈ s.waits, w.isSettled = true)
    (hrequests : ∀ r ∈ s.requests, r.isReturned = true) :
    ∀ e ∈ s.desk.shared.inbox.takeAll.1 ++ s.keeper.queue.heap ++ s.keeper.queue.overflow,
      ∀ w, s.waits[e.item]? = some w → w.place = .pending →
        w.isRequested s.desk.sources = false := by
  obtain ⟨hheard, hattended⟩ := heard_and_attended h
  have hquiet : ¬ Roused s := by
    intro hroused
    rw [hroused.signalled_of_settled hwaits hrequests] at hclear
    cases hclear
  have hintake : s.desk.shared.inbox.takeAll.1 = [] := by
    refine Inbox.takeAll_of_head_eq_none ?_
    by_contra hhead
    rcases hattended.intake hhead with hroused | hdetach
    · exact hquiet hroused
    · rw [hparked] at hdetach
      cases hdetach
  have hflag : s.desk.shared.sweepRequested ≠ true := by
    intro hup
    rcases hattended.flag hup with hroused | hsees
    · exact hquiet hroused
    · rw [hparked] at hsees
      cases hsees
  intro e he w hw hpending
  rw [hintake, List.nil_append] at he
  by_contra hrequested
  have henrolled : w.isEnrolled = true := by
    rw [Wait.isEnrolled, hpending]
  have hheld : e ∈ s.keeper.pc.held s.keeper.queue := by
    rw [hparked]
    exact he
  have hcoming := hheard e hheld w hw henrolled (by simpa using hrequested)
  exact hflag (hcoming.flag_of_settled hwaits hrequests)

/-- Two waits on sources of their own are armed, the first is asked to cancel, and the thread sweeps its
queue: only the second wait's timer is left. -/
theorem no_cancellation_is_lost_swept :
    ∃ s, Leads TimedWaits.step? {} s ∧ s.keeper.pc = .waiting .parked ∧
      s.desk.shared.signal.signalled = false ∧ (∀ w ∈ s.waits, w.isSettled = true) ∧
      (∀ r ∈ s.requests, r.isReturned = true) ∧ (s.desk.sources 0).requested = true ∧
      s.keeper.queue.heap = [⟨200, 1⟩] ∧
      ∀ e ∈ s.desk.shared.inbox.takeAll.1 ++ s.keeper.queue.heap ++ s.keeper.queue.overflow,
        ∀ w, s.waits[e.item]? = some w → w.place = .pending →
          w.isRequested s.desk.sources = false := by
  let acts : List TimedWaits.Act :=
    [.wait (some 0) 100, .wait (some 1) 200] ++
      List.replicate 10 (.register 0 false) ++ List.replicate 10 (.register 1 false) ++
      List.replicate 19 (.keep 0 true) ++ [.request 0] ++ List.replicate 7 (.cancel 0 false) ++
      List.replicate 17 (.keep 0 true)
  have hrun : (after? TimedWaits.step? {} acts).isSome = true := rfl
  refine ⟨(after? TimedWaits.step? {} acts).get hrun, ?_⟩
  have h : Leads TimedWaits.step? {} ((after? TimedWaits.step? {} acts).get hrun) :=
    .of_after? acts (Option.some_get hrun).symm
  have hwaits : ∀ w ∈ ((after? TimedWaits.step? {} acts).get hrun).waits, w.isSettled = true :=
    List.all_eq_true.mp rfl
  have hrequests : ∀ r ∈ ((after? TimedWaits.step? {} acts).get hrun).requests, r.isReturned = true :=
    List.all_eq_true.mp rfl
  exact ⟨h, rfl, rfl, hwaits, hrequests, rfl, rfl, no_cancellation_is_lost h rfl rfl hwaits hrequests⟩

end TaskDispatch.Timer
