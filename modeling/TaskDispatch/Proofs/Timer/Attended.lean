/-
The timer thread attends to what there is to see.

If the inbox has something for the thread or the sweep flag is up, the thread will look
before it parks again, or it has been signalled or somebody is about to signal it
(`Roused`).  A call leaves a signal behind it, and the thread lowers the signal only
where it goes on to look.
-/
import TaskDispatch.Proofs.Timer.Registration

namespace TaskDispatch.Timer

/-- The timer thread has been signalled, or somebody is about to signal it. -/
def Roused (s : TimedWaits) : Prop :=
  s.desk.shared.signal.signalled = true ∨
    (∃ w ∈ s.waits, w.caller?.any Caller.signals = true) ∨
    ∃ r ∈ s.requests, r.caller?.any Caller.signals = true

/-- What there is to see for the timer thread will be seen. -/
structure Attended (s : TimedWaits) : Prop where
  /-- Those who shut down do nothing else. -/
  closing : ∀ c ∈ s.closers, c = .shutdown ∨ c = .signal ∨ c = .done
  intake : s.desk.shared.inbox.head ≠ none → Roused s ∨ s.keeper.pc.willDetach = true
  flag : s.desk.shared.sweepRequested = true → Roused s ∨ s.keeper.pc.seesSweep = true

namespace Wait.Moves

variable {i : Nat} {w w' : Wait} {d d' : Desk}

/-- Nobody lowers the signal but the timer thread, and who is about to raise it raises it. -/
theorem rouses (h : Wait.Moves i w d d' w')
    (hrouses : d.shared.signal.signalled = true ∨ w.caller?.any Caller.signals = true) :
    d'.shared.signal.signalled = true := by
  cases h with
  | call c rest spurious hp =>
      rw [caller?, hp] at hrouses
      exact Caller.signalled_step hrouses
  | refuse hp h | check hp h | free hp h | late hp k h hk | enrol hp k h hk | called rest hp
  | arrive rest hp | settle hp =>
      rw [caller?, hp] at hrouses
      rcases hrouses with hup | hsignals
      · exact hup
      · cases hsignals

/-- Who puts something on an empty inbox, or raises the sweep flag, signals next. -/
theorem calls (h : Wait.Moves i w d d' w') :
    (d'.shared.inbox.head ≠ none →
      d.shared.inbox.head ≠ none ∨ w'.caller?.any Caller.signals = true) ∧
    (d'.shared.sweepRequested = true →
      d.shared.sweepRequested = true ∨ w'.caller?.any Caller.signals = true) := by
  cases h with
  | call c rest spurious hp => exact Caller.signals_step
  | _ => exact ⟨Or.inl, Or.inl⟩

end Wait.Moves

namespace Requester.Moves

variable {r r' : Requester} {d d' : Desk}

theorem rouses (h : Requester.Moves r d d' r')
    (hrouses : d.shared.signal.signalled = true ∨ r.caller?.any Caller.signals = true) :
    d'.shared.signal.signalled = true := by
  cases h with
  | call c rest spurious hp =>
      rw [caller?, hp] at hrouses
      exact Caller.signalled_step hrouses
  | again hp h | raise hp h | detach hp | run i rest hp | ran rest hp | finish hp =>
      rw [caller?, hp] at hrouses
      rcases hrouses with hup | hsignals
      · exact hup
      · cases hsignals

theorem calls (h : Requester.Moves r d d' r') :
    (d'.shared.inbox.head ≠ none →
      d.shared.inbox.head ≠ none ∨ r'.caller?.any Caller.signals = true) ∧
    (d'.shared.sweepRequested = true →
      d.shared.sweepRequested = true ∨ r'.caller?.any Caller.signals = true) := by
  cases h with
  | call c rest spurious hp => exact Caller.signals_step
  | _ => exact ⟨Or.inl, Or.inl⟩

end Requester.Moves

namespace Roused

variable {s : TimedWaits} {i j : Nat}

theorem register {w w' : Wait} {d : Desk} (h : Roused s) (hw : s.waits[i]? = some w)
    (hmove : Wait.Moves i w s.desk d w') :
    Roused { s with desk := d, waits := s.waits.set i w' } := by
  rcases h with hup | hwaits | hothers
  · exact Or.inl (hmove.rouses (Or.inl hup))
  · by_cases hmover : w.caller?.any Caller.signals = true
    · exact Or.inl (hmove.rouses (Or.inr hmover))
    · exact Or.inr (Or.inl (exists_mem_set hw hwaits fun h => absurd h hmover))
  · exact Or.inr (Or.inr hothers)

theorem cancel {r r' : Requester} {d : Desk} (h : Roused s) (hr : s.requests[j]? = some r)
    (hmove : Requester.Moves r s.desk d r') :
    Roused { s with desk := d, requests := s.requests.set j r' } := by
  rcases h with hup | hwaits | hrequests
  · exact Or.inl (hmove.rouses (Or.inl hup))
  · exact Or.inr (Or.inl hwaits)
  · by_cases hmover : r.caller?.any Caller.signals = true
    · exact Or.inl (hmove.rouses (Or.inr hmover))
    · exact Or.inr (Or.inr (exists_mem_set hr hrequests fun h => absurd h hmover))

/-- Newcomers take no signal away. -/
theorem of_le {s' : TimedWaits} (h : Roused s)
    (hup : s.desk.shared.signal.signalled = true → s'.desk.shared.signal.signalled = true)
    (hwaits : (∃ w ∈ s.waits, w.caller?.any Caller.signals = true) →
      ∃ w ∈ s'.waits, w.caller?.any Caller.signals = true)
    (hrequests : ∀ r ∈ s.requests, r ∈ s'.requests) : Roused s' := by
  refine h.imp hup (Or.imp hwaits ?_)
  rintro ⟨r, hr, hsignals⟩
  exact ⟨r, hrequests r hr, hsignals⟩

end Roused

namespace Attended

variable {s s' : TimedWaits}

/-- What keeps the thread roused and where it is keeps it attending, if whatever there is to see was there
before or has roused it. -/
theorem of_roused (h : Attended s) (hroused : Roused s → Roused s')
    (hclosing : ∀ c ∈ s'.closers, c = .shutdown ∨ c = .signal ∨ c = .done)
    (hhead : s'.desk.shared.inbox.head ≠ none → s.desk.shared.inbox.head ≠ none ∨ Roused s')
    (hflag : s'.desk.shared.sweepRequested = true → s.desk.shared.sweepRequested = true ∨ Roused s')
    (hdetach : s.keeper.pc.willDetach = true → s'.keeper.pc.willDetach = true)
    (hsees : s.keeper.pc.seesSweep = true → s'.keeper.pc.seesSweep = true) : Attended s' := by
  refine ⟨hclosing, fun hsome => ?_, fun hup => ?_⟩
  · rcases hhead hsome with hbefore | hnow
    · exact (h.intake hbefore).imp hroused hdetach
    · exact Or.inl hnow
  · rcases hflag hup with hbefore | hnow
    · exact (h.flag hbefore).imp hroused hsees
    · exact Or.inl hnow

theorem register {i : Nat} {w w' : Wait} {d : Desk} (h : Attended s) (hw : s.waits[i]? = some w)
    (hmove : Wait.Moves i w s.desk d w') :
    Attended { s with desk := d, waits := s.waits.set i w' } := by
  have hcalls : w'.caller?.any Caller.signals = true →
      Roused { s with desk := d, waits := s.waits.set i w' } :=
    fun hsignals => Or.inr (Or.inl ⟨w', mem_set_self hw, hsignals⟩)
  refine h.of_roused (fun hroused => hroused.register hw hmove) h.closing ?_ ?_ id id
  · exact fun hhead => (hmove.calls.1 hhead).imp_right hcalls
  · exact fun hflag => (hmove.calls.2 hflag).imp_right hcalls

theorem leave {i : Nat} {w : Wait} (h : Attended s) (hw : s.waits[i]? = some w)
    (hp : w.place = .pending) :
    Attended { s with
      desk := w.withdraw s.desk
      waits := s.waits.set i { w with key := none, place := .left } } := by
  have hshared := Wait.withdraw_shared w s.desk
  refine h.of_roused (fun hroused => ?_) h.closing (fun hhead => ?_) (fun hflag => ?_) id id
  · refine hroused.of_le (fun hup => ?_) (fun hwaits => ?_) fun _ hr => hr
    · show (w.withdraw s.desk).shared.signal.signalled = true
      rw [hshared]
      exact hup
    · refine exists_mem_set hw hwaits fun hsignals => ?_
      rw [Wait.caller?, hp] at hsignals
      cases hsignals
  · change (w.withdraw s.desk).shared.inbox.head ≠ none at hhead
    rw [hshared] at hhead
    exact Or.inl hhead
  · change (w.withdraw s.desk).shared.sweepRequested = true at hflag
    rw [hshared] at hflag
    exact Or.inl hflag

theorem cancel {j : Nat} {r r' : Requester} {d : Desk} (h : Attended s)
    (hr : s.requests[j]? = some r) (hmove : Requester.Moves r s.desk d r') :
    Attended { s with desk := d, requests := s.requests.set j r' } := by
  have hcalls : r'.caller?.any Caller.signals = true →
      Roused { s with desk := d, requests := s.requests.set j r' } :=
    fun hsignals => Or.inr (Or.inr ⟨r', mem_set_self hr, hsignals⟩)
  refine h.of_roused (fun hroused => hroused.cancel hr hmove) h.closing ?_ ?_ id id
  · exact fun hhead => (hmove.calls.1 hhead).imp_right hcalls
  · exact fun hflag => (hmove.calls.2 hflag).imp_right hcalls

theorem shut {j : Nat} {c : Caller Nat} {spurious : Bool} (h : Attended s)
    (hc : s.closers[j]? = some c) :
    Attended { s with
      desk := (s.desk.call spurious c).1
      closers := s.closers.set j (s.desk.call spurious c).2 } := by
  have hroused : Roused s → Roused { s with
      desk := (s.desk.call spurious c).1
      closers := s.closers.set j (s.desk.call spurious c).2 } := by
    intro hroused
    exact hroused.of_le (fun hup => Caller.signalled_step (Or.inl hup)) id fun _ hr => hr
  have hclosing (c' : Caller Nat) (hc' : c' = .shutdown ∨ c' = .signal ∨ c' = .done) :
      ∀ b ∈ s.closers.set j c', b = .shutdown ∨ b = .signal ∨ b = .done := by
    intro b hb
    rcases mem_of_mem_set hb with rfl | hold
    · exact hc'
    · exact h.closing b hold
  rcases h.closing c (List.mem_of_getElem? hc) with rfl | rfl | rfl
  · exact h.of_roused hroused (hclosing .signal (Or.inr (Or.inl rfl))) Or.inl Or.inl id id
  · exact h.of_roused hroused (hclosing .done (Or.inr (Or.inr rfl))) Or.inl Or.inl id id
  · exact h.of_roused hroused (hclosing .done (Or.inr (Or.inr rfl))) Or.inl Or.inl id id

theorem keep {now : Nat} {room : Bool} {shared : Shared Nat} {k : Keeper Nat} (h : Attended s)
    (hmove : Keeper.Moves s.isCancelled now room s.keeper.queue s.desk.shared s.keeper.pc shared k) :
    Attended { s with desk := { s.desk with shared }, keeper := k } := by
  refine ⟨h.closing, fun hhead => ?_, fun hflag => ?_⟩
  · obtain ⟨hbefore, hkept⟩ := hmove.intake hhead
    rcases h.intake hbefore with (hup | hothers) | hdetach
    · exact (hkept (Or.inl hup)).imp_left Or.inl
    · exact Or.inl (Or.inr hothers)
    · exact (hkept (Or.inr hdetach)).imp_left Or.inl
  · obtain ⟨hbefore, hkept⟩ := hmove.flag hflag
    rcases h.flag hbefore with (hup | hothers) | hsees
    · exact (hkept (Or.inl hup)).imp_left Or.inl
    · exact Or.inl (Or.inr hothers)
    · exact (hkept (Or.inr hsees)).imp_left Or.inl

/-- Every act keeps the thread attending. -/
theorem step (h : Attended s) (hturn : TimedWaits.Turns s s') : Attended s' := by
  cases hturn with
  | wait source due =>
      refine h.of_roused (fun hroused => ?_) h.closing Or.inl Or.inl id id
      refine hroused.of_le id ?_ fun _ hr => hr
      rintro ⟨w, hw, hsignals⟩
      exact ⟨w, List.mem_append_left _ hw, hsignals⟩
  | request source =>
      refine h.of_roused (fun hroused => ?_) h.closing Or.inl Or.inl id id
      exact hroused.of_le id id fun _ hr => List.mem_append_left _ hr
  | close =>
      refine h.of_roused id ?_ Or.inl Or.inl id id
      intro c hc
      rcases List.mem_append.mp hc with hold | hnew
      · exact h.closing c hold
      · exact Or.inl (List.mem_singleton.mp hnew)
  | register i w w' d hw hmove => exact h.register hw hmove
  | leave i w hw hp => exact h.leave hw hp
  | cancel j r r' d hr hmove => exact h.cancel hr hmove
  | shut j c spurious hc => exact h.shut hc
  | serve i keeper hserved waits hw =>
      obtain ⟨-, -, hdetach, hsees⟩ := Keeper.served_keeps hserved
      refine h.of_roused (fun hroused => ?_) h.closing Or.inl Or.inl hdetach.trans hsees.trans
      exact hroused.of_le id (Wait.exists_of_served hw fun _ h => h) fun _ hr => hr
  | keep now room shared keeper hmove => exact h.keep hmove

end Attended

end TaskDispatch.Timer
