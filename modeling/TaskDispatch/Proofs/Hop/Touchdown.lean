/-
A posted hop comes down, and a poll under way ends.

The workers alone bring the latest hop of a future down: the one that has it goes on with
it, and while nobody has, the port is one event shorter whenever an event is taken.  A poll
under way ends with its own next steps, and one that looks on the thread that ran the
latest hop is ready.
-/
import TaskDispatch.Proofs.Hop.Landing

namespace TaskDispatch.Journey

variable {ω : Type} {first : Option ω} {s : Journey ω}

/-! ### Polls -/

theorem latest_of_ran {hop : Hop ω} {thread : Nat} (hlast : s.hops.getLast? = some hop)
    (hran : hop.ranOn = some thread) : s.latest thread = some .here := by
  simp [latest, hlast, Hop.landing, hran]

/-- A poll that finds that its own thread ran the latest hop is ready. -/
theorem advance_of_here {thread : Nat} {waker : ω} (hstage : s.stage = .looking thread waker)
    (hhere : s.latest thread = some .here) :
    s.step? .advance = some { s with stage := .ready thread } := by
  rw [advance_of_looking hstage, sees_of_arrive ((HopMove.of_eq_arrive_iff _).mpr hhere)]

/-- **A poll under way ends**: with its own next steps it has left the future waiting, or made it ready. -/
theorem exists_ended (s : Journey ω) :
    ∃ n t, after? step? s (List.replicate n .advance) = some t ∧
      (t.stage = .idle ∨ ∃ thread, t.stage = .ready thread) := by
  have hone : ∀ t, s.step? .advance = some t → after? step? s (List.replicate 1 .advance) = some t := by
    intro t hstep
    simp only [List.replicate, after?, hstep]
  cases hstage : s.stage with
  | idle => exact ⟨0, s, rfl, Or.inl hstage⟩
  | ready thread => exact ⟨0, s, rfl, Or.inr ⟨thread, hstage⟩⟩
  | posting thread waker found =>
      obtain ⟨t, hposts, hidle, -⟩ := advance_of_posting hstage
      exact ⟨1, t, hone t hposts, Or.inl hidle⟩
  | looking thread waker =>
      have hlooks := advance_of_looking hstage
      cases hmove : HopMove.of (s.latest thread) with
      | arrive =>
          rw [sees_of_arrive hmove] at hlooks
          exact ⟨1, _, hone _ hlooks, Or.inr ⟨thread, rfl⟩⟩
      | wait =>
          rw [sees_of_wait hmove] at hlooks
          exact ⟨1, _, hone _ hlooks, Or.inl rfl⟩
      | post =>
          rw [sees_of_post hmove] at hlooks
          obtain ⟨t, hposts, hidle, -⟩ :=
            advance_of_posting (s := { s with stage := .posting thread waker (s.latest thread) }) rfl
          exact ⟨2, t, by simp only [List.replicate, after?, hlooks, hposts], Or.inl hidle⟩

/-! ### Workers -/

/-- While a hop of the future is in the port a worker can take an event, and the port is shorter then. -/
theorem take_of_ownHops (hport : s.port.ownHops ≠ 0) (worker : Nat) :
    ∃ t, s.step? (.take worker) = some t ∧ t.port.queue.length < s.port.queue.length ∧
      t.stage = s.stage ∧ t.hops = s.hops ∧ t.unfired = s.unfired := by
  cases hqueue : s.port.queue with
  | nil => simp [Port.ownHops, hqueue] at hport
  | cons e rest =>
      have hnext : s.port.next? = some (e, ⟨rest⟩) := by simp [Port.next?, hqueue]
      rcases e with _ | _ | hop
      all_goals
        simp only [step?, hnext]
        exact ⟨_, rfl, Nat.lt_succ_self _, rfl, rfl, rfl⟩

/-- The worker that has the latest hop has run it, or does so with its next step. -/
theorem Tracked.exists_carried (h : Tracked first s) {c : Carrier ω} (hc : c ∈ s.carriers)
    (hlatest : c.hop + 1 = s.hops.length) :
    ∃ acts t, (∀ a ∈ acts, ∃ j, a = .carry j) ∧ after? step? s acts = some t ∧ t.stage = s.stage ∧
      t.latest c.thread = some .here := by
  obtain ⟨hop, hhop, hagrees⟩ := h.agreed c hc
  have hlast : s.hops.getLast? = some hop := by
    rw [List.getLast?_eq_getElem?, ← hlatest]
    exact hhop
  cases hplace : c.place with
  | taken =>
      obtain ⟨j, hj⟩ := List.getElem?_of_mem hc
      refine ⟨[.carry j], { s with
        hops := s.hops.modify c.hop (·.land c.thread)
        carriers := s.carriers.set j { c with place := .landed } }, ?_, ?_, rfl, ?_⟩
      · exact fun a ha => ⟨j, List.mem_singleton.mp ha⟩
      · simp [after?, step?, hj, carry?, hplace]
      · have hran : (hop.land c.thread).ranOn = some c.thread := rfl
        refine latest_of_ran ?_ hran
        rw [List.getLast?_eq_getElem?, List.length_modify, ← hlatest]
        simp [hhop]
  | landed =>
      rw [Carrier.agrees, hplace] at hagrees
      exact ⟨[], s, by simp, rfl, rfl, latest_of_ran hlast hagrees⟩
  | woke w =>
      rw [Carrier.agrees, hplace] at hagrees
      exact ⟨[], s, by simp, rfl, rfl, latest_of_ran hlast hagrees.1⟩

/-- **The latest hop comes down.**  Once it is posted the workers alone have it run on some thread. -/
theorem Tracked.exists_landed (h : Tracked first s) (hfired : s.unfired = false) (hne : s.hops ≠ [])
    (worker : Nat) :
    ∃ acts t thread, (∀ a ∈ acts, a = .take worker ∨ ∃ j, a = .carry j) ∧
      after? step? s acts = some t ∧ t.stage = s.stage ∧ t.latest thread = some .here := by
  -- the events that are still before the hop, and the hop itself, are taken one after another
  induction hn : s.port.queue.length using Nat.strongRecOn generalizing s with
  | ind n ih =>
      by_cases hport : s.port.ownHops = 0
      · obtain ⟨c, hc, hlatest⟩ := h.exists_carrier hfired hne hport
        obtain ⟨acts, t, hcarry, hrun, hstage, hhere⟩ := h.exists_carried hc hlatest
        exact ⟨acts, t, c.thread, fun a ha => Or.inr (hcarry a ha), hrun, hstage, hhere⟩
      · obtain ⟨u, htake, hless, hstage, hhops, hunfired⟩ := take_of_ownHops hport worker
        obtain ⟨acts, t, thread, hacts, hrun, hstage', hhere⟩ :=
          ih _ (hn ▸ hless) (h.step htake) (hunfired.trans hfired) (by rw [hhops]; exact hne) rfl
        refine ⟨.take worker :: acts, t, thread, ?_, ?_, hstage'.trans hstage, hhere⟩
        · exact List.forall_mem_cons.mpr ⟨Or.inl rfl, hacts⟩
        · rw [after?, htake]
          exact hrun

end TaskDispatch.Journey
