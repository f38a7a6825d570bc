/-
Nothing stands in the way of a timed wait.

The timer thread can arrive whenever it has come to fire the timer of the wait.  A hop that
was posted comes down, and the poll on the thread that ran the latest one finds it there.
From then on nobody can keep the wait from resolving: it is ready and stays so, it can
withdraw its callback, and then it can read the flag of its token.
-/
import TaskDispatch.Proofs.Hop.Touchdown
import TaskDispatch.Proofs.Timer.Course

namespace TaskDispatch.Timer

variable {ω : Type} {i : Nat} {first : ω}

/-- A wait that withdraws its callback is asked to cancel if it was before. -/
theorem Wait.isRequested_withdraw (w : Wait) (d : Desk) (v : Wait) :
    v.isRequested (w.withdraw d).sources = v.isRequested d.sources := by
  simp only [isRequested, withdraw_requested]

namespace TimedRun

open Meeting

variable {s t : TimedRun ω} {w : Wait}

/-- The wait has resolved with what the flag of its token says, and no callback of its own is registered. -/
def HasResolved (i : Nat) (requested : Bool) (s : TimedRun ω) : Prop :=
  s.outcome = some (if requested then .error .operationCancelled else .ok ()) ∧
    ∀ k key, (s.service.desk.sources k).callbacks.get? key ≠ some i

/-! ### The timer thread -/

/-- A thread that has come to fire a timer can fire it. -/
theorem exists_keep {service : TimedWaits} {now : Nat} {room : Bool}
    (hfires : service.fires i (.keep now room) = true) : ∃ next, service.step? (.keep now room) = some next := by
  simp only [TimedWaits.fires] at hfires
  split at hfires
  · next j rest after hpc =>
      simp only [TimedWaits.step?, TimedWaits.keep?, Keeper.served?, hpc]
      exact ⟨_, rfl⟩
  · cases hfires

/-- **The timer thread arrives as soon as it has come to fire the timer of the wait**: it was started, and owes
no post, since it fires a timer only once. -/
theorem Kept.exists_fired (h : Kept i first s) {now : Nat} {room : Bool}
    (hfires : s.service.fires i (.keep now room) = true) :
    ∃ t, s.step? i first (.service (.keep now room)) = some t ∧
      t.meeting.arrivals = s.meeting.arrivals ++ [.keeper] := by
  cases hw : s.service.waits[i]? with
  | none =>
      rw [h.not_fires_of_none hw] at hfires
      cases hfires
  | some w =>
      obtain ⟨service, hservice⟩ := exists_keep hfires
      have hfirst : s.meeting.arrivals.count .keeper = 0 := by
        have honce := (h.once.step hservice).once
        rw [hfires, Bool.toNat_true] at honce
        omega
      have howing : .keeper ∉ s.meeting.owing := fun hmem => by
        have hdrop : .keeper ∈ s.meeting.arrivals.drop 1 := h.posted.1 ▸ List.mem_append_right _ hmem
        exact List.count_eq_zero.mp hfirst (List.mem_of_mem_drop hdrop)
      have hmay : s.mayMove i (.keep now room) = true := by
        simp [mayMove, h.armed w hw (h.armed_of_fires hw hfires), howing]
      refine ⟨_, by simp only [step?, hmay, if_true, hservice]; rfl, ?_⟩
      have hsees : s.sees i first (.keep now room) = s.meeting.arrive w.rendezvous .keeper := by
        simp only [sees, hw, hfires, if_true]
      show (s.sees i first (.keep now room)).arrivals = _
      rw [hsees]
      rfl

/-! ### The poll that is ready -/

/-- A wait that is polled, or is ready, has returned from its first poll. -/
theorem Kept.exists_of_not_idle (h : Kept i first s) (hstage : s.meeting.journey.stage ≠ .idle) :
    ∃ w, s.service.waits[i]? = some w ∧ (w.place = .pending ∨ w.place = .left) := by
  cases hw : s.service.waits[i]? with
  | none => exact absurd (h.before hw).1.idle hstage
  | some w =>
      have hfits := h.fits w hw
      refine ⟨w, rfl, ?_⟩
      cases hp : w.place with
      | pending => exact Or.inl rfl
      | left => exact Or.inr rfl
      | checking | refused | enrolling =>
          rw [Fits, hp] at hfits
          exact absurd hfits.1.idle hstage
      | busy left =>
          rw [Fits, hp] at hfits
          exact absurd hfits.2.2.2 hstage

/-- A poll that is ready can withdraw the callback of the wait. -/
theorem unregister_of_ready (first : ω) {thread : Nat} (hready : s.meeting.journey.stage = .ready thread)
    (hw : s.service.waits[i]? = some w) (hp : w.place = .pending) :
    s.step? i first .unregister = some { s with service := { s.service with
      desk := w.withdraw s.service.desk
      waits := s.service.waits.set i { w with key := none, place := .left } } } := by
  simp only [step?, hready, TimedWaits.step?, hw, hp]

/-- A poll that has withdrawn the callback can read the flag and resolve. -/
theorem Kept.conclude_of_left (h : Kept i first s) (hw : s.service.waits[i]? = some w) (hp : w.place = .left)
    (hnone : s.outcome = none) :
    ∃ t, s.step? i first .conclude = some t ∧ t.HasResolved i (w.isRequested s.service.desk.sources) := by
  have hleft : w.hasLeft = true := by rw [Wait.hasLeft, hp]
  refine ⟨_, by simp only [step?, hw, hnone, hleft, if_true]; rfl, rfl, ?_⟩
  exact (owning_of_leads h.reachable).get?_ne hw (by rw [Wait.mayHoldKey, hp])

/-- **A poll that is ready resolves the wait**, if nobody comes in between. -/
theorem Kept.resolves_of_ready (h : Kept i first s) {thread : Nat}
    (hready : s.meeting.journey.stage = .ready thread) (hw : s.service.waits[i]? = some w)
    (hp : w.place = .pending) :
    ∃ t, after? (step? i first) s [.unregister, .conclude] = some t ∧
      t.HasResolved i (w.isRequested s.service.desk.sources) := by
  have hfits := h.fits w hw
  rw [Fits, hp] at hfits
  have hunregister := unregister_of_ready first hready hw hp
  obtain ⟨t, hconclude, hresolved⟩ := (h.step hunregister).conclude_of_left
    (List.getElem?_set_self (List.getElem?_eq_some_iff.mp hw).1) rfl hfits.2.2
  refine ⟨t, by simp only [after?, hunregister, hconclude], ?_⟩
  have hflag := w.isRequested_withdraw s.service.desk { w with key := none, place := .left }
  rw [hflag] at hresolved
  exact hresolved

/-- What a step of the service is for the wait leaves the polls of the wait alone. -/
theorem stage_sees (s : TimedRun ω) (a : TimedWaits.Act) :
    (s.sees i first a).journey.stage = s.meeting.journey.stage := by
  have hregisters : ∀ w, (s.meeting.registers first w).journey.stage = s.meeting.journey.stage := by
    intro w
    unfold Meeting.registers
    split <;> rfl
  unfold sees
  split
  · rfl
  · next w hw =>
      split
      · split
        · exact hregisters w
        · rfl
      · split <;> rfl

/-- A wait that is ready stays so, whatever others do. -/
theorem ready_of_leads {thread : Nat} (hready : s.meeting.journey.stage = .ready thread)
    (hst : Leads (step? i first) s t) : t.meeting.journey.stage = .ready thread := by
  refine hst.keeps (P := fun u => u.meeting.journey.stage = .ready thread) ?_ hready
  intro u a v hu hstep
  cases turns_of_step? hstep with
  | service a service hmay hservice hstays => exact (stage_sees u a).trans hu
  | poll a journey w hw hp hjourney hfire => exact Journey.ready_of_step? hjourney hu
  | hop a journey hjourney hfire hpoll => exact Journey.ready_of_step? hjourney hu
  | deliver p rest journey howing hfire => exact Journey.ready_of_step? hfire hu
  | start | unregister | conclude => exact hu

/-- **Nobody keeps a wait that is ready from resolving**: whatever others have done since, the poll can take
its next step. -/
theorem Kept.goes_on_of_ready (h : Kept i first s) {thread : Nat}
    (hready : s.meeting.journey.stage = .ready thread) (hnone : s.outcome = none) :
    ∃ w, s.service.waits[i]? = some w ∧
      ((w.place = .pending ∧ ∃ t, s.step? i first .unregister = some t ∧
          t.service.waits[i]? = some { w with key := none, place := .left }) ∨
        (w.place = .left ∧ ∃ t, s.step? i first .conclude = some t ∧
          t.HasResolved i (w.isRequested s.service.desk.sources))) := by
  obtain ⟨w, hw, hp | hp⟩ := h.exists_of_not_idle (by simp [hready])
  · exact ⟨w, hw, Or.inl ⟨hp, _, unregister_of_ready first hready hw hp,
      List.getElem?_set_self (List.getElem?_eq_some_iff.mp hw).1⟩⟩
  · exact ⟨w, hw, Or.inr ⟨hp, h.conclude_of_left hw hp hnone⟩⟩

/-! ### Hops -/

/-- An act of the polls of the wait or of the workers. -/
def Act.Resumes (a : Act ω) : Prop := (∃ hop, a = .hop hop) ∨ a = .unregister ∨ a = .conclude

/-- The polls of the wait and the workers alone can bring it to its resolution. -/
def Resolves (i : Nat) (first : ω) (requested : Bool) (s : TimedRun ω) : Prop :=
  ∃ acts t, (∀ a ∈ acts, a.Resumes) ∧ after? (step? i first) s acts = some t ∧ t.HasResolved i requested

/-- Whether the wait puts no condition on an act of its journey: it does on the post of the first hop and on
the beginning of a poll. -/
def isFree : Journey.Act ω → Bool
  | .poll .. | .fire => false
  | .advance | .post _ | .take _ | .carry _ => true

/-- What workers and a poll under way do to the journey is done for the wait. -/
theorem after?_hop {acts : List (Journey.Act ω)} {journey : Journey ω}
    (hacts : ∀ a ∈ acts, isFree a = true)
    (hrun : after? Journey.step? s.meeting.journey acts = some journey) :
    after? (step? i first) s (acts.map .hop) = some { s with meeting := { s.meeting with journey } } := by
  induction acts generalizing s with
  | nil =>
      cases hrun
      rfl
  | cons a rest ih =>
      obtain ⟨hfree, hrest⟩ := List.forall_mem_cons.mp hacts
      rw [after?] at hrun
      cases hstep : s.meeting.journey.step? a with
      | none => simp [hstep] at hrun
      | some next =>
          rw [hstep] at hrun
          have hhop : s.step? i first (.hop a) =
              some { s with meeting := { s.meeting with journey := next } } := by
            cases a with
            | fire | poll thread waker => cases hfree
            | advance | post wakeUp | take thread | carry j => simp only [step?, hstep]
          rw [List.map_cons, after?, hhop]
          exact ih (s := { s with meeting := { s.meeting with journey := next } }) hrest hrun

/-- What can resolve later can resolve now, if workers and a poll under way lead there. -/
theorem Resolves.of_hops {requested : Bool} {acts : List (Journey.Act ω)} {journey : Journey ω}
    (hacts : ∀ a ∈ acts, isFree a = true)
    (hrun : after? Journey.step? s.meeting.journey acts = some journey)
    (h : Resolves i first requested { s with meeting := { s.meeting with journey } }) :
    Resolves i first requested s := by
  obtain ⟨rest, t, hrest, hlast, hresolved⟩ := h
  refine ⟨acts.map .hop ++ rest, t, fun a ha => ?_, ?_, hresolved⟩
  · rcases List.mem_append.mp ha with hhop | hlater
    · obtain ⟨hop, -, rfl⟩ := List.mem_map.mp hhop
      exact Or.inl ⟨hop, rfl⟩
    · exact hrest a hlater
  · rw [after?_append, after?_hop hacts hrun]
    exact hlast

/-- The poll that looks on the thread that ran the latest hop is ready. -/
theorem advance_of_here (i : Nat) (first : ω) {thread : Nat} {waker : ω}
    (hstage : s.meeting.journey.stage = .looking thread waker)
    (hhere : s.meeting.journey.latest thread = some .here) :
    s.step? i first (.hop .advance) = some { s with
      meeting := { s.meeting with journey := { s.meeting.journey with stage := .ready thread } } } := by
  simp only [step?, Journey.advance_of_here hstage hhere]

/-- **A poll on the thread that ran the latest hop resolves the wait**, if nobody comes in between. -/
theorem Kept.resolves_of_here (h : Kept i first s) (hw : s.service.waits[i]? = some w) (hp : w.place = .pending)
    (hidle : s.meeting.journey.stage = .idle) {thread : Nat}
    (hhere : s.meeting.journey.latest thread = some .here) (waker : ω) :
    ∃ t, after? (step? i first) s
        [.hop (.poll thread waker), .hop .advance, .unregister, .conclude] = some t ∧
      t.HasResolved i (w.isRequested s.service.desk.sources) := by
  let u : TimedRun ω := { s with
    meeting := { s.meeting with journey := { s.meeting.journey with stage := .looking thread waker } } }
  have hpending : w.isPending = true := by rw [Wait.isPending, hp]
  have hpoll : s.step? i first (.hop (.poll thread waker)) = some u := by
    simp only [step?, hw, Option.any_some, hpending, if_true, Journey.step?, hidle]
    rfl
  have hlook := advance_of_here i first (s := u) rfl hhere
  obtain ⟨t, hrun, hresolved⟩ := ((h.step hpoll).step hlook).resolves_of_ready rfl hw hp
  refine ⟨t, ?_, hresolved⟩
  rw [after?, hpoll]
  show after? (step? i first) u [.hop .advance, .unregister, .conclude] = some t
  rw [after?, hlook]
  exact hrun

theorem Kept.keeps {acts : List (Act ω)} (h : Kept i first s) (hrun : after? (step? i first) s acts = some t) :
    Kept i first t :=
  (Leads.of_after? acts hrun).keeps (fun _ _ _ hu hstep => hu.step hstep) h

/-- **A wait whose hop was posted can resolve**: the poll under way ends, the workers bring the latest hop down,
and a poll on the thread that ran it resolves the wait. -/
theorem Kept.resolves_of_posted (h : Kept i first s) (hw : s.service.waits[i]? = some w) (hp : w.place = .pending)
    (hposted : s.meeting.posted ≠ []) : s.Resolves i first (w.isRequested s.service.desk.sources) := by
  obtain ⟨n, ended, hends, hstage⟩ := s.meeting.journey.exists_ended
  have hpolls : ∀ a ∈ (List.replicate n .advance : List (Journey.Act ω)), isFree a = true := by
    intro a ha
    rw [List.eq_of_mem_replicate ha]
    rfl
  refine .of_hops hpolls hends ?_
  have hkept : Kept i first { s with meeting := { s.meeting with journey := ended } } :=
    h.keeps (after?_hop hpolls hends)
  rcases hstage with hidle | ⟨thread, hready⟩
  · have hfits := hkept.fits w hw
    rw [Fits, hp] at hfits
    have hbegun := hfits.1
    have hfired : ended.unfired = false := hbegun.unfired.trans (by simpa using hposted)
    obtain ⟨acts, landed, thread, hacts, hlands, hsame, hhere⟩ :=
      hbegun.tracked.exists_landed hfired (hbegun.tracked.begun (Or.inl (Option.some_ne_none _))) 0
    have hworkers : ∀ a ∈ acts, isFree a = true := by
      intro a ha
      rcases hacts a ha with rfl | ⟨j, rfl⟩ <;> rfl
    refine .of_hops hworkers hlands ?_
    obtain ⟨t, hrun, hresolved⟩ := (hkept.keeps (after?_hop hworkers hlands)).resolves_of_here hw hp
      (hsame.trans hidle) hhere first
    exact ⟨_, t, by simp [Act.Resumes], hrun, hresolved⟩
  · obtain ⟨t, hrun, hresolved⟩ := hkept.resolves_of_ready hready hw hp
    exact ⟨_, t, by simp [Act.Resumes], hrun, hresolved⟩

end TimedRun

end TaskDispatch.Timer
