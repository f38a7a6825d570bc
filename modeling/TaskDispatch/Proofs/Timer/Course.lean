/-
The course of one timed wait.

`Kept` is the invariant of the run of one wait.  It puts together what is known of the
waits of a service, that a timer is fired at most once and only when it is ripe, and how
far what belongs to this wait goes with its place.  What has happened so far, and what a
step that resolves the wait has found, is read off it.
-/
import TaskDispatch.Proofs.Timer.Meeting

namespace TaskDispatch.Timer

variable {ω : Type} {i : Nat} {first : ω}

namespace TimedRun

open Meeting

variable {s s' : TimedRun ω}

/-- All that the promise rests on. -/
structure Kept (i : Nat) (first : ω) (s : TimedRun ω) : Prop where
  reachable : Leads TimedWaits.step? {} s.service
  once : s.service.Once i (s.meeting.arrivals.count .keeper)
  ripening : s.service.Ripening s.shown
  ripe : .keeper ∈ s.meeting.arrivals → s.service.Ripe s.shown i
  started : s.started = true → ∃ w ∈ s.service.waits, w.hasPassed = true
  armed : ∀ w, s.service.waits[i]? = some w → w.mayHoldKey = true ∨ w.hasLeft = true → s.started = true
  before : s.service.waits[i]? = none → s.meeting.Untouched ∧ s.outcome = none
  fits : ∀ w, s.service.waits[i]? = some w → s.meeting.Fits first s.outcome w

theorem kept_start (i : Nat) (first : ω) : Kept i first {} where
  reachable := .refl _
  once := TimedWaits.once_start i
  ripening := TimedWaits.holds_start _ _ _
  ripe := nofun
  started := nofun
  armed := nofun
  before _ := ⟨⟨Journey.tracked_start none, rfl, rfl, rfl, rfl, rfl, rfl, rfl⟩, rfl⟩
  fits := nofun

theorem sees_register {w : Wait} {spurious : Bool} (hw : s.service.waits[i]? = some w) :
    s.sees i first (.register i spurious) = s.meeting.registers first w := by
  simp only [sees, hw, if_true]

theorem sees_other {w : Wait} {a : TimedWaits.Act} (hw : s.service.waits[i]? = some w)
    (ha : ∀ spurious, a ≠ .register i spurious) :
    s.sees i first a =
      if s.service.fires i a then s.meeting.arrive w.rendezvous .keeper else s.meeting := by
  cases a with
  | register j spurious =>
      have hj : j ≠ i := by
        rintro rfl
        exact ha spurious rfl
      simp [sees, hw, hj, TimedWaits.fires]
  | _ => simp only [sees, hw]

theorem refuses_other {a : TimedWaits.Act} (ha : ∀ spurious, a ≠ .register i spurious) :
    s.refuses i a = s.outcome := by
  cases a with
  | register j spurious =>
      have hj : j ≠ i := by
        rintro rfl
        exact ha spurious rfl
      simp [refuses, hj]
  | _ => rfl

theorem count_registers (m : Meeting ω) (w : Wait) :
    (m.registers first w).arrivals.count .keeper = m.arrivals.count .keeper := by
  unfold Meeting.registers
  split
  · rfl
  · simp [Meeting.arrive]
  · rfl
  · rfl

/-- The timer of a wait that has not begun is not fired. -/
theorem Kept.not_fires_of_none (h : Kept i first s) (hw : s.service.waits[i]? = none) (a : TimedWaits.Act) :
    s.service.fires i a = false :=
  h.once.not_fires (by simp only [TimedWaits.unarmed, hw])

/-- A timer that is fired is armed: its wait may hold a callback, or has given it back. -/
theorem Kept.armed_of_fires {w : Wait} {a : TimedWaits.Act} (h : Kept i first s)
    (hw : s.service.waits[i]? = some w) (hfires : s.service.fires i a = true) :
    w.mayHoldKey = true ∨ w.hasLeft = true := by
  have hunarmed : s.service.unarmed i = w.copies (· == i) i := by
    simp only [TimedWaits.unarmed, hw]
  cases hp : w.place with
  | busy left => exact Or.inl (by rw [Wait.mayHoldKey, hp])
  | pending => exact Or.inl (by rw [Wait.mayHoldKey, hp])
  | left => exact Or.inr (by rw [Wait.hasLeft, hp])
  | checking | refused | enrolling =>
      rw [h.once.not_fires (by simp [hunarmed, Wait.copies, hp])] at hfires
      cases hfires

/-- The timer thread arrives whenever the timer is fired. -/
theorem Kept.count_sees (h : Kept i first s) (a : TimedWaits.Act) :
    (s.sees i first a).arrivals.count .keeper
      = s.meeting.arrivals.count .keeper + (s.service.fires i a).toNat := by
  cases hw : s.service.waits[i]? with
  | none => simp [sees, hw, h.not_fires_of_none hw a]
  | some w =>
      by_cases hregister : ∃ spurious, a = .register i spurious
      · obtain ⟨spurious, rfl⟩ := hregister
        rw [sees_register hw, count_registers]
        rfl
      · rw [sees_other hw fun spurious heq => hregister ⟨spurious, heq⟩]
        cases hfires : s.service.fires i a <;> simp [Meeting.arrive]

/-- What has to be known of the wait is known when it has begun and fits its place. -/
theorem fits_of_begun {waits : List Wait} {m : Meeting ω} {o : Option (Outcome Unit)} {w : Wait}
    (hw : waits[i]? = some w) (hfits : m.Fits first o w) :
    (waits[i]? = none → m.Untouched ∧ o = none) ∧ ∀ v, waits[i]? = some v → m.Fits first o v := by
  refine ⟨fun hnone => ?_, fun v hv => ?_⟩
  · rw [hw] at hnone
    cases hnone
  · obtain rfl := Option.some.inj (hw.symm.trans hv)
    exact hfits

theorem Kept.fits_service {a : TimedWaits.Act} {service : TimedWaits} (h : Kept i first s)
    (hstep : s.service.step? a = some service) (hstays : a ≠ .leave i) :
    (service.waits[i]? = none → (s.sees i first a).Untouched ∧ s.refuses i a = none) ∧
      ∀ w, service.waits[i]? = some w → (s.sees i first a).Fits first (s.refuses i a) w := by
  by_cases hregister : ∃ spurious, a = .register i spurious
  · obtain ⟨spurious, rfl⟩ := hregister
    obtain ⟨w, w', d, hw, hmove, rfl⟩ := TimedWaits.register_of_step? hstep
    have hnew : (s.service.waits.set i w')[i]? = some w' :=
      List.getElem?_set_self (List.getElem?_eq_some_iff.mp hw).1
    have hfits := h.fits w hw
    refine fits_of_begun hnew ?_
    have hrefuses : s.refuses i (.register i spurious) =
        if w.isRefused s.service.desk.sources then some (resolution true) else s.outcome := by
      simp [refuses, hw]
    rw [sees_register hw, hrefuses]
    cases hp : w.place with
    | checking => exact hfits.register_of_untouched hmove (Or.inl hp)
    | enrolling => exact hfits.register_of_untouched hmove (Or.inr hp)
    | busy left =>
        rw [if_neg (by simp [Wait.isRefused, hp])]
        exact hfits.register_of_busy hmove hp
    | refused | pending | left => cases hmove <;> simp_all
  · have hother : ∀ spurious, a ≠ .register i spurious := fun spurious heq => hregister ⟨spurious, heq⟩
    rw [refuses_other hother]
    rcases TimedWaits.wait_of_step? hstep hother hstays with
      ⟨hfires, hsame | ⟨hnone, source, due, hnew⟩⟩ | ⟨hfires, harrived⟩
    · cases hw : s.service.waits[i]? with
      | none =>
          have hsees : s.sees i first a = s.meeting := by simp only [sees, hw]
          rw [hsees, hsame, hw]
          exact ⟨fun _ => h.before hw, fun v hv => by cases hv⟩
      | some w =>
          rw [sees_other hw hother, hfires, hsame]
          exact fits_of_begun hw (h.fits w hw)
    · have hsees : s.sees i first a = s.meeting := by simp only [sees, hnone]
      obtain ⟨huntouched, houtcome⟩ := h.before hnone
      rw [hsees]
      exact fits_of_begun hnew ⟨huntouched, rfl, houtcome⟩
    · cases hw : s.service.waits[i]? with
      | none =>
          rw [h.not_fires_of_none hw a] at hfires
          cases hfires
      | some w =>
          rw [hw] at harrived
          rw [sees_other hw hother, hfires]
          exact fits_of_begun harrived ((h.fits w hw).fire (h.armed_of_fires hw hfires))

/-- A wait arms its timer only when the timer thread was started. -/
theorem Kept.armed_service {a : TimedWaits.Act} {service : TimedWaits} (h : Kept i first s)
    (hmay : s.mayMove i a = true) (hstep : s.service.step? a = some service) (hstays : a ≠ .leave i)
    {w' : Wait} (hw' : service.waits[i]? = some w')
    (harmed : w'.mayHoldKey = true ∨ w'.hasLeft = true) : s.started = true := by
  by_cases hregister : ∃ spurious, a = .register i spurious
  · obtain ⟨spurious, rfl⟩ := hregister
    obtain ⟨w, v, d, hw, hmove, rfl⟩ := TimedWaits.register_of_step? hstep
    rcases getElem?_of_set hw' with ⟨-, rfl⟩ | ⟨hne, -⟩
    · cases hmove with
      | refuse hp hrequested | check hp hrequested => simp [Wait.mayHoldKey, Wait.hasLeft] at harmed
      | free hp hsource | late hp k hk hrequested | enrol hp k hk hopen =>
          simp only [mayMove, hw, Option.any_some, Wait.isEnrolling, hp, Bool.not_true, Bool.or_false,
            Bool.and_eq_true] at hmay
          exact hmay.2
      | call c rest spurious hp | called rest hp | arrive rest hp | settle hp =>
          exact h.armed w hw (Or.inl (by rw [Wait.mayHoldKey, hp]))
    · exact absurd rfl hne
  · rcases TimedWaits.wait_of_step? hstep (fun spurious heq => hregister ⟨spurious, heq⟩) hstays with
      ⟨-, hsame | ⟨-, source, due, hnew⟩⟩ | ⟨-, harrived⟩
    · exact h.armed w' (hsame ▸ hw') harmed
    · rw [hnew] at hw'
      obtain rfl := Option.some.inj hw'
      simp [Wait.mayHoldKey, Wait.hasLeft] at harmed
    · rw [harrived] at hw'
      obtain ⟨w, hw, rfl⟩ := Option.map_eq_some_iff.mp hw'
      exact h.armed w hw harmed

/-! ### The run -/

theorem Kept.service {a : TimedWaits.Act} {service : TimedWaits} (h : Kept i first s)
    (hmay : s.mayMove i a = true) (hstep : s.service.step? a = some service) (hstays : a ≠ .leave i) :
    Kept i first { s with
      service
      meeting := s.sees i first a
      shown := s.shown ++ s.service.reading a
      outcome := s.refuses i a } := by
  have hturn := TimedWaits.turns_of_step? hstep
  obtain ⟨hbefore, hfits⟩ := h.fits_service hstep hstays
  refine ⟨h.reachable.step a hstep, ?_, h.ripening.step hstep, ?_, fun hs => ?_,
    fun w => h.armed_service hmay hstep hstays, hbefore, hfits⟩
  · rw [h.count_sees a]
    exact h.once.step hstep
  · intro harrived
    have hshown : s.shown ⊆ s.shown ++ s.service.reading a := List.subset_append_left _ _
    refine hturn.goes.ripe hshown i ?_
    have hcount := h.count_sees a
    cases hfires : s.service.fires i a with
    | true => exact h.ripening.ripe_of_fires hfires
    | false =>
        rw [hfires, Bool.toNat_false, Nat.add_zero] at hcount
        have hpos : 0 < (s.sees i first a).arrivals.count .keeper := List.count_pos_iff.mpr harrived
        exact h.ripe (List.count_pos_iff.mp (by omega))
  · exact TimedWaits.exists_passed hturn (h.started hs)

theorem Kept.step {a : Act ω} (h : Kept i first s) (hstep : s.step? i first a = some s') :
    Kept i first s' := by
  cases turns_of_step? hstep with
  | service a service hmay hservice hstays => exact h.service hmay hservice hstays
  | start j w hw hp =>
      refine ⟨h.reachable, h.once, h.ripening, h.ripe, fun _ => ?_, fun _ _ _ => rfl, h.before, h.fits⟩
      refine ⟨w, List.mem_of_getElem? hw, ?_⟩
      cases hplace : w.place <;> simp_all [Wait.isEnrolling, Wait.hasPassed]
  | poll a journey w hw hp hjourney hfire =>
      obtain ⟨hbefore, hfits⟩ := fits_of_begun hw ((h.fits w hw).hop hjourney hfire (Or.inl hp))
      exact ⟨h.reachable, h.once, h.ripening, h.ripe, h.started, h.armed, hbefore, hfits⟩
  | hop a journey hjourney hfire hpoll =>
      refine ⟨h.reachable, h.once, h.ripening, h.ripe, h.started, h.armed, fun hnone => ?_, fun w hw => ?_⟩
      · obtain ⟨huntouched, houtcome⟩ := h.before hnone
        exact ⟨huntouched.hop hjourney hpoll, houtcome⟩
      · exact (h.fits w hw).hop hjourney hfire (Or.inr hpoll)
  | deliver p rest journey howing hfire =>
      refine ⟨h.reachable, h.once, h.ripening, h.ripe, h.started, h.armed, fun hnone => ?_, fun w hw => ?_⟩
      · rw [(h.before hnone).1.owing] at howing
        cases howing
      · exact (h.fits w hw).deliver howing hfire
  | unregister thread service hready hleave =>
      have hturn := TimedWaits.turns_of_step? hleave
      obtain ⟨w, hw, hp, hservice⟩ := TimedWaits.leave_of_step? hleave
      have hleft : service.waits[i]? = some { w with key := none, place := .left } := by
        rw [hservice]
        exact List.getElem?_set_self (List.getElem?_eq_some_iff.mp hw).1
      have hfits := h.fits w hw
      rw [Fits, hp] at hfits
      obtain ⟨hbefore', hfits'⟩ := fits_of_begun (m := s.meeting) (o := s.outcome) hleft
        ⟨hfits.1, hfits.2.1, thread, hready⟩
      refine ⟨h.reachable.step _ hleave, ?_, ?_, ?_, ?_, fun _ _ _ => ?_, hbefore', hfits'⟩
      · exact h.once.of_turns hturn
      · have hripening := h.ripening.step hleave
        rwa [show s.service.reading (.leave i) = [] from rfl, List.append_nil] at hripening
      · exact fun hkeeper => hturn.goes.ripe (List.Subset.refl _) i (h.ripe hkeeper)
      · exact fun hs => TimedWaits.exists_passed hturn (h.started hs)
      · exact h.armed w hw (Or.inl (by rw [Wait.mayHoldKey, hp]))
  | conclude w hw hp hnone =>
      have hfits : s.meeting.Fits first (some (resolution (w.isRequested s.service.desk.sources))) w := by
        have hfits := h.fits w hw
        cases hplace : w.place with
        | left =>
            rw [Fits, hplace] at hfits ⊢
            exact hfits
        | _ => simp [Wait.hasLeft, hplace] at hp
      obtain ⟨hbefore, hfits'⟩ := fits_of_begun hw hfits
      exact ⟨h.reachable, h.once, h.ripening, h.ripe, h.started, h.armed, hbefore, hfits'⟩

theorem Kept.of_leads (h : Leads (step? i first) {} s) : Kept i first s :=
  h.keeps (fun _ _ _ hu hstep => hu.step hstep) (kept_start i first)

/-! ### What has happened -/

/-- A wait that has begun, in whatever place, or nothing. -/
theorem Kept.begun_or_untouched (h : Kept i first s) :
    s.meeting.Untouched ∨
      ∃ w, s.service.waits[i]? = some w ∧ s.meeting.Begun first w.rendezvous ∧
        (.registrant ∈ s.meeting.arrivals → s.meeting.published = true) := by
  cases hw : s.service.waits[i]? with
  | none => exact Or.inl (h.before hw).1
  | some w =>
      have hfits := h.fits w hw
      cases hp : w.place with
      | checking | refused | enrolling =>
          rw [Fits, hp] at hfits
          exact Or.inl hfits.1
      | busy left =>
          rw [Fits, hp] at hfits
          obtain ⟨hbegun, hregistering, -⟩ := hfits
          refine Or.inr ⟨w, rfl, hbegun, fun harrived => ?_⟩
          rw [List.contains_iff_mem.mpr harrived] at hregistering
          exact hregistering.published_of_arrived
      | pending | left =>
          rw [Fits, hp] at hfits
          exact Or.inr ⟨w, rfl, hfits.1, fun _ => hfits.2.1⟩

theorem Kept.nodup (h : Kept i first s) : s.meeting.arrivals.Nodup := by
  rw [List.nodup_iff_count_le_one]
  intro p
  cases p with
  | keeper =>
      have := h.once.once
      omega
  | registrant =>
      rcases h.begun_or_untouched with huntouched | ⟨w, -, hbegun, -⟩
      · simp [huntouched.arrivals]
      · exact hbegun.once

theorem length_le_two_of_nodup {l : List Party} (h : l.Nodup) : l.length ≤ 2 := by
  have hcount : l.length = l.count .registrant + l.count .keeper := by
    clear h
    induction l with
    | nil => rfl
    | cons p rest ih => cases p <;> simp [ih] <;> omega
  have hregistrant := List.nodup_iff_count_le_one.mp h .registrant
  have hkeeper := List.nodup_iff_count_le_one.mp h .keeper
  omega

/-- All who came after the first have posted the first hop or owe it, and the port or a worker has it when
it was posted. -/
theorem Kept.posted (h : Kept i first s) :
    s.meeting.posted ++ s.meeting.owing = s.meeting.arrivals.drop 1 ∧
      s.meeting.journey.port.copies 0 + s.meeting.journey.carriers.countP (·.hop == 0)
        = s.meeting.posted.length := by
  have hlength : (s.meeting.arrivals.drop 1).length ≤ 1 := by
    have hle : s.meeting.arrivals.length ≤ 2 := length_le_two_of_nodup h.nodup
    rw [List.length_drop]
    omega
  rcases h.begun_or_untouched with huntouched | ⟨w, -, hbegun, -⟩
  · refine ⟨by simp [huntouched.posted, huntouched.owing, huntouched.arrivals], ?_⟩
    rw [huntouched.tracked.conserved 0, huntouched.posted, huntouched.hops]
    rfl
  · refine ⟨hbegun.second, ?_⟩
    rw [hbegun.tracked.conserved 0, hbegun.unfired]
    have hposted := hbegun.second
    rw [← hposted, List.length_append] at hlength
    have hpos : 0 < s.meeting.journey.hops.length :=
      List.length_pos_iff.mpr (hbegun.tracked.begun (Or.inl nofun))
    match hlist : s.meeting.posted with
    | [] => simp [Journey.isPosted]
    | [p] => simp [Journey.isPosted, hpos]
    | p :: q :: rest =>
        rw [hlist] at hlength
        simp only [List.length_cons] at hlength
        omega

/-- Who owes the first hop can post it. -/
theorem Kept.delivers (h : Kept i first s) (howing : s.meeting.owing ≠ []) :
    ∃ s', s.step? i first .deliver = some s' := by
  have hlength : (s.meeting.posted ++ s.meeting.owing).length ≤ 1 := by
    rw [h.posted.1, List.length_drop]
    have := length_le_two_of_nodup h.nodup
    omega
  rw [List.length_append] at hlength
  have hpos : 0 < s.meeting.owing.length := List.length_pos_iff.mpr howing
  have hnone : s.meeting.posted = [] := List.length_eq_zero_iff.mp (by omega)
  rcases h.begun_or_untouched with huntouched | ⟨w, -, hbegun, -⟩
  · exact absurd huntouched.owing howing
  · have hunfired : s.meeting.journey.unfired = true := by rw [hbegun.unfired, hnone]; rfl
    match hlist : s.meeting.owing with
    | [] => exact absurd hlist howing
    | p :: rest =>
        simp only [step?, hlist, Journey.step?, hunfired, if_true]
        exact ⟨_, rfl⟩

/-- A first look at a token that was asked to cancel resolves the wait and does nothing else. -/
theorem Kept.refuses_at_once (h : Kept i first s) {w : Wait} (hw : s.service.waits[i]? = some w)
    (hp : w.place = .checking) (hrequested : w.isRequested s.service.desk.sources = true)
    (spurious : Bool) :
    s.step? i first (.service (.register i spurious)) = some { s with
      service := { s.service with waits := s.service.waits.set i { w with place := .refused } }
      outcome := some (.error .operationCancelled) } := by
  have hfits := h.fits w hw
  rw [Fits, hp] at hfits
  have hmay : s.mayMove i (.register i spurious) = true := by
    simp [mayMove, hfits.1.owing, hw, Wait.isEnrolling, hp]
  have hservice : s.service.step? (.register i spurious) =
      some { s.service with waits := s.service.waits.set i { w with place := .refused } } := by
    simp [TimedWaits.step?, hw, Wait.step?, hp, hrequested]
  have hmeeting : s.sees i first (.register i spurious) = s.meeting := by
    rw [sees_register hw, Meeting.registers, hp]
  have houtcome : s.refuses i (.register i spurious) = some (.error .operationCancelled) := by
    have hrefused : w.isRefused s.service.desk.sources = true := by
      rw [Wait.isRefused, hp]
      exact hrequested
    simp [refuses, hw, hrefused, resolution]
  have hshown : s.service.reading (.register i spurious) = [] := rfl
  simp only [step?, hmay, if_true, hservice, hmeeting, houtcome, hshown, List.append_nil]

/-- A wait that was refused has nothing anywhere: no hop, no timer and no callback. -/
theorem Kept.refused (h : Kept i first s) {w : Wait} (hw : s.service.waits[i]? = some w)
    (hp : w.place = .refused) :
    s.outcome = some (.error .operationCancelled) ∧ s.meeting.arrivals = [] ∧ s.meeting.posted = [] ∧
      s.meeting.journey.hops = [] ∧ s.meeting.journey.port.ownHops = 0 ∧
      s.service.desk.shared.inbox.copies (· == i) = 0 ∧
      s.service.keeper.pc.copies (· == i) s.service.keeper.queue = 0 ∧
      ∀ k key, (s.service.desk.sources k).callbacks.get? key ≠ some i := by
  have hfits := h.fits w hw
  rw [Fits, hp] at hfits
  obtain ⟨huntouched, houtcome⟩ := hfits
  have hunarmed : s.service.unarmed i = 1 := by
    simp [TimedWaits.unarmed, hw, Wait.copies, hp]
  have honce := h.once.once
  have hport := huntouched.tracked.ownHops_of_nil huntouched.hops
  exact ⟨houtcome, huntouched.arrivals, huntouched.posted, huntouched.hops, hport, by omega, by omega,
    (owning_of_leads h.reachable).get?_ne hw (by rw [Wait.mayHoldKey, hp])⟩

/-- The wait resolves at its first look, or on the thread that ran its latest hop, having withdrawn its
callback; and what it resolves with is what the flag of its token says then. -/
theorem Kept.resolves (h : Kept i first s) {a : Act ω} (hstep : s.step? i first a = some s')
    (hnone : s.outcome = none) {o : Outcome Unit} (ho : s'.outcome = some o) :
    ∃ w, s'.service.waits[i]? = some w ∧ o = resolution (w.isRequested s.service.desk.sources) ∧
      (∀ k key, (s'.service.desk.sources k).callbacks.get? key ≠ some i) ∧
      (w.place = .refused ∨ ∃ thread, s.meeting.journey.stage = .ready thread) := by
  have howning := owning_of_leads (h.step hstep).reachable
  cases turns_of_step? hstep with
  | service a service hmay hservice hstays =>
      by_cases hregister : ∃ spurious, a = .register i spurious
      · obtain ⟨spurious, rfl⟩ := hregister
        obtain ⟨w, w', d, hw, hmove, rfl⟩ := TimedWaits.register_of_step? hservice
        have hnew : (s.service.waits.set i w')[i]? = some w' :=
          List.getElem?_set_self (List.getElem?_eq_some_iff.mp hw).1
        have hrefuses : (if w.isRefused s.service.desk.sources then some (resolution true)
            else s.outcome) = some o := by
          simpa [refuses, hw] using ho
        split at hrefuses
        · next hrefused =>
            obtain rfl := Option.some.inj hrefuses
            cases hmove with
            | refuse hp hrequested =>
                exact ⟨_, hnew, (congrArg resolution hrequested).symm, howning.get?_ne hnew rfl, Or.inl rfl⟩
            | check hp hrequested => simp [Wait.isRefused, hp, hrequested] at hrefused
            | free hp | late hp | enrol hp | call _ _ _ hp | called _ hp | arrive _ hp | settle hp =>
                simp [Wait.isRefused, hp] at hrefused
        · rw [hnone] at hrefuses
          cases hrefuses
      · rw [refuses_other fun spurious heq => hregister ⟨spurious, heq⟩, hnone] at ho
        cases ho
  | conclude w hw hp hnone' =>
      have hfits := h.fits w hw
      cases hplace : w.place with
      | left =>
          rw [Fits, hplace] at hfits
          obtain rfl := Option.some.inj ho
          exact ⟨w, hw, rfl, howning.get?_ne hw (by rw [Wait.mayHoldKey, hplace]), Or.inr hfits.2.2⟩
      | _ => simp [Wait.hasLeft, hplace] at hp
  | start | poll | hop | deliver | unregister =>
      rw [hnone] at ho
      cases ho

end TimedRun

end TaskDispatch.Timer
