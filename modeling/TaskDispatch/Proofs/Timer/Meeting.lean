/-
What belongs to one timed wait, step by step.

Until a wait enrols, and for ever if its first look refuses it, nothing that belongs to it
is anywhere (`Untouched`).  From then on (`Begun`) its hops are tracked as those of any
future, and those who have arrived after the first have posted the first hop or owe it.
The registration does its errands in order, so it arrives once and after it has published
the timer (`Registering`).  `Fits` says which of all this goes with which place of the wait,
and there is one lemma for each kind of step.
-/
import TaskDispatch.Proofs.Timer.Resolution

namespace TaskDispatch.Timer

/-! ### How a step of the service moves one wait -/

namespace TimedWaits

variable {s t : TimedWaits} {i : Nat}

/-- A step that is not the wait's own leaves the wait as it is, lets it begin, or fires its timer. -/
theorem wait_of_step? {a : Act} (h : s.step? a = some t) (hregister : ∀ spurious, a ≠ .register i spurious)
    (hleave : a ≠ .leave i) :
    s.fires i a = false ∧
        (t.waits[i]? = s.waits[i]? ∨
          s.waits[i]? = none ∧ ∃ source due, t.waits[i]? = some { source, due }) ∨
      s.fires i a = true ∧ t.waits[i]? = (s.waits[i]?).map Wait.arrive := by
  cases a with
  | wait source due =>
      obtain rfl := Option.some.inj h
      refine Or.inl ⟨rfl, ?_⟩
      by_cases hi : i < s.waits.length
      · exact Or.inl (List.getElem?_append_left hi)
      · have hnone : s.waits[i]? = none := List.getElem?_eq_none (Nat.le_of_not_lt hi)
        cases hget : (s.waits ++ [({ source, due } : Wait)])[i]? with
        | none => exact Or.inl hnone.symm
        | some w =>
            rcases getElem?_of_join hget with rfl | hold
            · exact Or.inr ⟨hnone, source, due, rfl⟩
            · rw [hnone] at hold
              cases hold
  | request source | close =>
      obtain rfl := Option.some.inj h
      exact Or.inl ⟨rfl, Or.inl rfl⟩
  | register j spurious =>
      obtain ⟨w, w', d, hw, -, rfl⟩ := register_of_step? h
      refine Or.inl ⟨rfl, Or.inl (List.getElem?_set_ne ?_)⟩
      rintro rfl
      exact hregister spurious rfl
  | leave j =>
      have hj : j ≠ i := by
        rintro rfl
        exact hleave rfl
      obtain ⟨w, -, -, rfl⟩ := leave_of_step? h
      exact Or.inl ⟨rfl, Or.inl (List.getElem?_set_ne hj)⟩
  | cancel j spurious =>
      obtain ⟨r, r', desk, -, -, rfl⟩ := cancel_of_step? h
      exact Or.inl ⟨rfl, Or.inl rfl⟩
  | shut j spurious =>
      obtain ⟨c, -, rfl⟩ := shut_of_step? h
      exact Or.inl ⟨rfl, Or.inl rfl⟩
  | keep now room =>
      cases hpc : s.keeper.pc with
      | firing timers after =>
          cases timers with
          | nil =>
              simp only [step?, keep?, Keeper.served?, Keeper.step?, hpc] at h
              obtain rfl := Option.some.inj h
              exact Or.inl ⟨by simp [fires, hpc], Or.inl rfl⟩
          | cons j rest =>
              simp only [step?, keep?, Keeper.served?, hpc] at h
              obtain rfl := Option.some.inj h
              by_cases hj : j = i
              · exact Or.inr ⟨by simp [fires, hpc, hj], by simp [hj]⟩
              · exact Or.inl ⟨by simp [fires, hpc, hj], Or.inl (by simp [hj])⟩
      | dropping timers after =>
          refine Or.inl ⟨by simp [fires, hpc], Or.inl ?_⟩
          cases timers with
          | nil | cons j rest =>
              simp only [step?, keep?, Keeper.served?, Keeper.step?, hpc] at h
              obtain rfl := Option.some.inj h
              rfl
      | _ =>
          refine Or.inl ⟨by simp [fires, hpc], Or.inl ?_⟩
          simp only [step?, keep?, Keeper.served?, hpc] at h
          split at h
          · simp at h
          · obtain rfl := Option.some.inj h
            rfl

/-- A wait that has passed its first look has passed it for good. -/
theorem exists_passed (h : Turns s t) (hpassed : ∃ w ∈ s.waits, w.hasPassed = true) :
    ∃ w ∈ t.waits, w.hasPassed = true := by
  cases h with
  | wait source due =>
      obtain ⟨w, hw, hp⟩ := hpassed
      exact ⟨w, List.mem_append_left _ hw, hp⟩
  | register j w w' d hw hmove =>
      refine exists_mem_set hw hpassed fun hp => ?_
      cases hmove with
      | refuse hp' hrequested => simp [Wait.hasPassed, hp'] at hp
      | _ => rfl
  | leave j w hw hp => exact exists_mem_set hw hpassed fun _ => rfl
  | serve j keeper hserved waits hw =>
      exact Wait.exists_of_served (P := fun w => w.hasPassed = true) hw (fun _ hp => hp) hpassed
  | _ => exact hpassed

/-- The timer of a wait that has not put it into a slot is not fired. -/
theorem Once.not_fires {fired : Nat} {a : Act} (h : Once i fired s) (hunarmed : s.unarmed i = 1) :
    s.fires i a = false := by
  cases hfires : s.fires i a with
  | false => rfl
  | true =>
      unfold fires at hfires
      split at hfires
      · split at hfires
        · next j rest after hpc =>
            have honce := h.once
            have hcopies : 0 < s.keeper.pc.copies (· == i) s.keeper.queue := by
              rw [hpc]
              simp only [Pc.copies, countP_cons_eq_add, hfires, Bool.toNat_true]
              omega
            omega
        · cases hfires
      · cases hfires

end TimedWaits

/-! ### Where the registration stands -/

/-- Whether the caller arms a timer. -/
def Caller.isArming {α : Type} : Caller α → Bool
  | arm _ => true
  | _ => false

theorem Caller.isArming_step {α : Type} {c : Caller α} {spurious : Bool} {s : Shared α}
    (h : c.isArming = false) : (c.step spurious s).2.isArming = false := by
  cases c with
  | arm pc => cases h
  | _ => rfl

/-- What is left of a registration, whether its timer was published, and whether it has arrived. -/
inductive Registering : List (Errand Nat) → (published arrived : Bool) → Prop
  | sweeping (c : Caller Nat) (e : Entry Nat) (hc : c.isArming = false) :
    Registering [.call c, .call (.arm (.place e)), .arrive] false false
  | arming (pc : Inbox.Push (Entry Nat)) : Registering [.call (.arm pc), .arrive] false false
  | armed : Registering [.call .done, .arrive] true false
  | arriving : Registering [.arrive] true false
  | done : Registering [] true true

theorem registering_errands (late : Bool) (e : Entry Nat) : Registering (errands late e) false false := by
  cases late with
  | false => exact .arming (.place e)
  | true => exact .sweeping .sweep e rfl

namespace Registering

variable {rest : List (Errand Nat)} {published arrived : Bool}

theorem call {c : Caller Nat} (h : Registering (.call c :: rest) published arrived) (spurious : Bool)
    (s : Shared Nat) :
    Registering (.call (c.step spurious s).2 :: rest) (published || c.hasPushed) arrived := by
  cases h with
  | sweeping c e hc =>
      have hnot : c.hasPushed = false := by
        cases c with
        | arm pc => cases hc
        | _ => rfl
      rw [hnot]
      exact .sweeping _ e (Caller.isArming_step hc)
  | arming pc =>
      by_cases hpushed : ∃ wasEmpty, pc = .pushed wasEmpty
      · obtain ⟨wasEmpty, rfl⟩ := hpushed
        cases wasEmpty <;> exact .armed
      · have hnot : ∀ wasEmpty, pc ≠ .pushed wasEmpty := fun wasEmpty heq => hpushed ⟨wasEmpty, heq⟩
        have hpublished : (Caller.arm pc).hasPushed = false := by
          cases pc with
          | pushed wasEmpty => exact absurd rfl (hnot wasEmpty)
          | _ => rfl
        rw [Caller.step_arm hnot, hpublished]
        exact .arming _
  | armed => exact .armed

theorem called (h : Registering (.call .done :: rest) published arrived) :
    Registering rest published arrived := by
  cases h with
  | sweeping c e hc => exact .arming (.place e)
  | armed => exact .arriving

/-- Who arrives has published the timer, has not arrived before and has no errand left. -/
theorem arrive (h : Registering (.arrive :: rest) published arrived) :
    rest = [] ∧ published = true ∧ arrived = false := by
  cases h
  exact ⟨rfl, rfl, rfl⟩

/-- Who has no errand left has published the timer and has arrived. -/
theorem settle (h : Registering [] published arrived) : published = true ∧ arrived = true := by
  cases h
  exact ⟨rfl, rfl⟩

/-- Only who has published the timer has arrived. -/
theorem published_of_arrived {left : List (Errand Nat)} (h : Registering left published true) :
    published = true := by
  cases h
  rfl

end Registering

variable {ω : Type} {i : Nat} {first : ω}

namespace Meeting

/-- Nothing that belongs to the wait is anywhere. -/
structure Untouched (m : Meeting ω) : Prop where
  tracked : Journey.Tracked none m.journey
  idle : m.journey.stage = .idle
  hops : m.journey.hops = []
  past : m.journey.past = []
  published : m.published = false
  arrivals : m.arrivals = []
  owing : m.owing = []
  posted : m.posted = []

/-- The wait has enrolled: its hops are tracked, and those who have arrived after the first have posted the
first hop or owe it.  The rendezvous knows whether somebody has arrived. -/
structure Begun (first : ω) (m : Meeting ω) (r : Rendezvous) : Prop where
  tracked : Journey.Tracked (some first) m.journey
  met : r.arrived = !m.arrivals.isEmpty
  second : m.posted ++ m.owing = m.arrivals.drop 1
  unfired : m.journey.unfired = m.posted.isEmpty
  once : m.arrivals.count .registrant ≤ 1

variable {m : Meeting ω} {r : Rendezvous}

theorem Untouched.begun (h : m.Untouched) (hr : r.arrived = false) : (m.arm first).Begun first r where
  tracked := h.tracked.arm h.hops h.idle h.past
  met := by simp [arm, hr, h.arrivals]
  second := by simp [arm, h.arrivals, h.posted, h.owing]
  unfired := by simp [arm, h.posted]
  once := by simp [arm, h.arrivals]

/-- Who arrives second owes the first hop. -/
theorem Begun.arrive {p : Party} (h : m.Begun first r)
    (hp : p = .registrant → m.arrivals.contains .registrant = false) :
    (m.arrive r p).Begun first r.arrive.2 where
  tracked := h.tracked
  met := by simp [Meeting.arrive, Rendezvous.arrive]
  second := by
    have hsecond := h.second
    have hmet := h.met
    cases harrivals : m.arrivals with
    | nil =>
        rw [harrivals] at hsecond hmet
        simpa [Meeting.arrive, Rendezvous.arrive, hmet, harrivals] using hsecond
    | cons q rest =>
        rw [harrivals] at hsecond hmet
        simp only [List.drop_succ_cons, List.drop_zero] at hsecond
        simp [Meeting.arrive, Rendezvous.arrive, hmet, harrivals, ← hsecond]
  unfired := h.unfired
  once := by
    have honce := h.once
    simp only [Meeting.arrive, List.count_append, List.count_singleton]
    by_cases hreg : p = .registrant
    · have hnot : Party.registrant ∉ m.arrivals := by simpa using hp hreg
      simp [List.count_eq_zero.mpr hnot, hreg]
    · simpa [hreg] using honce

/-- What is polled and run changes nothing but the journey. -/
theorem Begun.hop {a : Journey.Act ω} {journey : Journey ω} (h : m.Begun first r)
    (hstep : m.journey.step? a = some journey) (hfire : a ≠ .fire) :
    Begun first { m with journey } r :=
  ⟨h.tracked.step hstep, h.met, h.second, (Journey.unfired_of_step? hstep hfire).trans h.unfired, h.once⟩

theorem Begun.deliver {p : Party} {rest : List Party} {journey : Journey ω} (h : m.Begun first r)
    (howing : m.owing = p :: rest) (hfire : m.journey.step? .fire = some journey) :
    Begun first { m with journey, posted := m.posted ++ [p], owing := rest } r where
  tracked := h.tracked.step hfire
  met := h.met
  second := by
    have hsecond := h.second
    rw [howing] at hsecond
    simpa using hsecond
  unfired := by
    simp only [Journey.step?] at hfire
    split at hfire
    · obtain rfl := Option.some.inj hfire
      simp
    · simp at hfire
  once := h.once

theorem Untouched.hop {a : Journey.Act ω} {journey : Journey ω} (h : m.Untouched)
    (hstep : m.journey.step? a = some journey) (hpoll : ∀ thread waker, a ≠ .poll thread waker) :
    Untouched { m with journey } := by
  obtain ⟨hidle, hhops, hpast⟩ := Journey.untouched_of_step? hstep hpoll h.idle h.hops h.past
  exact ⟨h.tracked.step hstep, hidle, hhops, hpast, h.published, h.arrivals, h.owing, h.posted⟩

/-- How far the wait has come says how far everything else has. -/
def Fits (first : ω) (m : Meeting ω) (outcome : Option (Outcome Unit)) (w : Wait) : Prop :=
  match w.place with
  | .checking | .enrolling => m.Untouched ∧ w.rendezvous.arrived = false ∧ outcome = none
  | .refused => m.Untouched ∧ outcome = some (resolution true)
  | .busy left =>
    m.Begun first w.rendezvous ∧ Registering left m.published (m.arrivals.contains .registrant) ∧
      outcome = none ∧ m.journey.stage = .idle
  | .pending => m.Begun first w.rendezvous ∧ m.published = true ∧ outcome = none
  | .left =>
    m.Begun first w.rendezvous ∧ m.published = true ∧ ∃ thread, m.journey.stage = .ready thread

variable {outcome : Option (Outcome Unit)} {w w' : Wait} {d d' : Desk}

/-! ### The wait's own steps -/

/-- Before it enrols, a step of a wait finds everything untouched, and leaves it so or arms the timer. -/
theorem Fits.register_of_untouched (h : m.Fits first outcome w) (hmove : Wait.Moves i w d d' w')
    (hplace : w.place = .checking ∨ w.place = .enrolling) :
    (m.registers first w).Fits first
      (if w.isRefused d.sources then some (resolution true) else outcome) w' := by
  obtain ⟨huntouched, hrendezvous, hnone⟩ :
      m.Untouched ∧ w.rendezvous.arrived = false ∧ outcome = none := by
    rcases hplace with hp | hp <;> simpa only [Fits, hp] using h
  have hbegins : w.place = .enrolling → ∀ late key,
      (m.registers first w).Fits first
        (if w.isRefused d.sources then some (resolution true) else outcome)
        { w with key, place := .busy (errands late ⟨w.due, i⟩) } := by
    intro hp late key
    have hfresh : m.arrivals.contains .registrant = false := by simp [huntouched.arrivals]
    rw [registers, hp, if_neg (by simp [Wait.isRefused, hp])]
    refine ⟨huntouched.begun hrendezvous, ?_, hnone, huntouched.idle⟩
    show Registering _ m.published (m.arrivals.contains .registrant)
    rw [hfresh, huntouched.published]
    exact registering_errands late _
  cases hmove with
  | refuse hp hrequested =>
      rw [registers, hp, if_pos (by rw [Wait.isRefused, hp]; exact hrequested)]
      exact ⟨huntouched, rfl⟩
  | check hp hrequested =>
      rw [registers, hp, if_neg (by rw [Wait.isRefused, hp]; simp [hrequested])]
      exact ⟨huntouched, hrendezvous, hnone⟩
  | free hp hsource => exact hbegins hp false w.key
  | late hp k hk hrequested => exact hbegins hp true w.key
  | enrol hp k hk hopen => exact hbegins hp false _
  | call c rest spurious hp => rcases hplace with hp' | hp' <;> rw [hp'] at hp <;> cases hp
  | called rest hp => rcases hplace with hp' | hp' <;> rw [hp'] at hp <;> cases hp
  | arrive rest hp => rcases hplace with hp' | hp' <;> rw [hp'] at hp <;> cases hp
  | settle hp => rcases hplace with hp' | hp' <;> rw [hp'] at hp <;> cases hp

/-- A registration does its errands in order: it publishes the timer, and then it arrives. -/
theorem Fits.register_of_busy {left : List (Errand Nat)} (h : m.Fits first outcome w)
    (hmove : Wait.Moves i w d d' w') (hbusy : w.place = .busy left) :
    (m.registers first w).Fits first outcome w' := by
  obtain ⟨hbegun, hregistering, hnone, hidle⟩ : m.Begun first w.rendezvous ∧
      Registering left m.published (m.arrivals.contains .registrant) ∧ outcome = none ∧
        m.journey.stage = .idle := by
    simpa only [Fits, hbusy] using h
  cases hmove with
  | refuse hp hrequested | check hp hrequested | free hp hsource | late hp k hk hrequested
  | enrol hp k hk hopen =>
      rw [hbusy] at hp
      cases hp
  | call c rest spurious hp =>
      rw [hbusy] at hp
      obtain rfl := Wait.Place.busy.inj hp
      rw [registers, hbusy]
      exact ⟨⟨hbegun.tracked, hbegun.met, hbegun.second, hbegun.unfired, hbegun.once⟩,
        hregistering.call spurious d.shared, hnone, hidle⟩
  | called rest hp =>
      rw [hbusy] at hp
      obtain rfl := Wait.Place.busy.inj hp
      have hsame : m.registers first w = m := by
        rw [registers, hbusy]
        simp [Caller.hasPushed]
      rw [hsame]
      exact ⟨hbegun, hregistering.called, hnone, hidle⟩
  | arrive rest hp =>
      rw [hbusy] at hp
      obtain rfl := Wait.Place.busy.inj hp
      obtain ⟨rfl, hpublished, hfresh⟩ := hregistering.arrive
      rw [registers, hbusy]
      refine ⟨hbegun.arrive fun _ => hfresh, ?_, hnone, hidle⟩
      have harrived : (m.arrivals ++ [Party.registrant]).contains .registrant = true := by simp
      show Registering [] m.published ((m.arrivals ++ [Party.registrant]).contains .registrant)
      rw [harrived, hpublished]
      exact .done
  | settle hp =>
      rw [hbusy] at hp
      obtain rfl := Wait.Place.busy.inj hp
      rw [registers, hbusy]
      exact ⟨hbegun, hregistering.settle.1, hnone⟩

/-- The timer thread arrives at the rendezvous of a wait that has armed its timer. -/
theorem Fits.fire (h : m.Fits first outcome w) (hbegun : w.mayHoldKey = true ∨ w.hasLeft = true) :
    (m.arrive w.rendezvous .keeper).Fits first outcome w.arrive := by
  have hcontains : (m.arrivals ++ [Party.keeper]).contains .registrant
      = m.arrivals.contains .registrant := by
    simp
  have harrive : m.Begun first w.rendezvous →
      (m.arrive w.rendezvous .keeper).Begun first w.arrive.rendezvous := fun hb => hb.arrive nofun
  unfold Fits at h ⊢
  cases hp : w.place with
  | checking | refused | enrolling => simp [Wait.mayHoldKey, Wait.hasLeft, hp] at hbegun
  | busy left =>
      rw [hp] at h
      rw [show w.arrive.place = _ from hp]
      refine ⟨harrive h.1, ?_, h.2.2⟩
      show Registering left m.published ((m.arrivals ++ [Party.keeper]).contains .registrant)
      rw [hcontains]
      exact h.2.1
  | pending =>
      rw [hp] at h
      rw [show w.arrive.place = _ from hp]
      exact ⟨harrive h.1, h.2⟩
  | left =>
      rw [hp] at h
      rw [show w.arrive.place = _ from hp]
      exact ⟨harrive h.1, h.2⟩

/-- The polls and the workers leave the wait where it is. -/
theorem Fits.hop {a : Journey.Act ω} {journey : Journey ω} (h : m.Fits first outcome w)
    (hstep : m.journey.step? a = some journey) (hfire : a ≠ .fire)
    (hpoll : w.isPending = true ∨ ∀ thread waker, a ≠ .poll thread waker) :
    Fits first { m with journey } outcome w := by
  unfold Fits at h ⊢
  cases hp : w.place with
  | checking | enrolling | refused =>
      rw [hp] at h
      have hnot : ∀ thread waker, a ≠ .poll thread waker :=
        hpoll.resolve_left (by simp [Wait.isPending, hp])
      exact ⟨h.1.hop hstep hnot, h.2⟩
  | busy left =>
      rw [hp] at h
      obtain ⟨hbegun, hregistering, hnone, hidle⟩ := h
      have hnot : ∀ thread waker, a ≠ .poll thread waker :=
        hpoll.resolve_left (by simp [Wait.isPending, hp])
      exact ⟨hbegun.hop hstep hfire, hregistering, hnone, Journey.idle_of_step? hstep hnot hidle⟩
  | pending =>
      rw [hp] at h
      exact ⟨h.1.hop hstep hfire, h.2⟩
  | left =>
      rw [hp] at h
      obtain ⟨hbegun, hpublished, thread, hready⟩ := h
      exact ⟨hbegun.hop hstep hfire, hpublished, thread, Journey.ready_of_step? hstep hready⟩

/-- Who came second posts the first hop. -/
theorem Fits.deliver {p : Party} {rest : List Party} {journey : Journey ω} (h : m.Fits first outcome w)
    (howing : m.owing = p :: rest) (hfire : m.journey.step? .fire = some journey) :
    Fits first { m with journey, posted := m.posted ++ [p], owing := rest } outcome w := by
  unfold Fits at h ⊢
  cases hp : w.place with
  | checking | enrolling | refused =>
      rw [hp] at h
      rw [h.1.owing] at howing
      cases howing
  | busy left =>
      rw [hp] at h
      obtain ⟨hbegun, hregistering, hnone, hidle⟩ := h
      exact ⟨hbegun.deliver howing hfire, hregistering, hnone, Journey.idle_of_step? hfire nofun hidle⟩
  | pending =>
      rw [hp] at h
      exact ⟨h.1.deliver howing hfire, h.2⟩
  | left =>
      rw [hp] at h
      obtain ⟨hbegun, hpublished, thread, hready⟩ := h
      exact ⟨hbegun.deliver howing hfire, hpublished, thread, Journey.ready_of_step? hfire hready⟩

end Meeting

end TaskDispatch.Timer
