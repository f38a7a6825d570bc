/-
What can go on.

A call that is not over can always take its next step, unless it is in a poll of a body
or in the notifier, where it waits for somebody else.  A poll of a fan-in can go on
unless it waits for a call of an input's frame.  So whoever stands still waits for
somebody, and `exists_visit?` says for whom: a body waits for a call of an input of a
fan-in of its own.
-/
import TaskDispatch.Proofs.Tree.Reached

namespace TaskDispatch

/-! ### One frame -/

namespace Frame

variable {β α : Type} {f : Hosted β α} {c : Call β α} {j : Nat}

/-- Whether the call has returned. -/
def Call.isOver (c : Call β α) : Bool :=
  match c.place with
  | .resuming .done | .took _ => true
  | _ => false

theorem Call.returned_of_isOver (h : c.isOver = true) (hfetches : c.fetches = false) : c.returned = true := by
  obtain ⟨place, n⟩ := c
  cases place with
  | resuming pc =>
      cases pc with
      | done => rfl
      | _ => cases h
  | took t => cases hfetches
  | _ => cases h

/-- A call that is over does nothing with the task and is in no poll. -/
theorem Call.idle_of_isOver (h : c.isOver = true) :
    c.owns = false ∧ c.visits = false ∧ c.announces = false := by
  obtain ⟨place, n⟩ := c
  cases place with
  | resuming pc =>
      cases pc with
      | done => exact ⟨rfl, rfl, rfl⟩
      | _ => cases h
  | took t => exact ⟨rfl, rfl, rfl⟩
  | _ => cases h

/-- A call that is not over can take its next step. -/
theorem Hosted.Kept.exists_go (h : f.Kept) (hc : f.frame.calls[j]? = some c) (hover : c.isOver = false)
    (spurious : Bool) (r : Polled β α) : ∃ f', f.step? (.go j spurious r) = some f' := by
  have hmove : ∃ next, c.step? spurious r f.frame.shared = some next := by
    have hfits := h.calls j c hc
    have hunbroken := h.owned.unbroken c (List.mem_of_getElem? hc)
    obtain ⟨place, n⟩ := c
    cases place with
    | resuming pc =>
        cases pc with
        | done => cases hover
        | broken => exact absurd rfl hunbroken
        | _ => exact ⟨_, rfl⟩
    | inPoll lent =>
        simp only [Call.step?]
        split <;> exact ⟨_, rfl⟩
    | unwound => exact absurd hfits id
    | taking =>
        simp only [Call.step?]
        split <;> exact ⟨_, rfl⟩
    | inNotifier | moving => exact ⟨_, rfl⟩
    | took t => cases hover
  obtain ⟨⟨x, c'⟩, hmove⟩ := hmove
  exact ⟨_, Hosted.step?_go hc hmove⟩

end Frame

/-! ### One fan-in -/

namespace Gathering

open TaskDispatch.Frame (Callers Hosted Call)

variable {β α ω : Type} {s : Gathering β α ω}

/-- Some call of the frame of an input is under way. -/
def Busy (s : Gathering β α ω) : Prop :=
  ∃ (k : Nat) (f : Hosted β α) (j : Nat) (c : Call β α), s.hosts[k]? = some f ∧ f.frame.calls[j]? = some c ∧
    c.isOver = false

namespace Gathered

/-- A call of the frame of an input can take its next step, unless it waits in the notifier. -/
theorem exists_call (h : s.Gathered) {k j : Nat} {f : Hosted β α} {c : Call β α} (hf : s.hosts[k]? = some f)
    (hc : f.frame.calls[j]? = some c) (hover : c.isOver = false) (hout : c.place = .inNotifier → s.Told k)
    (spurious : Bool) (r : Polled β α) : ∃ t, s.step? (.call k j spurious r) = some t := by
  obtain ⟨f', hgo⟩ := (h.kept k f hf).exists_go hc hover spurious r
  by_cases hquiet : c.place = .resuming .notifying
  · have hannounces : c.announces = true := by rw [Call.announces, hquiet]
    have hp := h.party_of_announces hf (List.mem_of_getElem? hc) hannounces
    have hbind : (s.hosts[k]?).bind (·.frame.calls[j]?) = some c := by
      rw [hf]
      exact hc
    simp only [step?, call?, hbind, hquiet, onHost?_eq hf hgo, Option.bind_some, onRoll?, Roll.step?, hp]
    exact ⟨_, rfl⟩
  · exact ⟨_, step?_call hf hc hquiet hout hgo⟩

/-- A completion that has come can take its next step until it is done. -/
theorem exists_notify (h : s.Gathered) {k : Nat} {p : Countdown.Party ω}
    (hp : s.roll.parties[k]? = some (some p)) (hleft : p ≠ .left) : ∃ t, s.step? (.notify k) = some t := by
  have hplace : p = .arrive ∨ p = .announce ∨ p = .collect ∨ ∃ w, p = .wake w := by
    rcases h.tallied.phase with ⟨-, hopen⟩ | ⟨-, hdecided⟩
    · exact Or.inl ((hopen.party hp).resolve_right hleft)
    · obtain ⟨w, hringing⟩ := hdecided.ringing hp hleft
      rcases hringing.place with ⟨hplace, -⟩ | ⟨hplace, -⟩ | ⟨hplace, -⟩ | ⟨hplace, -⟩
      · exact Or.inr (Or.inl hplace)
      · exact Or.inr (Or.inr (Or.inl hplace))
      · exact Or.inr (Or.inr (Or.inr ⟨w, hplace⟩))
      · exact absurd hplace hleft
  simp only [step?, onRoll?, Roll.step?, hp]
  rcases hplace with rfl | rfl | rfl | ⟨w, rfl⟩ <;> exact ⟨_, rfl⟩

/-- The awaiter can count on, or the poll can go on without it. -/
theorem exists_count (h : s.Gathered) (hstage : s.stage = .counting) : ∃ t, s.step? .advance = some t := by
  obtain ⟨⟨-, hsome, -⟩, -⟩ := h.counting hstage
  have hplace : (∃ w, s.roll.awaiter = some (.register w)) ∨ s.roll.awaiter = some .enlist ∨
      s.roll.awaiter = some .claim ∨ s.roll.awaiter = some .suspended ∨ s.roll.awaiter = some .proceeds := by
    rcases h.tallied.phase with ⟨-, hopen⟩ | ⟨-, hdecided⟩
    · rcases hopen.awaiter with ⟨ha, -⟩ | ⟨w, ha, -⟩ | ⟨w, ha | ha, -⟩
      · rw [ha] at hsome
        cases hsome
      · exact Or.inl ⟨w, ha⟩
      · exact Or.inr (Or.inl ha)
      · exact Or.inr (Or.inr (Or.inr (Or.inl ha)))
    · rcases hdecided.awaiter with hpassing | ha
      · rcases hpassing.place with ⟨ha, -⟩ | ⟨ha, -⟩
        · exact Or.inr (Or.inr (Or.inl ha))
        · exact Or.inr (Or.inr (Or.inr (Or.inr ha)))
      · exact Or.inr (Or.inr (Or.inr (Or.inl ha)))
  rcases hplace with ⟨w, ha⟩ | ha | ha | ha | ha
  all_goals
    simp only [step?, advance?, hstage, ha, onRoll?, Roll.step?, Roll.advanceFrom?]
    exact ⟨_, rfl⟩

/-- **A poll of a fan-in can go on** unless it waits for a call of an input's frame. -/
theorem exists_advance (h : s.Gathered) (hresting : s.stage ≠ .resting)
    (hfinished : ∀ outs, s.stage ≠ .finished outs) : (∃ t, s.step? .advance = some t) ∨ s.Busy := by
  cases hstage : s.stage with
  | resting => exact absurd hstage hresting
  | finished outs => exact absurd hstage (hfinished outs)
  | broken =>
      have hawaiter := h.awaiter
      rw [AwaiterAt, hstage] at hawaiter
      exact absurd hawaiter id
  | looking w =>
      refine Or.inl ?_
      simp only [step?, advance?, hstage]
      split <;> exact ⟨_, rfl⟩
  | starting w k =>
      refine Or.inl ?_
      simp only [step?, advance?, hstage]
      split
      · next hlt =>
          simp only [onHost?, List.getElem?_eq_getElem hlt]
          exact ⟨_, rfl⟩
      · simp only [onRoll?, Roll.step?, (h.starts (Or.inl hstage)).2.1]
        exact ⟨_, rfl⟩
  | running w k =>
      obtain ⟨f, hf, hcalled⟩ := h.running hstage
      obtain ⟨c, rest, hcalls⟩ := List.exists_cons_of_ne_nil hcalled
      have hc : f.frame.calls[0]? = some c := by rw [hcalls]; rfl
      by_cases hreturned : c.returned = true
      · exact Or.inl ⟨_, by simp only [step?, advance?, hstage, hf, hc, hreturned, if_true]; rfl⟩
      · refine Or.inr ⟨k, f, 0, c, hf, hc, ?_⟩
        have hhost := h.host k f hf
        rw [HostAt, hstage] at hhost
        rw [Bool.eq_false_iff]
        exact fun hover => hreturned (Call.returned_of_isOver hover (hhost.2.2.2 0 c hc))
  | counting => exact Or.inl (h.exists_count hstage)
  | collecting outs =>
      refine Or.inl ?_
      simp only [step?, advance?, hstage]
      split
      · exact ⟨_, rfl⟩
      · next f hf =>
          simp only [onHost?, hf]
          exact ⟨_, rfl⟩
  | taking outs c =>
      obtain ⟨-, ⟨hlt, -⟩, hhost⟩ := h.taking hstage
      have hf := List.getElem?_eq_getElem hlt
      obtain ⟨⟨p, n, hc, hp⟩, -⟩ := (hhost _ _ hf).2.1 rfl
      rcases hp with rfl | rfl | ⟨t, rfl⟩
      · exact Or.inr ⟨_, _, c, _, hf, hc, rfl⟩
      · exact Or.inr ⟨_, _, c, _, hf, hc, rfl⟩
      · exact Or.inl ⟨_, by simp only [step?, advance?, hstage, hf, hc]; rfl⟩

/-- Nobody calls for the task of an input that is not completed. -/
theorem untaken_or_completed (h : s.Gathered) {k : Nat} {f : Hosted β α} (hf : s.hosts[k]? = some f) :
    f.Untaken ∨ f.isCompleted = true := by
  have hhost := h.host k f hf
  cases hstage : s.stage with
  | resting | looking w | starting w i =>
      rw [HostAt, hstage] at hhost
      exact Or.inl hhost.2
  | running w i =>
      rw [HostAt, hstage] at hhost
      exact Or.inl hhost.2.2.2
  | counting => exact Or.inl ((h.counting hstage).2 k f hf).2
  | collecting outs => exact Or.inr (h.completed_of_complete (h.collecting hstage).1.complete hf)
  | taking outs c => exact Or.inr (h.completed_of_complete (h.taking hstage).1.complete hf)
  | finished outs => exact Or.inr ((h.outputs hstage).1 f (List.mem_of_getElem? hf))
  | broken =>
      have hawaiter := h.awaiter
      rw [AwaiterAt, hstage] at hawaiter
      exact absurd hawaiter id

end Gathered

end Gathering

/-! ### The tree -/

namespace Grove

open TaskDispatch.Frame (Callers Hosted Call)

variable {ℓ α : Type} {s : Grove ℓ α} {n : Seat} {tree : Tree ℓ α}

theorem onBranch?_eq {g : Nat} {b : Branch ℓ α} {a : Gathering.Act (Body ℓ α) α Seat}
    {fan : Gathering (Body ℓ α) α Seat} (hb : s.branches[g]? = some b) (hstep : b.fan.step? a = some fan) :
    s.onBranch? g a = some (s.setFan g b fan) := by
  simp only [onBranch?, hb, hstep]
  rfl

/-- The call waits in the notifier of an input that is not done with the countdown. -/
def AtCountdown (s : Grove ℓ α) (n : Seat) (c : Call (Body ℓ α) α) : Prop :=
  c.place = .inNotifier ∧ ∃ g k b, n = .input g k ∧ s.branches[g]? = some b ∧ ¬ b.fan.Told k

/-- The frame waits for a call of an input of a fan-in of its own. -/
def WaitsFor (s : Grove ℓ α) (n : Seat) : Prop :=
  ∃ (g : Nat) (b : Branch ℓ α), s.branches[g]? = some b ∧ b.owner = n ∧ b.fan.Busy

namespace Reached

/-- A frame that has been polled can be woken. -/
theorem exists_wake? (hbegun : s.Begun n) : ∃ t, s.wake? n = some t := by
  obtain ⟨f, hf, hpolls⟩ := hbegun
  cases n with
  | root =>
      obtain rfl := Option.some.inj hf
      exact ⟨_, if_pos hpolls⟩
  | input g k =>
      obtain ⟨b, hb, hhost⟩ := Option.bind_eq_some_iff.mp hf
      obtain ⟨fan, hfan⟩ : ∃ fan, b.fan.step? (.wake k) = some fan := by
        simp only [Gathering.step?, hhost, hpolls, if_true, Gathering.onHost?]
        exact ⟨_, rfl⟩
      exact ⟨_, onBranch?_eq hb hfan⟩

/-- A call that is under way can take its next step, unless it waits in the notifier. -/
theorem exists_go? (h : Reached tree s) {j : Nat} {f : Hosted (Body ℓ α) α} {c : Call (Body ℓ α) α}
    (hf : s.host? n = some f) (hc : f.frame.calls[j]? = some c) (hover : c.isOver = false)
    (hout : ¬ s.AtCountdown n c) (spurious : Bool) (r : Polled (Body ℓ α) α) :
    ∃ t, s.go? n j spurious r = some t := by
  cases n with
  | root =>
      obtain rfl := Option.some.inj hf
      obtain ⟨root, hgo⟩ := h.kept.exists_go hc hover spurious r
      simp only [go?, hc, onRoot?, hgo, Option.map_some]
      split <;> exact ⟨_, rfl⟩
  | input g k =>
      obtain ⟨b, hb, hhost⟩ := Option.bind_eq_some_iff.mp hf
      obtain ⟨fan, hfan⟩ := (h.rooted.gathered hb).exists_call hhost hc hover
        (fun hplace => Classical.byContradiction fun htold => hout ⟨hplace, g, k, b, rfl, hb, htold⟩) spurious r
      exact ⟨_, onBranch?_eq hb hfan⟩

/-- A call that is under way can take its next step, unless it waits in a poll of a body or in the
notifier. -/
theorem exists_call? (h : Reached tree s) {j : Nat} {f : Hosted (Body ℓ α) α} {c : Call (Body ℓ α) α}
    (hf : s.host? n = some f) (hc : f.frame.calls[j]? = some c) (hover : c.isOver = false)
    (hout : ¬ s.AtCountdown n c)
    (hback : c.visits = true → ∃ v r, s.visits n = some v ∧ v.result? = some r) (spurious : Bool) :
    ∃ t, s.call? n j spurious = some t := by
  have hgo := h.exists_go? hf hc hover hout spurious
  obtain ⟨t, ht⟩ := hgo Gathering.noPoll
  obtain ⟨place, m⟩ := c
  cases place with
  | resuming pc =>
      cases pc with
      | polling =>
          simp only [call?, hf, hc, ht]
          exact ⟨_, rfl⟩
      | _ => exact ⟨t, by simp only [call?, hf, hc]; exact ht⟩
  | inPoll lent =>
      cases hlent : lent.begin? with
      | none => exact ⟨t, by simp only [call?, hf, hc, hlent]; exact ht⟩
      | some b =>
          obtain ⟨v, r, hv, hr⟩ := hback (by simp only [Call.visits, hlent]; rfl)
          obtain ⟨u, hu⟩ := hgo r
          simp only [call?, hf, hc, hlent, hv, Option.bind_some, hr, hu]
          exact ⟨_, rfl⟩
  | _ => exact ⟨t, by simp only [call?, hf, hc]; exact ht⟩

/-- **A poll of a body can go on**, or is over, or waits for a call of an input of a fan-in of its own. -/
theorem exists_visit? [DecidableEq ℓ] (h : Reached tree s) {v : Visit ℓ α} (hv : s.visits n = some v) :
    (∃ t, s.visit? n v = some t) ∨ (∃ r, v.result? = some r) ∨ s.WaitsFor n := by
  obtain ⟨f, hf⟩ := h.tended.seated n v hv
  have hat := ((h.tended.frame n f hf).goes v hv).2
  obtain ⟨focus, within⟩ := v
  cases focus with
  | body b =>
      refine Or.inl ?_
      cases b with
      | run p =>
          cases p with
          | leaf l next =>
              simp only [visit?]
              split <;> exact ⟨_, rfl⟩
          | _ => exact ⟨_, rfl⟩
      | inTask t next =>
          simp only [visit?, Visit.turn?]
          split <;> exact ⟨_, rfl⟩
      | inAll g next => exact ⟨_, rfl⟩
  | asks g next =>
      refine Or.inl ?_
      obtain ⟨b, hb, -, hstage⟩ := hat g rfl
      have hfan : ∃ fan, b.fan.step? (.poll n) = some fan := by
        simp only [Gathering.step?, hstage]
        exact ⟨_, rfl⟩
      obtain ⟨fan, hfan⟩ := hfan
      simp only [visit?, onBranch?_eq hb hfan]
      exact ⟨_, rfl⟩
  | awaits g next =>
      obtain ⟨b, hb, howner, -⟩ := hat
      by_cases hresting : b.fan.stage = .resting
      · exact Or.inl ⟨_, by simp only [visit?, hb, hresting]; rfl⟩
      · by_cases hfinished : ∃ outs, b.fan.stage = .finished outs
        · obtain ⟨outs, hstage⟩ := hfinished
          exact Or.inl ⟨_, by simp only [visit?, hb, hstage]; rfl⟩
        · rcases (h.rooted.gathered hb).exists_advance hresting (fun outs hstage => hfinished ⟨outs, hstage⟩) with
            ⟨fan, hfan⟩ | hbusy
          · refine Or.inl ⟨s.setFan g b fan, ?_⟩
            simp only [visit?, hb]
            split
            · next hstage => exact absurd hstage hresting
            · next outs hstage => exact absurd ⟨outs, hstage⟩ hfinished
            · exact onBranch?_eq hb hfan
          · exact Or.inr (Or.inr ⟨g, b, hb, howner, hbusy⟩)
  | suspended b | ended outcome | panicked p =>
      cases within with
      | nil => exact Or.inr (Or.inl ⟨_, rfl⟩)
      | cons around rest => exact Or.inl ⟨_, rfl⟩

end Reached

end Grove

end TaskDispatch
