/-
What the polls of a fan-in keep.

The first poll goes from input to input and counts the awaiter in.  A suspended awaiter
leaves an input behind that has not counted; its first call has returned, so a poll of
it has suspended (`count`).  A poll that begins after every input has notified finds
the countdown complete (`pend`).  A poll that has found it complete takes a task out of
every frame (`took`, `missed`).

`gathered_of_leads` is the induction over runs.
-/
import TaskDispatch.Proofs.FanIn.Stages

namespace TaskDispatch.Gathering

open TaskDispatch.Frame (Callers Hosted)

variable {β α ω : Type} {s t : Gathering β α ω}

/-- Nothing but the stage changes, or who polls. -/
theorem Linked.restage (h : s.Linked) {started late : Bool} {stage : Stage β α ω} {wakers : List ω}
    (hwakers : ∀ w, s.wakers.head? = some w → wakers.head? = some w) :
    Linked { s with started, stage, wakers, late } where
  kept := h.kept
  tallied := h.tallied
  told := h.told
  first := h.first
  asked w hw := hwakers w (h.asked w hw)
  suspended := h.suspended

/-- The countdown moves, and no completion with it. -/
theorem Linked.ofRoll (h : s.Linked) (hn : s.hosts.length < 2 ^ 64) {a : Roll.Act ω} {roll : Roll ω}
    {stage : Stage β α ω} (hroll : s.roll.step? a = some roll) (hparties : roll.parties = s.roll.parties)
    (hasked : ∀ w, roll.asked = some w → s.wakers.head? = some w)
    (hsuspended : roll.awaiter = some .suspended → ∃ f ∈ s.hosts, f.hasSuspended = true) :
    Linked { s with roll, stage } where
  kept := h.kept
  tallied := h.tallied.step hn (Roll.turns_of_step? hroll)
  told k f hf := by
    show ∃ p, roll.parties[k]? = some p ∧ _
    rw [hparties]
    exact h.told k f hf
  first k f hf := by
    refine (h.first k f hf).imp_right ?_
    rintro ⟨c, hc, hat⟩
    refine ⟨c, hc, hat.mono fun htold => ?_⟩
    show roll.parties[k]? = some (some .left)
    rw [hparties]
    exact htold
  asked := hasked
  suspended := hsuspended

theorem matches_nil (s : Gathering β α ω) : s.Matches [] := by
  intro i t f ht
  cases ht

namespace Gathered

/-! ### A poll begins -/

theorem poll (h : s.Gathered) (w : ω) (hstage : s.stage = .resting) :
    Gathered { s with stage := .looking w, wakers := s.wakers ++ [w], late := s.roll.allLeft } := by
  have hhost := h.host
  have hawaiter := h.awaiter
  refine ⟨h.toLinked.restage fun v hv => by rw [List.head?_append, hv]; rfl, ?_, ⟨id, ?_⟩, trivial⟩
  · intro k f hf
    have := hhost k f hf
    rw [HostAt, hstage] at this
    exact this
  · rw [AwaiterAt, hstage] at hawaiter
    show if s.started then _ else _
    cases hstarted : s.started with
    | true =>
        simp only [hstarted, if_true] at hawaiter ⊢
        refine ⟨hawaiter.1, ?_⟩
        have := List.length_pos_iff.mpr hawaiter.2.1
        rw [List.length_append, List.length_singleton]
        omega
    | false =>
        simp only [hstarted, Bool.false_eq_true, if_false] at hawaiter ⊢
        exact ⟨hawaiter.1, by rw [hawaiter.2]; rfl⟩

theorem nothing (h : s.Gathered) {w : ω} (hstage : s.stage = .looking w) (hfirst : s.started = false)
    (hnone : s.hosts = []) : Gathered { s with started := true, stage := .finished [] } := by
  have hawaiter := h.awaiter
  simp only [AwaiterAt, hstage, hfirst, Bool.false_eq_true, if_false] at hawaiter
  refine ⟨h.toLinked.restage fun v hv => hv, fun _ _ _ => trivial, Or.inr ⟨hnone, rfl, hawaiter.2.1, ?_⟩,
    ?_, ?_⟩
  · show s.wakers.length = 1
    rw [hawaiter.2.2]
    rfl
  · show 0 = s.hosts.length
    rw [hnone]
    rfl
  · exact matches_nil _

/-- The first poll does not come late, unless there is nothing to wait for. -/
theorem not_late_of_fresh (h : s.Gathered) {f : Hosted β α} {k : Nat} (hf : s.hosts[k]? = some f)
    (hfresh : f.Fresh) (hlate : s.late = true → s.roll.allLeft = true) : s.late = false := by
  rw [Bool.eq_false_iff]
  intro htrue
  obtain ⟨p, hp, hiff⟩ := h.told k f hf
  have hleft := Roll.allLeft_iff.mp (hlate htrue) p (List.mem_of_getElem? hp)
  rw [hleft, hfresh.notices] at hiff
  exact Nat.lt_irrefl 0 (hiff.mp rfl)

theorem begin (h : s.Gathered) {w : ω} (hstage : s.stage = .looking w) (hfirst : s.started = false)
    (hsome : s.hosts ≠ []) : Gathered { s with started := true, stage := .starting w 0 } := by
  have hawaiter := h.awaiter
  simp only [AwaiterAt, hstage, hfirst, Bool.false_eq_true, if_false] at hawaiter
  have hhost : ∀ (k : Nat) f, s.hosts[k]? = some f → f.Fresh ∧ f.Untaken := by
    intro k f hf
    have := h.host k f hf
    simp only [HostAt, hstage, hfirst, Bool.false_eq_true, if_false] at this
    exact this
  refine ⟨h.toLinked.restage fun v hv => hv, ?_, ⟨rfl, hawaiter.2.1, hawaiter.2.2, ?_⟩, trivial⟩
  · intro k f hf
    simp only [HostAt, Nat.not_lt_zero, if_false]
    exact hhost k f hf
  · obtain ⟨f, rest, hcons⟩ := List.exists_cons_of_ne_nil hsome
    have hf : s.hosts[0]? = some f := by rw [hcons]; rfl
    exact h.not_late_of_fresh hf (hhost 0 f hf).1 hawaiter.1

/-! ### A later poll looks -/

theorem looks (h : s.Gathered) {w : ω} (hstage : s.stage = .looking w) (hlater : s.started = true) :
    (s.late = true → s.roll.allLeft = true) ∧ s.roll.awaiter = some .suspended ∧ 2 ≤ s.wakers.length := by
  have hawaiter := h.awaiter
  simp only [AwaiterAt, hstage, hlater, if_true] at hawaiter
  exact hawaiter

theorem started (h : s.Gathered) {w : ω} (hstage : s.stage = .looking w) (hlater : s.started = true)
    (k : Nat) (f : Hosted β α) (hf : s.hosts[k]? = some f) : f.Started ∧ f.Untaken := by
  have := h.host k f hf
  simp only [HostAt, hstage, hlater, if_true] at this
  exact this

theorem collect (h : s.Gathered) {w : ω} (hstage : s.stage = .looking w) (hlater : s.started = true)
    (hready : s.roll.countdown.complete = true) : Gathered (s.moveTo (.collecting [])) := by
  obtain ⟨-, hsuspended, hwakers⟩ := h.looks hstage hlater
  refine ⟨h.toLinked.restage fun v hv => hv, ?_, ⟨hlater, hready, Or.inr ⟨hsuspended, hwakers⟩⟩,
    Nat.zero_le _, matches_nil _⟩
  intro k f hf
  obtain ⟨hstarted, huntaken⟩ := h.started hstage hlater k f hf
  exact ⟨hstarted, fun _ => huntaken⟩

/-- **A poll that comes late does not end pending**: the completion that came last has announced it. -/
theorem pend (h : s.Gathered) {w : ω} (hstage : s.stage = .looking w) (hlater : s.started = true)
    (hready : s.roll.countdown.complete = false) : Gathered (s.moveTo .resting) := by
  obtain ⟨hlate, hsuspended, hwakers⟩ := h.looks hstage hlater
  refine ⟨h.toLinked.restage fun v hv => hv, ?_, ?_, trivial⟩
  · intro k f hf
    have := h.host k f hf
    rw [HostAt, hstage] at this
    exact this
  · simp only [AwaiterAt, moveTo, hlater, if_true]
    refine ⟨hsuspended, ?_, ?_⟩
    · intro hnil
      rw [hnil] at hwakers
      cases hwakers
    · rw [Bool.eq_false_iff]
      intro htrue
      obtain ⟨k, v, hwakes⟩ := h.tallied.woken_of_left hsuspended (Roll.allLeft_iff.mp (hlate htrue))
      have hcomplete := (h.tallied.of_wake (hwakes ▸ List.mem_singleton.mpr rfl)).2.2.2.2.1
      rw [hready] at hcomplete
      cases hcomplete

/-! ### The first poll goes from input to input -/

theorem starts (h : s.Gathered) {w : ω} {k : Nat}
    (hstage : s.stage = .starting w k ∨ s.stage = .running w k) :
    s.started = true ∧ s.roll.awaiter = none ∧ s.wakers = [w] ∧ s.late = false := by
  have hawaiter := h.awaiter
  rcases hstage with hstage | hstage
  · rw [AwaiterAt, hstage] at hawaiter
    exact hawaiter
  · rw [AwaiterAt, hstage] at hawaiter
    exact hawaiter

theorem start (h : s.Gathered) {w : ω} {k : Nat} {f f' : Hosted β α} (hstage : s.stage = .starting w k)
    (hf : s.hosts[k]? = some f) (hstep : f.step? .resume = some f') :
    Gathered { s with hosts := s.hosts.set k f', stage := .running w k } := by
  have hturn := Hosted.turns_of_step? hstep
  have hhost : ∀ (j : Nat) g, s.hosts[j]? = some g →
      (if j < k then g.Started else g.Fresh) ∧ g.Untaken := by
    intro j g hg
    have := h.host j g hg
    rw [HostAt, hstage] at this
    exact this
  have hfresh : f.Fresh ∧ f.Untaken := by simpa using hhost k f hf
  have hlinked := h.toLinked.set hf hstep h.tallied (.refl _) (hfresh.1.firstCall hturn _)
    (h.toLinked.told_of_quiet hf (Hosted.notices_of_turns hturn (by simp)))
  refine ⟨hlinked.restage fun v hv => hv, ?_, h.starts (Or.inl hstage), ?_⟩
  · intro j g hg
    rcases getElem?_of_set hg with ⟨rfl, rfl⟩ | ⟨hne, hold⟩
    · exact ⟨fun hlt => absurd hlt (Nat.lt_irrefl _), fun hlt => absurd hlt (Nat.lt_irrefl _),
        fun _ => Hosted.called_of_resume hturn, hfresh.2.step hturn (by simp)⟩
    · obtain ⟨hat, huntaken⟩ := hhost j g hold
      refine ⟨fun hlt => ?_, fun hlt => ?_, fun heq => absurd heq hne, huntaken⟩
      · rw [if_pos hlt] at hat
        exact hat
      · rw [if_neg (Nat.lt_asymm hlt)] at hat
        exact hat
  · show k < (s.hosts.set k f').length
    rw [List.length_set]
    exact (List.getElem?_eq_some_iff.mp hf).1

theorem next (h : s.Gathered) {w : ω} {k : Nat} {f : Hosted β α} {c : Frame.Call β α}
    (hstage : s.stage = .running w k) (hf : s.hosts[k]? = some f) (hc : f.frame.calls[0]? = some c)
    (hreturned : c.returned = true) : Gathered (s.moveTo (.starting w (k + 1))) := by
  refine ⟨h.toLinked.restage fun v hv => hv, ?_, h.starts (Or.inr hstage), trivial⟩
  intro j g hg
  have hat := h.host j g hg
  rw [HostAt, hstage] at hat
  obtain ⟨hbefore, hafter, -, huntaken⟩ := hat
  refine ⟨?_, huntaken⟩
  by_cases hj : j < k + 1
  · rw [if_pos hj]
    rcases Nat.lt_or_eq_of_le (Nat.le_of_lt_succ hj) with hlt | rfl
    · exact hbefore hlt
    · obtain rfl := Option.some.inj (hf.symm.trans hg)
      exact ⟨c, hc, hreturned⟩
  · rw [if_neg hj]
    exact hafter (by omega)

/-! ### The first poll counts -/

theorem await (h : s.Gathered) (hn : s.hosts.length < 2 ^ 64) {w : ω} {k : Nat} {roll : Roll ω}
    (hstage : s.stage = .starting w k) (hall : s.hosts.length ≤ k)
    (hroll : s.roll.step? (.await w) = some roll) : Gathered { s with roll, stage := .counting } := by
  obtain ⟨hstarted, -, hwakers, hlate⟩ := h.starts (Or.inl hstage)
  have hroll' := Roll.of_await hroll
  have hlinked : Linked { s with roll, stage := .counting } := by
    refine h.toLinked.ofRoll hn hroll (by rw [hroll']) ?_ (by rw [hroll']; nofun)
    intro v hv
    rw [hroll'] at hv
    obtain rfl := Option.some.inj hv
    rw [hwakers]
    rfl
  refine ⟨hlinked, ?_, ⟨hstarted, by rw [hroll']; rfl, by rw [hwakers]; rfl, hlate⟩, trivial⟩
  intro j g hg
  have hat := h.host j g hg
  have hlt : j < k := Nat.lt_of_lt_of_le (List.getElem?_eq_some_iff.mp hg).1 hall
  simp only [HostAt, hstage, hlt, if_true] at hat
  exact hat

theorem counting (h : s.Gathered) (hstage : s.stage = .counting) :
    (s.started = true ∧ s.roll.awaiter.isSome = true ∧ s.wakers.length = 1 ∧ s.late = false) ∧
      ∀ (k : Nat) f, s.hosts[k]? = some f → f.Started ∧ f.Untaken := by
  have hawaiter := h.awaiter
  rw [AwaiterAt, hstage] at hawaiter
  refine ⟨hawaiter, ?_⟩
  intro k f hf
  have := h.host k f hf
  rw [HostAt, hstage] at this
  exact this

/-- **An awaiter that suspends leaves an input behind that has suspended**: all first calls have returned,
and an input that has not counted is not done with its notifier. -/
theorem exists_suspended (h : s.Gathered) (hn : s.hosts.length < 2 ^ 64) (hstage : s.stage = .counting)
    {roll : Roll ω} (hroll : s.roll.step? .advance = some roll)
    (hsuspended : roll.awaiter = some .suspended) : ∃ f ∈ s.hosts, f.hasSuspended = true := by
  obtain ⟨-, hhost⟩ := h.counting hstage
  cases Roll.turns_of_step? hroll with
  | suspend ha hmore =>
      obtain ⟨k, p, hp, hne⟩ := h.tallied.exists_uncounted hn ha hmore
      have hlt : k < s.hosts.length := by
        rw [← h.tallied.length]
        exact (List.getElem?_eq_some_iff.mp hp).1
      have hf : s.hosts[k]? = some s.hosts[k] := List.getElem?_eq_getElem hlt
      refine ⟨s.hosts[k], List.getElem_mem hlt, ?_⟩
      obtain ⟨hstarted, -⟩ := hhost k _ hf
      rcases h.first k _ hf with hfresh | hfirst
      · obtain ⟨c, hc, -⟩ := hstarted
        rw [hfresh.calls] at hc
        cases hc
      · refine (hfirst.of_started hstarted).resolve_left fun htold => ?_
        exact hne (Option.some.inj (hp.symm.trans htold))
  | enter k hk => exact h.suspended hsuspended
  | pass k hk hmore => exact h.suspended hsuspended
  | last k hk hlast => exact h.suspended hsuspended
  | announce k hk => exact h.suspended hsuspended
  | collect k w hk hw => exact h.suspended hsuspended
  | leave k hk hw => exact h.suspended hsuspended
  | wake k w hk => exact h.suspended hsuspended
  | await w ha => cases hsuspended
  | register w ha => cases hsuspended
  | win ha hlast => cases hsuspended
  | claim ha => cases hsuspended

theorem count (h : s.Gathered) (hn : s.hosts.length < 2 ^ 64) {roll : Roll ω}
    (hstage : s.stage = .counting) (hroll : s.roll.step? .advance = some roll) :
    Gathered { s with roll } := by
  obtain ⟨⟨hstarted, -, hwakers, hlate⟩, hhost⟩ := h.counting hstage
  obtain ⟨hparties, hasked, hsome⟩ := Roll.of_advance hroll
  have hlinked : Linked { s with roll } :=
    h.toLinked.ofRoll hn hroll hparties (fun w hw => h.asked w (hasked ▸ hw))
      (h.exists_suspended hn hstage hroll)
  refine ⟨hlinked, h.host, ?_, ?_⟩
  · rw [AwaiterAt, hstage]
    exact ⟨hstarted, hsome, hwakers, hlate⟩
  · rw [OutsAt, hstage]
    trivial

theorem suspend (h : s.Gathered) (hstage : s.stage = .counting)
    (ha : s.roll.awaiter = some .suspended) : Gathered (s.moveTo .resting) := by
  obtain ⟨⟨hstarted, -, hwakers, hlate⟩, hhost⟩ := h.counting hstage
  refine ⟨h.toLinked.restage fun v hv => hv, ?_, ?_, trivial⟩
  · intro k f hf
    simp only [HostAt, moveTo, hstarted, if_true]
    exact hhost k f hf
  · simp only [AwaiterAt, moveTo, hstarted, if_true]
    refine ⟨ha, ?_, hlate⟩
    intro hnil
    rw [hnil] at hwakers
    cases hwakers

theorem proceed (h : s.Gathered) (hstage : s.stage = .counting)
    (ha : s.roll.awaiter = some .proceeds) : Gathered (s.moveTo (.collecting [])) := by
  obtain ⟨⟨hstarted, -, hwakers, -⟩, hhost⟩ := h.counting hstage
  obtain ⟨hcomplete, -⟩ := h.tallied.of_proceeds ha
  refine ⟨h.toLinked.restage fun v hv => hv, ?_, ⟨hstarted, hcomplete, Or.inl ⟨ha, hwakers⟩⟩,
    Nat.zero_le _, matches_nil _⟩
  intro k f hf
  exact ⟨(hhost k f hf).1, fun _ => (hhost k f hf).2⟩

/-! ### A poll takes the tasks -/

theorem collecting (h : s.Gathered) {outs : List (Task β α)} (hstage : s.stage = .collecting outs) :
    s.Serves ∧ (outs.length ≤ s.hosts.length ∧ s.Matches outs) ∧
      ∀ (k : Nat) f, s.hosts[k]? = some f → f.Started ∧ (outs.length ≤ k → f.Untaken) := by
  have hawaiter := h.awaiter
  have houts := h.outs
  rw [AwaiterAt, hstage] at hawaiter
  rw [OutsAt, hstage] at houts
  refine ⟨hawaiter, houts, ?_⟩
  intro k f hf
  have := h.host k f hf
  rw [HostAt, hstage] at this
  exact this

theorem taking (h : s.Gathered) {outs : List (Task β α)} {c : Nat} (hstage : s.stage = .taking outs c) :
    s.Serves ∧ (outs.length < s.hosts.length ∧ s.Matches outs) ∧
      ∀ (k : Nat) f, s.hosts[k]? = some f →
        f.Started ∧ (k = outs.length → f.TakenBy c) ∧ (outs.length < k → f.Untaken) := by
  have hawaiter := h.awaiter
  have houts := h.outs
  rw [AwaiterAt, hstage] at hawaiter
  rw [OutsAt, hstage] at houts
  refine ⟨hawaiter, houts, ?_⟩
  intro k f hf
  have := h.host k f hf
  rw [HostAt, hstage] at this
  exact this

theorem take (h : s.Gathered) {outs : List (Task β α)} {f f' : Hosted β α}
    (hstage : s.stage = .collecting outs) (hf : s.hosts[outs.length]? = some f)
    (hstep : f.step? .take = some f') :
    Gathered { s with
      hosts := s.hosts.set outs.length f'
      stage := .taking outs f.frame.calls.length } := by
  obtain ⟨hserves, ⟨-, hmatches⟩, hhost⟩ := h.collecting hstage
  have hturn := Hosted.turns_of_step? hstep
  have hlt : outs.length < s.hosts.length := (List.getElem?_eq_some_iff.mp hf).1
  obtain ⟨hstarted, huntaken⟩ := hhost _ f hf
  have hcompleted := h.completed_of_complete hserves.complete hf
  have hfirst : f'.FirstCall (s.Told outs.length) := by
    rcases h.first _ f hf with hfresh | hfirst
    · obtain ⟨c, hc, -⟩ := hstarted
      rw [hfresh.calls] at hc
      cases hc
    · exact hfirst.step (h.kept _ f hf) hturn nofun (fun _ => hstarted) nofun
  have hlinked := h.toLinked.set hf hstep h.tallied (.refl _) hfirst
    (h.toLinked.told_of_quiet hf (Hosted.notices_of_turns hturn nofun))
  refine ⟨hlinked.restage fun v hv => hv, ?_, ⟨hserves.started, hserves.complete, hserves.awaiter⟩, ?_⟩
  · intro j g hg
    rcases getElem?_of_set hg with ⟨rfl, rfl⟩ | ⟨hne, hold⟩
    · exact ⟨hstarted.step hturn, fun _ => (huntaken (Nat.le_refl _)).take hturn,
        fun hlt => absurd hlt (Nat.lt_irrefl _)⟩
    · obtain ⟨hgstarted, hguntaken⟩ := hhost j g hold
      exact ⟨hgstarted, fun heq => absurd heq hne, fun hlt => hguntaken (Nat.le_of_lt hlt)⟩
  · refine ⟨?_, ?_⟩
    · show outs.length < (s.hosts.set outs.length f').length
      rw [List.length_set]
      exact hlt
    · exact hmatches.set s.roll hf ((h.kept _ f hf).outcome_of_completed hcompleted hstep)

theorem took (h : s.Gathered) {outs : List (Task β α)} {c n : Nat} {f : Hosted β α} {t : Task β α}
    (hstage : s.stage = .taking outs c) (hf : s.hosts[outs.length]? = some f)
    (hc : f.frame.calls[c]? = some ⟨.took (some t), n⟩) :
    Gathered (s.moveTo (.collecting (outs ++ [t]))) := by
  obtain ⟨hserves, ⟨hlt, hmatches⟩, hhost⟩ := h.taking hstage
  refine ⟨h.toLinked.restage fun v hv => hv, ?_, ⟨hserves.started, hserves.complete, hserves.awaiter⟩, ?_⟩
  · intro k g hg
    obtain ⟨hstarted, -, huntaken⟩ := hhost k g hg
    refine ⟨hstarted, fun hle => huntaken ?_⟩
    rw [List.length_append, List.length_singleton] at hle
    exact hle
  · refine ⟨?_, ?_⟩
    · rw [List.length_append, List.length_singleton]
      exact hlt
    · intro i o g ho hg
      rw [List.getElem?_append] at ho
      split at ho
      · exact hmatches i o g ho hg
      · next hnot =>
          have hi : i - outs.length < [t].length := (List.getElem?_eq_some_iff.mp ho).1
          rw [List.length_singleton] at hi
          obtain rfl : i = outs.length := by omega
          rw [Nat.sub_self] at ho
          obtain rfl := Option.some.inj ho
          obtain rfl := Option.some.inj (hf.symm.trans hg)
          exact (h.kept _ f hf).took hc

/-- **No frame is without its task** when a poll asks for it. -/
theorem missed (h : s.Gathered) {outs : List (Task β α)} {c n : Nat} {f : Hosted β α}
    (hstage : s.stage = .taking outs c) (hf : s.hosts[outs.length]? = some f)
    (hc : f.frame.calls[c]? = some ⟨.took none, n⟩) : False := by
  obtain ⟨-, -, hhost⟩ := h.taking hstage
  obtain ⟨⟨p, m, hp, hplace⟩, -⟩ := (hhost _ f hf).2.1 rfl
  obtain rfl := Frame.Call.mk.inj (Option.some.inj (hc.symm.trans hp)) |>.1
  rcases hplace with hplace | hplace | ⟨t, hplace⟩ <;> cases hplace

theorem finish (h : s.Gathered) {outs : List (Task β α)} (hstage : s.stage = .collecting outs)
    (hall : s.hosts.length ≤ outs.length) : Gathered (s.moveTo (.finished outs)) := by
  obtain ⟨hserves, ⟨hle, hmatches⟩, -⟩ := h.collecting hstage
  exact ⟨h.toLinked.restage fun v hv => hv, fun _ _ _ => trivial,
    Or.inl ⟨hserves.started, hserves.complete, hserves.awaiter⟩, Nat.le_antisymm hle hall, hmatches⟩

/-! ### Every act -/

/-- Every act keeps a fan-in gathered. -/
theorem step (h : s.Gathered) (hn : s.hosts.length < 2 ^ 64) (hturn : Turns s t) : t.Gathered := by
  cases hturn with
  | poll w hstage => exact h.poll w hstage
  | nothing w hstage hfirst hnone => exact h.nothing hstage hfirst hnone
  | begin w hstage hfirst hsome => exact h.begin hstage hfirst hsome
  | collect w hstage hlater hready => exact h.collect hstage hlater hready
  | pend w hstage hlater hready => exact h.pend hstage hlater hready
  | start w k f f' hstage hf hstep => exact h.start hstage hf hstep
  | started w k f c hstage hf hc hreturned => exact h.next hstage hf hc hreturned
  | await w k roll hstage hall hroll => exact h.await hn hstage hall hroll
  | count roll hstage hroll => exact h.count hn hstage hroll
  | suspend hstage ha => exact h.suspend hstage ha
  | proceed hstage ha => exact h.proceed hstage ha
  | take outs f f' hstage hf hstep => exact h.take hstage hf hstep
  | took outs c n f t hstage hf hc => exact h.took hstage hf hc
  | missed outs c n f hstage hf hc => exact absurd (h.missed hstage hf hc) id
  | finish outs hstage hall => exact h.finish hstage hall
  | wake k f f' hf hpolls hstep => exact h.wake hf hpolls hstep
  | call k j spurious r f f' c hf hc hquiet hleft hstep => exact h.call hf hc hquiet hleft hstep
  | announce k j n spurious r f f' roll hf hc hstep hroll => exact h.announce hn hf hc hstep hroll
  | notify k roll hroll => exact h.notify hn hroll

end Gathered

theorem gathered_start (inputs : List (Task β α)) (hsound : ∀ t ∈ inputs, t.Sound) :
    (start inputs : Gathering β α ω).Gathered := by
  have hhost : ∀ (k : Nat) f, (start inputs : Gathering β α ω).hosts[k]? = some f →
      f.Kept ∧ f.Fresh ∧ k < inputs.length := by
    intro k f hf
    simp only [start, List.getElem?_map, Option.map_eq_some_iff] at hf
    obtain ⟨t, ht, rfl⟩ := hf
    exact ⟨Hosted.kept_start (hsound t (List.mem_of_getElem? ht)), rfl,
      (List.getElem?_eq_some_iff.mp ht).1⟩
  refine ⟨⟨fun k f hf => (hhost k f hf).1, ?_, ?_, fun k f hf => Or.inl (hhost k f hf).2.1, nofun, nofun⟩,
    ?_, ⟨rfl, rfl⟩, trivial⟩
  · simpa [start] using Roll.Tallied.start inputs.length
  · intro k f hf
    obtain ⟨-, hfresh, hlt⟩ := hhost k f hf
    refine ⟨none, ?_, by rw [hfresh.notices]; simp⟩
    simp [start, Roll.start, hlt]
  · intro k f hf
    exact ⟨(hhost k f hf).2.1, (hhost k f hf).2.1.untaken⟩

/-- The inputs stay as many as they were, and each frame stays around its input. -/
theorem inputs_of_turns (h : Turns s t) : t.hosts.map (·.input) = s.hosts.map (·.input) := by
  have hset : ∀ (k : Nat) (f f' : Hosted β α) (a : Callers.Act β α), s.hosts[k]? = some f →
      f.step? a = some f' → (s.hosts.set k f').map (·.input) = s.hosts.map (·.input) := by
    intro k f f' a hf hstep
    rw [List.map_set, (Hosted.of_step? hstep).1]
    have hinput : (s.hosts.map (·.input))[k]? = some f.input := by rw [List.getElem?_map, hf]; rfl
    obtain ⟨hlt, heq⟩ := List.getElem?_eq_some_iff.mp hinput
    rw [← heq]
    exact List.set_getElem_self hlt
  cases h with
  | start w k f f' hstage hf hstep => exact hset k f f' _ hf hstep
  | take outs f f' hstage hf hstep => exact hset _ f f' _ hf hstep
  | wake k f f' hf hpolls hstep => exact hset k f f' _ hf hstep
  | call k j spurious r f f' c hf hc hquiet hleft hstep => exact hset k f f' _ hf hstep
  | announce k j n spurious r f f' roll hf hc hstep hroll => exact hset k f f' _ hf hstep
  | _ => rfl

/-- **What holds of every fan-in**, in every order of polls, wakes and completions. -/
theorem gathered_of_leads {inputs : List (Task β α)} (hsound : ∀ t ∈ inputs, t.Sound)
    (hn : inputs.length < 2 ^ 64) (h : Leads step? (start inputs : Gathering β α ω) s) :
    s.Gathered ∧ s.hosts.map (·.input) = inputs := by
  refine h.keeps (P := fun u => u.Gathered ∧ u.hosts.map (·.input) = inputs) ?_
    ⟨gathered_start inputs hsound, ?_⟩
  · intro u a v ⟨hu, hinputs⟩ hstep
    have hturn := turns_of_step? hstep
    have hlen : u.hosts.length = inputs.length := by rw [← hinputs, List.length_map]
    exact ⟨hu.step (hlen ▸ hn) hturn, (inputs_of_turns hturn).trans hinputs⟩
  · simp [start, Function.comp_def, Hosted.start]

end TaskDispatch.Gathering
