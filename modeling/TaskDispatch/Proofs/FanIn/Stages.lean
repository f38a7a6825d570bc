/-
What holds of a fan-in at each stage of its polls.

`HostAt` says how far the frame of each input is: untouched, started, or asked for its
task.  `AwaiterAt` says how far the awaiter is on the countdown and which poll is under
way.  `OutsAt` says what has been taken.  With what the frames and the countdown keep
by themselves these are one invariant, `Gathered`; everybody but the poll under way
leaves it as it is by one of two lemmas, and the poll moves from stage to stage.
-/
import TaskDispatch.Proofs.FanIn.Gathering
import TaskDispatch.Proofs.FanIn.Input
import TaskDispatch.Proofs.FanIn.Tally

namespace TaskDispatch

variable {β α ω : Type}

/-- What completions may do to a countdown. -/
structure Roll.Later (s t : Roll ω) : Prop where
  awaiter : t.awaiter = s.awaiter
  asked : t.asked = s.asked
  left : ∀ {k : Nat}, s.parties[k]? = some (some .left) → t.parties[k]? = some (some .left)
  allLeft : s.allLeft = true → t.allLeft = true
  complete : s.countdown.complete = true → t.countdown.complete = true

namespace Roll.Later

variable {s t : Roll ω} {k : Nat}

theorem refl (s : Roll ω) : s.Later s := ⟨rfl, rfl, id, id, id⟩

theorem of_step (h : s.step? (.step k) = some t) : s.Later t := by
  have hturn := turns_of_step? h
  obtain ⟨hawaiter, hasked, -⟩ := Roll.of_step h
  exact ⟨hawaiter, hasked, left_of_turns hturn, allLeft_of_turns hturn, complete_of_turns hturn⟩

theorem of_enter (h : s.step? (.enter k) = some t) : s.Later t := by
  have hturn := turns_of_step? h
  obtain ⟨-, rfl⟩ := Roll.of_enter h
  exact ⟨rfl, rfl, left_of_turns hturn, allLeft_of_turns hturn, complete_of_turns hturn⟩

end Roll.Later

namespace Gathering

open TaskDispatch.Frame (Callers Hosted)

variable {s t : Gathering β α ω}

/-! ### The stages -/

/-- Whether the input with this number is done with its notifier. -/
def Told (s : Gathering β α ω) (k : Nat) : Prop := s.roll.parties[k]? = some (some .left)

/-- How far the frame of the input with number `j` is. -/
def HostAt (s : Gathering β α ω) (j : Nat) (f : Hosted β α) : Prop :=
  match s.stage with
  | .resting | .looking _ => (if s.started then f.Started else f.Fresh) ∧ f.Untaken
  | .starting _ k => (if j < k then f.Started else f.Fresh) ∧ f.Untaken
  | .running _ k => (j < k → f.Started) ∧ (k < j → f.Fresh) ∧ (j = k → f.frame.calls ≠ []) ∧ f.Untaken
  | .counting => f.Started ∧ f.Untaken
  | .collecting outs => f.Started ∧ (outs.length ≤ j → f.Untaken)
  | .taking outs c => f.Started ∧ (j = outs.length → f.TakenBy c) ∧ (outs.length < j → f.Untaken)
  | .finished _ | .broken => True

/-- The fan-in has found the countdown complete, in its first poll or in a later one. -/
structure Serves (s : Gathering β α ω) : Prop where
  started : s.started = true
  complete : s.roll.countdown.complete = true
  awaiter : s.roll.awaiter = some .proceeds ∧ s.wakers.length = 1 ∨
    s.roll.awaiter = some .suspended ∧ 2 ≤ s.wakers.length

/-- How far the awaiter is, and which poll is under way. -/
def AwaiterAt (s : Gathering β α ω) : Prop :=
  match s.stage with
  | .resting =>
    if s.started then s.roll.awaiter = some .suspended ∧ s.wakers ≠ [] ∧ s.late = false
    else s.roll.awaiter = none ∧ s.wakers = []
  | .looking w =>
    (s.late = true → s.roll.allLeft = true) ∧
      if s.started then s.roll.awaiter = some .suspended ∧ 2 ≤ s.wakers.length
      else s.roll.awaiter = none ∧ s.wakers = [w]
  | .starting w _ | .running w _ =>
    s.started = true ∧ s.roll.awaiter = none ∧ s.wakers = [w] ∧ s.late = false
  | .counting =>
    s.started = true ∧ s.roll.awaiter.isSome = true ∧ s.wakers.length = 1 ∧ s.late = false
  | .collecting _ | .taking _ _ => s.Serves
  | .finished outs =>
    s.Serves ∨ s.hosts = [] ∧ outs = [] ∧ s.roll.awaiter = none ∧ s.wakers.length = 1
  | .broken => False

/-- The tasks taken are those of the first inputs, with their outcomes. -/
def Matches (s : Gathering β α ω) (outs : List (Task β α)) : Prop :=
  ∀ (i : Nat) t f, outs[i]? = some t → s.hosts[i]? = some f →
    t.isReady = true ∧ t.result = f.outcome

/-- How far the poll under way is along the inputs, and what it has taken. -/
def OutsAt (s : Gathering β α ω) : Prop :=
  match s.stage with
  | .running _ k => k < s.hosts.length
  | .collecting outs => outs.length ≤ s.hosts.length ∧ s.Matches outs
  | .taking outs _ => outs.length < s.hosts.length ∧ s.Matches outs
  | .finished outs => outs.length = s.hosts.length ∧ s.Matches outs
  | _ => True

/-- How the frames of the inputs, the countdown and the wakers hang together, at any stage. -/
structure Linked (s : Gathering β α ω) : Prop where
  kept : ∀ (k : Nat) f, s.hosts[k]? = some f → f.Kept
  tallied : Roll.Tallied s.hosts.length s.roll
  told : ∀ (k : Nat) f, s.hosts[k]? = some f →
    ∃ p, s.roll.parties[k]? = some p ∧ (p.isSome = true ↔ 0 < f.frame.shared.notices)
  first : ∀ (k : Nat) f, s.hosts[k]? = some f → f.Fresh ∨ f.FirstCall (s.Told k)
  asked : ∀ w, s.roll.asked = some w → s.wakers.head? = some w
  suspended : s.roll.awaiter = some .suspended → ∃ f ∈ s.hosts, f.hasSuspended = true

/-- What holds of a fan-in. -/
structure Gathered (s : Gathering β α ω) : Prop extends Linked s where
  host : ∀ (k : Nat) f, s.hosts[k]? = some f → s.HostAt k f
  awaiter : s.AwaiterAt
  outs : s.OutsAt

/-! ### One frame moves -/

/-- What everybody but the poll under way may do to a frame leaves it as far as it is. -/
theorem HostAt.step {j : Nat} {f f' : Hosted β α} {a : Callers.Act β α} (h : s.HostAt j f) (kept : f.Kept)
    (hturn : Hosted.Turns f a f') (ha : a ≠ .take) (hcalled : ¬ f.Fresh)
    (hdone : (∃ outs c, s.stage = .taking outs c) → f.isCompleted = true) : s.HostAt j f' := by
  obtain ⟨roll, hosts, started, stage, wakers, late⟩ := s
  cases stage with
  | resting | looking w =>
      cases started with
      | true => exact ⟨h.1.step hturn, h.2.step hturn ha⟩
      | false => exact absurd h.1 hcalled
  | starting w k =>
      by_cases hlt : j < k
      · simp only [HostAt, hlt, if_true] at h ⊢
        exact ⟨h.1.step hturn, h.2.step hturn ha⟩
      · simp only [HostAt, hlt, if_false] at h
        exact absurd h.1 hcalled
  | running w k =>
      exact ⟨fun hlt => (h.1 hlt).step hturn, fun hlt => absurd (h.2.1 hlt) hcalled,
        fun heq => Hosted.called_of_turns hturn (h.2.2.1 heq), h.2.2.2.step hturn ha⟩
  | counting => exact ⟨h.1.step hturn, h.2.step hturn ha⟩
  | collecting outs => exact ⟨h.1.step hturn, fun hle => (h.2 hle).step hturn ha⟩
  | taking outs c =>
      refine ⟨h.1.step hturn, fun heq => ?_, fun hlt => (h.2.2 hlt).step hturn ha⟩
      exact (h.2.1 heq).step kept.owned (hdone ⟨outs, c, rfl⟩) hturn ha
  | finished outs => trivial
  | broken => trivial

namespace Linked

/-- When the countdown is complete, every input is. -/
theorem completed_of_complete (h : s.Linked) (hcomplete : s.roll.countdown.complete = true) {k : Nat}
    {f : Hosted β α} (hf : s.hosts[k]? = some f) : f.isCompleted = true := by
  obtain ⟨p, hp, hiff⟩ := h.told k f hf
  have hcounted := h.tallied.came_of_complete hcomplete p (List.mem_of_getElem? hp)
  refine (h.kept k f hf).completed_of_notices (hiff.mp ?_)
  cases p with
  | none => cases hcounted
  | some p => rfl

/-- An input that is about to call its notifier has not come to the countdown. -/
theorem party_of_announces (h : s.Linked) {k : Nat} {f : Hosted β α} (hf : s.hosts[k]? = some f)
    {c : Frame.Call β α} (hc : c ∈ f.frame.calls) (hannounces : c.announces = true) :
    s.roll.parties[k]? = some none := by
  obtain ⟨p, hp, hiff⟩ := h.told k f hf
  have htold := (h.kept k f hf).owned.told
  have hpos : 0 < f.frame.calls.countP Frame.Call.announces := List.countP_pos_iff.mpr ⟨c, hc, hannounces⟩
  have hle := Bool.toNat_le f.frame.shared.word.isCompleted
  cases p with
  | none => exact hp
  | some q =>
      have := hiff.mp rfl
      omega

end Linked

/-- A poll that serves has found the countdown complete. -/
theorem Gathered.complete_of_taking (h : s.Gathered) (hstage : ∃ outs c, s.stage = .taking outs c) :
    s.roll.countdown.complete = true := by
  obtain ⟨outs, c, hstage⟩ := hstage
  have hawaiter := h.awaiter
  rw [AwaiterAt, hstage] at hawaiter
  exact hawaiter.complete

/-- The awaiter and the poll under way stay where they are while completions move. -/
theorem AwaiterAt.later {roll : Roll ω} {hosts : List (Hosted β α)} (h : s.AwaiterAt)
    (hlater : s.roll.Later roll) (hnil : s.hosts = [] → hosts = []) :
    AwaiterAt { s with roll, hosts } := by
  have hserves : s.Serves → Serves { s with roll, hosts } := fun hs =>
    ⟨hs.started, hlater.complete hs.complete, by simpa only [hlater.awaiter] using hs.awaiter⟩
  have hsame := hlater.awaiter
  obtain ⟨roll₀, hosts₀, started, stage, wakers, late⟩ := s
  cases stage with
  | looking w =>
      simp only [AwaiterAt, hsame] at h ⊢
      exact ⟨fun hlate => hlater.allLeft (h.1 hlate), h.2⟩
  | collecting outs | taking outs c => exact hserves h
  | finished outs =>
      simp only [AwaiterAt, hsame] at h ⊢
      exact h.imp hserves fun ⟨hhosts, houts, hrest⟩ => ⟨hnil hhosts, houts, hrest⟩
  | resting | starting w k | running w k | counting =>
      simp only [AwaiterAt, hsame] at h ⊢
      exact h
  | broken => exact h

theorem Matches.set {outs : List (Task β α)} {k : Nat} {f f' : Hosted β α} (h : s.Matches outs)
    (roll : Roll ω) (hf : s.hosts[k]? = some f) (hout : f'.outcome = f.outcome) :
    Matches { s with roll, hosts := s.hosts.set k f' } outs := by
  intro i t g ht hg
  rcases getElem?_of_set hg with ⟨rfl, rfl⟩ | ⟨-, hold⟩
  · rw [hout]
    exact h i t f ht hf
  · exact h i t g ht hold

/-- What has been taken stays as it is while frames move. -/
theorem OutsAt.set {roll : Roll ω} {k : Nat} {f f' : Hosted β α} (h : s.OutsAt)
    (hf : s.hosts[k]? = some f)
    (hout : s.roll.countdown.complete = true ∨ s.hosts = [] → f'.outcome = f.outcome)
    (haw : s.AwaiterAt) : OutsAt { s with roll, hosts := s.hosts.set k f' } := by
  obtain ⟨roll₀, hosts, started, stage, wakers, late⟩ := s
  have hlen : (hosts.set k f').length = hosts.length := List.length_set ..
  cases stage with
  | running w i => exact Nat.lt_of_lt_of_eq h hlen.symm
  | collecting outs =>
      exact ⟨Nat.le_trans h.1 (Nat.le_of_eq hlen.symm), h.2.set roll hf (hout (Or.inl haw.complete))⟩
  | taking outs c =>
      exact ⟨Nat.lt_of_lt_of_eq h.1 hlen.symm, h.2.set roll hf (hout (Or.inl haw.complete))⟩
  | finished outs =>
      refine ⟨h.1.trans hlen.symm, h.2.set roll hf (hout ?_)⟩
      exact haw.imp Serves.complete And.left
  | _ => trivial

/-! ### What everybody but the poll under way keeps -/

/-- A frame moves, and perhaps a completion with it: all that is asked is that the two agree. -/
theorem Linked.set (h : s.Linked) {k : Nat} {f f' : Hosted β α} {a : Callers.Act β α} {roll : Roll ω}
    (hf : s.hosts[k]? = some f) (hstep : f.step? a = some f')
    (htallied : Roll.Tallied s.hosts.length roll) (hlater : s.roll.Later roll)
    (hfirst : f'.FirstCall (s.Told k))
    (htold : ∀ (j : Nat) g, (s.hosts.set k f')[j]? = some g →
      ∃ p, roll.parties[j]? = some p ∧ (p.isSome = true ↔ 0 < g.frame.shared.notices)) :
    Linked { s with roll, hosts := s.hosts.set k f' } := by
  refine ⟨?_, by rw [List.length_set]; exact htallied, htold, ?_, ?_, ?_⟩
  · intro j g hg
    rcases getElem?_of_set hg with ⟨-, rfl⟩ | ⟨-, hold⟩
    · exact (h.kept k f hf).step hstep
    · exact h.kept j g hold
  · intro j g hg
    rcases getElem?_of_set hg with ⟨rfl, rfl⟩ | ⟨-, hold⟩
    · obtain ⟨c, hc, hat⟩ := hfirst
      exact Or.inr ⟨c, hc, hat.mono hlater.left⟩
    · refine (h.first j g hold).imp_right ?_
      rintro ⟨c, hc, hat⟩
      exact ⟨c, hc, hat.mono hlater.left⟩
  · intro w hw
    exact h.asked w (hlater.asked ▸ hw)
  · intro hsuspended
    obtain ⟨g, hg, hpolls⟩ := h.suspended (hlater.awaiter ▸ hsuspended)
    exact exists_mem_set (P := fun g => g.hasSuspended = true) hf ⟨g, hg, hpolls⟩
      (Hosted.hasSuspended_mono (Hosted.turns_of_step? hstep))

/-- The countdown and the notices still agree if the frame that moves has not been notified. -/
theorem Linked.told_of_quiet (h : s.Linked) {k : Nat} {f f' : Hosted β α} (hf : s.hosts[k]? = some f)
    (hnotices : f'.frame.shared.notices = f.frame.shared.notices) :
    ∀ (j : Nat) g, (s.hosts.set k f')[j]? = some g →
      ∃ p, s.roll.parties[j]? = some p ∧ (p.isSome = true ↔ 0 < g.frame.shared.notices) := by
  intro j g hg
  rcases getElem?_of_set hg with ⟨rfl, rfl⟩ | ⟨-, hold⟩
  · rw [hnotices]
    exact h.told j f hf
  · exact h.told j g hold

namespace Gathered

/-- **A frame moves at the same stage**, by somebody else's act than the poll under way. -/
theorem moved (h : s.Gathered) {k : Nat} {f f' : Hosted β α} {a : Callers.Act β α} {roll : Roll ω}
    (hf : s.hosts[k]? = some f) (hstep : f.step? a = some f') (ha : a ≠ .take) (hcalled : ¬ f.Fresh)
    (htallied : Roll.Tallied s.hosts.length roll) (hlater : s.roll.Later roll)
    (hfirst : f'.FirstCall (s.Told k))
    (htold : ∀ (j : Nat) g, (s.hosts.set k f')[j]? = some g →
      ∃ p, roll.parties[j]? = some p ∧ (p.isSome = true ↔ 0 < g.frame.shared.notices)) :
    Gathered { s with roll, hosts := s.hosts.set k f' } := by
  refine ⟨h.toLinked.set hf hstep htallied hlater hfirst htold, ?_, ?_, ?_⟩
  · intro j g hg
    rcases getElem?_of_set hg with ⟨rfl, rfl⟩ | ⟨-, hold⟩
    · exact (h.host j f hf).step (h.kept j f hf) (Hosted.turns_of_step? hstep) ha hcalled fun hstage =>
        h.completed_of_complete (h.complete_of_taking hstage) hf
    · exact h.host j g hold
  · exact h.awaiter.later hlater fun hnil => by rw [hnil]; rfl
  · refine h.outs.set hf (fun hcase => ?_) h.awaiter
    rcases hcase with hcomplete | hnil
    · exact (h.kept k f hf).outcome_of_completed (h.completed_of_complete hcomplete hf) hstep
    · rw [hnil] at hf
      cases hf

theorem wake (h : s.Gathered) {k : Nat} {f f' : Hosted β α} (hf : s.hosts[k]? = some f)
    (hpolls : 0 < f.frame.shared.polls) (hstep : f.step? .resume = some f') :
    Gathered { s with hosts := s.hosts.set k f' } := by
  have hturn := Hosted.turns_of_step? hstep
  have hcalled : ¬ f.Fresh := fun hfresh => Nat.ne_of_gt hpolls hfresh.polls
  have hfirst := (h.first k f hf).resolve_left hcalled
  refine h.moved hf hstep nofun hcalled h.tallied (.refl _) ?_ ?_
  · exact hfirst.step (h.kept k f hf) hturn (fun _ => hpolls) nofun nofun
  · exact h.told_of_quiet hf (Hosted.notices_of_turns hturn nofun)

theorem called {f : Hosted β α} {j : Nat} {c : Frame.Call β α} (hc : f.frame.calls[j]? = some c) :
    ¬ f.Fresh := by
  intro hfresh
  rw [hfresh.calls] at hc
  cases hc

theorem call (h : s.Gathered) {k j : Nat} {spurious : Bool} {r : Polled β α} {f f' : Hosted β α}
    {c : Frame.Call β α} (hf : s.hosts[k]? = some f) (hc : f.frame.calls[j]? = some c)
    (hquiet : c.announces = false) (hleft : c.place = .inNotifier → s.Told k)
    (hstep : f.step? (.go j spurious r) = some f') : Gathered { s with hosts := s.hosts.set k f' } := by
  have hturn := Hosted.turns_of_step? hstep
  have hfirst := (h.first k f hf).resolve_left (called hc)
  refine h.moved hf hstep nofun (called hc) h.tallied (.refl _) ?_ ?_
  · refine hfirst.step (h.kept k f hf) hturn nofun nofun ?_
    intro i spurious' r' d ha hd
    obtain ⟨rfl, -, -⟩ := Callers.Act.go.inj ha
    obtain rfl := Option.some.inj (hc.symm.trans hd)
    exact hleft
  · refine h.told_of_quiet hf (Hosted.notices_of_turns hturn ?_)
    intro i spurious' r' d ha hd
    obtain ⟨rfl, -, -⟩ := Callers.Act.go.inj ha
    obtain rfl := Option.some.inj (hc.symm.trans hd)
    exact hquiet

/-- An input is completed: it comes to the countdown. -/
theorem announce (h : s.Gathered) (hn : s.hosts.length < 2 ^ 64) {k j n : Nat} {spurious : Bool}
    {r : Polled β α} {f f' : Hosted β α} {roll : Roll ω} (hf : s.hosts[k]? = some f)
    (hc : f.frame.calls[j]? = some ⟨.resuming .notifying, n⟩)
    (hstep : f.step? (.go j spurious r) = some f') (hroll : s.roll.step? (.enter k) = some roll) :
    Gathered { s with roll, hosts := s.hosts.set k f' } := by
  have hturn := Hosted.turns_of_step? hstep
  have hfirst := (h.first k f hf).resolve_left (called hc)
  have hlater := Roll.Later.of_enter hroll
  obtain ⟨hk, rfl⟩ := Roll.of_enter hroll
  refine h.moved hf hstep nofun (called hc) (h.tallied.step hn (Roll.turns_of_step? hroll)) hlater ?_ ?_
  · refine hfirst.step (h.kept k f hf) hturn nofun nofun ?_
    intro i spurious' r' d ha hd hplace
    obtain ⟨rfl, -, -⟩ := Callers.Act.go.inj ha
    obtain rfl := Option.some.inj (hc.symm.trans hd)
    cases hplace
  · intro i g hg
    rcases getElem?_of_set hg with ⟨rfl, rfl⟩ | ⟨hne, hold⟩
    · refine ⟨some .arrive, List.getElem?_set_self (List.getElem?_eq_some_iff.mp hk).1, ?_⟩
      cases hturn with
      | go i' spurious' r' c c' x hc' hmove log hlog =>
          obtain rfl := Option.some.inj (hc.symm.trans hc')
          cases hmove with
          | notify n => exact iff_of_true rfl (Nat.succ_pos _)
    · rw [List.getElem?_set_ne (Ne.symm hne)]
      exact h.told i g hold

/-- A completion moves on the countdown. -/
theorem notify (h : s.Gathered) (hn : s.hosts.length < 2 ^ 64) {k : Nat} {roll : Roll ω}
    (hroll : s.roll.step? (.step k) = some roll) : Gathered { s with roll } := by
  have hlater := Roll.Later.of_step hroll
  obtain ⟨-, -, hparties⟩ := Roll.of_step hroll
  refine ⟨⟨h.kept, h.tallied.step hn (Roll.turns_of_step? hroll), ?_, ?_, ?_, ?_⟩, h.host,
    h.awaiter.later hlater id, h.outs⟩
  · intro j g hg
    obtain ⟨p, hp, hiff⟩ := h.told j g hg
    obtain ⟨q, hq, hsame⟩ := hparties j p hp
    exact ⟨q, hq, by rw [hsame]; exact hiff⟩
  · intro j g hg
    refine (h.first j g hg).imp_right ?_
    rintro ⟨c, hc, hat⟩
    exact ⟨c, hc, hat.mono hlater.left⟩
  · intro w hw
    exact h.asked w (hlater.asked ▸ hw)
  · intro hsuspended
    exact h.suspended (hlater.awaiter ▸ hsuspended)

end Gathered

end Gathering

end TaskDispatch
