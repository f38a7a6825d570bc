/-
Which polls of a fan-in make it ready, by their own steps.

`alone?` lets nobody move but the poll under way: it takes its steps, and so do the call
it has made of a frame and the notifier of that frame.  A poll that has found the
countdown complete takes one task after another; a poll that began after every input
had notified finds it complete; and a first poll starts one input after another and is
the last to count, if no input suspends.  The proofs go backwards from place to place,
each by one step.
-/
import TaskDispatch.Proofs.FanIn.Polls

namespace TaskDispatch.Gathering

open TaskDispatch.Frame (Callers Hosted Call Place)

variable {β α ω : Type} {s t : Gathering β α ω}

/-- Whether an act belongs to the poll under way: its own step, a step of the call it has made, or of the
notifier that this call is in. -/
def isOwn (s : Gathering β α ω) : Act β α ω → Bool
  | .advance => true
  | .call k j _ _ =>
    match s.stage with
    | .running _ i => k == i && j == 0
    | .taking outs c => k == outs.length && j == c
    | _ => false
  | .notify k =>
    match s.stage with
    | .running _ i => k == i
    | _ => false
  | .poll _ | .wake _ => false

/-- The fan-in after an act of the poll under way. -/
def alone? (s : Gathering β α ω) (a : Act β α ω) : Option (Gathering β α ω) :=
  if s.isOwn a then s.step? a else none

/-- The poll under way can make the fan-in ready all by itself. -/
def Ends (s : Gathering β α ω) : Prop :=
  ∃ t outs, Leads alone? s t ∧ t.stage = .finished outs

theorem Ends.of_step (a : Act β α ω) (hown : s.isOwn a = true) (hstep : s.step? a = some t)
    (h : t.Ends) : s.Ends := by
  obtain ⟨u, outs, hleads, hstage⟩ := h
  exact ⟨u, outs, hleads.head a (by rw [alone?, if_pos hown]; exact hstep), hstage⟩

/-- A step of a poll leaves the inputs as many as they are. -/
theorem length_of_step? {a : Act β α ω} (h : s.step? a = some t) : t.hosts.length = s.hosts.length := by
  have hinputs := congrArg List.length (inputs_of_turns (turns_of_step? h))
  rwa [List.length_map, List.length_map] at hinputs

/-! ### A poll takes the tasks -/

theorem onHost?_eq {k : Nat} {f f' : Hosted β α} {a : Callers.Act β α} (hf : s.hosts[k]? = some f)
    (hstep : f.step? a = some f') : s.onHost? k a = some { s with hosts := s.hosts.set k f' } := by
  simp only [onHost?, hf, hstep]

/-- A call takes its step, unless it is the one that notifies. -/
theorem step?_call {k j : Nat} {spurious : Bool} {r : Polled β α} {f f' : Hosted β α} {c : Call β α}
    (hf : s.hosts[k]? = some f) (hc : f.frame.calls[j]? = some c)
    (hquiet : c.place ≠ .resuming .notifying) (hout : c.place = .inNotifier → s.Told k)
    (hstep : f.step? (.go j spurious r) = some f') :
    s.step? (.call k j spurious r) = some { s with hosts := s.hosts.set k f' } := by
  have hbind : (s.hosts[k]?).bind (·.frame.calls[j]?) = some c := by rw [hf]; exact hc
  simp only [step?, call?, hbind]
  split
  · next hplace => exact absurd hplace hquiet
  · next hplace =>
      have hleft : s.roll.parties[k]? = some (some .left) := hout hplace
      simp only [hleft]
      exact onHost?_eq hf hstep
  · exact onHost?_eq hf hstep

/-- What has come of a step of one call, with number `j`, of the frame of one input, with number `k`: from
the frame `f` to the frame `f'`, where the call is at `c'`. -/
structure Went (s t : Gathering β α ω) (k j : Nat) (r : Polled β α) (f f' : Hosted β α) (c' : Call β α) :
    Prop where
  gathered : t.Gathered
  length : t.hosts.length = s.hosts.length
  stage : t.stage = s.stage
  roll : t.roll = s.roll
  host : t.hosts[k]? = some f'
  call : f'.frame.calls[j]? = some c'
  log : f'.log = f.log ++ f.heard (.go j false r)
  others : ∀ g ∈ t.hosts, g = f' ∨ g ∈ s.hosts

/-- The poll under way can make the fan-in ready if it can after one step of a call of its own. -/
theorem Ends.of_go {k j : Nat} {f : Hosted β α} {c c' : Call β α} {x : Frame.Shared β α} (r : Polled β α)
    (h : s.Gathered) (hn : s.hosts.length < 2 ^ 64) (hown : s.isOwn (.call k j false r) = true)
    (hf : s.hosts[k]? = some f) (hc : f.frame.calls[j]? = some c)
    (hquiet : c.place ≠ .resuming .notifying) (hout : c.place = .inNotifier → s.Told k)
    (hmove : c.step? false r f.frame.shared = some (x, c'))
    (hnext : ∀ t f', Went s t k j r f f' c' → f'.frame.shared = x → t.Ends) : s.Ends := by
  have hstep := step?_call hf hc hquiet hout (Hosted.step?_go hc hmove)
  refine .of_step _ hown hstep (hnext _ { f with
    frame := ⟨x, f.frame.calls.set j c'⟩
    log := f.log ++ f.heard (.go j false r) } ?_ rfl)
  exact {
    gathered := h.step hn (turns_of_step? hstep)
    length := length_of_step? hstep
    stage := rfl
    roll := rfl
    host := List.getElem?_set_self (List.getElem?_eq_some_iff.mp hf).1
    call := List.getElem?_set_self (List.getElem?_eq_some_iff.mp hc).1
    log := rfl
    others := fun g hg => mem_of_mem_set hg }

namespace Gathered

section Taking

variable {outs : List (Task β α)} {c n : Nat} {f : Hosted β α}

theorem ends_of_took (h : s.Gathered) (hn : s.hosts.length < 2 ^ 64) {o : Task β α}
    (hstage : s.stage = .taking outs c) (hf : s.hosts[outs.length]? = some f)
    (hc : f.frame.calls[c]? = some ⟨.took (some o), n⟩)
    (hnext : ∀ (t : Gathering β α ω) o, t.Gathered → t.hosts.length = s.hosts.length →
      t.stage = .collecting (outs ++ [o]) → t.Ends) : s.Ends := by
  have hstep : s.step? .advance = some (s.moveTo (.collecting (outs ++ [o]))) := by
    simp only [step?, advance?, hstage, hf, hc]
  exact .of_step .advance rfl hstep (hnext _ o (h.step hn (turns_of_step? hstep)) rfl rfl)

theorem ends_of_moving (h : s.Gathered) (hn : s.hosts.length < 2 ^ 64)
    (hstage : s.stage = .taking outs c) (hf : s.hosts[outs.length]? = some f)
    (hc : f.frame.calls[c]? = some ⟨.moving, n⟩)
    (hnext : ∀ (t : Gathering β α ω) o, t.Gathered → t.hosts.length = s.hosts.length →
      t.stage = .collecting (outs ++ [o]) → t.Ends) : s.Ends := by
  refine .of_go noPoll h hn (by simp [isOwn, hstage]) hf hc nofun nofun rfl fun t f' went _ => ?_
  exact went.gathered.ends_of_took (went.length ▸ hn) (went.stage.trans hstage) went.host went.call
    fun u o hu hlen => hnext u o hu (hlen.trans went.length)

/-- The frame that a poll asks for its task is completed, and nobody else has its task. -/
theorem word_of_asked (h : s.Gathered) (hstage : s.stage = .taking outs c)
    (hf : s.hosts[outs.length]? = some f) (hc : f.frame.calls[c]? = some ⟨.taking, n⟩) :
    f.frame.shared.word = .completed := by
  obtain ⟨hserves, -, hhost⟩ := h.taking hstage
  exact ((hhost _ f hf).2.1 rfl).completed (h.kept _ f hf).owned
    (h.completed_of_complete hserves.complete hf) hc

theorem ends_of_asked (h : s.Gathered) (hn : s.hosts.length < 2 ^ 64)
    (hstage : s.stage = .taking outs c) (hf : s.hosts[outs.length]? = some f)
    (hc : f.frame.calls[c]? = some ⟨.taking, n⟩)
    (hnext : ∀ (t : Gathering β α ω) o, t.Gathered → t.hosts.length = s.hosts.length →
      t.stage = .collecting (outs ++ [o]) → t.Ends) : s.Ends := by
  have hmove : Call.step? ⟨.taking, n⟩ false noPoll f.frame.shared =
      some ({ f.frame.shared with word := .taken }, ⟨.moving, n⟩) := by
    simp only [Call.step?, h.word_of_asked hstage hf hc, Frame.Word.take?]
  refine .of_go noPoll h hn (by simp [isOwn, hstage]) hf hc (by simp) (by simp) hmove fun t f' went _ => ?_
  exact went.gathered.ends_of_moving (went.length ▸ hn) (went.stage.trans hstage) went.host went.call
    fun u o hu hlen => hnext u o hu (hlen.trans went.length)

/-- A poll that asks a frame for its task gets it, and goes on. -/
theorem ends_of_taking (h : s.Gathered) (hn : s.hosts.length < 2 ^ 64)
    (hstage : s.stage = .taking outs c)
    (hnext : ∀ (t : Gathering β α ω) o, t.Gathered → t.hosts.length = s.hosts.length →
      t.stage = .collecting (outs ++ [o]) → t.Ends) : s.Ends := by
  obtain ⟨-, ⟨hlt, -⟩, hhost⟩ := h.taking hstage
  have hf : s.hosts[outs.length]? = some s.hosts[outs.length] := List.getElem?_eq_getElem hlt
  obtain ⟨p, m, hc, hp⟩ := ((hhost _ _ hf).2.1 rfl).1
  rcases hp with rfl | rfl | ⟨o, rfl⟩
  · exact h.ends_of_asked hn hstage hf hc hnext
  · exact h.ends_of_moving hn hstage hf hc hnext
  · exact h.ends_of_took hn hstage hf hc hnext

end Taking

/-- **A poll that has found the countdown complete takes the tasks**; the induction is on how many are
left. -/
theorem ends_of_collecting (m : Nat) : ∀ {s : Gathering β α ω} {outs : List (Task β α)}, s.Gathered →
    s.hosts.length < 2 ^ 64 → s.stage = .collecting outs → s.hosts.length = outs.length + m →
    s.Ends := by
  induction m with
  | zero =>
      intro s outs h hn hstage hlen
      have hnone : s.hosts[outs.length]? = none := List.getElem?_eq_none (Nat.le_of_eq hlen)
      have hstep : s.step? .advance = some (s.moveTo (.finished outs)) := by
        simp only [step?, advance?, hstage, hnone]
      exact .of_step .advance rfl hstep ⟨_, outs, .refl _, rfl⟩
  | succ m ih =>
      intro s outs h hn hstage hlen
      have hlt : outs.length < s.hosts.length := by omega
      have hf : s.hosts[outs.length]? = some s.hosts[outs.length] := List.getElem?_eq_getElem hlt
      obtain ⟨f', htake⟩ : ∃ f', Hosted.step? s.hosts[outs.length] .take = some f' := ⟨_, rfl⟩
      have hstep : s.step? .advance = some { s with
          hosts := s.hosts.set outs.length f'
          stage := .taking outs s.hosts[outs.length].frame.calls.length } := by
        simp only [step?, advance?, hstage, hf, onHost?_eq hf htake, Option.map_some]
        rfl
      have hlength := length_of_step? hstep
      refine .of_step .advance rfl hstep ?_
      refine (h.step hn (turns_of_step? hstep)).ends_of_taking (hlength ▸ hn) rfl fun t o ht htlen htstage => ?_
      refine ih ht ?_ htstage ?_
      · rw [htlen, hlength]
        exact hn
      · rw [htlen, hlength, hlen, List.length_append, List.length_singleton]
        omega

/-- Every poll that has found the countdown complete can make the fan-in ready. -/
theorem ends_of_serving (h : s.Gathered) (hn : s.hosts.length < 2 ^ 64) {outs : List (Task β α)}
    (hstage : s.stage = .collecting outs ∨ ∃ c, s.stage = .taking outs c) : s.Ends := by
  have hcollect : ∀ {t : Gathering β α ω} {outs}, t.Gathered → t.hosts.length = s.hosts.length →
      t.stage = .collecting outs → t.Ends := by
    intro t outs ht hlen hstage
    have hle := (ht.collecting hstage).2.1.1
    exact ends_of_collecting (t.hosts.length - outs.length) ht (hlen ▸ hn) hstage (by omega)
  rcases hstage with hstage | ⟨c, hstage⟩
  · exact hcollect h rfl hstage
  · exact h.ends_of_taking hn hstage fun t o ht hlen => hcollect ht hlen

/-! ### A late poll looks -/

/-- **A poll that began after every input had notified can make the fan-in ready.** -/
theorem ends_of_looking (h : s.Gathered) (hn : s.hosts.length < 2 ^ 64) {w : ω}
    (hstage : s.stage = .looking w) (hlate : s.late = true) : s.Ends := by
  cases hstarted : s.started with
  | true =>
      obtain ⟨hleft, hsuspended, -⟩ := h.looks hstage hstarted
      obtain ⟨k, v, hwakes⟩ := h.tallied.woken_of_left hsuspended (Roll.allLeft_iff.mp (hleft hlate))
      have hcomplete : s.roll.countdown.complete = true :=
        (h.tallied.of_wake (hwakes ▸ List.mem_singleton.mpr rfl)).2.2.2.2.1
      have hstep : s.step? .advance = some (s.moveTo (.collecting [])) := by
        simp only [step?, advance?, hstage, hstarted, Countdown.isReady, hcomplete, Countdown.glance, if_true]
      exact .of_step .advance rfl hstep
        ((h.step hn (turns_of_step? hstep)).ends_of_serving hn (Or.inl rfl))
  | false =>
      have hawaiter := h.awaiter
      simp only [AwaiterAt, hstage, hstarted, Bool.false_eq_true, if_false] at hawaiter
      have hnone : s.hosts = [] := by
        refine Classical.byContradiction fun hsome => ?_
        obtain ⟨f, rest, hcons⟩ := List.exists_cons_of_ne_nil hsome
        have hf : s.hosts[0]? = some f := by rw [hcons]; rfl
        have hhost := h.host 0 f hf
        simp only [HostAt, hstage, hstarted, Bool.false_eq_true, if_false] at hhost
        have hnot := h.not_late_of_fresh hf hhost.1 hawaiter.1
        rw [hlate] at hnot
        cases hnot
      have hstep : s.step? .advance = some { s with started := true, stage := .finished [] } := by
        simp only [step?, advance?, hstage, hstarted, hnone, List.length_nil, Countdown.glance,
          Bool.false_eq_true, if_false, if_true]
      exact .of_step .advance rfl hstep ⟨_, [], .refl _, rfl⟩

end Gathered

/-! ### The first poll starts an input -/

/-- No poll of an input has suspended. -/
def Quick (s : Gathering β α ω) : Prop := ∀ f ∈ s.hosts, f.hasSuspended = false

/-- The first poll is starting the input with number `k`, whose frame is `f` and whose first call is at
`c`, and no input has suspended. -/
structure Launch (s : Gathering β α ω) (w : ω) (k : Nat) (f : Hosted β α) (c : Call β α) : Prop where
  gathered : s.Gathered
  small : s.hosts.length < 2 ^ 64
  quick : s.Quick
  stage : s.stage = .running w k
  host : s.hosts[k]? = some f
  call : f.frame.calls[0]? = some c

namespace Launch

variable {w : ω} {k n : Nat} {f f' : Hosted β α} {c c' : Call β α}

/-- What follows the start of an input. -/
def Next (s : Gathering β α ω) (w : ω) (k : Nat) : Prop :=
  ∀ t : Gathering β α ω, t.Gathered → t.hosts.length = s.hosts.length → t.Quick →
    t.stage = .starting w (k + 1) → t.Ends

theorem Next.of_length (h : Next s w k) (hlen : t.hosts.length = s.hosts.length) : Next t w k :=
  fun u hu hulen => h u hu (hulen.trans hlen)

/-- A poll that comes to nothing is no suspension. -/
theorem quick_log {g : Hosted β α} (hquick : g.hasSuspended = false)
    (hlog : f'.log = g.log ++ g.heard (.go 0 false noPoll)) : f'.hasSuspended = false := by
  have hheard : (g.heard (.go 0 false noPoll)).any (·.body?.isSome) = false := by
    simp only [Hosted.heard]
    split
    · split <;> rfl
    · rfl
  rw [Hosted.hasSuspended, hlog, List.any_append, hheard, Bool.or_false]
  exact hquick

theorem went (l : Launch s w k f c) (h : Went s t k 0 noPoll f f' c') : Launch t w k f' c' where
  gathered := h.gathered
  small := h.length ▸ l.small
  quick g hg := by
    rcases h.others g hg with rfl | hold
    · exact quick_log (l.quick f (List.mem_of_getElem? l.host)) h.log
    · exact l.quick g hold
  stage := h.stage.trans l.stage
  host := h.host
  call := h.call

/-- The poll can end if it can after one step of its call. -/
theorem of_go {x : Frame.Shared β α} (l : Launch s w k f c) (hquiet : c.place ≠ .resuming .notifying)
    (hout : c.place = .inNotifier → s.Told k) (hmove : c.step? false noPoll f.frame.shared = some (x, c'))
    (hnext : ∀ t f', Launch t w k f' c' → t.hosts.length = s.hosts.length → t.roll = s.roll →
      t.Ends) : s.Ends :=
  .of_go noPoll l.gathered l.small (by simp [isOwn, l.stage]) l.host l.call hquiet hout hmove
    fun t f' h _ => hnext t f' (l.went h) h.length h.roll

theorem kept (l : Launch s w k f c) : f.Kept := l.gathered.kept k f l.host

theorem first (l : Launch s w k f c) : f.FirstAt (s.Told k) c.place := by
  rcases l.gathered.first k f l.host with hfresh | ⟨d, hd, hat⟩
  · have hcall := l.call
    rw [hfresh.calls] at hcall
    cases hcall
  · obtain rfl := Option.some.inj (hd.symm.trans l.call)
    exact hat

theorem awaiter (l : Launch s w k f c) : s.roll.awaiter = none :=
  (l.gathered.starts (Or.inr l.stage)).2.1

/-! From the last place to the first. -/

theorem ends_of_done (l : Launch s w k f ⟨.resuming .done, n⟩) (hnext : Next s w k) : s.Ends := by
  have hstep : s.step? .advance = some (s.moveTo (.starting w (k + 1))) := by
    simp only [step?, advance?, l.stage, l.host, l.call, Call.returned, if_true]
  exact .of_step .advance rfl hstep
    (hnext _ (l.gathered.step l.small (turns_of_step? hstep)) rfl l.quick rfl)

theorem ends_of_told (l : Launch s w k f ⟨.inNotifier, n⟩) (htold : s.Told k) (hnext : Next s w k) :
    s.Ends :=
  l.of_go nofun (fun _ => htold) rfl fun _ _ l' hlen _ => l'.ends_of_done (hnext.of_length hlen)

/-- The input has come to the countdown: it is not the last, for the awaiter has not counted. -/
theorem ends_of_arrive (l : Launch s w k f ⟨.inNotifier, n⟩)
    (hp : s.roll.parties[k]? = some (some .arrive)) (hnext : Next s w k) : s.Ends := by
  have hmore : s.roll.countdown.count ≠ 0 := by
    intro hlast
    obtain ⟨hle, hopen⟩ := l.gathered.tallied.of_arrive hp
    have hall := l.gathered.tallied.eq_of_count_eq_zero l.small hle hlast
    have hcounted := (l.gathered.tallied.others_of_last hopen hall hp).1
    rw [l.awaiter] at hcounted
    cases hcounted
  have hroll : s.roll.step? (.step k) =
      some { s.roll.tick (some k) with parties := s.roll.parties.set k (some .left) } := by
    simp only [Roll.step?, hp, Roll.stepParty?, Countdown.Party.step_arrive_pass hmore]
    rfl
  have hstep : s.step? (.notify k) = some { s with
      roll := { s.roll.tick (some k) with parties := s.roll.parties.set k (some .left) } } := by
    simp only [step?, onRoll?, hroll]
  refine .of_step _ (by simp [isOwn, l.stage]) hstep ?_
  refine ends_of_told (n := n) (f := f) ⟨l.gathered.step l.small (turns_of_step? hstep), l.small, l.quick,
    l.stage, l.host, l.call⟩ ?_ (hnext.of_length rfl)
  exact List.getElem?_set_self (List.getElem?_eq_some_iff.mp hp).1

/-- While the awaiter has not come nobody has come last: a completion that has come counts or has. -/
theorem ends_of_inNotifier (l : Launch s w k f ⟨.inNotifier, n⟩) (hnext : Next s w k) : s.Ends := by
  obtain ⟨p, hp, hiff⟩ := l.gathered.told k f l.host
  have hsome := hiff.mpr (l.kept.notified 0 _ l.call rfl)
  obtain ⟨q, rfl⟩ := Option.isSome_iff_exists.mp hsome
  have hopen : s.roll.Open := by
    rcases l.gathered.tallied.phase with ⟨-, hopen⟩ | ⟨-, hdecided⟩
    · exact hopen
    · have hnone := l.awaiter
      rcases hdecided.awaiter with hpassing | hsuspended
      · rcases hpassing.place with ⟨hplace, -⟩ | ⟨hplace, -⟩
        all_goals (rw [hnone] at hplace; cases hplace)
      · rw [hnone] at hsuspended
        cases hsuspended
  rcases hopen.party hp with rfl | rfl
  · exact l.ends_of_arrive hp hnext
  · exact l.ends_of_told hp hnext

theorem ends_of_notifying (l : Launch s w k f ⟨.resuming .notifying, n⟩) (hnext : Next s w k) :
    s.Ends := by
  have hp := l.gathered.party_of_announces l.host (List.mem_of_getElem? l.call) rfl
  have hmove : Call.step? ⟨.resuming .notifying, n⟩ false noPoll f.frame.shared =
      some ({ f.frame.shared with notices := f.frame.shared.notices + 1 }, ⟨.inNotifier, n⟩) := rfl
  have hgo := Hosted.step?_go l.call hmove
  have hroll : s.roll.step? (.enter k) =
      some { s.roll with parties := s.roll.parties.set k (some .arrive) } := by
    simp only [Roll.step?, hp]
  have hbind : (s.hosts[k]?).bind (·.frame.calls[0]?) = some ⟨.resuming .notifying, n⟩ := by
    rw [l.host]
    exact l.call
  have hstep : s.step? (.call k 0 false noPoll) = some { s with
      roll := { s.roll with parties := s.roll.parties.set k (some .arrive) }
      hosts := s.hosts.set k { f with
        frame := ⟨{ f.frame.shared with notices := f.frame.shared.notices + 1 },
          f.frame.calls.set 0 ⟨.inNotifier, n⟩⟩
        log := f.log ++ f.heard (.go 0 false noPoll) } } := by
    simp only [step?, call?, hbind, onHost?_eq l.host hgo, Option.bind_some, onRoll?, hroll]
  have hlen := length_of_step? hstep
  obtain ⟨hlt, -⟩ := List.getElem?_eq_some_iff.mp l.host
  obtain ⟨hpos, -⟩ := List.getElem?_eq_some_iff.mp l.call
  refine .of_step _ (by simp [isOwn, l.stage]) hstep ?_
  refine ends_of_inNotifier (n := n) ⟨l.gathered.step l.small (turns_of_step? hstep), hlen ▸ l.small, ?_,
    l.stage, List.getElem?_set_self hlt, List.getElem?_set_self hpos⟩ (hnext.of_length hlen)
  intro g hg
  rcases mem_of_mem_set hg with rfl | hold
  · exact quick_log (l.quick f (List.mem_of_getElem? l.host)) rfl
  · exact l.quick g hold

theorem ends_of_publish (l : Launch s w k f ⟨.resuming .publish, n⟩) (hnext : Next s w k) : s.Ends :=
  l.of_go nofun nofun rfl fun _ _ l' hlen _ => l'.ends_of_notifying (hnext.of_length hlen)

/-- The poll of the body ends. -/
theorem ends_of_inPoll {lent : Task β α} (l : Launch s w k f ⟨.inPoll lent, n⟩) (hnext : Next s w k) :
    s.Ends := by
  have hwaits : f.Waits lent := l.kept.calls 0 _ l.call
  obtain ⟨t, ht⟩ := hwaits.ended (r := noPoll) rfl
  have hmove : Call.step? ⟨.inPoll lent, n⟩ false noPoll f.frame.shared =
      some ({ f.frame.shared with task := t }, ⟨.resuming .publish, n⟩) := by
    simp only [Call.step?, ht, Frame.Pc.afterPoll, if_true]
  exact l.of_go (by simp) (by simp) hmove fun _ _ l' hlen _ => l'.ends_of_publish (hnext.of_length hlen)

theorem ends_of_polling (l : Launch s w k f ⟨.resuming .polling, n⟩) (hnext : Next s w k) : s.Ends :=
  l.of_go nofun nofun rfl fun _ _ l' hlen _ => l'.ends_of_inPoll (hnext.of_length hlen)

/-- Nobody else calls a frame before its first call has claimed it. -/
theorem ends_of_exchange {seen : Frame.Word} (l : Launch s w k f ⟨.resuming (.exchange seen), n⟩)
    (hnext : Next s w k) : s.Ends := by
  obtain ⟨rfl, -, hidle, -⟩ := l.first
  have hmove : Call.step? ⟨.resuming (.exchange .idle), n⟩ false noPoll f.frame.shared =
      some ({ f.frame.shared with word := .running }, ⟨.resuming .polling, f.frame.shared.polls⟩) := by
    simp [Call.step?, Frame.Pc.step, hidle, Frame.Word.entry?]
  exact l.of_go (by simp) (by simp) hmove fun _ _ l' hlen _ => l'.ends_of_polling (hnext.of_length hlen)

theorem ends_of_load (l : Launch s w k f ⟨.resuming .load, n⟩) (hnext : Next s w k) : s.Ends := by
  obtain ⟨-, hidle, -⟩ := l.first
  have hseeing : Frame.Pc.seeing f.frame.shared.word = .exchange .idle := by
    rw [hidle]
    rfl
  have hmove : Call.step? ⟨.resuming .load, n⟩ false noPoll f.frame.shared =
      some (f.frame.shared, ⟨.resuming (.exchange .idle), f.frame.shared.polls⟩) := by
    rw [← hseeing]
    rfl
  exact l.of_go nofun nofun hmove fun _ _ l' hlen _ => l'.ends_of_exchange (hnext.of_length hlen)

/-- **The start of an input that does not suspend comes to its end**, wherever its call is. -/
theorem ends (l : Launch s w k f c) (hnext : Next s w k) : s.Ends := by
  obtain ⟨place, n⟩ := c
  have hfits := l.kept.calls 0 _ l.call
  have hquick := l.quick f (List.mem_of_getElem? l.host)
  cases place with
  | resuming pc =>
      cases pc with
      | load => exact l.ends_of_load hnext
      | exchange seen => exact l.ends_of_exchange hnext
      | polling => exact l.ends_of_polling hnext
      | retire | renew =>
          have hsuspended := Hosted.Waits.hasSuspended hfits.1 hfits.2
          rw [hquick] at hsuspended
          cases hsuspended
      | publish => exact l.ends_of_publish hnext
      | notifying => exact l.ends_of_notifying hnext
      | done => exact l.ends_of_done hnext
      | broken => exact absurd rfl (l.kept.owned.unbroken _ (List.mem_of_getElem? l.call))
  | inPoll lent => exact l.ends_of_inPoll hnext
  | unwound => exact absurd hfits id
  | inNotifier => exact l.ends_of_inNotifier hnext
  | taking => exact absurd l.first id
  | moving => exact absurd l.first id
  | took task => exact absurd l.first id

end Launch

/-! ### The first poll counts -/

namespace Gathered

/-- One step of the awaiter. -/
theorem ends_of_count (h : s.Gathered) (hn : s.hosts.length < 2 ^ 64) (hquick : s.Quick)
    (hstage : s.stage = .counting) {p : Countdown.Party ω} (hp : s.roll.awaiter = some p)
    (hmoves : p ≠ .suspended ∧ p ≠ .proceeds) {roll : Roll ω} (hroll : s.roll.advanceFrom? p = some roll)
    (hnext : ∀ t : Gathering β α ω, t.Gathered → t.hosts.length = s.hosts.length → t.Quick →
      t.stage = .counting → t.roll = roll → t.Ends) : s.Ends := by
  have hstep : s.step? .advance = some { s with roll } := by
    simp only [step?, advance?, hstage]
    split
    · next ha => exact absurd (Option.some.inj (hp.symm.trans ha)) hmoves.1
    · next ha => exact absurd (Option.some.inj (hp.symm.trans ha)) hmoves.2
    · simp only [onRoll?, Roll.step?, hp, hroll, hstage]
  exact .of_step .advance rfl hstep
    (hnext _ (h.step hn (turns_of_step? hstep)) rfl hquick hstage rfl)

theorem ends_of_proceeds (h : s.Gathered) (hn : s.hosts.length < 2 ^ 64) (hstage : s.stage = .counting)
    (ha : s.roll.awaiter = some .proceeds) : s.Ends := by
  have hstep : s.step? .advance = some (s.moveTo (.collecting [])) := by
    simp only [step?, advance?, hstage, ha]
  exact .of_step .advance rfl hstep ((h.step hn (turns_of_step? hstep)).ends_of_serving hn (Or.inl rfl))

theorem ends_of_claim (h : s.Gathered) (hn : s.hosts.length < 2 ^ 64) (hquick : s.Quick)
    (hstage : s.stage = .counting) (ha : s.roll.awaiter = some .claim) : s.Ends :=
  h.ends_of_count hn hquick hstage ha ⟨nofun, nofun⟩ rfl fun t ht hlen _ htstage hroll =>
    ht.ends_of_proceeds (hlen ▸ hn) htstage (by rw [hroll])

/-- **The awaiter counts last if no input has suspended**. -/
theorem ends_of_enlist (h : s.Gathered) (hn : s.hosts.length < 2 ^ 64) (hquick : s.Quick)
    (hstage : s.stage = .counting) (ha : s.roll.awaiter = some .enlist) : s.Ends := by
  by_cases hlast : s.roll.countdown.count = 0
  · have hroll : s.roll.advanceFrom? .enlist = some { s.roll.tick none with awaiter := some .claim } := by
      simp only [Roll.advanceFrom?, Countdown.Party.step_enlist_last hlast]
      rfl
    exact h.ends_of_count hn hquick hstage ha ⟨by simp, by simp⟩ hroll fun t ht hlen htquick htstage hroll =>
      ht.ends_of_claim (hlen ▸ hn) htquick htstage (by rw [hroll])
  · have hroll : s.roll.advanceFrom? .enlist =
        some { s.roll.tick none with awaiter := some .suspended } := by
      simp only [Roll.advanceFrom?, Countdown.Party.step_enlist_pass hlast]
      rfl
    have hstep : s.roll.step? .advance = some { s.roll.tick none with awaiter := some .suspended } := by
      simp only [Roll.step?, ha, hroll]
    obtain ⟨f, hf, hsuspended⟩ := h.exists_suspended hn hstage hstep rfl
    rw [hquick f hf] at hsuspended
    cases hsuspended

theorem ends_of_register (h : s.Gathered) (hn : s.hosts.length < 2 ^ 64) (hquick : s.Quick)
    (hstage : s.stage = .counting) {w : ω} (ha : s.roll.awaiter = some (.register w)) : s.Ends :=
  h.ends_of_count hn hquick hstage ha ⟨nofun, nofun⟩ rfl fun t ht hlen htquick htstage hroll =>
    ht.ends_of_enlist (hlen ▸ hn) htquick htstage (by rw [hroll])

/-- A first poll that counts can make the fan-in ready, if no input has suspended. -/
theorem ends_of_counting (h : s.Gathered) (hn : s.hosts.length < 2 ^ 64) (hquick : s.Quick)
    (hstage : s.stage = .counting) : s.Ends := by
  obtain ⟨⟨-, hsome, -, -⟩, -⟩ := h.counting hstage
  have hsuspended : s.roll.awaiter ≠ some .suspended := by
    intro ha
    obtain ⟨f, hf, hpolls⟩ := h.suspended ha
    rw [hquick f hf] at hpolls
    cases hpolls
  rcases h.tallied.phase with ⟨-, hopen⟩ | ⟨-, hdecided⟩
  · rcases hopen.awaiter with ⟨ha, -⟩ | ⟨w, ha, -⟩ | ⟨w, ha | ha, -⟩
    · rw [ha] at hsome
      cases hsome
    · exact h.ends_of_register hn hquick hstage ha
    · exact h.ends_of_enlist hn hquick hstage ha
    · exact absurd ha hsuspended
  · rcases hdecided.awaiter with hpassing | ha
    · rcases hpassing.place with ⟨ha, -⟩ | ⟨ha, -⟩
      · exact h.ends_of_claim hn hquick hstage ha
      · exact h.ends_of_proceeds hn hstage ha
    · exact absurd ha hsuspended

/-- The first poll has called the frame of the input that it is starting. -/
theorem running (h : s.Gathered) {w : ω} {k : Nat} (hstage : s.stage = .running w k) :
    ∃ f, s.hosts[k]? = some f ∧ f.frame.calls ≠ [] := by
  have hlt : k < s.hosts.length := by
    have houts := h.outs
    simp only [OutsAt, hstage] at houts
    exact houts
  have hf : s.hosts[k]? = some s.hosts[k] := List.getElem?_eq_getElem hlt
  have hhost := h.host k _ hf
  rw [HostAt, hstage] at hhost
  exact ⟨_, hf, hhost.2.2.1 rfl⟩

/-- After the last input the first poll counts. -/
theorem ends_of_started (h : s.Gathered) (hn : s.hosts.length < 2 ^ 64) (hquick : s.Quick) {w : ω}
    {k : Nat} (hstage : s.stage = .starting w k) (hall : ¬ k < s.hosts.length) : s.Ends := by
  have hroll : s.roll.step? (.await w) =
      some { s.roll with awaiter := some (.register w), asked := some w } := by
    simp only [Roll.step?, (h.starts (Or.inl hstage)).2.1]
  have hstep : s.step? .advance = some { s with
      roll := { s.roll with awaiter := some (.register w), asked := some w }
      stage := .counting } := by
    simp only [step?, advance?, hstage, if_neg hall, onRoll?, hroll, Option.map_some]
    rfl
  exact .of_step .advance rfl hstep
    ((h.step hn (turns_of_step? hstep)).ends_of_counting hn hquick rfl)

/-- A first poll starts an input, and goes on when it has been started. -/
theorem ends_of_start (h : s.Gathered) (hn : s.hosts.length < 2 ^ 64) (hquick : s.Quick) {w : ω}
    {k : Nat} (hstage : s.stage = .starting w k) (hlt : k < s.hosts.length)
    (hnext : Launch.Next s w k) : s.Ends := by
  have hf : s.hosts[k]? = some s.hosts[k] := List.getElem?_eq_getElem hlt
  have hfresh : Hosted.Fresh s.hosts[k] := by
    have hhost := h.host k _ hf
    simp only [HostAt, hstage, Nat.lt_irrefl, if_false] at hhost
    exact hhost.1
  obtain ⟨f', hstart, hcalls, hlog⟩ : ∃ f', Hosted.step? s.hosts[k] .resume = some f' ∧
      f'.frame.calls = s.hosts[k].frame.calls ++ [⟨.resuming .load, 0⟩] ∧
      f'.log = s.hosts[k].log := ⟨_, rfl, rfl, List.append_nil _⟩
  have hstep : s.step? .advance = some { s with
      hosts := s.hosts.set k f'
      stage := .running w k } := by
    simp only [step?, advance?, hstage, if_pos hlt, onHost?_eq hf hstart, Option.map_some]
    rfl
  have hlen := length_of_step? hstep
  have hcall : f'.frame.calls[0]? = some ⟨.resuming .load, 0⟩ := by
    rw [hcalls, hfresh.calls]
    rfl
  have hquick' : ∀ g ∈ s.hosts.set k f', g.hasSuspended = false := by
    intro g hg
    rcases mem_of_mem_set hg with rfl | hold
    · rw [Hosted.hasSuspended, hlog]
      exact hquick _ (List.getElem_mem hlt)
    · exact hquick g hold
  have hlaunch : Launch { s with hosts := s.hosts.set k f', stage := .running w k } w k f'
      ⟨.resuming .load, 0⟩ :=
    ⟨h.step hn (turns_of_step? hstep), hlen ▸ hn, hquick', rfl, List.getElem?_set_self hlt, hcall⟩
  exact .of_step .advance rfl hstep (hlaunch.ends_of_load (hnext.of_length hlen))

/-- A first poll starts one input after another; the induction is on how many are left. -/
theorem ends_of_starting (m : Nat) : ∀ {s : Gathering β α ω} {w : ω} {k : Nat}, s.Gathered →
    s.hosts.length < 2 ^ 64 → s.Quick → s.stage = .starting w k → s.hosts.length ≤ k + m →
    s.Ends := by
  induction m with
  | zero =>
      intro s w k h hn hquick hstage hlen
      exact h.ends_of_started hn hquick hstage (Nat.not_lt.mpr hlen)
  | succ m ih =>
      intro s w k h hn hquick hstage hlen
      by_cases hlt : k < s.hosts.length
      · refine h.ends_of_start hn hquick hstage hlt fun t ht htlen htquick htstage => ?_
        exact ih ht (htlen ▸ hn) htquick htstage (by omega)
      · exact h.ends_of_started hn hquick hstage hlt

/-- **The first poll can make the fan-in ready if no input has suspended**, wherever it is. -/
theorem ends_of_first (h : s.Gathered) (hn : s.hosts.length < 2 ^ 64) (hquick : s.Quick)
    (hunder : s.stage ≠ .resting) (hfirst : s.wakers.length = 1) : s.Ends := by
  have hstarting : ∀ {t : Gathering β α ω} {w k}, t.Gathered → t.hosts.length = s.hosts.length →
      t.Quick → t.stage = .starting w k → t.Ends := fun ht hlen htquick hstage =>
    ends_of_starting _ ht (hlen ▸ hn) htquick hstage (Nat.le_add_left _ _)
  cases hstage : s.stage with
  | resting => exact absurd hstage hunder
  | looking w =>
      have hstarted : s.started = false := by
        rw [Bool.eq_false_iff]
        intro hstarted
        obtain ⟨-, -, htwo⟩ := h.looks hstage hstarted
        omega
      by_cases hnone : s.hosts = []
      · have hstep : s.step? .advance = some { s with started := true, stage := .finished [] } := by
          simp only [step?, advance?, hstage, hstarted, hnone, List.length_nil, Countdown.glance,
            Bool.false_eq_true, if_false, if_true]
        exact .of_step .advance rfl hstep ⟨_, [], .refl _, rfl⟩
      · have hlen : s.hosts.length ≠ 0 := fun hzero => hnone (List.length_eq_zero_iff.mp hzero)
        have hstep : s.step? .advance = some { s with started := true, stage := .starting w 0 } := by
          simp only [step?, advance?, hstage, hstarted, Countdown.glance, Bool.false_eq_true, if_false,
            if_neg hlen]
        exact .of_step .advance rfl hstep
          (hstarting (h.step hn (turns_of_step? hstep)) rfl hquick rfl)
  | starting w k => exact hstarting h rfl hquick hstage
  | running w k =>
      obtain ⟨f, hf, hcalled⟩ := h.running hstage
      have hc : f.frame.calls[0]? = some (f.frame.calls.head hcalled) := by
        rw [← List.head?_eq_getElem?, List.head?_eq_some_head]
      exact Launch.ends ⟨h, hn, hquick, hstage, hf, hc⟩ fun t ht hlen htquick htstage =>
        hstarting ht hlen htquick htstage
  | counting => exact h.ends_of_counting hn hquick hstage
  | collecting outs => exact h.ends_of_serving hn (Or.inl hstage)
  | taking outs c => exact h.ends_of_serving hn (Or.inr ⟨c, hstage⟩)
  | finished outs => exact ⟨s, outs, .refl _, hstage⟩
  | broken =>
      have hawaiter := h.awaiter
      rw [AwaiterAt, hstage] at hawaiter
      exact absurd hawaiter id

end Gathered

end TaskDispatch.Gathering
