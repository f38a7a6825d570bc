/-
Every frame of a tree is tended to.

`Tended` puts together what is known of each frame, of who polls which fan-in, and of
whose wakers are about.  One lemma for each kind of act says that it is kept: an act
from outside moves one frame; a call begins or ends the poll of a body; that poll takes
a step, alone, at a leaf, or with a fan-in of its own; a fan-in or a leaf lets wakes go.

What a body reads from a fan-in is what the inputs will come to (`outcomesOf_eq`), so
whatever a body comes to in the end is what it would come to by itself.
-/
import TaskDispatch.Proofs.FanIn.Exact
import TaskDispatch.Proofs.Tree.Waits

namespace TaskDispatch

/-- A poll of a fan-in that has woken somebody ends pending only if it has counted the awaiter in. -/
theorem Gathering.counting_of_advance {β α ω : Type} {s t : Gathering β α ω} (h : s.Gathered)
    (hstep : s.step? .advance = some t) (hstage : t.stage = .resting ∨ t.stage = .counting)
    (hwakes : s.roll.wakes ≠ []) : s.stage = .counting := by
  obtain ⟨⟨k, w⟩, hwake⟩ := List.exists_mem_of_ne_nil _ hwakes
  obtain ⟨-, -, hsuspended, -, hcomplete, -⟩ := h.tallied.of_wake hwake
  have hunasked : s.roll.awaiter ≠ none := by
    rw [hsuspended]
    exact nofun
  have hawaiter := h.awaiter
  simp only [step?] at hstep
  cases hs : s.stage with
  | counting => rfl
  | looking v =>
      rw [AwaiterAt, hs] at hawaiter
      cases hstarted : s.started with
      | true =>
          simp only [advance?, hs, Countdown.glance, hstarted, if_true, Countdown.isReady, hcomplete,
            Option.some.injEq] at hstep
          subst hstep
          rcases hstage with hstage | hstage <;> cases hstage
      | false =>
          simp only [hstarted, Bool.false_eq_true, if_false] at hawaiter
          exact absurd hawaiter.2.1 hunasked
  | starting v j => exact absurd (h.starts (Or.inl hs)).2.1 hunasked
  | running v j => exact absurd (h.starts (Or.inr hs)).2.1 hunasked
  | collecting outs =>
      simp only [advance?, hs] at hstep
      split at hstep
      · obtain rfl := Option.some.inj hstep
        rcases hstage with hstage | hstage <;> cases hstage
      · obtain ⟨u, -, rfl⟩ := Option.map_eq_some_iff.mp hstep
        rcases hstage with hstage | hstage <;> cases hstage
  | taking outs c =>
      simp only [advance?, hs] at hstep
      split at hstep
      · cases hstep
      · split at hstep
        · obtain rfl := Option.some.inj hstep
          rcases hstage with hstage | hstage <;> cases hstage
        · obtain rfl := Option.some.inj hstep
          rcases hstage with hstage | hstage <;> cases hstage
        · cases hstep
  | resting | finished outs | broken => simp [advance?, hs] at hstep

namespace Grove

open TaskDispatch.Frame (Callers Hosted Call)

variable {ℓ α : Type} {s t u : Grove ℓ α} {n : Seat}

/-- What holds of the frames, the fan-ins and the wakes of a tree. -/
structure Tended (s : Grove ℓ α) : Prop where
  frame : ∀ n f, s.host? n = some f → s.Tends n f
  /-- A poll is a poll of some frame. -/
  seated : ∀ n v, s.visits n = some v → ∃ f, s.host? n = some f
  /-- A fan-in belongs to a frame that has been polled, and was made after that frame. -/
  owner : ∀ (g : Nat) b, s.branches[g]? = some b → s.Begun b.owner
  order : ∀ (g : Nat) b, s.branches[g]? = some b → ∀ g' k, b.owner = .input g' k → g' < g
  /-- The only waker that a fan-in is given is that of its owner. -/
  wakers : ∀ (g : Nat) b, s.branches[g]? = some b → ∀ w ∈ b.fan.wakers, w = b.owner
  wakes : ∀ n ∈ s.wakes, s.Begun n
  kept : ∀ l n, (l, n) ∈ s.kept → s.Begun n

theorem Begun.grow (h : s.Begun n) (hgrows : Grows s t) : t.Begun n := by
  obtain ⟨f, hf, hpolls⟩ := h
  obtain ⟨f', hf', hmove⟩ := hgrows.host hf
  refine ⟨f', hf', ?_⟩
  rcases hmove with rfl | ⟨a, hstep⟩
  · exact hpolls
  · cases Hosted.turns_of_step? hstep with
    | resume => exact hpolls
    | take => exact hpolls
    | go j spurious r c c' x hc hmove log hlog => exact Nat.lt_of_lt_of_le hpolls hmove.polls_le

/-- A new frame is tended to. -/
theorem tends_start (tree : Tree ℓ α) (hquiet : s.visits n = none) : s.Tends n (.start tree.toTask) where
  visits := by
    rw [hquiet]
    rfl
  outcome := nofun
  rests _ b hb := by
    cases tree with
    | ready v => cases hb
    | failed e => cases hb
    | empty => cases hb
    | body p =>
        obtain rfl : Body.run p = b := Option.some.inj hb
        refine ⟨rfl, ?_⟩
        show if ([] : List (Polled (Body ℓ α) α)) = [] then _ else _
        rw [if_pos rfl]
        exact Body.rest_run p
  goes v hv := by
    rw [hquiet] at hv
    cases hv

theorem tended_start (tree : Tree ℓ α) : (Grove.start tree).Tended where
  frame n f hf := by
    cases n with
    | root =>
        obtain rfl := Option.some.inj hf
        exact tends_start tree rfl
    | input g k => cases hf
  seated n v hv := by cases hv
  owner g b hb := by cases hb
  order g b hb := by cases hb
  wakers g b hb := by cases hb
  wakes n hn := by cases hn
  kept l n hn := by cases hn

namespace Tended

/-- What has to be shown of an act: that it tends to the frames, and whose wakers it lets about. -/
theorem grow (h : s.Tended) (hgrows : Grows s t) (hframe : ∀ n f, t.host? n = some f → t.Tends n f)
    (hseated : ∀ n v, t.visits n = some v → ∃ f, s.host? n = some f)
    (hnew : ∀ (g : Nat) b', t.branches[g]? = some b' → s.branches[g]? = none →
      s.Begun b'.owner ∧ (∀ g' k, b'.owner = .input g' k → g' < g) ∧ b'.fan.wakers = [])
    (hwakers : ∀ (g : Nat) b b', s.branches[g]? = some b → t.branches[g]? = some b' →
      ∀ w ∈ b'.fan.wakers, w ∈ b.fan.wakers ∨ w = b.owner)
    (hwakes : ∀ n ∈ t.wakes, s.Begun n) (hkept : ∀ l n, (l, n) ∈ t.kept → s.Begun n) : t.Tended where
  frame := hframe
  seated n v hv := by
    obtain ⟨f, hf⟩ := hseated n v hv
    obtain ⟨f', hf', -⟩ := hgrows.host hf
    exact ⟨f', hf'⟩
  owner g b' hb' := by
    rcases hgrows.back hb' with ⟨b, hb, howner, -⟩ | ⟨hnone, -⟩
    · rw [howner]
      exact (h.owner g b hb).grow hgrows
    · exact (hnew g b' hb' hnone).1.grow hgrows
  order g b' hb' := by
    rcases hgrows.back hb' with ⟨b, hb, howner, -⟩ | ⟨hnone, -⟩
    · rw [howner]
      exact h.order g b hb
    · exact (hnew g b' hb' hnone).2.1
  wakers g b' hb' w hw := by
    rcases hgrows.back hb' with ⟨b, hb, howner, -⟩ | ⟨hnone, -⟩
    · rw [howner]
      rcases hwakers g b b' hb hb' w hw with hold | hown
      · exact h.wakers g b hb w hold
      · exact hown
    · rw [(hnew g b' hb' hnone).2.2] at hw
      cases hw
  wakes n hn := (hwakes n hn).grow hgrows
  kept l n hn := (hkept l n hn).grow hgrows

/-! ### Acts from outside -/

/-- One frame is moved from outside; what becomes of it and of the poll of its body is left to say. -/
theorem of_moved (h : s.Tended) {a : Callers.Act (Body ℓ α) α} (hgrows : Grows s t) (hmoved : Moved s t n a)
    {v : Option (Visit ℓ α)} (hself : ∀ f', t.host? n = some f' → (t.setVisit n v).Tends n f') :
    (t.setVisit n v).Tended := by
  refine h.grow (hgrows.same rfl rfl) ?_ ?_ ?_ ?_
    (fun m hm => h.wakes m (by rw [← hmoved.wakes]; exact hm))
    (fun l m hm => h.kept l m (by rw [← hmoved.kept]; exact hm))
  · intro m f' hf'
    by_cases hm : m = n
    · subst hm
      exact hself f' hf'
    · have hf : s.host? m = some f' := (hmoved.others m hm).symm.trans hf'
      refine (h.frame m f' hf).later ((Later.of_moved hmoved (Or.inl hm)).trans (.of_same rfl rfl rfl rfl rfl))
        ?_ (.refl f')
      rw [visits_setVisit_of_ne _ _ hm, hmoved.visits]
  · intro m w hw
    by_cases hm : m = n
    · obtain ⟨f, -, hf, -⟩ := hmoved.host
      exact ⟨f, hm ▸ hf⟩
    · rw [visits_setVisit_of_ne _ _ hm, hmoved.visits] at hw
      exact h.seated m w hw
  · intro g b' hb' hnone
    have hlt := (List.getElem?_eq_some_iff.mp hb').1
    rw [show (t.setVisit n v).branches.length = s.branches.length from hmoved.length] at hlt
    exact absurd hnone (by rw [List.getElem?_eq_getElem hlt]; exact nofun)
  · intro g b b' hb hb' w hw
    obtain ⟨b₁, hb₁, haway⟩ := hmoved.branch g b hb
    obtain rfl := Option.some.inj (hb₁.symm.trans hb')
    exact Or.inl (haway.wakers ▸ hw)

/-- No poll of a body begins or ends. -/
theorem moved (h : s.Tended) {a : Callers.Act (Body ℓ α) α} (hgrows : Grows s t) (hmoved : Moved s t n a)
    (haside : ∀ f f', s.host? n = some f → t.host? n = some f' → f.Aside f') : t.Tended := by
  rw [← setVisit_self (s := t) (n := n) rfl]
  refine h.of_moved hgrows hmoved fun f' hf' => ?_
  rw [setVisit_self rfl]
  obtain ⟨f, f₁, hf, -, hf₁⟩ := hmoved.host
  obtain rfl := Option.some.inj (hf₁.symm.trans hf')
  have haside := haside f f₁ hf hf₁
  refine (h.frame n f hf).later (.of_moved hmoved (Or.inr fun g g' hg hg' => ?_)) (by rw [hmoved.visits]) haside
  obtain rfl := Option.some.inj (hf.symm.trans hg)
  obtain rfl := Option.some.inj (hf₁.symm.trans hg')
  exact haside.roused

/-- Nothing moves but the caller of `sync_wait`. -/
theorem of_same (h : s.Tended) (hroot : t.root = s.root) (hbranches : t.branches = s.branches)
    (hvisits : t.visits = s.visits) (hopened : t.opened = s.opened) (hkept : t.kept = s.kept)
    (hwakes : t.wakes = s.wakes) : t.Tended := by
  have hhost : ∀ m, t.host? m = s.host? m := by
    intro m
    cases m with
    | root => exact congrArg some hroot
    | input g k => rw [host?, host?, hbranches]
  refine h.grow (.of_eq hroot hbranches) ?_ (fun m v hv => h.seated m v (by rw [← hvisits]; exact hv)) ?_ ?_
    (fun m hm => h.wakes m (by rw [← hwakes]; exact hm))
    (fun l m hm => h.kept l m (by rw [← hkept]; exact hm))
  · intro m f hf
    rw [hhost] at hf
    exact (h.frame m f hf).later (.of_same hwakes (hhost m) hopened hkept hbranches) (by rw [hvisits])
      (.refl f)
  · intro g b hb hnone
    rw [hbranches, hnone] at hb
    cases hb
  · intro g b b' hb hb' w hw
    rw [hbranches, hb] at hb'
    obtain rfl := Option.some.inj hb'
    exact Or.inl hw

/-! ### The poll of a body begins and ends -/

/-- The poll of a body begins where the latest one has left it. -/
theorem begin (h : s.Tended) {tree : Tree ℓ α} (hrooted : Rooted tree s) {j m : Nat} {spurious : Bool}
    {f : Hosted (Body ℓ α) α} (hf : s.host? n = some f)
    (hc : f.frame.calls[j]? = some ⟨.resuming .polling, m⟩)
    (hgo : s.go? n j spurious Gathering.noPoll = some t) :
    (t.setVisit n (f.frame.shared.task.begin?.map fun (b, _) => { focus := .body b })).Tended := by
  have hmoved := moved_of_go? hgo
  have hkept := hrooted.kept hf
  have hframe := h.frame n f hf
  obtain ⟨f₀, f', hf₀, hstep, hf'⟩ := hmoved.host
  obtain rfl := Option.some.inj (hf.symm.trans hf₀)
  have hnone : f.frame.calls.countP Call.visits = 0 :=
    Hosted.countP_visits_eq_zero hkept.owned (List.mem_of_getElem? hc) rfl rfl
  have hquiet := hframe.quiet hnone
  obtain ⟨hinput, hturn, hlog⟩ := Hosted.of_step? hstep
  have hlog : f'.log = f.log := by
    rw [hlog, Hosted.heard_of_not_polls hc rfl, List.append_nil]
  have hvisits : f'.frame.calls.countP Call.visits = f.frame.shared.task.begin?.isSome.toNat := by
    simp only [Callers.step?, hc, Call.step?, Option.some.injEq] at hturn
    have hcount := countP_set_add Call.visits
      ({ place := .inPoll f.frame.shared.task, lookedAt := m } : Call (Body ℓ α) α) hc
    rw [hnone] at hcount
    rw [← hturn]
    simpa [Call.visits] using hcount
  have hbegin := Hosted.Waits.begin? (hkept.calls j _ hc)
  refine h.of_moved (.of_go? hgo) hmoved fun f₁ hf₁ => ?_
  obtain rfl := Option.some.inj (hf'.symm.trans hf₁)
  have hbody : f'.body? = f.body? := by rw [Hosted.body?, Hosted.body?, hlog, hinput]
  refine ⟨?_, ?_, ?_, ?_⟩
  · rw [hvisits, visits_setVisit_self, Option.isSome_map]
  · rw [hlog, hinput]
    exact hframe.outcome
  · intro hnone b hb
    rw [visits_setVisit_self, Option.map_eq_none_iff] at hnone
    rw [hbody, ← hbegin, hnone] at hb
    cases hb
  · intro v hv
    rw [visits_setVisit_self] at hv
    obtain ⟨⟨b, r⟩, hb, rfl⟩ := Option.map_eq_some_iff.mp hv
    rw [hb] at hbegin
    obtain ⟨heval, hwaits⟩ := hframe.rests hquiet b hbegin.symm
    have hidle : ∀ g, b.rest = some (.fanIn g) → s.Idle n g := by
      intro g hg
      by_cases hempty : f.log = []
      · rw [if_pos hempty] at hwaits
        exact absurd hg (hwaits g)
      · rw [if_neg hempty] at hwaits
        obtain ⟨r, hr, hwaits⟩ := hwaits
        obtain rfl := Option.some.inj (hr.symm.trans hg)
        obtain ⟨b, hb, howner, hstage, -⟩ := hwaits
        exact ⟨b, hb, howner, hstage⟩
    rw [hinput]
    exact ⟨(b.eval_congr fun g _ => hmoved.promises g).trans heval, fun g hg => hmoved.idle (hidle g hg)⟩

/-- What a poll has come to, and where it has left the body. -/
theorem eval_of_result? {v : Visit ℓ α} {r : Polled (Body ℓ α) α} (h : v.result? = some r)
    {F : Nat → List (Outcome α)} :
    (∀ o, r.outcome? = some o → v.eval F = o) ∧ ∀ b, r.body? = some b → v = { focus := .suspended b } := by
  obtain ⟨focus, within⟩ := v
  cases within with
  | cons around rest => cases focus <;> cases h
  | nil =>
      cases focus with
      | suspended b =>
          cases h
          exact ⟨nofun, fun b' hb' => by cases hb'; rfl⟩
      | ended outcome =>
          cases h
          exact ⟨fun o ho => by cases ho; rfl, nofun⟩
      | panicked p =>
          cases h
          exact ⟨fun o ho => by cases ho; rfl, nofun⟩
      | _ => cases h

/-- The poll of a body ends: what it has come to is in the log. -/
theorem back (h : s.Tended) {j m : Nat} {spurious : Bool} {f : Hosted (Body ℓ α) α}
    {lent : Task (Body ℓ α) α} {b : Body ℓ α × Record (Body ℓ α) α} {v : Visit ℓ α}
    {r : Polled (Body ℓ α) α} (hf : s.host? n = some f)
    (hc : f.frame.calls[j]? = some ⟨.inPoll lent, m⟩) (hb : lent.begin? = some b)
    (hv : s.visits n = some v) (hr : v.result? = some r) (hgo : s.go? n j spurious r = some t) :
    (t.setVisit n none).Tended := by
  have hmoved := moved_of_go? hgo
  have hframe := h.frame n f hf
  obtain ⟨heval, hfocus⟩ := hframe.goes v hv
  obtain ⟨hended, hleft⟩ := eval_of_result? (F := s.promises) hr
  obtain ⟨f₀, f', hf₀, hstep, hf'⟩ := hmoved.host
  obtain rfl := Option.some.inj (hf.symm.trans hf₀)
  obtain ⟨hinput, -, hlog⟩ := Hosted.of_step? hstep
  have hlog : f'.log = f.log ++ [r] := by simp [hlog, Hosted.heard, hc, hb]
  have hlast : f'.log.getLast? = some r := by rw [hlog, List.getLast?_concat]
  have hlater : Later s t n := .of_moved hmoved (Or.inr fun g g' hg hg' hroused => by
    obtain rfl := Option.some.inj (hf.symm.trans hg)
    obtain rfl := Option.some.inj (hf'.symm.trans hg')
    exact hroused.go hstep hc (by simp))
  have hvisits : f'.frame.calls.countP Call.visits = 0 := by
    cases Hosted.turns_of_step? hstep with
    | go _ _ _ c c' x hc' hmove log hprefix =>
        obtain rfl := Option.some.inj (hc.symm.trans hc')
        have hcount := countP_set_add Call.visits c' hc
        rw [hmove.visits (by simp), hframe.visits, hv] at hcount
        have hone : Call.visits (⟨.inPoll lent, m⟩ : Call (Body ℓ α) α) = true := by simp [Call.visits, hb]
        rw [hone] at hcount
        simpa using hcount
  refine h.of_moved (.of_go? hgo) hmoved fun f₁ hf₁ => ?_
  obtain rfl := Option.some.inj (hf'.symm.trans hf₁)
  refine ⟨?_, ?_, ?_, ?_⟩
  · rw [hvisits, visits_setVisit_self]
    rfl
  · intro r' o hr' ho
    obtain rfl := Option.some.inj (hlast.symm.trans hr')
    rw [hinput, ← heval]
    exact (hended o ho).symm
  · intro _ b' hb'
    rw [Hosted.body?, hlast] at hb'
    obtain rfl := hleft b' hb'
    obtain ⟨r, hrest, hwaits⟩ := hfocus
    rw [hinput, if_neg (by rw [hlog]; simp)]
    exact ⟨(b'.eval_congr fun g _ => hmoved.promises g).trans heval, r, hrest, hlater.waits hwaits⟩
  · intro w hw
    rw [visits_setVisit_self] at hw
    cases hw

/-! ### The poll of a body takes a step -/

/-- The poll of a body goes on, and nobody else is moved but from outside. -/
theorem of_visit (h : s.Tended) {v w : Visit ℓ α} (hv : s.visits n = some v) (hgrows : Grows s u)
    (hvisits : u.visits = s.visits)
    (hhost : ∀ m f', u.host? m = some f' → (s.host? m = none ∧ (u.visits m = none → u.Tends m f')) ∨
      ∃ f, s.host? m = some f ∧ f.Aside f' ∧ (m ≠ n → Later s u m))
    (hself : w.eval u.promises = v.eval s.promises ∧ u.FocusAt n w.focus)
    (hnew : ∀ (g : Nat) b', u.branches[g]? = some b' → s.branches[g]? = none →
      s.Begun b'.owner ∧ (∀ g' k, b'.owner = .input g' k → g' < g) ∧ b'.fan.wakers = [])
    (hwakers : ∀ (g : Nat) b b', s.branches[g]? = some b → u.branches[g]? = some b' →
      ∀ w ∈ b'.fan.wakers, w ∈ b.fan.wakers ∨ w = b.owner)
    (hwakes : u.wakes = s.wakes) (hkept : ∀ l n, (l, n) ∈ u.kept → s.Begun n) :
    (u.setVisit n (some w)).Tended := by
  obtain ⟨fₙ, hfₙ⟩ := h.seated n v hv
  refine h.grow (hgrows.same rfl rfl) ?_ ?_ hnew hwakers
    (fun m hm => h.wakes m (by rw [← hwakes]; exact hm)) hkept
  · intro m f' hf'
    rcases hhost m f' hf' with ⟨hnone, htends⟩ | ⟨f, hf, haside, hlater⟩
    · have hm : m ≠ n := by
        rintro rfl
        rw [hnone] at hfₙ
        cases hfₙ
      have hquiet : u.visits m = none := by
        rw [hvisits]
        cases hw : s.visits m with
        | none => rfl
        | some w' =>
            obtain ⟨f, hf⟩ := h.seated m w' hw
            rw [hnone] at hf
            cases hf
      exact (htends hquiet).later (.of_same rfl rfl rfl rfl rfl) (visits_setVisit_of_ne _ _ hm) (.refl f')
    · by_cases hm : m = n
      · subst hm
        have hframe := h.frame m f hf
        refine ⟨?_, ?_, ?_, ?_⟩
        · rw [haside.visits, hframe.visits, hv, visits_setVisit_self]
          rfl
        · rw [haside.log, haside.input]
          exact hframe.outcome
        · intro hnone
          rw [visits_setVisit_self] at hnone
          cases hnone
        · intro w' hw'
          rw [visits_setVisit_self] at hw'
          obtain rfl := Option.some.inj hw'
          rw [haside.input, ← (hframe.goes v hv).1]
          exact hself
      · refine (h.frame m f hf).later ((hlater hm).trans (.of_same rfl rfl rfl rfl rfl)) ?_ haside
        rw [visits_setVisit_of_ne _ _ hm, hvisits]
  · intro m w' hw'
    by_cases hm : m = n
    · exact ⟨fₙ, hm ▸ hfₙ⟩
    · rw [visits_setVisit_of_ne _ _ hm, hvisits] at hw'
      exact h.seated m w' hw'

/-- The poll of a body takes a step by itself. -/
theorem goOn (h : s.Tended) {v w : Visit ℓ α} (hv : s.visits n = some v)
    (heval : w.eval s.promises = v.eval s.promises) (hfocus : s.FocusAt n w.focus) :
    (s.setVisit n (some w)).Tended := by
  refine h.of_visit hv (.of_eq rfl rfl) rfl (fun m f hf => Or.inr ⟨f, hf, .refl f, fun _ => ?_⟩)
    ⟨heval, hfocus⟩ ?_ ?_ rfl h.kept
  · exact .of_same rfl rfl rfl rfl rfl
  · intro g b hb hnone
    rw [hnone] at hb
    cases hb
  · intro g b b' hb hb' w hw
    obtain rfl := Option.some.inj (hb.symm.trans hb')
    exact Or.inl hw

/-- A poll that needs nothing from outside. -/
theorem turn (h : s.Tended) {v w : Visit ℓ α} (hv : s.visits n = some v) (hturn : v.turn? = some w) :
    (s.setVisit n (some w)).Tended := by
  obtain ⟨fₙ, hfₙ⟩ := h.seated n v hv
  obtain ⟨-, hfocus⟩ := (h.frame n fₙ hfₙ).goes v hv
  exact h.goOn hv (Visit.eval_of_turn? hturn).1 (FocusAt.turn hfocus hturn)

theorem focusAt_run (s : Grove ℓ α) (n : Seat) (p : Program ℓ α) : s.FocusAt n (.body (.run p)) :=
  fun g hg => absurd hg (Body.rest_run p g)

/-- The leaf is open. -/
theorem pass (h : s.Tended) {v : Visit ℓ α} {l : ℓ} {next : Program ℓ α} (hv : s.visits n = some v)
    (hfocus : v.focus = .body (.run (.leaf l next))) :
    (s.setVisit n (some { v with focus := .body (.run next) })).Tended :=
  h.goOn hv (Visit.eval_focus (by rw [hfocus]; rfl)) (focusAt_run s n next)

/-- The fan-in is pending: the body waits for it. -/
theorem rest (h : s.Tended) {v : Visit ℓ α} {g : Nat} {next : List (Outcome α) → Program ℓ α}
    {b : Branch ℓ α} (hv : s.visits n = some v) (hfocus : v.focus = .awaits g next)
    (hb : s.branches[g]? = some b) (hstage : b.fan.stage = .resting) :
    (s.setVisit n (some { v with focus := .suspended (.inAll g next) })).Tended := by
  refine h.goOn hv (Visit.eval_focus (by rw [hfocus]; rfl)) ⟨.fanIn g, rfl, ?_⟩
  obtain ⟨f, hf⟩ := h.seated n v hv
  have hat := ((h.frame n f hf).goes v hv).2
  rw [hfocus] at hat
  obtain ⟨b', hb', howner, hwakers, hroused⟩ := hat
  obtain rfl := Option.some.inj (hb.symm.trans hb')
  exact ⟨b, hb, howner, hstage, hwakers, hroused (Or.inl hstage)⟩

end Tended

/-! ### What a body reads from a fan-in -/

/-- A completed frame has come to what its task comes to. -/
theorem Tends.outcome_eq {f : Hosted (Body ℓ α) α} (h : s.Tends n f) (hkept : f.Kept)
    (htree : ∃ t : Tree ℓ α, f.input = t.toTask) (hdone : f.isCompleted = true) :
    f.outcome = .ok (promise f.input) := by
  have hbody := hkept.spent hdone
  cases hlast : f.log.getLast? with
  | none =>
      simp only [Hosted.outcome, Hosted.body?, hlast] at hbody ⊢
      obtain ⟨t, ht⟩ := htree
      rw [ht] at hbody ⊢
      cases t with
      | ready v => rfl
      | failed e => rfl
      | empty => rfl
      | body p => cases hbody
  | some r =>
      simp only [Hosted.outcome, Hosted.body?, hlast] at hbody ⊢
      obtain ⟨o, ho⟩ := Polled.exists_outcome hbody
      rw [← h.outcome r o hlast ho, ho]
      rfl

theorem outcomesOf_of_forall {outs : List (Task (Body ℓ α) α)} {o : Task (Body ℓ α) α → Outcome α}
    (h : ∀ t ∈ outs, t.takeOutcome.1 = .ok (o t)) : outcomesOf outs = .ok (outs.map o) := by
  induction outs with
  | nil => rfl
  | cons t rest ih =>
      have hrest := ih fun t ht => h t (List.mem_cons_of_mem _ ht)
      rw [outcomesOf] at hrest ⊢
      rw [List.mapM_cons, h t List.mem_cons_self, hrest]
      rfl

/-- **What a body reads from a fan-in is what the inputs come to**, in their order. -/
theorem Tended.outcomesOf_eq (h : s.Tended) {tree : Tree ℓ α} (hrooted : Rooted tree s) {g : Nat}
    {b : Branch ℓ α} {outs : List (Task (Body ℓ α) α)} (hb : s.branches[g]? = some b)
    (hstage : b.fan.stage = .finished outs) : outcomesOf outs = .ok b.promises := by
  obtain ⟨hcompleted, hlen, hmatches⟩ := (hrooted.gathered hb).outputs hstage
  have hread : ∀ (k : Nat) t, outs[k]? = some t →
      ∃ f, b.fan.hosts[k]? = some f ∧ t.takeOutcome.1 = .ok (promise f.input) := by
    intro k t ht
    have hlt : k < b.fan.hosts.length := hlen ▸ (List.getElem?_eq_some_iff.mp ht).1
    have hf : b.fan.hosts[k]? = some b.fan.hosts[k] := List.getElem?_eq_getElem hlt
    have hhost : s.host? (.input g k) = some b.fan.hosts[k] := (host?_input hb).trans hf
    refine ⟨_, hf, Task.takeOutcome_of_result ?_⟩
    rw [(hmatches k t _ ht hf).2]
    exact (h.frame _ _ hhost).outcome_eq (hrooted.kept hhost) (hrooted.hosted hhost).1
      (hcompleted _ (List.mem_of_getElem? hf))
  have hall : ∀ t ∈ outs, t.takeOutcome.1 = .ok (settled t.takeOutcome.1) := by
    intro t ht
    obtain ⟨k, hk⟩ := List.getElem?_of_mem ht
    obtain ⟨f, -, hf⟩ := hread k t hk
    rw [hf]
    rfl
  rw [outcomesOf_of_forall hall, Except.ok.injEq]
  refine List.ext_getElem? fun k => ?_
  rw [Branch.promises, List.getElem?_map, List.getElem?_map, List.getElem?_map]
  cases hk : outs[k]? with
  | none =>
      have hnone : b.fan.hosts[k]? = none := by
        rw [List.getElem?_eq_none_iff] at hk ⊢
        omega
      rw [hnone]
      rfl
  | some t =>
      obtain ⟨f, hf, houtcome⟩ := hread k t hk
      rw [hf, Option.map_some, houtcome]
      rfl

namespace Tended

/-- The body goes on with what it reads from the fan-in. -/
theorem read (h : s.Tended) {tree : Tree ℓ α} (hrooted : Rooted tree s) {v : Visit ℓ α} {g : Nat}
    {next : List (Outcome α) → Program ℓ α} {b : Branch ℓ α} {outs : List (Task (Body ℓ α) α)}
    (hv : s.visits n = some v) (hfocus : v.focus = .awaits g next) (hb : s.branches[g]? = some b)
    (hstage : b.fan.stage = .finished outs) :
    (s.setVisit n (some { v with focus := reads (outcomesOf outs) next })).Tended := by
  rw [h.outcomesOf_eq hrooted hb hstage]
  refine h.goOn hv (Visit.eval_focus ?_) (focusAt_run s n _)
  rw [hfocus, Focus.eval, promises, hb]
  rfl

/-- A frame whose body is being polled has been polled. -/
theorem begun_of_visit (h : s.Tended) {tree : Tree ℓ α} (hrooted : Rooted tree s) {v : Visit ℓ α}
    (hv : s.visits n = some v) : s.Begun n := by
  obtain ⟨f, hf⟩ := h.seated n v hv
  have hvisits := (h.frame n f hf).visits
  rw [hv] at hvisits
  obtain ⟨c, hc, hin⟩ := List.countP_pos_iff.mp (Nat.lt_of_lt_of_eq Nat.zero_lt_one hvisits.symm)
  refine ⟨f, hf, Nat.lt_of_le_of_lt (Nat.zero_le _) ((hrooted.answered hf).polled c hc ?_)⟩
  obtain ⟨place, m⟩ := c
  cases place with
  | inPoll lent => rfl
  | _ => cases hin

/-- The leaf is shut: it keeps the waker. -/
theorem park [DecidableEq ℓ] (h : s.Tended) {tree : Tree ℓ α} (hrooted : Rooted tree s) {v : Visit ℓ α} {l : ℓ}
    {next : Program ℓ α} (hv : s.visits n = some v) (hfocus : v.focus = .body (.run (.leaf l next)))
    (hshut : s.opened l = false) :
    (setVisit { s with kept := s.kept.insert (l, n) } n
      (some { v with focus := .suspended (.run (.leaf l next)) })).Tended := by
  refine h.of_visit (u := { s with kept := s.kept.insert (l, n) }) hv (.of_eq rfl rfl) rfl
    (fun m f hf => Or.inr ⟨f, hf, .refl f, fun _ => ?_⟩)
    ⟨Visit.eval_focus (by rw [hfocus]; rfl), .leaf l, rfl, ?_⟩ ?_ ?_ rfl ?_
  · refine ⟨id, fun _ => id, fun l' hl' hkept => ?_,
      fun g b hb howner => ⟨b, hb, howner, rfl, rfl, rfl, Or.inl rfl⟩⟩
    show if s.opened l' then _ else _
    rw [hl', if_neg Bool.false_ne_true]
    exact List.mem_insert_of_mem hkept
  · show if s.opened l then _ else _
    rw [hshut, if_neg Bool.false_ne_true]
    exact List.mem_insert_self
  · intro g b hb hnone
    exact absurd (hb.symm.trans hnone) nofun
  · intro g b b' hb hb' w hw
    obtain rfl := Option.some.inj (hb.symm.trans hb')
    exact Or.inl hw
  · intro l' m hm
    rcases List.mem_insert_iff.mp hm with hnew | hold
    · obtain ⟨rfl, rfl⟩ := Prod.mk.inj hnew
      exact h.begun_of_visit hrooted hv
    · exact h.kept l' m hold

/-- A fan-in is made. -/
theorem gather (h : s.Tended) {tree : Tree ℓ α} (hrooted : Rooted tree s) {v : Visit ℓ α} {k : Nat}
    {hk : k < 2 ^ 64} {inputs : Fin k → Tree ℓ α} {next : List (Outcome α) → Program ℓ α}
    (hv : s.visits n = some v) (hfocus : v.focus = .body (.run (.all k hk inputs next))) :
    ((s.join ⟨n, .start (List.ofFn fun i => (inputs i).toTask)⟩).setVisit n
      (some { v with focus := .asks s.branches.length next })).Tended := by
  let b : Branch ℓ α := ⟨n, .start (List.ofFn fun i => (inputs i).toTask)⟩
  refine h.of_visit (u := s.join b) hv (.of_join n hk inputs) rfl ?_ ⟨?_, ?_⟩ ?_ ?_ rfl h.kept
  · intro m f' hf'
    cases hf : s.host? m with
    | none =>
        refine Or.inl ⟨rfl, fun hquiet => ?_⟩
        rcases host?_back_of_join hf' with hthere | ⟨i, rfl, hhost⟩
        · exact absurd (hthere.symm.trans hf) nofun
        · obtain ⟨-, rfl⟩ := host_start hhost
          exact tends_start _ hquiet
    | some f =>
        obtain rfl := Option.some.inj ((host?_join b hf).symm.trans hf')
        refine Or.inr ⟨f, rfl, .refl f, fun _ => ⟨?_, fun _ => id, ?_, ?_⟩⟩
        · rintro (hwake | ⟨f₁, hf₁, hroused⟩)
          · exact Or.inl hwake
          · exact Or.inr ⟨f₁, host?_join b hf₁, hroused⟩
        · intro l hl hkept
          show if s.opened l then _ else _
          rw [hl, if_neg Bool.false_ne_true]
          exact hkept
        · exact fun g b' hb' howner => ⟨b', getElem?_join b hb', howner, rfl, rfl, rfl, Or.inl rfl⟩
  · refine Visit.eval_focus ?_
    show (next ((s.join b).promises s.branches.length)).eval = _
    rw [hfocus, promises_join]
    rfl
  · intro g hg
    cases hg
    exact ⟨b, getElem?_join_self s b, rfl, rfl⟩
  · intro g b' hb' hnone
    rcases getElem?_back_of_join hb' with hthere | ⟨rfl, rfl⟩
    · exact absurd (hthere.symm.trans hnone) nofun
    · refine ⟨h.begun_of_visit hrooted hv, ?_, rfl⟩
      intro g' i howner
      obtain ⟨f, hf⟩ := h.seated n v hv
      rw [show n = .input g' i from howner] at hf
      obtain ⟨b', hb', -⟩ := Option.bind_eq_some_iff.mp hf
      exact (List.getElem?_eq_some_iff.mp hb').1
  · intro g b₁ b₂ hb₁ hb₂ w hw
    obtain rfl := Option.some.inj ((getElem?_join b hb₁).symm.trans hb₂)
    exact Or.inl hw

end Tended

end Grove

end TaskDispatch
