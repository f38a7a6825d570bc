/-
The record of a task that has moved into a frame or a fan-in.

In a frame the task is in the hands of one call, lent to its poll or taken out, or else it
lies in the frame (`Holds`); in a fan-in it is where the frame of its input has it.  The
calls take turns in any order, but only the one that owns the task, or takes it, ever has
it in its hands.  So the record goes from place to place as it is, a poll changes it as a
poll does, and it has the shape that goes with the polls from before it came to the frame
and the frame's own (`Lodged`, `Seated`).
-/
import TaskDispatch.Proofs.FanIn.Gathering
import TaskDispatch.Proofs.Task.Shape

namespace TaskDispatch

variable {β α ω : Type} {o : Origin β α} {before : List (Polled β α)}

namespace Frame

/-- The task that a call has in its hands. -/
def Call.task? (c : Call β α) : Option (Task β α) :=
  match c.place with
  | .inPoll lent => some lent
  | .took task => task
  | _ => none

/-- Only the call that owns the task, or takes it, has it in its hands. -/
theorem Call.owns_or_takes_of_task? {c : Call β α} {t : Task β α} (h : c.task? = some t) :
    c.owns = true ∨ c.takes = true := by
  obtain ⟨place, n⟩ := c
  cases place with
  | inPoll lent => exact Or.inl rfl
  | took task =>
      obtain rfl : task = some t := h
      exact Or.inr rfl
  | _ => cases h

/-- A step that ends no poll puts the task from the frame into the call's hands, or leaves it where it is. -/
theorem Moves.task? {x x' : Shared β α} {c c' : Call β α} (h : Moves x c x' c') (hplace : c.polls = false) :
    c.task? = none ∧ c'.task? = none ∧ x'.task = x.task ∨
      (c.owns = true ∨ c.takes = true) ∧ c.task? = none ∧ c'.task? = some x.task := by
  cases h with
  | poll n => exact Or.inr ⟨Or.inl rfl, rfl, rfl⟩
  | move n => exact Or.inr ⟨Or.inr rfl, rfl, rfl⟩
  | suspend lent t n | finish lent t n | unwind lent n => cases hplace
  | _ => exact Or.inl ⟨rfl, rfl, rfl⟩

/-- While one call owns the task, or takes it, no other has it in its hands. -/
theorem Owned.task?_eq_none {s : Callers β α} {c d : Call β α} {i j : Nat} (h : Owned s)
    (hi : s.calls[i]? = some c) (hmine : c.owns = true ∨ c.takes = true) (hj : s.calls[j]? = some d)
    (hne : j ≠ i) : d.task? = none := by
  have hidle : d.owns = false ∧ d.takes = false :=
    hmine.elim (fun howns => h.alone_of_owns hi howns hj hne) fun htakes => h.alone_of_takes hi htakes hj hne
  rw [Option.eq_none_iff_forall_ne_some]
  intro t ht
  rcases Call.owns_or_takes_of_task? ht with howns | htakes
  · rw [hidle.1] at howns
    cases howns
  · rw [hidle.2] at htakes
    cases htakes

namespace Hosted

variable {f f' : Hosted β α} {t u : Task β α}

/-- This is the task of the frame: a call has it in its hands, or else it lies in the frame. -/
def Holds (f : Hosted β α) (t : Task β α) : Prop :=
  (∃ c ∈ f.frame.calls, c.task? = some t) ∨
    (∀ c ∈ f.frame.calls, c.task? = none) ∧ t = f.frame.shared.task

theorem exists_holds (f : Hosted β α) : ∃ t, f.Holds t := by
  by_cases hnone : ∀ c ∈ f.frame.calls, c.task? = none
  · exact ⟨_, Or.inr ⟨hnone, rfl⟩⟩
  · obtain ⟨c, hc, hsome⟩ := not_forall₂.mp hnone
    obtain ⟨t, ht⟩ := Option.ne_none_iff_exists'.mp hsome
    exact ⟨t, Or.inl ⟨c, hc, ht⟩⟩

/-- It is at one place only. -/
theorem Holds.unique (h : f.Holds t) (hkept : f.Kept) (hu : f.Holds u) : u = t := by
  rcases h with ⟨c, hc, hct⟩ | ⟨hnone, rfl⟩
  · rcases hu with ⟨d, hd, hdu⟩ | ⟨hnone, -⟩
    · obtain ⟨i, hi⟩ := List.getElem?_of_mem hc
      obtain ⟨j, hj⟩ := List.getElem?_of_mem hd
      by_cases hij : j = i
      · rw [hij, hi] at hj
        obtain rfl := Option.some.inj hj
        exact Option.some.inj (hdu.symm.trans hct)
      · rw [hkept.owned.task?_eq_none hi (Call.owns_or_takes_of_task? hct) hj hij] at hdu
        cases hdu
    · rw [hnone c hc] at hct
      cases hct
  · rcases hu with ⟨d, hd, hdu⟩ | ⟨-, rfl⟩
    · rw [hnone d hd] at hdu
      cases hdu
    · rfl

/-- A call that has taken the task keeps it in its hands. -/
theorem took_of_step? {a : Callers.Act β α} (h : f.step? a = some f') {c : Call β α}
    (hc : c ∈ f.frame.calls) (htook : c.place = .took (some t)) : c ∈ f'.frame.calls := by
  obtain ⟨-, hframe, -⟩ := of_step? h
  cases a with
  | resume | take =>
      rw [← Option.some.inj hframe]
      exact List.mem_append_left _ hc
  | go i spurious r =>
      simp only [Callers.step?] at hframe
      split at hframe
      · cases hframe
      · next d hd =>
          split at hframe
          · cases hframe
          · next x d' hmove =>
              rw [← Option.some.inj hframe]
              refine mem_set_of_ne hc hd ?_
              rintro rfl
              rw [Call.step?, htook] at hmove
              cases hmove

end Hosted

/-- The frame's task was made so, and these were the polls of its body before it came to the frame. -/
structure Lodged (o : Origin β α) (before : List (Polled β α)) (f : Hosted β α) : Prop where
  kept : f.Kept
  fits : ∀ t, f.Holds t → Fits o (before ++ f.log) t

namespace Lodged

open Hosted

variable {f f' : Hosted β α}

theorem start {t : Task β α} (h : Fits o before t) : Lodged o before (start t) where
  kept := kept_start h.sound
  fits u hu := by
    rcases hu with ⟨c, hc, -⟩ | ⟨-, rfl⟩
    · cases hc
    · rw [Hosted.start, List.append_nil]
      exact h

/-- Calls whose hands are empty may come, and go on with empty hands. -/
theorem of_holds (h : Lodged o before f) (hkept : f'.Kept) (hlog : f'.log = f.log)
    (hholds : ∀ t, f'.Holds t → f.Holds t) : Lodged o before f' where
  kept := hkept
  fits t ht := by
    rw [hlog]
    exact h.fits t (hholds t ht)

theorem begin (h : Lodged o before f) {place : Place β α} (hp : place = .resuming .load ∨ place = .taking) :
    Lodged o before { f with frame := { f.frame with calls := f.frame.calls ++ [⟨place, 0⟩] } } := by
  have hempty : (⟨place, 0⟩ : Call β α).task? = none := by
    rcases hp with rfl | rfl <;> rfl
  refine h.of_holds (h.kept.begin hp) rfl fun t ht => ?_
  rcases ht with ⟨c, hc, hct⟩ | ⟨hnone, ht⟩
  · rcases List.mem_append.mp hc with hold | hnew
    · exact Or.inl ⟨c, hold, hct⟩
    · rw [List.mem_singleton.mp hnew, hempty] at hct
      cases hct
  · exact Or.inr ⟨fun c hc => hnone c (List.mem_append_left _ hc), ht⟩

/-- A step of a call that ends no poll leaves the record as it is. -/
theorem go (h : Lodged o before f) {i : Nat} {c c' : Call β α} {x : Shared β α}
    (hc : f.frame.calls[i]? = some c) (hmove : Moves f.frame.shared c x c') (hplace : c.polls = false) :
    Lodged o before { f with frame := ⟨x, f.frame.calls.set i c'⟩ } := by
  refine h.of_holds (h.kept.go hc hmove hplace) rfl fun t ht => ?_
  rcases hmove.task? hplace with ⟨hbefore, hafter, htask⟩ | ⟨hmine, hbefore, hafter⟩
  · rcases ht with ⟨d, hd, hdt⟩ | ⟨hnone, ht⟩
    · rcases mem_of_mem_set hd with rfl | hold
      · rw [hafter] at hdt
        cases hdt
      · exact Or.inl ⟨d, hold, hdt⟩
    · refine Or.inr ⟨fun d hd => ?_, ht.trans htask⟩
      by_cases hdc : d = c
      · rw [hdc, hbefore]
      · exact hnone d (mem_set_of_ne hd hc hdc)
  · -- The call has got the task out of the frame: before, nobody had it in their hands.
    have hothers : ∀ j d, f.frame.calls[j]? = some d → j ≠ i → d.task? = none :=
      fun j d hd hne => h.kept.owned.task?_eq_none hc hmine hd hne
    rcases ht with ⟨d, hd, hdt⟩ | ⟨hnone, -⟩
    · obtain ⟨j, hj⟩ := List.getElem?_of_mem hd
      rcases getElem?_of_set hj with ⟨-, rfl⟩ | ⟨hne, hold⟩
      · refine Or.inr ⟨fun e he => ?_, Option.some.inj (hdt.symm.trans hafter)⟩
        obtain ⟨k, hk⟩ := List.getElem?_of_mem he
        by_cases hki : k = i
        · rw [hki, hc] at hk
          rw [← Option.some.inj hk, hbefore]
        · exact hothers k e hk hki
      · rw [hothers j d hold hne] at hdt
        cases hdt
    · rw [hnone c' (mem_set_self hc)] at hafter
      cases hafter

/-- A poll ends: the record is what the poll has made of it. -/
theorem back (h : Lodged o before f) {i n : Nat} {lent : Task β α} {spurious : Bool} {r : Polled β α}
    {x : Shared β α} {c' : Call β α} (hc : f.frame.calls[i]? = some ⟨.inPoll lent, n⟩)
    (hstep : Call.step? ⟨.inPoll lent, n⟩ spurious r f.frame.shared = some (x, c')) :
    Lodged o before { f with frame := ⟨x, f.frame.calls.set i c'⟩, log := f.log ++ lent.heard r } := by
  have hkept := h.kept.back hc hstep
  obtain ⟨t', hpolled, hfits⟩ := (h.fits lent (Or.inl ⟨_, List.mem_of_getElem? hc, rfl⟩)).polled r
  simp only [Call.step?, hpolled, Option.some.injEq, Prod.mk.injEq] at hstep
  obtain ⟨rfl, rfl⟩ := hstep
  refine ⟨hkept, fun t ht => ?_⟩
  rw [← List.append_assoc]
  rcases ht with ⟨d, hd, hdt⟩ | ⟨-, rfl⟩
  · obtain ⟨j, hj⟩ := List.getElem?_of_mem hd
    rcases getElem?_of_set hj with ⟨-, rfl⟩ | ⟨hne, hold⟩
    · cases hdt
    · rw [h.kept.owned.task?_eq_none hc (Or.inl rfl) hold hne] at hdt
      cases hdt
  · exact hfits

/-- **Every act keeps the record in shape.** -/
theorem step (h : Lodged o before f) {a : Callers.Act β α} (hstep : f.step? a = some f') :
    Lodged o before f' := by
  cases acts_of_step? hstep with
  | resume => exact h.begin (Or.inl rfl)
  | take => exact h.begin (Or.inr rfl)
  | go i spurious r c c' x hc hmove hplace => exact h.go hc hmove hplace
  | back i n lent spurious r x c' hc hpoll => exact h.back hc hpoll

/-- Whoever has taken the task has its record. -/
theorem of_took (h : Lodged o before f) {c : Call β α} (hc : c ∈ f.frame.calls) {t : Task β α}
    (htook : c.place = .took (some t)) : Fits o (before ++ f.log) t :=
  h.fits t (Or.inl ⟨c, hc, by rw [Call.task?, htook]⟩)

end Lodged

/-- Nobody has resumed the frame: it is idle, no poll has ended, and whoever tried to take the task came
away with nothing. -/
structure Hosted.Asleep (f : Hosted β α) : Prop where
  idle : f.frame.shared.word = .idle
  log : f.log = []
  calls : ∀ c ∈ f.frame.calls, c.place = .taking ∨ c.place = .took none

theorem Hosted.asleep_start (t : Task β α) : (Hosted.start t).Asleep := ⟨rfl, rfl, nofun⟩

theorem Hosted.Asleep.step {f f' : Hosted β α} (h : f.Asleep) {a : Callers.Act β α}
    (hstep : f.step? a = some f') (hrests : a ≠ .resume) : f'.Asleep := by
  obtain ⟨-, hframe, hlog⟩ := of_step? hstep
  cases a with
  | resume => exact absurd rfl hrests
  | take =>
      obtain hframe := Option.some.inj hframe
      refine ⟨hframe ▸ h.idle, hlog.trans (by rw [h.log]; rfl), fun c hc => ?_⟩
      rw [← hframe] at hc
      rcases List.mem_append.mp hc with hold | hnew
      · exact h.calls c hold
      · rw [List.mem_singleton.mp hnew]
        exact Or.inl rfl
  | go i spurious r =>
      simp only [Callers.step?] at hframe
      split at hframe
      · cases hframe
      · next c hc =>
          -- Nobody is in a poll, and who tries to take finds the frame idle.
          have hcalls := h.calls c (List.mem_of_getElem? hc)
          obtain ⟨place, n⟩ := c
          rcases hcalls with htaking | htook
          · obtain rfl : place = .taking := htaking
            simp only [Call.step?, h.idle, Word.take?, Option.some.injEq] at hframe
            have hheard : f.heard (.go i spurious r) = [] := heard_of_not_polls hc rfl spurious r
            refine ⟨hframe ▸ h.idle, hlog.trans (by rw [h.log, hheard]; rfl), fun d hd => ?_⟩
            rw [← hframe] at hd
            rcases mem_of_mem_set hd with rfl | hold
            · exact Or.inr rfl
            · exact h.calls d hold
          · obtain rfl : place = .took none := htook
            cases hframe

end Frame

/-! ### In a fan-in -/

namespace Gathering

open TaskDispatch.Frame (Hosted Lodged)

/-- The tasks that a poll has taken out of their frames. -/
def Stage.outs : Stage β α ω → List (Task β α)
  | collecting outs | taking outs _ | finished outs => outs
  | resting | looking _ | starting _ _ | running _ _ | counting | broken => []

variable {g g' : Gathering β α ω} {f : Hosted β α} {i : Nat}

/-- The frame of this input has the task, and who has got it out of the fan-in has got it from there. -/
structure Seated (o : Origin β α) (before : List (Polled β α)) (i : Nat) (g : Gathering β α ω)
    (f : Hosted β α) : Prop where
  host : g.hosts[i]? = some f
  lodged : Lodged o before f
  outs : ∀ t, g.stage.outs[i]? = some t → ∃ c ∈ f.frame.calls, c.place = .took (some t)

namespace Seated

theorem start {t : Task β α} (h : Fits o before t) (lefts rights : List (Task β α)) :
    Seated o before lefts.length (Gathering.start (lefts ++ t :: rights) : Gathering β α ω) (.start t) where
  host := by simp [Gathering.start]
  lodged := .start h
  outs := nofun

/-- The frames stay, and what has been got out is the same, or nothing. -/
theorem of_hosts (h : Seated o before i g f) (hhosts : g'.hosts = g.hosts)
    (houts : g'.stage.outs = g.stage.outs ∨ g'.stage.outs = []) : Seated o before i g' f where
  host := hhosts ▸ h.host
  lodged := h.lodged
  outs t ht := by
    rcases houts with hsame | hnone
    · exact h.outs t (hsame ▸ ht)
    · rw [hnone] at ht
      cases ht

/-- One frame moves, and what has been got out is the same, or nothing. -/
theorem of_set (h : Seated o before i g f) {k : Nat} {e e' : Hosted β α} {a : Frame.Callers.Act β α}
    (he : g.hosts[k]? = some e) (hstep : e.step? a = some e') (hhosts : g'.hosts = g.hosts.set k e')
    (houts : g'.stage.outs = g.stage.outs ∨ g'.stage.outs = []) :
    ∃ f', Seated o before i g' f' ∧ (f' = f ∨ ∃ a, f.step? a = some f') := by
  have hkept : ∀ t, g'.stage.outs[i]? = some t → ∃ c ∈ f.frame.calls, c.place = .took (some t) :=
    (h.of_hosts rfl houts : Seated o before i { g' with hosts := g.hosts } f).outs
  by_cases hk : k = i
  · subst hk
    obtain rfl := Option.some.inj (he.symm.trans h.host)
    refine ⟨e', ⟨?_, h.lodged.step hstep, fun t ht => ?_⟩, Or.inr ⟨a, hstep⟩⟩
    · rw [hhosts, List.getElem?_set_self (List.getElem?_eq_some_iff.mp he).1]
    · obtain ⟨c, hc, htook⟩ := hkept t ht
      exact ⟨c, Hosted.took_of_step? hstep hc htook, htook⟩
  · refine ⟨f, ⟨?_, h.lodged, hkept⟩, Or.inl rfl⟩
    rw [hhosts, List.getElem?_set_ne hk, h.host]

/-- **Every act of the fan-in keeps the record in shape**, and its frame does nothing that it would not do
elsewhere. -/
theorem step (h : Seated o before i g f) {a : Act β α ω} (hstep : g.step? a = some g') :
    ∃ f', Seated o before i g' f' ∧ (f' = f ∨ ∃ a, f.step? a = some f') := by
  cases turns_of_step? hstep with
  | poll w hstage | nothing w hstage | begin w hstage | collect w hstage | pend w hstage =>
      exact ⟨f, h.of_hosts rfl (Or.inr rfl), Or.inl rfl⟩
  | started w k e c hstage | await w k roll hstage | suspend hstage | proceed hstage =>
      exact ⟨f, h.of_hosts rfl (Or.inr rfl), Or.inl rfl⟩
  | missed outs c n e hstage => exact ⟨f, h.of_hosts rfl (Or.inr rfl), Or.inl rfl⟩
  | count roll hstage | notify k roll => exact ⟨f, h.of_hosts rfl (Or.inl rfl), Or.inl rfl⟩
  | start w k e e' hstage he hgo => exact h.of_set he hgo rfl (Or.inr rfl)
  | take outs e e' hstage he hgo => exact h.of_set he hgo rfl (Or.inl (by rw [hstage]; rfl))
  | finish outs hstage => exact ⟨f, h.of_hosts rfl (Or.inl (by rw [hstage]; rfl)), Or.inl rfl⟩
  | wake k e e' he _ hgo => exact h.of_set he hgo rfl (Or.inl rfl)
  | call k j spurious r e e' c he _ _ _ hgo => exact h.of_set he hgo rfl (Or.inl rfl)
  | announce k j n spurious r e e' roll he _ hgo => exact h.of_set he hgo rfl (Or.inl rfl)
  | took outs c n e t hstage he hc =>
      refine ⟨f, ⟨h.host, h.lodged, fun u hu => ?_⟩, Or.inl rfl⟩
      rcases getElem?_of_concat hu with ⟨rfl, rfl⟩ | ⟨-, hold⟩
      · obtain rfl := Option.some.inj (he.symm.trans h.host)
        exact ⟨_, List.mem_of_getElem? hc, rfl⟩
      · exact h.outs u (by rw [hstage]; exact hold)

end Seated

/-- Nobody has polled the fan-in, and nobody has called any of its frames. -/
structure Asleep (g : Gathering β α ω) : Prop where
  resting : g.stage = .resting
  hosts : ∀ f ∈ g.hosts, f.frame.calls = [] ∧ f.frame.shared.polls = 0 ∧ f.log = []

theorem asleep_start (inputs : List (Task β α)) : (start inputs : Gathering β α ω).Asleep where
  resting := rfl
  hosts f hf := by
    obtain ⟨t, -, rfl⟩ := List.mem_map.mp hf
    exact ⟨rfl, rfl, rfl⟩

theorem Asleep.step (h : g.Asleep) {a : Act β α ω} (hstep : g.step? a = some g')
    (hrests : ∀ w, a ≠ .poll w) : g'.Asleep := by
  cases a with
  | poll w => exact absurd rfl (hrests w)
  | advance => simp [step?, advance?, h.resting] at hstep
  | wake k =>
      simp only [step?] at hstep
      split at hstep
      · cases hstep
      · next f hf => simp [(h.hosts f (List.mem_of_getElem? hf)).2.1] at hstep
  | call k j spurious r =>
      have hnone : (g.hosts[k]?).bind (·.frame.calls[j]?) = none := by
        cases hf : g.hosts[k]? with
        | none => rfl
        | some f => simp [(h.hosts f (List.mem_of_getElem? hf)).1]
      simp [step?, call?, hnone] at hstep
  | notify k =>
      obtain ⟨roll, -, rfl⟩ := of_onRoll? hstep
      exact ⟨h.resting, h.hosts⟩

end Gathering

end TaskDispatch
