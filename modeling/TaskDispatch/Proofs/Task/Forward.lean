/-
A record only goes forward.

Of all places where a task has been, one has its record: a slot, the frame it is in, or
the frame of its input in the fan-in it is in; every other slot is empty.  `Traced` says
which one it is, and that the record fits the polls of its body.  Every act keeps that,
and no act takes a poll back, so that a record never goes back to a shape from before
(`Fits.rank_le`).
-/
import TaskDispatch.Proofs.Task.Life

namespace TaskDispatch

open TaskDispatch.Frame (Callers Hosted Lodged)

variable {β α ω : Type} {o : Origin β α}

/-- Whoever awaits a task by value leaves its record in shape. -/
theorem Fits.leave {polls : List (Polled β α)} {t : Task β α} (h : Fits o polls t) (byValue : Bool) :
    Fits o polls (Life.leave byValue t) := by
  rw [Life.leave]
  split
  · next hready => exact (h.takeOutcome (Bool.and_eq_true_iff.mp hready).1).2
  · exact h

namespace Life

variable {s t : Life β α ω} {slots : List (Task β α)}

/-- One place has the task's record, and all other slots are empty. -/
inductive Traced (o : Origin β α) : Life β α ω → Prop
  | held {slots : List (Task β α)} {before : List (Polled β α)} (k : Nat) (t : Task β α)
    (ht : slots[k]? = some t) (hfits : Fits o before t)
    (hothers : ∀ (j : Nat) u, slots[j]? = some u → j ≠ k → u = .empty) : Traced o ⟨slots, .none, before⟩
  | framed {slots : List (Task β α)} {f : Hosted β α} {before : List (Polled β α)}
    (hslots : ∀ u ∈ slots, u = .empty) (hlodged : Lodged o before f) :
    Traced o ⟨slots, .frame f, before⟩
  | gathered {slots : List (Task β α)} {i : Nat} {g : Gathering β α ω} {before : List (Polled β α)}
    (f : Hosted β α) (hslots : ∀ u ∈ slots, u = .empty) (hseated : g.Seated o before i f) :
    Traced o ⟨slots, .fanIn i g, before⟩

theorem traced_start (o : Origin β α) : Traced o (start o : Life β α ω) := by
  refine .held 0 o.task rfl (.of_origin o) fun j u hu hj => ?_
  cases j with
  | zero => exact absurd rfl hj
  | succ j => cases hu

/-! ### Slots that are empty -/

/-- All slots but this one are empty once it has been emptied. -/
theorem forall_empty_set {k : Nat} (hothers : ∀ (j : Nat) u, slots[j]? = some u → j ≠ k → u = .empty) :
    ∀ u ∈ slots.set k .empty, u = .empty := by
  intro u hu
  obtain ⟨j, hj⟩ := List.getElem?_of_mem hu
  rcases getElem?_of_set hj with ⟨-, rfl⟩ | ⟨hne, hold⟩
  · rfl
  · exact hothers j u hold hne

/-- A task that comes into a new slot is traced there, if all others are empty. -/
theorem Traced.of_concat {before : List (Polled β α)} {u : Task β α} (hslots : ∀ u ∈ slots, u = .empty)
    (hfits : Fits o before u) : Traced o (⟨slots ++ [u], .none, before⟩ : Life β α ω) := by
  refine .held slots.length u List.getElem?_concat_length hfits fun j v hv hj => ?_
  rcases getElem?_of_concat hv with ⟨hlast, -⟩ | ⟨-, hold⟩
  · exact absurd hlast hj
  · exact hslots v (List.mem_of_getElem? hold)

/-- A poll of an empty task runs no body and leaves everything as it is. -/
theorem poll_of_empty (byValue : Bool) {k : Nat} {ready : Bool} {r : Polled β α} {u : Task β α}
    (hk : s.slots[k]? = some .empty) (hpolled : (Task.empty : Task β α).polled r = .ok (ready, u)) :
    { s with slots := s.slots.set k (leave byValue u), before := s.before ++ (Task.empty : Task β α).heard r } =
      s := by
  cases hpolled
  have hleft : leave byValue (.empty : Task β α) = .empty := by cases byValue <;> rfl
  have hheard : (.empty : Task β α).heard r = [] := rfl
  obtain ⟨hlt, hempty⟩ := List.getElem?_eq_some_iff.mp hk
  rw [hleft, hheard, List.append_nil, ← hempty, List.set_getElem_self]

/-! ### What every act keeps -/

namespace Traced

/-- A slot is empty, or the only one that is not, and then the task has moved in nowhere. -/
theorem slot (h : Traced o s) {k : Nat} {u : Task β α} (hu : s.slots[k]? = some u) :
    u = .empty ∨ s.lodging = .none ∧ Fits o s.before u ∧
      ∀ (j : Nat) v, s.slots[j]? = some v → j ≠ k → v = .empty := by
  cases h with
  | held k₀ t ht hfits hothers =>
      by_cases hk : k = k₀
      · subst hk
        obtain rfl := Option.some.inj (hu.symm.trans ht)
        exact Or.inr ⟨rfl, hfits, hothers⟩
      · exact Or.inl (hothers k u hu hk)
  | framed hslots hlodged => exact Or.inl (hslots u (List.mem_of_getElem? hu))
  | gathered f hslots hseated => exact Or.inl (hslots u (List.mem_of_getElem? hu))

/-- One more empty slot. -/
theorem concat_empty (h : Traced o s) : Traced o { s with slots := s.slots ++ [.empty] } := by
  have hempty : ∀ {slots : List (Task β α)}, (∀ v ∈ slots, v = .empty) → ∀ v ∈ slots ++ [.empty], v = .empty :=
    fun hslots v hv => (List.mem_append.mp hv).elim (hslots v) List.mem_singleton.mp
  cases h with
  | held k t ht hfits hothers =>
      have hlt := (List.getElem?_eq_some_iff.mp ht).1
      refine .held k t ((List.getElem?_append_left hlt).trans ht) hfits fun j v hv hj => ?_
      exact (getElem?_of_join hv).elim id fun hold => hothers j v hold hj
  | framed hslots hlodged => exact .framed (hempty hslots) hlodged
  | gathered f hslots hseated => exact .gathered f (hempty hslots) hseated

theorem poll (h : Traced o s) (byValue : Bool) {k : Nat} {ready : Bool} {r : Polled β α} {u u' : Task β α}
    (hu : s.slots[k]? = some u) (hpolled : u.polled r = .ok (ready, u')) :
    Traced o { s with slots := s.slots.set k (leave byValue u'), before := s.before ++ u.heard r } ∧
      (s.lodging ≠ .none → u.heard r = []) := by
  rcases h.slot hu with rfl | ⟨hnone, hfits, hothers⟩
  · rw [poll_of_empty byValue hu hpolled]
    exact ⟨h, fun _ => rfl⟩
  · obtain ⟨slots, lodging, before⟩ := s
    obtain rfl : lodging = .none := hnone
    obtain ⟨t', ht', hfits'⟩ := hfits.polled r
    obtain ⟨-, rfl⟩ := Prod.mk.inj (Except.ok.inj (hpolled.symm.trans ht'))
    refine ⟨.held k _ (List.getElem?_set_self (List.getElem?_eq_some_iff.mp hu).1) (hfits'.leave byValue) ?_,
      fun hin => absurd rfl hin⟩
    intro j v hv hj
    exact hothers j v ((List.getElem?_set_ne (Ne.symm hj)).symm.trans hv) hj

theorem move (h : Traced o s) {k : Nat} {u : Task β α} (hu : s.slots[k]? = some u) :
    Traced o { s with slots := s.slots.set k .empty ++ [u] } := by
  rcases h.slot hu with rfl | ⟨hnone, hfits, hothers⟩
  · obtain ⟨hk, hempty⟩ := List.getElem?_eq_some_iff.mp hu
    have hsame : s.slots.set k .empty = s.slots := by
      rw [← hempty, List.set_getElem_self]
    rw [hsame]
    exact h.concat_empty
  · obtain ⟨slots, lodging, before⟩ := s
    obtain rfl : lodging = .none := hnone
    exact .of_concat (forall_empty_set hothers) hfits

/-- A task that is to move in has the record, and leaves all slots empty. -/
theorem moveIn (h : Traced o s) {k : Nat} {u : Task β α} (hu : s.slots[k]? = some u)
    (hsome : u.isEmpty = false) : Fits o s.before u ∧ ∀ v ∈ s.slots.set k .empty, v = .empty := by
  rcases h.slot hu with rfl | ⟨-, hfits, hothers⟩
  · cases hsome
  · exact ⟨hfits, forall_empty_set hothers⟩

/-- **Every act keeps the task traced and takes no poll back.** -/
theorem step (h : Traced o s) {a : Act β α ω} (hst : Turns s a t) : Traced o t ∧ s.polls <+: t.polls := by
  cases hst with
  | poll k byValue r u u' ready hu hpolled =>
      obtain ⟨htraced, hheard⟩ := h.poll byValue hu hpolled
      refine ⟨htraced, ?_⟩
      simp only [polls]
      cases hin : s.lodging with
      | none => exact ⟨u.heard r, by simp [Lodging.log]⟩
      | frame f | fanIn i g =>
          have hnone := hheard (by rw [hin]; nofun)
          simp [hnone]
  | move k u hu => exact ⟨h.move hu, List.prefix_refl _⟩
  | enterFrame k u hnone hu hsome =>
      obtain ⟨hfits, hslots⟩ := h.moveIn hu hsome
      exact ⟨.framed hslots (.start hfits), by rw [polls, hnone]; exact List.prefix_refl _⟩
  | enterFanIn k lefts rights u hnone hu hsome =>
      obtain ⟨hfits, hslots⟩ := h.moveIn hu hsome
      refine ⟨.gathered _ hslots (.start hfits lefts rights), ?_⟩
      simp [polls, hnone, Lodging.log, Gathering.start, Hosted.start]
  | inFrame a f f' hf hstep =>
      cases h with
      | held k t ht hfits hothers => cases hf
      | gathered f hslots hseated => cases hf
      | framed hslots hlodged =>
          cases hf
          refine ⟨.framed hslots (hlodged.step hstep), ?_⟩
          simp [polls, Lodging.log, (Hosted.of_step? hstep).2.2]
  | inFanIn a i g g' hg hstep =>
      cases h with
      | held k t ht hfits hothers => cases hg
      | framed hslots hlodged => cases hg
      | gathered f hslots hseated =>
          cases hg
          obtain ⟨f', hseated', hsame⟩ := hseated.step hstep
          refine ⟨.gathered f' hslots hseated', ?_⟩
          simp only [polls, Lodging.log, hseated.host, hseated'.host, Option.map_some, Option.getD_some]
          rcases hsame with rfl | ⟨a, hstep⟩
          · exact List.prefix_refl _
          · simp [(Hosted.of_step? hstep).2.2]
  | leaveFrame f j n u hf hc =>
      cases h with
      | held k t ht hfits hothers => cases hf
      | gathered f hslots hseated => cases hf
      | framed hslots hlodged =>
          cases hf
          refine ⟨.of_concat hslots (hlodged.of_took (List.mem_of_getElem? hc) rfl), ?_⟩
          simp [polls, Lodging.log]
  | leaveFanIn i g outs u hg hstage hu =>
      cases h with
      | held k t ht hfits hothers => cases hg
      | framed hslots hlodged => cases hg
      | gathered f hslots hseated =>
          cases hg
          obtain ⟨c, hc, htook⟩ := hseated.outs u (by rw [hstage]; exact hu)
          have hfits := hseated.lodged.of_took hc htook
          refine ⟨.of_concat hslots ?_, ?_⟩
          · simpa [polls, Lodging.log, hseated.host] using hfits
          · simp [polls, Lodging.log]

theorem of_leads (h : Leads step? s t) (hs : Traced o s) : Traced o t ∧ s.polls <+: t.polls :=
  h.keeps (P := fun u => Traced o u ∧ s.polls <+: u.polls)
    (fun _ _ _ ⟨htraced, hmore⟩ hstep =>
      (htraced.step (turns_of_step? hstep)).imp_right hmore.trans) ⟨hs, List.prefix_refl _⟩

/-! ### Where the record is -/

/-- **One place has the record**, which fits the polls of its body, and a task that is anywhere else is
empty. -/
theorem exists_record (h : Traced o s) :
    ∃ t, s.Has t ∧ Fits o s.polls t ∧ ∀ u, s.Has u → u = t ∨ u = .empty := by
  cases h with
  | @held slots before k t ht hfits hothers =>
      refine ⟨t, Or.inl (List.mem_of_getElem? ht), by simpa [polls, Lodging.log] using hfits, ?_⟩
      rintro u (hu | hu)
      · obtain ⟨j, hj⟩ := List.getElem?_of_mem hu
        by_cases hjk : j = k
        · exact Or.inl (Option.some.inj (hj.symm.trans (hjk ▸ ht)))
        · exact Or.inr (hothers j u hj hjk)
      · cases hu
  | @framed slots f before hslots hlodged =>
      obtain ⟨t, ht⟩ := f.exists_holds
      refine ⟨t, Or.inr ht, hlodged.fits t ht, ?_⟩
      rintro u (hu | hu)
      · exact Or.inr (hslots u hu)
      · exact Or.inl (ht.unique hlodged.kept hu)
  | @gathered slots i g before f hslots hseated =>
      obtain ⟨t, ht⟩ := f.exists_holds
      refine ⟨t, Or.inr (Or.inl ⟨f, hseated.host, ht⟩), ?_, ?_⟩
      · simpa [polls, Lodging.log, hseated.host] using hseated.lodged.fits t ht
      · rintro u (hu | ⟨e, he, hu⟩ | hout)
        · exact Or.inr (hslots u hu)
        · obtain rfl := Option.some.inj (he.symm.trans hseated.host)
          exact Or.inl (ht.unique hseated.lodged.kept hu)
        · obtain ⟨c, hc, htook⟩ := hseated.outs u hout
          exact Or.inl (ht.unique hseated.lodged.kept (Or.inl ⟨c, hc, by rw [Frame.Call.task?, htook]⟩))

end Traced

/-! ### Before anybody awaits the task -/

/-- Nobody has awaited the task, in whatever it has moved into. -/
def Asleep (s : Life β α ω) : Prop :=
  s.before = [] ∧ match s.lodging with
    | .none => True
    | .frame f => f.Asleep
    | .fanIn _ g => g.Asleep

theorem Asleep.polls_eq_nil (h : s.Asleep) : s.polls = [] := by
  obtain ⟨hbefore, hlodging⟩ := h
  rw [polls, hbefore]
  cases hin : s.lodging with
  | none => rfl
  | frame f =>
      rw [hin] at hlodging
      exact hlodging.log
  | fanIn i g =>
      rw [hin] at hlodging
      rw [Lodging.log]
      cases hf : g.hosts[i]? with
      | none => rfl
      | some f => exact (hlodging.hosts f (List.mem_of_getElem? hf)).2.2

theorem Asleep.step (h : s.Asleep) {a : Act β α ω} (hst : Turns s a t) (hrests : a.awaits = false) :
    t.Asleep := by
  obtain ⟨hbefore, hlodging⟩ := h
  cases hst with
  | poll k byValue r u u' ready hu hpolled => cases hrests
  | move k u hu => exact ⟨hbefore, hlodging⟩
  | enterFrame k u hnone hu hsome => exact ⟨hbefore, Hosted.asleep_start u⟩
  | enterFanIn k lefts rights u hnone hu hsome => exact ⟨hbefore, Gathering.asleep_start _⟩
  | inFrame a f f' hf hstep =>
      rw [hf] at hlodging
      refine ⟨hbefore, Hosted.Asleep.step hlodging hstep ?_⟩
      rintro rfl
      cases hrests
  | inFanIn a i g g' hg hstep =>
      rw [hg] at hlodging
      refine ⟨hbefore, Gathering.Asleep.step hlodging hstep ?_⟩
      rintro w rfl
      cases hrests
  | leaveFrame f j n u hf hc =>
      rw [hf] at hlodging
      rcases Hosted.Asleep.calls hlodging _ (List.mem_of_getElem? hc) with h | h <;> cases h
  | leaveFanIn i g outs u hg hstage hu =>
      rw [hg] at hlodging
      cases (Gathering.Asleep.resting hlodging).symm.trans hstage

/-- **No body is polled before somebody awaits the task.** -/
theorem Asleep.after (h : s.Asleep) {acts : List (Act β α ω)} (hacts : after? step? s acts = some t)
    (hrest : ∀ a ∈ acts, a.awaits = false) : t.Asleep := by
  induction acts generalizing s with
  | nil =>
      obtain rfl := Option.some.inj hacts
      exact h
  | cons a rest ih =>
      rw [after?] at hacts
      cases hstep : s.step? a with
      | none => simp [hstep] at hacts
      | some u =>
          rw [hstep] at hacts
          exact ih (h.step (turns_of_step? hstep) (hrest a List.mem_cons_self)) hacts
            fun b hb => hrest b (List.mem_cons_of_mem _ hb)

/-- **A task's record is in shape at all times and only goes forward.**  Whatever the task was made with,
whatever its body does, and in every order of awaiting it by value or until it is ready, giving that up,
moving it between slots and into and out of frames and fan-ins:

* one place has its record, and it is created, started or completed with the body and the cell that go
  with that, as the polls of its body tell; anywhere else it has left an empty task;
* wherever it is, it counts as ready exactly if a poll has no body to run, no poll of it is a panic of its
  own, so that its outcome is written once, and who takes its outcome after a poll does not come too early;
* the body is not polled before somebody awaits the task, nor after a poll of it that did not suspend;
* its polls only become more, and its stage never goes back. -/
theorem record_only_goes_forward (o : Origin β α) {acts : List (Act β α ω)}
    (h : after? step? (start o) acts = some s) :
    (∃ t, s.Has t ∧ (∃ r, t.record = some r ∧ r.Shaped s.polls) ∧ ∀ u, s.Has u → u = t ∨ u = .empty) ∧
    (∀ t, s.Has t → (t.isReady = true ↔ t.begin? = none) ∧
      ∀ r, ∃ t', t.polled r = .ok (t'.isReady, t') ∧
        (t'.isReady = true → t'.takeOutcome.1 ≠ .error .readTooEarly)) ∧
    ((∀ a ∈ acts, a.awaits = false) → s.polls = []) ∧
    (∀ p ∈ s.polls.dropLast, p.isSuspended = true) ∧
    ∀ u, Leads step? s u → s.polls <+: u.polls ∧
      ∀ t t' r r', s.Has t → t.record = some r → u.Has t' → t'.record = some r' →
        r.stage.rank ≤ r'.stage.rank := by
  have hs : Traced o s := (Traced.of_leads (.of_after? acts h) (traced_start o)).1
  obtain ⟨t, hhas, hfits, honly⟩ := hs.exists_record
  refine ⟨⟨t, hhas, ?_, honly⟩, ?_, ?_, hfits.suspended_of_mem, ?_⟩
  · cases hr : t.record with
    | none =>
        have hsome := hfits.isEmpty
        simp [Task.isEmpty, hr] at hsome
    | some r => exact ⟨r, rfl, hfits.shaped hr⟩
  · intro u hu
    rcases honly u hu with rfl | rfl
    · refine ⟨hfits.isReady_iff, fun r => ?_⟩
      obtain ⟨t', hpolled, hfits'⟩ := hfits.polled r
      exact ⟨t', hpolled, fun hready => (hfits'.takeOutcome hready).1⟩
    · exact ⟨iff_of_true rfl rfl, fun r => ⟨.empty, rfl, fun _ => nofun⟩⟩
  · intro hrest
    exact (Asleep.after ⟨rfl, trivial⟩ h hrest).polls_eq_nil
  · intro u hu
    obtain ⟨hu, hmore⟩ := hs.of_leads hu
    refine ⟨hmore, fun t₀ t' r r' ht hr ht' hr' => ?_⟩
    obtain ⟨t₁, -, hfits₁, honly₁⟩ := hu.exists_record
    rcases honly t₀ ht with rfl | rfl
    · rcases honly₁ t' ht' with rfl | rfl
      · exact hfits.rank_le hfits₁ hmore hr hr'
      · cases hr'
    · cases hr

/-- A body suspends in a wait that is given up and ends in a frame, from where the task comes into a third
slot.  Whoever awaits it there by value runs no body and takes the value away. -/
theorem record_only_goes_forward_through_a_frame :
    let go (j : Nat) (r : Polled Nat Nat) : Act Nat Nat Nat := .inFrame (.go j false r)
    let rests : Polled Nat Nat := .suspended 0
    let acts : List (Act Nat Nat Nat) := [.poll 0 false (.suspended 1), .move 0, .enterFrame 1,
      .inFrame .resume, go 0 rests, go 0 rests, go 0 rests, go 0 (.ended (.ok 7)), go 0 rests,
      .inFrame .take, go 1 rests, go 1 rests, .leaveFrame 1, .poll 2 true rests]
    let s : Life Nat Nat Nat :=
      { slots := [.empty, .empty, ⟨some ⟨.completed, none, .consumed⟩⟩]
        before := [.suspended 1, .ended (.ok 7)] }
    after? step? (start (.body 0)) acts = some s ∧
      (∃ t, s.Has t ∧ (∃ r, t.record = some r ∧ r.Shaped s.polls) ∧ ∀ u, s.Has u → u = t ∨ u = .empty) ∧
      (∀ p ∈ [(.suspended 1 : Polled Nat Nat)], p.isSuspended = true) ∧
      ∀ u, Leads step? s u → s.polls <+: u.polls := by
  intro go rests acts s
  have h : after? step? (start (.body 0)) acts = some s := rfl
  obtain ⟨hrecord, -, -, hsuspended, hforward⟩ := record_only_goes_forward (.body 0) h
  exact ⟨h, hrecord, hsuspended, fun u hu => (hforward u hu).1⟩

end Life

end TaskDispatch
