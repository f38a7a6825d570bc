/-
No wake of a frame is lost.

A caller that resumes a frame may leave without polling: it saw a word that somebody
else answers for.  `Owed` says when a poll is still owed to such a caller: the word is
`notified` or completed, or the owner has yet to begin the poll it has claimed or
renewed.  A word that goes from `running` back to `idle` is none of these, so by then
every caller that has left has had its poll.
-/
import TaskDispatch.Proofs.Frame.Ownership

namespace TaskDispatch.Frame

variable {β α : Type} {x x' : Shared β α} {c c' : Call β α}

/-- Whether the call has polled the task since it last looked at the word. -/
def Call.hasPolled (c : Call β α) : Bool :=
  match c.place with
  | .inPoll _ | .unwound | .inNotifier => true
  | .resuming .retire | .resuming .renew | .resuming .publish | .resuming .notifying => true
  | _ => false

/-- A caller that leaves without polling is still to be answered by a poll, or the task is complete. -/
def Owed (s : Callers β α) : Prop :=
  s.shared.word = .notified ∨ s.shared.word.isCompleted = true ∨
    s.shared.word = .running ∧ ∃ d ∈ s.calls, d.place = .resuming .polling

/-- What a frame owes to those that have resumed it. -/
structure Answered (s : Callers β α) : Prop where
  /-- Nobody has looked at the word after a poll that is still to begin. -/
  looks : ∀ c ∈ s.calls, c.lookedAt ≤ s.shared.polls
  polled : ∀ c ∈ s.calls, c.hasPolled = true → c.lookedAt < s.shared.polls
  answered : ∀ c ∈ s.calls, c.returned = true → c.lookedAt < s.shared.polls ∨ Owed s

theorem hasPolled_seeing (w : Word) (n : Nat) :
    (⟨.resuming (.seeing w), n⟩ : Call β α).hasPolled = false := by
  cases w <;> rfl

/-- A call leaves without polling if the word it saw is one that nobody has to answer. -/
theorem entry?_of_returned_seeing {w : Word} {n : Nat}
    (h : (⟨.resuming (.seeing w), n⟩ : Call β α).returned = true) : w.entry? = none := by
  cases w with
  | idle | running => cases h
  | notified | completed | taken => rfl

/-! ### What one step does -/

theorem Moves.polls_le (h : Moves x c x' c') : x.polls ≤ x'.polls := by
  cases h with
  | poll n => exact Nat.le_succ _
  | _ => exact Nat.le_refl _

theorem Moves.looks (h : Moves x c x' c') (hlooks : c.lookedAt ≤ x.polls) :
    c'.lookedAt ≤ x'.polls := by
  cases h with
  | load n => exact Nat.le_refl _
  | fail seen n => exact Nat.le_refl _
  | claim n hw => exact Nat.le_refl _
  | mark n hw => exact Nat.le_refl _
  | give seen n hw hnone => exact Nat.le_refl _
  | poll n => exact Nat.le_succ_of_le hlooks
  | _ => exact hlooks

theorem Moves.hasPolled (h : Moves x c x' c') (hlooks : c.lookedAt ≤ x.polls)
    (hpolled : c.hasPolled = true → c.lookedAt < x.polls) (hc' : c'.hasPolled = true) :
    c'.lookedAt < x'.polls := by
  cases h with
  | load n =>
      rw [hasPolled_seeing] at hc'
      cases hc'
  | fail seen n =>
      rw [hasPolled_seeing] at hc'
      cases hc'
  | poll n => exact Nat.lt_succ_of_le hlooks
  | suspend lent t n => exact hpolled rfl
  | finish lent t n => exact hpolled rfl
  | unwind lent n => exact hpolled rfl
  | again n hw => exact hpolled rfl
  | publish n => exact hpolled rfl
  | notify n => exact hpolled rfl
  | _ => cases hc'

/-- A call that has returned takes no step. -/
theorem Moves.not_returned (h : Moves x c x' c') : c.returned = false := by
  cases h <;> rfl

/-- A call returns because it has polled, or because it found or left a word that owes a poll. -/
theorem Moves.returns {s : Callers β α} {calls : List (Call β α)} (h : Moves s.shared c x c')
    (hpolled : c.hasPolled = true → c.lookedAt < s.shared.polls) (hc' : c'.returned = true) :
    c'.lookedAt < x.polls ∨ Owed ⟨x, calls⟩ := by
  have howed : s.shared.word.entry? = none → Owed ⟨s.shared, calls⟩ := by
    intro hnone
    cases hw : s.shared.word with
    | idle | running =>
        rw [hw] at hnone
        cases hnone
    | notified => exact Or.inl hw
    | completed | taken =>
        refine Or.inr (Or.inl ?_)
        show s.shared.word.isCompleted = true
        rw [hw]
        rfl
  cases h with
  | load n => exact Or.inr (howed (entry?_of_returned_seeing hc'))
  | fail seen n => exact Or.inr (howed (entry?_of_returned_seeing hc'))
  | mark n hw => exact Or.inr (Or.inl rfl)
  | give seen n hw hnone =>
      rw [← hw] at hnone
      exact Or.inr (howed hnone)
  | retire n hw => exact Or.inl (hpolled rfl)
  | leave n => exact Or.inl (hpolled rfl)
  | _ => cases hc'

/-! ### A debt is kept until a poll begins -/

namespace Owed

variable {s : Callers β α} {i : Nat}

/-- A step of a call that is not about to poll, and that leaves the word alone, keeps the debt. -/
theorem of_same_word (h : Owed s) (hc : s.calls[i]? = some c) (hplace : c.place ≠ .resuming .polling)
    (hword : x.word = s.shared.word) : Owed ⟨x, s.calls.set i c'⟩ := by
  rw [Owed, hword]
  rcases h with hnotified | hcompleted | ⟨hrunning, d, hd, hdplace⟩
  · exact Or.inl hnotified
  · exact Or.inr (Or.inl hcompleted)
  · refine Or.inr (Or.inr ⟨hrunning, d, mem_set_of_ne hd hc ?_, hdplace⟩)
    intro heq
    rw [heq] at hdplace
    exact hplace hdplace

/-- The owner of a running frame that owes a poll is about to begin it. -/
theorem polling_of_owns (h : Owed s) (own : Owned s) (hc : c ∈ s.calls) (hown : c.owns = true)
    (hrunning : s.shared.word = .running) : c.place = .resuming .polling := by
  rcases h with hnotified | hcompleted | ⟨-, d, hd, hdplace⟩
  · rw [hrunning] at hnotified
    cases hnotified
  · rw [hrunning] at hcompleted
    cases hcompleted
  · have hdown : d.owns = true := by
      rw [Call.owns, hdplace]
    rw [eq_of_countP_le_one (own.owners ▸ Bool.toNat_le _) hc hd hown hdown]
    exact hdplace

/-- **A frame owes a poll until it begins.** -/
theorem go (h : Owed s) (own : Owned s) (hc : s.calls[i]? = some c)
    (hmove : Moves s.shared c x c') : s.shared.polls < x.polls ∨ Owed ⟨x, s.calls.set i c'⟩ := by
  have hmem : c ∈ s.calls := List.mem_of_getElem? hc
  cases hmove with
  | poll n => exact Or.inl (Nat.lt_succ_self _)
  | claim n hw =>
      rcases h with hnotified | hcompleted | ⟨hrunning, -⟩
      · rw [hw] at hnotified
        cases hnotified
      · rw [hw] at hcompleted
        cases hcompleted
      · rw [hw] at hrunning
        cases hrunning
  | mark n hw => exact Or.inr (Or.inl rfl)
  | retire n hw => cases h.polling_of_owns own hmem rfl hw
  | renew n => exact Or.inr (Or.inr (Or.inr ⟨rfl, _, mem_set_self hc, rfl⟩))
  | publish n => exact Or.inr (Or.inr (Or.inl rfl))
  | win n hw => exact Or.inr (Or.inr (Or.inl rfl))
  | _ => exact Or.inr (h.of_same_word hc nofun rfl)

end Owed

/-! ### The invariant -/

namespace Answered

variable {s s' : Callers β α}

theorem begin {place : Place β α} (h : Answered s) (hp : place = .resuming .load ∨ place = .taking) :
    Answered { s with calls := s.calls ++ [⟨place, 0⟩] } := by
  have hnone : (⟨place, 0⟩ : Call β α).hasPolled = false ∧
      (⟨place, 0⟩ : Call β α).returned = false := by
    rcases hp with rfl | rfl
    · exact ⟨rfl, rfl⟩
    · exact ⟨rfl, rfl⟩
  obtain ⟨hpolled, hreturned⟩ := hnone
  refine ⟨?_, ?_, ?_⟩
  · intro d hd
    rcases List.mem_append.mp hd with hold | hnew
    · exact h.looks d hold
    · rw [List.mem_singleton.mp hnew]
      exact Nat.zero_le _
  · intro d hd hdpolled
    rcases List.mem_append.mp hd with hold | hnew
    · exact h.polled d hold hdpolled
    · rw [List.mem_singleton.mp hnew, hpolled] at hdpolled
      cases hdpolled
  · intro d hd hdreturned
    rcases List.mem_append.mp hd with hold | hnew
    · refine (h.answered d hold hdreturned).imp_right ?_
      rintro (hnotified | hcompleted | ⟨hrunning, e, he, heplace⟩)
      · exact Or.inl hnotified
      · exact Or.inr (Or.inl hcompleted)
      · exact Or.inr (Or.inr ⟨hrunning, e, List.mem_append_left _ he, heplace⟩)
    · rw [List.mem_singleton.mp hnew, hreturned] at hdreturned
      cases hdreturned

theorem go {i : Nat} (h : Answered s) (own : Owned s) (hc : s.calls[i]? = some c)
    (hmove : Moves s.shared c x c') : Answered ⟨x, s.calls.set i c'⟩ := by
  have hmem : c ∈ s.calls := List.mem_of_getElem? hc
  have hpolls : s.shared.polls ≤ x.polls := hmove.polls_le
  refine ⟨?_, ?_, ?_⟩
  · intro d hd
    rcases mem_of_mem_set hd with rfl | hold
    · exact hmove.looks (h.looks c hmem)
    · exact Nat.le_trans (h.looks d hold) hpolls
  · intro d hd hdpolled
    rcases mem_of_mem_set hd with rfl | hold
    · exact hmove.hasPolled (h.looks c hmem) (h.polled c hmem) hdpolled
    · exact Nat.lt_of_lt_of_le (h.polled d hold hdpolled) hpolls
  · intro d hd hdreturned
    rcases mem_of_mem_set hd with rfl | hold
    · exact hmove.returns (h.polled c hmem) hdreturned
    · rcases h.answered d hold hdreturned with hlt | howed
      · exact Or.inl (Nat.lt_of_lt_of_le hlt hpolls)
      · exact (howed.go own hc hmove).imp_left (Nat.lt_of_le_of_lt (h.looks d hold))

/-- Every act keeps the frame answering. -/
theorem step (h : Answered s) (own : Owned s) (hturn : Callers.Turns s s') : Answered s' := by
  cases hturn with
  | begin place hp => exact h.begin hp
  | go i c c' x hc hmove => exact h.go own hc hmove

theorem of_leads {t : Task β α} (h : Leads Callers.step? (Callers.start t) s) : Answered s := by
  refine (h.keeps (P := fun u => Owned u ∧ Answered u) ?_ ⟨owned_start t, ?_⟩).2
  · intro u a v ⟨hown, hanswered⟩ hstep
    have hturn := Callers.turns_of_step? hstep
    exact ⟨hown.step hturn, hanswered.step hown hturn⟩
  · exact ⟨nofun, nofun, nofun⟩

/-- An idle frame owes nobody a poll. -/
theorem of_idle (h : Answered s) (hidle : s.shared.word = .idle) (hc : c ∈ s.calls)
    (hreturned : c.returned = true) : c.lookedAt < s.shared.polls := by
  refine (h.answered c hc hreturned).resolve_right ?_
  rw [Owed, hidle]
  rintro (hnotified | hcompleted | ⟨hrunning, -⟩)
  · cases hnotified
  · cases hcompleted
  · cases hrunning

end Answered

/-- A call that has returned stays as it is. -/
theorem mem_of_leads {s s' : Callers β α} (h : Leads Callers.step? s s') (hc : c ∈ s.calls)
    (hreturned : c.returned = true) : c ∈ s'.calls := by
  refine h.keeps (P := fun u => c ∈ u.calls) ?_ hc
  intro u a v hu hstep
  cases Callers.turns_of_step? hstep with
  | begin place hp => exact List.mem_append_left _ hu
  | go i d d' x hd hmove =>
      refine mem_set_of_ne hu hd ?_
      intro heq
      rw [heq, hmove.not_returned] at hreturned
      cases hreturned

/-- **A frame loses no wake.**  In every order of any number of calls that resume the frame or take its
task, whatever its body: while the word is `idle`, a poll has begun since any call of `resume` that has
returned last looked at the word.  So a call that has returned, having looked at the word since the
latest poll began, is answered by one more poll before the word is `idle` again. -/
theorem no_wake_is_lost (t : Task β α) {s : Callers β α}
    (h : Leads Callers.step? (Callers.start t) s) :
    (s.shared.word = .idle → ∀ c ∈ s.calls, c.returned = true → c.lookedAt < s.shared.polls) ∧
    ∀ s', Leads Callers.step? s s' → s'.shared.word = .idle →
      ∀ c ∈ s.calls, c.returned = true → c.lookedAt = s.shared.polls →
        s.shared.polls < s'.shared.polls := by
  refine ⟨fun hidle c hc => (Answered.of_leads h).of_idle hidle hc, ?_⟩
  intro s' hrun hidle c hc hreturned hlooked
  have hanswered : Answered s' := .of_leads (h.trans hrun)
  rw [← hlooked]
  exact hanswered.of_idle hidle (mem_of_leads hrun hc hreturned) hreturned

/-- A call that comes during the first poll of a body that only suspends leaves `notified` behind, and
the frame is idle again after a second poll. -/
theorem no_wake_is_lost_second_poll :
    let marked : Callers Nat Nat :=
      ⟨⟨.notified, .empty, 1, 0⟩, [⟨.inPoll (Task.new 0), 0⟩, ⟨.resuming .done, 1⟩]⟩
    let idle : Callers Nat Nat :=
      ⟨⟨.idle, ⟨some ⟨.started, some 0, .empty⟩⟩, 2, 0⟩,
        [⟨.resuming .done, 0⟩, ⟨.resuming .done, 1⟩]⟩
    Leads Callers.step? (Callers.start (Task.new 0)) marked ∧
      Leads Callers.step? marked idle ∧ marked.shared.polls < idle.shared.polls := by
  intro marked idle
  have hmarked : Leads Callers.step? (Callers.start (Task.new 0)) marked :=
    .of_after? [.resume, .go 0 false (.suspended 0), .go 0 false (.suspended 0),
      .go 0 false (.suspended 0), .resume, .go 1 false (.suspended 0), .go 1 false (.suspended 0)] rfl
  have hidle : Leads Callers.step? marked idle :=
    .of_after? [.go 0 false (.suspended 0), .go 0 false (.suspended 0), .go 0 false (.suspended 0),
      .go 0 false (.suspended 0), .go 0 false (.suspended 0), .go 0 false (.suspended 0)] rfl
  refine ⟨hmarked, hidle, ?_⟩
  exact (no_wake_is_lost _ hmarked).2 idle hidle rfl ⟨.resuming .done, 1⟩
    (List.mem_cons_of_mem _ (List.mem_singleton.mpr rfl)) rfl rfl

end TaskDispatch.Frame
