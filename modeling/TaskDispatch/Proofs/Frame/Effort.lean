/-
How much is left for the calls of a frame to do.

`Callers.effort` is a number that no step of a call raises.  Each step lowers it, except
for an exchange that finds another word than the call has seen: that call then looks at
the word again, and has seen it (`isStale`) until another call moves the word, which
lowers the number.

The loop around the poll is where this could fail, for a call that finds `notified`
polls once more.  The word pays for that: it became `notified` by a call that left, and
nobody but the owner puts it back (`notified_of_renew`).
-/
import TaskDispatch.Proofs.Frame.Hosted

namespace TaskDispatch.Frame

variable {β α : Type} {x x' : Shared β α} {c c' : Call β α}

/-- How far a call is from its end.  What it waits for in a poll or in the notifier is not counted. -/
def Call.effort (c : Call β α) : Nat :=
  match c.place with
  | .resuming .load => 9
  | .resuming (.exchange _) => 8
  | .resuming .polling => 7
  | .inPoll _ => 6
  | .resuming .retire => 5
  | .resuming .renew | .resuming .publish => 4
  | .resuming .notifying => 3
  | .taking => 2
  | .inNotifier | .moving => 1
  | .resuming .done | .resuming .broken | .unwound | .took _ => 0

/-- The owner polls once more if the word tells it to. -/
def Word.effort : Word → Nat
  | notified => 4
  | idle | running | completed | taken => 0

/-- Whether the call is about to exchange a word that is no longer there. -/
def Call.isStale (w : Word) (c : Call β α) : Bool :=
  match c.place with
  | .resuming (.exchange seen) => seen ≠ w
  | _ => false

/-- How much is left for all calls to do. -/
def Callers.effort (s : Callers β α) : Nat := (s.calls.map Call.effort).sum + s.shared.word.effort

/-- How many calls are about to find another word than they have seen. -/
def Callers.stale (s : Callers β α) : Nat := s.calls.countP (Call.isStale s.shared.word)

theorem effort_seeing_le (w : Word) (n : Nat) : (⟨.resuming (.seeing w), n⟩ : Call β α).effort ≤ 8 := by
  cases w <;> simp [Pc.seeing, Word.entry?, Call.effort]

/-- A call that has just looked at the word has seen it. -/
theorem isStale_seeing (w : Word) (n : Nat) : (⟨.resuming (.seeing w), n⟩ : Call β α).isStale w = false := by
  cases w <;> simp [Pc.seeing, Word.entry?, Call.isStale]

/-- A step of a call lowers what is left to do; that of an exchange is a matter of its own. -/
theorem Moves.effort_lt (h : Moves x c x' c') (hexchange : ∀ seen, c.place ≠ .resuming (.exchange seen))
    (hrenew : c.place = .resuming .renew → x.word = .notified) :
    c'.effort + x'.word.effort < c.effort + x.word.effort := by
  cases h with
  | load n =>
      have hle := effort_seeing_le (β := β) (α := α) x.word x.polls
      have hload : (⟨.resuming .load, n⟩ : Call β α).effort = 9 := rfl
      omega
  | fail seen n => exact absurd rfl (hexchange seen)
  | claim n hw => exact absurd rfl (hexchange .idle)
  | mark n hw => exact absurd rfl (hexchange .running)
  | give seen n hw hnone => exact absurd rfl (hexchange seen)
  | renew n =>
      rw [hrenew rfl]
      exact Nat.lt_of_sub_eq_succ rfl
  | retire n hw =>
      rw [hw]
      exact Nat.lt_of_sub_eq_succ rfl
  | win n hw =>
      rw [hw]
      exact Nat.lt_of_sub_eq_succ rfl
  | publish n => exact Nat.lt_of_lt_of_le (Nat.lt_succ_self 3) (Nat.le_add_right 4 _)
  | _ => exact Nat.add_lt_add_right (Nat.lt_of_sub_eq_succ rfl) _

/-- An exchange that finds the word that the call has seen lowers what is left to do. -/
theorem Call.effort_of_exchange {seen : Word} {n : Nat} {r : Polled β α}
    (h : Call.step? ⟨.resuming (.exchange seen), n⟩ false r x = some (x', c')) :
    c'.effort + x'.word.effort < 8 + x.word.effort ∨
      x' = x ∧ c'.effort ≤ 8 ∧ seen ≠ x.word ∧ c'.isStale x.word = false := by
  simp only [Call.step?, Pc.step, Bool.not_false, Bool.and_true, decide_eq_true_eq, Option.some.injEq] at h
  by_cases hw : x.word = seen
  · left
    rw [if_pos hw] at h
    cases hs : seen with
    | idle =>
        subst hs
        cases h
        rw [hw]
        exact Nat.lt_of_sub_eq_succ rfl
    | running =>
        subst hs
        cases h
        rw [hw]
        exact Nat.lt_of_sub_eq_succ rfl
    | notified | completed | taken =>
        subst hs
        cases h
        exact Nat.add_lt_add_right (Nat.lt_of_sub_eq_succ rfl) _
  · rw [if_neg hw] at h
    cases h
    exact Or.inr ⟨rfl, effort_seeing_le _ _, fun hseen => hw hseen.symm, isStale_seeing _ _⟩

/-- **A step of a call lowers what is left to do**, unless the call finds another word than it has seen. -/
theorem Call.effort_of_step? {r : Polled β α} (h : c.step? false r x = some (x', c'))
    (hrenew : c.place = .resuming .renew → x.word = .notified) :
    c'.effort + x'.word.effort < c.effort + x.word.effort ∨
      x' = x ∧ c'.effort ≤ c.effort ∧ c.isStale x.word = true ∧ c'.isStale x.word = false := by
  by_cases hexchange : ∃ seen, c.place = .resuming (.exchange seen)
  · obtain ⟨seen, hplace⟩ := hexchange
    obtain ⟨place, n⟩ := c
    obtain rfl : place = .resuming (.exchange seen) := hplace
    refine (Call.effort_of_exchange h).imp_right fun ⟨hx, hle, hseen, hstale⟩ => ⟨hx, hle, ?_, hstale⟩
    exact decide_eq_true hseen
  · exact Or.inl ((moves_of_step? h).effort_lt (fun seen hplace => hexchange ⟨seen, hplace⟩) hrenew)

/-! ### All calls of a frame -/

/-- While the owner is about to poll once more the word tells it to. -/
theorem notified_of_renew {t : Task β α} {s : Callers β α} (h : Leads Callers.step? (Callers.start t) s) :
    ∀ c ∈ s.calls, c.place = .resuming .renew → s.shared.word = .notified := by
  refine (h.keeps (P := fun u => Owned u ∧ ∀ c ∈ u.calls, c.place = .resuming .renew →
    u.shared.word = .notified) ?_ ⟨owned_start t, nofun⟩).2
  rintro u a v ⟨hown, hrenew⟩ hstep
  have hturn := Callers.turns_of_step? hstep
  refine ⟨hown.step hturn, ?_⟩
  cases hturn with
  | begin place hp =>
      intro d hd hplace
      rcases List.mem_append.mp hd with hold | hnew
      · exact hrenew d hold hplace
      · rw [List.mem_singleton.mp hnew] at hplace
        rcases hp with rfl | rfl <;> cases hplace
  | go i c c' x hc hmove =>
      intro d hd hplace
      obtain ⟨j, hj⟩ := List.getElem?_of_mem hd
      rcases getElem?_of_set hj with ⟨-, rfl⟩ | ⟨hne, hold⟩
      · cases hmove with
        | again n hw => exact hw
        | load n => cases hw : u.shared.word <;> simp [hw, Pc.seeing, Word.entry?] at hplace
        | fail seen n => cases hw : u.shared.word <;> simp [hw, Pc.seeing, Word.entry?] at hplace
        | _ => cases hplace
      · -- The owner is another call than the one that moves.
        have hword := hrenew d (List.mem_of_getElem? hold) hplace
        have hdown : d.owns = true := by rw [Call.owns, hplace]
        have hidle := (hown.alone_of_owns hold hdown hc (Ne.symm hne)).1
        cases hmove with
        | claim n hw => cases hw.symm.trans hword
        | mark n hw => cases hw.symm.trans hword
        | win n hw => cases hw.symm.trans hword
        | retire n hw => cases hidle
        | renew n => cases hidle
        | publish n => cases hidle
        | _ => exact hword

/-- **A step of a call lowers what is left for all calls to do**, or there are fewer that find another word
than they have seen. -/
theorem Callers.effort_of_go {s s' : Callers β α} {j : Nat} {r : Polled β α} (hc : s.calls[j]? = some c)
    (hrenew : ∀ c ∈ s.calls, c.place = .resuming .renew → s.shared.word = .notified)
    (h : s.step? (.go j false r) = some s') :
    s'.effort < s.effort ∨
      c.isStale s.shared.word = true ∧ s'.effort ≤ s.effort ∧ s'.stale < s.stale := by
  simp only [step?, hc] at h
  split at h
  · cases h
  · next x c' hmove =>
      obtain rfl := Option.some.inj h
      have hsum := sum_map_set_add Call.effort c' hc
      simp only [effort, stale]
      rcases Call.effort_of_step? hmove (hrenew c (List.mem_of_getElem? hc)) with
        hlt | ⟨rfl, hle, hstale, hfresh⟩
      · left
        omega
      · have hcount := countP_set_add (Call.isStale s.shared.word) c' hc
        rw [hstale, hfresh, Bool.toNat_true, Bool.toNat_false] at hcount
        exact Or.inr ⟨hstale, by omega⟩

/-- The call of the notifier is worth two. -/
theorem Callers.effort_of_announce {s s' : Callers β α} {j : Nat} {spurious : Bool} {r : Polled β α}
    (hc : s.calls[j]? = some c) (hannounces : c.announces = true)
    (h : s.step? (.go j spurious r) = some s') : s'.effort + 2 = s.effort := by
  obtain ⟨place, n⟩ := c
  obtain rfl : place = .resuming .notifying := Call.place_of_announces hannounces
  simp only [step?, hc, Call.step?, Option.some.injEq] at h
  have hsum := sum_map_set_add Call.effort (⟨.inNotifier, n⟩ : Call β α) hc
  subst h
  simp only [Call.effort] at hsum
  simp only [effort]
  omega

/-- A wake is one more call to be made. -/
theorem Callers.effort_of_resume {s s' : Callers β α} (h : s.step? .resume = some s') :
    s'.effort = s.effort + 9 := by
  obtain rfl := Option.some.inj h
  simp only [effort, List.map_append, List.sum_append, List.map_cons, List.map_nil, List.sum_cons,
    List.sum_nil, Call.effort]
  omega

end TaskDispatch.Frame
