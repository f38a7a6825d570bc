/-
Whom a latch lets go.

Any number of waiters come to one latch, and sets and resets are made, in every order of the
steps that each of them makes under the lock.  A set notifies every parked waiter, so while the
flag is up nobody is parked, and no set falls between a look at the flag and the parking.

But a notified waiter has not gone yet.  It takes the lock back and looks again, and what it finds
is the work of the last set or reset before its look.  A reset that comes first takes the set
back: the waiter parks again, in the same call.
-/
import TaskDispatch.Latch
import TaskDispatch.Proofs.Interleaving

namespace TaskDispatch.Latch

/-- A latch and those who wait for it, in the order in which they came. -/
structure Hall where
  latch : Latch := {}
  waiters : List Waiter := []

namespace Hall

/-- Who moves. -/
inductive Act where
  /-- Somebody calls wait. -/
  | join
  /-- The latch is set. -/
  | set
  /-- The latch is reset. -/
  | reset
  /-- A waiter that is not parked takes the lock and looks. -/
  | look (i : Nat)
  deriving DecidableEq

/-- The hall after an act, if it can happen. -/
def step? (s : Hall) : Act → Option Hall
  | .join => some { s with waiters := s.waiters ++ [.looking] }
  | .set => some ⟨(s.latch.setWith s.waiters).1, (s.latch.setWith s.waiters).2⟩
  | .reset => some { s with latch := s.latch.reset }
  | .look i =>
    match s.waiters[i]? with
    | some .looking => some { s with waiters := s.waiters.set i (Waiter.looking.look s.latch) }
    | some .parked | some .returned | none => none

/-- What an act makes of the flag. -/
def Act.flag : Act → Bool → Bool
  | set, _ => true
  | reset, _ => false
  | join, b | look _, b => b

/-- What acts, one after another, make of the flag: the last set or reset decides. -/
def flagAfter (acts : List Act) (b : Bool) : Bool := acts.foldl (fun b a => a.flag b) b

variable {s t u : Hall} {i : Nat} {acts : List Act}

/-! ### One act -/

theorem isSet_of_step? {a : Act} (h : s.step? a = some t) : t.latch.isSet = a.flag s.latch.isSet := by
  cases a with
  | join | set | reset =>
      cases h
      rfl
  | look i =>
      simp only [step?] at h
      split at h <;> cases h
      rfl

/-- Until it looks, a waiter is moved by sets alone. -/
theorem getElem?_of_step? {a : Act} {w : Waiter} (h : s.step? a = some t) (hi : s.waiters[i]? = some w)
    (ha : a ≠ .look i) : t.waiters[i]? = some (if a = .set then w.notify else w) := by
  cases a with
  | join =>
      cases h
      rw [List.getElem?_append_left (List.getElem?_eq_some_iff.mp hi).1]
      exact hi
  | set =>
      cases h
      simp only [setWith, List.getElem?_map, hi]
      rfl
  | reset =>
      cases h
      exact hi
  | look j =>
      simp only [step?] at h
      split at h <;> cases h
      have hne : j ≠ i := fun heq => ha (congrArg Act.look heq)
      rw [List.getElem?_set_ne hne]
      exact hi

/-- A waiter that is about to look stays so until it looks. -/
theorem looking_of_step? {a : Act} (h : s.step? a = some t) (hi : s.waiters[i]? = some .looking)
    (ha : a ≠ .look i) : t.waiters[i]? = some .looking := by
  have hplace := getElem?_of_step? h hi ha
  simpa [Waiter.notify] using hplace

/-- A waiter that has returned takes no more steps. -/
theorem returned_of_step? {a : Act} (h : s.step? a = some t) (hi : s.waiters[i]? = some .returned) :
    t.waiters[i]? = some .returned := by
  have ha : a ≠ .look i := by
    rintro rfl
    simp [step?, hi] at h
  have hplace := getElem?_of_step? h hi ha
  simpa [Waiter.notify] using hplace

/-- A waiter that is about to look can do so, and finds the flag as it is then. -/
theorem step?_look (hi : s.waiters[i]? = some .looking) :
    s.step? (.look i) = some { s with
      waiters := s.waiters.set i (if s.latch.isSet then .returned else .parked) } := by
  rw [step?, hi]
  rfl

theorem getElem?_look (hi : s.waiters[i]? = some .looking) (h : s.step? (.look i) = some t) :
    t.waiters[i]? = some (if s.latch.isSet then .returned else .parked) := by
  rw [step?_look hi] at h
  cases h
  exact List.getElem?_set_self (List.getElem?_eq_some_iff.mp hi).1

/-! ### Runs -/

/-- **While the flag is up nobody is parked.** -/
theorem not_parked_of_isSet {b : Bool} (h : Leads step? { latch := ⟨b⟩ } s) (hup : s.latch.isSet = true) :
    .parked ∉ s.waiters := by
  refine h.keeps (P := fun s => s.latch.isSet = true → .parked ∉ s.waiters) ?_ (fun _ => List.not_mem_nil) hup
  intro u a v hu hstep hup
  cases a with
  | join =>
      cases hstep
      simpa using hu hup
  | set =>
      cases hstep
      rw [setWith, List.mem_map]
      rintro ⟨w, -, hw⟩
      cases w <;> cases hw
  | reset =>
      cases hstep
      cases hup
  | look i =>
      simp only [step?] at hstep
      split at hstep <;> cases hstep
      intro hmem
      rcases mem_of_mem_set hmem with hnew | hold
      · simp only [Waiter.look, if_pos hup] at hnew
        cases hnew
      · exact hu hup hold

theorem isSet_of_after? (h : after? step? s acts = some t) : t.latch.isSet = flagAfter acts s.latch.isSet := by
  induction acts generalizing s with
  | nil =>
      cases h
      rfl
  | cons a rest ih =>
      rw [after?] at h
      split at h
      · cases h
      · next v hv => rw [ih h, isSet_of_step? hv, flagAfter, flagAfter, List.foldl_cons]

/-- A waiter that does not look is still to look. -/
theorem looking_of_after? (h : after? step? s acts = some t) (hi : s.waiters[i]? = some .looking)
    (hacts : .look i ∉ acts) : t.waiters[i]? = some .looking := by
  induction acts generalizing s with
  | nil =>
      cases h
      exact hi
  | cons a rest ih =>
      rw [after?] at h
      split at h
      · cases h
      · next v hv =>
          obtain ⟨ha, hrest⟩ := not_or.mp (mt List.mem_cons.mpr hacts)
          exact ih h (looking_of_step? hv hi (Ne.symm ha)) hrest

theorem returned_of_after? (h : after? step? s acts = some t) (hi : s.waiters[i]? = some .returned) :
    t.waiters[i]? = some .returned :=
  (Leads.of_after? acts h).keeps (P := fun u => u.waiters[i]? = some .returned)
    (fun _ _ _ hu hstep => returned_of_step? hstep hu) hi

/-- While no reset comes, a waiter that looks returns. -/
theorem getElem?_of_not_reset (h : after? step? s acts = some t) (hup : s.latch.isSet = true)
    (hi : s.waiters[i]? = some .looking) (hacts : .reset ∉ acts) :
    t.waiters[i]? = some (if .look i ∈ acts then .returned else .looking) := by
  induction acts generalizing s with
  | nil =>
      cases h
      exact hi
  | cons a rest ih =>
      rw [after?] at h
      split at h
      · cases h
      · next v hv =>
          obtain ⟨ha, hrest⟩ := not_or.mp (mt List.mem_cons.mpr hacts)
          by_cases hlook : a = .look i
          · subst hlook
            have hgone := getElem?_look hi hv
            rw [if_pos hup] at hgone
            rw [if_pos List.mem_cons_self]
            exact returned_of_after? h hgone
          · have hstays : v.latch.isSet = true := by
              rw [isSet_of_step? hv]
              cases a with
              | join | look j => exact hup
              | set => rfl
              | reset => exact absurd rfl ha
            rw [ih h hstays (looking_of_step? hv hi hlook) hrest]
            simp [List.mem_cons, Ne.symm hlook]

/-- **A set lets every waiter go that looks before the next reset, and no other.**  Of a waiter that was
parked when the latch was set:

* until it looks it is about to look, whatever else happens; then it returns if the last set or reset since
  was a set, or there was none, and parks again if it was a reset;
* if no reset comes it does not park again, and has returned once it has looked.

And whenever the flag is up, nobody at all is parked. -/
theorem set_lets_go_until_the_next_reset {b : Bool} (h : Leads step? { latch := ⟨b⟩ } s)
    (hi : s.waiters[i]? = some .parked) (hset : s.step? .set = some t) (hacts : after? step? t acts = some u) :
    (.look i ∉ acts → u.waiters[i]? = some .looking ∧
        ∃ v, u.step? (.look i) = some v ∧
          v.waiters[i]? = some (if flagAfter acts true then .returned else .parked)) ∧
      (.reset ∉ acts → u.waiters[i]? = some (if .look i ∈ acts then .returned else .looking)) ∧
      (u.latch.isSet = true → .parked ∉ u.waiters) := by
  have hnotified : t.waiters[i]? = some .looking := getElem?_of_step? hset hi nofun
  have hup : t.latch.isSet = true := isSet_of_step? hset
  refine ⟨fun hlook => ?_, getElem?_of_not_reset hacts hup hnotified, ?_⟩
  · have hlooking := looking_of_after? hacts hnotified hlook
    have hflag := isSet_of_after? hacts
    rw [hup] at hflag
    refine ⟨hlooking, _, step?_look hlooking, ?_⟩
    rw [← hflag]
    exact getElem?_look hlooking (step?_look hlooking)
  · exact not_parked_of_isSet ((h.trans (.of_after? [.set] (by rw [after?, hset]; rfl))).trans (.of_after? acts hacts))

/-- Two waiters are parked when the latch is set.  One looks before a reset and is gone, and the other looks
after it and parks again. -/
theorem set_lets_go_until_the_next_reset_but_one :
    let s : Hall := ⟨⟨false⟩, [.parked, .parked]⟩
    let t : Hall := ⟨⟨true⟩, [.looking, .looking]⟩
    let u : Hall := ⟨⟨false⟩, [.returned, .looking]⟩
    Leads step? { latch := ⟨false⟩ } s ∧ s.waiters[1]? = some .parked ∧ s.step? .set = some t ∧
      after? step? t [.look 0, .reset] = some u ∧ u.waiters[1]? = some .looking ∧
      ∃ v, u.step? (.look 1) = some v ∧ v.waiters[1]? = some .parked := by
  intro s t u
  have h : Leads step? { latch := ⟨false⟩ } s := .of_after? [.join, .join, .look 0, .look 1] rfl
  have hi : s.waiters[1]? = some .parked := rfl
  have hset : s.step? .set = some t := rfl
  have hacts : after? step? t [.look 0, .reset] = some u := rfl
  obtain ⟨hlook, -, -⟩ := set_lets_go_until_the_next_reset h hi hset hacts
  exact ⟨h, hi, hset, hacts, hlook (by decide)⟩

/-- **A waiter that a set has notified can park again.**  It looks only after a reset. -/
theorem notified_waiter_parks_again :
    ¬ ∀ (s t u : Hall) (i : Nat), Leads step? {} s → s.waiters[i]? = some .parked → s.step? .set = some t →
      Leads step? t u → u.waiters[i]? ≠ some .parked := by
  intro h
  exact h ⟨⟨false⟩, [.parked]⟩ ⟨⟨true⟩, [.looking]⟩ ⟨⟨false⟩, [.parked]⟩ 0
    (.of_after? [.join, .look 0] rfl) rfl rfl (.of_after? [.reset, .look 0] rfl) rfl

end Hall

end TaskDispatch.Latch
