/-
Which party of a countdown is elected.

Every party counts once, and what it finds is all it ever learns of the others.  The
count starts at `n` and each of the `n + 1` parties takes one off, so the party that
counts after `m` others finds `n - m`: zero if and only if `m = n`, also when `n` is
the greatest number that a machine word holds and the last count wraps it back to
there.  `found` lists what the counts of a run have found.

The party that finds zero is elected (`elect?`).  It alone announces that the countdown
is complete, and if it is a completion it alone touches the waker that the awaiter has
left.
-/
import TaskDispatch.Proofs.FanIn.Tally

namespace TaskDispatch

open Countdown (Party)

variable {ω : Type} {n : Nat} {s t : Roll ω}

/-- Whether a party that was elected has announced that the countdown is complete. -/
def Countdown.Party.hasAnnounced : Party ω → Bool
  | collect | wake _ | left | proceeds => true
  | arrive | announce | register _ | enlist | claim | suspended => false

namespace Roll

/-- What an act finds the count to be, if it counts. -/
def finds (s : Roll ω) : Act ω → Option UInt64
  | .step k =>
    match s.parties[k]? with
    | some (some .arrive) => some s.countdown.count
    | _ => none
  | .advance =>
    match s.awaiter with
    | some .enlist => some s.countdown.count
    | _ => none
  | .enter _ | .await _ => none

/-- What the counts of a run have found, the latest last. -/
def found : Roll ω → List (Act ω) → List UInt64
  | _, [] => []
  | s, a :: rest =>
    match s.step? a with
    | none => []
    | some t => (s.finds a).toList ++ found t rest

/-- Where the party is that has counted last. -/
def elect? (s : Roll ω) : Option (Party ω) :=
  match s.counted.getLast? with
  | none => none
  | some none => s.awaiter
  | some (some k) => (s.parties[k]?).join

/-! ### What the counts find -/

/-- An act that counts finds the count as it is, and is written down. -/
theorem length_counted_of_step? {a : Act ω} (h : s.step? a = some t) :
    t.counted.length = s.counted.length + (s.finds a).toList.length ∧
      ∀ v, s.finds a = some v → v = s.countdown.count := by
  cases a with
  | enter k =>
      obtain ⟨-, rfl⟩ := of_enter h
      exact ⟨rfl, nofun⟩
  | await w =>
      rw [of_await h]
      exact ⟨rfl, nofun⟩
  | step k =>
      simp only [step?] at h
      split at h
      · next p hp =>
          cases p with
          | arrive =>
              obtain rfl := Option.some.inj h
              simp [finds, hp, Party.counts]
          | announce | collect | wake w =>
              obtain rfl := Option.some.inj h
              simp [finds, hp, Party.counts]
          | _ => simp [stepParty?] at h
      · cases h
      · cases h
  | advance =>
      simp only [step?] at h
      split at h
      · cases h
      · next p hp =>
          cases p with
          | enlist =>
              obtain rfl := Option.some.inj h
              simp [finds, hp, Party.counts]
          | register w | claim =>
              obtain rfl := Option.some.inj h
              simp [finds, hp, Party.counts]
          | _ => simp [advanceFrom?] at h

/-- **What the counts of a run find**: each finds one less than the one before it. -/
theorem found_eq (hn : n < 2 ^ 64) (hs : Tallied n s) {acts : List (Act ω)}
    (h : after? step? s acts = some t) :
    Tallied n t ∧ t.counted.length = s.counted.length + (s.found acts).length ∧
      ∀ (i : Nat) v, (s.found acts)[i]? = some v →
        v = UInt64.ofNat n - UInt64.ofNat (s.counted.length + i) := by
  induction acts generalizing s with
  | nil =>
      obtain rfl := Option.some.inj h
      exact ⟨hs, rfl, nofun⟩
  | cons a rest ih =>
      rw [after?] at h
      cases hstep : s.step? a with
      | none => simp [hstep] at h
      | some u =>
          rw [hstep] at h
          obtain ⟨ht, hlen, hfound⟩ := ih (hs.step hn (turns_of_step? hstep)) h
          obtain ⟨hcounted, hfinds⟩ := length_counted_of_step? hstep
          simp only [found, hstep, List.length_append]
          refine ⟨ht, by omega, ?_⟩
          intro i v hv
          cases ha : s.finds a with
          | none =>
              rw [ha] at hv hcounted
              rw [hfound i v hv, hcounted]
              rfl
          | some w =>
              rw [ha] at hv hcounted
              cases i with
              | zero =>
                  obtain rfl : w = v := Option.some.inj hv
                  rw [hfinds w ha, hs.count]
                  rfl
              | succ i =>
                  rw [hfound i v hv, hcounted]
                  congr 2
                  show s.counted.length + 1 + i = s.counted.length + (i + 1)
                  omega

/-! ### What the tally says -/

namespace Tallied

/-- **Zero is found by the count that comes last, and by no other.** -/
theorem found_eq_zero_iff (hs : Tallied n s) (hn : n < 2 ^ 64) {acts : List (Act ω)}
    (h : after? step? (Roll.start n) acts = some s) {i : Nat} {v : UInt64}
    (hv : (found (Roll.start n) acts)[i]? = some v) : v = 0 ↔ i = n := by
  obtain ⟨-, hlen, hfound⟩ := found_eq hn (start n) h
  have hi := (List.getElem?_eq_some_iff.mp hv).1
  have hle : s.counted.length ≤ n + 1 := by
    rcases hs.phase with ⟨hle, -⟩ | ⟨heq, -⟩ <;> omega
  have hzero : (Roll.start n : Roll ω).counted.length = 0 := rfl
  rw [hfound i v hv, hzero, Nat.zero_add, sub_count_eq_zero hn (by omega)]

/-- The countdown is complete from the moment on that the party which came last announces it. -/
theorem complete_iff (h : Tallied n s) :
    s.countdown.complete = true ↔
      s.counted.length = n + 1 ∧ ∃ p, s.elect? = some p ∧ p.hasAnnounced = true := by
  rcases h.phase with ⟨hle, hopen⟩ | ⟨hall, hpassing | ⟨k, w, p, hringing⟩⟩
  · rw [hopen.incomplete]
    exact ⟨nofun, fun ⟨hall, _⟩ => by omega⟩
  · simp only [elect?, hpassing.last, hall, true_and]
    rcases hpassing.place with ⟨hplace, hcomplete⟩ | ⟨hplace, hcomplete⟩
    · simp [hplace, hcomplete, Party.hasAnnounced]
    · simp [hplace, hcomplete, Party.hasAnnounced]
  · simp only [elect?, hringing.last, hringing.party, hall, true_and]
    rcases hringing.place with ⟨rfl, hcomplete, -⟩ | ⟨rfl, hcomplete, -⟩ | ⟨rfl, hcomplete, -⟩ |
      ⟨rfl, hcomplete, -⟩
    all_goals simp [hcomplete, Party.hasAnnounced]

/-- Only the completion that came last touches the waker, and the awaiter has left it and suspended. -/
theorem of_collect (h : Tallied n s) {k : Nat} (hk : s.parties[k]? = some (some .collect)) :
    s.counted.getLast? = some (some k) ∧ s.awaiter = some .suspended ∧
      ∃ w, s.asked = some w ∧ s.countdown.waker = some w := by
  rcases h.phase with ⟨-, hopen⟩ | ⟨-, hdecided⟩
  · rcases hopen.party hk with hp | hp <;> cases hp
  · obtain ⟨w, hringing⟩ := hdecided.ringing hk nofun
    exact ⟨hringing.last, hringing.awaiter, w, hringing.asked, by
      rw [h.waker_of_collect hk, hringing.asked]⟩

end Tallied

/-- **A countdown elects exactly one last party.**  For any number `n` of completions that a machine word
holds, and in every order of the steps of the completions and the awaiter:

* each party counts once, and of what the `n + 1` counts find, the last and no other is zero;
* the countdown is ready exactly from the moment on that the party which has found zero announces it;
* an awaiter that goes on at once is never woken; one that suspends has been woken once, with the waker
  it came with and by the completion that came last, when all completions are done, and never more;
* a completion that touches the waker finds the one that the awaiter has left before it suspended. -/
theorem exactly_one_comes_last (hn : n < 2 ^ 64) {acts : List (Act ω)}
    (h : after? step? (start n) acts = some s) :
    (found (start n) acts).length
        = s.parties.countP counted? + (counted? s.awaiter).toNat ∧
      (found (start n) acts).length ≤ n + 1 ∧
      (∀ (i : Nat) v, (found (start n) acts)[i]? = some v → (v = 0 ↔ i = n)) ∧
      (s.countdown.isReady = true ↔
        (found (start n) acts).length = n + 1 ∧ ∃ p, s.elect? = some p ∧ p.hasAnnounced = true) ∧
      (s.countdown.isReady = true → ∀ u, Leads step? s u → u.countdown.isReady = true) ∧
      (s.awaiter = some .proceeds → s.wakes = []) ∧
      (s.awaiter = some .suspended → s.allLeft = true → ∃ k w, s.counted.getLast? = some (some k) ∧
        s.asked = some w ∧ s.wakes = [(k, w)]) ∧
      s.wakes.length ≤ 1 ∧
      ∀ (k : Nat), s.parties[k]? = some (some .collect) → s.awaiter = some .suspended ∧
        ∃ w, s.asked = some w ∧ s.countdown.waker = some w := by
  have hs : Tallied n s := .of_leads hn (.of_after? acts h)
  obtain ⟨-, hlen, -⟩ := found_eq hn (.start n) h
  have hcounted : (found (start n) acts).length = s.counted.length := by
    rw [hlen]
    exact (Nat.zero_add _).symm
  refine ⟨hcounted.trans hs.tally, ?_, fun i v hv => hs.found_eq_zero_iff hn h hv, ?_, ?_, ?_, ?_, ?_, ?_⟩
  · rcases hs.phase with ⟨hle, -⟩ | ⟨hall, -⟩ <;> omega
  · rw [hcounted]
    exact hs.complete_iff
  · intro hready u hu
    exact hu.keeps (P := fun u => u.countdown.complete = true)
      (fun _ _ _ hcomplete hstep => complete_of_turns (turns_of_step? hstep) hcomplete) hready
  · intro hproceeds
    exact (hs.of_proceeds hproceeds).2.1
  · intro hsuspended hleft
    obtain ⟨k, w, hwakes⟩ := hs.woken_of_left hsuspended (allLeft_iff.mp hleft)
    obtain ⟨-, hasked, -, hlast, -⟩ := hs.of_wake (hwakes ▸ List.mem_singleton_self (k, w))
    exact ⟨k, w, hlast, hasked, hwakes⟩
  · cases hwakes : s.wakes with
    | nil => exact Nat.zero_le 1
    | cons first rest =>
        obtain ⟨k, w⟩ := first
        obtain ⟨hone, -⟩ := hs.of_wake (k := k) (w := w) (by rw [hwakes]; exact List.mem_cons_self)
        rw [← hwakes, hone]
        exact Nat.le_refl 1
  · intro k hk
    exact (hs.of_collect hk).2

/-- Of two completions one counts before the awaiter and one after it, which then finds zero, announces it
and wakes the awaiter. -/
theorem exactly_one_comes_last_after_the_awaiter :
    let acts : List (Act Nat) := [.enter 1, .step 1, .await 7, .advance, .enter 0, .advance, .step 0,
      .step 0, .step 0, .step 0]
    let s : Roll Nat := ⟨⟨0 - 1, none, true⟩, [some .left, some .left], some .suspended, some 7,
      [some 1, none, some 0], [(0, 7)]⟩
    2 < 2 ^ 64 ∧ after? step? (start 2) acts = some s ∧ found (start 2) acts = [2, 1, 0] ∧
      (∀ (i : Nat) v, (found (start 2) acts)[i]? = some v → (v = 0 ↔ i = 2)) ∧
      ∃ k w, s.counted.getLast? = some (some k) ∧ s.asked = some w ∧ s.wakes = [(k, w)] := by
  intro acts s
  have h : after? step? (start 2) acts = some s := rfl
  obtain ⟨-, -, hzero, -, -, -, hwoken, -⟩ := exactly_one_comes_last (by decide) h
  exact ⟨by decide, h, rfl, hzero, hwoken rfl rfl⟩

end Roll

end TaskDispatch
