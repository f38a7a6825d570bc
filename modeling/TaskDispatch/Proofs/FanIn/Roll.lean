/-
All who count on the countdown of one fan-in.

Each completion comes once and the awaiter comes once, in any order, and they take
turns step by step.  Three things are kept along: the waker the awaiter came with,
who has counted, in the order of the counts, and who has woken which waker.

`turns_of_step?` says once what an act can do.
-/
import TaskDispatch.Countdown
import TaskDispatch.Proofs.Interleaving

namespace TaskDispatch

namespace Countdown.Party

variable {ω : Type}

/-- Whether a party has counted. -/
def hasCounted : Party ω → Bool
  | arrive | register _ | enlist => false
  | announce | collect | wake _ | left | claim | suspended | proceeds => true

/-- Whether the next step of a party is to count. -/
def counts : Party ω → Bool
  | arrive | enlist => true
  | _ => false

variable {c : Countdown ω}

theorem step_arrive_last (h : c.count = 0) :
    (arrive : Party ω).step c = ({ c with count := c.count - 1 }, announce) := by
  simp [step, countDown, h]

theorem step_arrive_pass (h : c.count ≠ 0) :
    (arrive : Party ω).step c = ({ c with count := c.count - 1 }, left) := by
  simp [step, countDown, h]

theorem step_enlist_last (h : c.count = 0) :
    (enlist : Party ω).step c = ({ c with count := c.count - 1 }, claim) := by
  simp [step, countDown, h]

theorem step_enlist_pass (h : c.count ≠ 0) :
    (enlist : Party ω).step c = ({ c with count := c.count - 1 }, suspended) := by
  simp [step, countDown, h]

end Countdown.Party

open Countdown (Party)

/-- A countdown, the party of each completion and that of the awaiter, once they have come. -/
structure Roll (ω : Type) where
  countdown : Countdown ω
  parties : List (Option (Party ω))
  awaiter : Option (Party ω) := none
  /-- The waker the awaiter came with. -/
  asked : Option ω := none
  /-- Who has counted, the latest last; `none` is the awaiter. -/
  counted : List (Option Nat) := []
  /-- Which completion has woken which waker. -/
  wakes : List (Nat × ω) := []

namespace Roll

variable {ω : Type}

/-- The roll of a fan-in with `n` inputs. -/
def start (n : Nat) : Roll ω := { countdown := .new n, parties := List.replicate n none }

/-- Who moves. -/
inductive Act (ω : Type) where
  /-- A completion comes. -/
  | enter (k : Nat)
  /-- A completion takes its next step. -/
  | step (k : Nat)
  /-- The awaiter comes with its waker. -/
  | await (w : ω)
  /-- The awaiter takes its next step. -/
  | advance

/-- The next step of the completion with number `k`, which is at `p`. -/
def stepParty? (s : Roll ω) (k : Nat) (p : Party ω) : Option (Roll ω) :=
  match p with
  | .wake w =>
    some { s with parties := s.parties.set k (some .left), wakes := s.wakes ++ [(k, w)] }
  | .arrive | .announce | .collect =>
    let (countdown, next) := p.step s.countdown
    some { s with
      countdown
      parties := s.parties.set k (some next)
      counted := if p.counts then s.counted ++ [some k] else s.counted }
  | .left | .register _ | .enlist | .claim | .suspended | .proceeds => none

/-- The next step of the awaiter, which is at `p`. -/
def advanceFrom? (s : Roll ω) (p : Party ω) : Option (Roll ω) :=
  match p with
  | .register _ | .enlist | .claim =>
    let (countdown, next) := p.step s.countdown
    some { s with
      countdown
      awaiter := some next
      counted := if p.counts then s.counted ++ [none] else s.counted }
  | .arrive | .announce | .collect | .wake _ | .left | .suspended | .proceeds => none

/-- The roll after an act, if it can happen. -/
def step? (s : Roll ω) : Act ω → Option (Roll ω)
  | .enter k =>
    match s.parties[k]? with
    | some none => some { s with parties := s.parties.set k (some .arrive) }
    | some (some _) | none => none
  | .step k =>
    match s.parties[k]? with
    | some (some p) => s.stepParty? k p
    | some none | none => none
  | .await w =>
    match s.awaiter with
    | none => some { s with awaiter := some (.register w), asked := some w }
    | some _ => none
  | .advance =>
    match s.awaiter with
    | none => none
    | some p => s.advanceFrom? p

/-- Somebody has counted. -/
def tick (s : Roll ω) (who : Option Nat) : Roll ω :=
  { s with
    countdown := { s.countdown with count := s.countdown.count - 1 }
    counted := s.counted ++ [who] }

/-- Whether every completion is done. -/
def allLeft (s : Roll ω) : Bool :=
  s.parties.all fun
    | some .left => true
    | _ => false

/-- What an act can do. -/
inductive Turns (s : Roll ω) : Roll ω → Prop
  -- a completion
  | enter (k : Nat) (h : s.parties[k]? = some none) :
    Turns s { s with parties := s.parties.set k (some .arrive) }
  | pass (k : Nat) (h : s.parties[k]? = some (some .arrive)) (hmore : s.countdown.count ≠ 0) :
    Turns s { s.tick (some k) with parties := s.parties.set k (some .left) }
  | last (k : Nat) (h : s.parties[k]? = some (some .arrive)) (hlast : s.countdown.count = 0) :
    Turns s { s.tick (some k) with parties := s.parties.set k (some .announce) }
  | announce (k : Nat) (h : s.parties[k]? = some (some .announce)) :
    Turns s { s with
      countdown := { s.countdown with complete := true }
      parties := s.parties.set k (some .collect) }
  | collect (k : Nat) (w : ω) (h : s.parties[k]? = some (some .collect))
    (hw : s.countdown.waker = some w) :
    Turns s { s with
      countdown := { s.countdown with waker := none }
      parties := s.parties.set k (some (.wake w)) }
  | leave (k : Nat) (h : s.parties[k]? = some (some .collect)) (hw : s.countdown.waker = none) :
    Turns s { s with parties := s.parties.set k (some .left) }
  | wake (k : Nat) (w : ω) (h : s.parties[k]? = some (some (.wake w))) :
    Turns s { s with parties := s.parties.set k (some .left), wakes := s.wakes ++ [(k, w)] }
  -- the awaiter
  | await (w : ω) (h : s.awaiter = none) :
    Turns s { s with awaiter := some (.register w), asked := some w }
  | register (w : ω) (h : s.awaiter = some (.register w)) :
    Turns s { s with
      countdown := { s.countdown with waker := some w }
      awaiter := some .enlist }
  | suspend (h : s.awaiter = some .enlist) (hmore : s.countdown.count ≠ 0) :
    Turns s { s.tick none with awaiter := some .suspended }
  | win (h : s.awaiter = some .enlist) (hlast : s.countdown.count = 0) :
    Turns s { s.tick none with awaiter := some .claim }
  | claim (h : s.awaiter = some .claim) :
    Turns s { s with
      countdown := { s.countdown with complete := true }
      awaiter := some .proceeds }

variable {n : Nat} {s t : Roll ω}

theorem turns_of_stepParty? {k : Nat} {p : Party ω}
    (hp : s.parties[k]? = some (some p)) (h : s.stepParty? k p = some t) : Turns s t := by
  cases p with
  | arrive =>
      by_cases hlast : s.countdown.count = 0
      · simp only [stepParty?, Party.step_arrive_last hlast] at h
        obtain rfl := Option.some.inj h
        exact .last k hp hlast
      · simp only [stepParty?, Party.step_arrive_pass hlast] at h
        obtain rfl := Option.some.inj h
        exact .pass k hp hlast
  | announce =>
      obtain rfl := Option.some.inj h
      exact .announce k hp
  | collect =>
      simp only [stepParty?, Party.step] at h
      cases hw : s.countdown.waker with
      | none =>
          rw [hw] at h
          obtain rfl := Option.some.inj h
          exact .leave k hp hw
      | some w =>
          rw [hw] at h
          obtain rfl := Option.some.inj h
          exact .collect k w hp hw
  | wake w =>
      obtain rfl := Option.some.inj h
      exact .wake k w hp
  | _ => simp [stepParty?] at h

theorem turns_of_advanceFrom? {p : Party ω} (hp : s.awaiter = some p)
    (h : s.advanceFrom? p = some t) : Turns s t := by
  cases p with
  | register w =>
      obtain rfl := Option.some.inj h
      exact .register w hp
  | enlist =>
      by_cases hlast : s.countdown.count = 0
      · simp only [advanceFrom?, Party.step_enlist_last hlast] at h
        obtain rfl := Option.some.inj h
        exact .win hp hlast
      · simp only [advanceFrom?, Party.step_enlist_pass hlast] at h
        obtain rfl := Option.some.inj h
        exact .suspend hp hlast
  | claim =>
      obtain rfl := Option.some.inj h
      exact .claim hp
  | _ => simp [advanceFrom?] at h

/-- **What an act can do.** -/
theorem turns_of_step? {a : Act ω} (h : s.step? a = some t) : Turns s t := by
  cases a with
  | enter k =>
      simp only [step?] at h
      split at h
      · next hk =>
          obtain rfl := Option.some.inj h
          exact .enter k hk
      · simp at h
      · simp at h
  | step k =>
      simp only [step?] at h
      split at h
      · next p hk => exact turns_of_stepParty? hk h
      · simp at h
      · simp at h
  | await w =>
      simp only [step?] at h
      split at h
      · next hnone =>
          obtain rfl := Option.some.inj h
          exact .await w hnone
      · simp at h
  | advance =>
      simp only [step?] at h
      split at h
      · simp at h
      · next p hp => exact turns_of_advanceFrom? hp h

/-! ### What stays -/

theorem allLeft_iff : s.allLeft = true ↔ ∀ p ∈ s.parties, p = some .left := by
  rw [allLeft, List.all_eq_true]
  refine forall₂_congr fun p hp => ?_
  cases p with
  | none => simp
  | some q => cases q <;> simp

/-- A completion that is done stays done. -/
theorem left_of_turns (h : Turns s t) {k : Nat} (hk : s.parties[k]? = some (some .left)) :
    t.parties[k]? = some (some .left) := by
  cases h with
  | enter j hj => exact getElem?_set_of_ne hk hj nofun
  | pass j hj hmore => exact getElem?_set_of_ne hk hj nofun
  | last j hj hlast => exact getElem?_set_of_ne hk hj nofun
  | announce j hj => exact getElem?_set_of_ne hk hj nofun
  | collect j w hj hw => exact getElem?_set_of_ne hk hj nofun
  | leave j hj hw => exact getElem?_set_of_ne hk hj nofun
  | wake j w hj => exact getElem?_set_of_ne hk hj nofun
  | _ => exact hk

theorem length_of_turns (h : Turns s t) : t.parties.length = s.parties.length := by
  cases h with
  | enter | pass | last | announce | collect | leave | wake => exact List.length_set ..
  | _ => rfl

/-- Once all completions are done they stay done. -/
theorem allLeft_of_turns (h : Turns s t) (hleft : s.allLeft = true) : t.allLeft = true := by
  rw [allLeft_iff] at hleft ⊢
  intro p hp
  obtain ⟨k, hk⟩ := List.getElem?_of_mem hp
  have hlt : k < s.parties.length := by
    rw [← length_of_turns h]
    exact (List.getElem?_eq_some_iff.mp hk).1
  have hold := left_of_turns h (k := k) (by rw [List.getElem?_eq_getElem hlt, hleft _ (List.getElem_mem hlt)])
  exact Option.some.inj (hk.symm.trans hold)

/-- A complete countdown stays complete. -/
theorem complete_of_turns (h : Turns s t) (hcomplete : s.countdown.complete = true) :
    t.countdown.complete = true := by
  cases h with
  | announce | claim => rfl
  | _ => exact hcomplete

/-- What a completion does leaves the awaiter alone, and everybody who has come stays. -/
theorem of_step {k : Nat} (h : s.step? (.step k) = some t) :
    t.awaiter = s.awaiter ∧ t.asked = s.asked ∧
      ∀ (j : Nat) p, s.parties[j]? = some p → ∃ q, t.parties[j]? = some q ∧ q.isSome = p.isSome := by
  simp only [step?] at h
  split at h
  · next p hp =>
      have hset : ∀ (q : Party ω) (j : Nat) o, s.parties[j]? = some o →
          ∃ o', (s.parties.set k (some q))[j]? = some o' ∧ o'.isSome = o.isSome := by
        intro q j o ho
        exact exists_getElem?_set (P := fun o o' : Option (Party ω) => o'.isSome = o.isSome) hp ho rfl rfl
      cases p with
      | arrive | announce | collect | wake w =>
          obtain rfl := Option.some.inj h
          exact ⟨rfl, rfl, hset _⟩
      | _ => simp [stepParty?] at h
  · cases h
  · cases h

theorem of_enter {k : Nat} (h : s.step? (.enter k) = some t) :
    s.parties[k]? = some none ∧ t = { s with parties := s.parties.set k (some .arrive) } := by
  simp only [step?] at h
  split at h
  · next hk => exact ⟨hk, (Option.some.inj h).symm⟩
  · cases h
  · cases h

/-- What the awaiter does leaves the completions alone. -/
theorem of_advance (h : s.step? .advance = some t) :
    t.parties = s.parties ∧ t.asked = s.asked ∧ t.awaiter.isSome = true := by
  simp only [step?] at h
  split at h
  · cases h
  · next p hp =>
      cases p with
      | register w | enlist | claim =>
          obtain rfl := Option.some.inj h
          exact ⟨rfl, rfl, rfl⟩
      | _ => simp [advanceFrom?] at h

theorem of_await {w : ω} (h : s.step? (.await w) = some t) :
    t = { s with awaiter := some (.register w), asked := some w } := by
  simp only [step?] at h
  split at h
  · exact (Option.some.inj h).symm
  · cases h

end Roll

end TaskDispatch
