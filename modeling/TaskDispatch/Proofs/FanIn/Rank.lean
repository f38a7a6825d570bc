/-
How far a fan-in is from its end.

Whatever happens on the countdown happens once: each completion and the awaiter go
through their places and never back.  So does the fan-in through its stages, but for one
thing, a poll that finds the countdown incomplete and leaves the fan-in as it was.
`Gathering.rank` counts what is still to come.  Calls of the inputs' frames do not count
in it, and so nobody raises it.
-/
import TaskDispatch.Proofs.FanIn.Polls

namespace TaskDispatch

/-! ### The countdown -/

namespace Roll

open Countdown (Party)

variable {ω : Type} {s t : Roll ω}

/-- How far a completion is from its end. -/
def partyRank : Option (Party ω) → Nat
  | none => 5
  | some .arrive => 4
  | some .announce => 3
  | some .collect => 2
  | some (.wake _) => 1
  | some .left | some (.register _) | some .enlist | some .claim | some .suspended | some .proceeds => 0

/-- How far the awaiter is from where it suspends or goes on. -/
def awaiterRank : Option (Party ω) → Nat
  | none => 4
  | some (.register _) => 3
  | some .enlist => 2
  | some .claim => 1
  | some .suspended | some .proceeds | some .arrive | some .announce | some .collect | some (.wake _)
  | some .left => 0

/-- What is still to come on the countdown. -/
def rank (s : Roll ω) : Nat := (s.parties.map partyRank).sum + awaiterRank s.awaiter

theorem rank_start (n : Nat) : (start n : Roll ω).rank = 5 * n + 4 := by
  simp [start, rank, partyRank, awaiterRank, Nat.mul_comm]

/-- **Every act on the countdown happens once.** -/
theorem rank_lt (h : Turns s t) : t.rank < s.rank := by
  have hparty : ∀ {k : Nat} {p : Option (Party ω)} (q : Option (Party ω)) {u : Roll ω},
      s.parties[k]? = some p → u.parties = s.parties.set k q → u.awaiter = s.awaiter →
      partyRank q < partyRank p → u.rank < s.rank := by
    intro k p q u hk hparties hawaiter hlt
    have := sum_map_set_add partyRank q hk
    rw [rank, rank, hparties, hawaiter]
    omega
  cases h with
  | enter k h => exact hparty (some .arrive) h rfl rfl (Nat.lt_succ_self 4)
  | pass k h hmore => exact hparty (some .left) h rfl rfl (Nat.succ_pos 3)
  | last k h hlast => exact hparty (some .announce) h rfl rfl (Nat.lt_succ_self 3)
  | announce k h => exact hparty (some .collect) h rfl rfl (Nat.lt_succ_self 2)
  | collect k w h hw => exact hparty (some (.wake w)) h rfl rfl (Nat.lt_succ_self 1)
  | leave k h hw => exact hparty (some .left) h rfl rfl (Nat.succ_pos 1)
  | wake k w h => exact hparty (some .left) h rfl rfl (Nat.succ_pos 0)
  | await w h =>
      rw [rank, rank, h]
      exact Nat.add_lt_add_left (Nat.lt_succ_self 3) _
  | register w h =>
      rw [rank, rank, h]
      exact Nat.add_lt_add_left (Nat.lt_succ_self 2) _
  | suspend h hmore =>
      rw [rank, rank, h]
      exact Nat.add_lt_add_left (Nat.succ_pos 1) _
  | win h hlast =>
      rw [rank, rank, h]
      exact Nat.add_lt_add_left (Nat.lt_succ_self 1) _
  | claim h =>
      rw [rank, rank, h]
      exact Nat.add_lt_add_left (Nat.succ_pos 0) _

end Roll

/-! ### The fan-in -/

namespace Gathering

open TaskDispatch.Frame (Callers Hosted)

variable {β α ω : Type} {s t : Gathering β α ω}

/-- How many stages of its polls a fan-in over `n` inputs has still to come through. -/
def stageRank (n : Nat) (started : Bool) : Stage β α ω → Nat
  | .resting | .looking _ => if started then 2 * n + 2 else 4 * n + 5
  | .starting _ k => 2 * n + 4 + 2 * (n - k)
  | .running _ k => 2 * n + 3 + 2 * (n - k)
  | .counting => 2 * n + 3
  | .collecting outs => 2 * (n - outs.length) + 1
  | .taking outs _ => 2 * (n - outs.length)
  | .finished _ | .broken => 0

/-- What is still to come of a fan-in. -/
def rank (s : Gathering β α ω) : Nat := s.roll.rank + stageRank s.hosts.length s.started s.stage

theorem rank_start (inputs : List (Task β α)) :
    (start inputs : Gathering β α ω).rank = 9 * inputs.length + 9 := by
  simp only [start, rank, Roll.rank_start, List.length_map, stageRank, Bool.false_eq_true, if_false]
  omega

/-- Whether a poll is about to look how things stand. -/
def isLooking (s : Gathering β α ω) : Bool :=
  match s.stage with
  | .looking _ => true
  | _ => false

theorem rank_moveTo_lt {stage : Stage β α ω}
    (h : stageRank s.hosts.length s.started stage < stageRank s.hosts.length s.started s.stage) :
    (s.moveTo stage).rank < s.rank :=
  Nat.add_lt_add_left h _

/-- A poll that goes on by what it sees comes nearer to its end; one that finds nothing rests. -/
theorem rank_of_looking {w : ω} (hstage : s.stage = .looking w) (h : s.advance? = some t) :
    t.rank < s.rank ∨ t.rank = s.rank ∧ t.stage = .resting ∧ t.hosts = s.hosts := by
  simp only [advance?, hstage] at h
  split at h
  · obtain rfl := Option.some.inj h
    left
    simp only [rank, hstage, stageRank]
    split <;> omega
  · next hglance =>
      obtain rfl := Option.some.inj h
      have hfirst : s.started = false := by
        cases hs : s.started with
        | false => rfl
        | true =>
            simp only [Countdown.glance, hs, if_true] at hglance
            split at hglance <;> cases hglance
      left
      simp only [rank, hstage, stageRank, hfirst, Bool.false_eq_true, if_false]
      omega
  · obtain rfl := Option.some.inj h
    left
    refine rank_moveTo_lt ?_
    simp only [hstage, stageRank, List.length_nil]
    split <;> omega
  · obtain rfl := Option.some.inj h
    refine Or.inr ⟨?_, rfl, rfl⟩
    simp only [rank, moveTo, hstage, stageRank]
    rfl

theorem rank_of_starting {w : ω} {k : Nat} (hstage : s.stage = .starting w k)
    (h : s.advance? = some t) : t.rank < s.rank := by
  simp only [advance?, hstage] at h
  split at h
  · next hlt =>
      obtain ⟨u, hu, rfl⟩ := Option.map_eq_some_iff.mp h
      obtain ⟨f, f', hf, hstep, rfl⟩ := of_onHost? hu
      simp only [rank, moveTo, hstage, stageRank, List.length_set]
      omega
  · obtain ⟨u, hu, rfl⟩ := Option.map_eq_some_iff.mp h
    obtain ⟨roll, hroll, rfl⟩ := of_onRoll? hu
    have := Roll.rank_lt (Roll.turns_of_step? hroll)
    simp only [rank, moveTo, hstage, stageRank]
    omega

theorem rank_of_running {w : ω} {k : Nat} (hstage : s.stage = .running w k)
    (h : s.advance? = some t) : t.rank < s.rank := by
  simp only [advance?, hstage] at h
  split at h
  · cases h
  · next f hf =>
      have hlt := (List.getElem?_eq_some_iff.mp hf).1
      split at h
      · cases h
      · split at h
        · obtain rfl := Option.some.inj h
          refine rank_moveTo_lt ?_
          simp only [hstage, stageRank]
          omega
        · cases h

theorem rank_of_counting (hs : s.Gathered) (hstage : s.stage = .counting) (h : s.advance? = some t) :
    t.rank < s.rank := by
  simp only [advance?, hstage] at h
  split at h
  · obtain rfl := Option.some.inj h
    refine rank_moveTo_lt ?_
    simp only [hstage, stageRank, (hs.counting hstage).1.1, if_true]
    omega
  · obtain rfl := Option.some.inj h
    refine rank_moveTo_lt ?_
    simp only [hstage, stageRank, List.length_nil]
    omega
  · obtain ⟨roll, hroll, rfl⟩ := of_onRoll? h
    exact Nat.add_lt_add_right (Roll.rank_lt (Roll.turns_of_step? hroll)) _

theorem rank_of_collecting {outs : List (Task β α)} (hstage : s.stage = .collecting outs)
    (h : s.advance? = some t) : t.rank < s.rank := by
  simp only [advance?, hstage] at h
  split at h
  · obtain rfl := Option.some.inj h
    refine rank_moveTo_lt ?_
    simp only [hstage, stageRank]
    omega
  · next f hf =>
      obtain ⟨u, hu, rfl⟩ := Option.map_eq_some_iff.mp h
      obtain ⟨f, f', hf, hstep, rfl⟩ := of_onHost? hu
      simp only [rank, moveTo, hstage, stageRank, List.length_set]
      omega

theorem rank_of_taking {outs : List (Task β α)} {c : Nat} (hstage : s.stage = .taking outs c)
    (h : s.advance? = some t) : t.rank < s.rank := by
  simp only [advance?, hstage] at h
  split at h
  · cases h
  · next f hf =>
      have hlt := (List.getElem?_eq_some_iff.mp hf).1
      split at h
      · obtain rfl := Option.some.inj h
        refine rank_moveTo_lt ?_
        simp only [hstage, stageRank, List.length_append, List.length_singleton]
        omega
      · obtain rfl := Option.some.inj h
        refine rank_moveTo_lt ?_
        simp only [hstage, stageRank]
        omega
      · cases h

/-- **A step of a poll brings the fan-in nearer to its end**, or it ends the poll, which has found nothing. -/
theorem rank_of_advance (hs : s.Gathered) (h : s.step? .advance = some t) :
    t.rank < s.rank ∨ t.rank = s.rank ∧ s.isLooking = true ∧ t.isLooking = false ∧ t.hosts = s.hosts := by
  simp only [step?] at h
  cases hstage : s.stage with
  | looking w =>
      rcases rank_of_looking hstage h with hlt | ⟨hrank, hrests, hhosts⟩
      · exact Or.inl hlt
      · refine Or.inr ⟨hrank, ?_, ?_, hhosts⟩
        · rw [isLooking, hstage]
        · rw [isLooking, hrests]
  | starting w k => exact Or.inl (rank_of_starting hstage h)
  | running w k => exact Or.inl (rank_of_running hstage h)
  | counting => exact Or.inl (rank_of_counting hs hstage h)
  | collecting outs => exact Or.inl (rank_of_collecting hstage h)
  | taking outs c => exact Or.inl (rank_of_taking hstage h)
  | resting | finished outs | broken => simp [advance?, hstage] at h

/-- A poll that begins leaves as much to come. -/
theorem rank_of_poll {w : ω} (h : s.step? (.poll w) = some t) : t.rank = s.rank ∧ t.hosts = s.hosts := by
  obtain ⟨hstage, rfl⟩ := of_poll h
  exact ⟨by simp only [rank, hstage, stageRank], rfl⟩

theorem rank_of_notify {k : Nat} (h : s.step? (.notify k) = some t) : t.rank < s.rank := by
  obtain ⟨roll, hroll, rfl⟩ := of_onRoll? h
  exact Nat.add_lt_add_right (Roll.rank_lt (Roll.turns_of_step? hroll)) _

theorem rank_of_wake {k : Nat} (h : s.step? (.wake k) = some t) : t.rank = s.rank := by
  obtain ⟨f, f', -, -, -, rfl⟩ := of_wake h
  simp only [rank, List.length_set]

theorem rank_of_call {k j : Nat} {spurious : Bool} {r : Polled β α}
    (h : s.step? (.call k j spurious r) = some t) : t.rank ≤ s.rank := by
  obtain ⟨f, f', roll, -, -, rfl, hroll⟩ := of_call h
  have hle : roll.rank ≤ s.roll.rank := by
    rcases hroll with rfl | hroll
    · exact Nat.le_refl _
    · exact Nat.le_of_lt (Roll.rank_lt (Roll.turns_of_step? hroll))
  simp only [rank, List.length_set]
  omega

end Gathering

end TaskDispatch
