/-
How far a tree is from its end.

What a tree has still to do is three numbers, compared one after another:

    cost    what is left of all programs, of all fan-ins and of the caller, for good
    effort  what is left for all calls to do, and for the wakes on their way
    depth   how far the polls under way are from where they left off, and how many
            calls have seen a word that is gone

A tree is nearer to its end if the first of them that differs is lower (`Nearer`).  A wake
from outside raises the effort and so may let many acts follow, but only so many.
-/
import Mathlib.Algebra.BigOperators.Group.Finset.Basic
import Mathlib.Data.Finset.Union
import Mathlib.Data.Prod.Lex
import TaskDispatch.Proofs.Frame.Effort
import TaskDispatch.Proofs.Tree.Cost
import TaskDispatch.Proofs.Tree.Reached

namespace TaskDispatch.Grove

open TaskDispatch.Frame (Callers Hosted Call)

variable {ℓ α : Type} {s t u : Grove ℓ α} {n : Seat} {tree : Tree ℓ α}

/-! ### Sums over the frames -/

/-- The seats of all frames. -/
def seats (s : Grove ℓ α) : Finset Seat :=
  insert .root ((Finset.range s.branches.length).biUnion fun g =>
    (Finset.range ((s.branches[g]?).elim 0 (·.fan.hosts.length))).image (.input g))

theorem mem_seats : n ∈ s.seats ↔ (s.host? n).isSome = true := by
  cases n with
  | root => simp [seats, host?]
  | input g k =>
      cases hb : s.branches[g]? with
      | none => simp [seats, host?, hb]
      | some b =>
          have hlt := (List.getElem?_eq_some_iff.mp hb).1
          simp [seats, host?, hlt]

theorem seats_eq (h : ∀ m, (t.host? m).isSome = (s.host? m).isSome) : t.seats = s.seats := by
  ext m
  rw [mem_seats, mem_seats, h m]

/-- The sum of `w` over all frames. -/
def total (s : Grove ℓ α) (w : Seat → Nat) : Nat := ∑ m ∈ s.seats, w m

theorem total_congr {w w' : Seat → Nat} (hseats : t.seats = s.seats) (h : ∀ m, w' m = w m) :
    t.total w' = s.total w := by
  rw [total, total, hseats]
  exact Finset.sum_congr rfl fun m _ => h m

/-- When one frame moves, a sum changes by that frame alone. -/
theorem total_move {w v : Seat → Nat} (hseats : t.seats = s.seats) (h : ∀ m, m ≠ n → v m = w m)
    (hn : n ∈ s.seats) : t.total v + w n = s.total w + v n := by
  have hothers : ∑ m ∈ s.seats.erase n, v m = ∑ m ∈ s.seats.erase n, w m :=
    Finset.sum_congr rfl fun m hm => h m (Finset.ne_of_mem_erase hm)
  rw [total, total, hseats, ← Finset.add_sum_erase _ v hn, ← Finset.add_sum_erase _ w hn, hothers]
  omega

/-! ### What is still to do -/

/-- How far the caller of `sync_wait` is from its end. -/
def Main.rank : Main α → Nat
  | .made => 5
  | .starting => 4
  | .waits .looking | .waits .parked => 3
  | .waits .returned => 2
  | .takes _ => 1
  | .returned _ | .unreachable => 0

/-- Whether the caller is about to look at the latch. -/
def Main.isLooking : Main α → Bool
  | .waits .looking => true
  | _ => false

/-- What is left of the body of the frame at a seat. -/
def bodyCost (s : Grove ℓ α) (n : Seat) : Nat :=
  match s.visits n with
  | some v => v.cost s.promises
  | none => ((s.host? n).bind (·.body?)).elim 0 (·.cost s.promises)

/-- What is left for the calls of the frame at a seat to do. -/
def callEffort (s : Grove ℓ α) (n : Seat) : Nat := (s.host? n).elim 0 (·.frame.effort)

/-- How far the poll of the frame at a seat is from where it left off, and how many calls there have seen a
word that is gone. -/
def visitDepth (s : Grove ℓ α) (n : Seat) : Nat :=
  (s.visits n).elim 0 Visit.depth + (s.host? n).elim 0 (·.frame.stale)

/-- What happens for good. -/
def cost (s : Grove ℓ α) : Nat :=
  s.main.rank + s.total s.bodyCost + (s.branches.map (·.fan.rank)).sum

/-- What is left to do for calls and wakes. -/
def effort (s : Grove ℓ α) : Nat := s.main.isLooking.toNat + 10 * s.wakes.length + s.total s.callEffort

def depth (s : Grove ℓ α) : Nat := s.total s.visitDepth + s.branches.countP (·.fan.isLooking)

/-- One tree has less to do than another. -/
def Nearer (t s : Grove ℓ α) : Prop :=
  Prod.Lex (· < ·) (Prod.Lex (· < ·) (· < ·)) (t.cost, t.effort, t.depth) (s.cost, s.effort, s.depth)

theorem wellFounded_nearer : WellFounded (Nearer : Grove ℓ α → Grove ℓ α → Prop) :=
  InvImage.wf (fun s : Grove ℓ α => (s.cost, s.effort, s.depth))
    (WellFounded.prod_lex Nat.lt_wfRel.wf (WellFounded.prod_lex Nat.lt_wfRel.wf Nat.lt_wfRel.wf))

namespace Nearer

theorem of_cost (h : t.cost < s.cost) : Nearer t s := Prod.Lex.left _ _ h

theorem of_effort (hcost : t.cost ≤ s.cost) (h : t.effort < s.effort) : Nearer t s := by
  rcases Nat.lt_or_eq_of_le hcost with hlt | heq
  · exact .of_cost hlt
  · rw [Nearer, heq]
    exact Prod.Lex.right _ (Prod.Lex.left _ _ h)

theorem of_depth (hcost : t.cost ≤ s.cost) (heffort : t.effort ≤ s.effort) (h : t.depth < s.depth) :
    Nearer t s := by
  rcases Nat.lt_or_eq_of_le heffort with hlt | heq
  · exact .of_effort hcost hlt
  · rcases Nat.lt_or_eq_of_le hcost with hlt | hsame
    · exact .of_cost hlt
    · rw [Nearer, hsame, heq]
      exact Prod.Lex.right _ (Prod.Lex.right _ h)

end Nearer

/-! ### What stays -/

/-- The polls of the bodies are no matter of calls and wakes. -/
theorem effort_setVisit (s : Grove ℓ α) (n : Seat) (v : Option (Visit ℓ α)) :
    (s.setVisit n v).effort = s.effort := rfl

theorem body?_of_aside {f f' : Hosted (Body ℓ α) α} (h : f.Aside f') : f'.body? = f.body? := by
  rw [Hosted.body?, Hosted.body?, h.log, h.input]

/-- What is left of a body is as it was if its frame and its poll are where they were. -/
theorem bodyCost_eq (hvisits : t.visits n = s.visits n) (hpromises : t.promises = s.promises)
    (hbody : (t.host? n).bind (·.body?) = (s.host? n).bind (·.body?)) : t.bodyCost n = s.bodyCost n := by
  simp only [bodyCost, hvisits, hpromises, hbody]

theorem Moved.seats {a : Callers.Act (Body ℓ α) α} (h : Moved s t n a) : t.seats = s.seats := by
  refine seats_eq fun m => ?_
  by_cases hm : m = n
  · obtain ⟨f, f', hf, -, hf'⟩ := h.host
    rw [hm, hf, hf']
    rfl
  · rw [h.others m hm]

/-- A frame moves and leaves its body alone. -/
theorem Moved.bodyCost {a : Callers.Act (Body ℓ α) α} (h : Moved s t n a) {m : Seat}
    (hbody : m = n → ∀ f f', s.host? n = some f → t.host? n = some f' → f'.body? = f.body?) :
    t.bodyCost m = s.bodyCost m := by
  refine bodyCost_eq (by rw [h.visits]) (funext h.promises) ?_
  by_cases hm : m = n
  · obtain ⟨f, f', hf, -, hf'⟩ := h.host
    rw [hm, hf, hf', Option.bind_some, Option.bind_some, hbody hm f f' hf hf']
  · rw [h.others m hm]

theorem ranks_setFan {g : Nat} {b : Branch ℓ α} (hb : s.branches[g]? = some b)
    (fan : Gathering (Body ℓ α) α Seat) :
    ((s.setFan g b fan).branches.map (·.fan.rank)).sum + b.fan.rank =
      (s.branches.map (·.fan.rank)).sum + fan.rank :=
  sum_map_set_add (fun b : Branch ℓ α => b.fan.rank) { b with fan } hb

theorem looking_setFan {g : Nat} {b : Branch ℓ α} (hb : s.branches[g]? = some b)
    (fan : Gathering (Body ℓ α) α Seat) :
    (s.setFan g b fan).branches.countP (·.fan.isLooking) + b.fan.isLooking.toNat =
      s.branches.countP (·.fan.isLooking) + fan.isLooking.toNat :=
  countP_set_add (fun b : Branch ℓ α => b.fan.isLooking) { b with fan } hb

/-- A call of a frame takes no fan-in farther from its end, and no poll of a fan-in either. -/
theorem branches_of_go? {j : Nat} {spurious : Bool} {r : Polled (Body ℓ α) α}
    (h : s.go? n j spurious r = some t) :
    (t.branches.map (·.fan.rank)).sum ≤ (s.branches.map (·.fan.rank)).sum ∧
      t.branches.countP (·.fan.isLooking) = s.branches.countP (·.fan.isLooking) := by
  cases n with
  | root =>
      simp only [go?] at h
      split at h
      · cases h
      · split at h
        · obtain ⟨u, hu, rfl⟩ := Option.map_eq_some_iff.mp h
          obtain ⟨root, hstep, rfl⟩ := of_onRoot? hu
          exact ⟨Nat.le_refl _, rfl⟩
        · obtain ⟨root, hstep, rfl⟩ := of_onRoot? h
          exact ⟨Nat.le_refl _, rfl⟩
  | input g k =>
      obtain ⟨b, fan, hb, hcall, rfl⟩ := of_onBranch? h
      have hranks := ranks_setFan hb fan
      have hlooking := looking_setFan hb fan
      have hrank := Gathering.rank_of_call hcall
      obtain ⟨f, f', roll, hf, hstep, rfl, -⟩ := Gathering.of_call hcall
      have hstage : ({ b.fan with roll, hosts := b.fan.hosts.set k f' } : Gathering (Body ℓ α) α Seat).isLooking =
        b.fan.isLooking := rfl
      rw [hstage] at hlooking
      omega

theorem ranks_of_wake? (h : s.wake? n = some t) :
    (t.branches.map (·.fan.rank)).sum = (s.branches.map (·.fan.rank)).sum := by
  cases n with
  | root =>
      simp only [wake?] at h
      split at h
      · obtain ⟨root, hstep, rfl⟩ := of_onRoot? h
        rfl
      · cases h
  | input g k =>
      obtain ⟨b, fan, hb, hwake, rfl⟩ := of_onBranch? h
      have hranks := ranks_setFan hb fan
      have hrank := Gathering.rank_of_wake hwake
      omega

/-- A call of a frame leaves the caller where it is, unless it sets the latch. -/
theorem main_of_go? {j : Nat} {spurious : Bool} {r : Polled (Body ℓ α) α}
    (h : s.go? n j spurious r = some t) :
    t.main = s.main ∨ t.main = s.main.notify ∧
      ∃ f c, s.host? n = some f ∧ f.frame.calls[j]? = some c ∧ c.announces = true := by
  cases n with
  | root =>
      simp only [go?] at h
      split at h
      · cases h
      · next c hc =>
          split at h
          · next hannounces =>
              obtain ⟨u, hu, rfl⟩ := Option.map_eq_some_iff.mp h
              obtain ⟨root, hstep, rfl⟩ := of_onRoot? hu
              exact Or.inr ⟨rfl, s.root, c, rfl, hc, hannounces⟩
          · obtain ⟨root, hstep, rfl⟩ := of_onRoot? h
            exact Or.inl rfl
  | input g k =>
      obtain ⟨b, fan, hb, hcall, rfl⟩ := of_onBranch? h
      exact Or.inl rfl

theorem Main.rank_notify (m : Main α) : m.notify.rank = m.rank := by
  cases m with
  | waits w => cases w <;> rfl
  | _ => rfl

end TaskDispatch.Grove
