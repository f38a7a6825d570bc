/-
What is left of the programs.

`Program.cost` counts what a body has still to do for good: to pass a leaf, to make a
task to await, to make a fan-in and to read it.  Which of its continuations a body goes
on with depends on what it reads, and so the cost follows the direct evaluation.  A
poll that finds nothing new leaves the cost as it is.

A poll also goes through what a body is inside of, to where it left off and back.
`Visit.depth` counts these steps: a step of a poll lowers the cost, or the depth
(`Visit.cost_of_turn?`).
-/
import Mathlib.Algebra.BigOperators.Fin
import TaskDispatch.Proofs.FanIn.Rank
import TaskDispatch.Proofs.Tree.Visit

namespace TaskDispatch.Grove

variable {ℓ α : Type}

/-! ### Trees -/

mutual

/-- What is to be done for a task. -/
def Tree.cost : Tree ℓ α → Nat
  | .ready _ | .failed _ | .empty => 0
  | .body p => p.cost

/-- What a body has still to do, and all that it makes; its fan-ins are made and read. -/
def Program.cost : Program ℓ α → Nat
  | .ret _ | .panic _ => 0
  | .leaf _ next => next.cost + 1
  | .await t next =>
    t.cost + (match t.eval with
      | .ok v => (next v).cost
      | .error _ => 0) + 1
  | .all n _ inputs next =>
    (9 * n + 9 + ∑ i, (inputs i).cost) + ((next (List.ofFn fun i => (inputs i).eval)).cost + 1) + 1

end

/-- What a body does that goes on with this outcome. -/
def onward (outcome : Outcome α) (next : α → Program ℓ α) : Nat :=
  match outcome with
  | .ok v => (next v).cost
  | .error _ => 0

theorem Program.cost_await (t : Tree ℓ α) (next : α → Program ℓ α) :
    (Program.await t next).cost = t.cost + onward t.eval next + 1 := by
  rw [Program.cost]
  rfl

/-! ### Bodies and polls -/

/-- What a body has still to do, if the fan-ins come to these outcomes. -/
def Body.cost (fanIns : Nat → List (Outcome α)) : Body ℓ α → Nat
  | .run p => p.cost
  | .inTask ⟨none⟩ _ => 0
  | .inTask ⟨some ⟨_, none, cell⟩⟩ next => onward (settled cell.take.1) next
  | .inTask ⟨some ⟨_, some b, cell⟩⟩ next => b.cost fanIns + onward (closing cell (b.eval fanIns)) next
  | .inAll g next => (next (fanIns g)).cost + 1

/-- How many steps lead into a body to where it left off. -/
def Body.depth : Body ℓ α → Nat
  | .run _ => 0
  | .inTask ⟨some ⟨_, some b, _⟩⟩ _ => b.depth + 3
  | .inTask _ _ => 1
  | .inAll _ _ => 3

/-- What the body at hand has still to do. -/
def Focus.cost (fanIns : Nat → List (Outcome α)) : Focus ℓ α → Nat
  | .body b | .suspended b => b.cost fanIns
  | .asks g next | .awaits g next => (next (fanIns g)).cost + 1
  | .ended _ | .panicked _ => 0

/-- What the bodies around have still to do, once the body inside has come to an outcome. -/
def costAround (outcome : Outcome α) : List (Record (Body ℓ α) α × (α → Program ℓ α)) → Nat
  | [] => 0
  | around :: rest =>
    onward (closing around.1.cell outcome) around.2 + costAround (after outcome around) rest

/-- What all the bodies that a poll is inside of have still to do. -/
def Visit.cost (fanIns : Nat → List (Outcome α)) (v : Visit ℓ α) : Nat :=
  v.focus.cost fanIns + costAround (v.focus.eval fanIns) v.within

/-- How many steps a poll takes at most before it does something for good, or is over; the steps of a poll
of a fan-in are not counted. -/
def Focus.depth : Focus ℓ α → Nat
  | .body b => b.depth + 1
  | .asks _ _ => 3
  | .awaits _ _ => 1
  | .suspended _ | .ended _ | .panicked _ => 0

def Visit.depth (v : Visit ℓ α) : Nat := v.focus.depth + 2 * v.within.length

variable {F G : Nat → List (Outcome α)}

theorem cost_goesOn (read : Except Panic (Outcome α)) (next : α → Program ℓ α) :
    (goesOn read next).cost F = onward (settled read) next := by
  match read with
  | .error p => rfl
  | .ok (.error e) => rfl
  | .ok (.ok v) => rfl

theorem depth_goesOn (read : Except Panic (Outcome α)) (next : α → Program ℓ α) :
    (goesOn read next).depth ≤ 1 := by
  match read with
  | .error p => exact Nat.zero_le _
  | .ok (.error e) => exact Nat.zero_le _
  | .ok (.ok v) => exact Nat.le_refl _

theorem cost_closes (r : Record (Body ℓ α) α) (outcome : Outcome α) (next : α → Program ℓ α) :
    (closes r outcome next).cost F = onward (closing r.cell outcome) next := by
  obtain ⟨stage, body, cell⟩ := r
  cases cell with
  | empty => exact cost_goesOn _ next
  | value v => rfl
  | error e => rfl
  | consumed => rfl

theorem depth_closes (r : Record (Body ℓ α) α) (outcome : Outcome α) (next : α → Program ℓ α) :
    (closes r outcome next).depth ≤ 1 := by
  rw [closes]
  split
  · exact Nat.zero_le _
  · exact depth_goesOn _ next

/-- What a body has still to do depends on the fan-in it waits for, and on no other. -/
theorem Body.cost_congr (b : Body ℓ α) (h : ∀ g, b.rest = some (.fanIn g) → F g = G g) :
    b.cost F = b.cost G := by
  fun_induction Body.rest b with
  | case1 l next => rfl
  | case2 p hp => rfl
  | case3 stage b cell next ih => simp only [Body.cost, ih h, b.eval_congr h]
  | case4 t next ht =>
      obtain ⟨_ | ⟨stage, _ | b, cell⟩⟩ := t
      · rfl
      · rfl
      · exact absurd rfl (ht stage b cell)
  | case5 g next => simp only [Body.cost, h g rfl]

theorem Focus.cost_congr (focus : Focus ℓ α) (h : ∀ g, focus.rest = some (.fanIn g) → F g = G g) :
    focus.cost F = focus.cost G ∧ focus.eval F = focus.eval G := by
  cases focus with
  | body b | suspended b => exact ⟨b.cost_congr h, b.eval_congr h⟩
  | asks g next | awaits g next => simp only [Focus.cost, Focus.eval, h g rfl, and_self]
  | ended outcome | panicked p => exact ⟨rfl, rfl⟩

theorem Visit.cost_congr (v : Visit ℓ α) (h : ∀ g, v.focus.rest = some (.fanIn g) → F g = G g) :
    v.cost F = v.cost G := by
  rw [Visit.cost, Visit.cost, (v.focus.cost_congr h).1, (v.focus.cost_congr h).2]

/-- A body about to await a task of the tree has made it. -/
theorem Body.cost_inTask_toTask (t : Tree ℓ α) (next : α → Program ℓ α) :
    (Body.inTask t.toTask next).cost F = t.cost + onward t.eval next := by
  cases t with
  | ready v =>
      rw [Tree.cost, Tree.eval, Nat.zero_add]
      rfl
  | failed e => simp [Tree.toTask, Task.failed, Body.cost, Tree.cost, Tree.eval, settled, onward]
  | empty => simp [Tree.toTask, Task.empty, Body.cost, Tree.cost, Tree.eval, onward]
  | body p => simp [Tree.toTask, Task.new, Body.cost, Body.eval, Tree.cost, Tree.eval, closing, settled, Except.bind]

/-- A body that awaits a task with nothing to run has to read it. -/
theorem Body.cost_of_begin?_eq_none {t : Task (Body ℓ α) α} (h : t.begin? = none)
    (next : α → Program ℓ α) :
    (Body.inTask t next).cost F = onward (settled t.takeOutcome.1) next ∧ (Body.inTask t next).depth = 1 := by
  match t with
  | ⟨none⟩ => exact ⟨rfl, rfl⟩
  | ⟨some ⟨stage, none, cell⟩⟩ => exact ⟨rfl, rfl⟩
  | ⟨some ⟨stage, some b, cell⟩⟩ => cases h

/-- A body that awaits a task with a body has that one to go into. -/
theorem Body.cost_of_begin? {t : Task (Body ℓ α) α} {b : Body ℓ α} {r : Record (Body ℓ α) α}
    (h : t.begin? = some (b, r)) (next : α → Program ℓ α) :
    (Body.inTask t next).cost F = b.cost F + onward (closing r.cell (b.eval F)) next ∧
      (Body.inTask t next).depth = b.depth + 3 := by
  match t with
  | ⟨none⟩ => cases h
  | ⟨some ⟨stage, none, cell⟩⟩ => cases h
  | ⟨some ⟨stage, some b, cell⟩⟩ =>
      cases h
      exact ⟨rfl, rfl⟩

theorem Visit.cost_eq {focus : Focus ℓ α} {cost : Nat} {outcome : Outcome α} (hcost : focus.cost F = cost)
    (heval : focus.eval F = outcome) (within : List (Record (Body ℓ α) α × (α → Program ℓ α))) :
    (⟨focus, within⟩ : Visit ℓ α).cost F = cost + costAround outcome within := by
  rw [Visit.cost, hcost, heval]

/-- A poll that goes on inside the same tasks costs what the body at hand does, more or less. -/
theorem Visit.cost_focus {v : Visit ℓ α} {focus : Focus ℓ α} (heval : focus.eval F = v.focus.eval G) :
    ({ v with focus } : Visit ℓ α).cost F + v.focus.cost G = v.cost G + focus.cost F := by
  simp only [Visit.cost, heval]
  omega

theorem Visit.depth_focus (v : Visit ℓ α) (focus : Focus ℓ α) :
    ({ v with focus } : Visit ℓ α).depth + v.focus.depth = v.depth + focus.depth := by
  simp only [Visit.depth]
  omega

/-- Handing an outcome to the body around costs nothing. -/
theorem Visit.cost_closes (around : Record (Body ℓ α) α × (α → Program ℓ α))
    (rest : List (Record (Body ℓ α) α × (α → Program ℓ α))) (outcome : Outcome α) :
    (⟨closes around.1 outcome around.2, rest⟩ : Visit ℓ α).cost F = costAround outcome (around :: rest) ∧
      (⟨closes around.1 outcome around.2, rest⟩ : Visit ℓ α).depth < 2 * (rest.length + 1) := by
  have hle := depth_closes around.1 outcome around.2
  refine ⟨Visit.cost_eq (Grove.cost_closes _ _ _) (eval_closes _ _ _) rest, ?_⟩
  show (closes around.1 outcome around.2).depth + 2 * rest.length < 2 * (rest.length + 1)
  omega

/-- A body that runs its program ends, or makes a task to await, which is for good. -/
theorem Visit.cost_of_run {p : Program ℓ α} {within : List (Record (Body ℓ α) α × (α → Program ℓ α))}
    {w : Visit ℓ α} (h : (⟨.body (.run p), within⟩ : Visit ℓ α).turn? = some w) :
    w.cost F < (⟨.body (.run p), within⟩ : Visit ℓ α).cost F ∨
      w.cost F = (⟨.body (.run p), within⟩ : Visit ℓ α).cost F ∧
        w.depth < (⟨.body (.run p), within⟩ : Visit ℓ α).depth := by
  cases p with
  | ret outcome =>
      obtain rfl := Option.some.inj h
      refine Or.inr ⟨?_, Nat.add_lt_add_right (Nat.succ_pos 0) _⟩
      simp only [Visit.cost, Focus.cost, Focus.eval, Body.cost, Body.eval, Program.cost, Program.eval]
  | panic p =>
      obtain rfl := Option.some.inj h
      refine Or.inr ⟨?_, Nat.add_lt_add_right (Nat.succ_pos 0) _⟩
      simp only [Visit.cost, Focus.cost, Focus.eval, Body.cost, Body.eval, Program.cost, Program.eval]
  | leaf l next => cases h
  | await t next =>
      obtain rfl := Option.some.inj h
      left
      have heval := (Body.eval_inTask_toTask (F := F) t next).1
      simp only [Visit.cost, Focus.cost, Focus.eval, Body.cost_inTask_toTask, heval, Body.cost,
        Program.cost_await, Body.eval, Program.eval]
      omega
  | all n hn inputs next => cases h

/-- To go into the task that a body awaits, or to read it if it has nothing to run, costs nothing and brings
the poll nearer to its end. -/
theorem Visit.cost_of_inTask {t : Task (Body ℓ α) α} {next : α → Program ℓ α}
    {within : List (Record (Body ℓ α) α × (α → Program ℓ α))} {w : Visit ℓ α}
    (h : (⟨.body (.inTask t next), within⟩ : Visit ℓ α).turn? = some w) :
    w.cost F = (⟨.body (.inTask t next), within⟩ : Visit ℓ α).cost F ∧
      w.depth < (⟨.body (.inTask t next), within⟩ : Visit ℓ α).depth := by
  simp only [turn?] at h
  split at h
  · next hnone =>
      obtain rfl := Option.some.inj h
      obtain ⟨hcost, hdepth⟩ := Body.cost_of_begin?_eq_none (F := F) hnone next
      have hle := depth_goesOn t.takeOutcome.1 next
      refine ⟨?_, ?_⟩
      · have hcost : (Focus.body (.inTask t next)).cost F = onward (settled t.takeOutcome.1) next := hcost
        rw [Visit.cost_eq (cost_goesOn _ next) (eval_goesOn _ next),
          Visit.cost_eq hcost (Body.eval_of_begin?_eq_none hnone next)]
      · show (goesOn t.takeOutcome.1 next).depth + 2 * within.length <
          (Body.inTask t next).depth + 1 + 2 * within.length
        omega
  · next b r hsome =>
      obtain rfl := Option.some.inj h
      obtain ⟨hcost, hdepth⟩ := Body.cost_of_begin? (F := F) hsome next
      obtain ⟨heval, -⟩ := Body.eval_of_begin? (F := F) hsome next
      refine ⟨?_, ?_⟩
      · simp only [Visit.cost, Focus.cost, Focus.eval, costAround, hcost, heval]
        omega
      · simp only [Visit.depth, Focus.depth, hdepth, List.length_cons]
        omega

/-- **A step of a poll by itself does something for good, or brings the poll nearer to its end.** -/
theorem Visit.cost_of_turn? {v w : Visit ℓ α} (h : v.turn? = some w) :
    w.cost F < v.cost F ∨ w.cost F = v.cost F ∧ w.depth < v.depth := by
  obtain ⟨focus, within⟩ := v
  cases focus with
  | body b =>
      cases b with
      | run p => exact Visit.cost_of_run h
      | inTask t next => exact Or.inr (Visit.cost_of_inTask h)
      | inAll g next =>
          obtain rfl := Option.some.inj h
          exact Or.inr ⟨rfl, Nat.add_lt_add_right (Nat.lt_succ_self 3) _⟩
  | asks g next => cases h
  | awaits g next => cases h
  | suspended b =>
      cases within with
      | nil => cases h
      | cons around rest =>
          obtain rfl := Option.some.inj h
          refine Or.inr ⟨?_, ?_⟩
          · simp only [Visit.cost, Focus.cost, Focus.eval, costAround, Record.suspend, Body.cost, Body.eval, after]
            omega
          · simp only [Visit.depth, Focus.depth, List.length_cons]
            omega
  | ended outcome =>
      cases within with
      | nil => cases h
      | cons around rest =>
          obtain rfl := Option.some.inj h
          obtain ⟨hcost, hdepth⟩ := Visit.cost_closes (F := F) around rest outcome
          exact Or.inr ⟨hcost.trans (Nat.zero_add _).symm, hdepth.trans_eq (Nat.zero_add _).symm⟩
  | panicked p =>
      cases within with
      | nil => cases h
      | cons around rest =>
          obtain rfl := Option.some.inj h
          obtain ⟨hcost, hdepth⟩ := Visit.cost_closes (F := F) around rest (.error p.toError)
          exact Or.inr ⟨hcost.trans (Nat.zero_add _).symm, hdepth.trans_eq (Nat.zero_add _).symm⟩

end TaskDispatch.Grove
