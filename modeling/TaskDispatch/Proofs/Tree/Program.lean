/-
Trees of tasks.

A body waits for leaves, awaits other tasks one after another, of which the first that
fails ends it, and gathers the outcomes of several tasks.  Bodies share nothing, so a
tree has an outcome of its own, `Tree.eval`, which says nothing of frames, wakes or
orders.

Between polls a body is what `Body` says: it has yet to go on with its program, or it
awaits a task, which it holds with whatever body that has, or a fan-in.  It waits for
one thing only, `Body.rest`, however deep that lies.
-/
import TaskDispatch.Proofs.Frame.Hosted

namespace TaskDispatch.Grove

variable {ℓ α : Type}

/-! ### Trees -/

mutual

/-- A task of a tree: it has its outcome already, or a body to run. -/
inductive Tree (ℓ α : Type) where
  | ready (v : α)
  | failed (e : Error)
  | empty
  | body (p : Program ℓ α)

/-- What a body does. -/
inductive Program (ℓ α : Type) where
  | ret (outcome : Outcome α)
  | panic (p : Panic)
  /-- It waits until the leaf is open. -/
  | leaf (l : ℓ) (next : Program ℓ α)
  /-- It awaits a task and goes on with its value; an error ends it. -/
  | await (t : Tree ℓ α) (next : α → Program ℓ α)
  /-- It awaits all these tasks at once and goes on with their outcomes.  Their number is a machine word. -/
  | all (n : Nat) (hn : n < 2 ^ 64) (inputs : Fin n → Tree ℓ α)
    (next : List (Outcome α) → Program ℓ α)

end

mutual

/-- The outcome of a task, evaluated directly. -/
def Tree.eval : Tree ℓ α → Outcome α
  | .ready v => .ok v
  | .failed e => .error e
  | .empty => .error .brokenTask
  | .body p => p.eval

/-- The outcome of a body, evaluated directly, in the order in which it is written. -/
def Program.eval : Program ℓ α → Outcome α
  | .ret outcome => outcome
  | .panic p => .error p.toError
  | .leaf _ next => next.eval
  | .await t next => t.eval.bind fun v => (next v).eval
  | .all _ _ inputs next => (next (List.ofFn fun i => (inputs i).eval)).eval

end

/-! ### Bodies -/

/-- A body between polls: it is yet to go on with its program, or it awaits a task or a fan-in. -/
inductive Body (ℓ α : Type) where
  | run (p : Program ℓ α)
  | inTask (t : Task (Body ℓ α) α) (next : α → Program ℓ α)
  | inAll (g : Nat) (next : List (Outcome α) → Program ℓ α)

/-- The task itself, as its owner keeps it. -/
def Tree.toTask : Tree ℓ α → Task (Body ℓ α) α
  | .ready v => .ready v
  | .failed e => .failed e
  | .empty => .empty
  | .body p => .new (.run p)

/-- What it comes to that an outcome is read; a panic of the reader is an error. -/
def settled : Except Panic (Outcome α) → Outcome α
  | .ok outcome => outcome
  | .error p => .error p.toError

/-- What it comes to that a body whose record holds this cell ends with an outcome. -/
def closing (cell : Cell α) (outcome : Outcome α) : Outcome α :=
  settled ((cell.complete outcome).bind fun cell => cell.take.1)

/-- What a body will come to, if the fan-ins come to these outcomes. -/
def Body.eval (fanIns : Nat → List (Outcome α)) : Body ℓ α → Outcome α
  | .run p => p.eval
  | .inTask ⟨none⟩ _ => .error .brokenTask
  | .inTask ⟨some ⟨_, none, cell⟩⟩ next => (settled cell.take.1).bind fun v => (next v).eval
  | .inTask ⟨some ⟨_, some b, cell⟩⟩ next =>
    (closing cell (b.eval fanIns)).bind fun v => (next v).eval
  | .inAll g next => (next (fanIns g)).eval

/-- What a suspended body waits for. -/
inductive Rest (ℓ : Type) where
  | leaf (l : ℓ)
  | fanIn (g : Nat)

/-- What the body waits for, or looks at first when it is polled. -/
def Body.rest : Body ℓ α → Option (Rest ℓ)
  | .run (.leaf l _) => some (.leaf l)
  | .run _ => none
  | .inTask ⟨some ⟨_, some b, _⟩⟩ _ => b.rest
  | .inTask _ _ => none
  | .inAll g _ => some (.fanIn g)

/-- The outcome that the task a frame is made around will come to: it has not been polled. -/
def promise (t : Task (Body ℓ α) α) : Outcome α :=
  match t.body? with
  | some b => b.eval fun _ => []
  | none => settled t.result

@[simp] theorem promise_toTask (t : Tree ℓ α) : promise t.toTask = t.eval := by
  cases t with
  | ready v => rfl
  | failed e => rfl
  | empty => rfl
  | body p => rw [Tree.eval]; rfl

theorem sound_toTask (t : Tree ℓ α) : (t.toTask : Task (Body ℓ α) α).Sound := by
  cases t with
  | ready v => exact Or.inl (Task.over_ready v)
  | failed e => exact Or.inl (Task.over_failed e)
  | empty => exact Or.inl Task.over_empty
  | body p => exact Or.inr ⟨_, Task.runs_new _⟩

end TaskDispatch.Grove
