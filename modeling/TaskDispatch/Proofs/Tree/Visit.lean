/-
One poll of a body.

A poll runs a body up to where it suspends or ends.  On its way it is inside the tasks
that the body awaits, each of which has lent its body out and waits with its record.
`Visit` is how far a poll is and `Visit.turn?` is its next step, as long as it needs
nothing from outside: it looks at no leaf and polls no fan-in.

`Visit.eval` says what a half-run body will come to.  No step changes it, and it
depends on no fan-in but the one the body waits for.
-/
import TaskDispatch.Proofs.Tree.Program

namespace TaskDispatch.Grove

variable {ℓ α : Type}

/-- What a poll is at, inside all the tasks it has come through. -/
inductive Focus (ℓ α : Type) where
  /-- About to run the body. -/
  | body (b : Body ℓ α)
  /-- About to poll the fan-in. -/
  | asks (g : Nat) (next : List (Outcome α) → Program ℓ α)
  /-- In a poll of the fan-in. -/
  | awaits (g : Nat) (next : List (Outcome α) → Program ℓ α)
  | suspended (b : Body ℓ α)
  | ended (outcome : Outcome α)
  | panicked (p : Panic)

/-- How far a poll of a body is: what it is at, and the tasks around that, the innermost first, each with
what the body that awaits it does next. -/
structure Visit (ℓ α : Type) where
  focus : Focus ℓ α
  within : List (Record (Body ℓ α) α × (α → Program ℓ α)) := []

/-- A body goes on with the outcome it has read. -/
def goesOn (read : Except Panic (Outcome α)) (next : α → Program ℓ α) : Focus ℓ α :=
  match read with
  | .error p => .panicked p
  | .ok (.error e) => .ended (.error e)
  | .ok (.ok v) => .body (.run (next v))

/-- The body of a task has ended: its outcome is written and read. -/
def closes (r : Record (Body ℓ α) α) (outcome : Outcome α) (next : α → Program ℓ α) : Focus ℓ α :=
  match r.finish outcome with
  | .error p => .panicked p
  | .ok r => goesOn (Task.takeOutcome ⟨some r⟩).1 next

/-- The next step of a poll that needs nothing from outside. -/
def Visit.turn? (v : Visit ℓ α) : Option (Visit ℓ α) :=
  match v.focus with
  | .body (.run (.ret outcome)) => some { v with focus := .ended outcome }
  | .body (.run (.panic p)) => some { v with focus := .panicked p }
  | .body (.run (.await t next)) => some { v with focus := .body (.inTask t.toTask next) }
  | .body (.run (.leaf _ _)) | .body (.run (.all _ _ _ _)) => none
  | .body (.inTask t next) =>
    match t.begin? with
    | none => some { v with focus := goesOn t.takeOutcome.1 next }
    | some (b, r) => some ⟨.body b, (r, next) :: v.within⟩
  | .body (.inAll g next) => some { v with focus := .asks g next }
  | .asks _ _ | .awaits _ _ => none
  | .suspended b =>
    match v.within with
    | [] => none
    | (r, next) :: rest => some ⟨.suspended (.inTask ⟨some (r.suspend b)⟩ next), rest⟩
  | .ended outcome =>
    match v.within with
    | [] => none
    | (r, next) :: rest => some ⟨closes r outcome next, rest⟩
  | .panicked p =>
    match v.within with
    | [] => none
    | (r, next) :: rest => some ⟨closes r (.error p.toError) next, rest⟩

/-- What the poll has come to, once it is over. -/
def Visit.result? (v : Visit ℓ α) : Option (Polled (Body ℓ α) α) :=
  match v.within, v.focus with
  | [], .suspended b => some (.suspended b)
  | [], .ended outcome => some (.ended outcome)
  | [], .panicked p => some (.panicked p)
  | _, _ => none

/-! ### What it will come to -/

/-- What the body at hand will come to. -/
def Focus.eval (fanIns : Nat → List (Outcome α)) : Focus ℓ α → Outcome α
  | .body b | .suspended b => b.eval fanIns
  | .asks g next | .awaits g next => (next (fanIns g)).eval
  | .ended outcome => outcome
  | .panicked p => .error p.toError

/-- What a body comes to that awaits a task whose body comes to this. -/
def after (outcome : Outcome α) (around : Record (Body ℓ α) α × (α → Program ℓ α)) : Outcome α :=
  (closing around.1.cell outcome).bind fun v => (around.2 v).eval

/-- What the outermost body will come to. -/
def Visit.eval (fanIns : Nat → List (Outcome α)) (v : Visit ℓ α) : Outcome α :=
  v.within.foldl after (v.focus.eval fanIns)

/-- What the poll waits for, or looks at first. -/
def Focus.rest : Focus ℓ α → Option (Rest ℓ)
  | .body b | .suspended b => b.rest
  | .asks g _ | .awaits g _ => some (.fanIn g)
  | .ended _ | .panicked _ => none

/-- Whether the poll is on its way: it has not suspended and is not in a poll of a fan-in. -/
def Focus.isPlain : Focus ℓ α → Bool
  | .suspended _ | .awaits _ _ => false
  | .body _ | .asks _ _ | .ended _ | .panicked _ => true

variable {F G : Nat → List (Outcome α)}

theorem Body.rest_run (p : Program ℓ α) (g : Nat) : (Body.run p).rest ≠ some (.fanIn g) := by
  cases p <;> simp [Body.rest]

theorem isPlain_goesOn (read : Except Panic (Outcome α)) (next : α → Program ℓ α) :
    (goesOn read next).isPlain = true := by
  match read with
  | .error p => rfl
  | .ok (.error e) => rfl
  | .ok (.ok v) => rfl

theorem isPlain_closes (r : Record (Body ℓ α) α) (outcome : Outcome α) (next : α → Program ℓ α) :
    (closes r outcome next).isPlain = true := by
  rw [closes]
  split
  · rfl
  · exact isPlain_goesOn _ next

theorem eval_goesOn (read : Except Panic (Outcome α)) (next : α → Program ℓ α) :
    (goesOn read next).eval F = (settled read).bind fun v => (next v).eval := by
  match read with
  | .error p => rfl
  | .ok (.error e) => rfl
  | .ok (.ok v) => rfl

theorem rest_goesOn (read : Except Panic (Outcome α)) (next : α → Program ℓ α) (g : Nat) :
    (goesOn read next).rest ≠ some (.fanIn g) := by
  match read with
  | .error p => exact nofun
  | .ok (.error e) => exact nofun
  | .ok (.ok v) => exact Body.rest_run (next v) g

theorem eval_closes (r : Record (Body ℓ α) α) (outcome : Outcome α) (next : α → Program ℓ α) :
    (closes r outcome next).eval F = after outcome (r, next) := by
  obtain ⟨stage, body, cell⟩ := r
  cases cell with
  | empty => exact eval_goesOn _ next
  | value v => rfl
  | error e => rfl
  | consumed => rfl

theorem rest_closes (r : Record (Body ℓ α) α) (outcome : Outcome α) (next : α → Program ℓ α) (g : Nat) :
    (closes r outcome next).rest ≠ some (.fanIn g) := by
  rw [closes]
  split
  · exact nofun
  · exact rest_goesOn _ next g

/-- What a body will come to depends on the fan-in it waits for, and on no other. -/
theorem Body.eval_congr (b : Body ℓ α) (h : ∀ g, b.rest = some (.fanIn g) → F g = G g) :
    b.eval F = b.eval G := by
  fun_induction Body.rest b with
  | case1 l next => rfl
  | case2 p hp => rfl
  | case3 stage b cell next ih => simp only [Body.eval, ih h]
  | case4 t next ht =>
      match t with
      | ⟨none⟩ => rfl
      | ⟨some ⟨_, none, _⟩⟩ => rfl
      | ⟨some ⟨stage, some b, cell⟩⟩ => exact absurd rfl (ht stage b cell)
  | case5 g next => simp only [Body.eval, h g rfl]

theorem Visit.eval_congr (v : Visit ℓ α) (h : ∀ g, v.focus.rest = some (.fanIn g) → F g = G g) :
    v.eval F = v.eval G := by
  have hfocus : v.focus.eval F = v.focus.eval G := by
    cases hv : v.focus with
    | body b | suspended b => exact b.eval_congr fun g hg => h g (by rw [hv]; exact hg)
    | asks g next | awaits g next => simp only [Focus.eval, h g (by rw [hv]; rfl)]
    | ended outcome | panicked p => rfl
  rw [Visit.eval, Visit.eval, hfocus]

/-- A body that awaits a task with nothing to run reads it. -/
theorem Body.eval_of_begin?_eq_none {t : Task (Body ℓ α) α} (h : t.begin? = none)
    (next : α → Program ℓ α) :
    (Body.inTask t next).eval F = (settled t.takeOutcome.1).bind fun v => (next v).eval := by
  match t with
  | ⟨none⟩ => rfl
  | ⟨some ⟨stage, none, cell⟩⟩ => rfl
  | ⟨some ⟨stage, some b, cell⟩⟩ => cases h

/-- A body that awaits a task with a body goes into it. -/
theorem Body.eval_of_begin? {t : Task (Body ℓ α) α} {b : Body ℓ α} {r : Record (Body ℓ α) α}
    (h : t.begin? = some (b, r)) (next : α → Program ℓ α) :
    after (b.eval F) (r, next) = (Body.inTask t next).eval F ∧ (Body.inTask t next).rest = b.rest := by
  match t with
  | ⟨none⟩ => cases h
  | ⟨some ⟨stage, none, cell⟩⟩ => cases h
  | ⟨some ⟨stage, some b, cell⟩⟩ =>
      cases h
      exact ⟨rfl, rfl⟩

/-- A body about to await a task of the tree waits for nothing yet. -/
theorem Body.eval_inTask_toTask (t : Tree ℓ α) (next : α → Program ℓ α) :
    (Body.inTask t.toTask next).eval F = t.eval.bind (fun v => (next v).eval) ∧
      ∀ g, (Body.inTask t.toTask next).rest ≠ some (.fanIn g) := by
  cases t with
  | ready v => exact ⟨rfl, nofun⟩
  | failed e => exact ⟨rfl, nofun⟩
  | empty => exact ⟨rfl, nofun⟩
  | body p =>
      refine ⟨?_, ?_⟩
      · rw [Tree.eval]
        simp [Tree.toTask, Task.new, Body.eval, closing, settled, Except.bind]
      · exact Body.rest_run p

theorem Visit.eval_focus {v : Visit ℓ α} {focus : Focus ℓ α} (h : focus.eval F = v.focus.eval G) :
    ({ v with focus } : Visit ℓ α).eval F = v.eval G := by
  rw [Visit.eval, Visit.eval, h]

/-- **No step of a poll changes what its body will come to**, nor the fan-in it waits for, unless it is
done with it. -/
theorem Visit.eval_of_turn? {v w : Visit ℓ α} (h : v.turn? = some w) :
    w.eval F = v.eval F ∧ ∀ g, w.focus.rest = some (.fanIn g) → v.focus.rest = some (.fanIn g) := by
  obtain ⟨focus, within⟩ := v
  cases focus with
  | body b =>
      cases b with
      | run p =>
          cases p with
          | ret outcome =>
              obtain rfl := Option.some.inj h
              exact ⟨rfl, nofun⟩
          | panic p =>
              obtain rfl := Option.some.inj h
              exact ⟨rfl, nofun⟩
          | leaf l next => cases h
          | await t next =>
              obtain rfl := Option.some.inj h
              obtain ⟨heval, hrest⟩ := Body.eval_inTask_toTask (F := F) t next
              refine ⟨?_, fun g hg => absurd hg (hrest g)⟩
              simp only [Visit.eval, Focus.eval, heval, Body.eval, Program.eval]
          | all n hn inputs next => cases h
      | inTask t next =>
          simp only [turn?] at h
          split at h
          · next hnone =>
              obtain rfl := Option.some.inj h
              refine ⟨?_, fun g hg => absurd hg (rest_goesOn _ _ g)⟩
              rw [Visit.eval, eval_goesOn, Visit.eval, Focus.eval, Body.eval_of_begin?_eq_none hnone]
          · next b r hsome =>
              obtain rfl := Option.some.inj h
              obtain ⟨heval, hrest⟩ := Body.eval_of_begin? (F := F) hsome next
              refine ⟨?_, fun g hg => hrest.trans hg⟩
              rw [Visit.eval, List.foldl_cons, Focus.eval, heval]
              rfl
      | inAll g next =>
          obtain rfl := Option.some.inj h
          exact ⟨rfl, fun _ => id⟩
  | asks g next => cases h
  | awaits g next => cases h
  | suspended b =>
      cases within with
      | nil => cases h
      | cons around rest =>
          obtain rfl := Option.some.inj h
          exact ⟨rfl, fun _ => id⟩
  | ended outcome =>
      cases within with
      | nil => cases h
      | cons around rest =>
          obtain rfl := Option.some.inj h
          refine ⟨?_, fun g hg => absurd hg (rest_closes _ _ _ g)⟩
          rw [Visit.eval, eval_closes]
          rfl
  | panicked p =>
      cases within with
      | nil => cases h
      | cons around rest =>
          obtain rfl := Option.some.inj h
          refine ⟨?_, fun g hg => absurd hg (rest_closes _ _ _ g)⟩
          rw [Visit.eval, eval_closes]
          rfl

/-- A poll that takes a step by itself stays on its way, unless it has suspended: then it leaves the task
that it is in with the body it has left. -/
theorem Visit.plain_of_turn? {v w : Visit ℓ α} (h : v.turn? = some w) :
    v.focus.isPlain = true ∧ w.focus.isPlain = true ∨
      ∃ b b', v.focus = .suspended b ∧ w.focus = .suspended b' ∧ b'.rest = b.rest := by
  obtain ⟨focus, within⟩ := v
  cases focus with
  | body b =>
      refine Or.inl ⟨rfl, ?_⟩
      cases b with
      | run p =>
          cases p with
          | ret outcome | panic p | await t next =>
              obtain rfl := Option.some.inj h
              rfl
          | leaf l next | all n hn inputs next => cases h
      | inTask t next =>
          simp only [turn?] at h
          split at h
          · obtain rfl := Option.some.inj h
            exact isPlain_goesOn _ next
          · obtain rfl := Option.some.inj h
            rfl
      | inAll g next =>
          obtain rfl := Option.some.inj h
          rfl
  | asks g next | awaits g next => cases h
  | suspended b =>
      cases within with
      | nil => cases h
      | cons around rest =>
          obtain rfl := Option.some.inj h
          exact Or.inr ⟨b, _, rfl, rfl, rfl⟩
  | ended outcome | panicked p =>
      refine Or.inl ⟨rfl, ?_⟩
      cases within with
      | nil => cases h
      | cons around rest =>
          obtain rfl := Option.some.inj h
          exact isPlain_closes _ _ _

end TaskDispatch.Grove
