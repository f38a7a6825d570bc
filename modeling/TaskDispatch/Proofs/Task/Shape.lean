/-
What a task's record can be, after given polls of its body.

A task is made with a body or with its outcome.  Until the body is polled the record is
as it was made; after a poll that suspends it has the body that the poll has left; and
after a poll that ends the body, or panics, it has the outcome for good, of which a
reader may take the value away.  `Fits` says so, one case for each shape, and no poll and
no reader leads out of it.  Which shape it is can be told from the polls, so a record
never goes back.
-/
import TaskDispatch.Proofs.Frame.Hosted

namespace TaskDispatch

variable {β α : Type}

/-- Whether the poll has left a body to go on with. -/
def Polled.isSuspended (r : Polled β α) : Bool := r.body?.isSome

/-- The stages in the order in which a record goes through them. -/
def Stage.rank : Stage → Nat
  | created => 0
  | started => 1
  | completed => 2

/-- The record has a shape that goes with its stage, and these were the polls of its body. -/
def Record.Shaped (r : Record β α) (polls : List (Polled β α)) : Prop :=
  match r.stage with
  | .created => r.body.isSome = true ∧ r.cell = .empty ∧ polls = []
  | .started => r.body.isSome = true ∧ r.cell = .empty ∧ polls ≠ [] ∧ ∀ p ∈ polls, p.isSuspended = true
  | .completed => r.body = none ∧ r.cell ≠ .empty

/-- What a task is made with. -/
inductive Origin (β α : Type) where
  | body (b : β)
  | value (v : α)
  | error (e : Error)

/-- The task as it is made. -/
def Origin.task : Origin β α → Task β α
  | body b => .new b
  | value v => .ready v
  | error e => .failed e

/-- Whether there is nothing to run. -/
def Origin.isOver : Origin β α → Bool
  | body _ => false
  | value _ | error _ => true

/-- What a poll of the task adds to the polls of its body. -/
def Task.heard (t : Task β α) (r : Polled β α) : List (Polled β α) := if t.begin?.isSome then [r] else []

/-- The task that was made so, after these polls of its body. -/
inductive Fits : Origin β α → List (Polled β α) → Task β α → Prop
  | created (b : β) : Fits (.body b) [] ⟨some ⟨.created, some b, .empty⟩⟩
  | started (b : β) {polls : List (Polled β α)} (next : β) (hpolls : ∀ p ∈ polls, p.isSuspended = true) :
    Fits (.body b) (polls ++ [.suspended next]) ⟨some ⟨.started, some next, .empty⟩⟩
  | ended (b : β) {polls : List (Polled β α)} {last : Polled β α} {cell : Cell α}
    (hpolls : ∀ p ∈ polls, p.isSuspended = true) (hlast : last.isSuspended = false)
    (hcell : cell ≠ .empty) : Fits (.body b) (polls ++ [last]) ⟨some ⟨.completed, none, cell⟩⟩
  | given {o : Origin β α} {cell : Cell α} (hover : o.isOver = true) (hcell : cell ≠ .empty) :
    Fits o [] ⟨some ⟨.completed, none, cell⟩⟩

theorem Cell.ofOutcome_ne_empty (outcome : Outcome α) : Cell.ofOutcome outcome ≠ .empty := by
  cases outcome <;> simp [Cell.ofOutcome]

/-- Whoever takes from a cell that was written finds it written, and leaves it so. -/
theorem Cell.take_of_ne_empty {c : Cell α} (h : c ≠ .empty) :
    c.take.1 ≠ .error .readTooEarly ∧ c.take.2 ≠ .empty := by
  cases c with
  | empty => exact absurd rfl h
  | value v => exact ⟨nofun, nofun⟩
  | error e => exact ⟨nofun, nofun⟩
  | consumed =>
      have htexts : Panic.alreadyTaken ≠ Panic.readTooEarly := by decide
      exact ⟨fun h => htexts (Except.error.inj h), nofun⟩

namespace Fits

variable {o : Origin β α} {polls more : List (Polled β α)} {t t' : Task β α}

theorem of_origin (o : Origin β α) : Fits o [] o.task := by
  cases o with
  | body b => exact .created b
  | value v => exact .given rfl nofun
  | error e => exact .given rfl nofun

/-! ### What can be read off -/

theorem isEmpty (h : Fits o polls t) : t.isEmpty = false := by
  cases h <;> rfl

theorem shaped (h : Fits o polls t) {r : Record β α} (hr : t.record = some r) : r.Shaped polls := by
  cases h with
  | created b =>
      obtain rfl := Option.some.inj hr
      exact ⟨rfl, rfl, rfl⟩
  | started b next hpolls =>
      obtain rfl := Option.some.inj hr
      refine ⟨rfl, rfl, by simp, fun p hp => ?_⟩
      rcases List.mem_append.mp hp with hold | hnew
      · exact hpolls p hold
      · rw [List.mem_singleton.mp hnew]
        rfl
  | ended b hpolls hlast hcell =>
      obtain rfl := Option.some.inj hr
      exact ⟨rfl, hcell⟩
  | given hover hcell =>
      obtain rfl := Option.some.inj hr
      exact ⟨rfl, hcell⟩

/-- A task counts as ready exactly if a poll has no body to run. -/
theorem isReady_iff (h : Fits o polls t) : t.isReady = true ↔ t.begin? = none := by
  cases h with
  | created b | started b next hpolls => exact iff_of_false nofun nofun
  | ended b hpolls hlast hcell | given hover hcell => exact iff_of_true rfl rfl

/-- No poll came after one that did not suspend. -/
theorem suspended_of_mem (h : Fits o polls t) : ∀ p ∈ polls.dropLast, p.isSuspended = true := by
  cases h with
  | created b | given hover hcell => exact nofun
  | started b next hpolls | ended b hpolls hlast hcell =>
      rw [List.dropLast_concat]
      exact hpolls

/-- Between polls the task is as its owner keeps it. -/
theorem sound (h : Fits o polls t) : t.Sound := by
  cases h with
  | created b => exact Or.inr ⟨b, .created, nofun, rfl⟩
  | started b next hpolls => exact Or.inr ⟨next, .started, nofun, rfl⟩
  | ended b hpolls hlast hcell | given hover hcell => exact Or.inl ⟨rfl, rfl⟩

/-! ### What a poll and a reader do -/

/-- **A poll of the task is no panic**, and runs a body only if there is one. -/
theorem polled (h : Fits o polls t) (r : Polled β α) :
    ∃ t', t.polled r = .ok (t'.isReady, t') ∧ Fits o (polls ++ t.heard r) t' := by
  -- A body runs: the poll comes after polls that all have suspended.
  have hruns : ∀ (b : β) (body : β) (stage : Stage), o = .body b → (∀ p ∈ polls, p.isSuspended = true) →
      t = ⟨some ⟨stage, some body, .empty⟩⟩ →
      ∃ t', t.polled r = .ok (t'.isReady, t') ∧ Fits o (polls ++ t.heard r) t' := by
    rintro b body stage rfl hpolls rfl
    cases r with
    | suspended next => exact ⟨_, rfl, .started b next hpolls⟩
    | ended outcome => exact ⟨_, rfl, .ended b hpolls rfl (Cell.ofOutcome_ne_empty outcome)⟩
    | panicked p => exact ⟨_, rfl, .ended b hpolls rfl (Cell.ofOutcome_ne_empty (.error p.toError))⟩
  cases h with
  | created b => exact hruns b b .created rfl nofun rfl
  | started b next hpolls =>
      refine hruns b next .started rfl (fun p hp => ?_) rfl
      rcases List.mem_append.mp hp with hold | hnew
      · exact hpolls p hold
      · rw [List.mem_singleton.mp hnew]
        rfl
  | @ended b polls last cell hpolls hlast hcell =>
      refine ⟨⟨some ⟨.completed, none, cell⟩⟩, rfl, ?_⟩
      rw [Task.heard, if_neg (by simp [Task.begin?]), List.append_nil]
      exact .ended b hpolls hlast hcell
  | @given _ cell hover hcell => exact ⟨⟨some ⟨.completed, none, cell⟩⟩, rfl, .given hover hcell⟩

/-- **Whoever takes the outcome of a ready task does not come too early**, and the record stays in shape. -/
theorem takeOutcome (h : Fits o polls t) (hready : t.isReady = true) :
    t.takeOutcome.1 ≠ .error .readTooEarly ∧ Fits o polls t.takeOutcome.2 := by
  cases h with
  | created b => cases hready
  | started b next hpolls => cases hready
  | ended b hpolls hlast hcell =>
      obtain ⟨hread, hleft⟩ := Cell.take_of_ne_empty hcell
      exact ⟨hread, .ended b hpolls hlast hleft⟩
  | given hover hcell =>
      obtain ⟨hread, hleft⟩ := Cell.take_of_ne_empty hcell
      exact ⟨hread, .given hover hleft⟩

/-! ### Forward only -/

/-- **More polls never bring a record back to a stage before.** -/
theorem rank_le (h : Fits o polls t) (h' : Fits o more t') (hmore : polls <+: more) {r r' : Record β α}
    (hr : t.record = some r) (hr' : t'.record = some r') : r.stage.rank ≤ r'.stage.rank := by
  cases h with
  | created b =>
      obtain rfl := Option.some.inj hr
      exact Nat.zero_le _
  | started b next hpolls =>
      obtain rfl := Option.some.inj hr
      cases h' with
      | created b | given hover hcell => simp at hmore
      | started b next' hpolls' =>
          obtain rfl := Option.some.inj hr'
          exact Nat.le_refl _
      | ended b hpolls' hlast hcell =>
          obtain rfl := Option.some.inj hr'
          exact Nat.le_succ _
  | ended b hpolls hlast hcell =>
      obtain rfl := Option.some.inj hr
      -- The poll that ended the body is the last of the longer list as well.
      have hend := List.prefix_iff_eq_append.mp hmore
      generalize more.drop _ = rest at hend
      cases rest with
      | nil =>
          rw [List.append_nil] at hend
          cases h' with
          | created b | given hover hcell => simp at hend
          | started b next' hpolls' =>
              obtain ⟨-, hsame⟩ := List.append_inj' hend rfl
              obtain rfl := List.singleton_inj.mp hsame
              cases hlast
          | ended b hpolls' hlast' hcell' =>
              obtain rfl := Option.some.inj hr'
              exact Nat.le_refl _
      | cons p rest =>
          have hmem := h'.suspended_of_mem
          rw [← hend, List.append_assoc, List.singleton_append, List.dropLast_append_of_ne_nil (by simp),
            List.dropLast_cons_of_ne_nil (by simp)] at hmem
          have hlast' := hmem _ (List.mem_append_right _ List.mem_cons_self)
          rw [hlast] at hlast'
          cases hlast'
  | given hover hcell =>
      obtain rfl := Option.some.inj hr
      cases h' with
      | created b | started b next' hpolls' | ended b hpolls' hlast' hcell' => cases hover
      | given hover' hcell' =>
          obtain rfl := Option.some.inj hr'
          exact Nat.le_refl _

end Fits

end TaskDispatch
