/-
A finished body that panics as it goes.

A poll that ends a body lets go of the body, writes the outcome and completes the record, in
this order.  What the body still holds when it has finished goes with it, and may panic; the
panic leaves the poll after the first step.  Then the body is gone, nothing is written, and
the record counts as started: the task is stranded.  The outcome is lost.  A later poll finds
no body to run and takes the task for ready, while the task itself says that it is not, and
whoever reads it panics.

A body that goes without a panic completes its task in one piece, whatever its polls came to
before.
-/
import TaskDispatch.Proofs.Task.Readings
import TaskDispatch.Proofs.Task.Shape

namespace TaskDispatch

variable {β α : Type}

/-- One poll of a task: what the poll of its body comes to, and the panic with which the body goes if that
poll has finished it, if it goes with one. -/
structure Turn (β α : Type) where
  poll : Polled β α
  parting : Option Panic := none

namespace Task

/-- What a poll comes to, and the task after it, also if the body panics as it goes. -/
def pollThrough (t : Task β α) (u : Turn β α) : Except Panic Bool × Task β α :=
  match t.begin?, u.poll.outcome?, u.parting with
  | some (_, record), some _, some p => (.error p, ⟨some record.discardBody⟩)
  | _, _, _ =>
    match t.polled u.poll with
    | .ok (ready, t') => (.ok ready, t')
    | .error p => (.error p, t)

/-- The task after polls, one after another. -/
def through (t : Task β α) (turns : List (Turn β α)) : Task β α :=
  turns.foldl (fun t u => (t.pollThrough u).2) t

/-- The body is gone, and there is no outcome: nothing was written, or somebody came too early. -/
def Stranded (t : Task β α) : Prop :=
  ∃ cell : Cell α, (cell = .empty ∨ cell = .consumed) ∧ t = ⟨some ⟨.started, none, cell⟩⟩

/-! ### One poll -/

/-- Where no body panics as it goes, a poll is the usual one. -/
theorem pollThrough_of_polled {t t' : Task β α} {u : Turn β α} {ready : Bool}
    (hquiet : u.poll.outcome? = none ∨ u.parting = none) (h : t.polled u.poll = .ok (ready, t')) :
    t.pollThrough u = (.ok ready, t') := by
  rw [pollThrough, h]
  rcases hquiet with hnone | hnone <;> simp [hnone]

/-- A task that has nothing to run stays as it is. -/
theorem pollThrough_of_idle {t : Task β α} (h : t.begin? = none) (u : Turn β α) :
    t.pollThrough u = (.ok true, t) := by
  simp [pollThrough, Task.polled, h]

/-- A finished body that panics as it goes leaves its task stranded, and the poll panics. -/
theorem Runs.pollThrough_of_parting {t : Task β α} {b : β} (h : t.Runs b) {u : Turn β α} {out : Outcome α}
    {p : Panic} (hout : u.poll.outcome? = some out) (hparting : u.parting = some p) :
    t.pollThrough u = (.error p, ⟨some ⟨.started, none, .empty⟩⟩) := by
  rw [pollThrough, h.begin?, hout, hparting]
  rfl

/-! ### Any polls -/

theorem through_of_idle {t : Task β α} (h : t.begin? = none) (turns : List (Turn β α)) : t.through turns = t := by
  induction turns with
  | nil => rfl
  | cons u rest ih =>
      have hsame : (t.pollThrough u).2 = t := by rw [pollThrough_of_idle h]
      rw [through, List.foldl_cons, hsame]
      exact ih

theorem through_append (t : Task β α) (before after : List (Turn β α)) :
    t.through (before ++ after) = (t.through before).through after := List.foldl_append

/-- While its polls suspend, a task has a body to run. -/
theorem Runs.through {t : Task β α} {b : β} (h : t.Runs b) {turns : List (Turn β α)}
    (hsuspended : ∀ u ∈ turns, u.poll.isSuspended = true) : ∃ b', (t.through turns).Runs b' := by
  induction turns generalizing t b with
  | nil => exact ⟨b, h⟩
  | cons u rest ih =>
      obtain ⟨hu, hrest⟩ := List.forall_mem_cons.mp hsuspended
      cases hr : u.poll with
      | suspended next =>
          obtain ⟨t', hpolled, hruns⟩ := h.suspended next
          have hgo : (t.pollThrough u).2 = t' := by
            rw [pollThrough_of_polled (Or.inl (by rw [hr]; rfl)) (hr ▸ hpolled)]
          rw [Task.through, List.foldl_cons, hgo]
          exact ih hruns hrest
      | ended o | panicked p =>
          rw [hr] at hu
          cases hu

/-! ### A stranded task -/

/-- **A stranded task stays stranded**, however it is read: polls take it for ready, it is not, and there is a
panic in place of an outcome. -/
theorem Stranded.reply {t : Task β α} (h : t.Stranded) (rd : Reading β α) :
    (t.reply rd).2.Stranded ∧ t.isReady = false ∧ (∀ r, (t.reply (.wait r)).1 = .ready true) ∧
      ∃ p, t.result = .error p ∧ t.takeOutcome.1 = .error p := by
  obtain ⟨cell, hcell, rfl⟩ := h
  refine ⟨?_, rfl, fun _ => rfl, ?_⟩
  · cases rd with
    | look | ask | wait r => exact ⟨cell, hcell, rfl⟩
    | claim r =>
        refine ⟨cell.take.2, Or.inr ?_, rfl⟩
        rcases hcell with rfl | rfl <;> rfl
  · rcases hcell with rfl | rfl
    · exact ⟨.readTooEarly, rfl, rfl⟩
    · exact ⟨.alreadyTaken, rfl, rfl⟩

theorem Stranded.after {t : Task β α} (h : t.Stranded) (readings : List (Reading β α)) :
    (t.after readings).Stranded := by
  induction readings generalizing t with
  | nil => exact h
  | cons rd rest ih => exact ih (h.reply rd).1

/-! ### What becomes of a task -/

/-- The first poll that does not suspend, if there is one. -/
theorem exists_first_end (turns : List (Turn β α)) :
    (∀ u ∈ turns, u.poll.isSuspended = true) ∨
      ∃ before u after, turns = before ++ u :: after ∧ (∀ v ∈ before, v.poll.isSuspended = true) ∧
        ∃ out, u.poll.outcome? = some out := by
  induction turns with
  | nil => exact Or.inl nofun
  | cons u rest ih =>
      cases hr : u.poll.body? with
      | none => exact Or.inr ⟨[], u, rest, rfl, nofun, Polled.exists_outcome hr⟩
      | some b =>
          have hu : u.poll.isSuspended = true := by rw [Polled.isSuspended, hr]; rfl
          rcases ih with hall | ⟨before, v, after, rfl, hbefore, hout⟩
          · exact Or.inl (List.forall_mem_cons.mpr ⟨hu, hall⟩)
          · exact Or.inr ⟨u :: before, v, after, rfl, List.forall_mem_cons.mpr ⟨hu, hbefore⟩, hout⟩

/-- **A task completes in one piece unless its body panics as it goes.**  Whatever the polls of the body come
to, one of three things holds after them.

* All of them have suspended: the task has a body to run.
* The first that did not has brought an outcome, and the body went without a panic: the task is completed,
  has no body, and keeps that outcome.
* The body panicked as it went: that poll panics with it, and the task has no body, no outcome and is not
  completed, and so it stays, however it is read.  Every poll takes it for ready, it says that it is not, and
  who reads it panics; the outcome that the body came to is lost. -/
theorem completes_in_one_piece_unless_the_body_panics_as_it_goes (b : β) (turns : List (Turn β α)) :
    let t := (new b : Task β α).through turns
    ((∀ u ∈ turns, u.poll.isSuspended = true) ∧ ∃ b', t.Runs b') ∨
    ∃ before u after out, turns = before ++ u :: after ∧ (∀ v ∈ before, v.poll.isSuspended = true) ∧
      u.poll.outcome? = some out ∧
      ((u.parting = none ∧ t.Keeps out false) ∨
        ∃ p, u.parting = some p ∧ (((new b : Task β α).through before).pollThrough u).1 = .error p ∧
          t = ⟨some ⟨.started, none, .empty⟩⟩ ∧
          ∀ readings, let v := t.after readings
            v.isReady = false ∧ (∀ r, (v.reply (.wait r)).1 = .ready true) ∧
              ∃ q, v.result = .error q ∧ v.takeOutcome.1 = .error q) := by
  intro t
  rcases exists_first_end turns with hall | ⟨before, u, after, rfl, hbefore, out, hout⟩
  · exact Or.inl ⟨hall, (runs_new b).through hall⟩
  · right
    obtain ⟨b', hruns⟩ := (runs_new b : (new b : Task β α).Runs b).through hbefore
    have hsplit : t = (((new b).through before).pollThrough u).2.through after :=
      through_append _ before (u :: after)
    refine ⟨before, u, after, out, rfl, hbefore, hout, ?_⟩
    cases hparting : u.parting with
    | none =>
        obtain ⟨t', hpolled, hkeeps⟩ := hruns.keeps hout
        rw [pollThrough_of_polled (Or.inr hparting) hpolled, through_of_idle hkeeps.isOver.2] at hsplit
        exact Or.inl ⟨rfl, hsplit ▸ hkeeps⟩
    | some p =>
        have hgo := hruns.pollThrough_of_parting hout hparting
        rw [hgo, through_of_idle rfl] at hsplit
        have hstranded : t.Stranded := ⟨.empty, Or.inl rfl, hsplit⟩
        refine Or.inr ⟨p, rfl, by rw [hgo], hsplit, fun readings => ?_⟩
        exact ((hstranded.after readings).reply .look).2

/-- A body comes to 7 and panics as it goes.  The next poll takes its task for ready, which it says it is not,
and the 7 is nowhere to be read. -/
theorem stranded_by_a_body_that_panics_as_it_goes :
    let t : Task Nat Nat := (new 0).through [⟨.ended (.ok 7), some (.text "boom")⟩]
    t = ⟨some ⟨.started, none, .empty⟩⟩ ∧ t.isReady = false ∧
      t.pollThrough ⟨.suspended 0, none⟩ = (.ok true, t) ∧ t.result = .error .readTooEarly ∧
      t.takeOutcome.1 = .error .readTooEarly :=
  ⟨rfl, rfl, rfl, rfl, rfl⟩

end Task

end TaskDispatch
