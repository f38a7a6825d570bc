/-
Layers around a task.

A layer is a task whose body only awaits another task, by value.  Nothing is known of any
other body: what a poll of it does, and comes to, is a parameter (`run`), which sees the
context of the poll and may change the world.  A poll of the outermost task goes down through
the layers to the innermost, and what that comes to goes up again: each layer takes the
outcome of the task in it and ends with it as its own.

Kept along are the polls of bodies other than layers, with their contexts, and the panics
that tasks have captured.  With or without layers these are the same, poll after poll
(`Wraps.pollTask`).  That the turns of a thread which polls layers come to the same is said
in `TaskDispatch.Proofs.Task.LayersAtWork`.
-/
import TaskDispatch.Proofs.Transfer.Passage

namespace TaskDispatch

variable {β α ω σ : Type}

/-- Around this task there are so many layers, each suspended or yet to be polled. -/
inductive Wraps (layer : Task β α → β) (t : Task β α) : Nat → Task β α → Prop
  | bare : Wraps layer t 0 t
  | around (stage : Stage) {n : Nat} {u : Task β α} (hstage : stage ≠ .completed) (h : Wraps layer t n u) :
    Wraps layer t (n + 1) ⟨some ⟨stage, some (layer u), .empty⟩⟩

theorem wraps_repeat (layer : Task β α → β) (t : Task β α) (n : Nat) :
    Wraps layer t n (n.repeat (fun u => .new (layer u)) t) := by
  induction n with
  | zero => exact .bare
  | succ n ih => exact .around .created nofun ih

/-- A body of any other kind, or a layer. -/
inductive Layered (β α : Type) where
  | core (body : β)
  | layer (t : Task (Layered β α) α)

/-- What polls leave behind: the world, each poll of a body that is no layer, with its context, and each
panic that a task has captured. -/
structure Traces (β ω σ : Type) where
  world : σ
  visits : List (ω × β) := []
  captured : List Panic := []

/-- A task keeps a panic of its body. -/
def Traces.capture (s : Traces β ω σ) : Polled (Layered β α) α → Traces β ω σ
  | .panicked p => { s with captured := s.captured ++ [p] }
  | .suspended _ | .ended _ => s

namespace Layered

/-- What a poll of such a body comes to. -/
def ofCore : Polled β α → Polled (Layered β α) α
  | .suspended body => .suspended (.core body)
  | .ended outcome => .ended outcome
  | .panicked p => .panicked p

/-- What a poll of a layer comes to, when its poll of the task in it has come to this. -/
def relayed : Except Panic (Bool × Task (Layered β α) α) → Polled (Layered β α) α
  | .error p => .panicked p
  | .ok (false, t) => .suspended (.layer t)
  | .ok (true, t) =>
    match t.takeOutcome.1 with
    | .ok outcome => .ended outcome
    | .error p => .panicked p

section

variable (run : ω → β → σ → Polled β α × σ)

/-- Polls a body. -/
def poll (c : ω) : Layered β α → Traces β ω σ → Polled (Layered β α) α × Traces β ω σ
  | .core b, s =>
    let (r, world) := run c b s.world
    (ofCore r, { s with world, visits := s.visits ++ [(c, b)] })
  | .layer ⟨some ⟨stage, some b, cell⟩⟩, s =>
    let (r, s) := b.poll c s
    (relayed (Task.polled ⟨some ⟨stage, some b, cell⟩⟩ r), s.capture r)
  | .layer t, s => (relayed (.ok (true, t)), s)

/-- Polls a task, and so its body, if it has one. -/
def pollTask (c : ω) (t : Task (Layered β α) α) (s : Traces β ω σ) :
    Except Panic (Bool × Task (Layered β α) α) × Traces β ω σ :=
  match t.begin? with
  | none => (.ok (true, t), s)
  | some (b, _) =>
    let (r, s) := b.poll run c s
    (t.polled r, s.capture r)

/-- What somebody who awaits the task by value gets at each of these polls, until there is something: nothing
while the task is pending, and then the outcome. -/
def answers (t : Task (Layered β α) α) : List ω → Traces β ω σ →
    List (Option (Except Panic (Outcome α))) × Traces β ω σ
  | [], s => ([], s)
  | c :: rest, s =>
    match pollTask run c t s with
    | (.error p, s) => ([some (.error p)], s)
    | (.ok (true, t), s) => ([some t.takeOutcome.1], s)
    | (.ok (false, t), s) =>
      let (more, s) := answers t rest s
      (none :: more, s)

variable {run}

/-- A poll of a layer is a poll of the task in it. -/
theorem poll_layer (c : ω) (t : Task (Layered β α) α) (s : Traces β ω σ) :
    (layer t).poll run c s = (relayed (pollTask run c t s).1, (pollTask run c t s).2) := by
  match t with
  | ⟨none⟩ | ⟨some ⟨_, none, _⟩⟩ | ⟨some ⟨_, some _, _⟩⟩ => rfl

/-- A poll of a task that is over runs nothing. -/
theorem pollTask_of_over {t : Task (Layered β α) α} (h : t.Over) (c : ω) (s : Traces β ω σ) :
    pollTask run c t s = (.ok (true, t), s) := by
  rw [pollTask, h.2]

theorem pollTask_of_runs {t : Task (Layered β α) α} {b : Layered β α} (h : t.Runs b) (c : ω)
    (s : Traces β ω σ) : pollTask run c t s =
      (t.polled (b.poll run c s).1, (b.poll run c s).2.capture (b.poll run c s).1) := by
  rw [pollTask, h.begin?]

variable (run) in
/-- A poll of an unspent task leaves it unspent and pending, or ready with an outcome. -/
theorem pollTask_of_unspent {t : Task (Layered β α) α} (h : t.Unspent) (c : ω) (s : Traces β ω σ) :
    ∃ ready t' s', pollTask run c t s = (.ok (ready, t'), s') ∧
      (ready = false → t'.Unspent) ∧ (ready = true → ∃ o, t'.takeOutcome.1 = .ok o) := by
  rcases h with ⟨b, hruns⟩ | ⟨hover, o, hresult⟩
  · rw [pollTask_of_runs hruns]
    rcases Task.Unspent.polled (Or.inl ⟨b, hruns⟩) (b.poll run c s).1 with
      ⟨t', hpolled, hunspent, -⟩ | ⟨t', o, hpolled, htaken, -⟩
    · exact ⟨false, t', _, by rw [hpolled], fun _ => hunspent, nofun⟩
    · exact ⟨true, t', _, by rw [hpolled], nofun, fun _ => ⟨o, htaken⟩⟩
  · exact ⟨true, t, s, pollTask_of_over hover c s, nofun, fun _ => ⟨o, Task.takeOutcome_of_result hresult⟩⟩

end

end Layered

open Layered

variable {run : ω → β → σ → Polled β α × σ}

/-- **One poll through layers** is a poll of the task in them: it leaves the same behind, is as ready, and
then has the same outcome. -/
theorem Wraps.pollTask {t u : Task (Layered β α) α} {n : Nat} (h : Wraps .layer t n u) (c : ω)
    {s s' : Traces β ω σ} {ready : Bool} {t' : Task (Layered β α) α}
    (ht : pollTask run c t s = (.ok (ready, t'), s'))
    (houtcome : ready = true → ∃ o, t'.takeOutcome.1 = .ok o) :
    ∃ u', Layered.pollTask run c u s = (.ok (ready, u'), s') ∧
      (ready = false → Wraps .layer t' n u') ∧ (ready = true → u'.takeOutcome.1 = t'.takeOutcome.1) := by
  induction h with
  | bare => exact ⟨t', ht, fun _ => .bare, fun _ => rfl⟩
  | @around stage n u hstage h ih =>
      obtain ⟨u', hu, hpending, hready⟩ := ih
      have hruns : (⟨some ⟨stage, some (layer u), .empty⟩⟩ : Task (Layered β α) α).Runs (layer u) :=
        ⟨stage, hstage, rfl⟩
      rw [pollTask_of_runs hruns, poll_layer, hu]
      cases ready with
      | false => exact ⟨_, rfl, fun _ => .around .started nofun (hpending rfl), nofun⟩
      | true =>
          obtain ⟨o, ho⟩ := houtcome rfl
          -- The layer ends with the outcome of the task in it, so there is nothing to capture.
          have hrelayed : relayed (.ok (true, u')) = .ended o := by rw [relayed, hready rfl, ho]
          obtain ⟨v, hv, -, hresult⟩ := hruns.ended (r := .ended o) rfl
          refine ⟨v, ?_, nofun, fun _ => ?_⟩
          · simp only [hrelayed, hv, Traces.capture]
          · rw [Task.takeOutcome_of_result hresult, ho]

/-- Any polls. -/
theorem Wraps.answers {t u : Task (Layered β α) α} {n : Nat} (h : Wraps .layer t n u) (hunspent : t.Unspent)
    (contexts : List ω) (s : Traces β ω σ) : Layered.answers run u contexts s = answers run t contexts s := by
  induction contexts generalizing t u s with
  | nil => rfl
  | cons c rest ih =>
      obtain ⟨ready, t', s', ht, hpending, houtcome⟩ := pollTask_of_unspent run hunspent c s
      obtain ⟨u', hu, hwraps, hsame⟩ := h.pollTask c ht houtcome
      rw [Layered.answers, Layered.answers, ht, hu]
      cases ready with
      | false => simp only [ih (hwraps rfl) (hpending rfl)]
      | true => simp only [hsame rfl]

/-- **Layers are transparent.**  Around a task that nobody has taken the value of, new, suspended, ready,
failed or empty, any number of layers makes no difference to whoever awaits it, whatever its body does: at
each poll, with whatever context, the outermost task is pending exactly if the innermost would be, and gets
the same outcome in the end.  The polls leave the same behind: the world, the polls of the innermost body
with their contexts, and the panics that were captured, so that no layer captures one again. -/
theorem layers_are_transparent (run : ω → β → σ → Polled β α × σ) (n : Nat) {t : Task (Layered β α) α}
    (h : t.Unspent) (contexts : List ω) (s : Traces β ω σ) :
    answers run (n.repeat (fun u => .new (.layer u)) t) contexts s = answers run t contexts s :=
  (wraps_repeat .layer t n).answers h contexts s

/-- Three layers around a body that suspends once, with waker 8, and panics when it is polled with waker 9:
it is polled twice, and its panic is captured once. -/
theorem layers_are_transparent_three_around_a_panic :
    let p : Panic := .text "boom"
    let run : Nat → Nat → Nat → Polled Nat Nat × Nat := fun _ b world =>
      (if b = 0 then .suspended 1 else .panicked p, world + 1)
    let t : Task (Layered Nat Nat) Nat := .new (.core 0)
    t.Unspent ∧
      answers run (Nat.repeat (fun u => .new (.layer u)) 3 t) [8, 9] ⟨0, [], []⟩ =
        ([none, some (.ok (.error p.toError))], ⟨2, [(8, 0), (9, 1)], [p]⟩) := by
  intro p run t
  have hunspent : t.Unspent := Or.inl ⟨_, Task.runs_new _⟩
  exact ⟨hunspent, layers_are_transparent run 3 hunspent [8, 9] ⟨0, [], []⟩⟩

end TaskDispatch
