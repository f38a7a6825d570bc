/-
Layers on a thread.

A thread that polls the outermost of some layers comes to polling the task in them by turns
of its own which leave the world alone (`Quietly`), and hands on what that poll came to by
such turns too.  Whatever other threads do between these turns makes no difference to them.
What the layers have put on the stack meanwhile lies below the poll of the task, which does
not see it (`turn?_append`).  So in every interleaving a poll through layers is a poll of the
task in them, on the same thread and with the same waker.
-/
import Mathlib.Logic.Relation
import TaskDispatch.Machine.Schedule
import TaskDispatch.Proofs.Task.Layers

namespace TaskDispatch.Machine

/-- A thread comes from here to there by turns of its own, each of which leaves any world as it finds it. -/
def Quietly : Thread → Thread → Prop := Relation.ReflTransGen fun a b => ∀ w : World, w.turn? a = some (w, b)

theorem quietly_of_turn {a b : Thread} (h : ∀ w : World, w.turn? a = some (w, b)) : Quietly a b := .single h

variable {who : Who} {waker : Waker} {stack : List Cont} {t u u' : BodyTask}

/-! ### What lies below on the stack -/

/-- A thread that can take a turn takes the same with more below on its stack. -/
theorem turn?_append {w w' : World} {who' : Who} {f f' : Focus} {conts conts' : List Cont}
    (h : w.turn? ⟨who, f, conts⟩ = some (w', ⟨who', f', conts'⟩)) (below : List Cont) :
    w.turn? ⟨who, f, conts ++ below⟩ = some (w', ⟨who', f', conts' ++ below⟩) := by
  have hreact : ∀ move rest, w.react? ⟨who, f, conts⟩ = some (move, rest) →
      w.react? ⟨who, f, conts ++ below⟩ = some (move, rest ++ below) := by
    intro move rest hr
    cases f with
    | run job =>
        simp only [World.react?, Option.map_eq_some_iff, Prod.mk.injEq] at hr ⊢
        obtain ⟨m, hm, rfl, rfl⟩ := hr
        exact ⟨m, hm, rfl, rfl⟩
    | give r =>
        cases conts with
        | nil => cases hr
        | cons c conts =>
            simp only [World.react?, List.cons_append, Option.map_eq_some_iff, Prod.mk.injEq] at hr ⊢
            obtain ⟨m, hm, rfl, rfl⟩ := hr
            exact ⟨m, hm, rfl, rfl⟩
    | fail p =>
        cases conts with
        | nil => cases hr
        | cons c conts =>
            cases hr
            rfl
  cases hr : w.react? ⟨who, f, conts⟩ with
  | none => simp [World.turn?, hr] at h
  | some next =>
      obtain ⟨move, rest⟩ := next
      simp only [World.turn?, hr, hreact move rest hr, Option.bind_eq_bind, Option.bind_some, Option.pure_def,
        Option.some.injEq, Prod.mk.injEq, Thread.mk.injEq] at h ⊢
      obtain ⟨rfl, rfl, rfl, rfl⟩ := h
      exact ⟨rfl, rfl, rfl, by rw [List.append_assoc]⟩

/-- A thread comes from here to there by turns of its own, each of which finds a world as others have left it
and leaves one. -/
inductive Works : Thread → List (World × World) → Thread → Prop
  | done (a : Thread) : Works a [] a
  | turn {a b c : Thread} {w w' : World} {turns : List (World × World)} (h : w.turn? a = some (w', b))
    (rest : Works b turns c) : Works a ((w, w') :: turns) c

/-- It does so with more below on its stack, too. -/
theorem Works.append {a c : Thread} {turns : List (World × World)} (h : Works a turns c) (below : List Cont) :
    Works ⟨a.who, a.focus, a.stack ++ below⟩ turns ⟨c.who, c.focus, c.stack ++ below⟩ := by
  induction h with
  | done a => exact .done _
  | turn h rest ih => exact .turn (turn?_append h below) ih

/-! ### One layer -/

/-- A poll of a layer becomes a poll of the task in it. -/
theorem quietly_into_layer (stage : Stage) (cell : Cell Value) :
    Quietly ⟨who, .run (.pollTask ⟨some ⟨stage, some (.layer u), cell⟩⟩ waker), stack⟩
      ⟨who, .run (.pollTask u waker), .layer :: .record ⟨.started, none, cell⟩ :: stack⟩ := by
  have hbegin : Quietly ⟨who, .run (.pollTask ⟨some ⟨stage, some (.layer u), cell⟩⟩ waker), stack⟩
      ⟨who, .run (.pollBody (.layer u) waker), .record ⟨.started, none, cell⟩ :: stack⟩ :=
    quietly_of_turn fun _ => rfl
  exact hbegin.trans (quietly_of_turn fun _ => rfl)

/-- A layer around a task that is pending suspends. -/
theorem quietly_out_pending (r : Record Body Value) :
    Quietly ⟨who, .give (.polled false u), .layer :: .record r :: stack⟩
      ⟨who, .give (.polled false ⟨some (r.suspend (.layer u))⟩), stack⟩ := by
  have hlayer : Quietly ⟨who, .give (.polled false u), .layer :: .record r :: stack⟩
      ⟨who, .give (.suspended (.layer u)), .record r :: stack⟩ :=
    quietly_of_turn fun _ => rfl
  exact hlayer.trans (quietly_of_turn fun _ => rfl)

/-- A layer around a task that is ready takes its outcome, and lets go of what is left of the task, which has
nothing to run. -/
theorem quietly_out_ready {o : Outcome Value} (htaken : u.takeOutcome = (.ok o, u')) (hover : u'.body? = none)
    (stage : Stage) :
    Quietly ⟨who, .give (.polled true u), .layer :: .record ⟨stage, none, .empty⟩ :: stack⟩
      ⟨who, .give (.polled true ⟨some ⟨.completed, none, .ofOutcome o⟩⟩), stack⟩ := by
  let below : List Cont := .resume (.give (.ended o)) :: .record ⟨stage, none, .empty⟩ :: stack
  have htake : Quietly ⟨who, .give (.polled true u), .layer :: .record ⟨stage, none, .empty⟩ :: stack⟩
      ⟨who, .run (.discard [.task u']), below⟩ :=
    quietly_of_turn fun _ => by
      simp [World.turn?, World.react?, World.resume?, World.ending, World.losing, htaken, below]
  have hlose : Quietly ⟨who, .run (.discard [.task u']), below⟩ ⟨who, .run (.discard []), below⟩ :=
    quietly_of_turn fun _ => by
      simp [World.turn?, World.react?, World.work?, World.discard, World.lose, World.runs, hover]
  have hlost : Quietly ⟨who, .run (.discard []), below⟩ ⟨who, .give .unit, below⟩ :=
    quietly_of_turn fun _ => rfl
  have hend : Quietly ⟨who, .give .unit, below⟩
      ⟨who, .give (.ended o), .record ⟨stage, none, .empty⟩ :: stack⟩ :=
    quietly_of_turn fun _ => rfl
  exact (htake.trans hlose).trans ((hlost.trans hend).trans (quietly_of_turn fun _ => rfl))

/-! ### Any number of layers -/

/-- A poll through layers comes down to the task in them, on the same thread and with the same waker, and what
its poll comes to goes up through the layers: pending, with the layers around what is left of the task, or
ready, with its outcome. -/
theorem quietly_through_layers {n : Nat} (h : Wraps .layer t n u) (who : Who) (waker : Waker)
    (stack : List Cont) :
    ∃ conts, Quietly ⟨who, .run (.pollTask u waker), stack⟩ ⟨who, .run (.pollTask t waker), conts ++ stack⟩ ∧
      (∀ who' t', ∃ u', Wraps .layer t' n u' ∧
        Quietly ⟨who', .give (.polled false t'), conts ++ stack⟩ ⟨who', .give (.polled false u'), stack⟩) ∧
      ∀ who' t' o, t'.takeOutcome.1 = .ok o → t'.takeOutcome.2.body? = none →
        ∃ u', u'.takeOutcome.1 = .ok o ∧ u'.takeOutcome.2.body? = none ∧
          Quietly ⟨who', .give (.polled true t'), conts ++ stack⟩ ⟨who', .give (.polled true u'), stack⟩ := by
  induction h generalizing stack with
  | bare => exact ⟨[], .refl, fun _ t' => ⟨t', .bare, .refl⟩, fun _ t' o ho hover => ⟨t', ho, hover, .refl⟩⟩
  | @around stage n u hstage h ih =>
      let frame : List Cont := [.layer, .record ⟨.started, none, .empty⟩]
      obtain ⟨conts, hinto, hpending, hready⟩ := ih (frame ++ stack)
      refine ⟨conts ++ frame, ?_, ?_, ?_⟩
      · rw [List.append_assoc]
        exact (quietly_into_layer stage .empty).trans hinto
      · intro who' t'
        obtain ⟨u', hwraps, hout⟩ := hpending who' t'
        refine ⟨_, .around .started nofun hwraps, ?_⟩
        rw [List.append_assoc]
        exact hout.trans (quietly_out_pending ⟨.started, none, .empty⟩)
      · intro who' t' o ho hover
        obtain ⟨u', hu, hgone, hout⟩ := hready who' t' o ho hover
        refine ⟨⟨some ⟨.completed, none, .ofOutcome o⟩⟩, Cell.take_ofOutcome o, rfl, ?_⟩
        rw [List.append_assoc]
        exact hout.trans (quietly_out_ready (Prod.ext hu rfl) hgone .started)

/-- **A poll through layers is a poll of the task in them.**  If a thread can poll the task so, in the worlds
that it finds at its turns, it polls the outermost layer in these turns too, after and before turns that leave
every world alone; and it hands on what the poll came to: pending, with the layers around what is left of the
task, or ready, with the same outcome. -/
theorem works_through_layers {n : Nat} (h : Wraps .layer t n u) (stack : List Cont) {who' : Who}
    {turns : List (World × World)} {ready : Bool} {t' : BodyTask}
    (hworks : Works ⟨who, .run (.pollTask t waker), []⟩ turns ⟨who', .give (.polled ready t'), []⟩)
    (hready : ready = true → (∃ o, t'.takeOutcome.1 = .ok o) ∧ t'.takeOutcome.2.body? = none) :
    ∃ a b u', Quietly ⟨who, .run (.pollTask u waker), stack⟩ a ∧ Works a turns b ∧
      Quietly b ⟨who', .give (.polled ready u'), stack⟩ ∧
      (ready = false → Wraps .layer t' n u') ∧ (ready = true → u'.takeOutcome.1 = t'.takeOutcome.1) := by
  obtain ⟨conts, hinto, hpending, hout⟩ := quietly_through_layers h who waker stack
  have hthere := hworks.append (conts ++ stack)
  cases ready with
  | false =>
      obtain ⟨u', hwraps, hup⟩ := hpending who' t'
      exact ⟨_, _, u', hinto, hthere, hup, fun _ => hwraps, nofun⟩
  | true =>
      obtain ⟨⟨o, ho⟩, hover⟩ := hready rfl
      obtain ⟨u', hu, -, hup⟩ := hout who' t' o ho hover
      exact ⟨_, _, u', hinto, hthere, hup, nofun, fun _ => hu.trans ho.symm⟩

end TaskDispatch.Machine
