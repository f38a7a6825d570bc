/-
The loop's sweep is `Queue.removeCancelled`, one question a step.

`removeCancelled` asks every timer of a queue in one go.  The timer thread asks one
timer a step, so that anything can happen between two questions, and serves what goes
as it goes along.  Given the same answers, whatever they are, both hand over the same
timers and leave the same queue.
-/
import TaskDispatch.Proofs.Interleaving
import TaskDispatch.Timer.Turn

namespace TaskDispatch.Timer

variable {α : Type}

/-- Answers a question with the next of the answers laid out; when there are none left it is no. -/
def nextAnswer : StateM (List Bool) Bool := fun answers => (answers.headD false, answers.tail)

namespace Queue

/-- What goes and what stays of a container, with these answers. -/
def siftedWith (answers : List Bool) (list : List (Entry α)) : List (Entry α) × List (Entry α) :=
  ((sift (fun _ => nextAnswer) list).run answers).1

/-- What `removeCancelled` hands over and leaves, with these answers. -/
def sweptWith (q : Queue α) (answers : List Bool) : List (Handed α) × Queue α :=
  ((q.removeCancelled fun _ => nextAnswer).run answers).1

theorem siftedWith_nil (answers : List Bool) :
    siftedWith answers ([] : List (Entry α)) = ([], []) :=
  rfl

theorem siftedWith_cons (answers : List Bool) (e : Entry α) (rest : List (Entry α)) :
    siftedWith answers (e :: rest) =
      if answers.headD false then
        (e :: (siftedWith answers.tail rest).1, (siftedWith answers.tail rest).2)
      else ((siftedWith answers.tail rest).1, e :: (siftedWith answers.tail rest).2) :=
  rfl

/-- A container takes one answer a timer. -/
theorem run_sift (answers : List Bool) (list : List (Entry α)) :
    ((sift (fun _ => nextAnswer) list).run answers).2 = answers.drop list.length := by
  induction list generalizing answers with
  | nil => rfl
  | cons e rest ih =>
      show ((sift (fun _ => nextAnswer) rest).run answers.tail).2 = _
      rw [ih, List.length_cons, List.drop_tail]

/-- The heap is asked first, and then the overflow list. -/
theorem sweptWith_eq (q : Queue α) (answers : List Bool) :
    q.sweptWith answers =
      let heap := siftedWith answers q.heap
      let overflow := siftedWith (answers.drop q.heap.length) q.overflow
      (heap.1.map (⟨.heap, ·⟩) ++ overflow.1.map (⟨.overflow, ·⟩),
        ⟨heap.2, overflow.2, q.overflowLen - overflow.1.length⟩) := by
  rw [← run_sift]
  rfl

end Queue

/-- Whether the next step of the thread asks a timer. -/
def Pc.asks : Pc α → Bool
  | siftHeap _ _ (_ :: _) | siftOverflow (_ :: _) => true
  | _ => false

/-- The thread in a sweep, the timers it has served so far, and the answers laid out for it. -/
structure Sweeping (α : Type) where
  keeper : Keeper α
  served : List α
  answers : List Bool

namespace Sweeping

/-- The one next step, while others leave alone what the thread shares.  A step that asks a timer takes
the next answer. -/
def step? (s : Shared α) (k : Sweeping α) (_ : Unit) : Option (Sweeping α) :=
  match k.keeper.served? with
  | some (a, keeper) => some { k with keeper, served := k.served ++ [a] }
  | none =>
    match k.keeper.step? (fun _ => k.answers.headD false) 0 true s with
    | none => none
    | some (_, keeper) =>
      some { k with keeper, answers := if k.keeper.pc.asks then k.answers.tail else k.answers }

variable {s : Shared α} {q : Queue α}

/-- The thread asks the timers it has taken out of the heap. -/
theorem heap (kept gone rest : List (Entry α)) (served : List α) (answers : List Bool) :
    Leads (step? s) ⟨⟨q, .siftHeap kept gone rest⟩, served, answers⟩
      ⟨⟨q, .siftHeap (kept ++ (Queue.siftedWith answers rest).2)
        (gone ++ (Queue.siftedWith answers rest).1) []⟩, served, answers.drop rest.length⟩ := by
  induction rest generalizing kept gone answers with
  | nil =>
      rw [Queue.siftedWith_nil, List.append_nil, List.append_nil]
      exact .refl _
  | cons e rest ih =>
      rw [Queue.siftedWith_cons, List.length_cons, ← List.drop_tail]
      cases hanswer : answers.headD false with
      | true =>
          have hstep : step? s ⟨⟨q, .siftHeap kept gone (e :: rest)⟩, served, answers⟩ () =
              some ⟨⟨q, .siftHeap kept (gone ++ [e]) rest⟩, served, answers.tail⟩ := by
            simp only [step?, Keeper.served?, Keeper.step?, hanswer, Pc.asks, if_true]
          have hrest := ih kept (gone ++ [e]) answers.tail
          rw [List.append_assoc] at hrest
          exact .head () hstep hrest
      | false =>
          have hstep : step? s ⟨⟨q, .siftHeap kept gone (e :: rest)⟩, served, answers⟩ () =
              some ⟨⟨q, .siftHeap (kept ++ [e]) gone rest⟩, served, answers.tail⟩ := by
            simp only [step?, Keeper.served?, Keeper.step?, hanswer, Pc.asks, Bool.false_eq_true,
              if_true, if_false]
          have hrest := ih (kept ++ [e]) gone answers.tail
          rw [List.append_assoc] at hrest
          exact .head () hstep hrest

/-- The thread serves all that it has to fire. -/
theorem firing (timers served : List α) (after : Pc α) (answers : List Bool) :
    Leads (step? s) ⟨⟨q, .firing timers after⟩, served, answers⟩
      ⟨⟨q, after⟩, served ++ timers, answers⟩ := by
  induction timers generalizing served with
  | nil =>
      rw [List.append_nil]
      exact .head () rfl (.refl _)
  | cons a rest ih =>
      have hrest := ih (served ++ [a])
      rw [List.append_assoc] at hrest
      exact .head () rfl hrest

/-- The thread asks the timers of the overflow list and serves those that go. -/
theorem overflow (rest : List (Entry α)) (served : List α) (answers : List Bool) :
    Leads (step? s) ⟨⟨q, .siftOverflow rest⟩, served, answers⟩
      ⟨⟨⟨q.heap, q.overflow ++ (Queue.siftedWith answers rest).2,
          q.overflowLen - (Queue.siftedWith answers rest).1.length⟩, .clock⟩,
        served ++ (Queue.siftedWith answers rest).1.map (·.item), answers.drop rest.length⟩ := by
  induction rest generalizing q served answers with
  | nil =>
      rw [Queue.siftedWith_nil, List.append_nil, List.map_nil, List.append_nil]
      exact .head () rfl (.refl _)
  | cons e rest ih =>
      rw [Queue.siftedWith_cons, List.length_cons, ← List.drop_tail]
      cases hanswer : answers.headD false with
      | true =>
          let left : Queue α := { q with overflowLen := q.overflowLen - 1 }
          have hstep : step? s ⟨⟨q, .siftOverflow (e :: rest)⟩, served, answers⟩ () =
              some ⟨⟨left, .firing [e.item] (.siftOverflow rest)⟩, served, answers.tail⟩ := by
            simp only [step?, Keeper.served?, Keeper.step?, hanswer, Pc.asks, left, if_true]
          have hfire := firing (s := s) (q := left) [e.item] served (.siftOverflow rest) answers.tail
          have hrest := ih (q := left) (served ++ [e.item]) answers.tail
          rw [List.append_assoc, Nat.sub_sub, Nat.add_comm 1] at hrest
          exact .head () hstep (hfire.trans hrest)
      | false =>
          let left : Queue α := { q with overflow := q.overflow ++ [e] }
          have hstep : step? s ⟨⟨q, .siftOverflow (e :: rest)⟩, served, answers⟩ () =
              some ⟨⟨left, .siftOverflow rest⟩, served, answers.tail⟩ := by
            simp only [step?, Keeper.served?, Keeper.step?, hanswer, Pc.asks, left, Bool.false_eq_true,
              if_true, if_false]
          have hrest := ih (q := left) served answers.tail
          rw [List.append_assoc] at hrest
          exact .head () hstep hrest

/-- **The loop's sweep is `removeCancelled`**: whatever the timers answer, the thread serves what it
hands over, and comes to the clock with the queue that it leaves. -/
theorem leads_to_removeCancelled (s : Shared α) (q : Queue α) (answers : List Bool) :
    Leads (step? s) ⟨⟨{ q with heap := [] }, .siftHeap [] [] q.heap⟩, [], answers⟩
      ⟨⟨(q.sweptWith answers).2, .clock⟩, (q.sweptWith answers).1.map (·.entry.item),
        (answers.drop q.heap.length).drop q.overflow.length⟩ := by
  let sifted := Queue.siftedWith answers q.heap
  let left : Queue α := { q with heap := sifted.2, overflow := [] }
  have hheap := heap (s := s) (q := { q with heap := [] }) [] [] q.heap [] answers
  have hfire := firing (s := s) (q := left) (sifted.1.map (·.item)) [] (.siftOverflow q.overflow)
    (answers.drop q.heap.length)
  have hlist := overflow (s := s) (q := left) q.overflow (sifted.1.map (·.item))
    (answers.drop q.heap.length)
  rw [Queue.sweptWith_eq, List.map_append, List.map_map, List.map_map]
  exact hheap.trans (.head () rfl (hfire.trans hlist))

end Sweeping

end TaskDispatch.Timer
