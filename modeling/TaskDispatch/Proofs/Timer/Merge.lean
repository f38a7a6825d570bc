/-
Taking what is due merges the two containers.

A queue that deeds have led to keeps its overflow list in order of due time and, of equal due
times, in the order in which the timers were enqueued (`Lined`).  The heap comes out in order
of due time, and at a tie with the overflow list it comes first.  So what is handed over is in
order (`Handed.Before`), it is what was due of each container, and each container keeps the
rest (`Merges`).

The taking stops of its own accord, at the first timer that is not due, and not because it may
take no more: it comes to the same with whatever more it may take, and goes on to hand over
nothing.
-/
import TaskDispatch.Proofs.Timer.Ledger

namespace TaskDispatch.Timer

/-- Whether one timer comes before another: it is due earlier, or they are due at the same time, and it is
of the heap, or both are of the overflow list and it was enqueued first. -/
def Handed.Before (a b : Handed Nat) : Prop :=
  a.entry.due < b.entry.due ∨
    a.entry.due = b.entry.due ∧
      (a.place = .heap ∨ a.place = .overflow ∧ b.place = .overflow ∧ a.entry.item < b.entry.item)

namespace Queue

/-- What was due by `now` is handed over in order, and what was not stays in the container it was in. -/
structure Merges (q : Queue Nat) (now : Nat) (handed : List (Handed Nat)) (q' : Queue Nat) : Prop where
  /-- However many may be taken, as long as it is enough for those handed over. -/
  taken : ∀ fuel, handed.length ≤ fuel → dequeueUpTo now fuel q = (handed, q')
  ends : q'.dequeue? now = none
  heapGone : (handedFrom .heap handed).Perm (q.heap.filter (·.due ≤ now))
  overflowGone : handedFrom .overflow handed = q.overflow.filter (·.due ≤ now)
  ordered : handed.Pairwise Handed.Before
  heapLeft : q'.heap.Perm (q.heap.filter (now < ·.due))
  overflowLeft : q'.overflow = q.overflow.filter (now < ·.due)
  overflowLen : q.overflowLen = q.overflow.length → q'.overflowLen = q'.overflow.length

variable {q q' r : Queue Nat} {now fuel : Nat} {x : Handed Nat} {handed : List (Handed Nat)}

/-- Nothing is handed over of what is due later. -/
theorem dequeue?_eq_none_of_late (h : ∀ e ∈ q.heap ++ q.overflow, now < e.due) : q.dequeue? now = none := by
  cases htaken : q.dequeue? now with
  | none => rfl
  | some taken =>
      have htakes := takes_of_dequeue? htaken
      have hlate := h _ (htakes.perm.mem_iff.mpr List.mem_cons_self)
      exact absurd htakes.due_le (Nat.not_le_of_lt hlate)

theorem dequeueUpTo_of_none (h : q.dequeue? now = none) (fuel : Nat) : dequeueUpTo now fuel q = ([], q) := by
  cases fuel with
  | zero => rfl
  | succ fuel => rw [dequeueUpTo, h]

theorem Merges.nil (hlate : ∀ e ∈ q.heap ++ q.overflow, now < e.due) : q.Merges now [] q := by
  have hheap : ∀ e ∈ q.heap, now < e.due := fun e he => hlate e (List.mem_append_left _ he)
  have hlist : ∀ e ∈ q.overflow, now < e.due := fun e he => hlate e (List.mem_append_right _ he)
  have hnone := dequeue?_eq_none_of_late hlate
  refine ⟨fun fuel _ => dequeueUpTo_of_none hnone fuel, hnone, ?_, ?_, .nil, ?_, ?_, id⟩
  · rw [List.filter_eq_nil_iff.mpr fun e he => by simpa using hheap e he]
    exact .refl _
  · exact (List.filter_eq_nil_iff.mpr fun e he => by simpa using hlist e he).symm
  · rw [List.filter_eq_self.mpr fun e he => decide_eq_true (hheap e he)]
  · exact (List.filter_eq_self.mpr fun e he => decide_eq_true (hlist e he)).symm

/-- What is taken comes before all that is left of either container. -/
theorem Takes.before (htakes : Takes q now x r) (hlined : Lined q.overflow) {y : Handed Nat}
    (hy : y.entry ∈ r.timersIn y.place) : x.Before y := by
  have hle : x.entry.due ≤ y.entry.due := by
    refine htakes.due_le_of_mem hlined.sorted (htakes.perm.mem_iff.mpr (List.mem_cons_of_mem _ ?_))
    cases hplace : y.place with
    | heap => exact List.mem_append_left _ (by rwa [hplace] at hy)
    | overflow => exact List.mem_append_right _ (by rwa [hplace] at hy)
  cases htakes with
  | heap e rest hleast => exact (Nat.lt_or_eq_of_le hle).imp id fun heq => ⟨heq, .inl rfl⟩
  | overflow e rest hoverflow hdue hfirst =>
      cases hplace : y.place with
      | heap =>
          -- the heap is looked at too, and comes second only where it is due later
          rw [hplace] at hy
          obtain ⟨least, hleast⟩ := Option.ne_none_iff_exists'.mp
            (mt earliestIn_eq_none_iff.mp (List.ne_nil_of_mem hy))
          exact .inl (Nat.lt_of_lt_of_le (hfirst least hleast) ((isEarliest_of_earliestIn hleast).le _ hy))
      | overflow =>
          rw [hplace] at hy
          rw [hoverflow] at hlined
          exact (List.rel_of_pairwise_cons hlined hy).imp id fun h => ⟨h.1, .inr ⟨rfl, hplace, h.2⟩⟩

/-- One more is taken first. -/
theorem Merges.cons (hlined : Lined q.overflow) (htaken : q.dequeue? now = some (x, r))
    (h : r.Merges now handed q') : q.Merges now (x :: handed) q' where
  taken fuel hfuel := by
    obtain ⟨fuel, rfl⟩ := Nat.exists_eq_add_of_le' (Nat.le_trans (Nat.succ_pos _) hfuel)
    rw [dequeueUpTo, htaken]
    simp only [h.taken fuel (Nat.le_of_succ_le_succ hfuel)]
  ends := h.ends
  heapGone := by
    rw [handedFrom_cons]
    cases takes_of_dequeue? htaken with
    | overflow e rest => exact h.heapGone
    | heap e rest hleast hpop hdue =>
        rw [if_pos rfl]
        refine (h.heapGone.cons e).trans (((popAt_perm hpop).filter _).trans ?_).symm
        rw [List.filter_cons_of_pos (by simpa using hdue)]
  overflowGone := by
    rw [handedFrom_cons]
    cases takes_of_dequeue? htaken with
    | overflow e rest hoverflow hdue =>
        rw [if_pos rfl, hoverflow, List.filter_cons_of_pos (by simpa using hdue), h.overflowGone]
    | heap e rest => exact h.overflowGone
  ordered := by
    refine List.pairwise_cons.mpr ⟨fun y hy => ?_, h.ordered⟩
    have hin := mem_handedFrom hy
    refine (takes_of_dequeue? htaken).before hlined ?_
    cases hplace : y.place with
    | heap => exact (List.mem_filter.mp (h.heapGone.mem_iff.mp (hplace ▸ hin))).1
    | overflow =>
        rw [hplace, h.overflowGone] at hin
        exact (List.mem_filter.mp hin).1
  heapLeft := by
    cases takes_of_dequeue? htaken with
    | overflow e rest => exact h.heapLeft
    | heap e rest hleast hpop hdue =>
        refine h.heapLeft.trans (((popAt_perm hpop).filter _).trans ?_).symm
        rw [List.filter_cons_of_neg (by simpa using hdue)]
  overflowLeft := by
    cases takes_of_dequeue? htaken with
    | overflow e rest hoverflow hdue =>
        rw [hoverflow, List.filter_cons_of_neg (by simpa using hdue), h.overflowLeft]
    | heap e rest => exact h.overflowLeft
  overflowLen hlen := h.overflowLen ((takes_of_dequeue? htaken).overflowLen_eq hlen)

/-- **Taking is a merge**, if as many may be taken as there are. -/
theorem merges_dequeueUpTo (hlined : Lined q.overflow) (hfuel : (q.heap ++ q.overflow).length ≤ fuel) :
    q.Merges now (dequeueUpTo now fuel q).1 (dequeueUpTo now fuel q).2 := by
  induction fuel generalizing q with
  | zero =>
      refine .nil fun e he => ?_
      rw [List.eq_nil_of_length_eq_zero (Nat.le_zero.mp hfuel)] at he
      cases he
  | succ fuel ih =>
      rw [dequeueUpTo]
      cases htaken : q.dequeue? now with
      | none => exact .nil (lt_of_dequeue?_eq_none hlined.sorted htaken)
      | some taken =>
          obtain ⟨x, r⟩ := taken
          have htakes := takes_of_dequeue? htaken
          have hlen := htakes.perm.length_eq
          rw [List.length_cons] at hlen
          exact .cons hlined htaken (ih (List.Pairwise.sublist htakes.overflow_sublist hlined) (by omega))

/-- What is left is all due later, in whatever order the heap is by then. -/
theorem Merges.late (h : q.Merges now handed q') {heap : List (Entry Nat)} (hperm : heap.Perm q'.heap) :
    ∀ e ∈ heap ++ q'.overflow, now < e.due := by
  intro e he
  rcases List.mem_append.mp he with hheap | hlist
  · have hin := (hperm.trans h.heapLeft).mem_iff.mp hheap
    exact of_decide_eq_true (List.mem_filter.mp hin).2
  · rw [h.overflowLeft] at hlist
    exact of_decide_eq_true (List.mem_filter.mp hlist).2

/-- Once what is due has been handed over, nothing more is, unless it is later than it was. -/
theorem Merges.again (h : q.Merges now handed q') {heap : List (Entry Nat)} (hperm : heap.Perm q'.heap)
    {before : Nat} (hle : before ≤ now) :
    (q'.withHeap heap).dequeueDue before = ([], q'.withHeap heap) :=
  dequeueUpTo_of_none (dequeue?_eq_none_of_late fun e he => Nat.lt_of_le_of_lt hle (h.late hperm e he)) _

end Queue

namespace Ledger

variable {s : Ledger}

/-- **Taking what is due is the exact merge of both containers**, whatever was done before, in whatever
order the heap is and even whatever is in it: it comes to an end, and to take again hands over nothing. -/
theorem dequeue_is_a_merge (h : Leads step? {} s) (heap : List (Entry Nat)) (now : Nat) :
    let (handed, q') := (s.queue.withHeap heap).dequeueDue now
    (s.queue.withHeap heap).Merges now handed q' ∧
      q'.overflowLen = q'.overflow.length ∧
      ∀ heap' : List (Entry Nat), heap'.Perm q'.heap → ∀ before ≤ now,
        (q'.withHeap heap').dequeueDue before = ([], q'.withHeap heap') := by
  have hkept := kept_of_leads h
  have hmerges : (s.queue.withHeap heap).Merges now ((s.queue.withHeap heap).dequeueDue now).1
      ((s.queue.withHeap heap).dequeueDue now).2 :=
    Queue.merges_dequeueUpTo hkept.lined (Nat.le_of_eq List.length_append)
  exact ⟨hmerges, hmerges.overflowLen hkept.overflowLen, fun _ hheap _ hle => hmerges.again hheap hle⟩

/-- Two timers are due at the same time in each container, and one of the list is due before them all. -/
theorem dequeue_is_a_merge_with_ties :
    ∃ s, Leads step? {} s ∧
      let (handed, q') := (s.queue.withHeap [⟨9, 5⟩, ⟨5, 1⟩, ⟨5, 0⟩]).dequeueDue 5
      handed.map (fun x => (x.place, x.entry.item)) =
          [(.overflow, 4), (.heap, 1), (.heap, 0), (.overflow, 2), (.overflow, 3)] ∧
        handed.Pairwise Handed.Before ∧ q'.heap = [⟨9, 5⟩] ∧ q'.overflow = [] ∧
        (q'.withHeap [⟨9, 5⟩]).dequeueDue 3 = ([], q'.withHeap [⟨9, 5⟩]) := by
  have h : Leads step? {} _ := .of_after?
    [⟨.enqueue 5, true, []⟩, ⟨.enqueue 5, true, [⟨5, 0⟩]⟩, ⟨.enqueue 5, false, [⟨5, 1⟩, ⟨5, 0⟩]⟩,
      ⟨.enqueue 5, false, [⟨5, 1⟩, ⟨5, 0⟩]⟩, ⟨.enqueue 3, false, [⟨5, 1⟩, ⟨5, 0⟩]⟩,
      ⟨.enqueue 9, true, [⟨5, 0⟩, ⟨5, 1⟩]⟩] rfl
  obtain ⟨hmerges, -, hagain⟩ := dequeue_is_a_merge h [⟨9, 5⟩, ⟨5, 1⟩, ⟨5, 0⟩] 5
  exact ⟨_, h, rfl, hmerges.ordered, rfl, rfl, hagain [⟨9, 5⟩] (.refl _) 3 (by decide)⟩

end Ledger

end TaskDispatch.Timer
