/-
A queue of timers with the record of what was done to it.

Timers are named by numbers, in the order in which they were enqueued.  A deed is an
operation of the queue, or the cancellation of a timer, wherever that is by then.  The heap
has two choices of its own at every deed: whether it has room for one more timer, whatever
capacity it began with, and in which order it keeps those it has, which decides who comes out
first of several that are due at the same time.

What a deed hands over and what it leaves depends on neither (`Performed`): the timers
enqueued are those in the heap, those in the overflow list and those handed over, each of
them once (`Kept`).
-/
import TaskDispatch.Proofs.Timer.Handover

namespace TaskDispatch.Timer

/-- What is done to a queue. -/
inductive Deed where
  | enqueue (due : Nat)
  /-- The wait of the timer with this number is cancelled. -/
  | cancel (k : Nat)
  | dequeue (now : Nat)
  | sweep
  | drain
  deriving DecidableEq

namespace Deed

/-- The due time of the timer that a deed arms, if it arms one. -/
def arms : Deed → List Nat
  | enqueue due => [due]
  | _ => []

/-- The number of the timer that a deed cancels, if it cancels one. -/
def cancels : Deed → List Nat
  | cancel k => [k]
  | _ => []

/-- Whether a deed hands over this timer, if it is in the queue. -/
def takes (cancelled : Nat → Bool) : Deed → Entry Nat → Bool
  | enqueue _, _ | cancel _, _ => false
  | dequeue now, e => e.due ≤ now
  | sweep, e => cancelled e.item
  | drain, _ => true

end Deed

/-- The queue with its heap's timers in this order. -/
def Queue.withHeap (q : Queue Nat) (heap : List (Entry Nat)) : Queue Nat := { q with heap }

/-- What one deed does to a queue: the timer that it arms gets the number `n`. -/
def Queue.perform (q : Queue Nat) (room : Bool) (n : Nat) (cancelled : Nat → Bool) :
    Deed → List (Handed Nat) × Queue Nat
  | .enqueue due => ([], q.enqueue room ⟨due, n⟩)
  | .cancel _ => ([], q)
  | .dequeue now => q.dequeueDue now
  | .sweep => Id.run (q.removeCancelled fun k => pure (cancelled k))
  | .drain => q.drain

/-- What was done, what was handed over, and how the queue answers after it. -/
structure Report where
  deed : Deed
  handed : List (Handed Nat)
  len : Nat
  isEmpty : Bool
  earliest : Option Nat

/-- A queue, the due times of all timers that were enqueued, the numbers of those cancelled, and a report
for each deed, the latest last. -/
structure Ledger where
  queue : Queue Nat := {}
  dues : List Nat := []
  cancelled : List Nat := []
  reports : List Report := []

namespace Ledger

/-- A deed, whether the heap has room then, and how it has its timers in order. -/
structure Act where
  deed : Deed
  room : Bool
  heap : List (Entry Nat)

/-- The timers that were enqueued. -/
def enqueued (s : Ledger) : List (Entry Nat) := s.dues.mapIdx fun k due => ⟨due, k⟩

/-- The timers that were handed over. -/
def handed (s : Ledger) : List (Handed Nat) := s.reports.flatMap (·.handed)

/-- The timers that were enqueued and have not been handed over. -/
def waiting (s : Ledger) : List (Entry Nat) :=
  s.enqueued.filter fun e => !(s.handed.map (·.entry)).contains e

def isCancelled (s : Ledger) (k : Nat) : Bool := s.cancelled.contains k

/-- The ledger after a deed that has handed over these timers and has left this queue. -/
def write (s : Ledger) (deed : Deed) (handed : List (Handed Nat)) (queue : Queue Nat) : Ledger where
  queue
  dues := s.dues ++ deed.arms
  cancelled := s.cancelled ++ deed.cancels
  reports := s.reports ++ [⟨deed, handed, queue.len, queue.isEmpty, queue.earliest?⟩]

/-- The ledger after an act.  The heap may put its timers in another order, but it has the same. -/
def step? (s : Ledger) (a : Act) : Option Ledger :=
  if a.heap.isPerm s.queue.heap then
    let (handed, queue) :=
      (s.queue.withHeap a.heap).perform a.room s.dues.length s.isCancelled a.deed
    some (s.write a.deed handed queue)
  else none

end Ledger

/-! ### One deed -/

/-- In order of due time, and of equal due times the one enqueued first in front. -/
def Lined (list : List (Entry Nat)) : Prop :=
  list.Pairwise fun a b => a.due < b.due ∨ a.due = b.due ∧ a.item < b.item

theorem Lined.sorted {list : List (Entry Nat)} (h : Lined list) : Sorted list :=
  h.imp fun hab => hab.elim Nat.le_of_lt fun heq => Nat.le_of_eq heq.1

/-- What one deed does: who is handed over and who is left is up to the timers alone. -/
structure Performed (cancelled : Nat → Bool) (n : Nat) (q : Queue Nat) (deed : Deed)
    (handed : List (Handed Nat)) (q' : Queue Nat) : Prop where
  gone : (handed.map (·.entry)).Perm ((q.heap ++ q.overflow).filter fun e => deed.takes cancelled e)
  left : (q'.heap ++ q'.overflow).Perm
    (((q.heap ++ q.overflow).filter fun e => !deed.takes cancelled e) ++
      deed.arms.map fun due => ⟨due, n⟩)
  ordered : ∀ now, deed = .dequeue now → (handed.map (·.entry.due)).Pairwise (· ≤ ·)
  lined : Lined q'.overflow
  overflowLen : q'.overflowLen = q'.overflow.length

section

variable {cancelled : Nat → Bool} {n : Nat} {q : Queue Nat}

theorem performed_enqueue (hlined : Lined q.overflow) (hlen : q.overflowLen = q.overflow.length)
    (hold : ∀ e ∈ q.overflow, e.item < n) (room : Bool) (due : Nat) :
    Performed cancelled n q (.enqueue due) [] (q.enqueue room ⟨due, n⟩) where
  gone := by simp [Deed.takes]
  left := by
    simp only [Deed.takes, Bool.not_false, List.filter_true, Deed.arms, List.map_cons, List.map_nil]
    exact (Queue.enqueue_perm q room ⟨due, n⟩).trans (List.perm_append_singleton _ _).symm
  ordered := nofun
  lined := by
    cases room with
    | true => exact hlined
    | false =>
        refine hlined.sorted.pairwise_link hlined (fun f hf hle => ?_) fun f hf hlt => Or.inl hlt
        rcases Nat.lt_or_eq_of_le hle with hlt | heq
        · exact Or.inl hlt
        · exact Or.inr ⟨heq, hold f hf⟩
  overflowLen := by
    cases room with
    | true => exact hlen
    | false =>
        have := (Queue.link_perm ⟨due, n⟩ q.overflow).length_eq
        rw [List.length_cons] at this
        show q.overflowLen + 1 = (Queue.link ⟨due, n⟩ q.overflow).length
        omega

theorem performed_dequeue (hlined : Lined q.overflow) (hlen : q.overflowLen = q.overflow.length)
    (now : Nat) :
    Performed cancelled n q (.dequeue now) (q.dequeueDue now).1 (q.dequeueDue now).2 where
  gone := (Queue.yields_dequeueDue hlined.sorted now).perm_filter.1
  left := by
    simp only [Deed.arms, List.map_nil, List.append_nil]
    exact (Queue.yields_dequeueDue hlined.sorted now).perm_filter.2
  ordered _ _ := (Queue.yields_dequeueDue hlined.sorted now).ordered
  lined := List.Pairwise.sublist (Queue.yields_dequeueDue hlined.sorted now).overflow hlined
  overflowLen := (Queue.yields_dequeueDue hlined.sorted now).overflowLen hlen

theorem performed_sweep (hlined : Lined q.overflow) (hlen : q.overflowLen = q.overflow.length) :
    Performed cancelled n q .sweep (Id.run (q.removeCancelled fun k => pure (cancelled k))).1
      (Id.run (q.removeCancelled fun k => pure (cancelled k))).2 := by
  rw [Queue.removeCancelled_pure]
  refine ⟨?_, ?_, nofun, List.Pairwise.filter _ hlined, ?_⟩
  · simp [Function.comp_def, Deed.takes]
  · simp [Deed.takes, Deed.arms]
  · have := List.length_eq_length_filter_add (l := q.overflow) fun e => cancelled e.item
    show q.overflowLen - (q.overflow.filter fun e => cancelled e.item).length =
      (q.overflow.filter fun e => !cancelled e.item).length
    omega

theorem performed_drain :
    Performed cancelled n q .drain q.drain.1 q.drain.2 where
  gone := by simp [Queue.drain, Function.comp_def, Deed.takes]
  left := by simp [Queue.drain, Deed.takes, Deed.arms]
  ordered := nofun
  lined := .nil
  overflowLen := rfl

theorem performed (hlined : Lined q.overflow) (hlen : q.overflowLen = q.overflow.length)
    (hold : ∀ e ∈ q.overflow, e.item < n) (room : Bool) (deed : Deed) :
    Performed cancelled n q deed (q.perform room n cancelled deed).1
      (q.perform room n cancelled deed).2 := by
  cases deed with
  | enqueue due => exact performed_enqueue hlined hlen hold room due
  | cancel k =>
      refine ⟨?_, ?_, nofun, hlined, hlen⟩
      · simp [Queue.perform, Deed.takes]
      · simp [Queue.perform, Deed.takes, Deed.arms]
  | dequeue now => exact performed_dequeue hlined hlen now
  | sweep => exact performed_sweep hlined hlen
  | drain => exact performed_drain

end

namespace Ledger

variable {s t : Ledger}

/-! ### The timers enqueued -/

theorem mem_enqueued {e : Entry Nat} : e ∈ s.enqueued ↔ s.dues[e.item]? = some e.due := by
  obtain ⟨due, k⟩ := e
  rw [enqueued, List.mem_mapIdx]
  constructor
  · rintro ⟨i, hi, heq⟩
    obtain ⟨rfl, rfl⟩ := Entry.mk.inj heq
    exact List.getElem?_eq_getElem hi
  · intro hk
    obtain ⟨hlt, hget⟩ := List.getElem?_eq_some_iff.mp hk
    exact ⟨k, hlt, by rw [hget]⟩

theorem nodup_enqueued (s : Ledger) : s.enqueued.Nodup := by
  refine List.nodup_iff_injective_getElem.mpr fun i j hij => ?_
  simp only [enqueued, List.getElem_mapIdx, Entry.mk.injEq] at hij
  exact Fin.ext hij.2

/-- What is enqueued gets the next number. -/
theorem enqueued_write (s : Ledger) (deed : Deed) (handed : List (Handed Nat)) (queue : Queue Nat) :
    (s.write deed handed queue).enqueued =
      s.enqueued ++ deed.arms.map fun due => ⟨due, s.dues.length⟩ := by
  cases deed with
  | enqueue due => simp [write, enqueued, Deed.arms, List.mapIdx_append]
  | _ => simp [write, enqueued, Deed.arms]

theorem handed_write (s : Ledger) (deed : Deed) (handed : List (Handed Nat)) (queue : Queue Nat) :
    (s.write deed handed queue).handed = s.handed ++ handed := by
  simp [write, Ledger.handed]

/-- No operation can fail, whether the heap has room or not. -/
theorem exists_step? (s : Ledger) (deed : Deed) (room : Bool) :
    ∃ t, s.step? ⟨deed, room, s.queue.heap⟩ = some t := by
  rw [step?, if_pos (List.isPerm_iff.mpr (.refl _))]
  exact ⟨_, rfl⟩

/-! ### Every order of deeds -/

/-- What holds of a ledger whatever has been done. -/
structure Kept (s : Ledger) : Prop where
  perm : s.enqueued.Perm ((s.queue.heap ++ s.queue.overflow) ++ s.handed.map (·.entry))
  lined : Lined s.queue.overflow
  overflowLen : s.queue.overflowLen = s.queue.overflow.length

namespace Kept

/-- Those in the queue have numbers of old. -/
theorem item_lt (h : Kept s) {e : Entry Nat} (he : e ∈ s.queue.heap ++ s.queue.overflow) :
    e.item < s.dues.length := by
  have hin := h.perm.mem_iff.mpr (List.mem_append_left _ he)
  exact (List.getElem?_eq_some_iff.mp (mem_enqueued.mp hin)).1

/-- **What an act can do**, to a ledger that is kept. -/
theorem of_step? (h : Kept s) {a : Act} (hstep : s.step? a = some t) :
    ∃ q handed queue, (q.heap ++ q.overflow).Perm (s.queue.heap ++ s.queue.overflow) ∧
      Performed s.isCancelled s.dues.length q a.deed handed queue ∧ t = s.write a.deed handed queue := by
  rw [step?] at hstep
  split at hstep
  · next hheap =>
      obtain rfl := Option.some.inj hstep
      have hlined : Lined (s.queue.withHeap a.heap).overflow := h.lined
      have hold : ∀ e ∈ (s.queue.withHeap a.heap).overflow, e.item < s.dues.length :=
        fun e he => h.item_lt (List.mem_append_right _ he)
      exact ⟨_, _, _, (List.isPerm_iff.mp hheap).append_right _,
        performed hlined h.overflowLen hold a.room a.deed, rfl⟩
  · cases hstep

/-- What is handed over and what is left was there, but for the timer that is armed. -/
theorem step (h : Kept s) {a : Act} (hstep : s.step? a = some t) : Kept t := by
  obtain ⟨q, handed, queue, hperm, hperformed, rfl⟩ := h.of_step? hstep
  refine ⟨List.perm_iff_count.mpr fun e => ?_, hperformed.lined, hperformed.overflowLen⟩
  have hbefore := h.perm.count_eq e
  have hsplit :=
    (List.filter_append_perm (fun e => a.deed.takes s.isCancelled e) (q.heap ++ q.overflow)).count_eq e
  have hgone := hperformed.gone.count_eq e
  have hleft := hperformed.left.count_eq e
  have hsame := hperm.count_eq e
  rw [enqueued_write, handed_write]
  simp only [write, List.map_append, List.count_append] at *
  omega

end Kept

theorem kept_of_leads (h : Leads step? {} s) : Kept s :=
  h.keeps (fun _ _ _ hu hstep => hu.step hstep) ⟨.refl _, .nil, rfl⟩

namespace Kept

/-- Who was handed over is not in the queue. -/
theorem not_mem_handed (h : Kept s) {e : Entry Nat} (he : e ∈ s.queue.heap ++ s.queue.overflow) :
    e ∉ s.handed.map (·.entry) := by
  have hnodup := h.perm.nodup_iff.mp (nodup_enqueued s)
  exact fun hgone => List.disjoint_of_nodup_append hnodup he hgone

/-- Those in the queue are those that wait. -/
theorem perm_waiting (h : Kept s) : s.waiting.Perm (s.queue.heap ++ s.queue.overflow) := by
  refine ((perm_filter_of_perm_append h.perm (fun e he => ?_) fun e he => ?_).1).symm
  · simpa using h.not_mem_handed he
  · simpa using he

/-- How the queue answers is up to the timers in it. -/
theorem answers (h : Kept s) {timers : List (Entry Nat)}
    (hperm : timers.Perm (s.queue.heap ++ s.queue.overflow)) :
    s.queue.len = timers.length ∧ s.queue.isEmpty = timers.isEmpty ∧
      s.queue.earliest? = (timers.map (·.due)).min? := by
  have hlen := hperm.length_eq
  rw [List.length_append, ← h.overflowLen] at hlen
  refine ⟨hlen.symm, ?_, Queue.earliest?_eq_min? h.lined.sorted hperm⟩
  rw [hperm.isEmpty_eq, Queue.isEmpty]
  cases s.queue.heap <;> rfl

end Kept

/-- **No timer is lost and none is handed over twice**, whatever was done and whenever the heap had room. -/
theorem timers_are_conserved (h : Leads step? {} s) :
    Lined s.queue.overflow ∧ s.queue.overflowLen = s.queue.overflow.length ∧
      s.queue.len = s.waiting.length ∧ (s.queue.isEmpty = true ↔ s.queue.len = 0) ∧
      s.queue.earliest? = (s.waiting.map (·.due)).min? ∧
      ∀ e, s.queue.heap.count e + s.queue.overflow.count e + (s.handed.map (·.entry)).count e =
        if e ∈ s.enqueued then 1 else 0 := by
  have hkept := kept_of_leads h
  obtain ⟨hlen, hisEmpty, hearliest⟩ := hkept.answers hkept.perm_waiting
  refine ⟨hkept.lined, hkept.overflowLen, hlen, ?_, hearliest, fun e => ?_⟩
  · rw [hisEmpty, hlen, List.isEmpty_iff, List.length_eq_zero_iff]
  · rw [← (nodup_enqueued s).count, hkept.perm.count_eq, List.count_append, List.count_append]

/-- The heap has room for two of five timers.  One that has to wait in the overflow list falls due first,
another is cancelled and swept. -/
theorem timers_are_conserved_in_a_full_heap :
    ∃ s, Leads step? {} s ∧ s.queue = ⟨[⟨5, 4⟩, ⟨5, 0⟩], [⟨7, 3⟩], 1⟩ ∧
      s.handed.map (·.entry) = [⟨3, 2⟩, ⟨5, 1⟩] ∧ s.queue.len = s.waiting.length ∧
      s.queue.earliest? = (s.waiting.map (·.due)).min? ∧ (s.waiting.map (·.due)).min? = some 5 ∧
      ∀ e, s.queue.heap.count e + s.queue.overflow.count e + (s.handed.map (·.entry)).count e =
        if e ∈ s.enqueued then 1 else 0 := by
  have h : Leads step? {} _ := .of_after?
    [⟨.enqueue 5, true, []⟩, ⟨.enqueue 5, false, [⟨5, 0⟩]⟩, ⟨.enqueue 3, false, [⟨5, 0⟩]⟩,
      ⟨.enqueue 7, false, [⟨5, 0⟩]⟩, ⟨.enqueue 5, true, [⟨5, 0⟩]⟩, ⟨.cancel 1, false, [⟨5, 4⟩, ⟨5, 0⟩]⟩,
      ⟨.dequeue 4, false, [⟨5, 0⟩, ⟨5, 4⟩]⟩, ⟨.sweep, false, [⟨5, 4⟩, ⟨5, 0⟩]⟩] rfl
  obtain ⟨-, -, hlen, -, hearliest, hcount⟩ := timers_are_conserved h
  exact ⟨_, h, rfl, rfl, hlen, hearliest, rfl, hcount⟩

end Ledger

end TaskDispatch.Timer
