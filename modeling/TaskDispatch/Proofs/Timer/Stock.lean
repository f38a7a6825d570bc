/-
What a queue holds.

A queue holds the timers of its heap and those of its overflow list.  To take a timer in, or
to hand one on, makes no timer and loses none: what is there before and after is the same up
to order, and what can be counted or be a member follows from that.

`Takes` says once what it is to take the next timer.
-/
import TaskDispatch.Timer.Queue

namespace TaskDispatch.Timer.Queue

variable {α : Type} {q q' : Queue α} {list rest : List (Entry α)} {e : Entry α} {due now : Nat}

/-! ### In -/

theorem link_perm (e : Entry α) (list : List (Entry α)) : (link e list).Perm (e :: list) := by
  induction list with
  | nil => exact .refl _
  | cons next rest ih =>
      rw [link]
      split
      · exact (ih.cons next).trans (.swap e next rest)
      · exact .refl _

/-- **A queue with one more timer holds that timer and those of before.** -/
theorem enqueue_perm (q : Queue α) (room : Bool) (e : Entry α) :
    ((q.enqueue room e).heap ++ (q.enqueue room e).overflow).Perm (e :: (q.heap ++ q.overflow)) := by
  cases room with
  | true =>
      show ((q.heap ++ [e]) ++ q.overflow).Perm _
      rw [List.append_assoc]
      exact List.perm_middle
  | false =>
      show (q.heap ++ link e q.overflow).Perm _
      exact ((link_perm e q.overflow).append_left q.heap).trans List.perm_middle

/-! ### Out -/

theorem popAt_perm (h : popAt due list = some (e, rest)) : list.Perm (e :: rest) := by
  induction list generalizing rest with
  | nil => cases h
  | cons next others ih =>
      rw [popAt] at h
      split at h
      · cases h
        exact .refl _
      · obtain ⟨⟨found, left⟩, hpop, heq⟩ := Option.map_eq_some_iff.mp h
        cases heq
        exact ((ih hpop).cons next).trans (.swap e next left)

theorem due_of_popAt (h : popAt due list = some (e, rest)) : e.due = due := by
  induction list generalizing rest with
  | nil => cases h
  | cons next others ih =>
      rw [popAt] at h
      split at h
      · next hnext =>
          cases h
          exact hnext
      · obtain ⟨⟨found, left⟩, hpop, heq⟩ := Option.map_eq_some_iff.mp h
        cases heq
        exact ih hpop

/-- What it is to take the next timer: the head of the overflow list if it is due strictly before all of the
heap, else one that is due first in the heap. -/
inductive Takes (q : Queue α) (now : Nat) : Handed α → Queue α → Prop
  | overflow (e : Entry α) (rest : List (Entry α)) (h : q.overflow = e :: rest) (hdue : e.due ≤ now)
    (hfirst : ∀ least, earliestIn q.heap = some least → e.due < least) :
    Takes q now ⟨.overflow, e⟩ { q with overflow := rest, overflowLen := q.overflowLen - 1 }
  | heap (e : Entry α) (rest : List (Entry α)) (h : earliestIn q.heap = some e.due)
    (hpop : popAt e.due q.heap = some (e, rest)) (hdue : e.due ≤ now)
    (hfirst : ∀ f, q.overflow.head? = some f → e.due ≤ f.due) :
    Takes q now ⟨.heap, e⟩ { q with heap := rest }

/-- What comes out of a bag is due first there. -/
theorem of_popMin (h : popMin list = some (e, rest)) :
    earliestIn list = some e.due ∧ popAt e.due list = some (e, rest) := by
  rw [popMin] at h
  split at h
  · cases h
  · next least hleast =>
      rw [due_of_popAt h]
      exact ⟨hleast, h⟩

theorem lt_of_fromOverflow (h : q.fromOverflow = true) (hoverflow : q.overflow = e :: rest)
    (hleast : earliestIn q.heap = some due) : e.due < due := by
  rw [fromOverflow, hleast, hoverflow] at h
  exact of_decide_eq_true h

theorem le_of_not_fromOverflow (h : q.fromOverflow = false) (hhead : q.overflow.head? = some e)
    (hleast : earliestIn q.heap = some due) : due ≤ e.due := by
  rw [fromOverflow, hleast, hhead] at h
  exact Nat.le_of_not_lt (of_decide_eq_false h)

variable {handed : Handed α}

theorem takes_of_dequeue? (h : q.dequeue? now = some (handed, q')) : Takes q now handed q' := by
  rw [dequeue?] at h
  cases hfrom : q.fromOverflow with
  | true =>
      rw [hfrom, if_pos rfl] at h
      split at h
      · next e rest hoverflow =>
          split at h
          · next hdue =>
              cases h
              exact .overflow e rest hoverflow hdue fun _ => lt_of_fromOverflow hfrom hoverflow
          · cases h
      · cases h
  | false =>
      rw [hfrom, if_neg Bool.false_ne_true] at h
      split at h
      · next e rest hpop =>
          obtain ⟨hleast, hat⟩ := of_popMin hpop
          split at h
          · next hdue =>
              cases h
              exact .heap e rest hleast hat hdue fun f hf => le_of_not_fromOverflow hfrom hf hleast
          · cases h
      · cases h

namespace Takes

/-- **What was there is what is taken and what is left.** -/
theorem perm (h : Takes q now handed q') :
    (q.heap ++ q.overflow).Perm (handed.entry :: (q'.heap ++ q'.overflow)) := by
  cases h with
  | overflow e rest hoverflow =>
      rw [hoverflow]
      exact List.perm_middle
  | heap e rest hleast hpop => exact (popAt_perm hpop).append_right q.overflow

theorem due_le (h : Takes q now handed q') : handed.entry.due ≤ now := by
  cases h with
  | overflow e rest hoverflow hdue => exact hdue
  | heap e rest hleast hpop hdue => exact hdue

/-- The overflow list is as it was, or without its head. -/
theorem overflow_sublist (h : Takes q now handed q') : q'.overflow.Sublist q.overflow := by
  cases h with
  | overflow e rest hoverflow =>
      rw [hoverflow]
      exact List.sublist_cons_self ..
  | heap => exact List.Sublist.refl _

/-- The length that is written down stays the length of the overflow list. -/
theorem overflowLen_eq (h : Takes q now handed q') (hlen : q.overflowLen = q.overflow.length) :
    q'.overflowLen = q'.overflow.length := by
  cases h with
  | overflow e rest hoverflow =>
      rw [hoverflow, List.length_cons] at hlen
      show q.overflowLen - 1 = rest.length
      omega
  | heap => exact hlen

end Takes

end TaskDispatch.Timer.Queue
