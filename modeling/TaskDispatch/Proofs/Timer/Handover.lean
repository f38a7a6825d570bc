/-
What one operation of the queue hands over, and what it leaves.

Taking what is due goes on until nothing due is left.  Each timer taken is due first of all
that are there (`Takes.due_le_of_mem`), so they come in order of due time, and all that stay
are due later (`yields_dequeueDue`).  A sweep splits each container by asking every timer
once; a drain leaves nothing.

None of them asks where a timer is kept.  What goes is decided by the timer alone, and that
is how it is put here: handed over is what there was of one kind, left is the rest.
-/
import TaskDispatch.Proofs.Timer.Order

namespace TaskDispatch.Timer

/-- Two parts of a list, one all of a kind and the other with none of it, are what filters make of it. -/
theorem perm_filter_of_perm_append {β : Type} {list left right : List β} {p : β → Bool}
    (h : list.Perm (left ++ right)) (hleft : ∀ b ∈ left, p b = true) (hright : ∀ b ∈ right, p b = false) :
    left.Perm (list.filter p) ∧ right.Perm (list.filter fun b => !p b) := by
  have hnotleft : ∀ b ∈ left, ¬ (!p b) = true := fun b hb => by simp [hleft b hb]
  have hnotright : ∀ b ∈ right, ¬ p b = true := fun b hb => by simp [hright b hb]
  refine ⟨((h.filter p).trans ?_).symm, ((h.filter fun b => !p b).trans ?_).symm⟩
  · rw [List.filter_append, List.filter_eq_self.mpr hleft, List.filter_eq_nil_iff.mpr hnotright,
      List.append_nil]
  · rw [List.filter_append, List.filter_eq_nil_iff.mpr hnotleft,
      List.filter_eq_self.mpr fun b hb => by simp [hright b hb], List.nil_append]

variable {α : Type}

/-- The timers that came from one container, in the order in which they were handed over. -/
def handedFrom (place : Place) (handed : List (Handed α)) : List (Entry α) :=
  (handed.filter (·.place = place)).map (·.entry)

/-- The timers in one container. -/
def Queue.timersIn (q : Queue α) : Place → List (Entry α)
  | .heap => q.heap
  | .overflow => q.overflow

theorem handedFrom_cons (place : Place) (x : Handed α) (handed : List (Handed α)) :
    handedFrom place (x :: handed) =
      if x.place = place then x.entry :: handedFrom place handed else handedFrom place handed := by
  rw [handedFrom, List.filter_cons]
  simp only [decide_eq_true_eq]
  split <;> rfl

theorem mem_handedFrom {x : Handed α} {handed : List (Handed α)} (hx : x ∈ handed) :
    x.entry ∈ handedFrom x.place handed :=
  List.mem_map_of_mem (List.mem_filter.mpr ⟨hx, decide_eq_true rfl⟩)

namespace Queue

variable {q q' : Queue α} {now fuel : Nat}

/-! ### What is due -/

/-- The next timer is due first of all. -/
theorem Takes.due_le_of_mem {x : Handed α} (h : Takes q now x q') (hsorted : Sorted q.overflow)
    {e : Entry α} (he : e ∈ q.heap ++ q.overflow) : x.entry.due ≤ e.due := by
  cases h with
  | overflow f rest hoverflow hdue hfirst =>
      rcases List.mem_append.mp he with hheap | hover
      · cases hleast : earliestIn q.heap with
        | none =>
            rw [earliestIn_eq_none_iff.mp hleast] at hheap
            cases hheap
        | some least =>
            have hle := (isEarliest_of_earliestIn hleast).le e hheap
            exact Nat.le_trans (Nat.le_of_lt (hfirst least hleast)) hle
      · rw [hoverflow] at hsorted hover
        exact hsorted.isEarliest.le e hover
  | heap f rest hleast hpop hdue hfirst =>
      rcases List.mem_append.mp he with hheap | hover
      · exact (isEarliest_of_earliestIn hleast).le e hheap
      · cases hoverflow : q.overflow with
        | nil =>
            rw [hoverflow] at hover
            cases hover
        | cons g others =>
            rw [hoverflow] at hsorted hover
            exact Nat.le_trans (hfirst g (by rw [hoverflow]; rfl)) (hsorted.isEarliest.le e hover)

/-- What is handed over is what was due by `now`, in order of due time, and the rest is left. -/
structure Yields (now : Nat) (q : Queue α) (handed : List (Handed α)) (q' : Queue α) : Prop where
  perm : (q.heap ++ q.overflow).Perm (handed.map (·.entry) ++ (q'.heap ++ q'.overflow))
  due : ∀ x ∈ handed, x.entry.due ≤ now
  late : ∀ e ∈ q'.heap ++ q'.overflow, now < e.due
  ordered : (handed.map (·.entry.due)).Pairwise (· ≤ ·)
  overflow : q'.overflow.Sublist q.overflow
  overflowLen : q.overflowLen = q.overflow.length → q'.overflowLen = q'.overflow.length

namespace Yields

/-- Nothing is due. -/
theorem nil (hlate : ∀ e ∈ q.heap ++ q.overflow, now < e.due) : Yields now q [] q where
  perm := .refl _
  due := nofun
  late := hlate
  ordered := .nil
  overflow := .refl _
  overflowLen := id

/-- One more is taken first. -/
theorem cons {x : Handed α} {handed : List (Handed α)} {r : Queue α} (hsorted : Sorted q.overflow)
    (htakes : Takes q now x q') (h : Yields now q' handed r) : Yields now q (x :: handed) r where
  perm := htakes.perm.trans (h.perm.cons x.entry)
  due := List.forall_mem_cons.mpr ⟨htakes.due_le, h.due⟩
  late := h.late
  ordered := by
    refine List.pairwise_cons.mpr ⟨fun due hdue => ?_, h.ordered⟩
    obtain ⟨y, hy, rfl⟩ := List.mem_map.mp hdue
    -- what comes later was there when the first one was taken
    have hin := h.perm.mem_iff.mpr (List.mem_append_left _ (List.mem_map_of_mem hy))
    exact htakes.due_le_of_mem hsorted (htakes.perm.mem_iff.mpr (List.mem_cons_of_mem _ hin))
  overflow := h.overflow.trans htakes.overflow_sublist
  overflowLen hlen := h.overflowLen (htakes.overflowLen_eq hlen)

/-- Handed over is what was due, left is what was not. -/
theorem perm_filter {handed : List (Handed α)} (h : Yields now q handed q') :
    (handed.map (·.entry)).Perm ((q.heap ++ q.overflow).filter (·.due ≤ now)) ∧
      (q'.heap ++ q'.overflow).Perm ((q.heap ++ q.overflow).filter fun e => !decide (e.due ≤ now)) := by
  refine perm_filter_of_perm_append h.perm (fun e he => ?_) fun e he => ?_
  · obtain ⟨x, hx, rfl⟩ := List.mem_map.mp he
    exact decide_eq_true (h.due x hx)
  · exact decide_eq_false (Nat.not_le_of_lt (h.late e he))

end Yields

/-- **Taking ends with nothing due left**, if as many may be taken as there are. -/
theorem yields_dequeueUpTo (hsorted : Sorted q.overflow) (hfuel : (q.heap ++ q.overflow).length ≤ fuel) :
    Yields now q (dequeueUpTo now fuel q).1 (dequeueUpTo now fuel q).2 := by
  induction fuel generalizing q with
  | zero =>
      refine .nil fun e he => ?_
      rw [List.eq_nil_of_length_eq_zero (Nat.le_zero.mp hfuel)] at he
      cases he
  | succ fuel ih =>
      rw [dequeueUpTo]
      cases htaken : q.dequeue? now with
      | none => exact .nil (lt_of_dequeue?_eq_none hsorted htaken)
      | some taken =>
          obtain ⟨x, r⟩ := taken
          have htakes := takes_of_dequeue? htaken
          have hlen := htakes.perm.length_eq
          rw [List.length_cons] at hlen
          exact .cons hsorted htakes (ih (hsorted.sublist htakes.overflow_sublist) (by omega))

theorem yields_dequeueDue (hsorted : Sorted q.overflow) (now : Nat) :
    Yields now q (q.dequeueDue now).1 (q.dequeueDue now).2 :=
  yields_dequeueUpTo hsorted (Nat.le_of_eq List.length_append)

/-! ### What is cancelled -/

/-- Timers that are asked whether they are cancelled, and asked at once. -/
theorem sift_pure (cancelled : α → Bool) (list : List (Entry α)) :
    sift (m := Id) (fun a => pure (cancelled a)) list =
      pure (list.filter fun e => cancelled e.item, list.filter fun e => !cancelled e.item) := by
  induction list with
  | nil => rfl
  | cons e rest ih =>
      rw [sift, ih]
      cases he : cancelled e.item <;> simp [he]

/-- A sweep hands over what is cancelled and leaves the rest, of each container in its order. -/
theorem removeCancelled_pure (q : Queue α) (cancelled : α → Bool) :
    Id.run (q.removeCancelled fun a => pure (cancelled a)) =
      ((q.heap.filter fun e => cancelled e.item).map (⟨.heap, ·⟩) ++
          (q.overflow.filter fun e => cancelled e.item).map (⟨.overflow, ·⟩),
        ⟨q.heap.filter fun e => !cancelled e.item, q.overflow.filter fun e => !cancelled e.item,
          q.overflowLen - (q.overflow.filter fun e => cancelled e.item).length⟩) := by
  simp only [removeCancelled, sift_pure]
  rfl

end Queue

end TaskDispatch.Timer
