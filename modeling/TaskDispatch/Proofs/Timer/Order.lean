/-
In which order the queue keeps its timers.

The overflow list is sorted by due time (`Sorted`): a timer is linked behind all that are
due no later, and whatever leaves the list leaves the order of the others alone.  So the
head of the list stands for the whole list, and the queue answers with the smallest due
time of both containers (`isEarliest_of_earliest?`).  A queue that hands over nothing
more holds nothing that is due (`lt_of_dequeue?_eq_none`).
-/
import TaskDispatch.Proofs.Timer.Ripe

namespace TaskDispatch.Timer

variable {α : Type} {e : Entry α} {list : List (Entry α)}

/-- In order of due time. -/
def Sorted (list : List (Entry α)) : Prop := list.Pairwise (·.due ≤ ·.due)

/-- The smallest due time of these timers. -/
structure IsEarliest (due : Nat) (timers : List (Entry α)) : Prop where
  exists_eq : ∃ e ∈ timers, e.due = due
  le : ∀ e ∈ timers, due ≤ e.due

/-- The smaller of the earliest of two bags is the earliest of both. -/
theorem IsEarliest.append {a b : Nat} {left right : List (Entry α)} (ha : IsEarliest a left)
    (hb : IsEarliest b right) : IsEarliest (min a b) (left ++ right) := by
  obtain ⟨e, he, rfl⟩ := ha.exists_eq
  obtain ⟨f, hf, rfl⟩ := hb.exists_eq
  refine ⟨?_, fun g hg => ?_⟩
  · rcases Nat.le_total e.due f.due with hle | hle
    · exact ⟨e, List.mem_append_left _ he, (Nat.min_eq_left hle).symm⟩
    · exact ⟨f, List.mem_append_right _ hf, (Nat.min_eq_right hle).symm⟩
  · rcases List.mem_append.mp hg with hleft | hright
    · exact Nat.le_trans (Nat.min_le_left ..) (ha.le g hleft)
    · exact Nat.le_trans (Nat.min_le_right ..) (hb.le g hright)

namespace Sorted

/-- The head of a sorted list is due first. -/
theorem isEarliest (h : Sorted (e :: list)) : IsEarliest e.due (e :: list) := by
  refine ⟨⟨e, List.mem_cons_self, rfl⟩, fun f hf => ?_⟩
  rcases List.mem_cons.mp hf with rfl | hrest
  · exact Nat.le_refl _
  · exact List.rel_of_pairwise_cons h hrest

/-- What relates a new timer to those it is linked behind and to those it is linked before is kept. -/
theorem pairwise_link {R : Entry α → Entry α → Prop} (h : Sorted list) (hR : list.Pairwise R)
    (hbehind : ∀ f ∈ list, f.due ≤ e.due → R f e) (hbefore : ∀ f ∈ list, e.due < f.due → R e f) :
    (Queue.link e list).Pairwise R := by
  induction list with
  | nil => exact List.pairwise_singleton ..
  | cons next rest ih =>
      obtain ⟨hnext, hrest⟩ := List.pairwise_cons.mp hR
      rw [Queue.link]
      by_cases hle : next.due ≤ e.due
      · rw [if_pos hle]
        have hlinked := ih (List.Pairwise.of_cons h) hrest
          (fun f hf => hbehind f (List.mem_cons_of_mem _ hf))
          (fun f hf => hbefore f (List.mem_cons_of_mem _ hf))
        refine List.pairwise_cons.mpr ⟨fun f hf => ?_, hlinked⟩
        rcases List.mem_cons.mp ((Queue.link_perm e rest).mem_iff.mp hf) with rfl | hmem
        · exact hbehind next List.mem_cons_self hle
        · exact hnext f hmem
      · rw [if_neg hle]
        refine List.pairwise_cons.mpr ⟨fun f hf => hbefore f hf ?_, hR⟩
        exact Nat.lt_of_lt_of_le (Nat.lt_of_not_le hle) (h.isEarliest.le f hf)

theorem link (h : Sorted list) (e : Entry α) : Sorted (Queue.link e list) :=
  h.pairwise_link h (fun _ _ hle => hle) fun _ _ hlt => Nat.le_of_lt hlt

end Sorted

namespace Queue

variable {q q' : Queue α} {now due : Nat}

/-! ### Bags -/

theorem earliestIn_eq_none_iff : earliestIn list = none ↔ list = [] := by
  cases list with
  | nil => exact ⟨fun _ => rfl, fun _ => rfl⟩
  | cons e rest =>
      rw [earliestIn]
      cases earliestIn rest <;> simp

theorem isEarliest_of_earliestIn (h : earliestIn list = some due) : IsEarliest due list := by
  induction list generalizing due with
  | nil => cases h
  | cons e rest ih =>
      have hself : IsEarliest e.due [e] := Sorted.isEarliest (List.pairwise_singleton ..)
      rw [earliestIn] at h
      cases hrest : earliestIn rest with
      | none =>
          rw [hrest] at h
          cases h
          rw [earliestIn_eq_none_iff.mp hrest]
          exact hself
      | some least =>
          rw [hrest] at h
          cases h
          exact hself.append (ih hrest)

/-- What comes out of a bag has the due time asked for, and something does come out if it is there. -/
theorem exists_popAt (h : ∃ e ∈ list, e.due = due) :
    ∃ e rest, popAt due list = some (e, rest) ∧ e.due = due := by
  induction list with
  | nil =>
      obtain ⟨e, he, -⟩ := h
      cases he
  | cons next others ih =>
      rw [popAt]
      by_cases hnext : next.due = due
      · exact ⟨next, others, if_pos hnext, hnext⟩
      · rw [if_neg hnext]
        obtain ⟨e, he, hdue⟩ := h
        have hothers : e ∈ others := by
          rcases List.mem_cons.mp he with rfl | hmem
          · exact absurd hdue hnext
          · exact hmem
        obtain ⟨f, rest, hpop, hf⟩ := ih ⟨e, hothers, hdue⟩
        exact ⟨f, next :: rest, by rw [hpop]; rfl, hf⟩

/-- Out of a bag that is not empty comes a timer that is due first. -/
theorem popMin_of_earliestIn (h : earliestIn list = some due) :
    ∃ e rest, popMin list = some (e, rest) ∧ e.due = due := by
  rw [popMin, h]
  exact exists_popAt (isEarliest_of_earliestIn h).exists_eq

/-! ### The queue -/

theorem earliest?_eq_none_iff : q.earliest? = none ↔ q.heap ++ q.overflow = [] := by
  obtain ⟨heap, overflow, overflowLen⟩ := q
  rw [earliest?, List.append_eq_nil_iff, ← earliestIn_eq_none_iff]
  cases earliestIn heap <;> cases overflow <;> simp

/-- **The queue answers with its smallest due time.** -/
theorem isEarliest_of_earliest? (hsorted : Sorted q.overflow) (h : q.earliest? = some due) :
    IsEarliest due (q.heap ++ q.overflow) := by
  obtain ⟨heap, overflow, overflowLen⟩ := q
  rw [earliest?] at h
  cases hheap : earliestIn heap with
  | none =>
      rw [earliestIn_eq_none_iff.mp hheap, List.nil_append]
      cases overflow with
      | nil => simp [hheap] at h
      | cons e rest =>
          simp only [hheap, List.head?_cons, Option.map_some, Option.some.injEq] at h
          subst h
          exact hsorted.isEarliest
  | some least =>
      cases overflow with
      | nil =>
          simp only [hheap, List.head?_nil, Option.map_none, Option.some.injEq] at h
          subst h
          rw [List.append_nil]
          exact isEarliest_of_earliestIn hheap
      | cons e rest =>
          simp only [hheap, List.head?_cons, Option.map_some, Option.some.injEq] at h
          subst h
          exact (isEarliest_of_earliestIn hheap).append hsorted.isEarliest

theorem earliest?_eq_min? (hsorted : Sorted q.overflow) (hperm : list.Perm (q.heap ++ q.overflow)) :
    q.earliest? = (list.map (·.due)).min? := by
  cases hleast : q.earliest? with
  | none =>
      rw [earliest?_eq_none_iff] at hleast
      rw [hleast] at hperm
      rw [hperm.eq_nil]
      rfl
  | some due =>
      obtain ⟨⟨e, he, rfl⟩, hle⟩ := isEarliest_of_earliest? hsorted hleast
      refine (List.min?_eq_some_iff.mpr ⟨List.mem_map_of_mem (hperm.mem_iff.mpr he), fun other hother => ?_⟩).symm
      obtain ⟨f, hf, rfl⟩ := List.mem_map.mp hother
      exact hle f (hperm.mem_iff.mp hf)

/-- What the queue would hand over next is due first. -/
theorem dequeue?_of_earliest? (h : q.earliest? = some due) (hdue : due ≤ now) :
    ∃ taken, q.dequeue? now = some taken := by
  obtain ⟨heap, overflow, overflowLen⟩ := q
  rw [earliest?] at h
  rw [dequeue?, fromOverflow]
  cases hheap : earliestIn heap with
  | none =>
      cases overflow with
      | nil => simp [hheap] at h
      | cons e rest =>
          simp only [hheap, List.head?_cons, Option.map_some, Option.some.injEq] at h
          subst h
          simp [hdue]
  | some least =>
      obtain ⟨f, others, hpop, rfl⟩ := popMin_of_earliestIn hheap
      cases overflow with
      | nil =>
          simp only [hheap, List.head?_nil, Option.map_none, Option.some.injEq] at h
          subst h
          simp [hpop, hdue]
      | cons e rest =>
          simp only [hheap, List.head?_cons, Option.map_some, Option.some.injEq] at h
          subst h
          by_cases hlt : e.due < f.due
          · have hle : e.due ≤ now := by omega
            simp [hlt, hle]
          · have hle : f.due ≤ now := by omega
            simp [hlt, hpop, hle]

/-- **A queue that hands over nothing more holds nothing that is due.** -/
theorem lt_of_dequeue?_eq_none (hsorted : Sorted q.overflow) (h : q.dequeue? now = none) :
    ∀ e ∈ q.heap ++ q.overflow, now < e.due := by
  intro e he
  cases hleast : q.earliest? with
  | none =>
      rw [earliest?_eq_none_iff.mp hleast] at he
      cases he
  | some due =>
      have hle := (isEarliest_of_earliest? hsorted hleast).le e he
      by_contra hlate
      obtain ⟨taken, htaken⟩ := dequeue?_of_earliest? hleast (Nat.le_trans hle (Nat.le_of_not_lt hlate))
      rw [h] at htaken
      cases htaken

theorem sorted_enqueue (h : Sorted q.overflow) (room : Bool) (e : Entry α) :
    Sorted (q.enqueue room e).overflow := by
  cases room with
  | true => exact h
  | false => exact h.link e

end Queue

/-! ### The thread -/

/-- The overflow list at this place, with the queue `q`: while a sweep is under way, those that have been
asked and stay, and those that are still to be asked. -/
def Pc.overflow (q : Queue α) : Pc α → List (Entry α)
  | siftOverflow rest => q.overflow ++ rest
  | firing _ after | dropping _ after => after.overflow q
  | _ => q.overflow

/-- **Every step of the thread leaves the overflow list sorted.** -/
theorem Keeper.Moves.sorted_overflow {isCancelled : α → Bool} {now : Nat} {room : Bool} {q : Queue α}
    {s s' : Shared α} {pc : Pc α} {k' : Keeper α} (h : Moves isCancelled now room q s pc s' k')
    (hsorted : Sorted (pc.overflow q)) : Sorted (k'.pc.overflow k'.queue) := by
  cases h with
  | listGoes rest e he =>
      exact hsorted.sublist (List.Sublist.append_left (List.sublist_cons_self ..) _)
  | listStays rest e he =>
      rw [Pc.overflow, List.append_assoc]
      exact hsorted
  | listSifted =>
      rw [Pc.overflow, List.append_nil] at hsorted
      exact hsorted
  | enqueues t chain next e inbox hnext hdue he => exact Queue.sorted_enqueue hsorted room e
  | dequeues t handed q' hdequeue => exact hsorted.sublist (Queue.takes_of_dequeue? hdequeue).overflow_sublist
  | abandonQueue => exact List.Pairwise.nil
  | _ => exact hsorted

end TaskDispatch.Timer
