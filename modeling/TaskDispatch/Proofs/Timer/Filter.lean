/-
A sweep is a filter, whatever it is answered.

A timer can be cancelled while a sweep is under way, so what a sweep does is told by the
answers that it gets, one after the other, and not by who is cancelled when.  `inquire`
answers from a series laid out in advance, any series, and writes down who was asked.

`Filters` says what is left and what goes, in terms of that series alone: every timer is
asked once, in its place; those told to go are handed over and the others stay where they
were.  Three sweeps do so (`sweep_filters`): the one that splits lists, the one that works
in place, on the array of the heap and on the links of the overflow list, and that of the
timer thread, which asks one question a step.
-/
import TaskDispatch.Proofs.Timer.Handover
import TaskDispatch.Proofs.Timer.Sweep

namespace TaskDispatch.Timer

variable {α : Type}

/-- Answers the next question of a series, and writes down who was asked and what the answer was. -/
def inquire (answers : Nat → Bool) (a : α) : StateM (List (α × Bool)) Bool := fun asked =>
  (answers asked.length, asked ++ [(a, answers asked.length)])

/-- What goes of the two containers, the heap's first. -/
def handedOver (heap overflow : List (Entry α)) : List (Handed α) :=
  heap.map (⟨.heap, ·⟩) ++ overflow.map (⟨.overflow, ·⟩)

theorem handedFrom_handedOver (heap overflow : List (Entry α)) (place : Place) :
    handedFrom place (handedOver heap overflow) =
      match place with
      | .heap => heap
      | .overflow => overflow := by
  cases place <;> simp [handedFrom, handedOver, List.filter_map, Function.comp_def]

theorem map_entry_handedOver (heap overflow : List (Entry α)) :
    (handedOver heap overflow).map (·.entry) = heap ++ overflow := by
  simp [handedOver, Function.comp_def]

namespace Queue

variable {answers : Nat → Bool} {said : Bool} {start : Nat} {list : List (Entry α)}

/-! ### Questions and answers -/

/-- The timers of a container that get this answer, when the first of them is asked the question number
`start`. -/
def answered (answers : Nat → Bool) (said : Bool) (start : Nat) (list : List (Entry α)) : List (Entry α) :=
  ((list.zipIdx start).filter fun p => answers p.2 = said).map (·.1)

/-- Who of a container is asked, and what the answer is. -/
def questions (answers : Nat → Bool) (start : Nat) (list : List (Entry α)) : List (α × Bool) :=
  (list.zipIdx start).map fun p => (p.1.item, answers p.2)

theorem answered_cons (e : Entry α) :
    answered answers said start (e :: list) =
      if answers start = said then e :: answered answers said (start + 1) list
      else answered answers said (start + 1) list := by
  rw [answered, List.zipIdx_cons, List.filter_cons]
  simp only [decide_eq_true_eq]
  split <;> rfl

theorem questions_cons (e : Entry α) :
    questions answers start (e :: list) = (e.item, answers start) :: questions answers (start + 1) list :=
  rfl

theorem questions_append (left right : List (Entry α)) :
    questions answers start (left ++ right) =
      questions answers start left ++ questions answers (start + left.length) right := by
  rw [questions, List.zipIdx_append, List.map_append]
  rfl

theorem answered_sublist : (answered answers said start list).Sublist list := by
  have hsub := (List.filter_sublist (l := list.zipIdx start) (p := fun p => answers p.2 = said)).map Prod.fst
  rwa [List.zipIdx_map_fst] at hsub

/-- Every timer gets one of the two answers. -/
theorem answered_perm (answers : Nat → Bool) (start : Nat) (list : List (Entry α)) :
    list.Perm (answered answers true start list ++ answered answers false start list) := by
  induction list generalizing start with
  | nil => exact .refl _
  | cons e rest ih =>
      rw [answered_cons, answered_cons]
      cases answers start with
      | true => exact (ih (start + 1)).cons e
      | false => exact ((ih (start + 1)).cons e).trans List.perm_middle.symm

/-! ### Lists -/

/-- A list is split by the answers, and every timer in it is asked once. -/
theorem run_sift_inquire (answers : Nat → Bool) (list : List (Entry α)) (asked : List (α × Bool)) :
    (sift (inquire answers) list).run asked =
      ((answered answers true asked.length list, answered answers false asked.length list),
        asked ++ questions answers asked.length list) := by
  induction list generalizing asked with
  | nil => exact congrArg _ (List.append_nil asked).symm
  | cons e rest ih =>
      have hrest := ih (asked ++ [(e.item, answers asked.length)])
      rw [List.length_append, List.length_singleton, List.append_assoc] at hrest
      rw [answered_cons, answered_cons, questions_cons, sift]
      show (let r := (sift (inquire answers) rest).run (asked ++ [(e.item, answers asked.length)])
        ((if answers asked.length then (e :: r.1.1, r.1.2) else (r.1.1, e :: r.1.2)), r.2)) = _
      rw [hrest]
      cases answers asked.length <;> rfl

/-- What the thread's sweep splits by a list of answers. -/
theorem siftedWith_map (answers : Nat → Bool) (start more : Nat) (list : List (Entry α)) :
    siftedWith ((List.range' start (list.length + more)).map answers) list =
      (answered answers true start list, answered answers false start list) := by
  induction list generalizing start with
  | nil => rfl
  | cons e rest ih =>
      rw [List.length_cons, Nat.add_right_comm, List.range'_succ, List.map_cons, siftedWith_cons,
        answered_cons, answered_cons]
      simp only [List.headD_cons, List.tail_cons, ih]
      cases answers start <;> rfl

/-! ### In place -/

/-- Has two timers change places. -/
def swap (entries : List (Entry α)) (i j : Nat) : List (Entry α) :=
  match entries[i]?, entries[j]? with
  | some a, some b => (entries.set i b).set j a
  | _, _ => entries

/-- Asks the timers of an array from `index` on: whoever stays changes places with the first that does
not, behind the `kept` that stay. -/
def partitionFrom {m : Type → Type} [Monad m] (ask : α → m Bool) :
    (todo index kept : Nat) → List (Entry α) → m (List (Entry α) × Nat)
  | 0, _, kept, entries => pure (entries, kept)
  | todo + 1, index, kept, entries =>
    match entries[index]? with
    | none => pure (entries, kept)
    | some e => do
      if ← ask e.item then partitionFrom ask todo (index + 1) kept entries
      else partitionFrom ask todo (index + 1) (kept + 1) (swap entries kept index)

/-- Asks the timers of a list node by node: whoever stays is linked at the tail of those that stay, and
for whoever goes the length is lowered by one. -/
def relinkFrom {m : Type → Type} [Monad m] (ask : α → m Bool) (gone kept : List (Entry α)) (len : Nat) :
    List (Entry α) → m (List (Entry α) × List (Entry α) × Nat)
  | [] => pure (gone, kept, len)
  | e :: rest => do
    if ← ask e.item then relinkFrom ask (gone ++ [e]) kept (len - 1) rest
    else relinkFrom ask gone (kept ++ [e]) len rest

/-- The sweep on the array of the heap and the nodes of the list. -/
def removeInPlace {m : Type → Type} [Monad m] (q : Queue α) (ask : α → m Bool) :
    m (List (Handed α) × Queue α) := do
  let (entries, kept) ← partitionFrom ask q.heap.length 0 0 q.heap
  let (gone, overflow, overflowLen) ← relinkFrom ask [] [] q.overflowLen q.overflow
  pure (handedOver (entries.drop kept) gone,
    { heap := entries.take kept, overflow, overflowLen })

theorem swap_self (stay rest : List (Entry α)) (e : Entry α) :
    swap (stay ++ e :: rest) stay.length stay.length = stay ++ e :: rest := by
  simp [swap]

/-- The first that goes, and the one behind all that go. -/
theorem swap_ends (stay gone rest : List (Entry α)) (g e : Entry α) :
    swap (stay ++ g :: gone ++ e :: rest) stay.length (stay.length + (gone.length + 1)) =
      stay ++ e :: gone ++ g :: rest := by
  have hfirst : (stay ++ g :: gone ++ e :: rest)[stay.length]? = some g := by simp
  have hlast : (stay ++ g :: gone ++ e :: rest)[stay.length + (gone.length + 1)]? = some e := by
    rw [List.getElem?_append_right (by simp)]
    simp
  rw [swap, hfirst, hlast]
  simp

/-- One question: who goes is left where it is, and who stays is put behind those that stay. -/
theorem partition_step (answers : Nat → Bool) (stay gone rest : List (Entry α)) (e : Entry α)
    (asked : List (α × Bool)) :
    ∃ gone', (gone'.Perm (gone ++ if answers asked.length then [e] else [])) ∧
      (partitionFrom (inquire answers) (rest.length + 1) (stay.length + gone.length) stay.length
          (stay ++ gone ++ e :: rest)).run asked =
        (let stay' := stay ++ if answers asked.length then [] else [e]
        (partitionFrom (inquire answers) rest.length (stay'.length + gone'.length) stay'.length
          (stay' ++ gone' ++ rest)).run (asked ++ [(e.item, answers asked.length)])) := by
  have hnext : (stay ++ gone ++ e :: rest)[stay.length + gone.length]? = some e := by
    rw [← List.length_append, List.getElem?_append_right (Nat.le_refl _)]
    simp
  rw [partitionFrom, hnext]
  show ∃ gone', _ ∧ (if answers asked.length then
      (partitionFrom (inquire answers) rest.length (stay.length + gone.length + 1) stay.length
        (stay ++ gone ++ e :: rest))
    else (partitionFrom (inquire answers) rest.length (stay.length + gone.length + 1) (stay.length + 1)
        (swap (stay ++ gone ++ e :: rest) stay.length (stay.length + gone.length)))).run
          (asked ++ [(e.item, answers asked.length)]) = _
  cases answers asked.length with
  | true => exact ⟨gone ++ [e], .refl _, by simp [Nat.add_assoc]⟩
  | false =>
      cases gone with
      | nil => exact ⟨[], .refl _, by simp [swap_self]⟩
      | cons g gone =>
          refine ⟨gone ++ [g], ?_, ?_⟩
          · exact (List.perm_append_singleton g gone).trans (.of_eq (List.append_nil _).symm)
          · have hswap := swap_ends stay gone rest g e
            simp only [Bool.false_eq_true, if_false, List.length_cons, hswap]
            simp [Nat.add_assoc, Nat.add_comm 1]

/-- **Behind those that stay stand those that go, and behind them those still to be asked.** -/
theorem run_partitionFrom (answers : Nat → Bool) (stay gone rest : List (Entry α))
    (asked : List (α × Bool)) :
    ∃ gone', (gone'.Perm (gone ++ answered answers true asked.length rest)) ∧
      (partitionFrom (inquire answers) rest.length (stay.length + gone.length) stay.length
          (stay ++ gone ++ rest)).run asked =
        ((stay ++ answered answers false asked.length rest ++ gone',
            (stay ++ answered answers false asked.length rest).length),
          asked ++ questions answers asked.length rest) := by
  induction rest generalizing stay gone asked with
  | nil => exact ⟨gone, by simp [answered], by simp [partitionFrom, answered, questions]; rfl⟩
  | cons e rest ih =>
      obtain ⟨gone₁, hgone₁, hstep⟩ := partition_step answers stay gone rest e asked
      obtain ⟨gone', hgone', hrest⟩ := ih (stay ++ if answers asked.length then [] else [e]) gone₁
        (asked ++ [(e.item, answers asked.length)])
      have hlen : (asked ++ [(e.item, answers asked.length)]).length = asked.length + 1 :=
        List.length_append
      rw [hlen] at hgone' hrest
      refine ⟨gone', hgone'.trans ((hgone₁.append_right _).trans ?_), ?_⟩
      · rw [answered_cons]
        cases answers asked.length <;> simp
      · rw [List.length_cons, hstep, hrest, answered_cons, questions_cons]
        cases answers asked.length <;> simp

/-- A list that is relinked keeps its order, and so do those that go. -/
theorem run_relinkFrom (answers : Nat → Bool) (gone kept rest : List (Entry α)) (len : Nat)
    (asked : List (α × Bool)) :
    (relinkFrom (inquire answers) gone kept len rest).run asked =
      ((gone ++ answered answers true asked.length rest, kept ++ answered answers false asked.length rest,
          len - (answered answers true asked.length rest).length),
        asked ++ questions answers asked.length rest) := by
  induction rest generalizing gone kept len asked with
  | nil => simp [relinkFrom, answered, questions]; rfl
  | cons e rest ih =>
      rw [relinkFrom, answered_cons, answered_cons, questions_cons]
      show (if answers asked.length then relinkFrom (inquire answers) (gone ++ [e]) kept (len - 1) rest
        else relinkFrom (inquire answers) gone (kept ++ [e]) len rest).run
          (asked ++ [(e.item, answers asked.length)]) = _
      cases answers asked.length with
      | true => simp [ih, Nat.sub_sub, Nat.add_comm 1]
      | false => simp [ih]

/-! ### The filter -/

/-- What a sweep hands over and leaves, and whom it asks, with these answers. -/
structure Filters (answers : Nat → Bool) (q : Queue α) (asked : List (α × Bool))
    (handed : List (Handed α)) (q' : Queue α) : Prop where
  /-- Every timer is asked once, those of the heap first. -/
  asked : asked = (q.heap ++ q.overflow).zipIdx.map fun p => (p.1.item, answers p.2)
  /-- No timer is lost, and none is there twice. -/
  perm : (q.heap ++ q.overflow).Perm (handed.map (·.entry) ++ (q'.heap ++ q'.overflow))
  heapGone : (handedFrom .heap handed).Perm (answered answers true 0 q.heap)
  heapKept : q'.heap.Perm (answered answers false 0 q.heap)
  overflowGone : handedFrom .overflow handed = answered answers true q.heap.length q.overflow
  overflowKept : q'.overflow = answered answers false q.heap.length q.overflow
  sorted : Sorted q.overflow → Sorted q'.overflow
  overflowLen : q'.overflowLen = q.overflowLen - (handedFrom .overflow handed).length
  overflowLen_eq : q.overflowLen = q.overflow.length → q'.overflowLen = q'.overflow.length
  /-- In whatever order the heap is rebuilt, what comes out first is due first. -/
  least : ∀ heap : List (Entry α), heap.Perm q'.heap → heap ≠ [] →
    ∃ e rest, popMin heap = some (e, rest) ∧ heap.Perm (e :: rest) ∧ ∀ f ∈ q'.heap, e.due ≤ f.due

/-- Out of a heap that is not empty comes a timer that is due first, in whatever order the heap is. -/
theorem exists_popMin {heap kept : List (Entry α)} (hperm : heap.Perm kept) (hne : heap ≠ []) :
    ∃ e rest, popMin heap = some (e, rest) ∧ heap.Perm (e :: rest) ∧ ∀ f ∈ kept, e.due ≤ f.due := by
  obtain ⟨due, hdue⟩ := Option.ne_none_iff_exists'.mp (mt earliestIn_eq_none_iff.mp hne)
  obtain ⟨e, rest, hpop, rfl⟩ := popMin_of_earliestIn hdue
  exact ⟨e, rest, hpop, popAt_perm (of_popMin hpop).2,
    fun f hf => (isEarliest_of_earliestIn hdue).le f (hperm.mem_iff.mpr hf)⟩

/-- What it takes to be such a filter: the heap is split in some order, the list in its own. -/
theorem filters_of_perm {gone heap : List (Entry α)} (q : Queue α)
    (hgone : gone.Perm (answered answers true 0 q.heap))
    (hheap : heap.Perm (answered answers false 0 q.heap)) :
    Filters answers q (questions answers 0 (q.heap ++ q.overflow))
      (handedOver gone (answered answers true q.heap.length q.overflow))
      ⟨heap, answered answers false q.heap.length q.overflow,
        q.overflowLen - (answered answers true q.heap.length q.overflow).length⟩ where
  asked := rfl
  perm := by
    have hsplit := ((answered_perm answers 0 q.heap).trans (hgone.append hheap).symm).append
      (answered_perm answers q.heap.length q.overflow)
    rw [map_entry_handedOver]
    refine hsplit.trans ?_
    simp only [List.append_assoc]
    exact (List.perm_append_comm_assoc ..).append_left gone
  heapGone := by rwa [handedFrom_handedOver]
  heapKept := hheap
  overflowGone := handedFrom_handedOver ..
  overflowKept := rfl
  sorted hsorted := hsorted.sublist answered_sublist
  overflowLen := by rw [handedFrom_handedOver]
  overflowLen_eq hlen := by
    have hsplit := (answered_perm answers q.heap.length q.overflow).length_eq
    rw [List.length_append] at hsplit
    show q.overflowLen - _ = (answered answers false q.heap.length q.overflow).length
    omega
  least _ hperm hne := exists_popMin hperm hne

/-- All that a sweep splits a queue into, if its heap is split into `gone` and those that stay. -/
def splitBy (answers : Nat → Bool) (q : Queue α) (gone : List (Entry α)) :
    (List (Handed α) × Queue α) × List (α × Bool) :=
  ((handedOver gone (answered answers true q.heap.length q.overflow),
    ⟨answered answers false 0 q.heap, answered answers false q.heap.length q.overflow,
      q.overflowLen - (answered answers true q.heap.length q.overflow).length⟩),
    questions answers 0 (q.heap ++ q.overflow))

theorem length_questions : (questions answers start list).length = list.length := by
  rw [questions, List.length_map, List.length_zipIdx]

theorem run_removeCancelled (q : Queue α) (answers : Nat → Bool) :
    (q.removeCancelled (inquire answers)).run [] = q.splitBy answers (answered answers true 0 q.heap) := by
  have hheap := run_sift_inquire answers q.heap []
  have hlist := run_sift_inquire answers q.overflow (questions answers 0 q.heap)
  rw [length_questions] at hlist
  simp only [List.nil_append, List.length_nil] at hheap
  rw [splitBy, questions_append, Nat.zero_add]
  show (let heap := (sift (inquire answers) q.heap).run []
    let list := (sift (inquire answers) q.overflow).run heap.2
    ((handedOver heap.1.1 list.1.1,
      (⟨heap.1.2, list.1.2, q.overflowLen - list.1.1.length⟩ : Queue α)), list.2)) = _
  simp only [hheap, hlist]

theorem run_removeInPlace (q : Queue α) (answers : Nat → Bool) :
    ∃ gone, gone.Perm (answered answers true 0 q.heap) ∧
      (q.removeInPlace (inquire answers)).run [] = q.splitBy answers gone := by
  obtain ⟨gone, hgone, hheap⟩ := run_partitionFrom answers [] [] q.heap []
  have hlist := run_relinkFrom answers [] [] q.overflow q.overflowLen (questions answers 0 q.heap)
  rw [length_questions] at hlist
  simp only [List.nil_append, List.length_nil, Nat.add_zero] at hheap hlist
  refine ⟨gone, hgone, ?_⟩
  rw [splitBy, questions_append, Nat.zero_add]
  show (let heap := (partitionFrom (inquire answers) q.heap.length 0 0 q.heap).run []
    let list := (relinkFrom (inquire answers) [] [] q.overflowLen q.overflow).run heap.2
    ((handedOver (heap.1.1.drop heap.1.2) list.1.1,
      (⟨heap.1.1.take heap.1.2, list.1.2.1, list.1.2.2⟩ : Queue α)), list.2)) = _
  simp only [hheap, hlist, List.take_left, List.drop_left]

theorem sweptWith_map (q : Queue α) (answers : Nat → Bool) :
    q.sweptWith ((List.range (q.heap.length + q.overflow.length)).map answers) =
      (q.splitBy answers (answered answers true 0 q.heap)).1 := by
  have hdrop : ((List.range (q.heap.length + q.overflow.length)).map answers).drop q.heap.length =
      (List.range' q.heap.length (q.overflow.length + 0)).map answers := by
    rw [← List.map_drop, List.range_eq_range', List.drop_range']
    simp
  rw [sweptWith_eq, hdrop, siftedWith_map, List.range_eq_range', siftedWith_map]
  rfl

/-- **A sweep is a filter**: it asks every timer once, hands over those that say yes, and leaves the others
where they are, whatever the answers.  So does the sweep in place, and the thread's. -/
theorem sweep_is_a_filter (s : Shared α) (q : Queue α) (answers : Nat → Bool) :
    let swept := (q.removeCancelled (inquire answers)).run []
    let inPlace := (q.removeInPlace (inquire answers)).run []
    Filters answers q swept.2 swept.1.1 swept.1.2 ∧
      Filters answers q inPlace.2 inPlace.1.1 inPlace.1.2 ∧
      Leads (Sweeping.step? s)
        ⟨⟨{ q with heap := [] }, .siftHeap [] [] q.heap⟩, [],
          (List.range (q.heap.length + q.overflow.length)).map answers⟩
        ⟨⟨swept.1.2, .clock⟩, swept.1.1.map (·.entry.item), []⟩ := by
  obtain ⟨gone, hgone, hinPlace⟩ := run_removeInPlace q answers
  have hthread := Sweeping.leads_to_removeCancelled s q
    ((List.range (q.heap.length + q.overflow.length)).map answers)
  rw [sweptWith_map, List.drop_drop, List.drop_of_length_le (by simp)] at hthread
  rw [run_removeCancelled, hinPlace]
  exact ⟨filters_of_perm q (.refl _) (.refl _), filters_of_perm q hgone (.refl _), hthread⟩

/-- The first and the third timer of the array go, and so does the first of the list. -/
example :
    ((⟨[⟨4, 0⟩, ⟨1, 1⟩, ⟨3, 2⟩, ⟨2, 3⟩], [⟨5, 4⟩, ⟨5, 5⟩], 2⟩ : Queue Nat).removeInPlace
        (inquire (· % 2 == 0))).run [] =
      ((handedOver [⟨3, 2⟩, ⟨4, 0⟩] [⟨5, 4⟩], ⟨[⟨1, 1⟩, ⟨2, 3⟩], [⟨5, 5⟩], 1⟩),
        [(0, true), (1, false), (2, true), (3, false), (4, true), (5, false)]) :=
  rfl

end Queue

end TaskDispatch.Timer
