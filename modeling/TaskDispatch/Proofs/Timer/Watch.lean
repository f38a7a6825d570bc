/-
What the timer thread has still to do.

Three questions about the thread are answered step by step.  Which timers does it hold
that no sweep under way will ask (`Pc.held`)?  Will it detach the inbox before it parks
again (`Pc.willDetach`)?  Will it look at the sweep flag before it parks again, or never
park again at all (`Pc.seesSweep`)?

A timer comes to be held only in the step that asks it and is told that it is not
cancelled.  The flag and the inbox are left alone until the thread attends to them,
and it lowers its signal only where it is about to.  Those who call the thread leave it
nothing to see without signalling next.
-/
import TaskDispatch.Proofs.Timer.Keeper
import TaskDispatch.Proofs.Timer.Stock
import TaskDispatch.Timer.Caller

namespace TaskDispatch.Timer

variable {α : Type}

/-! ### What the thread has still to do -/

namespace Pc

/-- The timers that the thread holds and that no sweep under way will ask, with the queue `q`. -/
def held (q : Queue α) : Pc α → List (Entry α)
  | siftHeap kept _ _ => kept
  | firing _ after | dropping _ after => after.held q
  | _ => q.heap ++ q.overflow

/-- Whether the thread will detach the inbox before it parks again. -/
def willDetach : Pc α → Bool
  | shutdown | sweep | siftHeap .. | siftOverflow _ | clock | detach _ => true
  | waiting .expired | waiting .returned => true
  | abandonQueue | abandonIntake => true
  | firing _ after | dropping _ after => after.willDetach
  | _ => false

/-- Whether the thread will look at the sweep flag before it parks again, or will not park again. -/
def seesSweep : Pc α → Bool
  | shutdown | sweep => true
  | waiting .expired | waiting .returned => true
  | abandonQueue | abandonIntake | abandonChain _ | exited => true
  | firing _ after | dropping _ after => after.seesSweep
  | _ => false

end Pc

/-- Taking the first node of a detached chain leaves the head of the list alone. -/
theorem Inbox.head_of_next? {l l' : Inbox α} {chain next : Option Nat} {item : α}
    (h : l.next? chain = some (item, next, l')) : l'.head = l.head := by
  cases chain with
  | none => cases h
  | some slot =>
      cases hslot : l.nodes.remove? slot with
      | mk node nodes =>
          cases node with
          | none => simp [Inbox.next?, hslot] at h
          | some node =>
              simp only [Inbox.next?, hslot, Option.bind_eq_bind, Option.bind_some, Option.pure_def,
                Option.some.injEq, Prod.mk.injEq] at h
              rw [← h.2.2]

/-- A detached list that begins nowhere holds nothing. -/
theorem Inbox.takeAll_of_head_eq_none {l : Inbox α} (h : l.head = none) : l.takeAll.1 = [] := by
  rw [takeAll, detach, h]
  show (collect l.nodes.len _ none).1 = []
  cases l.nodes.len <;> rfl

namespace Queue

theorem mem_enqueue {q : Queue α} {room : Bool} {e f : Entry α}
    (h : f ∈ (q.enqueue room e).heap ++ (q.enqueue room e).overflow) :
    f = e ∨ f ∈ q.heap ++ q.overflow :=
  List.mem_cons.mp ((enqueue_perm q room e).mem_iff.mp h)

/-- What is still queued after a timer has been taken was queued before. -/
theorem mem_of_dequeue? {q q' : Queue α} {now : Nat} {handed : Handed α} {f : Entry α}
    (h : q.dequeue? now = some (handed, q')) (hf : f ∈ q'.heap ++ q'.overflow) :
    f ∈ q.heap ++ q.overflow :=
  (takes_of_dequeue? h).perm.mem_iff.mpr (List.mem_cons_of_mem _ hf)

end Queue

namespace Keeper

variable {isCancelled : α → Bool} {now : Nat} {room : Bool} {q : Queue α} {s s' : Shared α}
  {pc : Pc α} {k' : Keeper α}

/-- **A timer is held only if it was held before, or has just said that it is not cancelled.**  A sweep
flag that is up when the thread swaps it leaves no timer held. -/
theorem Moves.held (h : Moves isCancelled now room q s pc s' k') {e : Entry α}
    (he : e ∈ k'.pc.held k'.queue) :
    isCancelled e.item = false ∨ e ∈ pc.held q ∧ s'.sweepRequested = s.sweepRequested := by
  cases h with
  | skip hskip =>
      rcases hskip with hflag | hempty
      · exact Or.inr ⟨he, hflag.symm⟩
      · obtain ⟨heap, overflow, overflowLen⟩ := q
        simp only [Queue.isEmpty, Bool.and_eq_true, List.isEmpty_iff] at hempty
        obtain ⟨rfl, rfl⟩ := hempty
        cases he
  | sweep hflag hq => cases he
  | heapStays kept gone rest f hf =>
      rcases List.mem_append.mp he with hkept | hnew
      · exact Or.inr ⟨hkept, rfl⟩
      · rw [List.mem_singleton.mp hnew]
        exact Or.inl hf
  | heapSifted kept gone =>
      refine Or.inr ⟨?_, rfl⟩
      change e ∈ kept ++ [] at he
      rwa [List.append_nil] at he
  | listStays rest f hf =>
      change e ∈ q.heap ++ (q.overflow ++ [f]) at he
      rw [← List.append_assoc] at he
      rcases List.mem_append.mp he with hheld | hnew
      · exact Or.inr ⟨hheld, rfl⟩
      · rw [List.mem_singleton.mp hnew]
        exact Or.inl hf
  | enqueues t chain next f inbox hnext hdue hf =>
      rcases Queue.mem_enqueue he with rfl | hheld
      · exact Or.inl hf
      · exact Or.inr ⟨hheld, rfl⟩
  | dequeues t handed q' hdequeue => exact Or.inr ⟨Queue.mem_of_dequeue? hdequeue he, rfl⟩
  | abandonQueue => cases he
  | _ => exact Or.inr ⟨he, rfl⟩

/-- **The thread leaves no timer on the inbox behind when it parks**, unless somebody will signal it. -/
theorem Moves.intake (h : Moves isCancelled now room q s pc s' k') (hhead : s'.inbox.head ≠ none) :
    s.inbox.head ≠ none ∧ (s.signal.signalled = true ∨ pc.willDetach = true →
      s'.signal.signalled = true ∨ k'.pc.willDetach = true) := by
  cases h with
  | detach t => exact absurd rfl hhead
  | abandonIntake => exact absurd rfl hhead
  | fires t chain next e inbox hnext he =>
      rw [← Inbox.head_of_next? hnext]
      exact ⟨hhead, id⟩
  | enqueues t chain next e inbox hnext hdue he =>
      rw [← Inbox.head_of_next? hnext]
      exact ⟨hhead, id⟩
  | abandons chain next e inbox hnext =>
      rw [← Inbox.head_of_next? hnext]
      exact ⟨hhead, id⟩
  | release hs => exact ⟨hhead, fun _ => Or.inr rfl⟩
  | expires hs due hdue hnow => exact ⟨hhead, fun _ => Or.inr rfl⟩
  | expired => exact ⟨hhead, fun _ => Or.inr rfl⟩
  | _ => exact ⟨hhead, id⟩

/-- **The thread leaves no sweep flag up when it parks**, unless somebody will signal it. -/
theorem Moves.flag (h : Moves isCancelled now room q s pc s' k') (hflag : s'.sweepRequested = true) :
    s.sweepRequested = true ∧ (s.signal.signalled = true ∨ pc.seesSweep = true →
      s'.signal.signalled = true ∨ k'.pc.seesSweep = true) := by
  cases h with
  | skip hskip => cases hflag
  | sweep hs hq => cases hflag
  | release hs => exact ⟨hflag, fun _ => Or.inr rfl⟩
  | expires hs due hdue hnow => exact ⟨hflag, fun _ => Or.inr rfl⟩
  | expired => exact ⟨hflag, fun _ => Or.inr rfl⟩
  | _ => exact ⟨hflag, id⟩

/-- What the thread serves is no longer its to hold, and serving changes nothing else. -/
theorem served_keeps {k k' : Keeper α} {a : α} (h : k.served? = some (a, k')) :
    k'.queue = k.queue ∧ k'.pc.held k'.queue = k.pc.held k.queue ∧
      k'.pc.willDetach = k.pc.willDetach ∧ k'.pc.seesSweep = k.pc.seesSweep := by
  obtain ⟨queue, pc⟩ := k
  cases pc with
  | firing timers after | dropping timers after =>
      cases timers with
      | nil => cases h
      | cons b rest =>
          cases h
          exact ⟨rfl, rfl, rfl, rfl⟩
  | _ => cases h

end Keeper

/-! ### Those who call the thread -/

/-- A push that makes an empty list hold something knows that it was empty. -/
theorem Inbox.Push.head_step {pc : Push α} {spurious : Bool} {l : Inbox α}
    (h : (pc.step spurious l).1.head ≠ none) :
    l.head ≠ none ∨ (pc.step spurious l).2 = .pushed true := by
  cases pc with
  | exchange slot seen =>
      rw [step] at h ⊢
      by_cases hsame : (l.head = seen && !spurious) = true
      · rw [if_pos hsame]
        obtain ⟨hhead, -⟩ := Bool.and_eq_true_iff.mp hsame
        rw [of_decide_eq_true hhead]
        cases seen with
        | none => exact Or.inr rfl
        | some other => exact Or.inl nofun
      · rw [if_neg hsame] at h
        exact Or.inl h
  | place item | load slot | link slot seen | pushed wasEmpty => exact Or.inl h

namespace Caller

variable {c : Caller α} {spurious : Bool} {s : Shared α}

/-- Whether the caller signals next. -/
def signals : Caller α → Bool
  | signal | arm (.pushed true) => true
  | _ => false

/-- Whether the caller raises the sweep flag next. -/
def sweeps : Caller α → Bool
  | sweep => true
  | _ => false

/-- While a push is under way only the inbox changes. -/
theorem step_arm {pc : Inbox.Push (Entry α)} (hpc : ∀ wasEmpty, pc ≠ .pushed wasEmpty) :
    (arm pc).step spurious s =
      ({ s with inbox := (pc.step spurious s.inbox).1 }, arm (pc.step spurious s.inbox).2) := by
  cases pc with
  | pushed wasEmpty => exact absurd rfl (hpc wasEmpty)
  | _ => rfl

/-- No caller lowers the signal, and one that is about to raise it does. -/
theorem signalled_step (h : s.signal.signalled = true ∨ c.signals = true) :
    (c.step spurious s).1.signal.signalled = true := by
  cases c with
  | sweep | shutdown | done =>
      rcases h with hup | hsignals
      · exact hup
      · cases hsignals
  | signal => rfl
  | arm pc =>
      cases pc with
      | pushed wasEmpty =>
          cases wasEmpty with
          | true => rfl
          | false =>
              rcases h with hup | hsignals
              · exact hup
              · cases hsignals
      | place item | load slot | link slot seen | exchange slot seen =>
          rcases h with hup | hsignals
          · exact hup
          · cases hsignals

/-- No caller lowers the sweep flag, and one that is about to raise it does. -/
theorem sweepRequested_step (h : s.sweepRequested = true ∨ c.sweeps = true) :
    (c.step spurious s).1.sweepRequested = true := by
  cases c with
  | sweep => rfl
  | arm pc =>
      rcases h with hup | hsweeps
      · cases pc with
        | pushed wasEmpty => cases wasEmpty <;> exact hup
        | place item | load slot | link slot seen | exchange slot seen => exact hup
      · cases hsweeps
  | shutdown | signal | done =>
      rcases h with hup | hsweeps
      · exact hup
      · cases hsweeps

/-- **Whoever gives an idle thread something to see signals next.** -/
theorem signals_step :
    ((c.step spurious s).1.inbox.head ≠ none →
      s.inbox.head ≠ none ∨ (c.step spurious s).2.signals = true) ∧
    ((c.step spurious s).1.sweepRequested = true →
      s.sweepRequested = true ∨ (c.step spurious s).2.signals = true) := by
  cases c with
  | sweep | shutdown => exact ⟨fun _ => Or.inr rfl, fun _ => Or.inr rfl⟩
  | signal | done => exact ⟨Or.inl, Or.inl⟩
  | arm pc =>
      by_cases hdone : ∃ wasEmpty, pc = .pushed wasEmpty
      · obtain ⟨wasEmpty, rfl⟩ := hdone
        cases wasEmpty <;> exact ⟨Or.inl, Or.inl⟩
      · rw [step_arm fun wasEmpty heq => hdone ⟨wasEmpty, heq⟩]
        refine ⟨fun hhead => (Inbox.Push.head_step hhead).imp_right fun hpushed => ?_, Or.inl⟩
        rw [hpushed]
        rfl

end Caller

end TaskDispatch.Timer
