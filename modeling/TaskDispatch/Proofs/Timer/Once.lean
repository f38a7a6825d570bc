/-
A timer is fired at most once.

A timer is in one place at a time: with the wait that has still to arm it, in a slot of
the inbox, in the queue, in a sweep, or among those the thread is about to fire.  Every
step of the thread and of its callers hands it from one place to the next, so the number
of its copies never grows (`Once`), and a firing uses one up.
-/
import TaskDispatch.Proofs.Timer.Registration

namespace TaskDispatch

namespace Timer

variable {α : Type}

/-! ### Where the timers of a kind are -/

/-- How many timers of a kind are in the slots of the inbox. -/
def Inbox.copies (p : α → Bool) (l : Inbox (Entry α)) : Nat := l.nodes.liveCount fun n => p n.item.item

/-- How many timers of a kind are in the queue. -/
def Queue.copies (p : α → Bool) (q : Queue α) : Nat := (q.heap ++ q.overflow).countP fun e => p e.item

/-- How many timers of a kind the thread has in hand, at this place and with the queue `q`; a sweep has
taken the heap's timers out of the queue. -/
def Pc.copies (p : α → Bool) (q : Queue α) : Pc α → Nat
  | siftHeap kept gone rest => (kept ++ gone ++ rest ++ q.overflow).countP fun e => p e.item
  | siftOverflow rest => rest.countP (fun e => p e.item) + q.copies p
  | firing timers after | dropping timers after => timers.countP p + after.copies p q
  | _ => q.copies p

/-- How many timers of a kind a caller has still to put into a slot. -/
def Caller.copies (p : α → Bool) : Caller α → Nat
  | arm (.place e) => (p e.item).toNat
  | _ => 0

/-- How many timers of a kind an errand has still to put into a slot. -/
def Errand.copies (p : α → Bool) : Errand α → Nat
  | call c => c.copies p
  | arrive => 0

/-- How many timers of a kind the wait with number `i` has not put into a slot; one that is refused
never does. -/
def Wait.copies (p : Nat → Bool) (i : Nat) (w : Wait) : Nat :=
  match w.place with
  | .checking | .refused | .enrolling => (p i).toNat
  | .busy left => (left.map (Errand.copies p)).sum
  | .pending | .left => 0

variable {p : α → Bool}

theorem Inbox.copies_of_next? {l l' : Inbox (Entry α)} {chain next : Option Nat} {e : Entry α}
    (h : l.next? chain = some (e, next, l')) : l'.copies p + (p e.item).toNat = l.copies p := by
  cases chain with
  | none => cases h
  | some slot =>
      cases hslot : l.nodes.remove? slot with
      | mk node nodes =>
          cases node with
          | none => simp [Inbox.next?, hslot] at h
          | some node =>
              simp only [Inbox.next?, hslot, Option.bind_eq_bind, Option.bind_some, Option.pure_def,
                Option.some.injEq, Prod.mk.injEq] at h
              obtain ⟨rfl, -, rfl⟩ := h
              exact Slab.liveCount_of_remove? (fun n => p n.item.item) hslot

theorem Inbox.copies_push_le (pc : Inbox.Push (Entry α)) (spurious : Bool) (l : Inbox (Entry α)) :
    (pc.step spurious l).1.copies p + (Caller.arm (pc.step spurious l).2).copies p
      ≤ l.copies p + (Caller.arm pc).copies p := by
  cases pc with
  | place e => exact Slab.liveCount_insert_le (fun n => p n.item.item) l.nodes { item := e }
  | load slot => exact Nat.le_refl _
  | link slot seen =>
      have hsame : (l.nodes.modify slot fun n => { n with next := seen }).liveCount
          (fun n => p n.item.item) = l.copies p :=
        Slab.liveCount_modify _ _ _ fun _ => rfl
      exact Nat.le_of_eq hsame
  | exchange slot seen =>
      rw [Push.step]
      split <;> exact Nat.le_refl _
  | pushed wasEmpty => exact Nat.le_refl _

/-- A step of a caller hands its timer on at most once. -/
theorem Caller.copies_step_le (c : Caller α) (spurious : Bool) (s : Shared α) :
    (c.step spurious s).1.inbox.copies p + (c.step spurious s).2.copies p
      ≤ s.inbox.copies p + c.copies p := by
  cases c with
  | sweep | shutdown | signal | done => exact Nat.le_refl _
  | arm pc =>
      cases pc with
      | pushed wasEmpty => cases wasEmpty <;> exact Nat.le_refl _
      | place e => exact Inbox.copies_push_le (.place e) spurious s.inbox
      | load slot => exact Inbox.copies_push_le (.load slot) spurious s.inbox
      | link slot seen => exact Inbox.copies_push_le (.link slot seen) spurious s.inbox
      | exchange slot seen => exact Inbox.copies_push_le (.exchange slot seen) spurious s.inbox

/-- A caller never comes to have more to put into a slot. -/
theorem Caller.copies_step_self_le (c : Caller α) (spurious : Bool) (s : Shared α) :
    (c.step spurious s).2.copies p ≤ c.copies p := by
  cases c with
  | sweep | shutdown | signal | done => exact Nat.le_refl _
  | arm pc =>
      cases pc with
      | pushed wasEmpty => cases wasEmpty <;> exact Nat.le_refl _
      | place e => exact Nat.zero_le _
      | load slot | link slot seen => exact Nat.le_refl _
      | exchange slot seen =>
          simp only [step, Inbox.Push.step]
          split <;> exact Nat.le_refl _

/-! ### The queue -/

namespace Queue

theorem copies_enqueue (q : Queue α) (room : Bool) (e : Entry α) :
    (q.enqueue room e).copies p = q.copies p + (p e.item).toNat := by
  rw [copies, (enqueue_perm q room e).countP_eq, countP_cons_eq_add]
  rfl

theorem copies_of_dequeue? {q q' : Queue α} {now : Nat} {handed : Handed α}
    (h : q.dequeue? now = some (handed, q')) :
    q'.copies p + (p handed.entry.item).toNat = q.copies p := by
  rw [copies, copies, (takes_of_dequeue? h).perm.countP_eq, countP_cons_eq_add]

end Queue

/-! ### The thread -/

namespace Keeper

variable {isCancelled : α → Bool} {now : Nat} {room : Bool} {q : Queue α} {s s' : Shared α}
  {pc : Pc α} {k' : Keeper α}

/-- **Every step of the thread hands its timers on, and neither makes nor loses a copy.** -/
theorem Moves.copies (h : Moves isCancelled now room q s pc s' k') :
    s'.inbox.copies p + k'.pc.copies p k'.queue = s.inbox.copies p + pc.copies p q := by
  cases h with
  | sweep hflag hq =>
      simp only [Pc.copies, Queue.copies, List.countP_append, List.countP_nil]
      omega
  | heapGoes kept gone rest e he =>
      simp only [Pc.copies, List.countP_append, countP_cons_eq_add, List.countP_nil]
      omega
  | heapStays kept gone rest e he =>
      simp only [Pc.copies, List.countP_append, countP_cons_eq_add, List.countP_nil]
      omega
  | heapSifted kept gone =>
      have hgone : (gone.map (·.item)).countP p = gone.countP fun e => p e.item := by
        rw [List.countP_map]
        rfl
      simp only [Pc.copies, Queue.copies, List.countP_append, List.countP_nil, hgone]
      omega
  | listGoes rest e he =>
      simp only [Pc.copies, Queue.copies, List.countP_append, countP_cons_eq_add, List.countP_nil]
      omega
  | listStays rest e he =>
      simp only [Pc.copies, Queue.copies, List.countP_append, countP_cons_eq_add, List.countP_nil]
      omega
  | listSifted =>
      simp only [Pc.copies, List.countP_nil]
      omega
  | fires t chain next e inbox hnext he =>
      have := Inbox.copies_of_next? (p := p) hnext
      simp only [Pc.copies, countP_cons_eq_add, List.countP_nil]
      omega
  | enqueues t chain next e inbox hnext hdue he =>
      have := Inbox.copies_of_next? (p := p) hnext
      simp only [Pc.copies, Queue.copies_enqueue]
      omega
  | dequeues t handed q' hdequeue =>
      have := Queue.copies_of_dequeue? (p := p) hdequeue
      simp only [Pc.copies, countP_cons_eq_add, List.countP_nil]
      omega
  | abandonQueue =>
      have hdrain : (q.drain.1.map (·.entry.item)).countP p = q.copies p := by
        simp [Queue.drain, Queue.copies, List.countP_map, Function.comp_def]
      simp only [Pc.copies, hdrain]
      rfl
  | abandons chain next e inbox hnext =>
      have := Inbox.copies_of_next? (p := p) hnext
      simp only [Pc.copies, countP_cons_eq_add, List.countP_nil]
      omega
  | fired after => simp [Pc.copies]
  | dropped after => simp [Pc.copies]
  | _ => rfl

/-- What the thread serves is one copy less in its hands. -/
theorem copies_of_served? {k k' : Keeper α} {a : α} (h : k.served? = some (a, k')) :
    k'.pc.copies p k'.queue + (p a).toNat = k.pc.copies p k.queue := by
  obtain ⟨queue, pc⟩ := k
  cases pc with
  | firing timers after | dropping timers after =>
      cases timers with
      | nil => cases h
      | cons b rest =>
          cases h
          simp only [Pc.copies, countP_cons_eq_add]
          omega
  | _ => cases h

end Keeper

/-! ### Those who arm -/

variable {p : Nat → Bool} {i : Nat}

theorem copies_errands (p : Nat → Bool) (late : Bool) (e : Entry Nat) :
    ((errands late e).map (Errand.copies p)).sum = (p e.item).toNat := by
  cases late <;> simp [errands, Errand.copies, Caller.copies]

/-- A step of a wait hands its timer on at most once, and leaves the wait no more to hand on. -/
theorem Wait.Moves.copies_le {w w' : Wait} {d d' : Desk} (h : Wait.Moves i w d d' w') :
    d'.shared.inbox.copies p + w'.copies p i ≤ d.shared.inbox.copies p + w.copies p i ∧
      w'.copies p i ≤ w.copies p i := by
  cases h with
  | refuse hp hrequested => simp [Wait.copies, hp]
  | check hp hrequested => simp [Wait.copies, hp]
  | free hp hnone => simp [Wait.copies, hp, copies_errands]
  | late hp k hk hrequested => simp [Wait.copies, hp, copies_errands]
  | enrol hp k hk hopen => simp [Wait.copies, hp, copies_errands, Desk.putSource]
  | call c rest spurious hp =>
      have hstep := Caller.copies_step_le (p := p) c spurious d.shared
      have hself := Caller.copies_step_self_le (p := p) c spurious d.shared
      simp only [Wait.copies, hp, List.map_cons, List.sum_cons, Errand.copies, Desk.call]
      omega
  | called rest hp =>
      simp only [Wait.copies, hp, List.map_cons, List.sum_cons]
      omega
  | arrive rest hp =>
      simp only [Wait.copies, hp, List.map_cons, List.sum_cons]
      omega
  | settle hp => simp [Wait.copies]

theorem Requester.Moves.copies_le {r r' : Requester} {d d' : Desk} (h : Requester.Moves r d d' r')
    (hr : ∀ c, r.caller? = some c → c.copies p = 0) :
    d'.shared.inbox.copies p ≤ d.shared.inbox.copies p ∧ ∀ c, r'.caller? = some c → c.copies p = 0 := by
  cases h with
  | run j rest hp => exact ⟨Nat.le_refl _, fun c hc => by cases hc; rfl⟩
  | call c rest spurious hp =>
      have hzero := hr c (by rw [Requester.caller?, hp])
      have hstep := Caller.copies_step_le (p := p) c spurious d.shared
      have hself := Caller.copies_step_self_le (p := p) c spurious d.shared
      refine ⟨?_, ?_⟩
      · show (c.step spurious d.shared).1.inbox.copies p ≤ _
        omega
      · intro c' hc'
        cases hc'
        show (c.step spurious d.shared).2.copies p = 0
        omega
  | _ => exact ⟨Nat.le_refl _, fun c hc => by cases hc⟩

/-! ### The whole -/

namespace TimedWaits

/-- Whether the act fires the timer of the wait with number `i`. -/
def fires (s : TimedWaits) (i : Nat) : Act → Bool
  | .keep .. =>
    match s.keeper.pc with
    | .firing (j :: _) _ => j == i
    | _ => false
  | _ => false

/-- How many copies of its timer the wait with number `i` has not put into a slot, also before it has
begun. -/
def unarmed (s : TimedWaits) (i : Nat) : Nat :=
  match s.waits[i]? with
  | none => 1
  | some w => w.copies (· == i) i

/-- The timer of the wait with number `i` has been fired so often, and nobody else has it to arm. -/
structure Once (i fired : Nat) (s : TimedWaits) : Prop where
  others : ∀ j w, s.waits[j]? = some w → j ≠ i → w.copies (· == i) j = 0
  requests : ∀ r ∈ s.requests, ∀ c, r.caller? = some c → c.copies (· == i) = 0
  closers : ∀ c ∈ s.closers, c.copies (· == i) = 0
  once : fired + s.desk.shared.inbox.copies (· == i) + s.keeper.pc.copies (· == i) s.keeper.queue +
    s.unarmed i ≤ 1

theorem once_start (i : Nat) : Once i 0 {} where
  others := nofun
  requests := nofun
  closers := nofun
  once := Nat.le_refl 1

namespace Once

variable {fired : Nat} {s s' : TimedWaits}

theorem wait (h : Once i fired s) (source : Option Nat) (due : Nat) :
    Once i fired { s with waits := s.waits ++ [{ source, due }] } := by
  refine ⟨?_, h.requests, h.closers, ?_⟩
  · intro j w hw hj
    rcases getElem?_of_join hw with rfl | hold
    · simp [Wait.copies, hj]
    · exact h.others j w hold hj
  · have hunarmed : unarmed { s with waits := s.waits ++ [{ source, due }] } i ≤ s.unarmed i := by
      unfold unarmed
      cases hi : s.waits[i]? with
      | none =>
          simp only
          split
          · exact Nat.le_refl 1
          · next w hw =>
              rcases getElem?_of_join hw with rfl | hold
              · simp [Wait.copies]
              · rw [hi] at hold
                cases hold
      | some w =>
          have hlt := (List.getElem?_eq_some_iff.mp hi).1
          exact Nat.le_of_eq (by rw [List.getElem?_append_left hlt, hi])
    have := h.once
    simp only at this ⊢
    omega

theorem register {j : Nat} {w w' : Wait} {d : Desk} (h : Once i fired s) (hw : s.waits[j]? = some w)
    (hmove : Wait.Moves j w s.desk d w') :
    Once i fired { s with desk := d, waits := s.waits.set j w' } := by
  obtain ⟨hsum, hself⟩ := hmove.copies_le (p := (· == i))
  refine ⟨?_, h.requests, h.closers, ?_⟩
  · intro k v hv hk
    rcases getElem?_of_set hv with ⟨rfl, rfl⟩ | ⟨-, hold⟩
    · have := h.others k w hw hk
      omega
    · exact h.others k v hold hk
  · have honce := h.once
    by_cases hj : j = i
    · subst hj
      have hnew : (s.waits.set j w')[j]? = some w' := by
        rw [List.getElem?_set_self (List.getElem?_eq_some_iff.mp hw).1]
      simp only [unarmed, hw] at honce
      simp only [unarmed, hnew]
      omega
    · have hzero := h.others j w hw hj
      have hsame : (s.waits.set j w')[i]? = s.waits[i]? := List.getElem?_set_ne hj
      simp only [unarmed] at honce
      simp only [unarmed, hsame]
      omega

theorem leave {j : Nat} {w : Wait} (h : Once i fired s) (hw : s.waits[j]? = some w)
    (hp : w.place = .pending) :
    Once i fired { s with
      desk := w.withdraw s.desk
      waits := s.waits.set j { w with key := none, place := .left } } := by
  refine ⟨?_, h.requests, h.closers, ?_⟩
  · intro k v hv hk
    rcases getElem?_of_set hv with ⟨-, rfl⟩ | ⟨-, hold⟩
    · rfl
    · exact h.others k v hold hk
  · have honce := h.once
    have hunarmed : unarmed { s with
        desk := w.withdraw s.desk
        waits := s.waits.set j { w with key := none, place := .left } } i = s.unarmed i := by
      unfold unarmed
      by_cases hj : j = i
      · subst hj
        simp only [List.getElem?_set_self (List.getElem?_eq_some_iff.mp hw).1, hw, Wait.copies, hp]
      · simp only [List.getElem?_set_ne hj]
    rw [hunarmed, Wait.withdraw_shared]
    exact honce

theorem cancel {j : Nat} {r r' : Requester} {d : Desk} (h : Once i fired s)
    (hr : s.requests[j]? = some r) (hmove : Requester.Moves r s.desk d r') :
    Once i fired { s with desk := d, requests := s.requests.set j r' } := by
  obtain ⟨hsum, hself⟩ := hmove.copies_le (p := (· == i)) (h.requests r (List.mem_of_getElem? hr))
  refine ⟨h.others, ?_, h.closers, ?_⟩
  · intro q hq
    rcases mem_of_mem_set hq with rfl | hold
    · exact hself
    · exact h.requests q hold
  · have honce := h.once
    simp only [unarmed] at honce ⊢
    omega

theorem shut {j : Nat} {c : Caller Nat} {spurious : Bool} (h : Once i fired s)
    (hc : s.closers[j]? = some c) :
    Once i fired { s with
      desk := (s.desk.call spurious c).1
      closers := s.closers.set j (s.desk.call spurious c).2 } := by
  have hzero := h.closers c (List.mem_of_getElem? hc)
  have hstep := Caller.copies_step_le (p := (· == i)) c spurious s.desk.shared
  have hself := Caller.copies_step_self_le (p := (· == i)) c spurious s.desk.shared
  refine ⟨h.others, h.requests, ?_, ?_⟩
  · intro d hd
    rcases mem_of_mem_set hd with rfl | hold
    · show (c.step spurious s.desk.shared).2.copies (· == i) = 0
      omega
    · exact h.closers d hold
  · have honce := h.once
    simp only [unarmed, Desk.call] at honce ⊢
    omega

/-- A firing or a letting go changes nothing for who has still to arm. -/
theorem unarmed_of_served {waits : List Wait} {keeper : Keeper Nat}
    (hw : ∀ j : Nat, waits[j]? = s.waits[j]? ∨ waits[j]? = (s.waits[j]?).map Wait.arrive) :
    unarmed { s with keeper, waits } i = s.unarmed i := by
  unfold unarmed
  rcases hw i with hsame | harrived
  · simp only [hsame]
  · simp only [harrived]
    cases s.waits[i]? <;> rfl

theorem serve {j : Nat} {keeper : Keeper Nat} {waits : List Wait} {n : Nat} (h : Once i fired s)
    (hserved : s.keeper.served? = some (j, keeper)) (hn : n ≤ (j == i).toNat)
    (hw : ∀ j : Nat, waits[j]? = s.waits[j]? ∨ waits[j]? = (s.waits[j]?).map Wait.arrive) :
    Once i (fired + n) { s with keeper, waits } := by
  refine ⟨?_, h.requests, h.closers, ?_⟩
  · intro k w hget hk
    obtain ⟨v, hv, rfl | rfl⟩ := Wait.of_served hw hget
    · exact h.others k _ hv hk
    · exact h.others k v hv hk
  · have honce := h.once
    have hcopies := Keeper.copies_of_served? (p := (· == i)) hserved
    rw [unarmed_of_served hw]
    simp only at hcopies ⊢
    omega

/-- Every act keeps the timer in one place. -/
theorem of_turns (h : Once i fired s) (hturn : Turns s s') : Once i fired s' := by
  cases hturn with
  | wait source due => exact h.wait source due
  | request source =>
      refine ⟨h.others, ?_, h.closers, h.once⟩
      intro r hr c hc
      rcases List.mem_append.mp hr with hold | hnew
      · exact h.requests r hold c hc
      · rw [List.mem_singleton.mp hnew] at hc
        cases hc
  | close =>
      refine ⟨h.others, h.requests, ?_, h.once⟩
      intro c hc
      rcases List.mem_append.mp hc with hold | hnew
      · exact h.closers c hold
      · rw [List.mem_singleton.mp hnew]
        rfl
  | register j w w' d hw hmove => exact h.register hw hmove
  | leave j w hw hp => exact h.leave hw hp
  | cancel j r r' d hr hmove => exact h.cancel hr hmove
  | shut j c spurious hc => exact h.shut hc
  | serve j keeper hserved waits hw => exact h.serve hserved (Nat.zero_le _) hw
  | keep now room shared keeper hmove =>
      refine ⟨h.others, h.requests, h.closers, ?_⟩
      have honce := h.once
      have hcopies := hmove.copies (p := (· == i))
      simp only [unarmed] at honce ⊢
      omega

/-- **A firing uses the timer up.** -/
theorem step {a : Act} (h : Once i fired s) (hstep : s.step? a = some s') :
    Once i (fired + (s.fires i a).toNat) s' := by
  cases hfires : s.fires i a with
  | false => exact h.of_turns (turns_of_step? hstep)
  | true =>
      unfold fires at hfires
      split at hfires
      · next now room =>
          split at hfires
          · next j rest after hpc =>
              have hserved : s.keeper.served? = some (j, ⟨s.keeper.queue, .firing rest after⟩) := by
                rw [Keeper.served?, hpc]
              simp only [step?, keep?, hserved, hpc, Option.some.injEq] at hstep
              subst hstep
              refine h.serve hserved (Nat.le_of_eq (congrArg Bool.toNat hfires.symm)) fun k => ?_
              rw [List.getElem?_modify]
              by_cases hk : j = k
              · right
                simp [hk]
              · left
                simp [hk]
          · cases hfires
      · cases hfires

end Once

end TimedWaits

end Timer

end TaskDispatch
