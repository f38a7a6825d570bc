/-
Where an armed timer is.

A timer is armed when the push that brings it is exchanged.  From then on it is at one
spot of six: on the list of the inbox, on the detached chain, in the heap, in the
overflow list, fired, or abandoned.  The list and the chain are found by following the
slots (`Inbox.Tidy`), and each step of the thread hands a timer from one spot to the
next (`Keeper.Moves.copies`).  So the numbers at the six spots add up to one for a timer
that is armed and to none for any other (`sum_timersAt`).
-/
import TaskDispatch.Proofs.Timer.Chains
import TaskDispatch.Proofs.Timer.Loop

namespace TaskDispatch.Timer

variable {α : Type}

/-! ### What the thread has in hand -/

namespace Pc

/-- Where the detached chain that is left begins. -/
def chain : Pc α → Option Nat
  | sort _ chain | abandonChain chain => chain
  | firing _ after | dropping _ after => after.chain
  | _ => none

/-- The heap's timers at this place, with the queue `q`: while a sweep asks them, all it has not handed on. -/
def heap (q : Queue α) : Pc α → List (Entry α)
  | siftHeap kept gone rest => kept ++ gone ++ rest
  | firing _ after | dropping _ after => after.heap q
  | _ => q.heap

/-- The timers that the thread is about to fire. -/
def toFire : Pc α → List α
  | firing timers after => timers ++ after.toFire
  | dropping _ after => after.toFire
  | _ => []

/-- The timers that the thread is about to let go of. -/
def toDrop : Pc α → List α
  | dropping timers after => timers ++ after.toDrop
  | firing _ after => after.toDrop
  | _ => []

/-- What the thread has in hand is in the heap, in the overflow list, about to be fired or about to be
abandoned. -/
theorem copies_eq_add (p : α → Bool) (q : Queue α) (pc : Pc α) :
    pc.copies p q = (pc.heap q).countP (fun e => p e.item) + (pc.overflow q).countP (fun e => p e.item) +
      pc.toFire.countP p + pc.toDrop.countP p := by
  induction pc with
  | siftHeap kept gone rest =>
      simp only [copies, heap, overflow, toFire, toDrop, List.countP_append, List.countP_nil]
      omega
  | siftOverflow rest =>
      simp only [copies, Queue.copies, heap, overflow, toFire, toDrop, List.countP_append, List.countP_nil]
      omega
  | firing timers after ih | dropping timers after ih =>
      simp only [copies, heap, overflow, toFire, toDrop, List.countP_append, ih]
      omega
  | _ => simp [copies, Queue.copies, heap, overflow, toFire, toDrop]

end Pc

namespace Keeper

variable {isCancelled : α → Bool} {now : Nat} {room : Bool} {q : Queue α} {s s' : Shared α}
  {pc : Pc α} {k' : Keeper α}

/-- What a step of the thread does to the inbox and to its chain: nothing, or it detaches the list, or takes
the first node of the chain, or finds the chain at its end. -/
theorem Moves.chain (h : Moves isCancelled now room q s pc s' k') :
    s'.inbox = s.inbox ∧ k'.pc.chain = pc.chain ∨
    (pc.chain = none ∧ s'.inbox = s.inbox.detach.2 ∧ k'.pc.chain = s.inbox.head) ∨
    (∃ e, s.inbox.next? pc.chain = some (e, k'.pc.chain, s'.inbox)) ∨
    (s.inbox.next? pc.chain = none ∧ s'.inbox = s.inbox ∧ k'.pc.chain = none) := by
  cases h with
  | detach t | abandonIntake => exact Or.inr (Or.inl ⟨rfl, rfl, rfl⟩)
  | fires t chain next e inbox hnext | enqueues t chain next e inbox hnext | abandons chain next e inbox hnext =>
      exact Or.inr (Or.inr (Or.inl ⟨e, hnext⟩))
  | sorted t chain hnext | exit chain hnext => exact Or.inr (Or.inr (Or.inr ⟨hnext, rfl, rfl⟩))
  | _ => exact Or.inl ⟨rfl, rfl⟩

/-- **The thread takes its timers from the list to the chain and from the chain into its hands.**  It leaves
alone the slots of those who are still pushing. -/
theorem Moves.tidy (h : Moves isCancelled now room q s pc s' k') {list detached : List (Nat × Entry α)}
    {pushing : Nat → Nat} (htidy : s.inbox.Tidy pc.chain list detached pushing) :
    ∃ list' detached', s'.inbox.Tidy k'.pc.chain list' detached' pushing ∧ list' ⊆ list ∧
      (∀ p : α → Bool, (list' ++ detached').countP (fun cell => p cell.2.item) + k'.pc.copies p k'.queue =
        (list ++ detached).countP (fun cell => p cell.2.item) + pc.copies p q) ∧
      ∀ slot, 0 < pushing slot → s'.inbox.nodes.get? slot = s.inbox.nodes.get? slot := by
  rcases h.chain with ⟨hinbox, hchain⟩ | ⟨hnone, hinbox, hchain⟩ | ⟨e, hnext⟩ | ⟨hnext, hinbox, hchain⟩
  · refine ⟨list, detached, ?_, fun _ => id, fun p => ?_, fun slot _ => by rw [hinbox]⟩
    · rw [hinbox, hchain]
      exact htidy
    · have hcopies := h.copies (p := p)
      rw [hinbox] at hcopies
      omega
  · rw [hnone] at htidy
    obtain ⟨rfl, hdetached⟩ := htidy.detach
    refine ⟨[], list, ?_, List.nil_subset _, fun p => ?_, fun slot _ => by rw [hinbox]; rfl⟩
    · rw [hinbox, hchain]
      exact hdetached
    · have hcopies := h.copies (p := p)
      have hsame : s'.inbox.copies p = s.inbox.copies p := by
        rw [hinbox]
        rfl
      rw [List.append_nil, List.nil_append]
      omega
  · obtain ⟨slot, rest, rfl, hrest, hfree, hother⟩ := htidy.next? hnext
    refine ⟨list, rest, hrest, fun _ => id, fun p => ?_, fun k hk => hother k ?_⟩
    · have hcopies := h.copies (p := p)
      have htaken := Inbox.copies_of_next? (p := p) hnext
      simp only [List.countP_append, countP_cons_eq_add]
      omega
    · rintro rfl
      omega
  · have hend := htidy.chain_eq_none hnext
    refine ⟨list, detached, ?_, fun _ => id, fun p => ?_, fun slot _ => by rw [hinbox]⟩
    · rw [hinbox, hchain, ← hend]
      exact htidy
    · have hcopies := h.copies (p := p)
      rw [hinbox] at hcopies
      omega

end Keeper

/-! ### Those who arm -/

namespace Caller

variable {c : Caller α} {spurious : Bool} {s : Shared α}

/-- The slot that a push under way has put its node into. -/
def slot? : Caller α → Option Nat
  | arm pc => pc.slot?
  | _ => none

/-- Whether the caller is pushing a timer and its push has not been exchanged. -/
def isPushing : Caller α → Bool
  | arm pc => !pc.isPushed
  | _ => false

/-- A caller that is not pushing does nothing to the inbox, and does not begin to push. -/
theorem step_of_not_isPushing (h : c.isPushing = false) (spurious : Bool) (s : Shared α) :
    (c.step spurious s).1.inbox = s.inbox ∧ (c.step spurious s).2.isPushing = false ∧
      c.slot? = none ∧ (c.step spurious s).2.slot? = none := by
  cases c with
  | sweep | shutdown | signal | done => exact ⟨rfl, rfl, rfl, rfl⟩
  | arm pc =>
      cases pc with
      | pushed wasEmpty => cases wasEmpty <;> exact ⟨rfl, rfl, rfl, rfl⟩
      | place e | load slot | link slot seen | exchange slot seen => cases h

end Caller

namespace Client

/-- Whether the caller has armed its timer: its push has been exchanged. -/
def hasArmed (c : Client) : Bool :=
  match c.call with
  | .arm .. => !c.place.isPushing
  | _ => false

/-- The caller with number `j` pushes the timer of its call, and only a call to arm pushes. -/
def Carries (nodes : Slab (Node (Entry Nat))) (j : Nat) (c : Client) : Prop :=
  match c.place with
  | .arm pc => ∃ due source, c.call = .arm due source ∧ pc.Carries nodes ⟨due, j⟩
  | _ => True

variable {c : Client} {nodes nodes' : Slab (Node (Entry Nat))} {j : Nat}

theorem carries_client (call : Call) (j : Nat) : (call.client j).Carries nodes j := by
  cases call with
  | arm due source => exact ⟨due, source, rfl, rfl⟩
  | sweep | shutdown => trivial

theorem Carries.congr (h : c.Carries nodes j)
    (hsame : ∀ slot, c.place.slot? = some slot → nodes'.get? slot = nodes.get? slot) : c.Carries nodes' j := by
  obtain ⟨call, place⟩ := c
  cases place with
  | arm pc =>
      obtain ⟨due, source, hcall, hpc⟩ := h
      exact ⟨due, source, hcall, hpc.congr hsame⟩
  | sweep | shutdown | signal | done => trivial

theorem Carries.isSome_get? (h : c.Carries nodes j) {slot : Nat} (hslot : c.place.slot? = some slot) :
    (nodes.get? slot).isSome = true := by
  obtain ⟨call, place⟩ := c
  cases place with
  | arm pc =>
      obtain ⟨due, source, -, hpc⟩ := h
      exact hpc.isSome_get? hslot
  | sweep | shutdown | signal | done => cases hslot

theorem Carries.of_not_isPushing (h : c.Carries nodes j) {spurious : Bool} {s : Shared Nat}
    (hpushing : c.place.isPushing = false) :
    Carries nodes j { c with place := (c.place.step spurious s).2 } := by
  obtain ⟨call, place⟩ := c
  cases place with
  | arm pc =>
      cases pc with
      | pushed wasEmpty => cases wasEmpty <;> trivial
      | place e | load slot | link slot seen | exchange slot seen => cases hpushing
  | sweep | shutdown | signal | done => trivial

end Client

namespace Loop

variable {s t : Loop}

/-- The timer has been armed. -/
def isArmed (s : Loop) (i : Nat) : Bool := (s.clients[i]?).any Client.hasArmed

/-- How many pushes under way have this slot. -/
def pushing (s : Loop) (slot : Nat) : Nat := s.clients.countP fun c => c.place.slot? == some slot

/-- How often a timer is on the list of the inbox or on the chain, in the hands of the thread, and among
those that the thread has served. -/
def copies (s : Loop) (list detached : List (Nat × Entry Nat)) (i : Nat) : Nat :=
  (list ++ detached).countP (fun cell => cell.2.item == i) + s.keeper.pc.copies (· == i) s.keeper.queue +
    s.fired.count i + s.abandoned.count i

/-- The slots of the inbox are in order, with these nodes on the list and on the chain, and every timer that
is armed is at one spot. -/
structure Placed (s : Loop) (list detached : List (Nat × Entry Nat)) : Prop where
  tidy : s.shared.inbox.Tidy s.keeper.pc.chain list detached s.pushing
  carries : ∀ (j : Nat) (c : Client), s.clients[j]? = some c → c.Carries s.shared.inbox.nodes j
  once : ∀ i, s.copies list detached i = (s.isArmed i).toNat

theorem placed_start : Placed {} [] [] where
  tidy := Inbox.tidy_empty
  carries := nofun
  once _ := rfl

/-- One timer is itself, once. -/
theorem count_singleton_eq_toNat (i k : Nat) : [i].count k = (i == k).toNat := by
  rw [List.count_singleton]
  cases i == k <;> rfl

namespace Placed

variable {list detached : List (Nat × Entry Nat)}

theorem pushing_pos {j : Nat} {c : Client} (hc : s.clients[j]? = some c) {slot : Nat}
    (hslot : c.place.slot? = some slot) : 0 < s.pushing slot :=
  List.countP_pos_iff.mpr ⟨c, List.mem_of_getElem? hc, by rw [hslot, beq_self_eq_true]⟩

/-- Two pushes under way have different slots. -/
theorem slot?_ne (h : Placed s list detached) {j k : Nat} {c d : Client} (hc : s.clients[j]? = some c)
    (hd : s.clients[k]? = some d) (hne : k ≠ j) {slot : Nat} (hslot : d.place.slot? = some slot) :
    c.place.slot? ≠ some slot := by
  intro hsame
  have hle := h.tidy.count_le_one slot
  have hone : s.clients.countP (fun c => c.place.slot? == some slot) ≤ 1 := by
    rw [← pushing]
    omega
  exact hne (index_eq_of_countP_le_one hone hd hc (by simp [hslot]) (by simp [hsame]))

theorem join (h : Placed s list detached) (call : Call) :
    Placed { s with clients := s.clients ++ [call.client s.clients.length] } list detached where
  tidy := by
    have hsame : pushing { s with clients := s.clients ++ [call.client s.clients.length] } = s.pushing := by
      funext slot
      have hnone : (call.client s.clients.length).place.slot? = none := by cases call <;> rfl
      simp [pushing, hnone]
    rw [hsame]
    exact h.tidy
  carries j c hc := by
    by_cases hj : j = s.clients.length
    · rw [hj, List.getElem?_concat_length] at hc
      rw [hj, ← Option.some.inj hc]
      exact Client.carries_client call _
    · rw [List.getElem?_append_left] at hc
      · exact h.carries j c hc
      · have := (List.getElem?_eq_some_iff.mp hc).1
        rw [List.length_append, List.length_singleton] at this
        omega
  once i := by
    have hsame : isArmed { s with clients := s.clients ++ [call.client s.clients.length] } i = s.isArmed i := by
      have hnew : (call.client s.clients.length).hasArmed = false := by cases call <;> rfl
      unfold isArmed
      rcases Nat.lt_trichotomy i s.clients.length with hlt | heq | hgt
      · rw [List.getElem?_append_left hlt]
      · rw [heq, List.getElem?_concat_length, Option.any_some, hnew,
          List.getElem?_eq_none (Nat.le_refl _)]
        rfl
      · rw [List.getElem?_eq_none (by rw [List.length_append, List.length_singleton]; omega),
          List.getElem?_eq_none (by omega)]
    rw [hsame]
    exact h.once i

/-- What a step of one caller leaves of the others' pushes. -/
theorem carries_call (h : Placed s list detached) {j : Nat} {c : Client} (hc : s.clients[j]? = some c)
    {place : Caller Nat} {nodes : Slab (Node (Entry Nat))}
    (hself : Client.Carries nodes j { c with place })
    (hsame : ∀ slot, (s.shared.inbox.nodes.get? slot).isSome = true → c.place.slot? ≠ some slot →
      nodes.get? slot = s.shared.inbox.nodes.get? slot) :
    ∀ (k : Nat) (d : Client), (s.clients.set j { c with place })[k]? = some d → d.Carries nodes k := by
  intro k d hd
  rcases getElem?_of_set hd with ⟨rfl, rfl⟩ | ⟨hk, hold⟩
  · exact hself
  · have hcarries := h.carries k d hold
    exact hcarries.congr fun slot hslot =>
      hsame slot (hcarries.isSome_get? hslot) (h.slot?_ne hc hold hk hslot)

/-- Which timers are armed after a step of one caller. -/
theorem isArmed_set {j : Nat} {c c' : Client} (hc : s.clients[j]? = some c) (i : Nat) :
    ((s.clients.set j c')[i]?).any Client.hasArmed = if i = j then c'.hasArmed else s.isArmed i := by
  by_cases hi : i = j
  · rw [if_pos hi, hi, List.getElem?_set_self (List.getElem?_eq_some_iff.mp hc).1, Option.any_some]
  · rw [if_neg hi, List.getElem?_set_ne (Ne.symm hi), isArmed]

/-- What pushes under way have after a step of one caller. -/
theorem pushing_set {j : Nat} {c : Client} (hc : s.clients[j]? = some c) (place : Caller Nat) (slot : Nat) :
    (s.clients.set j { c with place }).countP (fun c => c.place.slot? == some slot) +
        (c.place.slot? == some slot).toNat =
      s.pushing slot + (place.slot? == some slot).toNat :=
  countP_set_add (fun c : Client => c.place.slot? == some slot) { c with place } hc

/-- **A push that is exchanged arms its timer**, and the timer is on the list then. -/
theorem push (h : Placed s list detached) {j : Nat} {call : Call} {pc : Inbox.Push (Entry Nat)}
    (hc : s.clients[j]? = some ⟨call, .arm pc⟩) (spurious : Bool) :
    ∃ news, Placed { s with
      shared := { s.shared with inbox := (pc.step spurious s.shared.inbox).1 }
      clients := s.clients.set j ⟨call, .arm (pc.step spurious s.shared.inbox).2⟩ }
      (news ++ list) detached ∧ ∀ cell ∈ news, s.isArmed cell.2.item = false := by
  obtain ⟨due, source, rfl, hcarries⟩ := h.carries j _ hc
  obtain ⟨news, htidy, hnews⟩ := h.tidy.push hcarries spurious (fun slot hslot => pushing_pos hc hslot)
    (pushing_set hc (.arm (pc.step spurious s.shared.inbox).2))
  have harmed : s.isArmed j = pc.isPushed := by
    rw [isArmed, hc]
    simp [Client.hasArmed, Caller.isPushing]
  refine ⟨news, ⟨htidy, ?_, fun i => ?_⟩, fun cell hcell => ?_⟩
  · exact h.carries_call hc ⟨due, source, rfl, hcarries.step h.tidy.sound spurious⟩
      fun slot hlive hne => Inbox.Push.get?_step h.tidy.sound spurious hlive hne
  · have honce := h.once i
    simp only [copies] at honce ⊢
    rw [isArmed, isArmed_set hc]
    rcases hnews with ⟨rfl, hsame⟩ | ⟨⟨slot, rfl⟩, hbefore, hafter⟩
    · have hagain : Client.hasArmed
          { call := .arm due source, place := .arm (pc.step spurious s.shared.inbox).2 } = s.isArmed j := by
        rw [harmed, ← hsame]
        simp [Client.hasArmed, Caller.isPushing]
      rw [hagain, List.nil_append]
      split
      · next hi => rw [← hi]; exact honce
      · exact honce
    · by_cases hi : i = j
      · rw [hi] at honce ⊢
        rw [harmed, hbefore, Bool.toNat_false] at honce
        simp only [if_true, Client.hasArmed, Caller.isPushing, hafter, Bool.not_true, Bool.not_false,
          Bool.toNat_true, List.cons_append, List.nil_append, countP_cons_eq_add, beq_self_eq_true]
        omega
      · rw [if_neg hi]
        simp only [List.cons_append, List.nil_append, countP_cons_eq_add,
          beq_eq_false_iff_ne.mpr (Ne.symm hi), Bool.toNat_false]
        omega
  · rcases hnews with ⟨rfl, -⟩ | ⟨⟨slot, rfl⟩, hbefore, -⟩
    · cases hcell
    · rw [List.mem_singleton.mp hcell, harmed, hbefore]

/-- A caller that is not pushing leaves every timer where it is. -/
theorem call_of_not_isPushing (h : Placed s list detached) {j : Nat} {c : Client}
    (hc : s.clients[j]? = some c) (hidle : c.place.isPushing = false) (spurious : Bool) :
    Placed { s with
      shared := (c.place.step spurious s.shared).1
      clients := s.clients.set j { c with place := (c.place.step spurious s.shared).2 } } list detached := by
  obtain ⟨hinbox, hstill, hslot, hslot'⟩ := Caller.step_of_not_isPushing hidle spurious s.shared
  refine ⟨?_, ?_, fun i => ?_⟩
  · have hsame : pushing { s with
        shared := (c.place.step spurious s.shared).1
        clients := s.clients.set j { c with place := (c.place.step spurious s.shared).2 } } = s.pushing := by
      funext slot
      have hset := pushing_set hc (c.place.step spurious s.shared).2 slot
      rw [hslot, hslot'] at hset
      exact Nat.add_right_cancel hset
    rw [hsame]
    show ((c.place.step spurious s.shared).1.inbox).Tidy _ _ _ _
    rw [hinbox]
    exact h.tidy
  · show ∀ (k : Nat) (d : Client), _ → d.Carries (c.place.step spurious s.shared).1.inbox.nodes k
    rw [hinbox]
    exact h.carries_call hc ((h.carries j c hc).of_not_isPushing hidle) fun slot _ _ => rfl
  · have harmed : Client.hasArmed { c with place := (c.place.step spurious s.shared).2 } = s.isArmed j := by
      rw [isArmed, hc, Option.any_some, Client.hasArmed, Client.hasArmed, hstill, hidle]
    rw [isArmed, isArmed_set hc, harmed]
    split
    · next hi => rw [← hi]; exact h.once i
    · exact h.once i

/-- A step of a caller puts at most its own timer on the list, which was not armed before. -/
theorem call (h : Placed s list detached) {j : Nat} {c : Client} (hc : s.clients[j]? = some c)
    (spurious : Bool) :
    ∃ news, Placed { s with
      shared := (c.place.step spurious s.shared).1
      clients := s.clients.set j { c with place := (c.place.step spurious s.shared).2 } }
      (news ++ list) detached ∧ ∀ cell ∈ news, s.isArmed cell.2.item = false := by
  cases hplace : c.place.isPushing with
  | false => exact ⟨[], h.call_of_not_isPushing hc hplace spurious, nofun⟩
  | true =>
      obtain ⟨call, place⟩ := c
      cases place with
      | sweep | shutdown | signal | done => cases hplace
      | arm pc =>
          have hpc : ∀ wasEmpty, pc ≠ .pushed wasEmpty := by
            rintro wasEmpty rfl
            cases hplace
          rw [Caller.step_arm hpc]
          exact h.push hc spurious

/-- **Every act keeps each armed timer at one spot**, and what comes to the list was not armed before. -/
theorem step (h : Placed s list detached) (hturn : Turns s t) :
    ∃ list' detached', Placed t list' detached' ∧
      ∀ cell ∈ list', cell ∈ list ∨ s.isArmed cell.2.item = false := by
  cases hturn with
  | join call => exact ⟨list, detached, h.join call, fun _ => Or.inl⟩
  | cancel k => exact ⟨list, detached, ⟨h.tidy, h.carries, h.once⟩, fun _ => Or.inl⟩
  | call j c spurious hc =>
      obtain ⟨news, hplaced, hnews⟩ := h.call hc spurious
      refine ⟨news ++ list, detached, hplaced, fun cell hcell => ?_⟩
      exact (List.mem_append.mp hcell).symm.imp_right (hnews cell)
  | fire i rest after hpc =>
      refine ⟨list, detached, ⟨?_, h.carries, fun k => ?_⟩, fun _ => Or.inl⟩
      · have htidy := h.tidy
        rw [hpc] at htidy
        exact htidy
      · have honce := h.once k
        simp only [copies, hpc, Pc.copies, countP_cons_eq_add] at honce
        show copies _ list detached k = (s.isArmed k).toNat
        rw [← honce]
        simp only [copies, Pc.copies, List.count_append, count_singleton_eq_toNat]
        omega
  | abandon i rest after hpc =>
      refine ⟨list, detached, ⟨?_, h.carries, fun k => ?_⟩, fun _ => Or.inl⟩
      · have htidy := h.tidy
        rw [hpc] at htidy
        exact htidy
      · have honce := h.once k
        simp only [copies, hpc, Pc.copies, countP_cons_eq_add] at honce
        show copies _ list detached k = (s.isArmed k).toNat
        rw [← honce]
        simp only [copies, Pc.copies, List.count_append, count_singleton_eq_toNat]
        omega
  | keep now room shared keeper hmove =>
      obtain ⟨list', detached', htidy, hsub, hcount, hkept⟩ := hmove.tidy h.tidy
      refine ⟨list', detached', ⟨htidy, ?_, fun i => ?_⟩, fun cell hcell => Or.inl (hsub hcell)⟩
      · exact fun j c hc => (h.carries j c hc).congr fun slot hslot => hkept slot (pushing_pos hc hslot)
      · have honce := h.once i
        have hsame := hcount (· == i)
        show copies _ list' detached' i = (s.isArmed i).toNat
        simp only [copies] at honce ⊢
        omega

end Placed

theorem placed_of_leads (h : Leads step? {} s) : ∃ list detached, Placed s list detached := by
  refine h.keeps (P := fun u : Loop => ∃ list detached, Placed u list detached) ?_ ⟨[], [], placed_start⟩
  intro u a v ⟨list, detached, hplaced⟩ hstep
  obtain ⟨list', detached', hnext, -⟩ := hplaced.step (turns_of_step? hstep)
  exact ⟨list', detached', hnext⟩

/-! ### The six spots -/

/-- Where a timer can be once it is armed. -/
inductive Spot where
  | inbox
  | chain
  | heap
  | overflow
  | fired
  | abandoned
  deriving DecidableEq

/-- The timers at a spot.  What the thread has taken to fire it or to let go of it counts as served. -/
def timersAt (s : Loop) : Spot → List Nat
  | .inbox => s.shared.inbox.takeAll.1.map (·.item)
  | .chain => (s.shared.inbox.collect s.shared.inbox.nodes.len s.keeper.pc.chain).1.map (·.item)
  | .heap => (s.keeper.pc.heap s.keeper.queue).map (·.item)
  | .overflow => (s.keeper.pc.overflow s.keeper.queue).map (·.item)
  | .fired => s.fired ++ s.keeper.pc.toFire
  | .abandoned => s.abandoned ++ s.keeper.pc.toDrop

/-- **The numbers at the six spots add up to one for an armed timer and to none for any other.** -/
theorem sum_timersAt (h : Leads step? {} s) (i : Nat) :
    (s.timersAt .inbox).count i + (s.timersAt .chain).count i + (s.timersAt .heap).count i +
      (s.timersAt .overflow).count i + (s.timersAt .fired).count i + (s.timersAt .abandoned).count i =
        (s.isArmed i).toNat := by
  obtain ⟨list, detached, hplaced⟩ := placed_of_leads h
  have hcells : ∀ cells : List (Nat × Entry Nat),
      ((cells.map (·.2)).map (·.item)).count i = cells.countP fun cell => cell.2.item == i := by
    intro cells
    rw [List.map_map, List.count, List.countP_map]
    rfl
  have hentries : ∀ entries : List (Entry Nat),
      (entries.map (·.item)).count i = entries.countP fun e => e.item == i := by
    intro entries
    rw [List.count, List.countP_map]
    rfl
  rw [← hplaced.once i, copies, Pc.copies_eq_add]
  simp only [timersAt, hplaced.tidy.takeAll, hplaced.tidy.collect, hcells, hentries, List.count_append,
    List.countP_append]
  simp only [List.count]
  omega

/-- **An armed timer is at one spot, once, and nowhere else.** -/
theorem exists_unique_spot (h : Leads step? {} s) {i : Nat} (harmed : s.isArmed i = true) :
    ∃ spot, (s.timersAt spot).count i = 1 ∧ ∀ other, other ≠ spot → i ∉ s.timersAt other := by
  have hsum := sum_timersAt h i
  rw [harmed, Bool.toNat_true] at hsum
  have hspot : ∃ spot, (s.timersAt spot).count i = 1 := by
    by_contra hnone
    rw [not_exists] at hnone
    have h₁ := hnone .inbox
    have h₂ := hnone .chain
    have h₃ := hnone .heap
    have h₄ := hnone .overflow
    have h₅ := hnone .fired
    have h₆ := hnone .abandoned
    omega
  obtain ⟨spot, hone⟩ := hspot
  refine ⟨spot, hone, fun other hother hmem => ?_⟩
  have hpos := List.count_pos_iff.mpr hmem
  cases spot <;> cases other <;> first | exact hother rfl | omega

/-- What is not armed is nowhere. -/
theorem not_mem_timersAt (h : Leads step? {} s) {i : Nat} (harmed : s.isArmed i = false) (spot : Spot) :
    i ∉ s.timersAt spot := by
  intro hmem
  have hsum := sum_timersAt h i
  rw [harmed, Bool.toNat_false] at hsum
  have hpos := List.count_pos_iff.mpr hmem
  cases spot <;> omega

/-- A timer that is armed already does not come to the list. -/
theorem mem_inbox_of_turns (h : Leads step? {} s) (hturn : Turns s t) {i : Nat} (harmed : s.isArmed i = true)
    (hmem : i ∈ t.timersAt .inbox) : i ∈ s.timersAt .inbox := by
  obtain ⟨list, detached, hplaced⟩ := placed_of_leads h
  obtain ⟨list', detached', hnext, hlist⟩ := hplaced.step hturn
  simp only [timersAt, hplaced.tidy.takeAll, hnext.tidy.takeAll, List.map_map, List.mem_map] at hmem ⊢
  obtain ⟨cell, hcell, rfl⟩ := hmem
  rcases hlist cell hcell with hold | hnew
  · exact ⟨cell, hold, rfl⟩
  · rw [Function.comp_apply, hnew] at harmed
    cases harmed

/-- No timer is fired twice. -/
theorem nodup_fired (h : Leads step? {} s) : s.fired.Nodup := by
  refine List.nodup_iff_count_le_one.mpr fun i => ?_
  have hsum := sum_timersAt h i
  have hle := Bool.toNat_le (s.isArmed i)
  simp only [timersAt, List.count_append] at hsum
  omega

end Loop

end TaskDispatch.Timer
