/-
A timer is fired only when it is due or its wait was asked to cancel.

Whatever the thread has in hand was armed by its wait with the due time of that wait
(`Dated`), and a timer is put among those to be fired in one of two steps: one that has
asked it and was told that it is cancelled, or one that has compared its due time with
a reading of the clock.  Both facts are there to stay, since a flag is never lowered and
a reading stays in the past (`Ripe`).  `Ripening` says so of everything the thread has in
hand, and of everything on its way to it.
-/
import TaskDispatch.Proofs.Timer.Once

namespace TaskDispatch.Timer

variable {α : Type}

/-! ### What the thread has in hand -/

/-- The timers in the slots of the inbox are such. -/
def Inbox.Holds (P : Entry α → Prop) (l : Inbox (Entry α)) : Prop :=
  ∀ n, some n ∈ l.nodes.slots → P n.item

/-- The timers in the queue are such. -/
def Queue.Holds (P : Entry α → Prop) (q : Queue α) : Prop := ∀ e ∈ q.heap ++ q.overflow, P e

/-- At this place and with the queue `q` the thread has such timers in hand, is about to fire such others,
and goes by such readings of the clock. -/
def Pc.Holds (P : Entry α → Prop) (F : α → Prop) (T : Nat → Prop) (q : Queue α) : Pc α → Prop
  | siftHeap kept gone rest => (∀ e ∈ kept ++ rest, P e) ∧ (∀ e ∈ gone, F e.item) ∧ q.Holds P
  | siftOverflow rest => (∀ e ∈ rest, P e) ∧ q.Holds P
  | detach now | sort now _ | dequeue now => T now ∧ q.Holds P
  | firing timers after => (∀ a ∈ timers, F a) ∧ after.Holds P F T q
  | dropping _ after => after.Holds P F T q
  | _ => q.Holds P

/-- What a caller brings to the inbox is such. -/
def Caller.Brings (P : Entry α → Prop) : Caller α → Prop
  | arm (.place e) => P e
  | _ => True

variable {P P' : Entry α → Prop} {F F' : α → Prop} {T T' : Nat → Prop}

theorem Inbox.Holds.mono {l : Inbox (Entry α)} (h : l.Holds P) (hP : ∀ e, P e → P' e) : l.Holds P' :=
  fun n hn => hP _ (h n hn)

theorem Queue.Holds.mono {q : Queue α} (h : q.Holds P) (hP : ∀ e, P e → P' e) : q.Holds P' :=
  fun e he => hP e (h e he)

theorem Pc.Holds.mono {q : Queue α} {pc : Pc α} (h : pc.Holds P F T q) (hP : ∀ e, P e → P' e)
    (hF : ∀ a, F a → F' a) (hT : ∀ t, T t → T' t) : pc.Holds P' F' T' q := by
  induction pc with
  | siftHeap kept gone rest =>
      obtain ⟨hkept, hgone, hq⟩ := h
      exact ⟨fun e he => hP e (hkept e he), fun e he => hF _ (hgone e he), hq.mono hP⟩
  | siftOverflow rest =>
      obtain ⟨hrest, hq⟩ := h
      exact ⟨fun e he => hP e (hrest e he), hq.mono hP⟩
  | detach now | sort now chain | dequeue now =>
      obtain ⟨hnow, hq⟩ := h
      exact ⟨hT _ hnow, hq.mono hP⟩
  | firing timers after ih =>
      obtain ⟨htimers, hafter⟩ := h
      exact ⟨fun a ha => hF a (htimers a ha), ih hafter⟩
  | dropping timers after ih => exact ih h
  | _ => exact Queue.Holds.mono h hP

theorem Caller.Brings.mono {c : Caller α} (h : c.Brings P) (hP : ∀ e, P e → P' e) : c.Brings P' := by
  unfold Brings at h ⊢
  split
  · exact hP _ h
  · trivial

/-! ### The inbox and the queue -/

theorem Inbox.Holds.next? {l l' : Inbox (Entry α)} {chain next : Option Nat} {e : Entry α}
    (h : l.Holds P) (hnext : l.next? chain = some (e, next, l')) : P e ∧ l'.Holds P := by
  cases chain with
  | none => cases hnext
  | some slot =>
      cases hget : l.nodes.get? slot with
      | none => simp [Inbox.next?, Slab.remove?_of_get?_eq_none hget] at hnext
      | some node =>
          simp only [Inbox.next?, Slab.remove?_of_get?_eq_some hget, Option.bind_eq_bind,
            Option.bind_some, Option.pure_def, Option.some.injEq, Prod.mk.injEq] at hnext
          obtain ⟨rfl, -, rfl⟩ := hnext
          refine ⟨h node (List.mem_of_getElem? (Option.join_eq_some_iff.mp hget)), ?_⟩
          intro n hn
          rcases mem_of_mem_set hn with hnone | hold
          · cases hnone
          · exact h n hold

theorem Inbox.Holds.push {l : Inbox (Entry α)} (h : l.Holds P) (pc : Push (Entry α)) (spurious : Bool)
    (hpc : (Caller.arm pc).Brings P) :
    (pc.step spurious l).1.Holds P ∧ (Caller.arm (pc.step spurious l).2).Brings P := by
  cases pc with
  | place e =>
      refine ⟨?_, trivial⟩
      intro n hn
      have hcases : some n = some { item := e } ∨ some n ∈ l.nodes.slots := by
        simp only [Push.step, Slab.insert] at hn
        split at hn
        · exact mem_of_mem_set hn
        · rcases List.mem_append.mp hn with hold | hnew
          · exact Or.inr hold
          · exact Or.inl (List.mem_singleton.mp hnew)
      rcases hcases with hnew | hold
      · obtain rfl := Option.some.inj hnew
        exact hpc
      · exact h n hold
  | load slot => exact ⟨h, trivial⟩
  | link slot seen =>
      refine ⟨?_, trivial⟩
      intro n hn
      obtain ⟨k, hk⟩ := List.getElem?_of_mem hn
      simp only [Push.step, Slab.modify, List.getElem?_modify] at hk
      obtain ⟨o, ho, hmap⟩ := Option.map_eq_some_iff.mp hk
      have hsome := List.mem_of_getElem? ho
      split at hmap
      · obtain ⟨m, rfl, rfl⟩ := Option.map_eq_some_iff.mp hmap
        exact h m hsome
      · rw [hmap] at hsome
        exact h n hsome
  | exchange slot seen =>
      rw [Push.step]
      split
      · exact ⟨h, trivial⟩
      · exact ⟨h, trivial⟩
  | pushed wasEmpty => exact ⟨h, trivial⟩

theorem Caller.Brings.step {c : Caller α} {s : Shared α} (h : c.Brings P) (hinbox : s.inbox.Holds P)
    (spurious : Bool) :
    (c.step spurious s).1.inbox.Holds P ∧ (c.step spurious s).2.Brings P := by
  cases c with
  | sweep | shutdown | signal | done => exact ⟨hinbox, trivial⟩
  | arm pc =>
      cases pc with
      | pushed wasEmpty => cases wasEmpty <;> exact ⟨hinbox, trivial⟩
      | place e => exact hinbox.push (.place e) spurious h
      | load slot => exact hinbox.push (.load slot) spurious trivial
      | link slot seen => exact hinbox.push (.link slot seen) spurious trivial
      | exchange slot seen => exact hinbox.push (.exchange slot seen) spurious trivial

namespace Queue

/-- What the queue hands over was in it and is due. -/
theorem of_dequeue? {q q' : Queue α} {now : Nat} {handed : Handed α}
    (h : q.dequeue? now = some (handed, q')) :
    handed.entry ∈ q.heap ++ q.overflow ∧ handed.entry.due ≤ now :=
  ⟨(takes_of_dequeue? h).perm.mem_iff.mpr List.mem_cons_self, (takes_of_dequeue? h).due_le⟩

end Queue

/-! ### The thread -/

namespace Keeper

variable {isCancelled : α → Bool} {now : Nat} {room : Bool} {q : Queue α} {s s' : Shared α}
  {pc : Pc α} {k' : Keeper α}

/-- **A timer is put among those to be fired only when it is cancelled or due.** -/
theorem Moves.holds (h : Moves isCancelled now room q s pc s' k')
    (hcancelled : ∀ e, P e → isCancelled e.item = true → F e.item)
    (hdue : ∀ e t, P e → T t → e.due ≤ t → F e.item)
    (hnow : pc = .clock ∧ k'.pc = .detach now ∨ pc = .clockAgain ∧ k'.pc = .dequeue now → T now)
    (hinbox : s.inbox.Holds P) (hpc : pc.Holds P F T q) :
    s'.inbox.Holds P ∧ k'.pc.Holds P F T k'.queue := by
  cases h with
  | goesOn hflag => exact ⟨hinbox, hpc⟩
  | closes hflag => exact ⟨hinbox, hpc⟩
  | skip hskip => exact ⟨hinbox, hpc⟩
  | sweep hflag hq =>
      refine ⟨hinbox, ?_, nofun, ?_⟩
      · intro e he
        exact hpc e (List.mem_append_left _ he)
      · intro e he
        exact hpc e (List.mem_append_right _ he)
  | heapGoes kept gone rest e he =>
      obtain ⟨hkept, hgone, hq⟩ := hpc
      have hPe : P e := hkept e (by simp)
      refine ⟨hinbox, fun f hf => hkept f ?_, ?_, hq⟩
      · simp only [List.mem_append, List.mem_cons] at hf ⊢
        tauto
      · intro f hf
        rcases List.mem_append.mp hf with hold | hnew
        · exact hgone f hold
        · rw [List.mem_singleton.mp hnew]
          exact hcancelled e hPe he
  | heapStays kept gone rest e he =>
      obtain ⟨hkept, hgone, hq⟩ := hpc
      refine ⟨hinbox, fun f hf => hkept f ?_, hgone, hq⟩
      simp only [List.mem_append, List.mem_cons] at hf ⊢
      tauto
  | heapSifted kept gone =>
      obtain ⟨hkept, hgone, hq⟩ := hpc
      refine ⟨hinbox, ?_, ?_, ?_⟩
      · intro a ha
        obtain ⟨e, he, rfl⟩ := List.mem_map.mp ha
        exact hgone e he
      · exact fun e he => hq e (List.mem_append_right _ he)
      · exact fun e he => hkept e he
  | listGoes rest e he =>
      obtain ⟨hrest, hq⟩ := hpc
      refine ⟨hinbox, ?_, fun f hf => hrest f (List.mem_cons_of_mem _ hf), hq⟩
      intro a ha
      rw [List.mem_singleton.mp ha]
      exact hcancelled e (hrest e List.mem_cons_self) he
  | listStays rest e he =>
      obtain ⟨hrest, hq⟩ := hpc
      refine ⟨hinbox, fun f hf => hrest f (List.mem_cons_of_mem _ hf), ?_⟩
      intro f hf
      rw [← List.append_assoc] at hf
      rcases List.mem_append.mp hf with hold | hnew
      · exact hq f hold
      · rw [List.mem_singleton.mp hnew]
        exact hrest e List.mem_cons_self
  | listSifted => exact ⟨hinbox, hpc.2⟩
  | clock => exact ⟨hinbox, hnow (Or.inl ⟨rfl, rfl⟩), hpc⟩
  | detach t => exact ⟨hinbox, hpc⟩
  | sorted t chain hnext => exact ⟨hinbox, hpc.2⟩
  | fires t chain next e inbox hnext he =>
      obtain ⟨ht, hq⟩ := hpc
      obtain ⟨hPe, hrest⟩ := hinbox.next? hnext
      refine ⟨hrest, ?_, ht, hq⟩
      intro a ha
      rw [List.mem_singleton.mp ha]
      rcases he with hle | hcancel
      · exact hdue e t hPe ht hle
      · exact hcancelled e hPe hcancel
  | enqueues t chain next e inbox hnext hlt he =>
      obtain ⟨ht, hq⟩ := hpc
      obtain ⟨hPe, hrest⟩ := hinbox.next? hnext
      refine ⟨hrest, ht, ?_⟩
      intro f hf
      rcases Queue.mem_enqueue hf with rfl | hold
      · exact hPe
      · exact hq f hold
  | clockAgain => exact ⟨hinbox, hnow (Or.inr ⟨rfl, rfl⟩), hpc⟩
  | dequeues t handed q' hdequeue =>
      obtain ⟨ht, hq⟩ := hpc
      obtain ⟨hmem, hle⟩ := Queue.of_dequeue? hdequeue
      refine ⟨hinbox, ?_, ht, fun f hf => hq f (Queue.mem_of_dequeue? hdequeue hf)⟩
      intro a ha
      rw [List.mem_singleton.mp ha]
      exact hdue _ t (hq _ hmem) ht hle
  | dequeued t hnone => exact ⟨hinbox, hpc.2⟩
  | fired after => exact ⟨hinbox, hpc.2⟩
  | abandonQueue => exact ⟨hinbox, nofun⟩
  | abandons chain next e inbox hnext => exact ⟨(hinbox.next? hnext).2, hpc⟩
  | dropped after => exact ⟨hinbox, hpc⟩
  | _ => exact ⟨hinbox, hpc⟩

/-- What is fired was among those to be fired, and what is left is as it was. -/
theorem holds_of_served? {k k' : Keeper α} {a : α} (h : k.served? = some (a, k'))
    (hpc : k.pc.Holds P F T k.queue) : k'.pc.Holds P F T k'.queue := by
  obtain ⟨queue, pc⟩ := k
  cases pc with
  | firing timers after =>
      cases timers with
      | nil => cases h
      | cons b rest =>
          cases h
          exact ⟨fun c hc => hpc.1 c (List.mem_cons_of_mem _ hc), hpc.2⟩
  | dropping timers after =>
      cases timers with
      | nil => cases h
      | cons b rest =>
          cases h
          exact hpc
  | _ => cases h

end Keeper

/-! ### The waits -/

/-- What stays of the waits and the sources whatever happens. -/
structure TimedWaits.Goes (s s' : TimedWaits) : Prop where
  waits : ∀ (j : Nat) (w : Wait), s.waits[j]? = some w →
    ∃ w', s'.waits[j]? = some w' ∧ w'.source = w.source ∧ w'.due = w.due
  requested : ∀ k, (s.desk.sources k).requested = true → (s'.desk.sources k).requested = true

theorem Wait.Moves.goes {i : Nat} {w w' : Wait} {d d' : Desk} (h : Wait.Moves i w d d' w') :
    w'.source = w.source ∧ w'.due = w.due ∧
      ∀ k, (d.sources k).requested = true → (d'.sources k).requested = true := by
  cases h with
  | enrol hp k hk hopen =>
      refine ⟨rfl, rfl, ?_⟩
      exact Desk.forall_putSource (P := fun n s => (d.sources n).requested = true → s.requested = true)
        id fun _ => id
  | _ => exact ⟨rfl, rfl, fun _ => id⟩

theorem Requester.Moves.goes {r r' : Requester} {d d' : Desk} (h : Requester.Moves r d d' r') (k : Nat)
    (hk : (d.sources k).requested = true) : (d'.sources k).requested = true := by
  revert k
  cases h with
  | raise hp hopen =>
      exact Desk.forall_putSource (P := fun n s => (d.sources n).requested = true → s.requested = true)
        (fun _ => rfl) fun _ => id
  | detach hp =>
      exact Desk.forall_putSource (P := fun n s => (d.sources n).requested = true → s.requested = true)
        id fun _ => id
  | _ => exact fun _ => id

namespace TimedWaits

variable {s s' : TimedWaits} {shown shown' : List Nat}

/-- A wait that moves keeps its source and its due time, and so do the others, who do not move. -/
theorem goes_of_set {j : Nat} {w w' : Wait} (hw : s.waits[j]? = some w) (hsource : w'.source = w.source)
    (hdue : w'.due = w.due) (k : Nat) (v : Wait) (hv : s.waits[k]? = some v) :
    ∃ v', (s.waits.set j w')[k]? = some v' ∧ v'.source = v.source ∧ v'.due = v.due :=
  exists_getElem?_set (P := fun v v' : Wait => v'.source = v.source ∧ v'.due = v.due) hw hv ⟨hsource, hdue⟩
    ⟨rfl, rfl⟩

theorem Turns.goes (h : Turns s s') : s.Goes s' := by
  cases h with
  | wait source due =>
      refine ⟨?_, fun _ => id⟩
      intro j w hw
      exact ⟨w, by rw [List.getElem?_append_left (List.getElem?_eq_some_iff.mp hw).1, hw], rfl, rfl⟩
  | register j w w' d hw hmove =>
      obtain ⟨hsource, hdue, hrequested⟩ := hmove.goes
      exact ⟨goes_of_set hw hsource hdue, hrequested⟩
  | leave j w hw hp => exact ⟨goes_of_set hw rfl rfl, fun k => (w.withdraw_requested s.desk k).trans⟩
  | cancel j r r' d hr hmove => exact ⟨fun j w hw => ⟨w, hw, rfl, rfl⟩, hmove.goes⟩
  | serve j keeper hserved waits hw =>
      refine ⟨?_, fun _ => id⟩
      intro k v hv
      rcases hw k with hsame | harrived
      · exact ⟨v, by rw [hsame, hv], rfl, rfl⟩
      · exact ⟨v.arrive, by rw [harrived, hv]; rfl, rfl, rfl⟩
  | _ => exact ⟨fun j w hw => ⟨w, hw, rfl, rfl⟩, fun _ => id⟩

/-- A timer that a wait has armed with its due time. -/
def Dated (s : TimedWaits) (e : Entry Nat) : Prop := ∃ w, s.waits[e.item]? = some w ∧ w.due = e.due

/-- The clock has shown that the timer of the wait with number `j` is due, or the wait was asked to
cancel. -/
def Ripe (s : TimedWaits) (shown : List Nat) (j : Nat) : Prop :=
  ∃ w, s.waits[j]? = some w ∧ ((∃ t ∈ shown, w.due ≤ t) ∨ w.isRequested s.desk.sources = true)

theorem Goes.dated (h : s.Goes s') (e : Entry Nat) (he : s.Dated e) : s'.Dated e := by
  obtain ⟨w, hw, hdue⟩ := he
  obtain ⟨w', hw', -, hdue'⟩ := h.waits e.item w hw
  exact ⟨w', hw', hdue'.trans hdue⟩

theorem Goes.isRequested (h : s.Goes s') {w w' : Wait} (hsource : w'.source = w.source)
    (hw : w.isRequested s.desk.sources = true) : w'.isRequested s'.desk.sources = true := by
  unfold Wait.isRequested at hw ⊢
  rw [hsource]
  cases hk : w.source with
  | none =>
      rw [hk] at hw
      cases hw
  | some k =>
      rw [hk] at hw
      exact h.requested k hw

theorem Goes.ripe (h : s.Goes s') (hshown : shown ⊆ shown') (j : Nat) (hj : s.Ripe shown j) :
    s'.Ripe shown' j := by
  obtain ⟨w, hw, hwhy⟩ := hj
  obtain ⟨w', hw', hsource, hdue⟩ := h.waits j w hw
  refine ⟨w', hw', ?_⟩
  rcases hwhy with ⟨t, ht, hle⟩ | hrequested
  · exact Or.inl ⟨t, hshown ht, by rw [hdue]; exact hle⟩
  · exact Or.inr (h.isRequested hsource hrequested)

/-- The reading of the clock that an act is. -/
def reading (s : TimedWaits) : Act → List Nat
  | .keep now _ =>
    match s.keeper.pc with
    | .clock | .clockAgain => [now]
    | _ => []
  | _ => []

/-- What an act that reads the clock leads to shows the reading. -/
theorem mem_reading {a : Act} (h : s.step? a = some s') {t : Nat}
    (hpc : s.keeper.pc = .clock ∧ s'.keeper.pc = .detach t ∨
      s.keeper.pc = .clockAgain ∧ s'.keeper.pc = .dequeue t) : t ∈ s.reading a := by
  have hmoved : s'.keeper ≠ s.keeper := by
    intro hsame
    rcases hpc with ⟨hpc, hpc'⟩ | ⟨hpc, hpc'⟩
    · simp [hsame, hpc] at hpc'
    · simp [hsame, hpc] at hpc'
  cases a with
  | keep now room =>
      rcases hpc with ⟨hpc, hpc'⟩ | ⟨hpc, hpc'⟩
      · simp only [step?, keep?, Keeper.served?, Keeper.step?, hpc, Option.some.injEq] at h
        subst h
        cases hpc'
        simp [reading, hpc]
      · simp only [step?, keep?, Keeper.served?, Keeper.step?, hpc, Option.some.injEq] at h
        subst h
        cases hpc'
        simp [reading, hpc]
  | wait source due | request source | close =>
      cases h
      exact absurd rfl hmoved
  | register i spurious =>
      obtain ⟨w, w', desk, -, -, rfl⟩ := register_of_step? h
      exact absurd rfl hmoved
  | leave i =>
      obtain ⟨w, -, -, rfl⟩ := leave_of_step? h
      exact absurd rfl hmoved
  | cancel j spurious =>
      obtain ⟨r, r', desk, -, -, rfl⟩ := cancel_of_step? h
      exact absurd rfl hmoved
  | shut j spurious =>
      obtain ⟨c, -, rfl⟩ := shut_of_step? h
      exact absurd rfl hmoved

/-- What the thread has in hand, what it is brought and what it goes by are such. -/
structure Holds (P : Entry Nat → Prop) (F : Nat → Prop) (T : Nat → Prop) (s : TimedWaits) : Prop where
  inbox : s.desk.shared.inbox.Holds P
  keeper : s.keeper.pc.Holds P F T s.keeper.queue
  waits : ∀ w ∈ s.waits, ∀ left, w.place = .busy left → ∀ c, .call c ∈ left → c.Brings P
  requests : ∀ r ∈ s.requests, ∀ c, r.caller? = some c → c.Brings P
  closers : ∀ c ∈ s.closers, c.Brings P

theorem holds_start (P : Entry Nat → Prop) (F : Nat → Prop) (T : Nat → Prop) : Holds P F T {} where
  inbox := nofun
  keeper := nofun
  waits := nofun
  requests := nofun
  closers := nofun

namespace Holds

variable {P P' : Entry Nat → Prop} {F F' : Nat → Prop} {T T' : Nat → Prop}

theorem mono (h : Holds P F T s) (hP : ∀ e, P e → P' e) (hF : ∀ j, F j → F' j)
    (hT : ∀ t, T t → T' t) : Holds P' F' T' s where
  inbox := h.inbox.mono hP
  keeper := h.keeper.mono hP hF hT
  waits w hw left hp c hc := (h.waits w hw left hp c hc).mono hP
  requests r hr c hc := (h.requests r hr c hc).mono hP
  closers c hc := (h.closers c hc).mono hP

theorem register {j : Nat} {w w' : Wait} {d : Desk} (h : Holds P F T s) (hw : s.waits[j]? = some w)
    (hP : P ⟨w.due, j⟩) (hmove : Wait.Moves j w s.desk d w') :
    Holds P F T { s with desk := d, waits := s.waits.set j w' } := by
  have hmem := List.mem_of_getElem? hw
  have hnew : d.shared.inbox.Holds P ∧
      ∀ left, w'.place = .busy left → ∀ c, .call c ∈ left → c.Brings P := by
    have herrands : ∀ late, ∀ c, .call c ∈ errands late ⟨w.due, j⟩ → c.Brings P := by
      intro late c hc
      cases late <;> simp [errands] at hc
      · subst hc
        exact hP
      · rcases hc with rfl | rfl
        · trivial
        · exact hP
    cases hmove with
    | refuse hp hrequested => exact ⟨h.inbox, fun left hleft => by cases hleft⟩
    | check hp hrequested => exact ⟨h.inbox, fun left hleft => by cases hleft⟩
    | free hp hnone =>
        refine ⟨h.inbox, fun left hleft => ?_⟩
        cases hleft
        exact herrands false
    | late hp k hk hrequested =>
        refine ⟨h.inbox, fun left hleft => ?_⟩
        cases hleft
        exact herrands true
    | enrol hp k hk hopen =>
        refine ⟨h.inbox, fun left hleft => ?_⟩
        cases hleft
        exact herrands false
    | call c rest spurious hp =>
        have hbrings := (h.waits w hmem _ hp c List.mem_cons_self).step h.inbox spurious
        refine ⟨hbrings.1, fun left hleft => ?_⟩
        cases hleft
        intro c' hc'
        rcases List.mem_cons.mp hc' with heq | hrest
        · obtain rfl := Errand.call.inj heq
          exact hbrings.2
        · exact h.waits w hmem _ hp c' (List.mem_cons_of_mem _ hrest)
    | called rest hp =>
        refine ⟨h.inbox, fun left hleft => ?_⟩
        cases hleft
        exact fun c hc => h.waits w hmem _ hp c (List.mem_cons_of_mem _ hc)
    | arrive rest hp =>
        refine ⟨h.inbox, fun left hleft => ?_⟩
        cases hleft
        exact fun c hc => h.waits w hmem _ hp c (List.mem_cons_of_mem _ hc)
    | settle hp => exact ⟨h.inbox, fun left hleft => by cases hleft⟩
  refine ⟨hnew.1, h.keeper, ?_, h.requests, h.closers⟩
  intro v hv
  rcases mem_of_mem_set hv with rfl | hold
  · exact hnew.2
  · exact h.waits v hold

theorem cancel {j : Nat} {r r' : Requester} {d : Desk} (h : Holds P F T s)
    (hr : s.requests[j]? = some r) (hmove : Requester.Moves r s.desk d r') :
    Holds P F T { s with desk := d, requests := s.requests.set j r' } := by
  have hnew : d.shared.inbox.Holds P ∧ ∀ c, r'.caller? = some c → c.Brings P := by
    cases hmove with
    | run i rest hp =>
        refine ⟨h.inbox, fun c hc => ?_⟩
        cases hc
        trivial
    | call c rest spurious hp =>
        have hc : r.caller? = some c := by rw [Requester.caller?, hp]
        have hbrings := (h.requests r (List.mem_of_getElem? hr) c hc).step h.inbox spurious
        refine ⟨hbrings.1, fun c' hc' => ?_⟩
        cases hc'
        exact hbrings.2
    | _ => exact ⟨h.inbox, fun c hc => by cases hc⟩
  refine ⟨hnew.1, h.keeper, h.waits, ?_, h.closers⟩
  intro q hq
  rcases mem_of_mem_set hq with rfl | hold
  · exact hnew.2
  · exact h.requests q hold

theorem of_turns (h : Holds P F T s) (hturn : Turns s s')
    (hP : ∀ j w, s.waits[j]? = some w → P ⟨w.due, j⟩)
    (hcancelled : ∀ e, P e → s.isCancelled e.item = true → F e.item)
    (hdue : ∀ e t, P e → T t → e.due ≤ t → F e.item)
    (hnow : ∀ t, s.keeper.pc = .clock ∧ s'.keeper.pc = .detach t ∨
      s.keeper.pc = .clockAgain ∧ s'.keeper.pc = .dequeue t → T t) : Holds P F T s' := by
  cases hturn with
  | wait source due =>
      refine ⟨h.inbox, h.keeper, ?_, h.requests, h.closers⟩
      intro w hw left hp
      rcases List.mem_append.mp hw with hold | hnew
      · exact h.waits w hold left hp
      · rw [List.mem_singleton.mp hnew] at hp
        cases hp
  | request source =>
      refine ⟨h.inbox, h.keeper, h.waits, ?_, h.closers⟩
      intro r hr c hc
      rcases List.mem_append.mp hr with hold | hnew
      · exact h.requests r hold c hc
      · rw [List.mem_singleton.mp hnew] at hc
        cases hc
  | close =>
      refine ⟨h.inbox, h.keeper, h.waits, h.requests, ?_⟩
      intro c hc
      rcases List.mem_append.mp hc with hold | hnew
      · exact h.closers c hold
      · rw [List.mem_singleton.mp hnew]
        trivial
  | register j w w' d hw hmove => exact h.register hw (hP j w hw) hmove
  | leave j w hw hp =>
      refine ⟨?_, h.keeper, ?_, h.requests, h.closers⟩
      · rw [Wait.withdraw_shared]
        exact h.inbox
      · intro v hv left hleft
        rcases mem_of_mem_set hv with rfl | hold
        · cases hleft
        · exact h.waits v hold left hleft
  | cancel j r r' d hr hmove => exact h.cancel hr hmove
  | shut j c spurious hc =>
      have hbrings := (h.closers c (List.mem_of_getElem? hc)).step h.inbox spurious
      refine ⟨hbrings.1, h.keeper, h.waits, h.requests, ?_⟩
      intro d hd
      rcases mem_of_mem_set hd with rfl | hold
      · exact hbrings.2
      · exact h.closers d hold
  | serve j keeper hserved waits hw =>
      refine ⟨h.inbox, Keeper.holds_of_served? hserved h.keeper, ?_, h.requests, h.closers⟩
      intro w hmem left hp
      obtain ⟨k, hk⟩ := List.getElem?_of_mem hmem
      obtain ⟨v, hv, rfl | rfl⟩ := Wait.of_served hw hk
      · exact h.waits _ (List.mem_of_getElem? hv) left hp
      · exact h.waits v (List.mem_of_getElem? hv) left hp
  | keep now room shared keeper hmove =>
      obtain ⟨hinbox, hkeeper⟩ := hmove.holds hcancelled hdue (hnow now) h.inbox h.keeper
      exact ⟨hinbox, hkeeper, h.waits, h.requests, h.closers⟩

end Holds

/-- All that the thread has in hand or is brought is dated, and what it is about to fire is ripe. -/
def Ripening (shown : List Nat) (s : TimedWaits) : Prop :=
  Holds s.Dated (s.Ripe shown) (· ∈ shown) s

namespace Ripening

theorem step {a : Act} (h : Ripening shown s) (hstep : s.step? a = some s') :
    Ripening (shown ++ s.reading a) s' := by
  have hturn := turns_of_step? hstep
  have hgoes := hturn.goes
  have hshown : shown ⊆ shown ++ s.reading a := List.subset_append_left _ _
  have hold : Holds s'.Dated (s'.Ripe (shown ++ s.reading a)) (· ∈ shown ++ s.reading a) s :=
    h.mono hgoes.dated (hgoes.ripe hshown) fun t ht => hshown ht
  refine hold.of_turns hturn ?_ ?_ ?_ ?_
  · intro j w hw
    exact hgoes.dated ⟨w.due, j⟩ ⟨w, hw, rfl⟩
  · intro e _ hcancelled
    unfold isCancelled at hcancelled
    cases hw : s.waits[e.item]? with
    | none => simp [hw] at hcancelled
    | some w =>
        rw [hw] at hcancelled
        exact hgoes.ripe hshown e.item ⟨w, hw, Or.inr hcancelled⟩
  · rintro e t ⟨w, hw, hdue⟩ ht hle
    exact ⟨w, hw, Or.inl ⟨t, ht, by rw [hdue]; exact hle⟩⟩
  · intro t hpc
    exact List.mem_append_right _ (mem_reading hstep hpc)

/-- **The thread fires a timer only when it is due or its wait was asked to cancel.** -/
theorem ripe_of_fires {a : Act} {i : Nat} (h : Ripening shown s) (hfires : s.fires i a = true) :
    s.Ripe shown i := by
  unfold fires at hfires
  split at hfires
  · split at hfires
    · next j rest after hpc =>
        have hkeeper := h.keeper
        rw [hpc] at hkeeper
        rw [← beq_iff_eq.mp hfires]
        exact hkeeper.1 j List.mem_cons_self
    · cases hfires
  · cases hfires

end Ripening

end TimedWaits

end TaskDispatch.Timer
