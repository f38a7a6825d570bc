/-
The timer thread fires every timer once and never early.

Where a timer is, and that it is at one spot only, is settled in `Places`.  What is added
here is when it is fired.  The thread puts a timer among those to be fired only when the
timer says that it is cancelled, or is due by a reading of the clock in the same turn
(`Ripening`).  When it waits, what is queued is due after the last reading
(`Pc.GoesBy`).  And once it has seen that it is to shut down it fires nothing more
(`Closing`), lets go of all it has, and comes to its end.
-/
import TaskDispatch.Proofs.Timer.Places

namespace TaskDispatch.Timer

variable {α : Type}

/-! ### The clock -/

/-- At this place and with the queue `q` the thread goes by the last reading, and `readings` has the last in
front.  When it waits, nothing in the queue was due by then. -/
def Pc.GoesBy (readings : List Nat) (q : Queue α) : Pc α → Prop
  | detach t | sort t _ | dequeue t => readings.head? = some t
  | waiting _ => ∃ r, readings.head? = some r ∧ ∀ e ∈ q.heap ++ q.overflow, r < e.due
  | firing _ after | dropping _ after => after.GoesBy readings q
  | _ => True

theorem Keeper.Moves.goesBy {isCancelled : Nat → Bool} {now : Nat} {room : Bool} {q : Queue Nat}
    {s s' : Shared Nat} {pc : Pc Nat} {k' : Keeper Nat} (h : Moves isCancelled now room q s pc s' k')
    (hsorted : Sorted (pc.overflow q)) {readings : List Nat} (hgoes : pc.GoesBy readings q) :
    k'.pc.GoesBy (Loop.readingsAfter pc now readings) k'.queue := by
  cases h with
  | clock | clockAgain => rfl
  | dequeued t hnone => exact ⟨t, hgoes, Queue.lt_of_dequeue?_eq_none hsorted hnone⟩
  | goesOn hdown | closes hup | skip hskip | sweep hflag hq | heapGoes kept gone rest e he
  | heapStays kept gone rest e he | heapSifted kept gone | listGoes rest e he | listStays rest e he
  | listSifted | sorted t chain hnext | turn | abandonQueue | abandonIntake
  | abandons chain next e inbox hnext | exit chain hnext | exited => trivial
  | _ => exact hgoes

/-! ### The end -/

namespace Pc

/-- The thread has seen that it is to shut down. -/
def isEnding : Pc α → Bool
  | abandonQueue | abandonIntake | abandonChain _ | exited => true
  | firing _ after | dropping _ after => after.isEnding
  | _ => false

/-- The thread has let go of its queue. -/
def hasDrained : Pc α → Bool
  | abandonIntake | abandonChain _ | exited => true
  | firing _ after | dropping _ after => after.hasDrained
  | _ => false

/-- The thread has detached the inbox for the last time. -/
def hasDetached : Pc α → Bool
  | abandonChain _ | exited => true
  | firing _ after | dropping _ after => after.hasDetached
  | _ => false

theorem isEnding_of_hasDetached {pc : Pc α} (h : pc.hasDetached = true) : pc.isEnding = true := by
  induction pc with
  | firing timers after ih | dropping timers after ih => exact ih h
  | abandonChain chain | exited => rfl
  | _ => cases h

end Pc

namespace Keeper

variable {isCancelled : α → Bool} {now : Nat} {room : Bool} {q : Queue α} {s s' : Shared α}
  {pc : Pc α} {k' : Keeper α}

/-- **The thread ends only when it is asked to, fires nothing then, and never goes back.** -/
theorem Moves.ending (h : Moves isCancelled now room q s pc s' k')
    (hpc : pc.isEnding = true → s.shutdownRequested = true ∧ pc.toFire = []) :
    (k'.pc.isEnding = true → s'.shutdownRequested = true ∧ k'.pc.toFire = []) ∧
      (pc.isEnding = true → k'.pc.isEnding = true) := by
  cases h with
  | closes hup => exact ⟨fun _ => ⟨hup, rfl⟩, nofun⟩
  | fired after | dropped after => exact ⟨hpc, id⟩
  | abandonQueue | abandonIntake | abandons chain next e inbox hnext | exit chain hnext | exited =>
      exact ⟨fun _ => ⟨(hpc rfl).1, rfl⟩, fun _ => rfl⟩
  | _ => exact ⟨nofun, nofun⟩

/-- A queue that the thread has let go of stays empty. -/
theorem Moves.drained (h : Moves isCancelled now room q s pc s' k')
    (hpc : pc.hasDrained = true → q.heap = [] ∧ q.overflow = []) (hk : k'.pc.hasDrained = true) :
    k'.queue.heap = [] ∧ k'.queue.overflow = [] := by
  cases h with
  | abandonQueue => exact ⟨rfl, rfl⟩
  | fired after | dropped after => exact hpc hk
  | abandonIntake | abandons chain next e inbox hnext | exit chain hnext | exited => exact hpc rfl
  | _ => cases hk

/-- The thread leaves nothing on the list when it detaches it for the last time. -/
theorem Moves.detached (h : Moves isCancelled now room q s pc s' k') (hk : k'.pc.hasDetached = true) :
    pc.hasDetached = true ∨ s'.inbox.head = none := by
  cases h with
  | abandonIntake => exact Or.inr rfl
  | fired after | dropped after => exact Or.inl hk
  | abandons chain next e inbox hnext | exit chain hnext | exited => exact Or.inl rfl
  | _ => cases hk

end Keeper

/-- No caller lowers the shutdown flag. -/
theorem Caller.shutdownRequested_step {c : Caller α} {spurious : Bool} {s : Shared α}
    (h : s.shutdownRequested = true) : (c.step spurious s).1.shutdownRequested = true := by
  cases c with
  | arm pc =>
      cases pc with
      | pushed wasEmpty => cases wasEmpty <;> exact h
      | place e | load slot | link slot seen | exchange slot seen => exact h
  | shutdown => rfl
  | sweep | signal | done => exact h

theorem Client.isCancelled_mono {c d : Client} (hcall : d.call = c.call) {sources sources' : List Nat}
    (hsub : sources ⊆ sources') (h : c.isCancelled sources = true) : d.isCancelled sources' = true := by
  rw [isCancelled] at h ⊢
  rw [hcall]
  split at h
  · exact List.contains_iff_mem.mpr (hsub (List.contains_iff_mem.mp h))
  · cases h

namespace Loop

variable {s t u : Loop}

/-! ### What callers want stays -/

/-- What the caller with this number wants. -/
def callOf (s : Loop) (i : Nat) : Option Call := (s.clients[i]?).map (·.call)

theorem callOf_set {j : Nat} {c : Client} (hc : s.clients[j]? = some c) (place : Caller Nat) (i : Nat) :
    ((s.clients.set j { c with place })[i]?).map (·.call) = s.callOf i := by
  by_cases hi : i = j
  · rw [hi, List.getElem?_set_self (List.getElem?_eq_some_iff.mp hc).1, callOf, hc]
    rfl
  · rw [List.getElem?_set_ne (Ne.symm hi), callOf]

/-- What stays of the calls and the sources whatever happens. -/
structure Goes (s t : Loop) : Prop where
  callOf : ∀ i call, s.callOf i = some call → t.callOf i = some call
  cancelled : s.cancelled ⊆ t.cancelled

theorem Turns.goes (h : Turns s t) : Goes s t := by
  cases h with
  | join call =>
      refine ⟨fun i c hc => ?_, fun _ => id⟩
      rw [Loop.callOf] at hc ⊢
      obtain ⟨client, hclient, rfl⟩ := Option.map_eq_some_iff.mp hc
      rw [List.getElem?_append_left (List.getElem?_eq_some_iff.mp hclient).1, hclient]
      rfl
  | cancel k => exact ⟨fun i c hc => hc, List.subset_cons_self _ _⟩
  | call j c spurious hc =>
      refine ⟨fun i call hcall => ?_, fun _ => id⟩
      rw [Loop.callOf, callOf_set hc]
      exact hcall
  | fire i rest after hpc | abandon i rest after hpc => exact ⟨fun i c hc => hc, fun _ => id⟩
  | keep now room shared keeper hmove => exact ⟨fun i c hc => hc, fun _ => id⟩

theorem Goes.isCancelled (h : Goes s t) {i : Nat} (hi : s.isCancelled i = true) : t.isCancelled i = true := by
  rw [Loop.isCancelled] at hi ⊢
  cases hc : s.clients[i]? with
  | none => simp [hc] at hi
  | some c =>
      have hcall := h.callOf i c.call (by rw [Loop.callOf, hc]; rfl)
      obtain ⟨d, hd, hsame⟩ := Option.map_eq_some_iff.mp hcall
      rw [hc] at hi
      rw [hd]
      exact Client.isCancelled_mono hsame h.cancelled hi

/-! ### Never early -/

/-- The timer is due when its call said. -/
def Dated (s : Loop) (e : Entry Nat) : Prop := ∃ source, s.callOf e.item = some (.arm e.due source)

/-- The timer is due by a reading of this turn, or its wait was asked to cancel. -/
def MayFire (s : Loop) (i : Nat) : Prop :=
  ∃ due source, s.callOf i = some (.arm due source) ∧
    ((∃ r ∈ s.readings, due ≤ r) ∨ s.isCancelled i = true)

theorem Goes.dated (h : Goes s t) (e : Entry Nat) : s.Dated e → t.Dated e := by
  rintro ⟨source, hcall⟩
  exact ⟨source, h.callOf e.item _ hcall⟩

theorem Goes.mayFire (h : Goes s t) (hreadings : s.readings ⊆ t.readings) (i : Nat) :
    s.MayFire i → t.MayFire i := by
  rintro ⟨due, source, hcall, hwhy⟩
  refine ⟨due, source, h.callOf i _ hcall, hwhy.imp ?_ h.isCancelled⟩
  rintro ⟨r, hr, hdue⟩
  exact ⟨r, hreadings hr, hdue⟩

/-- All that the thread has in hand or is brought is dated, and what it is about to fire may be fired. -/
structure Ripening (s : Loop) : Prop where
  inbox : s.shared.inbox.Holds s.Dated
  keeper : s.keeper.pc.Holds s.Dated s.MayFire (· ∈ s.readings) s.keeper.queue
  clients : ∀ c ∈ s.clients, c.place.Brings s.Dated

namespace Ripening

theorem join (h : Ripening s) (call : Call) :
    Ripening { s with clients := s.clients ++ [call.client s.clients.length] } := by
  have hgoes : Goes s { s with clients := s.clients ++ [call.client s.clients.length] } := (Turns.join call).goes
  refine ⟨h.inbox.mono hgoes.dated, h.keeper.mono hgoes.dated (hgoes.mayFire fun _ => id) fun _ => id, ?_⟩
  intro c hc
  rcases List.mem_append.mp hc with hold | hnew
  · exact (h.clients c hold).mono hgoes.dated
  · rw [List.mem_singleton.mp hnew]
    cases call with
    | arm due source =>
        refine ⟨source, ?_⟩
        rw [callOf, Call.client, List.getElem?_concat_length]
        rfl
    | sweep | shutdown => trivial

theorem keep (h : Ripening s) {now : Nat} {room : Bool} {shared : Shared Nat} {keeper : Keeper Nat}
    (hmove : Keeper.Moves s.isCancelled now room s.keeper.queue s.shared s.keeper.pc shared keeper) :
    Ripening { s with shared, keeper, readings := readingsAfter s.keeper.pc now s.readings } := by
  have hgoes : Goes s { s with shared, keeper, readings := readingsAfter s.keeper.pc now s.readings } :=
    (Turns.keep now room shared keeper hmove).goes
  have hstart : s.keeper.pc.Holds s.Dated
      (MayFire { s with shared, keeper, readings := readingsAfter s.keeper.pc now s.readings })
      (· ∈ readingsAfter s.keeper.pc now s.readings) s.keeper.queue := by
    have hkeeper := h.keeper
    by_cases hpc : s.keeper.pc = .shutdown
    · -- the readings of the last turn are forgotten, and nothing in hand rests on them
      rw [hpc] at hkeeper ⊢
      exact hkeeper
    · have hsub : s.readings ⊆ readingsAfter s.keeper.pc now s.readings := by
        unfold readingsAfter
        split
        · next heq => exact absurd heq hpc
        · exact List.subset_cons_self _ _
        · exact List.subset_cons_self _ _
        · exact fun _ => id
      exact hkeeper.mono (fun _ => id) (hgoes.mayFire hsub) fun _ hr => hsub hr
  have hclock : s.keeper.pc = .clock ∧ keeper.pc = .detach now ∨
      s.keeper.pc = .clockAgain ∧ keeper.pc = .dequeue now →
      now ∈ readingsAfter s.keeper.pc now s.readings := by
    rintro (⟨hpc, -⟩ | ⟨hpc, -⟩)
    all_goals
      rw [hpc]
      exact List.mem_cons_self
  obtain ⟨hinbox, hkeeper⟩ := hmove.holds
    (fun e ⟨source, hcall⟩ hcancelled => ⟨e.due, source, hcall, Or.inr hcancelled⟩)
    (fun e r ⟨source, hcall⟩ hr hdue => ⟨e.due, source, hcall, Or.inl ⟨r, hr, hdue⟩⟩)
    hclock h.inbox hstart
  exact ⟨hinbox, hkeeper, h.clients⟩

theorem step (h : Ripening s) (hturn : Turns s t) : Ripening t := by
  cases hturn with
  | join call => exact h.join call
  | cancel k =>
      have hgoes : Goes s { s with cancelled := k :: s.cancelled } := (Turns.cancel k).goes
      exact ⟨h.inbox, h.keeper.mono (fun _ => id) (hgoes.mayFire fun _ => id) fun _ => id, h.clients⟩
  | call j c spurious hc =>
      have hgoes := (Turns.call j c spurious hc).goes
      have hmem := List.mem_of_getElem? hc
      obtain ⟨hinbox, hplace⟩ := (h.clients c hmem).step h.inbox spurious
      refine ⟨hinbox.mono hgoes.dated,
        h.keeper.mono hgoes.dated (hgoes.mayFire fun _ => id) fun _ => id, fun d hd => ?_⟩
      rcases mem_of_mem_set hd with rfl | hold
      · exact hplace.mono hgoes.dated
      · exact (h.clients d hold).mono hgoes.dated
  | fire i rest after hpc =>
      have hkeeper := h.keeper
      rw [hpc] at hkeeper
      exact ⟨h.inbox, ⟨fun a ha => hkeeper.1 a (List.mem_cons_of_mem _ ha), hkeeper.2⟩, h.clients⟩
  | abandon i rest after hpc =>
      have hkeeper := h.keeper
      rw [hpc] at hkeeper
      exact ⟨h.inbox, hkeeper, h.clients⟩
  | keep now room shared keeper hmove => exact h.keep hmove

end Ripening

theorem ripening_of_leads (h : Leads step? {} s) : Ripening s :=
  h.keeps (fun _ _ _ hu hstep => hu.step (turns_of_step? hstep)) ⟨nofun, nofun, nofun⟩

/-- **What is fired in a step may be fired then.** -/
theorem mayFire_of_turns (h : Ripening s) (hturn : Turns s t) {i : Nat} (hfired : i ∈ t.fired)
    (hnot : i ∉ s.fired) : s.MayFire i := by
  cases hturn with
  | fire j rest after hpc =>
      rcases List.mem_append.mp hfired with hold | hnew
      · exact absurd hold hnot
      · rw [List.mem_singleton.mp hnew]
        have hkeeper := h.keeper
        rw [hpc] at hkeeper
        exact hkeeper.1 j List.mem_cons_self
  | _ => exact absurd hfired hnot

theorem goesBy_of_leads (h : Leads step? {} s) : s.keeper.pc.GoesBy s.readings s.keeper.queue := by
  refine (h.keeps (P := fun u : Loop => Sorted (u.keeper.pc.overflow u.keeper.queue) ∧
    u.keeper.pc.GoesBy u.readings u.keeper.queue) ?_ ⟨List.Pairwise.nil, trivial⟩).2
  intro u a v ⟨hsorted, hgoes⟩ hstep
  have hturn := turns_of_step? hstep
  refine ⟨sorted_of_turns hsorted hturn, ?_⟩
  cases hturn with
  | fire i rest after hpc | abandon i rest after hpc =>
      rw [hpc] at hgoes
      exact hgoes
  | keep now room shared keeper hmove => exact hmove.goesBy hsorted hgoes
  | _ => exact hgoes

/-! ### The thread shuts down -/

/-- The thread ends only when it is asked to, fires nothing more then, and what it has let go of is gone. -/
structure Closing (s : Loop) : Prop where
  ending : s.keeper.pc.isEnding = true → s.shared.shutdownRequested = true ∧ s.keeper.pc.toFire = []
  drained : s.keeper.pc.hasDrained = true → s.keeper.queue.heap = [] ∧ s.keeper.queue.overflow = []

theorem Closing.step (h : Closing s) (hturn : Turns s t) : Closing t := by
  cases hturn with
  | call j c spurious hc =>
      refine ⟨fun hending => ?_, h.drained⟩
      obtain ⟨hup, hsilent⟩ := h.ending hending
      exact ⟨Caller.shutdownRequested_step hup, hsilent⟩
  | fire i rest after hpc =>
      obtain ⟨hending, hdrained⟩ := h
      rw [hpc] at hending hdrained
      refine ⟨fun hafter => ?_, hdrained⟩
      cases (hending hafter).2
  | abandon i rest after hpc =>
      obtain ⟨hending, hdrained⟩ := h
      rw [hpc] at hending hdrained
      exact ⟨hending, hdrained⟩
  | keep now room shared keeper hmove => exact ⟨(hmove.ending h.ending).1, hmove.drained h.drained⟩
  | _ => exact ⟨h.ending, h.drained⟩

theorem closing_of_leads (h : Leads step? {} s) : Closing s :=
  h.keeps (fun _ _ _ hu hstep => hu.step (turns_of_step? hstep)) ⟨nofun, nofun⟩

/-- **Once the thread ends it fires nothing more.** -/
theorem fired_of_isEnding (h : Leads step? {} s) (hending : s.keeper.pc.isEnding = true)
    (hst : Leads step? s t) : t.fired = s.fired ∧ t.keeper.pc.toFire = [] := by
  have hkept := hst.keeps (P := fun u : Loop => Closing u ∧ u.keeper.pc.isEnding = true ∧ u.fired = s.fired)
    ?_ ⟨closing_of_leads h, hending, rfl⟩
  · exact ⟨hkept.2.2, (hkept.1.ending hkept.2.1).2⟩
  · intro u a v ⟨hclosing, hends, hfired⟩ hstep
    have hturn := turns_of_step? hstep
    refine ⟨hclosing.step hturn, ?_⟩
    cases hturn with
    | fire i rest after hpc =>
        have hsilent := (hclosing.ending hends).2
        rw [hpc] at hsilent
        cases hsilent
    | abandon i rest after hpc =>
        rw [hpc] at hends
        exact ⟨hends, hfired⟩
    | keep now room shared keeper hmove => exact ⟨(hmove.ending hclosing.ending).2 hends, hfired⟩
    | _ => exact ⟨hends, hfired⟩

/-- What is armed stays armed. -/
theorem isArmed_of_turns (hturn : Turns s t) {i : Nat} (harmed : s.isArmed i = true) : t.isArmed i = true := by
  cases hturn with
  | join call =>
      rw [isArmed] at harmed ⊢
      cases hi : s.clients[i]? with
      | none => simp [hi] at harmed
      | some c => rwa [List.getElem?_append_left (List.getElem?_eq_some_iff.mp hi).1]
  | call j c spurious hc =>
      rw [isArmed, Placed.isArmed_set hc]
      split
      · next hi =>
          rw [hi, isArmed, hc, Option.any_some] at harmed
          rw [Client.hasArmed] at harmed ⊢
          cases hcall : c.call with
          | arm due source =>
              rw [hcall] at harmed
              have hidle : c.place.isPushing = false := by simpa using harmed
              simp [(Caller.step_of_not_isPushing hidle spurious s.shared).2.1]
          | sweep | shutdown => rw [hcall] at harmed; cases harmed
      · exact harmed
  | _ => exact harmed

/-- A timer that was armed before the thread was asked to shut down is not left behind on the list. -/
theorem not_mem_inbox_of_hasDetached (h : Leads step? {} s) {i : Nat} (harmed : s.isArmed i = true)
    (hdown : s.shared.shutdownRequested = false) (hst : Leads step? s t)
    (hdetached : t.keeper.pc.hasDetached = true) : t.isArmed i = true ∧ i ∉ t.timersAt .inbox := by
  have hkept := hst.keeps (P := fun u : Loop => Leads step? {} u ∧ u.isArmed i = true ∧
    (u.keeper.pc.hasDetached = true → i ∉ u.timersAt .inbox)) ?_ ⟨h, harmed, fun hearly => ?_⟩
  · exact ⟨hkept.2.1, hkept.2.2 hdetached⟩
  · intro u a v ⟨hu, harmed, hgone⟩ hstep
    have hturn := turns_of_step? hstep
    refine ⟨.step a hu hstep, isArmed_of_turns hturn harmed, fun hpast hmem => ?_⟩
    have hbefore := mem_inbox_of_turns hu hturn harmed hmem
    cases hturn with
    | fire j rest after hpc | abandon j rest after hpc =>
        rw [hpc] at hgone
        exact hgone hpast hbefore
    | keep now room shared keeper hmove =>
        rcases hmove.detached hpast with hpast | hhead
        · exact hgone hpast hbefore
        · have hempty : shared.inbox.takeAll.1 = [] := Inbox.takeAll_of_head_eq_none hhead
          rw [timersAt, hempty] at hmem
          cases hmem
    | _ => exact hgone hpast hbefore
  · have hup := ((closing_of_leads h).ending (Pc.isEnding_of_hasDetached hearly)).1
    rw [hdown] at hup
    cases hup

/-- **Whatever was armed before the thread was asked to shut down has been fired or abandoned when it has
ended.** -/
theorem served_of_exited (h : Leads step? {} s) {i : Nat} (harmed : s.isArmed i = true)
    (hdown : s.shared.shutdownRequested = false) (hst : Leads step? s t)
    (hexited : t.keeper.pc = .exited) : i ∈ t.fired ∨ i ∈ t.abandoned := by
  have ht := h.trans hst
  obtain ⟨harmed', hinbox⟩ := not_mem_inbox_of_hasDetached h harmed hdown hst (by rw [hexited]; rfl)
  obtain ⟨hheap, hoverflow⟩ := (closing_of_leads ht).drained (by rw [hexited]; rfl)
  have hchain : ∀ fuel, (t.shared.inbox.collect fuel none).1 = [] := by
    intro fuel
    cases fuel <;> rfl
  obtain ⟨spot, hone, -⟩ := exists_unique_spot ht harmed'
  have hmem : i ∈ t.timersAt spot := List.count_pos_iff.mp (by omega)
  cases spot with
  | inbox => exact absurd hmem hinbox
  | chain => simp [timersAt, hexited, Pc.chain, hchain] at hmem
  | heap => simp [timersAt, hexited, Pc.heap, hheap] at hmem
  | overflow => simp [timersAt, hexited, Pc.overflow, hoverflow] at hmem
  | fired => exact Or.inl (by simpa [timersAt, hexited, Pc.toFire] using hmem)
  | abandoned => exact Or.inr (by simpa [timersAt, hexited, Pc.toDrop] using hmem)

/-! ### The thread comes to its end -/

/-- Left to itself the thread comes to its end. -/
def Exits (s : Loop) : Prop :=
  ∃ n t, after? step? s (List.replicate n (.keep 0 true)) = some t ∧ t.keeper.pc = .exited

theorem Exits.keep (hstep : s.step? (.keep 0 true) = some u) (h : Exits u) : Exits s := by
  obtain ⟨n, t, hrun, hexited⟩ := h
  refine ⟨n + 1, t, ?_, hexited⟩
  rw [List.replicate_succ, after?, hstep]
  exact hrun

/-- When the thread has let go of some timers it goes on. -/
theorem exits_of_dropping {timers : List Nat} {after : Pc Nat} (hpc : s.keeper.pc = .dropping timers after)
    (hafter : ∀ u : Loop, u.shared = s.shared → u.keeper.pc = after → Exits u) : Exits s := by
  induction timers generalizing s with
  | nil =>
      have hstep : s.step? (.keep 0 true) = some { s with keeper := { s.keeper with pc := after } } := by
        simp [step?, keep?, Keeper.served?, Keeper.step?, readingsAfter, hpc]
      exact .keep hstep (hafter _ rfl rfl)
  | cons i rest ih =>
      have hstep : s.step? (.keep 0 true) = some { s with
          keeper := { s.keeper with pc := .dropping rest after }
          abandoned := s.abandoned ++ [i] } := by
        simp [step?, keep?, Keeper.served?, hpc]
      exact .keep hstep (ih rfl hafter)

/-- A chain that is let go of node by node comes to its end. -/
theorem exits_of_chain {chain : Option Nat} {list detached : List (Nat × Entry Nat)} {pushing : Nat → Nat}
    (htidy : s.shared.inbox.Tidy chain list detached pushing) (hpc : s.keeper.pc = .abandonChain chain) :
    Exits s := by
  induction detached generalizing s chain with
  | nil =>
      obtain rfl : chain = none := htidy.onChain
      have hstep : s.step? (.keep 0 true) = some { s with keeper := { s.keeper with pc := .exited } } := by
        simp [step?, keep?, Keeper.served?, Keeper.step?, readingsAfter, Inbox.next?, hpc]
      exact .keep hstep ⟨0, _, rfl, rfl⟩
  | cons cell rest ih =>
      obtain ⟨slot, e⟩ := cell
      obtain ⟨rfl, next, hget, -⟩ := htidy.onChain
      have hnext := Inbox.next?_of_get? hget
      obtain ⟨slot', rest', hcells, hrest, -⟩ := htidy.next? hnext
      obtain ⟨-, rfl⟩ := List.cons.inj hcells
      have hstep : s.step? (.keep 0 true) = some { s with
          shared := { s.shared with
            inbox := { s.shared.inbox with nodes := (s.shared.inbox.nodes.remove? slot).2 } }
          keeper := { s.keeper with pc := .dropping [e.item] (.abandonChain next) } } := by
        simp [step?, keep?, Keeper.served?, Keeper.step?, readingsAfter, hpc, hnext]
      refine .keep hstep (exits_of_dropping rfl fun u hshared hu => ih ?_ hu)
      rw [hshared]
      exact hrest

/-- **A thread that ends comes to its end**, whatever it has still to let go of. -/
theorem exits_of_isEnding {list detached : List (Nat × Entry Nat)} {pushing : Nat → Nat} {pc : Pc Nat}
    (htidy : s.shared.inbox.Tidy pc.chain list detached pushing) (hpc : s.keeper.pc = pc)
    (hending : pc.isEnding = true) (hsilent : pc.toFire = []) : Exits s := by
  have hintake : ∀ u : Loop, u.shared = s.shared → pc.chain = none → u.keeper.pc = .abandonIntake → Exits u := by
    intro u hshared hchain hu
    rw [hchain, ← hshared] at htidy
    have hstep : u.step? (.keep 0 true) = some { u with
        shared := { u.shared with inbox := u.shared.inbox.detach.2 }
        keeper := { u.keeper with pc := .abandonChain u.shared.inbox.head } } := by
      simp [step?, keep?, Keeper.served?, Keeper.step?, readingsAfter, Inbox.detach, hu]
    exact .keep hstep (exits_of_chain htidy.detach.2 rfl)
  induction pc generalizing s with
  | abandonQueue =>
      have hstep : s.step? (.keep 0 true) = some { s with
          keeper := ⟨{}, .dropping (s.keeper.queue.drain.1.map (·.entry.item)) .abandonIntake⟩ } := by
        simp [step?, keep?, Keeper.served?, Keeper.step?, readingsAfter, Queue.drain, hpc]
      exact .keep hstep (exits_of_dropping rfl fun u hshared hu => hintake u hshared rfl hu)
  | abandonIntake => exact hintake s rfl rfl hpc
  | abandonChain chain => exact exits_of_chain htidy hpc
  | exited => exact ⟨0, s, rfl, hpc⟩
  | firing timers after ih =>
      obtain ⟨rfl, hafter⟩ := List.append_eq_nil_iff.mp hsilent
      have hstep : s.step? (.keep 0 true) = some { s with keeper := { s.keeper with pc := after } } := by
        simp [step?, keep?, Keeper.served?, Keeper.step?, readingsAfter, hpc]
      exact .keep hstep (ih (s := { s with keeper := { s.keeper with pc := after } }) htidy rfl hending hafter hintake)
  | dropping timers after ih =>
      refine exits_of_dropping hpc fun u hshared hu => ?_
      refine ih (s := u) ?_ hu hending hsilent ?_
      · rw [hshared]
        exact htidy
      · rw [hshared]
        exact hintake
  | _ => cases hending

/-- **The timer thread fires every timer exactly once and never early.**  In every order of the steps of all
callers and of the thread, whatever the clock shows, whenever the heap has room, sources are asked to
cancel and sweeps are asked for:

* each timer that is armed is at one of six spots, once, and at no other, and a timer that is not armed is
  nowhere;
* no timer is fired twice, and one is fired only when it is due by a reading of the clock in the same turn
  or its wait was asked to cancel;
* from the end of a turn's dequeue until the next turn nothing is queued that was due by the last reading;
* once the thread has seen that it is to shut down it fires nothing more, and left to itself it comes to
  its end; and what was armed before shutdown was asked for has then been fired or abandoned, not both. -/
theorem every_timer_fires_once_and_never_early (h : Leads step? {} s) :
    (∀ i, s.isArmed i = true →
      ∃ spot, (s.timersAt spot).count i = 1 ∧ ∀ other, other ≠ spot → i ∉ s.timersAt other) ∧
    (∀ i, s.isArmed i = false → ∀ spot, i ∉ s.timersAt spot) ∧
    s.fired.Nodup ∧
    (∀ a t i, s.step? a = some t → i ∈ t.fired → i ∉ s.fired →
      ∃ due source, s.callOf i = some (.arm due source) ∧
        ((∃ r ∈ s.readings, due ≤ r) ∨ s.isCancelled i = true)) ∧
    (∀ w, s.keeper.pc = .waiting w → ∃ r, s.readings.head? = some r ∧
      ∀ e ∈ s.keeper.queue.heap ++ s.keeper.queue.overflow, r < e.due) ∧
    (s.keeper.pc.isEnding = true →
      s.Exits ∧ ∀ t, Leads step? s t → t.fired = s.fired ∧ t.keeper.pc.toFire = []) ∧
    (s.shared.shutdownRequested = false → ∀ t, Leads step? s t → t.keeper.pc = .exited →
      ∀ i, s.isArmed i = true → (i ∈ t.fired ↔ i ∉ t.abandoned)) := by
  refine ⟨fun i => exists_unique_spot h, fun i => not_mem_timersAt h, nodup_fired h, ?_, ?_, ?_, ?_⟩
  · intro a t i hstep hfired hnot
    exact mayFire_of_turns (ripening_of_leads h) (turns_of_step? hstep) hfired hnot
  · intro w hpc
    have hgoes := goesBy_of_leads h
    rw [hpc] at hgoes
    exact hgoes
  · intro hending
    obtain ⟨list, detached, hplaced⟩ := placed_of_leads h
    refine ⟨?_, fun t hst => fired_of_isEnding h hending hst⟩
    exact exits_of_isEnding hplaced.tidy rfl hending ((closing_of_leads h).ending hending).2
  · intro hdown t hst hexited i harmed
    have hserved := served_of_exited h harmed hdown hst hexited
    refine ⟨fun hfired habandoned => ?_, fun hnot => hserved.resolve_right hnot⟩
    have hsum := sum_timersAt (h.trans hst) i
    have hle := Bool.toNat_le (t.isArmed i)
    have hpos := List.count_pos_iff.mpr hfired
    have hpos' := List.count_pos_iff.mpr habandoned
    simp only [timersAt, List.count_append] at hsum
    omega

/-- One timer is due when the thread takes it from the chain, one goes to the heap and two to the overflow
list.  Of these two one is cancelled and swept and one falls due, and shutdown finds the one in the heap. -/
theorem every_timer_fires_once_and_never_early_shut_down :
    let clients : List Client := [⟨.arm 100 none, .arm (.pushed true)⟩, ⟨.arm 50 (some 7), .arm (.pushed false)⟩,
      ⟨.arm 10 none, .arm (.pushed false)⟩, ⟨.arm 200 none, .arm (.pushed false)⟩]
    let inbox : Inbox (Entry Nat) := { nodes := { slots := [none, none, none, none], free := [0, 1, 2, 3] } }
    let s : Loop := {
      shared := { inbox }
      keeper := ⟨⟨[⟨200, 3⟩], [⟨50, 1⟩, ⟨100, 0⟩], 2⟩, .waiting .parked⟩
      clients
      readings := [30, 20]
      fired := [2] }
    let t : Loop := {
      shared := { inbox, shutdownRequested := true }
      keeper := ⟨{}, .exited⟩
      clients := clients ++ [⟨.sweep, .done⟩, ⟨.shutdown, .done⟩]
      cancelled := [7]
      fired := [2, 1, 0]
      abandoned := [3] }
    Leads step? {} s ∧ Leads step? s t ∧
      (∃ spot, (s.timersAt spot).count 1 = 1 ∧ ∀ other, other ≠ spot → 1 ∉ s.timersAt other) ∧
      (∃ r, s.readings.head? = some r ∧ ∀ e ∈ s.keeper.queue.heap ++ s.keeper.queue.overflow, r < e.due) ∧
      t.fired.Nodup ∧ (3 ∈ t.fired ↔ 3 ∉ t.abandoned) := by
  intro clients inbox s t
  have h : Leads step? {} s :=
    .of_after? (List.flatten
      [[.join (.arm 100 none), .join (.arm 50 (some 7)), .join (.arm 10 none), .join (.arm 200 none)],
        (List.range 4).flatMap (fun j => List.replicate 4 (.call j false)), List.replicate 5 (.keep 20 true),
        List.replicate 5 (.keep 20 false), List.replicate 4 (.keep 30 true)]) rfl
  have hst : Leads step? s t :=
    .of_after? (List.flatten
      [[.cancel 7, .join .sweep, .call 4 false, .call 4 false], List.replicate 22 (.keep 120 true),
        [.join .shutdown, .call 5 false, .call 5 false], List.replicate 9 (.keep 130 true)]) rfl
  obtain ⟨hspots, -, -, -, hwaits, -, hserved⟩ := every_timer_fires_once_and_never_early h
  obtain ⟨-, -, hnodup, -⟩ := every_timer_fires_once_and_never_early (h.trans hst)
  exact ⟨h, hst, hspots 1 rfl, hwaits _ rfl, hnodup, hserved rfl t hst rfl 3 rfl⟩

end Loop

end TaskDispatch.Timer
