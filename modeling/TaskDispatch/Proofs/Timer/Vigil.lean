/-
The timer thread never sleeps over pending work.

There are three things for the thread to see: timers on the inbox, a sweep that was asked
for, and a shutdown.  Each of them is put there by a caller that signals next, and of the
callers that push only one has to, which has found the list empty.  The thread lowers the
signal only where it goes on to look at all three.  So as long as there is something to
see, the thread is about to look, the signal is up, or the caller has still to raise it.

This is one argument for all three (`Loop.Roused.step`): who owes a signal owes it next, and the
thread gives up looking only when there is nothing.
-/
import TaskDispatch.Proofs.Timer.Loop

namespace TaskDispatch.Timer

/-- Whether the thread will look for shutdown before it parks again, or will not park again. -/
def Pc.seesShutdown {α : Type} : Pc α → Bool
  | shutdown => true
  | waiting .expired | waiting .returned => true
  | abandonQueue | abandonIntake | abandonChain _ | exited => true
  | firing _ after | dropping _ after => after.seesShutdown
  | _ => false

/-- **The thread leaves no shutdown request behind when it parks**, unless somebody will signal it. -/
theorem Keeper.Moves.closing {α : Type} {isCancelled : α → Bool} {now : Nat} {room : Bool} {q : Queue α}
    {s s' : Shared α} {pc : Pc α} {k' : Keeper α} (h : Moves isCancelled now room q s pc s' k')
    (hup : s'.shutdownRequested = true) :
    s.shutdownRequested = true ∧ (s.signal.signalled = true ∨ pc.seesShutdown = true →
      s'.signal.signalled = true ∨ k'.pc.seesShutdown = true) := by
  cases h with
  | goesOn hdown =>
      rw [hdown] at hup
      cases hup
  | closes hs => exact ⟨hup, fun _ => Or.inr rfl⟩
  | release hs => exact ⟨hup, fun _ => Or.inr rfl⟩
  | expired => exact ⟨hup, fun _ => Or.inr rfl⟩
  | expires hs due hdue hnow => exact ⟨hup, fun _ => Or.inr rfl⟩
  | _ => exact ⟨hup, id⟩

namespace Caller

variable {α : Type} {c : Caller α} {spurious : Bool} {s : Shared α}

/-- Only a push fills an empty inbox, and it knows that it was empty. -/
theorem head_step (h : (c.step spurious s).1.inbox.head ≠ none) :
    s.inbox.head ≠ none ∨ (c.step spurious s).2 = .arm (.pushed true) := by
  cases c with
  | sweep | shutdown | signal | done => exact Or.inl h
  | arm pc =>
      by_cases hdone : ∃ wasEmpty, pc = .pushed wasEmpty
      · obtain ⟨wasEmpty, rfl⟩ := hdone
        cases wasEmpty <;> exact Or.inl h
      · have hstep : (arm pc).step spurious s =
            ({ s with inbox := (pc.step spurious s.inbox).1 }, arm (pc.step spurious s.inbox).2) :=
          step_arm fun wasEmpty heq => hdone ⟨wasEmpty, heq⟩
        rw [hstep] at h ⊢
        exact (Inbox.Push.head_step h).imp_right fun hpushed => by rw [hpushed]

end Caller

namespace Client

/-- The place of a caller is one of its call. -/
def Fits (c : Client) : Prop :=
  match c.call, c.place with
  | .arm .., .arm _ | .arm .., .done => True
  | .sweep, .sweep | .sweep, .signal | .sweep, .done => True
  | .shutdown, .shutdown | .shutdown, .signal | .shutdown, .done => True
  | _, _ => False

theorem fits_client (call : Call) (j : Nat) : (call.client j).Fits := by
  cases call <;> trivial

variable {c : Client}

theorem Fits.step (h : c.Fits) (spurious : Bool) (s : Shared Nat) :
    Fits { c with place := (c.place.step spurious s).2 } := by
  obtain ⟨call, place⟩ := c
  cases place with
  | arm pc =>
      cases call with
      | arm due source =>
          cases pc with
          | pushed wasEmpty => cases wasEmpty <;> trivial
          | _ => trivial
      | sweep | shutdown => cases h
  | done => exact h
  | signal =>
      cases call with
      | sweep | shutdown => trivial
      | arm due source => cases h
  | sweep =>
      cases call with
      | sweep => trivial
      | arm due source | shutdown => cases h
  | shutdown =>
      cases call with
      | shutdown => trivial
      | arm due source | sweep => cases h

/-- The caller has pushed onto an empty inbox and is about to signal. -/
def OwesIntake (c : Client) : Prop := c.place = .arm (.pushed true)

/-- The caller has asked for a sweep and is about to signal. -/
def OwesSweep (c : Client) : Prop := c.call = .sweep ∧ c.place = .signal

/-- The caller has asked for shutdown and is about to signal. -/
def OwesShutdown (c : Client) : Prop := c.call = .shutdown ∧ c.place = .signal

/-- Who raises the sweep flag signals next. -/
theorem Fits.owesSweep (h : c.Fits) {spurious : Bool} {s : Shared Nat}
    (hup : (c.place.step spurious s).1.sweepRequested = true) :
    s.sweepRequested = true ∨ OwesSweep { c with place := (c.place.step spurious s).2 } := by
  obtain ⟨call, place⟩ := c
  cases place with
  | sweep =>
      cases call with
      | sweep => exact Or.inr ⟨rfl, rfl⟩
      | arm due source | shutdown => cases h
  | arm pc =>
      cases pc with
      | pushed wasEmpty => cases wasEmpty <;> exact Or.inl hup
      | place e | load slot | link slot seen | exchange slot seen => exact Or.inl hup
  | shutdown | signal | done => exact Or.inl hup

/-- Who raises the shutdown flag signals next. -/
theorem Fits.owesShutdown (h : c.Fits) {spurious : Bool} {s : Shared Nat}
    (hup : (c.place.step spurious s).1.shutdownRequested = true) :
    s.shutdownRequested = true ∨ OwesShutdown { c with place := (c.place.step spurious s).2 } := by
  obtain ⟨call, place⟩ := c
  cases place with
  | shutdown =>
      cases call with
      | shutdown => exact Or.inr ⟨rfl, rfl⟩
      | arm due source | sweep => cases h
  | arm pc =>
      cases pc with
      | pushed wasEmpty => cases wasEmpty <;> exact Or.inl hup
      | place e | load slot | link slot seen | exchange slot seen => exact Or.inl hup
  | sweep | signal | done => exact Or.inl hup

end Client

/-! ### Something to see -/

/-- Something that the thread is there to see: when there `is` something, who `owes` a signal then, and
when the thread `sees` to it before it parks again. -/
structure Heeds (is : Shared Nat → Prop) (owes : Client → Prop) (sees : Pc Nat → Bool) : Prop where
  signals : ∀ c, owes c → c.place.signals = true
  calls : ∀ (c : Client) spurious s, c.Fits → is (c.place.step spurious s).1 →
    is s ∨ owes { c with place := (c.place.step spurious s).2 }
  keeps : ∀ {isCancelled now room q s pc s'} {k' : Keeper Nat},
    Keeper.Moves isCancelled now room q s pc s' k' → is s' →
    is s ∧ (s.signal.signalled = true ∨ sees pc = true → s'.signal.signalled = true ∨ sees k'.pc = true)
  serves : ∀ i rest after, sees (.firing (i :: rest) after) = sees (.firing rest after) ∧
    sees (.dropping (i :: rest) after) = sees (.dropping rest after)

theorem heeds_intake : Heeds (·.inbox.head ≠ none) Client.OwesIntake Pc.willDetach where
  signals c h := by rw [h]; rfl
  calls c spurious s _ h := Caller.head_step h
  keeps h := h.intake
  serves _ _ _ := ⟨rfl, rfl⟩

theorem heeds_sweep : Heeds (·.sweepRequested = true) Client.OwesSweep Pc.seesSweep where
  signals c h := by rw [h.2]; rfl
  calls c spurious s hfits h := hfits.owesSweep h
  keeps h := h.flag
  serves _ _ _ := ⟨rfl, rfl⟩

theorem heeds_shutdown : Heeds (·.shutdownRequested = true) Client.OwesShutdown Pc.seesShutdown where
  signals c h := by rw [h.2]; rfl
  calls c spurious s hfits h := hfits.owesShutdown h
  keeps h := h.closing
  serves _ _ _ := ⟨rfl, rfl⟩

namespace Loop

variable {s t : Loop} {is : Shared Nat → Prop} {owes : Client → Prop} {sees : Pc Nat → Bool}

/-- The thread has been signalled or will see to it, or somebody is about to signal. -/
def Roused (s : Loop) (owes : Client → Prop) (sees : Pc Nat → Bool) : Prop :=
  (s.shared.signal.signalled = true ∨ sees s.keeper.pc = true) ∨ ∃ c ∈ s.clients, owes c

/-- A caller that owes a signal gives it, and the others owe theirs still. -/
theorem Roused.call (h : s.Roused owes sees) (hheeds : Heeds is owes sees) {j : Nat} {c : Client}
    (hc : s.clients[j]? = some c) (spurious : Bool) :
    Roused { s with
      shared := (c.place.step spurious s.shared).1
      clients := s.clients.set j { c with place := (c.place.step spurious s.shared).2 } } owes sees := by
  rcases h with (hup | hsees) | howes
  · exact Or.inl (Or.inl (Caller.signalled_step (Or.inl hup)))
  · exact Or.inl (Or.inr hsees)
  · by_cases hmover : owes c
    · exact Or.inl (Or.inl (Caller.signalled_step (Or.inr (hheeds.signals c hmover))))
    · exact Or.inr (exists_mem_set hc howes fun hc => absurd hc hmover)

/-- **As long as there is something to see, the thread will see it or be signalled.** -/
theorem Roused.step (hheeds : Heeds is owes sees) (hfits : ∀ c ∈ s.clients, c.Fits)
    (h : is s.shared → s.Roused owes sees) (hturn : Turns s t) : is t.shared → t.Roused owes sees := by
  intro hup
  cases hturn with
  | join call => exact (h hup).imp_right fun ⟨c, hc, howes⟩ => ⟨c, List.mem_append_left _ hc, howes⟩
  | cancel k => exact h hup
  | call j c spurious hc =>
      rcases hheeds.calls c spurious s.shared (hfits c (List.mem_of_getElem? hc)) hup with hbefore | howes
      · exact (h hbefore).call hheeds hc spurious
      · exact Or.inr ⟨_, mem_set_self hc, howes⟩
  | fire i rest after hpc =>
      refine (h hup).imp_left (Or.imp_right fun hsees => ?_)
      rw [hpc, (hheeds.serves i rest after).1] at hsees
      exact hsees
  | abandon i rest after hpc =>
      refine (h hup).imp_left (Or.imp_right fun hsees => ?_)
      rw [hpc, (hheeds.serves i rest after).2] at hsees
      exact hsees
  | keep now room shared keeper hmove =>
      obtain ⟨hbefore, hkeeps⟩ := hheeds.keeps hmove hup
      exact (h hbefore).imp_left hkeeps

/-- What holds of the thread and its callers in every order of acts. -/
structure Vigilant (s : Loop) : Prop where
  fits : ∀ c ∈ s.clients, c.Fits
  intake : s.shared.inbox.head ≠ none → s.Roused Client.OwesIntake Pc.willDetach
  sweep : s.shared.sweepRequested = true → s.Roused Client.OwesSweep Pc.seesSweep
  shutdown : s.shared.shutdownRequested = true → s.Roused Client.OwesShutdown Pc.seesShutdown

theorem fits_of_turns (h : ∀ c ∈ s.clients, c.Fits) (hturn : Turns s t) : ∀ c ∈ t.clients, c.Fits := by
  cases hturn with
  | join call =>
      intro c hc
      rcases List.mem_append.mp hc with hold | hnew
      · exact h c hold
      · rw [List.mem_singleton.mp hnew]
        exact Client.fits_client call _
  | call j c spurious hc =>
      intro d hd
      rcases mem_of_mem_set hd with rfl | hold
      · exact (h c (List.mem_of_getElem? hc)).step spurious s.shared
      · exact h d hold
  | _ => exact h

theorem Vigilant.step (h : Vigilant s) (hturn : Turns s t) : Vigilant t where
  fits := fits_of_turns h.fits hturn
  intake := Roused.step heeds_intake h.fits h.intake hturn
  sweep := Roused.step heeds_sweep h.fits h.sweep hturn
  shutdown := Roused.step heeds_shutdown h.fits h.shutdown hturn

theorem vigilant_of_leads (h : Leads step? {} s) : Vigilant s :=
  h.keeps (fun _ _ _ hu hstep => hu.step (turns_of_step? hstep))
    ⟨nofun, fun hhead => absurd rfl hhead, nofun, nofun⟩

/-- While the thread is parked with its signal clear, only a caller can rouse it. -/
theorem Roused.exists_owes (h : s.Roused owes sees) (hparked : s.keeper.pc = .waiting .parked)
    (hclear : s.shared.signal.signalled = false) (hsees : sees (.waiting .parked) = false) :
    ∃ c ∈ s.clients, owes c := by
  rcases h with (hup | hlooks) | howes
  · rw [hclear] at hup
    cases hup
  · rw [hparked, hsees] at hlooks
    cases hlooks
  · exact howes

/-- **The timer thread never sleeps over pending work.**  In every order of the steps of all callers and of
the thread, while it is parked with its signal clear: the inbox is empty, or a call that has found it empty
when it armed a timer has still to signal; no sweep is asked for, or a caller that has asked has still to
signal; the same of shutdown; and the thread waits without a deadline exactly if its queue is empty, else
for the smallest due time in the heap and the overflow list. -/
theorem parked_thread_has_nothing_to_see (h : Leads step? {} s) (hparked : s.keeper.pc = .waiting .parked)
    (hclear : s.shared.signal.signalled = false) :
    (s.shared.inbox.takeAll.1 = [] ∨
      ∃ c ∈ s.clients, (∃ due source, c.call = .arm due source) ∧ c.place = .arm (.pushed true)) ∧
    (s.shared.sweepRequested = false ∨ ∃ c ∈ s.clients, c.call = .sweep ∧ c.place = .signal) ∧
    (s.shared.shutdownRequested = false ∨ ∃ c ∈ s.clients, c.call = .shutdown ∧ c.place = .signal) ∧
    (s.keeper.deadline = none ↔ s.keeper.queue.heap ++ s.keeper.queue.overflow = []) ∧
    ∀ due, s.keeper.deadline = some due →
      IsEarliest due (s.keeper.queue.heap ++ s.keeper.queue.overflow) := by
  have hvigilant := vigilant_of_leads h
  refine ⟨?_, ?_, ?_, Queue.earliest?_eq_none_iff, ?_⟩
  · by_cases hhead : s.shared.inbox.head = none
    · exact Or.inl (Inbox.takeAll_of_head_eq_none hhead)
    · obtain ⟨c, hc, howes⟩ := (hvigilant.intake hhead).exists_owes hparked hclear rfl
      have hfits := hvigilant.fits c hc
      refine Or.inr ⟨c, hc, ?_, howes⟩
      rw [Client.Fits, howes] at hfits
      cases hcall : c.call with
      | arm due source => exact ⟨due, source, rfl⟩
      | sweep | shutdown =>
          rw [hcall] at hfits
          cases hfits
  · cases hup : s.shared.sweepRequested with
    | false => exact Or.inl rfl
    | true => exact Or.inr ((hvigilant.sweep hup).exists_owes hparked hclear rfl)
  · cases hup : s.shared.shutdownRequested with
    | false => exact Or.inl rfl
    | true => exact Or.inr ((hvigilant.shutdown hup).exists_owes hparked hclear rfl)
  · intro due hdue
    have hsorted := sorted_of_leads h
    rw [hparked] at hsorted
    exact Queue.isEarliest_of_earliest? hsorted hdue

/-- The heap has taken one timer and the overflow list the other, which is due first, and the thread has
parked; a third timer was pushed, a sweep and shutdown were asked for, and none of the three callers has
signalled yet. -/
theorem parked_thread_has_nothing_to_see_three_owe :
    ∃ s, Leads step? {} s ∧ s.keeper.pc = .waiting .parked ∧ s.shared.signal.signalled = false ∧
      s.shared.inbox.takeAll.1 = [⟨50, 2⟩] ∧ s.shared.sweepRequested = true ∧
      s.shared.shutdownRequested = true ∧ s.keeper.deadline = some 100 ∧
      (∃ c ∈ s.clients, (∃ due source, c.call = .arm due source) ∧ c.place = .arm (.pushed true)) ∧
      (∃ c ∈ s.clients, c.call = .sweep ∧ c.place = .signal) ∧
      (∃ c ∈ s.clients, c.call = .shutdown ∧ c.place = .signal) ∧
      IsEarliest 100 (s.keeper.queue.heap ++ s.keeper.queue.overflow) := by
  let s : Loop := {
    shared := {
      inbox := ⟨some 0, { slots := [some { item := ⟨50, 2⟩ }, none], free := [1], len := 1 }⟩
      sweepRequested := true
      shutdownRequested := true }
    keeper := ⟨⟨[⟨200, 1⟩], [⟨100, 0⟩], 1⟩, .waiting .parked⟩
    clients := [⟨.arm 100 none, .done⟩, ⟨.arm 200 none, .done⟩, ⟨.arm 50 none, .arm (.pushed true)⟩,
      ⟨.sweep, .signal⟩, ⟨.shutdown, .signal⟩]
    readings := [0, 0] }
  have h : Leads step? {} s :=
    .of_after? (List.flatten
      [[.join (.arm 100 none), .join (.arm 200 none)], List.replicate 5 (.call 0 false),
        List.replicate 5 (.call 1 false), List.replicate 5 (.keep 0 true), List.replicate 14 (.keep 0 false),
        [.join (.arm 50 none), .join .sweep, .join .shutdown], List.replicate 4 (.call 2 false),
        [.call 3 false, .call 4 false]]) rfl
  obtain ⟨hintake, hsweep, hshutdown, -, hdeadline⟩ := parked_thread_has_nothing_to_see h rfl rfl
  exact ⟨s, h, rfl, rfl, rfl, rfl, rfl, rfl, hintake.resolve_left nofun, hsweep.resolve_left nofun,
    hshutdown.resolve_left nofun, hdeadline 100 rfl⟩

end Loop

end TaskDispatch.Timer
