/-
A fan-in is exact.

It is ready only when every input has its outcome, and then with one output for each,
in their order; a poll that comes after every input has notified makes it ready, as
does a first poll with no input that suspends; and the waker of a first poll that ended
pending is woken once, by the input that counts last.

An input completes, for the countdown, when it counts.  Two inputs whose words become
`completed` at the same time may count in either order; by the time the waker is woken
all of them have done both.
-/
import TaskDispatch.Proofs.FanIn.Ends

namespace TaskDispatch.Gathering

open TaskDispatch.Frame (Callers Hosted)

variable {β α ω : Type} {s : Gathering β α ω}

/-- The latest poll has ended and has left the fan-in pending. -/
def Pended (s : Gathering β α ω) : Prop := s.stage = .resting ∧ s.wakers ≠ []

/-- The first poll has ended and has left the fan-in pending. -/
def FirstPended (s : Gathering β α ω) : Prop := s.Pended ∨ 2 ≤ s.wakers.length

namespace Gathered

/-- The outputs are those of the inputs, in their order. -/
theorem outputs (h : s.Gathered) {outs : List (Task β α)} (hstage : s.stage = .finished outs) :
    (∀ f ∈ s.hosts, f.isCompleted = true) ∧ outs.length = s.hosts.length ∧ s.Matches outs := by
  have houts := h.outs
  have hawaiter := h.awaiter
  rw [OutsAt, hstage] at houts
  rw [AwaiterAt, hstage] at hawaiter
  refine ⟨?_, houts⟩
  intro f hf
  rcases hawaiter with hserves | ⟨hnil, -⟩
  · obtain ⟨k, hk⟩ := List.getElem?_of_mem hf
    exact h.completed_of_complete hserves.complete hk
  · rw [hnil] at hf
    cases hf

theorem pended (h : s.Gathered) (hpended : s.Pended) :
    s.roll.awaiter = some .suspended ∧ s.late = false := by
  have hawaiter := h.awaiter
  rw [AwaiterAt, hpended.1] at hawaiter
  cases hstarted : s.started with
  | true =>
      simp only [hstarted, if_true] at hawaiter
      exact ⟨hawaiter.1, hawaiter.2.2⟩
  | false =>
      simp only [hstarted, Bool.false_eq_true, if_false] at hawaiter
      exact absurd hawaiter.2 hpended.2

/-- Later polls come after one that has left the awaiter suspended. -/
theorem suspended_of_two (h : s.Gathered) (htwo : 2 ≤ s.wakers.length) :
    s.roll.awaiter = some .suspended := by
  have hserves : s.Serves → s.roll.awaiter = some .suspended := by
    intro hs
    rcases hs.awaiter with ⟨-, hone⟩ | ⟨ha, -⟩
    · omega
    · exact ha
  have hawaiter := h.awaiter
  cases hstage : s.stage with
  | resting =>
      refine (h.pended ⟨hstage, ?_⟩).1
      intro hnil
      rw [hnil] at htwo
      cases htwo
  | looking w =>
      cases hstarted : s.started with
      | true => exact (h.looks hstage hstarted).2.1
      | false =>
          simp only [AwaiterAt, hstage, hstarted, Bool.false_eq_true, if_false] at hawaiter
          rw [hawaiter.2.2] at htwo
          cases Nat.le_of_succ_le_succ htwo
  | starting w k =>
      rw [(h.starts (Or.inl hstage)).2.2.1] at htwo
      cases Nat.le_of_succ_le_succ htwo
  | running w k =>
      rw [(h.starts (Or.inr hstage)).2.2.1] at htwo
      cases Nat.le_of_succ_le_succ htwo
  | counting =>
      rw [(h.counting hstage).1.2.2.1] at htwo
      cases Nat.le_of_succ_le_succ htwo
  | collecting outs => exact hserves (h.collecting hstage).1
  | taking outs c => exact hserves (h.taking hstage).1
  | finished outs =>
      rw [AwaiterAt, hstage] at hawaiter
      rcases hawaiter with hs | ⟨-, -, -, hone⟩
      · exact hserves hs
      · omega
  | broken =>
      rw [AwaiterAt, hstage] at hawaiter
      exact absurd hawaiter id

/-- The waker of a first poll that ended pending is the one that is woken, by whoever counts last. -/
theorem woken (h : s.Gathered) (ha : s.roll.awaiter = some .suspended) :
    ∃ w, s.wakers.head? = some w ∧
      (∀ k v, (k, v) ∈ s.roll.wakes → v = w ∧ s.roll.wakes = [(k, v)] ∧
        s.roll.counted.getLast? = some (some k) ∧ s.roll.allLeft = true ∧
        ∀ f ∈ s.hosts, f.isCompleted = true) ∧
      (s.roll.allLeft = true → ∃ k, s.roll.wakes = [(k, w)]) := by
  obtain ⟨w, hasked⟩ := h.tallied.asked_of_suspended ha
  refine ⟨w, h.asked w hasked, ?_, ?_⟩
  · intro k v hwake
    obtain ⟨hone, hv, -, hlast, hcomplete, hleft⟩ := h.tallied.of_wake hwake
    obtain rfl := Option.some.inj (hv.symm.trans hasked)
    refine ⟨rfl, hone, hlast, Roll.allLeft_iff.mpr hleft, ?_⟩
    intro f hf
    obtain ⟨j, hj⟩ := List.getElem?_of_mem hf
    exact h.completed_of_complete hcomplete hj
  · intro hleft
    obtain ⟨k, v, hwakes⟩ := h.tallied.woken_of_left ha (Roll.allLeft_iff.mp hleft)
    have hv := (h.tallied.of_wake (hwakes ▸ List.mem_singleton.mpr rfl)).2.1
    obtain rfl := Option.some.inj (hv.symm.trans hasked)
    exact ⟨k, hwakes⟩

/-- Only a suspended awaiter is woken. -/
theorem unwoken_of_ne (h : s.Gathered) (ha : s.roll.awaiter ≠ some .suspended) : s.roll.wakes = [] :=
  List.eq_nil_iff_forall_not_mem.mpr fun ⟨_, _⟩ hwake => ha (h.tallied.of_wake hwake).2.2.1

/-- Nobody wakes the waker of a first poll that made the fan-in ready. -/
theorem unwoken (h : s.Gathered) {outs : List (Task β α)} (hstage : s.stage = .finished outs)
    (hfirst : s.wakers.length = 1) : s.roll.wakes = [] := by
  have hawaiter := h.awaiter
  rw [AwaiterAt, hstage] at hawaiter
  refine h.unwoken_of_ne fun ha => ?_
  rcases hawaiter with hserves | ⟨-, -, hnone, -⟩
  · rcases hserves.awaiter with ⟨hproceeds, -⟩ | ⟨-, htwo⟩
    · rw [ha] at hproceeds
      cases hproceeds
    · omega
  · rw [ha] at hnone
    cases hnone

/-- A poll that came late can make the fan-in ready, wherever it is. -/
theorem ends_of_late (h : s.Gathered) (hn : s.hosts.length < 2 ^ 64) (hunder : s.stage ≠ .resting)
    (hlate : s.late = true) : s.Ends := by
  have hawaiter := h.awaiter
  cases hstage : s.stage with
  | resting => exact absurd hstage hunder
  | looking w => exact h.ends_of_looking hn hstage hlate
  | starting w k =>
      rw [(h.starts (Or.inl hstage)).2.2.2] at hlate
      cases hlate
  | running w k =>
      rw [(h.starts (Or.inr hstage)).2.2.2] at hlate
      cases hlate
  | counting =>
      rw [(h.counting hstage).1.2.2.2] at hlate
      cases hlate
  | collecting outs => exact h.ends_of_serving hn (Or.inl hstage)
  | taking outs c => exact h.ends_of_serving hn (Or.inr ⟨c, hstage⟩)
  | finished outs => exact ⟨s, outs, .refl _, hstage⟩
  | broken =>
      rw [AwaiterAt, hstage] at hawaiter
      exact absurd hawaiter id

end Gathered

/-- **A fan-in is exact.**  For any tasks, as their owners keep them between polls, and in every order of
polls of the fan-in, steps of the poll under way, wakes of the inputs' frames, steps of all their calls,
which may fail to exchange the word for no reason, and steps on the countdown, whatever the polls of the
bodies come to:

* when a poll has made it ready, every input is completed, and there is one output for each, which is
  ready and reads as the outcome of that input: what the last poll of its body came to, or what the task
  held from the start;
* a poll that ended pending had begun before every input had notified, and if it was the first, a poll of
  some input has suspended;
* a poll that has begun after every input had notified, and a first poll while no input has suspended,
  can make the fan-in ready by its own steps alone;
* once the first poll has ended pending, its waker, and no other, is woken, at most once, by the input
  that counts last and when all inputs are completed; and it has been when all inputs have notified;
* once the first poll has made it ready, nobody is woken;
* no frame is ever without a task to give. -/
theorem fan_in_is_exact {inputs : List (Task β α)} (hsound : ∀ t ∈ inputs, t.Sound)
    (hn : inputs.length < 2 ^ 64) (h : Leads step? (start inputs : Gathering β α ω) s) :
    (∀ outs, s.stage = .finished outs →
      (∀ f ∈ s.hosts, f.isCompleted = true) ∧ outs.length = inputs.length ∧
      ∀ (i : Nat) input, inputs[i]? = some input → ∃ t f, outs[i]? = some t ∧ s.hosts[i]? = some f ∧
        f.input = input ∧ t.isReady = true ∧ t.result = f.outcome) ∧
    (s.Pended → s.late = false ∧ (s.wakers.length = 1 → ∃ f ∈ s.hosts, f.hasSuspended = true)) ∧
    (s.stage ≠ .resting → s.late = true ∨ s.wakers.length = 1 ∧ s.Quick → s.Ends) ∧
    (s.FirstPended → ∃ w, s.wakers.head? = some w ∧
      (∀ k v, (k, v) ∈ s.roll.wakes → v = w ∧ s.roll.wakes = [(k, v)] ∧
        s.roll.counted.getLast? = some (some k) ∧ s.roll.allLeft = true ∧
        ∀ f ∈ s.hosts, f.isCompleted = true) ∧
      (s.roll.allLeft = true → ∃ k, s.roll.wakes = [(k, w)])) ∧
    (∀ outs, s.stage = .finished outs → s.wakers.length = 1 → s.roll.wakes = []) ∧
    s.stage ≠ .broken := by
  obtain ⟨hs, hinputs⟩ := gathered_of_leads hsound hn h
  have hlen : s.hosts.length = inputs.length := by rw [← hinputs, List.length_map]
  have hsmall : s.hosts.length < 2 ^ 64 := hlen ▸ hn
  refine ⟨?_, ?_, ?_, ?_, fun outs hstage hfirst => hs.unwoken hstage hfirst, ?_⟩
  · intro outs hstage
    obtain ⟨hcompleted, houts, hmatches⟩ := hs.outputs hstage
    refine ⟨hcompleted, houts.trans hlen, ?_⟩
    intro i input hi
    have hlt : i < s.hosts.length := hlen ▸ (List.getElem?_eq_some_iff.mp hi).1
    have hf : s.hosts[i]? = some s.hosts[i] := List.getElem?_eq_getElem hlt
    have ht : outs[i]? = some outs[i] := List.getElem?_eq_getElem (houts ▸ hlt)
    refine ⟨outs[i], s.hosts[i], ht, hf, ?_, hmatches i _ _ ht hf⟩
    rw [← hinputs, List.getElem?_map, hf] at hi
    exact Option.some.inj hi
  · intro hpended
    obtain ⟨ha, hlate⟩ := hs.pended hpended
    exact ⟨hlate, fun _ => hs.suspended ha⟩
  · rintro hunder (hlate | ⟨hfirst, hquick⟩)
    · exact hs.ends_of_late hsmall hunder hlate
    · exact hs.ends_of_first hsmall hquick hunder hfirst
  · rintro (hpended | htwo)
    · exact hs.woken (hs.pended hpended).1
    · exact hs.woken (hs.suspended_of_two htwo)
  · intro hbroken
    have hawaiter := hs.awaiter
    rw [AwaiterAt, hbroken] at hawaiter
    exact hawaiter

/-- Of two inputs one is ready; the other suspends in the first poll, which leaves waker 8 behind, and
ends when it is woken. -/
def oneSuspends : List (Act Nat Nat Nat) :=
  [.poll 8, .advance, .advance] ++ List.replicate 6 (.call 0 0 false noPoll) ++
    [.notify 0, .call 0 0 false noPoll, .advance, .advance] ++
    List.replicate 5 (.call 1 0 false (.suspended 3)) ++ List.replicate 5 .advance ++ [.wake 1] ++
    List.replicate 6 (.call 1 1 false (.ended (.ok 7))) ++ List.replicate 4 (.notify 1) ++
    [.poll 9, .advance, .advance, .call 0 1 false noPoll, .call 0 1 false noPoll, .advance, .advance,
      .call 1 2 false noPoll, .call 1 2 false noPoll, .advance, .advance]

theorem fan_in_is_exact_one_suspends :
    ∃ s : Gathering Nat Nat Nat, after? step? (start [.ready 5, .new 0]) oneSuspends = some s ∧
      s.wakers = [8, 9] ∧ s.roll.wakes = [(1, 8)] ∧ ∃ outs, s.stage = .finished outs ∧
        outs.length = 2 ∧ ∀ t, outs[1]? = some t → t.isReady = true := by
  have hrun : ((after? step? (start [.ready 5, .new 0] : Gathering Nat Nat Nat) oneSuspends).any fun s =>
      s.wakers = [8, 9] && s.roll.wakes = [(1, 8)] && (s.stage matches .finished _)) = true := by
    decide +kernel
  cases hs : after? step? (start [.ready 5, .new 0] : Gathering Nat Nat Nat) oneSuspends with
  | none => simp [hs] at hrun
  | some s =>
      simp only [hs, Option.any_some, Bool.and_eq_true, decide_eq_true_eq] at hrun
      obtain ⟨⟨hwakers, hwakes⟩, hfinished⟩ := hrun
      cases hstage : s.stage with
      | finished outs =>
          have hsound : ∀ t ∈ ([.ready 5, .new 0] : List (Task Nat Nat)), t.Sound := by
            intro t ht
            rcases List.mem_cons.mp ht with rfl | ht
            · exact Or.inl (Task.over_ready 5)
            · rw [List.mem_singleton.mp ht]
              exact Or.inr ⟨0, Task.runs_new 0⟩
          obtain ⟨hready, -⟩ := fan_in_is_exact hsound (by decide) (.of_after? oneSuspends hs)
          obtain ⟨-, hlen, houts⟩ := hready outs hstage
          refine ⟨s, rfl, hwakers, hwakes, outs, hstage, hlen, ?_⟩
          intro t ht
          obtain ⟨t', f, ht', -, -, htready, -⟩ := houts 1 (.new 0) rfl
          obtain rfl := Option.some.inj (ht.symm.trans ht')
          exact htready
      | _ => simp [hstage] at hfinished

end TaskDispatch.Gathering
