/-
Who is woken when a suspended operation completes.

A waker comes in with every poll.  A hop takes the waker of the poll that posts it, the first
hop of a timed wait that of the poll which armed the timer, and a fan-in that of its first
poll.  A poll that finds the operation still under way leaves nothing behind.  So the one that
is woken is the one registered last (`registered_waker_is_woken`), who need not be the one
that polled last: when the operation has changed hands meanwhile, its new owner is not woken
(`latest_poller_is_not_woken`).
-/
import TaskDispatch.Proofs.FanIn.Exact
import TaskDispatch.Proofs.Hop.Landing

namespace TaskDispatch

namespace Journey

variable {ω : Type} {first : Option ω} {s t : Journey ω}

/-- The wakers of the polls that left the future waiting, the latest last; a timed wait begins with the
waker of the poll that armed its timer. -/
def pollers (first : Option ω) (s : Journey ω) : List ω := first.toList ++ s.past.map (·.waker)

/-- Those of them that a hop was made for. -/
def registered (first : Option ω) (s : Journey ω) : List ω :=
  first.toList ++ (s.past.filter Poll.posted).map (·.waker)

/-- A poll that left the future waiting has posted a hop, or has found one pending. -/
def Paused (s : Journey ω) : Prop := ∀ p ∈ s.past, p.posted = true ∨ p.found = some .pending

theorem Paused.step (h : Paused s) (htracked : Tracked first s) (hturn : Turns s t) : Paused t := by
  cases hturn with
  | look thread waker hstage =>
      rw [sees]
      cases hmove : HopMove.of (s.latest thread) with
      | wait =>
          refine List.forall_mem_append.mpr ⟨h, List.forall_mem_singleton.mpr (Or.inr ?_)⟩
          exact (HopMove.of_eq_wait_iff _).mp hmove
      | post | arrive => exact h
  | post thread waker found hstage =>
      have hfits := htracked.fitting
      rw [hstage] at hfits
      exact List.forall_mem_append.mpr
        ⟨h, List.forall_mem_singleton.mpr (Or.inl (decide_eq_true hfits.1))⟩
  | _ => exact h

theorem paused_of_leads (h : Leads step? (start first) s) : Paused s := by
  refine (h.keeps (P := fun u => Tracked first u ∧ Paused u) (fun u a v hu hstep => ?_) ?_).2
  · exact ⟨hu.1.step hstep, hu.2.step hu.1 (turns_of_step? hstep)⟩
  · refine ⟨tracked_start first, ?_⟩
    cases first <;> exact nofun

/-- If the latest poll has posted, it is the one registered last. -/
theorem getLast?_pollers (hlatest : ∀ p, s.past.getLast? = some p → p.posted = true) :
    (s.pollers first).getLast? = (s.registered first).getLast? := by
  rw [pollers, registered]
  rcases List.eq_nil_or_concat s.past with hnil | ⟨before, p, hpast⟩
  · simp [hnil]
  · have hposted : p.posted = true := hlatest p (by simp [hpast])
    simp [hpast, hposted]

/-- The wakers of the hops are those registered, in their order. -/
theorem Tracked.registered_eq (h : Tracked first s) : s.registered first = s.hops.map (·.waker) :=
  h.wakers.symm

/-- **A worker that has woken with a hop has woken whoever registered with it.** -/
theorem woken_registered (h : Leads step? (start first) s) {c : Carrier ω} (hc : c ∈ s.carriers) {w : ω}
    (hwoke : c.place = .woke w) : (s.registered first)[c.hop]? = some w := by
  have htracked := Tracked.of_leads h
  obtain ⟨hop, hhop, hagrees⟩ := htracked.agreed c hc
  simp only [Carrier.agrees, hwoke] at hagrees
  rw [htracked.registered_eq, List.getElem?_map, hhop, hagrees.2]
  rfl

/-- With the latest hop it is whoever registered last. -/
theorem woken_registered_last (h : Leads step? (start first) s) {c : Carrier ω} (hc : c ∈ s.carriers) {w : ω}
    (hwoke : c.place = .woke w) (hlatest : c.hop + 1 = s.hops.length) :
    (s.registered first).getLast? = some w := by
  have hlength : (s.registered first).length = c.hop + 1 := by
    rw [(Tracked.of_leads h).registered_eq, List.length_map, hlatest]
  rw [List.getLast?_eq_getElem?, hlength]
  exact woken_registered h hc hwoke

end Journey

/-- **Who registered last is woken.**  In every order of polls, with whatever wakers, and of all else:

* a worker that has woken with a hop of a future has woken the one registered with that hop: with the
  latest hop the one registered last, which is the one that polled last, unless its poll found the hop
  pending;
* what a fan-in has woken is the waker of its first poll. -/
theorem registered_waker_is_woken {β α ω : Type} :
    (∀ (first : Option ω) (s : Journey ω), Leads Journey.step? (.start first) s →
      ∀ c ∈ s.carriers, ∀ w, c.place = .woke w → (s.registered first)[c.hop]? = some w ∧
        (c.hop + 1 = s.hops.length → (s.registered first).getLast? = some w ∧
          ((∀ p, s.past.getLast? = some p → p.found ≠ some .pending) →
            (s.pollers first).getLast? = some w))) ∧
    ∀ (inputs : List (Task β α)) (s : Gathering β α ω), (∀ t ∈ inputs, t.Sound) → inputs.length < 2 ^ 64 →
      Leads Gathering.step? (.start inputs) s → ∀ k w, (k, w) ∈ s.roll.wakes → s.wakers.head? = some w := by
  refine ⟨fun first s h c hc w hwoke => ?_, fun inputs s hsound hn h k w hwake => ?_⟩
  · refine ⟨Journey.woken_registered h hc hwoke, fun hlatest => ?_⟩
    have hlast := Journey.woken_registered_last h hc hwoke hlatest
    refine ⟨hlast, fun hfound => ?_⟩
    rw [Journey.getLast?_pollers fun p hp => ?_, hlast]
    have hpaused := Journey.paused_of_leads h p (List.mem_of_getLast? hp)
    exact hpaused.resolve_right (hfound p hp)
  · obtain ⟨hs, -⟩ := Gathering.gathered_of_leads hsound hn h
    obtain ⟨v, hfirst, hwoken, -⟩ := hs.woken (hs.tallied.of_wake hwake).2.2.1
    rw [hfirst, (hwoken k w hwake).1]

/-- A fan-in over one task that suspends is polled with waker 8 and then with 9. -/
theorem exists_polled_twice : ∃ s : Gathering Nat Nat Nat, Leads Gathering.step? (.start [.new 0]) s ∧
    s.Pended ∧ s.wakers = [8, 9] ∧ s.roll.wakes = [(0, 8)] :=
  ⟨_, .of_after? ([.poll 8, .advance, .advance] ++ List.replicate 5 (.call 0 0 false (.suspended 3)) ++
      List.replicate 5 .advance ++ [.poll 9, .advance, .wake 0] ++
      List.replicate 6 (.call 0 1 false (.ended (.ok 7))) ++ List.replicate 4 (.notify 0)) rfl,
    ⟨rfl, nofun⟩, rfl, rfl⟩

/-- Here the first hop comes down on another thread, so that the second poll posts one; the third poll finds
that one pending. -/
theorem registered_waker_is_woken_third_poll :
    (∃ s : Journey Nat, Leads Journey.step? (.start none) s ∧ s.pollers none = [10, 11, 12] ∧
      ⟨3, 1, .woke 11⟩ ∈ s.carriers ∧ (s.registered none).getLast? = some 11) ∧
    ∃ s : Gathering Nat Nat Nat, Leads Gathering.step? (.start [.new 0]) s ∧ s.wakers = [8, 9] ∧
      s.roll.wakes = [(0, 8)] ∧ s.wakers.head? = some 8 := by
  obtain ⟨hhop, hfan⟩ := registered_waker_is_woken (β := Nat) (α := Nat) (ω := Nat)
  constructor
  · let s : Journey Nat :=
      { hops := [⟨some 2, 10⟩, ⟨some 3, 11⟩]
        past := [⟨1, 10, none⟩, ⟨1, 11, some .elsewhere⟩, ⟨1, 12, some .pending⟩]
        carriers := [⟨2, 0, .landed⟩, ⟨3, 1, .woke 11⟩] }
    have hs : Leads Journey.step? (.start none) s :=
      .of_after? [.poll 1 10, .advance, .advance, .take 2, .carry 0, .poll 1 11, .advance, .advance,
        .poll 1 12, .advance, .take 3, .carry 1, .carry 1] rfl
    have hc : ⟨3, 1, .woke 11⟩ ∈ s.carriers := List.mem_cons_of_mem _ List.mem_cons_self
    exact ⟨s, hs, rfl, hc, ((hhop none s hs _ hc 11 rfl).2 rfl).1⟩
  · obtain ⟨s, hs, -, hwakers, hwakes⟩ := exists_polled_twice
    have hsound : ∀ t ∈ ([.new 0] : List (Task Nat Nat)), t.Sound := by
      intro t ht
      rw [List.mem_singleton.mp ht]
      exact Or.inr ⟨0, Task.runs_new 0⟩
    exact ⟨s, hs, hwakers, hwakes, hfan _ s hsound (by decide) hs 0 8 (by simp [hwakes])⟩

/-- A future is polled with waker 10 and then with 11; the second poll finds the hop pending, whether the
first poll or a timer has posted it. -/
theorem latest_poller_is_not_woken :
    (¬ ∀ s : Journey Nat, Leads Journey.step? (.start none) s → ∀ c ∈ s.carriers,
      c.hop + 1 = s.hops.length → ∀ w, c.place = .woke w → (s.pollers none).getLast? = some w) ∧
    (¬ ∀ s : Journey Nat, Leads Journey.step? (.start (some 10)) s → ∀ c ∈ s.carriers,
      c.hop + 1 = s.hops.length → ∀ w, c.place = .woke w → (s.pollers (some 10)).getLast? = some w) ∧
    ¬ ∀ s : Gathering Nat Nat Nat, Leads Gathering.step? (.start [.new 0]) s → s.Pended →
      ∀ k w, (k, w) ∈ s.roll.wakes → s.wakers.getLast? = some w := by
  refine ⟨fun h => ?_, fun h => ?_, fun h => ?_⟩
  · have hwoken := h _ (.of_after? [.poll 1 10, .advance, .advance, .poll 1 11, .advance, .take 2, .carry 0,
      .carry 0] rfl) _ List.mem_cons_self rfl 10 rfl
    cases hwoken
  · have hwoken := h _ (.of_after? [.poll 1 11, .advance, .fire, .take 2, .carry 0, .carry 0] rfl) _
      List.mem_cons_self rfl 10 rfl
    cases hwoken
  · obtain ⟨s, hs, hpended, hwakers, hwakes⟩ := exists_polled_twice
    have hwoken := h s hs hpended 0 8 (by simp [hwakes])
    simp [hwakers] at hwoken

end TaskDispatch
