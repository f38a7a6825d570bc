/-
Until when a registration can be taken back.

Whoever drops a registration takes its callback out of the slab, so that it never runs.  But
a request empties the slab before it runs the first callback.  From then on a drop finds
nothing to take out, though most of the callbacks have not begun yet: the request holds them
all, and it runs the ones that are dropped meanwhile like the others
(`revocable_until_detached`).

That makes a difference as soon as a callback takes its time, or drops the registration of
another one.
-/
import TaskDispatch.Proofs.Cancellation.Runs

namespace TaskDispatch

namespace Circle

variable {s t : Circle} {i j : Nat}

/-! ### A drop is final -/

/-- What was dropped stays dropped. -/
theorem dropped_of_turns {early : Bool} (hi : s.registrations[i]? = some (.dropped early))
    (hturn : Turns s t) : t.registrations[i]? = some (.dropped early) := by
  cases hturn with
  | join => exact (List.getElem?_append_left (List.getElem?_eq_some_iff.mp hi).1).trans hi
  | late j hj _ => exact getElem?_set_of_ne hi hj nofun
  | enrol j hj _ => exact getElem?_set_of_ne hi hj nofun
  | beginLate j hj => exact getElem?_set_of_ne hi hj nofun
  | endLate j hj => exact getElem?_set_of_ne hi hj nofun
  | drop j key hj => exact getElem?_set_of_ne hi hj nofun
  | _ => exact hi

theorem dropped_of_leads {early : Bool} (h : Leads step? s t)
    (hi : s.registrations[i]? = some (.dropped early)) : t.registrations[i]? = some (.dropped early) :=
  h.keeps (P := fun u => u.registrations[i]? = some (.dropped early))
    (fun _ _ _ hold hstep => dropped_of_turns hold (turns_of_step? hstep)) hi

/-- A drop writes down whether it came in time. -/
theorem of_drop (h : s.step? (.drop i) = some t) :
    t.registrations[i]? = some (.dropped !s.detached) ∧ t.detached = s.detached ∧ t.begun = s.begun := by
  rw [step?] at h
  split at h
  · next key hi =>
      obtain rfl := Option.some.inj h
      exact ⟨List.getElem?_set_self (List.getElem?_eq_some_iff.mp hi).1, rfl, rfl⟩
  · cases h

/-! ### What is detached runs -/

/-- A request begins the first callback that it has in hand. -/
theorem ask_running {rest : List Nat} (hj : s.requests[j]? = some (.between (.running (i :: rest)))) :
    ∃ t, s.step? (.ask j) = some t ∧ t.requests[j]? = some (.inside i rest) ∧ i ∈ t.begun := by
  refine ⟨{ s with requests := s.requests.set j (.inside i rest), begun := s.begun ++ [i] }, ?_, ?_, ?_⟩
  · rw [step?, ask?, hj]
  · exact List.getElem?_set_self (List.getElem?_eq_some_iff.mp hj).1
  · exact List.mem_append_right _ List.mem_cons_self

/-- When a callback has run, the request goes on with the rest. -/
theorem ask_inside {rest : List Nat} (hj : s.requests[j]? = some (.inside i rest)) :
    ∃ t, s.step? (.ask j) = some t ∧ t.requests[j]? = some (.between (.running rest)) := by
  refine ⟨{ s with
    requests := s.requests.set j (.between (.running rest)), ended := s.ended ++ [i] }, ?_, ?_⟩
  · rw [step?, ask?, hj]
    rfl
  · exact List.getElem?_set_self (List.getElem?_eq_some_iff.mp hj).1

/-- A request that goes on comes to every callback that it has in hand. -/
theorem exists_leads_of_running {callbacks : List Nat}
    (hj : s.requests[j]? = some (.between (.running callbacks))) (hi : i ∈ callbacks) :
    ∃ u, Leads step? s u ∧ i ∈ u.begun := by
  induction callbacks generalizing s with
  | nil => cases hi
  | cons k rest ih =>
      obtain ⟨v, hbegin, hinside, hbegun⟩ := ask_running hj
      rcases List.mem_cons.mp hi with rfl | hrest
      · exact ⟨v, .head (.ask j) hbegin (.refl v), hbegun⟩
      · obtain ⟨w, hend, hrunning⟩ := ask_inside hinside
        obtain ⟨u, hu, hran⟩ := ih hrunning hrest
        exact ⟨u, .head (.ask j) hbegin (.head (.ask j) hend hu), hran⟩

theorem exists_leads_of_queue {r : Asker} (hj : s.requests[j]? = some r) (hi : i ∈ r.queue) :
    ∃ u, Leads step? s u ∧ i ∈ u.begun := by
  cases r with
  | between pc =>
      cases pc with
      | running callbacks => exact exists_leads_of_running hj hi
      | raise | detach | returned => cases hi
  | inside k rest =>
      obtain ⟨v, hend, hrunning⟩ := ask_inside hj
      obtain ⟨u, hu, hran⟩ := exists_leads_of_running hrunning hi
      exact ⟨u, .head (.ask j) hend hu, hran⟩

namespace Kept

/-- A callback that was dropped too late and has not begun is with the request. -/
theorem exists_queue (h : Kept s) (hi : s.registrations[i]? = some (.dropped false))
    (hdetached : s.detached = true) (hbegun : s.begun.count i = 0) :
    ∃ (j : Nat) (r : Asker), s.requests[j]? = some r ∧ i ∈ r.queue := by
  have honce := h.counted.once i
  have hwithheld : withheld s.registrations i = 0 := by rw [withheld, hi]; rfl
  have hlive : s.source.callbacks.liveCount (· == i) = 0 := by rw [h.keyed.empty hdetached]; rfl
  have hqueued : queued s.requests i ≠ 0 := by omega
  by_contra hnone
  refine hqueued (List.sum_eq_zero_iff_forall_eq_nat.mpr fun n hn => ?_)
  obtain ⟨r, hr, rfl⟩ := List.mem_map.mp hn
  obtain ⟨j, hj⟩ := List.getElem?_of_mem hr
  exact List.count_eq_zero.mpr fun hmem => hnone ⟨j, r, hj, hmem⟩

end Kept

/-- **A registration can be taken back until the callbacks are detached, and no longer.**  Of a callback
whose registration is dropped before it has begun to run:

* it never runs, whatever is done, exactly if the callbacks had not been detached by then;
* if they had, it has run once, all the same, when the request returns. -/
theorem revocable_until_detached (h : Leads step? {} s) (hdrop : s.step? (.drop i) = some t)
    (hbegun : s.begun.count i = 0) :
    ((∀ u, Leads step? t u → u.begun.count i = 0) ↔ s.detached = false) ∧
    (s.detached = true → ∀ u, Leads step? t u → ∀ j, u.first = some j →
      (u.requests[j]?).any Asker.isReturned = true → u.ended.count i = 1) := by
  have ht : Leads step? {} t := .step (.drop i) h hdrop
  obtain ⟨hi, hdetached, hsame⟩ := of_drop hdrop
  refine ⟨⟨fun hnever => ?_, fun hopen u hu => ?_⟩, fun hlate u hu j hfirst hreturned => ?_⟩
  · by_contra hlate
    rw [Bool.not_eq_false] at hlate
    rw [hlate] at hi hdetached
    rw [← hsame] at hbegun
    obtain ⟨j, r, hj, hqueue⟩ := (kept_of_leads ht).exists_queue hi hdetached hbegun
    obtain ⟨u, hu, hran⟩ := exists_leads_of_queue hj hqueue
    exact List.count_eq_zero.mp (hnever u hu) hran
  · rw [hopen] at hi
    exact (kept_of_leads (ht.trans hu)).begun_of_dropped (dropped_of_leads hu hi)
  · rw [hlate] at hi
    exact (kept_of_leads (ht.trans hu)).count_ended_of_stands hfirst hreturned (dropped_of_leads hu hi) rfl

/-- The first callback is about to drop the registration of the second. -/
theorem revocable_until_detached_inside_a_callback :
    let s : Circle := {
      source := { requested := true }
      registrations := [.held 0, .held 1]
      requests := [.inside 0 [1]]
      first := some 0
      detached := true
      begun := [0] }
    let t : Circle := { s with registrations := [.held 0, .dropped false] }
    let u : Circle := { t with requests := [.between .returned], begun := [0, 1], ended := [0, 1] }
    Leads step? {} s ∧ s.step? (.drop 1) = some t ∧ s.begun.count 1 = 0 ∧ Leads step? t u ∧
      u.ended.count 1 = 1 ∧ ¬ ∀ v, Leads step? t v → v.begun.count 1 = 0 := by
  intro s t u
  have hs : Leads step? {} s :=
    .of_after? [.join, .register 0, .join, .register 1, .request, .ask 0, .ask 0, .ask 0] rfl
  have hu : Leads step? t u := .of_after? [.ask 0, .ask 0, .ask 0, .ask 0] rfl
  obtain ⟨honly, hran⟩ := revocable_until_detached (i := 1) (t := t) hs rfl rfl
  exact ⟨hs, rfl, rfl, hu, hran rfl u hu 0 rfl rfl, fun hnever => nomatch honly.mp hnever⟩

/-- A registration that is dropped while the request works through the callbacks is not honoured. -/
theorem dropped_registration_runs :
    ¬ ∀ s t u i, Leads step? {} s → s.step? (.drop i) = some t → s.begun.count i = 0 →
      Leads step? t u → u.begun.count i = 0 := by
  intro h
  have hs : Leads step? {} _ :=
    .of_after? [.join, .register 0, .join, .register 1, .request, .ask 0, .ask 0, .ask 0] rfl
  have hnever := h _ _ _ 1 hs rfl rfl (.of_after? [.ask 0, .ask 0] rfl)
  cases hnever

end Circle

end TaskDispatch
