/-
Where a timer is kept cannot be told from outside.

Two ledgers tell the same deeds, but the heap had room at other times.  Their queues hold
the same timers (`Twins.timers`), split between heap and overflow list in different ways.
An operation decides by the timer alone whether it goes (`Performed`), so both hand over the
same and are left with the same, and the invariant goes on to the next deed.

Of several timers due at the same time either queue may hand over another one first, but in
order of due time they come from both, and one list of numbers has one such order.
-/
import TaskDispatch.Proofs.Timer.Ledger

namespace TaskDispatch.Timer

/-- Two reports of the same deed, from which nobody can tell the queues apart. -/
structure Report.Alike (a b : Report) : Prop where
  deed : a.deed = b.deed
  handed : (a.handed.map (·.entry)).Perm (b.handed.map (·.entry))
  dues : ∀ now, a.deed = .dequeue now → a.handed.map (·.entry.due) = b.handed.map (·.entry.due)
  len : a.len = b.len
  isEmpty : a.isEmpty = b.isEmpty
  earliest : a.earliest = b.earliest

/-- Two queues with the same timers do the same. -/
theorem Performed.alike {cancelled : Nat → Bool} {n : Nat} {q r q' r' : Queue Nat} {deed : Deed}
    {handed handed' : List (Handed Nat)} (hq : Performed cancelled n q deed handed q')
    (hr : Performed cancelled n r deed handed' r')
    (hsame : (q.heap ++ q.overflow).Perm (r.heap ++ r.overflow)) :
    (handed.map (·.entry)).Perm (handed'.map (·.entry)) ∧
      (∀ now, deed = .dequeue now → handed.map (·.entry.due) = handed'.map (·.entry.due)) ∧
      (q'.heap ++ q'.overflow).Perm (r'.heap ++ r'.overflow) := by
  have hhanded := (hq.gone.trans (hsame.filter _)).trans hr.gone.symm
  refine ⟨hhanded, fun now hdeed => ?_, (hq.left.trans ((hsame.filter _).append_right _)).trans hr.left.symm⟩
  have hdues := hhanded.map (·.due)
  rw [List.map_map, List.map_map] at hdues
  exact hdues.eq_of_pairwise (fun _ _ _ _ => Nat.le_antisymm) (hq.ordered now hdeed) (hr.ordered now hdeed)

namespace Ledger

/-- Two ledgers of the same deeds. -/
structure Twins (s t : Ledger) : Prop where
  dues : s.dues = t.dues
  cancelled : s.cancelled = t.cancelled
  timers : (s.queue.heap ++ s.queue.overflow).Perm (t.queue.heap ++ t.queue.overflow)
  reports : List.Forall₂ Report.Alike s.reports t.reports

variable {s t s' t' : Ledger} {a b : Act}

theorem reports_of_step? (h : s.step? a = some s') :
    ∃ r : Report, r.deed = a.deed ∧ s'.reports = s.reports ++ [r] := by
  rw [step?] at h
  split at h
  · obtain rfl := Option.some.inj h
    exact ⟨_, rfl, rfl⟩
  · cases h

/-- **The same deed, done to both, leaves them twins.** -/
theorem Twins.step (h : Twins s t) (hs : Kept s) (ht : Kept t) (hdeed : a.deed = b.deed)
    (hstep : s.step? a = some s') (hstep' : t.step? b = some t') : Twins s' t' := by
  have hkept := hs.step hstep
  have hkept' := ht.step hstep'
  obtain ⟨q, handed, queue, hq, hdone, rfl⟩ := hs.of_step? hstep
  obtain ⟨r, handed', queue', hr, hdone', rfl⟩ := ht.of_step? hstep'
  have hcancelled : t.isCancelled = s.isCancelled := by
    funext k
    rw [isCancelled, isCancelled, h.cancelled]
  rw [← hdeed, ← h.dues, hcancelled] at hdone'
  obtain ⟨hhanded, hdues, htimers⟩ := hdone.alike hdone' ((hq.trans h.timers).trans hr.symm)
  obtain ⟨hlen, hisEmpty, hearliest⟩ := hkept.answers htimers.symm
  obtain ⟨hlen', hisEmpty', hearliest'⟩ := hkept'.answers (.refl _)
  refine ⟨?_, ?_, htimers, List.rel_append h.reports (.cons ⟨hdeed, hhanded, hdues, ?_, ?_, ?_⟩ .nil)⟩
  · rw [write, write, h.dues, hdeed]
  · rw [write, write, h.cancelled, hdeed]
  · exact hlen.trans hlen'.symm
  · exact hisEmpty.trans hisEmpty'.symm
  · exact hearliest.trans hearliest'.symm

/-- Two ledgers that tell the same deeds are twins. -/
theorem twins_of_leads (hs : Leads step? {} s) (ht : Leads step? {} t)
    (hsame : s.reports.map (·.deed) = t.reports.map (·.deed)) : Twins s t := by
  induction hs generalizing t with
  | refl =>
      cases ht with
      | refl => exact ⟨rfl, rfl, .refl _, .nil⟩
      | step b ht hstep' =>
          obtain ⟨r, -, hreports⟩ := reports_of_step? hstep'
          simp [hreports] at hsame
  | @step s s' a hs hstep ih =>
      obtain ⟨r, hr, hreports⟩ := reports_of_step? hstep
      cases ht with
      | refl => simp [hreports] at hsame
      | @step t _ b ht hstep' =>
          obtain ⟨r', hr', hreports'⟩ := reports_of_step? hstep'
          rw [hreports, hreports', List.map_append, List.map_append] at hsame
          obtain ⟨hbefore, hlast⟩ := List.append_inj' hsame rfl
          have hdeed : a.deed = b.deed := by
            rw [← hr, ← hr']
            exact List.singleton_injective hlast
          exact (ih ht hbefore).step (kept_of_leads hs) (kept_of_leads ht) hdeed hstep hstep'

/-- **Nobody can tell when the heap had room**: in two ledgers that tell the same deeds the reports are
alike, one by one. -/
theorem fallback_is_invisible (hs : Leads step? {} s) (ht : Leads step? {} t)
    (hsame : s.reports.map (·.deed) = t.reports.map (·.deed)) :
    List.Forall₂ Report.Alike s.reports t.reports :=
  (twins_of_leads hs ht hsame).reports

/-- One heap has room for all, the other for none but the last.  They tell one story, though of two timers
that are due at the same time another one comes first. -/
theorem fallback_is_invisible_at_equal_due_times :
    ∃ s t, Leads step? {} s ∧ Leads step? {} t ∧
      s.handed.map (fun x => (x.place, x.entry.item)) =
        [(.heap, 1), (.heap, 2), (.heap, 0), (.heap, 3), (.heap, 4)] ∧
      t.handed.map (fun x => (x.place, x.entry.item)) =
        [(.overflow, 1), (.overflow, 0), (.overflow, 2), (.overflow, 3), (.heap, 4)] ∧
      List.Forall₂ Report.Alike s.reports t.reports := by
  have hs : Leads step? {} _ := .of_after?
    [⟨.enqueue 5, true, []⟩, ⟨.enqueue 3, true, [⟨5, 0⟩]⟩, ⟨.enqueue 5, true, [⟨3, 1⟩, ⟨5, 0⟩]⟩,
      ⟨.enqueue 9, true, [⟨3, 1⟩, ⟨5, 0⟩, ⟨5, 2⟩]⟩, ⟨.cancel 3, true, [⟨3, 1⟩, ⟨5, 0⟩, ⟨5, 2⟩, ⟨9, 3⟩]⟩,
      ⟨.dequeue 5, true, [⟨3, 1⟩, ⟨5, 2⟩, ⟨5, 0⟩, ⟨9, 3⟩]⟩, ⟨.sweep, true, [⟨9, 3⟩]⟩,
      ⟨.enqueue 9, true, []⟩, ⟨.drain, true, [⟨9, 4⟩]⟩] rfl
  have ht : Leads step? {} _ := .of_after?
    [⟨.enqueue 5, false, []⟩, ⟨.enqueue 3, false, []⟩, ⟨.enqueue 5, false, []⟩, ⟨.enqueue 9, false, []⟩,
      ⟨.cancel 3, false, []⟩, ⟨.dequeue 5, false, []⟩, ⟨.sweep, false, []⟩, ⟨.enqueue 9, true, []⟩,
      ⟨.drain, false, [⟨9, 4⟩]⟩] rfl
  exact ⟨_, _, hs, ht, rfl, rfl, fallback_is_invisible hs ht rfl⟩

end Ledger

end TaskDispatch.Timer
