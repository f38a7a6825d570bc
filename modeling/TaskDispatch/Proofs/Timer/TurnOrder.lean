/-
In which order a turn fires its timers.

A turn of the thread's loop fires in three parts (`Part`).  First it sweeps the queue, and what
goes is cancelled.  Then it fires straight from the detached chain what is due or cancelled
there, in the order of the chain, which has the most recent push in front.  Last it fires what
is due in the queue, in order of due time.  `Fires` says so of every place in a turn, and an
act is looked at once for what it adds to which part.

So it is only the last part that is in order of due time.  A turn that comes late finds more
than one timer overdue in the inbox and fires the last pushed first, and all of them before
those that have been in the queue for longer.
-/
import TaskDispatch.Proofs.Timer.Firing
import TaskDispatch.Proofs.Timer.Handover

namespace TaskDispatch.Timer

variable {α : Type}

/-- From where a turn fires. -/
inductive Part where
  | sweep
  | chain
  | queue
  deriving DecidableEq

namespace Pc

/-- The part of the turn that the thread is in at this place. -/
def part : Pc α → Part
  | sort _ _ | clockAgain => .chain
  | dequeue _ | waiting _ => .queue
  | firing _ after | dropping _ after => after.part
  | _ => .sweep

/-- The timers of the heap that a sweep has found cancelled and not yet fired. -/
def gone : Pc α → List (Entry α)
  | siftHeap _ gone _ => gone
  | firing _ after | dropping _ after => after.gone
  | _ => []

end Pc

/-- What is next on the chain, and then what is left of it. -/
theorem Inbox.Tidy.collect_of_next? {l l' : Inbox α} {chain next : Option Nat} {list detached : List (Nat × α)}
    {pushing : Nat → Nat} {a : α} (h : l.Tidy chain list detached pushing)
    (hnext : l.next? chain = some (a, next, l')) :
    (l.collect l.nodes.len chain).1 = [a] ++ (l'.collect l'.nodes.len next).1 := by
  obtain ⟨slot, rest, rfl, hrest, -⟩ := h.next? hnext
  rw [h.collect, hrest.collect]
  rfl

theorem Inbox.Tidy.collect_of_next?_eq_none {l : Inbox α} {chain : Option Nat} {list detached : List (Nat × α)}
    {pushing : Nat → Nat} (h : l.Tidy chain list detached pushing) (hnext : l.next? chain = none) :
    (l.collect l.nodes.len chain).1 = [] ++ (l.collect l.nodes.len none).1 := by
  rw [h.chain_eq_none hnext, List.nil_append]

namespace Loop

/-- An act within one turn: the thread does not begin the next. -/
def turn? (s : Loop) (a : Act) : Option Loop :=
  match a, s.keeper.pc with
  | .keep .., .waiting .returned => none
  | _, _ => s.step? a

variable {s t u : Loop} {a : Act}

theorem step?_of_turn? (h : s.turn? a = some t) : s.step? a = some t := by
  unfold turn? at h
  split at h
  · cases h
  · exact h

theorem goes_of_turn? (h : s.turn? a = some t) : Goes s t :=
  (turns_of_step? (step?_of_turn? h)).goes

/-- A turn that has ended stays where it is. -/
theorem keeper_of_turn? (h : s.turn? a = some t) (hpc : s.keeper.pc = .waiting .returned) :
    t.keeper = s.keeper := by
  cases a with
  | join call | cancel k =>
      cases h
      rfl
  | call j spurious =>
      have hstep := step?_of_turn? h
      simp only [step?] at hstep
      cases hc : s.clients[j]? with
      | none => simp [hc] at hstep
      | some c =>
          simp only [hc, Option.some.injEq] at hstep
          rw [← hstep]
  | keep now room => simp [turn?, hpc] at h

theorem leads_of_turn (h : Leads turn? s t) : Leads step? s t := by
  induction h with
  | refl => exact .refl _
  | step a _ hstep ih => exact ih.step a (step?_of_turn? hstep)

/-- What is left of the detached chain. -/
def onChain (s : Loop) : List (Entry Nat) :=
  (s.shared.inbox.collect s.shared.inbox.nodes.len s.keeper.pc.chain).1

/-- The timer is due by a reading of this turn. -/
def IsDue (s : Loop) (e : Entry Nat) : Prop := ∃ r ∈ s.readings, e.due ≤ r

/-- What the turn that began with `s` has fired when it has come to `t`, or is about to: first `swept`, which
is cancelled, then `straight` from the chain, which is due or cancelled, and then what is due in the queue, in
order of due time. -/
structure Split (s t : Loop) (swept : List Nat) (straight queued : List (Entry Nat)) : Prop where
  fired : t.fired ++ t.keeper.pc.toFire =
    s.fired ++ swept ++ straight.map (·.item) ++ queued.map (·.item)
  cancelled : ∀ i ∈ swept, t.isCancelled i = true
  why : ∀ e ∈ straight, t.Dated e ∧ (t.IsDue e ∨ t.isCancelled e.item = true)
  due : ∀ e ∈ queued, t.Dated e ∧ t.IsDue e
  sorted : Sorted queued

/-- How a turn keeps to the three parts. -/
structure Fires (s t : Loop) (swept : List Nat) (straight queued : List (Entry Nat)) : Prop
    extends Split s t swept straight queued where
  gone : ∀ e ∈ t.keeper.pc.gone, t.isCancelled e.item = true
  early : t.keeper.pc.part = .sweep → straight = []
  /-- The chain was the inbox at one point of the turn. -/
  listed : t.keeper.pc.part ≠ .sweep → ∃ u now, Leads turn? s u ∧ u.keeper.pc = .detach now ∧
    Leads turn? u t ∧ (straight ++ t.onChain).Sublist u.shared.inbox.takeAll.1
  unqueued : t.keeper.pc.part ≠ .queue → queued = []
  before : ∀ e ∈ queued, ∀ f ∈ t.keeper.queue.heap ++ t.keeper.queue.overflow, e.due ≤ f.due

theorem fires_start (h : s.keeper.pc = .shutdown) : Fires s s [] [] [] where
  fired := by simp [h, Pc.toFire]
  cancelled := nofun
  gone := by simp [h, Pc.gone]
  why := nofun
  early _ := rfl
  listed hpart := absurd (by rw [h]; rfl) hpart
  due := nofun
  sorted := .nil
  unqueued _ := rfl
  before := nofun

namespace Fires

variable {swept : List Nat} {straight queued : List (Entry Nat)}

/-- Why a timer of the chain has been fired stays true. -/
theorem why_of_turn? (h : Fires s t swept straight queued) (hstep : t.turn? a = some u)
    (hreadings : t.readings ⊆ u.readings) :
    ∀ e ∈ straight, u.Dated e ∧ (u.IsDue e ∨ u.isCancelled e.item = true) := by
  intro e he
  obtain ⟨hdated, hwhy⟩ := h.why e he
  have hgoes := goes_of_turn? hstep
  exact ⟨hgoes.dated e hdated, hwhy.imp (fun ⟨r, hr, hle⟩ => ⟨r, hreadings hr, hle⟩) hgoes.isCancelled⟩

theorem cancelled_of_turn? (h : Fires s t swept straight queued) (hstep : t.turn? a = some u) :
    ∀ i ∈ swept, u.isCancelled i = true :=
  fun i hi => (goes_of_turn? hstep).isCancelled (h.cancelled i hi)

/-- What is taken off the front of the chain, and what is left of it, was there when it was the inbox. -/
theorem listed_of_turn? (h : Fires s t swept straight queued) (hstep : t.turn? a = some u)
    {new left : List (Entry Nat)} (hpart : t.keeper.pc.part ≠ .sweep)
    (hchain : t.onChain = left ++ u.onChain) (hnew : new.Sublist left) :
    ∃ v now, Leads turn? s v ∧ v.keeper.pc = .detach now ∧ Leads turn? v u ∧
      (straight ++ new ++ u.onChain).Sublist v.shared.inbox.takeAll.1 := by
  obtain ⟨v, now, hsv, hpc, hvt, hsub⟩ := h.listed hpart
  refine ⟨v, now, hsv, hpc, hvt.step a hstep, ?_⟩
  rw [List.append_assoc]
  rw [hchain] at hsub
  exact ((hnew.append_right u.onChain).append_left straight).trans hsub

/-- An act that fires nothing new. -/
theorem quiet (h : Fires s t swept straight queued) (hstep : t.turn? a = some u)
    (hreadings : t.readings ⊆ u.readings)
    (hfired : u.fired ++ u.keeper.pc.toFire = t.fired ++ t.keeper.pc.toFire)
    (hpart : u.keeper.pc.part = t.keeper.pc.part) (hgone : u.keeper.pc.gone = t.keeper.pc.gone)
    (hchain : u.onChain = t.onChain) (hqueue : u.keeper.queue = t.keeper.queue) :
    Fires s u swept straight queued where
  fired := hfired.trans h.fired
  cancelled := h.cancelled_of_turn? hstep
  gone := by
    rw [hgone]
    exact fun e he => (goes_of_turn? hstep).isCancelled (h.gone e he)
  why := h.why_of_turn? hstep hreadings
  early hsweep := h.early (hpart ▸ hsweep)
  listed hne := by
    have hlisted := h.listed_of_turn? hstep (hpart ▸ hne) hchain.symm (.refl [])
    rwa [List.append_nil] at hlisted
  due e he := by
    obtain ⟨hdated, r, hr, hle⟩ := h.due e he
    exact ⟨(goes_of_turn? hstep).dated e hdated, r, hreadings hr, hle⟩
  sorted := h.sorted
  unqueued hne := h.unqueued (hpart ▸ hne)
  before := by
    rw [hqueue]
    exact h.before

/-- A step of the sweep, which may find more that is cancelled. -/
theorem sweeps (h : Fires s t swept straight queued) (hstep : t.turn? a = some u) (new : List Nat)
    (hpart : t.keeper.pc.part = .sweep) (hpart' : u.keeper.pc.part = .sweep) (hfired : u.fired = t.fired)
    (htoFire : u.keeper.pc.toFire = t.keeper.pc.toFire ++ new) (hnew : ∀ i ∈ new, u.isCancelled i = true)
    (hgone : ∀ e ∈ u.keeper.pc.gone, u.isCancelled e.item = true) :
    Fires s u (swept ++ new) [] [] where
  fired := by
    have hold := h.fired
    rw [h.early hpart, h.unqueued (by rw [hpart]; decide)] at hold
    simp only [List.map_nil, List.append_nil] at hold ⊢
    rw [hfired, htoFire, ← List.append_assoc, hold, List.append_assoc]
  cancelled i hi := (List.mem_append.mp hi).elim (h.cancelled_of_turn? hstep i) (hnew i)
  gone := hgone
  why := nofun
  early _ := rfl
  listed hne := absurd hpart' hne
  due := nofun
  sorted := .nil
  unqueued _ := rfl
  before := nofun

/-- The inbox becomes the chain. -/
theorem detaches (h : Fires s t swept straight queued) (hst : Leads turn? s t) (hstep : t.turn? a = some u)
    {now : Nat} (hpc : t.keeper.pc = .detach now) (hgone : u.keeper.pc.gone = [])
    (hfired : u.fired ++ u.keeper.pc.toFire = t.fired ++ t.keeper.pc.toFire)
    (hchain : u.onChain = t.shared.inbox.takeAll.1) : Fires s u swept [] [] where
  fired := by
    have hold := h.fired
    rw [h.early (by rw [hpc]; rfl), h.unqueued (by rw [hpc]; exact nofun)] at hold
    rw [hfired, hold]
  cancelled := h.cancelled_of_turn? hstep
  gone := by
    rw [hgone]
    nofun
  why := nofun
  early _ := rfl
  listed _ := ⟨t, now, hst, hpc, .step a (.refl t) hstep, by rw [hchain, List.nil_append]⟩
  due := nofun
  sorted := .nil
  unqueued _ := rfl
  before := nofun

/-- A step along the chain, which fires what it takes off its front or puts it into the queue. -/
theorem chains (h : Fires s t swept straight queued) (hstep : t.turn? a = some u)
    (hreadings : t.readings ⊆ u.readings) (new : List (Entry Nat)) {left : List (Entry Nat)}
    (hpart : t.keeper.pc.part = .chain) (hpart' : u.keeper.pc.part ≠ .sweep) (hgone : u.keeper.pc.gone = [])
    (hfired : u.fired ++ u.keeper.pc.toFire = t.fired ++ t.keeper.pc.toFire ++ new.map (·.item))
    (hwhy : ∀ e ∈ new, u.Dated e ∧ (u.IsDue e ∨ u.isCancelled e.item = true))
    (hchain : t.onChain = left ++ u.onChain) (hnew : new.Sublist left) :
    Fires s u swept (straight ++ new) [] where
  fired := by
    rw [hfired, h.fired, h.unqueued (by rw [hpart]; decide)]
    simp
  cancelled := h.cancelled_of_turn? hstep
  gone := by
    rw [hgone]
    nofun
  why e he := (List.mem_append.mp he).elim (h.why_of_turn? hstep hreadings e) (hwhy e)
  early hsweep := absurd hsweep hpart'
  listed _ := h.listed_of_turn? hstep (by rw [hpart]; decide) hchain hnew
  due := nofun
  sorted := .nil
  unqueued _ := rfl
  before := nofun

/-- One more is taken from the queue, and it is due first there. -/
theorem dequeues (h : Fires s t swept straight queued) (hstep : t.turn? a = some u)
    (hreadings : t.readings ⊆ u.readings) {now : Nat} {x : Handed Nat}
    (hpart : t.keeper.pc.part = .queue) (hpart' : u.keeper.pc.part = .queue) (hgone : u.keeper.pc.gone = [])
    (hfired : u.fired ++ u.keeper.pc.toFire = t.fired ++ t.keeper.pc.toFire ++ [x.entry.item])
    (hnew : u.Dated x.entry ∧ u.IsDue x.entry) (hchain : u.onChain = t.onChain)
    (hsorted : Sorted t.keeper.queue.overflow) (htakes : t.keeper.queue.Takes now x u.keeper.queue) :
    Fires s u swept straight (queued ++ [x.entry]) where
  fired := by
    rw [hfired, h.fired]
    simp
  cancelled := h.cancelled_of_turn? hstep
  gone := by
    rw [hgone]
    nofun
  why := h.why_of_turn? hstep hreadings
  early hsweep := by
    rw [hpart'] at hsweep
    cases hsweep
  listed _ := by
    have hlisted := h.listed_of_turn? hstep (by rw [hpart]; decide) hchain.symm (.refl [])
    rwa [List.append_nil] at hlisted
  due e he := by
    rcases List.mem_append.mp he with hold | hlast
    · obtain ⟨hdated, r, hr, hle⟩ := h.due e hold
      exact ⟨(goes_of_turn? hstep).dated e hdated, r, hreadings hr, hle⟩
    · rwa [List.mem_singleton.mp hlast]
  sorted := by
    refine List.pairwise_append.mpr ⟨h.sorted, List.pairwise_singleton .., fun e he f hf => ?_⟩
    rw [List.mem_singleton.mp hf]
    exact h.before e he x.entry (htakes.perm.mem_iff.mpr List.mem_cons_self)
  unqueued hne := absurd hpart' hne
  before e he f hf := by
    have hin := htakes.perm.mem_iff.mpr (List.mem_cons_of_mem x.entry hf)
    rcases List.mem_append.mp he with hold | hlast
    · exact h.before e hold f hin
    · rw [List.mem_singleton.mp hlast]
      exact htakes.due_le_of_mem hsorted hin

/-- **A step of the thread fires in one of the three parts, or nothing.** -/
theorem keep (h : Fires s t swept straight queued) (hreach : Leads step? {} t) (hst : Leads turn? s t)
    {now : Nat} {room : Bool} {shared : Shared Nat} {keeper : Keeper Nat}
    (hmove : Keeper.Moves t.isCancelled now room t.keeper.queue t.shared t.keeper.pc shared keeper)
    (hstep : t.turn? a = some { t with shared, keeper, readings := readingsAfter t.keeper.pc now t.readings }) :
    ∃ swept straight queued, Fires s { t with
      shared, keeper, readings := readingsAfter t.keeper.pc now t.readings } swept straight queued := by
  have hripe := ripening_of_leads hreach
  have hsorted := sorted_of_leads hreach
  obtain ⟨list, detached, hplaced⟩ := placed_of_leads hreach
  have hended := keeper_of_turn? hstep
  obtain ⟨shared₀, ⟨queue, pc⟩, clients, cancelled, readings, fired, abandoned⟩ := t
  cases hmove with
  -- the sweep
  | goesOn hflag | closes hflag | skip hskip | sweep hflag hq | listStays rest e he | listSifted | clock
  | abandonQueue | abandonIntake | abandons chain next e inbox hnext | exit chain hnext | exited =>
      exact ⟨_, _, _, h.sweeps hstep [] rfl rfl rfl rfl (List.forall_mem_nil _) (List.forall_mem_nil _)⟩
  | heapGoes kept gone rest e he =>
      refine ⟨_, _, _, h.sweeps hstep [] rfl rfl rfl rfl (List.forall_mem_nil _) fun f hf => ?_⟩
      rcases List.mem_append.mp hf with hold | hnew
      · exact h.gone f hold
      · rwa [List.mem_singleton.mp hnew]
  | heapStays kept gone rest e he =>
      exact ⟨_, _, _, h.sweeps hstep [] rfl rfl rfl rfl (List.forall_mem_nil _) h.gone⟩
  | heapSifted kept gone =>
      refine ⟨_, _, _, h.sweeps hstep (gone.map (·.item)) rfl rfl rfl (List.append_nil _) ?_
        (List.forall_mem_nil _)⟩
      intro i hi
      obtain ⟨e, he, rfl⟩ := List.mem_map.mp hi
      exact h.gone e he
  | listGoes rest e he =>
      refine ⟨_, _, _, h.sweeps hstep [e.item] rfl rfl rfl rfl (fun i hi => ?_) (List.forall_mem_nil _)⟩
      rwa [List.mem_singleton.mp hi]
  -- the chain
  | detach r => exact ⟨_, _, _, h.detaches hst hstep rfl rfl rfl rfl⟩
  | sorted r chain hnext =>
      have hchain := hplaced.tidy.collect_of_next?_eq_none hnext
      exact ⟨_, _, _, h.chains hstep (fun _ => id) [] rfl (by simp [Pc.part]) rfl (by simp [Pc.toFire])
        (List.forall_mem_nil _) hchain (.refl [])⟩
  | fires r chain next e inbox hnext he =>
      have hchain := hplaced.tidy.collect_of_next? hnext
      refine ⟨_, _, _, h.chains hstep (fun _ => id) [e] rfl (by simp [Pc.part]) rfl (by simp [Pc.toFire]) ?_
        hchain (.refl _)⟩
      intro f hf
      rw [List.mem_singleton.mp hf]
      exact ⟨(hripe.inbox.next? hnext).1, he.imp (fun hdue => ⟨r, hripe.keeper.1, hdue⟩) id⟩
  | enqueues r chain next e inbox hnext hdue he =>
      have hchain := hplaced.tidy.collect_of_next? hnext
      exact ⟨_, _, _, h.chains hstep (fun _ => id) [] rfl (by simp [Pc.part]) rfl (by simp [Pc.toFire])
        (List.forall_mem_nil _) hchain (List.nil_sublist [e])⟩
  | clockAgain =>
      exact ⟨_, _, _, h.chains hstep (List.subset_cons_self _ _) [] rfl (by simp [Pc.part]) rfl
        (by simp [Pc.toFire]) (List.forall_mem_nil _) rfl (.refl [])⟩
  -- the queue
  | dequeues r x q' hdequeue =>
      obtain ⟨hin, hdue⟩ := Queue.of_dequeue? hdequeue
      exact ⟨_, _, _, h.dequeues hstep (fun _ => id) rfl rfl rfl (by simp [Pc.toFire])
        ⟨hripe.keeper.2 _ hin, r, hripe.keeper.1, hdue⟩ rfl hsorted (Queue.takes_of_dequeue? hdequeue)⟩
  | dequeued r hnone | release hflag | park hflag | notified hflag | expires hflag due hdue hnow | expired =>
      exact ⟨_, _, _, h.quiet hstep (fun _ => id) rfl rfl rfl rfl rfl⟩
  | turn => cases hended rfl
  -- wherever the thread goes on
  | fired after | dropped after => exact ⟨_, _, _, h.quiet hstep (fun _ => id) rfl rfl rfl rfl rfl⟩

/-- **What one act adds to what the turn fires.** -/
theorem step (h : Fires s t swept straight queued) (hreach : Leads step? {} t) (hst : Leads turn? s t)
    (hstep : t.turn? a = some u) : ∃ swept straight queued, Fires s u swept straight queued := by
  cases turns_of_step? (step?_of_turn? hstep) with
  | join call | cancel k => exact ⟨_, _, _, h.quiet hstep (fun _ => id) rfl rfl rfl rfl rfl⟩
  | call j c spurious hc =>
      obtain ⟨list, detached, hplaced⟩ := placed_of_leads hreach
      obtain ⟨news, hnext, -⟩ := hplaced.call hc spurious
      refine ⟨_, _, _, h.quiet hstep (fun _ => id) rfl rfl rfl ?_ rfl⟩
      rw [onChain, onChain, hplaced.tidy.collect]
      exact hnext.tidy.collect
  | fire i rest after hpc =>
      refine ⟨_, _, _, h.quiet hstep (fun _ => id) ?_ ?_ ?_ ?_ rfl⟩
      · simp [hpc, Pc.toFire]
      · simp [hpc, Pc.part]
      · simp [hpc, Pc.gone]
      · simp [onChain, hpc, Pc.chain]
  | abandon i rest after hpc =>
      refine ⟨_, _, _, h.quiet hstep (fun _ => id) ?_ ?_ ?_ ?_ rfl⟩
      · simp [hpc, Pc.toFire]
      · simp [hpc, Pc.part]
      · simp [hpc, Pc.gone]
      · simp [onChain, hpc, Pc.chain]
  | keep now room shared keeper hmove => exact h.keep hreach hst hmove hstep

end Fires

theorem exists_fires (h : Leads step? {} s) (hpc : s.keeper.pc = .shutdown) (hst : Leads turn? s t) :
    ∃ swept straight queued, Fires s t swept straight queued := by
  induction hst with
  | refl => exact ⟨_, _, _, fires_start hpc⟩
  | step a hst hstep ih =>
      obtain ⟨swept, straight, queued, hfires⟩ := ih
      exact hfires.step (h.trans (leads_of_turn hst)) hst hstep

/-- **A turn fires what it has swept, then what it fires straight from the inbox, the most recent push in
front, and then what is due in the queue, which alone is in order of due time.** -/
theorem turn_fires_in_three_parts (h : Leads step? {} s) (hpc : s.keeper.pc = .shutdown)
    (hst : Leads turn? s t) :
    ∃ (swept : List Nat) (straight queued : List (Entry Nat)), Split s t swept straight queued ∧
      (straight ≠ [] → ∃ u now, Leads turn? s u ∧ u.keeper.pc = .detach now ∧ Leads turn? u t ∧
        straight.Sublist u.shared.inbox.takeAll.1) := by
  obtain ⟨swept, straight, queued, hfires⟩ := exists_fires h hpc hst
  refine ⟨swept, straight, queued, hfires.toSplit, fun hne => ?_⟩
  obtain ⟨u, now, hsu, hu, hut, hsub⟩ := hfires.listed fun hpart => hne (hfires.early hpart)
  exact ⟨u, now, hsu, hu, hut, (List.sublist_append_left ..).trans hsub⟩

/-- Two timers are in the queue, one of them cancelled, and two in the inbox when the turn comes late: of
the three that are overdue the one in the queue is due first and fires last. -/
theorem turn_fires_in_three_parts_late :
    let clients : List Client := [⟨.arm 100 none, .done⟩, ⟨.arm 50 (some 7), .done⟩, ⟨.arm 110 none, .done⟩,
      ⟨.arm 105 none, .done⟩, ⟨.sweep, .done⟩]
    let s : Loop := {
      shared := {
        inbox := { head := some 1, nodes := { slots := [some ⟨⟨110, 2⟩, none⟩, some ⟨⟨105, 3⟩, some 0⟩], len := 2 } }
        sweepRequested := true }
      keeper := ⟨⟨[⟨50, 1⟩, ⟨100, 0⟩], [], 0⟩, .shutdown⟩
      clients
      cancelled := [7]
      readings := [20, 20] }
    let t : Loop := {
      shared := { inbox := { nodes := { slots := [none, none], free := [0, 1] } } }
      keeper := ⟨{}, .waiting .looking⟩
      clients
      cancelled := [7]
      readings := [120, 120]
      fired := [1, 3, 2, 0] }
    Leads step? {} s ∧ s.keeper.pc = .shutdown ∧ Leads turn? s t ∧
      ∃ swept straight queued, Split s t swept straight queued := by
  intro clients s t
  have h : Leads step? {} s :=
    .of_after? (List.flatten
      [[.join (.arm 100 none), .join (.arm 50 (some 7))],
        (List.range 2).flatMap (fun j => List.replicate 5 (.call j false)), List.replicate 9 (.keep 20 true),
        [.join (.arm 110 none), .join (.arm 105 none), .cancel 7, .join .sweep],
        (List.range 3).flatMap (fun j => List.replicate 5 (.call (j + 2) false)),
        List.replicate 2 (.keep 20 true)]) rfl
  have hst : Leads turn? s t := .of_after? (List.replicate 22 (.keep 120 true)) rfl
  obtain ⟨swept, straight, queued, hsplit, -⟩ := turn_fires_in_three_parts h rfl hst
  exact ⟨h, rfl, hst, swept, straight, queued, hsplit⟩

/-! ### Not in order of due time -/

/-- When the timer is due, if there is one. -/
def dueOf (s : Loop) (i : Nat) : Option Nat :=
  match s.callOf i with
  | some (.arm due _) => some due
  | _ => none

/-- The due times of the timers fired between two states, but for those that are cancelled, in the order in
which they were fired. -/
def duesFired (s t : Loop) : List Nat :=
  ((t.fired.drop s.fired.length).filter fun i => !t.isCancelled i).filterMap t.dueOf

/-- **A late turn does not fire in order of due time.**  Two timers are overdue in the inbox, and the one
pushed last is due last and fires first. -/
theorem late_turn_fires_out_of_order :
    ¬ ∀ s t, Leads step? {} s → s.keeper.pc = .shutdown → Leads turn? s t →
      (duesFired s t).Pairwise (· ≤ ·) := by
  intro h
  let clients : List Client := [⟨.arm 1 none, .done⟩, ⟨.arm 2 none, .done⟩]
  let s : Loop := {
    shared := {
      inbox := { head := some 1, nodes := { slots := [some ⟨⟨1, 0⟩, none⟩, some ⟨⟨2, 1⟩, some 0⟩], len := 2 } }
      signal := ⟨true⟩ }
    clients }
  let t : Loop := {
    shared := { inbox := { nodes := { slots := [none, none], free := [0, 1] } }, signal := ⟨true⟩ }
    keeper := ⟨{}, .waiting .looking⟩
    clients
    readings := [5, 5]
    fired := [1, 0] }
  have hs : Leads step? {} s :=
    .of_after? (List.flatten
      [[.join (.arm 1 none), .join (.arm 2 none)],
        (List.range 2).flatMap (fun j => List.replicate 5 (.call j false))]) rfl
  have hst : Leads turn? s t := .of_after? (List.replicate 13 (.keep 5 true)) rfl
  have hdues : List.Pairwise (· ≤ ·) [2, 1] := h s t hs rfl hst
  exact absurd hdues (by decide)

end Loop

end TaskDispatch.Timer
