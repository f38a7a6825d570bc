/-
Every callback runs once, unless its registration is dropped in time.

The caller that raises the flag is the only one that goes past it (`Asked`).  Nothing
enrols from then on, so when that caller detaches the callbacks it gets all that will
ever be there, and the slab is empty for good.

Until then the key of a registration leads to its own callback (`Keyed`).  A removal
makes the key free for another registration, but the one that held it is gone by then;
after the callbacks have been detached a key leads nowhere.

So a callback is in one place at a time: with the call that registers it, in the slab,
among those that the request has detached, or in the record of those that have begun to
run; or it was dropped in time (`Counted`).
-/
import TaskDispatch.Proofs.Cancellation.Circle
import TaskDispatch.Proofs.Slab

namespace TaskDispatch

/-- A drained slab has nothing to remove. -/
theorem Slab.remove?_empty {α : Type} (i : Nat) : (({} : Slab α).remove? i) = (none, {}) :=
  remove?_of_get?_eq_none (by simp [get?])

namespace Asker

/-- Whether the caller has not looked at the flag, or has returned. -/
def isIdle : Asker → Bool
  | between .raise | between .returned => true
  | _ => false

/-- Whether this is a place of the caller that raised the flag, with the callbacks detached or not. -/
def hasRaised (detached : Bool) : Asker → Bool
  | between .raise => false
  | between .detach => !detached
  | _ => detached

/-- The callbacks that the caller has detached and not begun to run. -/
def queue : Asker → List Nat
  | between (.running callbacks) => callbacks
  | inside _ rest => rest
  | _ => []

/-- Whether the caller is inside the callback with number `i`. -/
def isInside (i : Nat) : Asker → Bool
  | inside k _ => k == i
  | _ => false

/-- Whether the request has returned. -/
def isReturned : Asker → Bool
  | between .returned => true
  | _ => false

theorem eq_of_isReturned {r : Asker} (h : r.isReturned = true) : r = between .returned := by
  unfold isReturned at h
  split at h
  · rfl
  · cases h

end Asker

/-- Whether a callback is still with the call that registers it, or was dropped in time. -/
def Registration.withholds : Registration → Bool
  | enrolling | late | dropped true => true
  | running | inert | held _ | dropped false => false

/-- Whether the registration was not dropped before the callbacks were detached. -/
def Registration.stands : Registration → Bool
  | held _ | dropped false => true
  | enrolling | late | running | inert | dropped true => false

/-- Whether the call that makes the registration is inside the callback. -/
def Registration.isRunning : Registration → Bool
  | running => true
  | _ => false

namespace Circle

variable {s t : Circle} {i j : Nat}

/-! ### Who has raised the flag -/

/-- The flag was raised by one caller, and no other has gone past it. -/
structure Asked (s : Circle) : Prop where
  flag : s.source.requested = s.first.isSome
  before : s.first = none → s.detached = false
  first : ∀ j, s.first = some j → ∃ r, s.requests[j]? = some r ∧ r.hasRaised s.detached = true
  others : ∀ j r, s.requests[j]? = some r → s.first ≠ some j → r.isIdle = true

namespace Asked

/-- Whoever has gone past the flag has raised it. -/
theorem hasRaised (h : Asked s) {r : Asker} (hj : s.requests[j]? = some r) (hr : r.isIdle = false) :
    s.first = some j ∧ r.hasRaised s.detached = true := by
  have hfirst : s.first = some j := by
    by_contra hne
    rw [h.others j r hj hne] at hr
    cases hr
  obtain ⟨r', hr', hraised⟩ := h.first j hfirst
  rw [hj] at hr'
  cases hr'
  exact ⟨hfirst, hraised⟩

/-- As long as the flag is down nothing is detached. -/
theorem not_detached (h : Asked s) (hopen : s.source.requested = false) : s.detached = false := by
  refine h.before (Option.not_isSome_iff_eq_none.mp ?_)
  rw [← h.flag, hopen]
  nofun

/-- The caller that raised the flag goes on. -/
theorem advance (h : Asked s) {r r' : Asker} (hj : s.requests[j]? = some r) (hr : r.isIdle = false)
    (hrequests : t.requests = s.requests.set j r') (hfirst : t.first = s.first)
    (hflag : t.source.requested = s.source.requested) (hraised : r'.hasRaised t.detached = true) :
    Asked t := by
  have hj' := (h.hasRaised hj hr).1
  refine ⟨by rw [hflag, hfirst, h.flag], ?_, ?_, ?_⟩
  · intro hnone
    rw [hfirst, hj'] at hnone
    cases hnone
  · intro k hk
    rw [hfirst, hj'] at hk
    cases hk
    exact ⟨r', by rw [hrequests, List.getElem?_set_self (List.getElem?_eq_some_iff.mp hj).1], hraised⟩
  · intro k q hk hne
    rw [hrequests] at hk
    rw [hfirst] at hne
    rcases getElem?_of_set hk with ⟨rfl, -⟩ | ⟨-, hold⟩
    · exact absurd hj' hne
    · exact h.others k q hold hne

theorem step (h : Asked s) (hturn : Turns s t) : Asked t := by
  cases hturn with
  | request =>
      refine ⟨h.flag, h.before, ?_, ?_⟩
      · intro j hj
        obtain ⟨r, hr, hraised⟩ := h.first j hj
        exact ⟨r, by rw [List.getElem?_append_left (List.getElem?_eq_some_iff.mp hr).1, hr], hraised⟩
      · intro j r hr hne
        rcases getElem?_of_join hr with rfl | hold
        · rfl
        · exact h.others j r hold hne
  | again j hj hrequested =>
      refine ⟨h.flag, h.before, ?_, ?_⟩
      · intro k hk
        obtain ⟨r, hr, hraised⟩ := h.first k hk
        have hne : r ≠ .between .raise := by
          rintro rfl
          cases hraised
        exact ⟨r, getElem?_set_of_ne hr hj hne, hraised⟩
      · intro k r hr hne
        rcases getElem?_of_set hr with ⟨-, rfl⟩ | ⟨-, hold⟩
        · rfl
        · exact h.others k r hold hne
  | raise j hj hopen =>
      have hnone : s.first = none := by
        have := h.flag
        rw [hopen] at this
        exact Option.not_isSome_iff_eq_none.mp (by rw [← this]; nofun)
      refine ⟨rfl, nofun, ?_, ?_⟩
      · intro k hk
        cases hk
        refine ⟨_, List.getElem?_set_self (List.getElem?_eq_some_iff.mp hj).1, ?_⟩
        rw [Asker.hasRaised, h.before hnone]
        rfl
      · intro k r hr hne
        rcases getElem?_of_set hr with ⟨rfl, -⟩ | ⟨-, hold⟩
        · exact absurd rfl hne
        · exact h.others k r hold (by rw [hnone]; nofun)
  | detach j hj => exact h.advance hj rfl rfl rfl rfl rfl
  | begin i j rest hj => exact h.advance hj rfl rfl rfl rfl (h.hasRaised hj rfl).2
  | «end» i j rest hj => exact h.advance hj rfl rfl rfl rfl (h.hasRaised hj rfl).2
  | finish j hj => exact h.advance hj rfl rfl rfl rfl (h.hasRaised hj rfl).2
  | _ => exact ⟨h.flag, h.before, h.first, h.others⟩

end Asked

/-! ### Where keys lead -/

/-- A key leads to the callback of the registration that holds it, until all are detached. -/
structure Keyed (s : Circle) : Prop where
  sound : s.source.callbacks.Sound
  held : ∀ i key, s.registrations[i]? = some (.held key) → s.detached = false →
    s.source.callbacks.get? key = some i
  empty : s.detached = true → s.source.callbacks = {}

namespace Keyed

/-- A registration moves on that neither holds a key nor comes to hold one. -/
theorem set (h : Keyed s) {r : Registration} (hregistrations : t.registrations = s.registrations.set i r)
    (hsource : t.source = s.source) (hdetached : t.detached = s.detached) (hr : ∀ key, r ≠ .held key) :
    Keyed t := by
  refine ⟨by rw [hsource]; exact h.sound, ?_, by rw [hdetached, hsource]; exact h.empty⟩
  intro k key hk hopen
  rw [hregistrations] at hk
  rw [hdetached] at hopen
  rw [hsource]
  rcases getElem?_of_set hk with ⟨-, heq⟩ | ⟨-, hold⟩
  · exact absurd heq.symm (hr key)
  · exact h.held k key hold hopen

/-- What a drop finds under the key: its own callback, or nothing at all once all are detached. -/
theorem of_drop (h : Keyed s) {key : Nat} (hi : s.registrations[i]? = some (.held key)) :
    s.detached = false ∧ s.source.callbacks.get? key = some i ∨
      s.detached = true ∧ s.source.callbacks = {} := by
  cases hdetached : s.detached with
  | false => exact Or.inl ⟨rfl, h.held i key hi hdetached⟩
  | true => exact Or.inr ⟨rfl, h.empty hdetached⟩

/-- **A drop leaves the callbacks of all others where they are.** -/
theorem get?_withdraw (h : Keyed s) {key : Nat} (hi : s.registrations[i]? = some (.held key)) {k n : Nat}
    (hn : n ≠ i) :
    (s.source.withdraw key).2.callbacks.get? k = some n ↔ s.source.callbacks.get? k = some n := by
  show (s.source.callbacks.remove? key).2.get? k = some n ↔ _
  rw [Slab.get?_remove?]
  split
  · next hk =>
      rw [hk]
      rcases h.of_drop hi with ⟨-, hget⟩ | ⟨-, hempty⟩
      · rw [hget]
        simpa using hn.symm
      · simp [hempty, Slab.get?]
  · rfl

theorem drop (h : Keyed s) {key : Nat} (hi : s.registrations[i]? = some (.held key)) :
    Keyed { s with
      source := (s.source.withdraw key).2
      registrations := s.registrations.set i (.dropped !s.detached) } := by
  refine ⟨h.sound.remove? key, ?_, ?_⟩
  · intro k key' hk hopen
    rcases getElem?_of_set hk with ⟨-, heq⟩ | ⟨hne, hold⟩
    · cases heq
    · exact (h.get?_withdraw hi hne).mpr (h.held k key' hold hopen)
  · intro hdetached
    show (s.source.callbacks.remove? key).2 = {}
    rw [h.empty hdetached, Slab.remove?_empty]

theorem enrol (h : Keyed s) (hopen : s.detached = false) :
    Keyed { s with
      source := { s.source with callbacks := (s.source.callbacks.insert i).2 }
      registrations := s.registrations.set i (.held (s.source.callbacks.insert i).1) } := by
  refine ⟨h.sound.insert i, ?_, ?_⟩
  · intro k key hk _
    rcases getElem?_of_set hk with ⟨rfl, heq⟩ | ⟨-, hold⟩
    · cases heq
      rw [Slab.get?_insert h.sound, if_pos rfl]
    · exact Slab.get?_insert_of_get? h.sound (h.held k key hold hopen) i
  · intro hdetached
    rw [hopen] at hdetached
    cases hdetached

theorem step (h : Keyed s) (hasked : Asked s) (hturn : Turns s t) : Keyed t := by
  cases hturn with
  | join =>
      refine ⟨h.sound, ?_, h.empty⟩
      intro k key hk hopen
      rcases getElem?_of_join hk with hnew | hold
      · cases hnew
      · exact h.held k key hold hopen
  | late i hi hrequested => exact h.set rfl rfl rfl nofun
  | enrol i hi hopen => exact h.enrol (hasked.not_detached hopen)
  | beginLate i hi => exact h.set rfl rfl rfl nofun
  | endLate i hi => exact h.set rfl rfl rfl nofun
  | drop i key hi => exact h.drop hi
  | detach j hj => exact ⟨Slab.sound_empty, nofun, fun _ => rfl⟩
  | _ => exact ⟨h.sound, h.held, h.empty⟩

end Keyed

/-! ### Where a callback is -/

/-- Whether the callback with number `i` is still with the call that registers it, also before that has
begun, or was dropped in time. -/
def withheld (registrations : List Registration) (i : Nat) : Nat :=
  ((registrations[i]?).elim true Registration.withholds).toNat

/-- How often the callback with number `i` is among those detached and not begun. -/
def queued (requests : List Asker) (i : Nat) : Nat := (requests.map fun r => r.queue.count i).sum

/-- Whether the call that makes the registration with number `i` is inside the callback. -/
def running (registrations : List Registration) (i : Nat) : Nat :=
  ((registrations[i]?).any Registration.isRunning).toNat

/-- A callback is in one place at a time, and every run of it that has begun ends or is under way. -/
structure Counted (s : Circle) : Prop where
  once : ∀ i, withheld s.registrations i + s.source.callbacks.liveCount (· == i) + queued s.requests i +
    s.begun.count i = 1
  runs : ∀ i, s.ended.count i + s.requests.countP (·.isInside i) + running s.registrations i =
    s.begun.count i

theorem count_concat (l : List Nat) (i k : Nat) : (l ++ [i]).count k = l.count k + (i == k).toNat := by
  rw [List.count_append, List.count_singleton]
  cases i == k <;> rfl

theorem withheld_set {registrations : List Registration} {r : Registration}
    (hi : registrations[i]? = some r) (r' : Registration) (k : Nat) :
    withheld (registrations.set i r') k + (i == k && r.withholds).toNat =
      withheld registrations k + (i == k && r'.withholds).toNat := by
  by_cases hk : i = k
  · subst hk
    simp only [withheld, List.getElem?_set_self (List.getElem?_eq_some_iff.mp hi).1, hi, Option.elim_some,
      BEq.rfl, Bool.true_and]
    omega
  · simp [withheld, List.getElem?_set_ne hk, beq_false_of_ne hk]

theorem withheld_join (registrations : List Registration) (k : Nat) :
    withheld (registrations ++ [.enrolling]) k = withheld registrations k := by
  unfold withheld
  by_cases hk : k < registrations.length
  · rw [List.getElem?_append_left hk]
  · rw [List.getElem?_eq_none (Nat.le_of_not_lt hk), List.getElem?_append_right (Nat.le_of_not_lt hk)]
    cases k - registrations.length <;> rfl

theorem queued_set {requests : List Asker} {r : Asker} (hj : requests[j]? = some r) (r' : Asker) (k : Nat) :
    queued (requests.set j r') k + r.queue.count k = queued requests k + r'.queue.count k :=
  sum_map_set_add (fun r => r.queue.count k) r' hj

theorem running_set {registrations : List Registration} {r : Registration}
    (hi : registrations[i]? = some r) (r' : Registration) (k : Nat) :
    running (registrations.set i r') k + (i == k && r.isRunning).toNat =
      running registrations k + (i == k && r'.isRunning).toNat := by
  by_cases hk : i = k
  · subst hk
    simp only [running, List.getElem?_set_self (List.getElem?_eq_some_iff.mp hi).1, hi, Option.any_some,
      BEq.rfl, Bool.true_and]
    omega
  · simp [running, List.getElem?_set_ne hk, beq_false_of_ne hk]

theorem running_join (registrations : List Registration) (k : Nat) :
    running (registrations ++ [.enrolling]) k = running registrations k := by
  unfold running
  by_cases hk : k < registrations.length
  · rw [List.getElem?_append_left hk]
  · rw [List.getElem?_eq_none (Nat.le_of_not_lt hk), List.getElem?_append_right (Nat.le_of_not_lt hk)]
    cases k - registrations.length <;> rfl

namespace Counted

theorem join (h : Counted s) : Counted { s with registrations := s.registrations ++ [.enrolling] } := by
  refine ⟨fun k => ?_, fun k => ?_⟩
  · rw [withheld_join]
    exact h.once k
  · rw [running_join]
    exact h.runs k

theorem request (h : Counted s) : Counted { s with requests := s.requests ++ [.between .raise] } := by
  refine ⟨fun k => ?_, fun k => ?_⟩
  · have := h.once k
    simp only [queued, List.map_append, List.map_cons, List.map_nil, List.sum_append, List.sum_cons,
      List.sum_nil, Asker.queue, List.count_nil] at this ⊢
    exact this
  · have := h.runs k
    simp only [List.countP_append, countP_cons_eq_add, List.countP_nil, Asker.isInside,
      Bool.toNat_false] at this ⊢
    exact this

/-- A registration moves on: what it withholds no more has gone into the slab or has begun to run. -/
theorem register (h : Counted s) {r r' : Registration} (hi : s.registrations[i]? = some r)
    (hregistrations : t.registrations = s.registrations.set i r') (hrequests : t.requests = s.requests)
    (honce : ∀ k, (i == k && r'.withholds).toNat + t.source.callbacks.liveCount (· == k) + t.begun.count k =
      (i == k && r.withholds).toNat + s.source.callbacks.liveCount (· == k) + s.begun.count k)
    (hruns : ∀ k, t.ended.count k + (i == k && r'.isRunning).toNat + s.begun.count k =
      s.ended.count k + (i == k && r.isRunning).toNat + t.begun.count k) : Counted t := by
  refine ⟨fun k => ?_, fun k => ?_⟩
  · have hold := h.once k
    have hset := withheld_set hi r' k
    have hk := honce k
    rw [hregistrations, hrequests]
    omega
  · have hold := h.runs k
    have hset := running_set hi r' k
    have hk := hruns k
    rw [hregistrations, hrequests]
    omega

/-- A request moves on: what it has queued no more has begun to run. -/
theorem ask (h : Counted s) {r r' : Asker} (hj : s.requests[j]? = some r)
    (hrequests : t.requests = s.requests.set j r') (hregistrations : t.registrations = s.registrations)
    (honce : ∀ k, r'.queue.count k + t.source.callbacks.liveCount (· == k) + t.begun.count k =
      r.queue.count k + s.source.callbacks.liveCount (· == k) + s.begun.count k)
    (hruns : ∀ k, t.ended.count k + (r'.isInside k).toNat + s.begun.count k =
      s.ended.count k + (r.isInside k).toNat + t.begun.count k) : Counted t := by
  refine ⟨fun k => ?_, fun k => ?_⟩
  · have hold := h.once k
    have hset := queued_set hj r' k
    have hk := honce k
    rw [hregistrations, hrequests]
    omega
  · have hold := h.runs k
    have hset := countP_set_add (·.isInside k) r' hj
    have hk := hruns k
    rw [hregistrations, hrequests]
    omega

theorem drop (h : Counted s) (hkeyed : Keyed s) {key : Nat}
    (hi : s.registrations[i]? = some (.held key)) :
    Counted { s with
      source := (s.source.withdraw key).2
      registrations := s.registrations.set i (.dropped !s.detached) } := by
  refine h.register hi rfl rfl (fun k => ?_) fun k => rfl
  show (i == k && (Registration.dropped !s.detached).withholds).toNat +
    (s.source.callbacks.remove? key).2.liveCount (· == k) + _ = _
  rcases hkeyed.of_drop hi with ⟨hopen, hget⟩ | ⟨hdetached, hempty⟩
  · have hremoved := Slab.liveCount_of_remove? (· == k) (Slab.remove?_of_get?_eq_some hget)
    rw [hopen, Slab.remove?_of_get?_eq_some hget]
    simp only [Bool.not_false, Registration.withholds, Bool.and_true, Bool.and_false, Bool.toNat_false]
    omega
  · rw [hdetached, hempty, Slab.remove?_empty]
    rfl

theorem step (h : Counted s) (hkeyed : Keyed s) (hturn : Turns s t) : Counted t := by
  cases hturn with
  | join => exact h.join
  | request => exact h.request
  | late i hi hrequested => exact h.register hi rfl rfl (fun _ => rfl) fun _ => rfl
  | enrol i hi hopen =>
      refine h.register hi rfl rfl (fun k => ?_) fun _ => rfl
      have hinsert := Slab.liveCount_insert hkeyed.sound (· == k) i
      simp only [Registration.withholds, Bool.and_true, Bool.and_false, Bool.toNat_false]
      omega
  | beginLate i hi =>
      refine h.register hi rfl rfl (fun k => ?_) fun k => ?_
      · simp only [Registration.withholds, Bool.and_true, Bool.and_false, Bool.toNat_false, count_concat]
        omega
      · simp only [Registration.isRunning, Bool.and_true, Bool.and_false, Bool.toNat_false, count_concat]
        omega
  | endLate i hi =>
      refine h.register hi rfl rfl (fun _ => rfl) fun k => ?_
      simp only [Registration.isRunning, Bool.and_true, Bool.and_false, Bool.toNat_false, count_concat]
      omega
  | drop i key hi => exact h.drop hkeyed hi
  | again j hj hrequested => exact h.ask hj rfl rfl (fun _ => rfl) fun _ => rfl
  | raise j hj hopen => exact h.ask hj rfl rfl (fun _ => rfl) fun _ => rfl
  | detach j hj =>
      refine h.ask hj rfl rfl (fun k => ?_) fun _ => rfl
      have hdrain := Slab.countP_drain (· == k) s.source.callbacks
      have hnone : ({} : Slab Nat).liveCount (· == k) = 0 := rfl
      simp only [Asker.queue, List.count_nil, hnone]
      rw [List.count, hdrain]
      omega
  | begin i j rest hj =>
      refine h.ask hj rfl rfl (fun k => ?_) fun k => ?_
      · have hcons : (i :: rest).count k = rest.count k + (i == k).toNat := countP_cons_eq_add (· == k) i rest
        simp only [Asker.queue, count_concat, hcons]
        omega
      · simp only [Asker.isInside, count_concat, Bool.toNat_false]
        omega
  | «end» i j rest hj =>
      refine h.ask hj rfl rfl (fun _ => rfl) fun k => ?_
      simp only [Asker.isInside, count_concat, Bool.toNat_false]
      omega
  | finish j hj => exact h.ask hj rfl rfl (fun _ => rfl) fun _ => rfl

end Counted

/-- A call that came too late returns when the callback has run. -/
def Heeded (s : Circle) : Prop := ∀ i, s.registrations[i]? = some .inert → i ∈ s.ended

namespace Heeded

/-- A registration moves on that has not run its callback. -/
theorem set (h : Heeded s) {r : Registration} (hregistrations : t.registrations = s.registrations.set i r)
    (hended : t.ended = s.ended) (hr : r ≠ .inert) : Heeded t := by
  intro k hk
  rw [hregistrations] at hk
  rw [hended]
  rcases getElem?_of_set hk with ⟨-, heq⟩ | ⟨-, hold⟩
  · exact absurd heq.symm hr
  · exact h k hold

theorem step (h : Heeded s) (hturn : Turns s t) : Heeded t := by
  cases hturn with
  | join =>
      intro k hk
      exact h k ((getElem?_of_join hk).resolve_left nofun)
  | late i hi hrequested => exact h.set rfl rfl nofun
  | enrol i hi hopen => exact h.set rfl rfl nofun
  | beginLate i hi => exact h.set rfl rfl nofun
  | endLate i hi =>
      intro k hk
      rcases getElem?_of_set hk with ⟨rfl, -⟩ | ⟨-, hold⟩
      · exact List.mem_append_right _ List.mem_cons_self
      · exact List.mem_append_left _ (h k hold)
  | drop i key hi => exact h.set rfl rfl nofun
  | «end» i j rest hj =>
      intro k hk
      exact List.mem_append_left _ (h k hk)
  | _ => exact h

end Heeded

/-! ### Every order of acts -/

/-- What holds of a circle however its parties take turns. -/
structure Kept (s : Circle) : Prop where
  asked : Asked s
  keyed : Keyed s
  counted : Counted s
  heeded : Heeded s

theorem kept_of_leads (h : Leads step? {} s) : Kept s := by
  refine h.keeps (fun u a v hu hstep => ?_) ⟨⟨rfl, fun _ => rfl, nofun, nofun⟩,
    ⟨Slab.sound_empty, nofun, nofun⟩, ⟨fun _ => rfl, fun _ => rfl⟩, nofun⟩
  have hturn := turns_of_step? hstep
  exact ⟨hu.asked.step hturn, hu.keyed.step hu.asked hturn, hu.counted.step hu.keyed hturn,
    hu.heeded.step hturn⟩

namespace Kept

/-- Once the request that raised the flag has returned, no caller has a callback in hand. -/
theorem idle_of_returned (h : Kept s) (hfirst : s.first = some j)
    (hreturned : (s.requests[j]?).any Asker.isReturned = true) :
    ∀ r ∈ s.requests, r.isIdle = true := by
  intro r hr
  obtain ⟨k, hk⟩ := List.getElem?_of_mem hr
  by_cases hne : s.first = some k
  · rw [hfirst] at hne
    cases hne
    rw [hk] at hreturned
    rw [Asker.eq_of_isReturned hreturned]
    rfl
  · exact h.asked.others k r hk hne

/-- The callbacks are detached before the request that raised the flag returns. -/
theorem detached_of_returned (h : Kept s) (hfirst : s.first = some j)
    (hreturned : (s.requests[j]?).any Asker.isReturned = true) : s.detached = true := by
  obtain ⟨r, hr, hraised⟩ := h.asked.first j hfirst
  rw [hr] at hreturned
  rw [Asker.eq_of_isReturned hreturned] at hraised
  exact hraised

/-- A callback that is neither with its registration nor in the slab, the callers being idle, has run. -/
theorem count_ended (h : Kept s) (hidle : ∀ r ∈ s.requests, r.isIdle = true)
    (hwithheld : withheld s.registrations i = 0) (hrunning : running s.registrations i = 0)
    (hlive : s.source.callbacks.liveCount (· == i) = 0) : s.ended.count i = 1 := by
  have honce := h.counted.once i
  have hruns := h.counted.runs i
  have hinside : s.requests.countP (·.isInside i) = 0 := by
    refine List.countP_eq_zero.mpr fun r hr => ?_
    have := hidle r hr
    cases r with
    | between pc => nofun
    | inside k rest => cases this
  have hqueued : queued s.requests i = 0 := by
    refine List.sum_eq_zero_iff_forall_eq_nat.mpr fun n hn => ?_
    obtain ⟨r, hr, rfl⟩ := List.mem_map.mp hn
    have := hidle r hr
    cases r with
    | inside k rest => cases this
    | between pc =>
        cases pc with
        | raise | detach | returned => rfl
        | running callbacks => cases this
  omega

/-- A registration that was not dropped in time has had its callback run when the request returns. -/
theorem count_ended_of_stands (h : Kept s) (hfirst : s.first = some j)
    (hreturned : (s.requests[j]?).any Asker.isReturned = true) {r : Registration}
    (hi : s.registrations[i]? = some r) (hr : r.stands = true) : s.ended.count i = 1 := by
  have hempty := h.keyed.empty (h.detached_of_returned hfirst hreturned)
  refine h.count_ended (h.idle_of_returned hfirst hreturned) ?_ ?_ (by rw [hempty]; rfl)
  · rw [withheld, hi]
    cases r with
    | held key => rfl
    | dropped early =>
        cases early with
        | false => rfl
        | true => cases hr
    | _ => cases hr
  · rw [running, hi]
    cases r with
    | running => cases hr
    | _ => rfl

theorem begun_le_one (h : Kept s) (i : Nat) : s.begun.count i ≤ 1 := by
  have := h.counted.once i
  omega

theorem ended_le_begun (h : Kept s) (i : Nat) : s.ended.count i ≤ s.begun.count i := by
  have := h.counted.runs i
  omega

/-- What was dropped in time never runs. -/
theorem begun_of_dropped (h : Kept s) (hi : s.registrations[i]? = some (.dropped true)) :
    s.begun.count i = 0 := by
  have honce := h.counted.once i
  have hwithheld : withheld s.registrations i = 1 := by rw [withheld, hi]; rfl
  omega

end Kept

/-- **Callbacks are neither lost, repeated nor mixed up.**  In every order of the steps of all callers:

* a callback begins to run at most once, and no run ends that has not begun;
* when the request that raised the flag has returned, every callback has run whose registration was not
  dropped before the callbacks were detached;
* when a call that came too late to enrol has returned, its callback has run;
* a callback whose registration was dropped before the callbacks were detached never runs;
* once the callbacks have been detached the slab is empty;
* a drop takes no callback but its own out of the slab, and none from those who are to run it. -/
theorem callbacks_run_exactly_once (h : Leads step? {} s) :
    (∀ i, s.begun.count i ≤ 1 ∧ s.ended.count i ≤ s.begun.count i) ∧
    (∀ j, s.first = some j → (s.requests[j]?).any Asker.isReturned = true →
      ∀ i r, s.registrations[i]? = some r → r.stands = true → s.ended.count i = 1) ∧
    (∀ i, s.registrations[i]? = some .inert → s.ended.count i = 1) ∧
    (∀ i, s.registrations[i]? = some (.dropped true) → s.begun.count i = 0) ∧
    (s.detached = true → s.source.callbacks = {}) ∧
    ∀ i t, s.step? (.drop i) = some t → t.requests = s.requests ∧
      ∀ key k, k ≠ i → (t.source.callbacks.get? key = some k ↔ s.source.callbacks.get? key = some k) := by
  have hkept := kept_of_leads h
  refine ⟨fun i => ⟨hkept.begun_le_one i, hkept.ended_le_begun i⟩, ?_, ?_, ?_, hkept.keyed.empty, ?_⟩
  · intro j hfirst hreturned i r hi hr
    exact hkept.count_ended_of_stands hfirst hreturned hi hr
  · intro i hi
    have hpos := List.count_pos_iff.mpr (hkept.heeded i hi)
    have hone := hkept.begun_le_one i
    have hle := hkept.ended_le_begun i
    omega
  · intro i hi
    exact hkept.begun_of_dropped hi
  · intro i t hdrop
    rw [step?] at hdrop
    split at hdrop
    · next key hi =>
        cases hdrop
        exact ⟨rfl, fun key' k hk => hkept.keyed.get?_withdraw hi hk⟩
    · cases hdrop

/-- The key of a registration that was dropped in time is used again; a second registration comes between
the flag and the detaching, and the first is dropped while its callback is about to run. -/
theorem callbacks_run_exactly_once_key_reused :
    let s : Circle := {
      source := { requested := true }
      registrations := [.dropped true, .dropped false, .inert]
      requests := [.between .returned]
      first := some 0
      detached := true
      begun := [2, 1]
      ended := [2, 1] }
    Leads step? {} s ∧ s.begun.count 0 = 0 ∧ s.ended.count 1 = 1 ∧ s.ended.count 2 = 1 ∧
      s.source.callbacks = {} := by
  intro s
  have h : Leads step? {} s :=
    .of_after? [.join, .register 0, .drop 0, .join, .register 1, .request, .ask 0, .join, .register 2,
      .ask 0, .drop 1, .register 2, .register 2, .ask 0, .ask 0, .ask 0] rfl
  obtain ⟨-, hstands, hinert, hdropped, hempty, -⟩ := callbacks_run_exactly_once h
  exact ⟨h, hdropped 0 rfl, hstands 0 rfl rfl 1 _ rfl rfl, hinert 2 rfl, hempty rfl⟩

end Circle

end TaskDispatch
