/-
A registration comes to its end.

A registration that its first look has not refused can always take a step of its own: it
has the timer thread started, does its next errand, or posts the hop that it was told to
post.  `effort` says how many of these it has left while nobody comes in between, and each
of them lowers it.  What can cost it more is only that somebody else has changed the head
of the inbox, and then it has to link its node once more.
-/
import TaskDispatch.Proofs.Timer.Course

namespace TaskDispatch.Timer

/-! ### What is left to do -/

/-- How many steps a caller has left, with this head of the inbox.  A push that has seen another one has to
read it again. -/
def Caller.effort {α : Type} (head : Option Nat) : Caller α → Nat
  | arm (.place _) => 5
  | arm (.load _) => 4
  | arm (.link _ seen) => if head = seen then 3 else 5
  | arm (.exchange _ seen) => if head = seen then 2 else 4
  | arm (.pushed _) | signal => 1
  | sweep | shutdown => 2
  | done => 0

/-- How many steps an errand takes, with that of going on to the next; who arrives may owe a post. -/
def Errand.effort {α : Type} (head : Option Nat) : Errand α → Nat
  | call c => c.effort head + 1
  | arrive => 2

/-- How many steps the registration of a wait has left. -/
def Wait.effort (head : Option Nat) (w : Wait) : Nat :=
  match w.place with
  | .checking => 14
  | .enrolling => 13
  | .busy left => (left.map (Errand.effort head)).sum + 1
  | .refused | .pending | .left => 0

/-- An exchange succeeds if the head is still the one it saw. -/
theorem Caller.effort_step_lt {α : Type} {c : Caller α} (hc : c ≠ .done) (s : Shared α) :
    (c.step false s).2.effort (c.step false s).1.inbox.head < c.effort s.inbox.head := by
  cases c with
  | done => exact absurd rfl hc
  | sweep | shutdown | signal => simp [step, effort]
  | arm pc =>
      cases pc with
      | place e | load slot => simp [step, Inbox.Push.step, effort]
      | link slot seen => by_cases hseen : s.inbox.head = seen <;> simp [step, Inbox.Push.step, effort, hseen]
      | exchange slot seen =>
          by_cases hseen : s.inbox.head = seen <;> simp [step, Inbox.Push.step, effort, hseen]
      | pushed wasEmpty => cases wasEmpty <;> simp [step, effort]

/-- What is left when the wait enrols is less than when it was about to. -/
theorem effort_errands_lt (late : Bool) (e : Entry Nat) (head : Option Nat) :
    ((errands late e).map (Errand.effort head)).sum + 1 < 13 := by
  cases late <;> simp [errands, Errand.effort, Caller.effort]

variable {ω : Type} {i : Nat} {first : ω}

namespace Wait

variable {w : Wait} {d : Desk} {m : Meeting ω}

/-- A step of a registration towards its end: less is left to do, the posts that are owed included, and the
registration goes on, or its errands are done. -/
structure Nears (first : ω) (m : Meeting ω) (w : Wait) (d : Desk) (w' : Wait) (d' : Desk) : Prop where
  less : w'.effort d'.shared.inbox.head + (m.registers first w).owing.length
    < w.effort d.shared.inbox.head + m.owing.length
  place : w'.isSettled = false ∧ w'.isRefused d'.sources = false ∨ w.place = .busy [] ∧ w'.place = .pending

/-- A wait that enrols has its errands before it. -/
theorem exists_nearer_of_enrolling (i : Nat) (first : ω) (m : Meeting ω) (hp : w.place = .enrolling) :
    ∃ d' w', w.step? i false d = some (d', w') ∧ w.Nears first m d w' d' := by
  have hnears : ∀ (d' : Desk) (key : Option Nat) (late : Bool),
      w.Nears first m d { w with key, place := .busy (errands late ⟨w.due, i⟩) } d' := by
    intro d' key late
    refine ⟨?_, Or.inl ⟨rfl, rfl⟩⟩
    rw [Meeting.registers, hp, show w.effort d.shared.inbox.head = 13 by rw [effort, hp]]
    exact Nat.add_lt_add_right (effort_errands_lt late ⟨w.due, i⟩ d'.shared.inbox.head) _
  cases hsource : w.source with
  | none => exact ⟨d, _, by simp [step?, hp, hsource], hnears d w.key false⟩
  | some k =>
      cases hk : (d.sources k).requested with
      | true =>
          refine ⟨d, _, ?_, hnears d w.key true⟩
          simp [step?, hp, hsource, Source.enrol_of_requested hk]
      | false =>
          refine ⟨d.putSource k { d.sources k with callbacks := ((d.sources k).callbacks.insert i).2 }, _, ?_,
            hnears _ (some ((d.sources k).callbacks.insert i).1) false⟩
          simp [step?, hp, hsource, Source.enrol_of_not_requested hk]

/-- A call of the timer thread goes on, or is over; what comes after it does not depend on the inbox. -/
theorem exists_nearer_of_call (i : Nat) (first : ω) (m : Meeting ω) {c : Caller Nat}
    {rest : List (Errand Nat)} (hp : w.place = .busy (.call c :: rest))
    (hrest : ∀ head head', (rest.map (Errand.effort head)).sum = (rest.map (Errand.effort head')).sum) :
    ∃ d' w', w.step? i false d = some (d', w') ∧ w.Nears first m d w' d' := by
  have howing : (m.registers first w).owing = m.owing := by rw [Meeting.registers, hp]
  have heffort : w.effort d.shared.inbox.head =
      c.effort d.shared.inbox.head + 1 + (rest.map (Errand.effort d.shared.inbox.head)).sum + 1 := by
    rw [effort, hp]
    rfl
  by_cases hc : c = .done
  · refine ⟨d, { w with place := .busy rest }, by simp [step?, hp, hc], ?_, Or.inl ⟨rfl, rfl⟩⟩
    rw [howing, heffort]
    show (rest.map (Errand.effort d.shared.inbox.head)).sum + 1 + _ < _
    omega
  · have hstep : w.step? i false d = some ((d.call false c).1,
        { w with place := .busy (.call (d.call false c).2 :: rest) }) := by
      cases c with
      | done => exact absurd rfl hc
      | arm pc | sweep | shutdown | signal => simp [step?, hp]
    refine ⟨_, _, hstep, ?_, Or.inl ⟨rfl, rfl⟩⟩
    have hless : (d.call false c).2.effort (d.call false c).1.shared.inbox.head
        < c.effort d.shared.inbox.head := Caller.effort_step_lt hc d.shared
    have hsame := hrest (d.call false c).1.shared.inbox.head d.shared.inbox.head
    rw [howing, heffort]
    show _ + 1 + (rest.map (Errand.effort (d.call false c).1.shared.inbox.head)).sum + 1 + _ < _
    omega

/-- **A registration under way can take its next step**, and less is left to do then. -/
theorem exists_nearer (i : Nat) (first : ω) (m : Meeting ω) (hunder : w.isSettled = false)
    (hopen : w.isRefused d.sources = false)
    (hbusy : ∀ left, w.place = .busy left → ∃ published arrived, Registering left published arrived) :
    ∃ d' w', w.step? i false d = some (d', w') ∧ w.Nears first m d w' d' := by
  cases hp : w.place with
  | refused | pending | left => simp [isSettled, hp] at hunder
  | enrolling => exact exists_nearer_of_enrolling i first m hp
  | checking =>
      have hrequested : w.isRequested d.sources = false := by simpa [isRefused, hp] using hopen
      refine ⟨d, { w with place := .enrolling }, by simp [step?, hp, hrequested], ?_, Or.inl ⟨rfl, rfl⟩⟩
      simp [Meeting.registers, effort, hp]
  | busy left =>
      obtain ⟨published, arrived, hregistering⟩ := hbusy left hp
      cases hregistering with
      | sweeping c e hc => exact exists_nearer_of_call i first m hp fun _ _ => rfl
      | arming pc | armed => exact exists_nearer_of_call i first m hp fun _ _ => rfl
      | arriving =>
          refine ⟨d, { w.arrive with place := .busy [] }, by simp [step?, hp], ?_, Or.inl ⟨rfl, rfl⟩⟩
          have howing : (m.registers first w).owing.length ≤ m.owing.length + 1 := by
            rw [Meeting.registers, hp]
            simp only [Meeting.arrive]
            split <;> simp
          rw [show w.effort d.shared.inbox.head = 3 by rw [effort, hp]; rfl]
          show 1 + _ < _
          omega
      | done =>
          refine ⟨d, { w with place := .pending }, by simp [step?, hp], ?_, Or.inr ⟨hp, rfl⟩⟩
          simp [Meeting.registers, effort, hp]

end Wait

namespace TimedRun

variable {s : TimedRun ω}

/-- How many steps the registration of the wait has left, the posts that are owed and the start of the timer
thread included. -/
def effort (i : Nat) (s : TimedRun ω) : Nat :=
  (s.service.waits[i]?).elim 0 (·.effort s.service.desk.shared.inbox.head) + s.meeting.owing.length
    + (!s.started).toNat

/-- An act of the thread that registers the wait: its next errand, the start of the timer thread, or the post
that it owes. -/
def Act.Registers (i : Nat) (a : Act ω) : Prop := a = .service (.register i false) ∨ a = .start i ∨ a = .deliver

/-- The registration goes on, or it is done and has arrived. -/
def GoesOn (i : Nat) (s : TimedRun ω) : Prop :=
  ∃ w, s.service.waits[i]? = some w ∧
    (w.isSettled = false ∧ w.isRefused s.service.desk.sources = false ∨
      w.place = .pending ∧ .registrant ∈ s.meeting.arrivals)

theorem Kept.registering (h : Kept i first s) {w : Wait} (hw : s.service.waits[i]? = some w)
    {left : List (Errand Nat)} (hp : w.place = .busy left) :
    Registering left s.meeting.published (s.meeting.arrivals.contains .registrant) := by
  have hfits := h.fits w hw
  rw [Meeting.Fits, hp] at hfits
  exact hfits.2.1

/-- Who has still to post the hop does so. -/
theorem Kept.exists_delivery (h : Kept i first s) (howing : s.meeting.owing ≠ []) :
    ∃ u, s.step? i first .deliver = some u ∧ u.effort i < s.effort i ∧ u.service = s.service := by
  obtain ⟨u, hstep⟩ := h.delivers howing
  obtain ⟨p, rest, journey, hlist, -, rfl⟩ := of_deliver hstep
  refine ⟨_, hstep, ?_, rfl⟩
  simp [effort, hlist]

/-- A wait that is about to enrol has the timer thread started. -/
theorem exists_start (first : ω) {w : Wait} (hw : s.service.waits[i]? = some w) (henrolling : w.isEnrolling = true)
    (hnot : s.started = false) :
    ∃ u, s.step? i first (.start i) = some u ∧ u.effort i < s.effort i ∧ u.service = s.service := by
  refine ⟨{ s with started := true }, by simp [step?, hw, henrolling], ?_, rfl⟩
  simp [effort, hnot]

/-- The wait takes its own next step. -/
theorem Kept.exists_errand (h : Kept i first s) {w : Wait} (hw : s.service.waits[i]? = some w)
    (hunder : w.isSettled = false) (hopen : w.isRefused s.service.desk.sources = false)
    (hmay : s.mayMove i (.register i false) = true) :
    ∃ u, s.step? i first (.service (.register i false)) = some u ∧ u.effort i < s.effort i ∧
      u.GoesOn i := by
  obtain ⟨d, w', hstep, hnears⟩ := Wait.exists_nearer i first s.meeting hunder hopen
    fun left hp => ⟨_, _, h.registering hw hp⟩
  have hservice : s.service.step? (.register i false) =
      some { s.service with desk := d, waits := s.service.waits.set i w' } := by
    simp only [TimedWaits.step?, hw, hstep]
  have hnew : (s.service.waits.set i w')[i]? = some w' :=
    List.getElem?_set_self (List.getElem?_eq_some_iff.mp hw).1
  refine ⟨_, by simp only [step?, hmay, if_true, hservice]; rfl, ?_, w', hnew, ?_⟩
  · have hless := hnears.less
    simp only [effort, hnew, hw, Option.elim_some, sees_register hw]
    omega
  · rcases hnears.place with hgoes | ⟨hp, hp'⟩
    · exact Or.inl hgoes
    · have harrived := (h.registering hw hp).settle.2
      refine Or.inr ⟨hp', ?_⟩
      rw [sees_register hw, Meeting.registers, hp]
      exact List.contains_iff_mem.mp harrived

/-- **A registration that has not come to its end can take a step of its own**, and less is left then. -/
theorem Kept.exists_own_act (h : Kept i first s) {w : Wait} (hw : s.service.waits[i]? = some w)
    (hunder : w.isSettled = false) (hopen : w.isRefused s.service.desk.sources = false) :
    ∃ a u, a.Registers i ∧ s.step? i first a = some u ∧ u.effort i < s.effort i ∧ u.GoesOn i := by
  have hstill : ∀ u : TimedRun ω, u.service = s.service → u.GoesOn i := fun u hsame =>
    ⟨w, by rw [hsame]; exact hw, Or.inl ⟨hunder, by rw [hsame]; exact hopen⟩⟩
  by_cases howing : .registrant ∈ s.meeting.owing
  · obtain ⟨u, hstep, hless, hsame⟩ := h.exists_delivery (List.ne_nil_of_mem howing)
    exact ⟨.deliver, u, Or.inr (Or.inr rfl), hstep, hless, hstill u hsame⟩
  · by_cases hwaits : w.isEnrolling = true ∧ s.started = false
    · obtain ⟨u, hstep, hless, hsame⟩ := exists_start first hw hwaits.1 hwaits.2
      exact ⟨.start i, u, Or.inr (Or.inl rfl), hstep, hless, hstill u hsame⟩
    · have hmay : s.mayMove i (.register i false) = true := by
        cases hs : s.started <;> simp_all [mayMove]
      obtain ⟨u, hstep, hless, hgoes⟩ := h.exists_errand hw hunder hopen hmay
      exact ⟨_, u, Or.inl rfl, hstep, hless, hgoes⟩

/-- **A registration comes to its end**: with nobody in between the wait has arrived and is pending. -/
theorem Kept.registers (h : Kept i first s) {w : Wait} (hw : s.service.waits[i]? = some w)
    (hunder : w.isSettled = false) (hopen : w.isRefused s.service.desk.sources = false) :
    ∃ acts t, (∀ a ∈ acts, a.Registers i) ∧ after? (step? i first) s acts = some t ∧
      .registrant ∈ t.meeting.arrivals ∧ ∃ v, t.service.waits[i]? = some v ∧ v.place = .pending := by
  induction hn : s.effort i using Nat.strongRecOn generalizing s w with
  | ind n ih =>
      obtain ⟨a, u, ha, hstep, hless, v, hv, hnext⟩ := h.exists_own_act hw hunder hopen
      rcases hnext with ⟨hunder', hopen'⟩ | ⟨hp, harrived⟩
      · obtain ⟨acts, t, hacts, hrun, hend⟩ := ih _ (hn ▸ hless) (h.step hstep) hv hunder' hopen' rfl
        refine ⟨a :: acts, t, List.forall_mem_cons.mpr ⟨ha, hacts⟩, ?_, hend⟩
        rw [after?, hstep]
        exact hrun
      · refine ⟨[a], u, List.forall_mem_singleton.mpr ha, ?_, harrived, v, hv, hp⟩
        rw [after?, hstep]
        rfl

end TimedRun

end TaskDispatch.Timer
