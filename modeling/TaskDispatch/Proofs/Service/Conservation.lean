/-
The event loop loses no event and no membership.

Whoever takes an event takes the one posted first, so the events posted are those taken,
in the order of taking, and then those in the port.  What is written about one caller is
balanced at each of its places (`EventLoop.Balanced`): it has entered as often as it has
left and is inside, it has taken as many resumptions as it has run, runs, or has panicked
in, and the wake-ups it has taken were stale, all but one that has told it to leave.

Every move keeps both, whichever way a caller goes out; so when nobody is inside, the
roster's number is back to zero and the next reset is not refused.
-/
import TaskDispatch.Proofs.Service.Journal

namespace TaskDispatch

variable {ω : Type}

namespace EventLoop

/-- Whether the call has come past the stop flag, or has been refused by it. -/
def hasBegun : EventLoop ω → Bool
  | enter => false
  | take _ | recheck _ | run .. | leave _ | returned _ => true

def isRunning : EventLoop ω → Bool
  | run .. => true
  | enter | take _ | recheck _ | leave _ | returned _ => false

/-- Whether the call takes no more events. -/
def isOver : EventLoop ω → Bool
  | leave _ | returned _ => true
  | enter | take _ | recheck _ | run .. => false

/-- How many resumptions the call counts as run, and answers in the end. -/
def count : EventLoop ω → Nat
  | enter => 0
  | take n | recheck n | run _ n | leave n | returned n => n

/-- What is written about a caller at this place is balanced; `a` is how many lines there are of each
kind. -/
structure Balanced (pc : EventLoop ω) (a : Line.Kind → Nat) : Prop where
  /-- It is refused or enters, once. -/
  begins : a .refused + a .entered = pc.hasBegun.toNat
  /-- It leaves as often as it has entered. -/
  members : a .entered = a .left + pc.isInside.toNat
  /-- Who does not enter takes nothing from the port. -/
  untouched : a .entered = 0 → a .resumption = 0 ∧ a .wakeUp = 0
  resumptions : a .resumption = a .ran + a .unwound + pc.isRunning.toNat
  counts : a .ran = pc.count
  wakeUps : a .wakeUp = a .stale + a .told + pc.isRechecking.toNat
  /-- Who has been told to leave, or has panicked, takes nothing more. -/
  last : a .told + a .unwound ≤ pc.isOver.toNat

theorem balanced_enter : (enter : EventLoop ω).Balanced fun _ => 0 := by
  constructor <;> simp [hasBegun, isInside, isRunning, count, isRechecking]

/-- Who has not called the event loop yet has taken nothing. -/
theorem Balanced.of_enter {a : Line.Kind → Nat} (h : (enter : EventLoop ω).Balanced a) :
    a .resumption = 0 := by
  have hbegins : a .refused + a .entered = 0 := h.begins
  exact (h.untouched (by omega)).1

variable {m : EventMode} {r r' : Roster} {p p' : Port ω} {pc pc' : EventLoop ω} {lines : List (Line ω)}

/-! ### What one move adds to both sides -/

namespace Goes

theorem begins (h : Goes m r p pc r' p' pc' lines) :
    pc.hasBegun.toNat + (Line.countOf .refused lines + Line.countOf .entered lines) = pc'.hasBegun.toNat := by
  cases h <;> rfl

theorem members (h : Goes m r p pc r' p' pc' lines) :
    pc.isInside.toNat + Line.countOf .entered lines = Line.countOf .left lines + pc'.isInside.toNat := by
  cases h with
  | stays => exact (Nat.zero_add _).symm
  | _ => rfl

/-- Only a caller that is inside takes events. -/
theorem takes (h : Goes m r p pc r' p' pc' lines) :
    Line.countOf .resumption lines + Line.countOf .wakeUp lines ≤ pc.isInside.toNat := by
  cases h with
  | wakeUp n _ hnext | resumption n w _ hadmits hnext => exact Nat.le_refl 1
  | _ => exact Nat.zero_le _

theorem resumptions (h : Goes m r p pc r' p' pc' lines) :
    pc.isRunning.toNat + Line.countOf .resumption lines =
      Line.countOf .ran lines + Line.countOf .unwound lines + pc'.isRunning.toNat := by
  cases h with
  | stays => exact (Nat.zero_add _).symm
  | _ => rfl

theorem counts (h : Goes m r p pc r' p' pc' lines) : pc.count + Line.countOf .ran lines = pc'.count := by
  cases h <;> rfl

theorem wakeUps (h : Goes m r p pc r' p' pc' lines) :
    pc.isRechecking.toNat + Line.countOf .wakeUp lines =
      Line.countOf .stale lines + Line.countOf .told lines + pc'.isRechecking.toNat := by
  cases h with
  | stays => exact (Nat.zero_add _).symm
  | _ => rfl

theorem last (h : Goes m r p pc r' p' pc' lines) :
    pc.isOver.toNat + (Line.countOf .told lines + Line.countOf .unwound lines) ≤ pc'.isOver.toNat := by
  cases h with
  | refused hup | ends n => exact Nat.zero_le _
  | _ => exact Nat.le_refl _

end Goes

/-- **What every move of a caller keeps.** -/
theorem Goes.balanced (h : Goes m r p pc r' p' pc' lines) {a : Line.Kind → Nat} (ha : pc.Balanced a) :
    pc'.Balanced fun k => a k + Line.countOf k lines where
  begins := by
    have := ha.begins
    have := h.begins
    omega
  members := by
    have := ha.members
    have := h.members
    omega
  untouched hnone := by
    have := ha.members
    have := h.takes
    have := ha.untouched
    omega
  resumptions := by
    have := ha.resumptions
    have := h.resumptions
    omega
  counts := by
    have := ha.counts
    have := h.counts
    omega
  wakeUps := by
    have := ha.wakeUps
    have := h.wakeUps
    omega
  last := by
    have := ha.last
    have := h.last
    omega

/-- A move takes the events that it writes down from the front of the port. -/
theorem Goes.queue (h : Goes m r p pc r' p' pc' lines) : p.queue = lines.filterMap Line.event? ++ p'.queue := by
  have htaken : ∀ {e : Event ω} {q : Port ω}, p.next? = some (e, q) → p.queue = e :: q.queue := by
    intro e q hnext
    obtain ⟨queue⟩ := p
    cases queue with
    | nil => cases hnext
    | cons first rest =>
        cases hnext
        rfl
  cases h with
  | wakeUp n _ hnext | resumption n w _ hadmits hnext => exact htaken hnext
  | _ => rfl

/-- A caller that has as many resumptions as its limit admits takes no more. -/
theorem Goes.within (h : Goes m r p pc r' p' pc' lines) {a : Line.Kind → Nat} (ha : pc.Balanced a) {limit : Nat}
    (hlimit : m.limit = some limit) (hwithin : a .resumption ≤ limit) :
    a .resumption + Line.countOf .resumption lines ≤ limit := by
  cases h with
  | resumption n w _ hadmits hnext =>
      have hlt : n < limit := by simpa [EventMode.admits, hlimit] using hadmits
      have hlast : a .told + a .unwound ≤ 0 := ha.last
      have hcounts : a .ran = n := ha.counts
      have htaken : a .resumption = a .ran + a .unwound + 0 := ha.resumptions
      have hone : Line.countOf .resumption [.took (.resume w)] = 1 := rfl
      omega
  | _ => exact hwithin

end EventLoop

namespace Crew

/-- The place of the caller with this number, which is still to come if nobody has the number. -/
def placeOf (s : Crew ω) (i : Nat) : EventLoop ω := (s.workers[i]?).elim .enter (·.pc)

theorem placeOf_eq {s : Crew ω} {i : Nat} {c : Worker ω} (hc : s.workers[i]? = some c) :
    s.placeOf i = c.pc := by
  rw [placeOf, hc]
  rfl

/-- Moving one caller leaves the others where they are. -/
theorem placeOf_set {s : Crew ω} {i : Nat} {c : Worker ω} (hc : s.workers[i]? = some c) (c' : Worker ω)
    (roster : Roster) (port : Port ω) (j : Nat) :
    ({ s with roster, port, workers := s.workers.set i c' } : Crew ω).placeOf j =
      if i = j then c'.pc else s.placeOf j := by
  by_cases hij : i = j
  · subst hij
    rw [if_pos rfl]
    exact placeOf_eq (List.getElem?_set_self (List.getElem?_eq_some_iff.mp hc).1)
  · rw [if_neg hij, placeOf, placeOf, List.getElem?_set_ne hij]

end Crew

namespace Journal

variable {s t : Journal ω}

/-- What a journal keeps. -/
structure Kept (s : Journal ω) : Prop where
  told : s.crew.Told
  events : s.posted = s.taken.map (·.2) ++ s.crew.port.queue
  balanced : ∀ i, (s.crew.placeOf i).Balanced (s.account i)
  within : ∀ (i : Nat) c limit, s.crew.workers[i]? = some c → c.mode.limit = some limit →
    s.account i .resumption ≤ limit

theorem kept_start : Kept ({} : Journal ω) where
  told := ⟨rfl, nofun⟩
  events := rfl
  balanced _ := EventLoop.balanced_enter
  within := nofun

namespace Kept

theorem aside (h : Kept s) {crew : Crew ω} {events : List (Event ω)} (htold : crew.Told)
    (hport : crew.port.queue = s.crew.port.queue ++ events)
    (hworkers : crew.workers = s.crew.workers ∨
      ∃ mode : EventMode, crew.workers = s.crew.workers ++ [⟨mode, .enter⟩]) :
    Kept { s with crew, posted := s.posted ++ events } := by
  have hplace : ∀ i, crew.placeOf i = s.crew.placeOf i := by
    intro i
    rcases hworkers with hsame | ⟨mode, hjoined⟩
    · rw [Crew.placeOf, Crew.placeOf, hsame]
    · rw [Crew.placeOf, Crew.placeOf, hjoined]
      exact elim_getElem?_concat (fun c : Worker ω => c.pc) i
  refine ⟨htold, ?_, fun i => ?_, ?_⟩
  · show s.posted ++ events = s.taken.map (·.2) ++ crew.port.queue
    rw [h.events, hport, List.append_assoc]
  · show (crew.placeOf i).Balanced _
    rw [hplace]
    exact h.balanced i
  · intro i c limit hc hlimit
    rcases hworkers with hsame | ⟨mode, hjoined⟩
    · exact h.within i c limit (hsame ▸ hc) hlimit
    · rcases getElem?_of_join (hjoined ▸ hc) with rfl | hold
      · have henter : s.crew.placeOf i = .enter := (hplace i).symm.trans (Crew.placeOf_eq hc)
        have hbalanced := h.balanced i
        rw [henter] at hbalanced
        show s.account i .resumption ≤ limit
        rw [hbalanced.of_enter]
        exact Nat.zero_le limit
      · exact h.within i c limit hold hlimit

theorem move (h : Kept s) {i : Nat} {c : Worker ω} {roster : Roster} {port : Port ω} {pc : EventLoop ω}
    {lines : List (Line ω)} (hc : s.crew.workers[i]? = some c)
    (hgoes : c.pc.Goes c.mode s.crew.roster s.crew.port roster port pc lines)
    (htold : Crew.Told { s.crew with roster, port, workers := s.crew.workers.set i { c with pc } }) :
    Kept { s with
      crew := { s.crew with roster, port, workers := s.crew.workers.set i { c with pc } }
      lines := s.lines ++ lines.map (i, ·) } := by
  have hbalanced : c.pc.Balanced (s.account i) := Crew.placeOf_eq hc ▸ h.balanced i
  refine ⟨htold, ?_, fun j => ?_, fun j d limit hd hlimit => ?_⟩
  · show s.posted = (taken { s with lines := s.lines ++ lines.map (i, ·) }).map (·.2) ++ port.queue
    rw [h.events, hgoes.queue, taken_concat, List.append_assoc]
  · rw [Crew.placeOf_set hc, funext (account_concat _ _ i lines j)]
    by_cases hij : i = j
    · subst hij
      simpa using hgoes.balanced hbalanced
    · simpa [hij] using h.balanced j
  · rw [account_concat]
    rcases getElem?_of_set hd with ⟨rfl, rfl⟩ | ⟨hne, hold⟩
    · rw [if_pos rfl]
      exact hgoes.within hbalanced hlimit (h.within j c limit hc hlimit)
    · rw [if_neg (Ne.symm hne)]
      exact h.within j d limit hold hlimit

/-- Every act is written down. -/
theorem step (h : Kept s) {a : Crew.Act ω} (hstep : s.step? a = some t) : Kept t := by
  have htold : t.crew.Told := by
    rw [step?] at hstep
    split at hstep
    · cases hstep
    · next crew hcrew =>
        obtain rfl := Option.some.inj hstep
        exact h.told.step hcrew
  cases turns_of_step? hstep with
  | aside crew events hport hworkers => exact h.aside htold hport hworkers
  | move i c roster port pc lines hc hgoes => exact h.move hc hgoes htold

theorem of_leads (h : Leads step? {} s) : Kept s := h.keeps (fun _ _ _ hs hstep => hs.step hstep) kept_start

end Kept

/-- Whatever the crew does can be written down. -/
theorem exists_journal {crew : Crew ω} (h : Leads Crew.step? {} crew) :
    ∃ s : Journal ω, Leads step? {} s ∧ s.crew = crew := by
  induction h with
  | refl => exact ⟨{}, .refl _, rfl⟩
  | step a _ hstep ih =>
      obtain ⟨s, hs, rfl⟩ := ih
      exact ⟨_, .step a hs (by rw [step?, hstep]), rfl⟩

/-- **The event loop conserves events and its own membership.**  For any number of callers, each with its
own mode and limit, in every order of their steps with posts, stops and resets, where a resumption may do any
of that too, call the event loop again or panic:

* the events posted are those taken, each by one caller and in the order of the posts, and then those in the
  port;
* a caller takes no more resumptions than its limit, and answers how many it has taken and run, unless one
  of them has panicked; a wake-up does not count, it is thrown away or the last thing that is taken;
* a caller that comes while a stop is requested answers zero and leaves roster and port alone;
* a caller that has taken a wake-up leaves if a stop is requested, and else goes on as before;
* a caller that has returned has left as often as it has entered, which is at most once; the roster counts
  those inside, and once nobody is, a reset is not refused. -/
theorem events_and_memberships_are_conserved (h : Leads step? {} s) :
    s.posted = s.taken.map (·.2) ++ s.crew.port.queue ∧
      (∀ (i : Nat) (c : Worker ω), s.crew.workers[i]? = some c →
        c.pc.Balanced (s.account i) ∧
        (∀ limit, c.mode.limit = some limit → s.account i .resumption ≤ limit) ∧
        (∀ n, c.pc = .returned n → s.account i .entered = s.account i .left ∧
          (s.account i .unwound = 0 → s.account i .resumption = n ∧ s.account i .ran = n)) ∧
        (c.pc = .enter → s.crew.roster.stopRequested = true → s.crew.step? (.work i) =
          some { s.crew with workers := s.crew.workers.set i { c with pc := .returned 0 } }) ∧
        ∀ n, c.pc = .recheck n → s.crew.step? (.work i) = some { s.crew with
          workers := s.crew.workers.set i
            { c with pc := if s.crew.roster.stopRequested then .leave n else .take n } }) ∧
      s.crew.roster.active = s.crew.countAt EventLoop.isInside ∧
      ((∀ c ∈ s.crew.workers, c.pc.isInside = false) → s.crew.roster.reset.1 = .ok ()) := by
  have hs : Kept s := .of_leads h
  refine ⟨hs.events, fun i c hc => ?_, hs.told.active, fun hout => ?_⟩
  · have hbalanced : c.pc.Balanced (s.account i) := Crew.placeOf_eq hc ▸ hs.balanced i
    refine ⟨hbalanced, fun limit => hs.within i c limit hc, fun n hn => ?_, fun hpc hup => ?_, fun n hpc => ?_⟩
    · rw [hn] at hbalanced
      have hmembers : s.account i .entered = s.account i .left + 0 := hbalanced.members
      have hcounts : s.account i .ran = n := hbalanced.counts
      have htaken : s.account i .resumption = s.account i .ran + s.account i .unwound + 0 :=
        hbalanced.resumptions
      exact ⟨hmembers, fun hnone => ⟨by omega, hcounts⟩⟩
    · simp [Crew.step?, hc, hpc, EventLoop.step?, Roster.enter?, hup]
    · simp [Crew.step?, hc, hpc, EventLoop.step?]
  · have hnone : s.crew.countAt EventLoop.isInside = 0 :=
      List.countP_eq_zero.mpr fun c hc => by simp [hout c hc]
    rw [Roster.reset, if_pos (hs.told.active.trans hnone)]

/-- A resumption calls the event loop, with a limit of one, before it is done.  Then its caller throws a
stale wake-up away, and its next resumption panics.  A third caller comes when a stop is requested. -/
theorem events_and_memberships_are_conserved_nested :
    let acts : List (Crew.Act Nat) := [.join ⟨false, none⟩, .post 5, .post 6, .work 0, .work 0,
      .join ⟨true, some 1⟩, .work 1, .work 1, .ran 1, .work 1, .work 1,
      .stop, .halt 0, .reset, .halt 0, .ran 0, .work 0, .work 0, .post 7, .work 0, .panicked 0,
      .stop, .halt 1, .join ⟨false, none⟩, .work 2]
    let s : Journal Nat :=
      { crew :=
          { roster := ⟨true, 0⟩
            workers := [⟨⟨false, none⟩, .returned 1⟩, ⟨⟨true, some 1⟩, .returned 1⟩, ⟨⟨false, none⟩, .returned 0⟩]
            stops := [.posting 0, .posting 0]
            raiser := some 1 }
        posted := [.resume 5, .resume 6, .wakeUp, .resume 7]
        lines := [(0, .entered), (0, .took (.resume 5)), (1, .entered), (1, .took (.resume 6)), (1, .ran),
          (1, .left), (0, .ran), (0, .took .wakeUp), (0, .stale), (0, .took (.resume 7)), (0, .unwound),
          (0, .left), (2, .refused)] }
    Leads step? {} s ∧ after? step? {} acts = some s ∧
      s.posted = s.taken.map (·.2) ++ s.crew.port.queue ∧
      s.account 0 .entered = s.account 0 .left ∧
      (s.account 1 .resumption = 1 ∧ s.account 1 .ran = 1) ∧
      (EventLoop.returned 0 : EventLoop Nat).Balanced (s.account 2) ∧
      s.crew.roster.reset.1 = .ok () := by
  intro acts s
  have hacts : after? step? {} acts = some s := rfl
  have h : Leads step? {} s := .of_after? acts hacts
  obtain ⟨hevents, hcallers, -, hreset⟩ := events_and_memberships_are_conserved h
  obtain ⟨-, -, hfirst, -⟩ := hcallers 0 _ rfl
  obtain ⟨-, -, hsecond, -⟩ := hcallers 1 _ rfl
  refine ⟨h, hacts, hevents, (hfirst 1 rfl).1, (hsecond 1 rfl).2 rfl, (hcallers 2 _ rfl).1, hreset ?_⟩
  decide

end Journal

end TaskDispatch
