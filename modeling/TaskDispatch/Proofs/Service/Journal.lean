/-
What a crew does, written down.

The journal of a crew has two parts: the events that were posted, in order, and what has
become of the callers of the event loop.  A line of the second part says of one caller
that it was refused or has entered, that it has taken an event, that it has found a
wake-up stale or was told to leave by it, that its resumption has run or has panicked,
or that it has left.  Nothing the crew does depends on the journal.

`Goes` says once what a move of one caller can be and what is written about it, and
`Turns` what an act can do.
-/
import TaskDispatch.Proofs.Service.Stop

namespace TaskDispatch

variable {ω : Type}

/-- What is written about a caller of the event loop. -/
inductive Line (ω : Type) where
  | refused
  | entered
  | took (e : Event ω)
  /-- It has taken a wake-up and found no stop requested. -/
  | stale
  /-- It has taken a wake-up and found a stop requested. -/
  | told
  | ran
  /-- Its resumption has panicked. -/
  | unwound
  | left

/-- The kinds of lines: to take a resumption is one, to take a wake-up another. -/
inductive Line.Kind where
  | refused
  | entered
  | resumption
  | wakeUp
  | stale
  | told
  | ran
  | unwound
  | left
  deriving DecidableEq

namespace Line

def kind : Line ω → Kind
  | refused => .refused
  | entered => .entered
  | took (.resume _) => .resumption
  | took .wakeUp => .wakeUp
  | stale => .stale
  | told => .told
  | ran => .ran
  | unwound => .unwound
  | left => .left

/-- The event that was taken. -/
def event? : Line ω → Option (Event ω)
  | took e => some e
  | _ => none

/-- How many of these lines are of a kind. -/
def countOf (k : Kind) (lines : List (Line ω)) : Nat := lines.countP (·.kind == k)

end Line

/-- A crew and what has been written down. -/
structure Journal (ω : Type) where
  crew : Crew ω := {}
  posted : List (Event ω) := []
  lines : List (Nat × Line ω) := []

namespace EventLoop

/-- What is written when a caller takes its next step. -/
def lines (m : EventMode) (r : Roster) (p : Port ω) : EventLoop ω → List (Line ω)
  | enter => [if r.stopRequested then .refused else .entered]
  | take n => if m.admits n then (p.next?.map fun next => .took next.1).toList else []
  | recheck _ => [if r.stopRequested then .told else .stale]
  | leave _ => [.left]
  | run .. | returned _ => []

/-- What a move of one caller can be: from its place, to a roster, a port, a place and the lines about it. -/
inductive Goes (m : EventMode) (r : Roster) (p : Port ω) :
    EventLoop ω → Roster → Port ω → EventLoop ω → List (Line ω) → Prop
  | refused (h : r.stopRequested = true) : Goes m r p enter r p (returned 0) [.refused]
  | entered (h : r.stopRequested = false) :
    Goes m r p enter { r with active := r.active + 1 } p (take 0) [.entered]
  | wakeUp (n : Nat) (p' : Port ω) (h : p.next? = some (.wakeUp, p')) :
    Goes m r p (take n) r p' (recheck n) [.took .wakeUp]
  | resumption (n : Nat) (w : ω) (p' : Port ω) (hadmits : m.admits n = true)
    (h : p.next? = some (.resume w, p')) : Goes m r p (take n) r p' (run w n) [.took (.resume w)]
  | ends (n : Nat) : Goes m r p (take n) r p (leave n) []
  | told (n : Nat) (h : r.stopRequested = true) : Goes m r p (recheck n) r p (leave n) [.told]
  | stale (n : Nat) (h : r.stopRequested = false) : Goes m r p (recheck n) r p (take n) [.stale]
  | ran (w : ω) (n : Nat) : Goes m r p (run w n) r p (take (n + 1)) [.ran]
  | unwound (w : ω) (n : Nat) : Goes m r p (run w n) r.leave p (returned n) [.unwound, .left]
  | left (n : Nat) : Goes m r p (leave n) r.leave p (returned n) [.left]
  | stays (pc : EventLoop ω) : Goes m r p pc r p pc []

/-- What a step of a caller can be. -/
theorem goes_of_step? {m : EventMode} {pc pc' : EventLoop ω} {r r' : Roster} {p p' : Port ω}
    (h : pc.step? m r p = some (r', p', pc')) : Goes m r p pc r' p' pc' (pc.lines m r p) := by
  cases pc with
  | enter =>
      cases hstop : r.stopRequested with
      | true =>
          simp only [step?, Roster.enter?, hstop, if_true] at h
          cases h
          rw [lines, if_pos hstop]
          exact .refused hstop
      | false =>
          have henter : r.enter? = some { r with active := r.active + 1 } := by
            rw [Roster.enter?, if_neg (by simp [hstop])]
          simp only [step?, henter] at h
          cases h
          rw [lines, if_neg (by simp [hstop])]
          exact .entered hstop
  | take n =>
      cases hadmits : m.admits n with
      | false =>
          simp only [step?, hadmits] at h
          cases h
          rw [lines, if_neg (by simp [hadmits])]
          exact .ends n
      | true =>
          simp only [step?, hadmits, if_true] at h
          rw [lines, if_pos hadmits]
          cases hnext : p.next? with
          | none =>
              cases hwait : m.wait with
              | true => simp [hnext, hwait] at h
              | false =>
                  simp only [hnext, hwait] at h
                  cases h
                  exact .ends n
          | some next =>
              obtain ⟨e, rest⟩ := next
              cases e with
              | wakeUp =>
                  simp only [hnext] at h
                  cases h
                  exact .wakeUp n _ hnext
              | resume w =>
                  simp only [hnext] at h
                  cases h
                  exact .resumption n w _ hadmits hnext
  | recheck n =>
      cases hstop : r.stopRequested with
      | true =>
          simp only [step?, hstop, if_true] at h
          cases h
          rw [lines, if_pos hstop]
          exact .told n hstop
      | false =>
          simp only [step?, hstop] at h
          cases h
          rw [lines, hstop, if_neg Bool.false_ne_true]
          exact .stale n hstop
  | leave n =>
      cases h
      exact .left n
  | run w n =>
      cases h
      exact .stays _
  | returned n =>
      cases h
      exact .stays _

end EventLoop

namespace Journal

/-- What an act posts. -/
def posts (s : Crew ω) : Crew.Act ω → List (Event ω)
  | .post w => [.resume w]
  | .halt j =>
    match s.stops[j]? with
    | some (.posting (_ + 1)) => [.wakeUp]
    | _ => []
  | _ => []

/-- What is written about the callers of the event loop. -/
def notes (s : Crew ω) : Crew.Act ω → List (Nat × Line ω)
  | .work i =>
    match s.workers[i]? with
    | some c => (c.pc.lines c.mode s.roster s.port).map (i, ·)
    | none => []
  | .ran i =>
    match s.workers[i]? with
    | some ⟨_, .run _ _⟩ => [(i, .ran)]
    | _ => []
  | .panicked i => [(i, .unwound), (i, .left)]
  | _ => []

/-- The journal after an act of the crew, if it can happen. -/
def step? (s : Journal ω) (a : Crew.Act ω) : Option (Journal ω) :=
  match s.crew.step? a with
  | none => none
  | some crew => some ⟨crew, s.posted ++ posts s.crew a, s.lines ++ notes s.crew a⟩

/-- What an act can do. -/
inductive Turns (s : Journal ω) : Journal ω → Prop
  /-- Nobody moves in the event loop. -/
  | aside (crew : Crew ω) (events : List (Event ω)) (hport : crew.port.queue = s.crew.port.queue ++ events)
    (hworkers : crew.workers = s.crew.workers ∨
      ∃ mode : EventMode, crew.workers = s.crew.workers ++ [⟨mode, .enter⟩]) :
    Turns s { s with crew, posted := s.posted ++ events }
  /-- A caller moves. -/
  | move (i : Nat) (c : Worker ω) (roster : Roster) (port : Port ω) (pc : EventLoop ω) (lines : List (Line ω))
    (hc : s.crew.workers[i]? = some c)
    (hgoes : c.pc.Goes c.mode s.crew.roster s.crew.port roster port pc lines) :
    Turns s { s with
      crew := { s.crew with roster, port, workers := s.crew.workers.set i { c with pc } }
      lines := s.lines ++ lines.map (i, ·) }

variable {s t : Journal ω}

theorem turns_of_aside {a : Crew.Act ω} {crew : Crew ω} (hnotes : notes s.crew a = [])
    (hport : crew.port.queue = s.crew.port.queue ++ posts s.crew a)
    (hworkers : crew.workers = s.crew.workers ∨
      ∃ mode : EventMode, crew.workers = s.crew.workers ++ [⟨mode, .enter⟩]) :
    Turns s ⟨crew, s.posted ++ posts s.crew a, s.lines ++ notes s.crew a⟩ := by
  rw [hnotes, List.append_nil]
  exact .aside crew _ hport hworkers

theorem turns_of_move {a : Crew.Act ω} {i : Nat} {c : Worker ω} {roster : Roster} {port : Port ω}
    {pc : EventLoop ω} {lines : List (Line ω)} (hc : s.crew.workers[i]? = some c)
    (hgoes : c.pc.Goes c.mode s.crew.roster s.crew.port roster port pc lines)
    (hposts : posts s.crew a = []) (hnotes : notes s.crew a = lines.map (i, ·)) :
    Turns s ⟨{ s.crew with roster, port, workers := s.crew.workers.set i { c with pc } },
      s.posted ++ posts s.crew a, s.lines ++ notes s.crew a⟩ := by
  rw [hposts, hnotes, List.append_nil]
  exact .move i c roster port pc lines hc hgoes

/-- A stop posts its wake-ups one by one, and moves nobody. -/
theorem turns_of_halt {j : Nat} {crew : Crew ω} (h : s.crew.step? (.halt j) = some crew) :
    Turns s ⟨crew, s.posted ++ posts s.crew (.halt j), s.lines ++ notes s.crew (.halt j)⟩ := by
  simp only [Crew.step?] at h
  split at h
  · cases h
  · next pc hpc =>
      obtain rfl := Option.some.inj h
      refine turns_of_aside rfl ?_ (Or.inl rfl)
      simp only [posts, hpc]
      cases pc with
      | raise => cases hstop : s.crew.roster.stopRequested <;> simp [Stop.step, Roster.requestStop, hstop]
      | posting owed => cases owed <;> simp [Stop.step]
      | returned => simp [Stop.step]

/-- **What an act can do.** -/
theorem turns_of_step? {a : Crew.Act ω} (h : s.step? a = some t) : Turns s t := by
  rw [step?] at h
  split at h
  · cases h
  · next crew hcrew =>
      obtain rfl := Option.some.inj h
      cases a with
      | join mode =>
          obtain rfl := Option.some.inj hcrew
          exact turns_of_aside rfl (List.append_nil _).symm (Or.inr ⟨mode, rfl⟩)
      | post w =>
          obtain rfl := Option.some.inj hcrew
          exact turns_of_aside rfl rfl (Or.inl rfl)
      | stop | reset =>
          obtain rfl := Option.some.inj hcrew
          exact turns_of_aside rfl (List.append_nil _).symm (Or.inl rfl)
      | halt j => exact turns_of_halt hcrew
      | work i =>
          simp only [Crew.step?] at hcrew
          split at hcrew
          · cases hcrew
          · next c hc =>
              split at hcrew
              · cases hcrew
              · next roster port pc hstep =>
                  obtain rfl := Option.some.inj hcrew
                  exact turns_of_move hc (EventLoop.goes_of_step? hstep) rfl (by simp [notes, hc])
      | ran i =>
          simp only [Crew.step?] at hcrew
          split at hcrew
          · cases hcrew
          · next c hc =>
              obtain rfl := Option.some.inj hcrew
              obtain ⟨mode, place⟩ := c
              cases place with
              | run w n => exact turns_of_move hc (.ran w n) rfl (by simp [notes, hc])
              | _ => exact turns_of_move hc (.stays _) rfl (by simp [notes, hc])
      | panicked i =>
          simp only [Crew.step?] at hcrew
          split at hcrew
          · next mode w n hc =>
              obtain rfl := Option.some.inj hcrew
              exact turns_of_move hc (.unwound w n) rfl rfl
          · cases hcrew

/-! ### What can be read in a journal -/

/-- Who has taken which event, in order. -/
def taken (s : Journal ω) : List (Nat × Event ω) :=
  s.lines.filterMap fun line => line.2.event?.map (line.1, ·)

/-- How many lines of a kind there are about the caller with this number. -/
def account (s : Journal ω) (i : Nat) (k : Line.Kind) : Nat :=
  s.lines.countP fun line => line.1 == i && line.2.kind == k

/-- Lines about one caller add to its account and to no other. -/
theorem account_concat (crew : Crew ω) (posted : List (Event ω)) (i : Nat) (lines : List (Line ω)) (j : Nat)
    (k : Line.Kind) : account ⟨crew, posted, s.lines ++ lines.map (i, ·)⟩ j k =
      s.account j k + if i = j then Line.countOf k lines else 0 := by
  rw [account, account, List.countP_append, List.countP_map]
  split
  · next h => simp [h, Line.countOf, Function.comp_def]
  · next h => simp [h, Function.comp_def]

/-- Lines about one caller say which events it has taken. -/
theorem taken_concat (crew : Crew ω) (posted : List (Event ω)) (i : Nat) (lines : List (Line ω)) :
    (taken ⟨crew, posted, s.lines ++ lines.map (i, ·)⟩).map (·.2) =
      s.taken.map (·.2) ++ lines.filterMap Line.event? := by
  rw [taken, taken, List.filterMap_append, List.map_append, List.filterMap_map]
  congr 1
  rw [List.map_filterMap]
  refine List.filterMap_congr fun line _ => ?_
  cases h : line.event? <;> simp [h]

end Journal

end TaskDispatch
