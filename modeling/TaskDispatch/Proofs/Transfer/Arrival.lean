/-
A transfer changes only where a task runs.

`Kept` is the invariant of a passage.  A transfer that hops first carries the task, which
nobody has polled, until its hop has come down under a poll; the thread of that poll is the
first to poll the task.  One that awaits the task first makes no hop before it has the
outcome, and then carries the outcome.  Either way, what awaiting the wrapped task alone comes
to after the polls of its body so far is what the transfer still has in hand
(`Brings`).

The steps of one poll are taken in turn by `look`, `visit`, `back` and `posted`.  Each says
that the step can be taken, that it keeps the invariant, and that it brings the poll
closer to its end (`Steps`).
-/
import TaskDispatch.Proofs.Hop.Landing
import TaskDispatch.Proofs.Transfer.Passage

namespace TaskDispatch

variable {β α ω : Type}

namespace Journey

/-- A worker on this thread has run the latest hop. -/
def RanOn (j : Journey ω) (thread : Nat) : Prop :=
  ∃ hop, j.hops.getLast? = some hop ∧ hop.ranOn = some thread ∧
    ∃ c ∈ j.carriers, c.hop + 1 = j.hops.length ∧ c.thread = thread ∧ c.place ≠ .taken

/-- A poll goes on from a hop that its own thread ran. -/
theorem RanOn.arrives {j : Journey ω} {thread : Nat} (h : j.RanOn thread) :
    HopMove.of (j.latest thread) = .arrive := by
  obtain ⟨hop, hlast, hran, -⟩ := h
  rw [latest, hlast, Option.map_some, Hop.landing, hran]
  simp [HopMove.of]

end Journey

namespace Passage

variable {t : Task β α} {s u : Passage β α ω} {hopsFirst : Bool} {thread : Nat} {waker : ω}

/-- What the transfer has in hand: awaiting the wrapped task alone, with the polls of its body as they have
been, comes to the same as going on from here. -/
def Brings (t : Task β α) (s : Passage β α ω) : Cargo β α → Prop
  | .task now => s.outcome = none ∧ now.Unspent ∧ ∀ rest, t.awaited (s.heard ++ rest) = now.awaited rest
  | .outcome o => s.outcome = some o ∧ ∀ rest, t.awaited (s.heard ++ rest) = some (.ok o)

/-- A hop of a transfer that hops first brings over the task, which nobody has polled; any other hop brings
over the outcome. -/
def Loaded (t : Task β α) (s : Passage β α ω) : Bool → Cargo β α → Prop
  | true, .task now => s.visitors = [] ∧ s.Brings t (.task now)
  | false, .outcome o => s.Brings t (.outcome o)
  | _, _ => False

/-- How far a transfer can have come, between polls or in a poll on this thread. -/
inductive Along (t : Task β α) (s : Passage β α ω) : Bool → Option Nat → Transfer β α → Prop
  | hopping {hopsFirst : Bool} {who : Option Nat} (cargo : Cargo β α) (hidle : s.journey.stage = .idle)
    (hloaded : Loaded t s hopsFirst cargo)
    (hposted : who = none → s.outcome ≠ none → s.journey.hops ≠ []) :
    Along t s hopsFirst who (.hopping s.journey.last? cargo)
  /-- The hop has come down under this poll. -/
  | landed (thread : Nat) (now : Task β α) (hready : s.journey.stage = .ready thread)
    (hvisitors : s.visitors = []) (hbrings : s.Brings t (.task now)) :
    Along t s true (some thread) (.awaiting true now)
  | arrived {who : Option Nat} (thread : Nat) (now : Task β α) (hready : s.journey.stage = .ready thread)
    (hvisitors : s.visitors.head? = some thread) (hbrings : s.Brings t (.task now)) :
    Along t s true who (.awaiting true now)
  | ahead {who : Option Nat} (now : Task β α) (hidle : s.journey.stage = .idle)
    (hhops : s.journey.hops = []) (hbrings : s.Brings t (.task now)) :
    Along t s false who (.awaiting false now)

/-- The transfer is completed, by a poll on this thread and after its hop came down on that one. -/
structure Completed (t : Task β α) (s : Passage β α ω) (hopsFirst : Bool) (o : Outcome α)
    (thread landed : Nat) : Prop where
  isOver : s.task.Over
  result : s.task.result = .ok o
  brings : s.Brings t (.outcome o)
  completedOn : s.completedOn = some thread
  ready : s.journey.stage = .ready landed
  /-- Where the hop came first, the task was first polled there. -/
  first : hopsFirst = true → s.visitors.head? = some landed
  /-- Where the hop came last, the transfer was completed there. -/
  last : hopsFirst = false → landed = thread

/-- The transfer's task has no outcome yet. -/
def Waiting (s : Passage β α ω) : Prop := (∃ b, s.task.Runs b) ∧ s.completedOn = none

/-- What the stage of the poll says of the transfer. -/
def Stage.Fits (t : Task β α) (s : Passage β α ω) (hopsFirst : Bool) : Stage β α ω → Prop
  | idle =>
    (∃ b, s.task.Runs b ∧ s.completedOn = none ∧ Along t s hopsFirst none b) ∨
      ∃ o thread landed, Completed t s hopsFirst o thread landed
  | running thread _ b => s.Waiting ∧ Along t s hopsFirst (some thread) b
  | inTask _ _ hopped lent => s.Waiting ∧ Along t s hopsFirst none (.awaiting hopped lent)
  | posting thread cargo =>
    s.Waiting ∧ Loaded t s hopsFirst cargo ∧ ∃ waker found, s.journey.stage = .posting thread waker found

/-- How the hops, the poll under way and the transfer hang together. -/
structure Kept (t : Task β α) (hopsFirst : Bool) (s : Passage β α ω) : Prop where
  tracked : Journey.Tracked none s.journey
  fits : s.stage.Fits t s hopsFirst

/-- How far the poll under way is from its end. -/
def Stage.rank : Stage β α ω → Nat
  | idle => 0
  | posting .. => 1
  | running _ _ (.hopping _ (.outcome _)) => 2
  | inTask .. => 3
  | running _ _ (.awaiting ..) => 4
  | running _ _ (.hopping _ (.task _)) => 5

/-- A step of the poll under way: it keeps the invariant, brings the poll closer to its end, and leaves the
wrapped task alone once that has its outcome. -/
structure Steps (t : Task β α) (hopsFirst : Bool) (s u : Passage β α ω) : Prop where
  kept : Kept t hopsFirst u
  closer : u.stage.rank < s.stage.rank
  settled : s.outcome ≠ none → u.visitors = s.visitors ∧ u.outcome = s.outcome

/-! ### What a transfer does not see -/

/-- The transfer cannot tell these apart: its hops are as many and its polls stand alike. -/
structure Alike (s u : Passage β α ω) : Prop where
  stage : u.journey.stage = s.journey.stage
  hops : u.journey.hops.length = s.journey.hops.length
  visitors : u.visitors = s.visitors
  heard : u.heard = s.heard
  outcome : u.outcome = s.outcome

theorem Alike.hops_eq_nil_iff (h : Alike s u) : u.journey.hops = [] ↔ s.journey.hops = [] := by
  rw [← List.length_eq_zero_iff, h.hops, List.length_eq_zero_iff]

theorem Brings.of_alike {cargo : Cargo β α} (h : s.Brings t cargo) (ha : Alike s u) : u.Brings t cargo := by
  cases cargo with
  | task now => exact ⟨ha.outcome.trans h.1, h.2.1, by rw [ha.heard]; exact h.2.2⟩
  | outcome o => exact ⟨ha.outcome.trans h.1, by rw [ha.heard]; exact h.2⟩

theorem Loaded.of_alike {cargo : Cargo β α} (h : Loaded t s hopsFirst cargo) (ha : Alike s u) :
    Loaded t u hopsFirst cargo := by
  cases hopsFirst <;> cases cargo
  case true.task now => exact ⟨ha.visitors.trans h.1, h.2.of_alike ha⟩
  case false.outcome o =>
      have hbrings : s.Brings t (.outcome o) := h
      exact hbrings.of_alike ha
  all_goals exact h

theorem Along.of_alike {who : Option Nat} {b : Transfer β α} (h : Along t s hopsFirst who b)
    (ha : Alike s u) : Along t u hopsFirst who b := by
  cases h with
  | hopping cargo hidle hloaded hposted =>
      rw [← Journey.last?_of_length ha.hops]
      refine .hopping cargo (ha.stage.trans hidle) (hloaded.of_alike ha) fun hnone hsome hnil => ?_
      exact hposted hnone (ha.outcome ▸ hsome) (ha.hops_eq_nil_iff.mp hnil)
  | landed thread now hready hvisitors hbrings =>
      exact .landed thread now (ha.stage.trans hready) (ha.visitors.trans hvisitors) (hbrings.of_alike ha)
  | arrived thread now hready hvisitors hbrings =>
      exact .arrived thread now (ha.stage.trans hready) (ha.visitors ▸ hvisitors) (hbrings.of_alike ha)
  | ahead now hidle hhops hbrings =>
      exact .ahead now (ha.stage.trans hidle) (ha.hops_eq_nil_iff.mpr hhops) (hbrings.of_alike ha)

/-- What was so between polls is so when the next one begins. -/
theorem Along.enter {b : Transfer β α} (h : Along t s hopsFirst none b) (thread : Nat) :
    Along t s hopsFirst (some thread) b := by
  cases h with
  | hopping cargo hidle hloaded hposted => exact .hopping cargo hidle hloaded nofun
  | arrived thread now hready hvisitors hbrings => exact .arrived thread now hready hvisitors hbrings
  | ahead now hidle hhops hbrings => exact .ahead now hidle hhops hbrings

theorem Loaded.brings {cargo : Cargo β α} (h : Loaded t s hopsFirst cargo) : s.Brings t cargo := by
  cases hopsFirst <;> cases cargo
  case true.task now => exact h.2
  case false.outcome o => exact h
  all_goals exact absurd h id

theorem Brings.outcome_ne_none {o : Outcome α} (h : s.Brings t (.outcome o)) : s.outcome ≠ none := by
  rw [h.1]
  nofun

theorem Loaded.unvisited {cargo : Cargo β α} (h : Loaded t s true cargo) : s.visitors = [] := by
  cases cargo with
  | task now => exact h.1
  | outcome o => exact h.elim

theorem Loaded.outcome_eq_none {cargo : Cargo β α} (h : Loaded t s true cargo) : s.outcome = none := by
  cases cargo with
  | task now => exact h.2.1
  | outcome o => exact h.elim

theorem Loaded.outcome_ne_none {cargo : Cargo β α} (h : Loaded t s false cargo) : s.outcome ≠ none := by
  cases cargo with
  | task now => exact h.elim
  | outcome o => exact h.brings.outcome_ne_none

theorem Along.exists_brings {who : Option Nat} {b : Transfer β α} (h : Along t s hopsFirst who b) :
    ∃ cargo, s.Brings t cargo := by
  cases h with
  | hopping cargo hidle hloaded hposted => exact ⟨cargo, hloaded.brings⟩
  | landed _ _ _ _ hbrings | arrived _ _ _ _ hbrings | ahead _ _ _ hbrings => exact ⟨_, hbrings⟩

/-- Workers and others move the hops and leave the rest as it is. -/
theorem Stage.Fits.of_alike {stage : Stage β α ω} (h : stage.Fits t s hopsFirst) (ha : Alike s u)
    (htask : u.task = s.task) (hon : u.completedOn = s.completedOn) : stage.Fits t u hopsFirst := by
  have hwaits : s.Waiting → u.Waiting := fun ⟨hruns, hopen⟩ => ⟨htask ▸ hruns, hon.trans hopen⟩
  cases stage with
  | idle =>
      rcases h with ⟨b, hruns, hopen, halong⟩ | ⟨o, thread, landed, hdone⟩
      · exact .inl ⟨b, htask ▸ hruns, hon.trans hopen, halong.of_alike ha⟩
      · exact .inr ⟨o, thread, landed, htask ▸ hdone.isOver, htask ▸ hdone.result, hdone.brings.of_alike ha,
          hon.trans hdone.completedOn, ha.stage.trans hdone.ready, ha.visitors ▸ hdone.first, hdone.last⟩
  | running thread waker b => exact ⟨hwaits h.1, h.2.of_alike ha⟩
  | inTask thread waker hopped lent => exact ⟨hwaits h.1, h.2.of_alike ha⟩
  | posting thread cargo =>
      obtain ⟨hwaiting, hloaded, waker, found, hposting⟩ := h
      exact ⟨hwaits hwaiting, hloaded.of_alike ha, waker, found, ha.stage.trans hposting⟩

/-! ### Ends of polls -/

/-- The poll under way has ended and has done nothing else. -/
structure Ends (t : Task β α) (hopsFirst : Bool) (s u : Passage β α ω) : Prop where
  kept : Kept t hopsFirst u
  idle : u.stage = .idle
  visitors : u.visitors = s.visitors
  outcome : u.outcome = s.outcome

/-- An end of a poll is a step of it, also if the poll has looked at a hop or got the outcome before. -/
theorem Ends.steps {v : Passage β α ω} (h : Ends t hopsFirst u v) (hbusy : 0 < s.stage.rank)
    (hsettled : s.outcome ≠ none → u.visitors = s.visitors ∧ u.outcome = s.outcome) :
    Steps t hopsFirst s v where
  kept := h.kept
  closer := by
    rw [h.idle]
    exact hbusy
  settled hsome := (hsettled hsome).imp h.visitors.trans h.outcome.trans

theorem ends_suspended {next : Transfer β α} (htracked : Journey.Tracked none s.journey)
    (hwaits : s.Waiting) (halong : Along t s hopsFirst none next) (thread : Nat) :
    ∃ u, s.ends? thread (.suspended next) = some u ∧ Ends t hopsFirst s u := by
  obtain ⟨⟨b, hruns⟩, hopen⟩ := hwaits
  obtain ⟨task, hends, hruns'⟩ := ends?_suspended hruns thread next
  refine ⟨_, hends, ⟨htracked, .inl ⟨next, hruns', hopen, halong.of_alike ?_⟩⟩, rfl, rfl, rfl⟩
  exact ⟨rfl, rfl, rfl, rfl, rfl⟩

theorem ends_finished {o : Outcome α} {landed : Nat} (htracked : Journey.Tracked none s.journey)
    (hwaits : s.Waiting) (hbrings : s.Brings t (.outcome o)) (hready : s.journey.stage = .ready landed)
    (hfirst : hopsFirst = true → s.visitors.head? = some landed)
    (hlast : hopsFirst = false → landed = thread) :
    ∃ u, s.ends? thread (.ended o) = some u ∧ Ends t hopsFirst s u := by
  obtain ⟨⟨b, hruns⟩, hopen⟩ := hwaits
  obtain ⟨task, hends, hover, hresult⟩ := ends?_ended hruns thread o
  refine ⟨_, hends, ⟨htracked, .inr ⟨o, thread, landed, ?_⟩⟩, rfl, rfl, rfl⟩
  exact ⟨hover, hresult, hbrings.of_alike ⟨rfl, rfl, rfl, rfl, rfl⟩, rfl, hready, hfirst, hlast⟩

/-! ### The steps of one poll -/

namespace Kept

theorem run?_of_arrive {cargo : Cargo β α} (hidle : s.journey.stage = .idle)
    (hmove : HopMove.of (s.journey.latest thread) = .arrive) :
    s.run? thread waker (.hopping s.journey.last? cargo) =
      follow? { s with journey := { s.journey with stage := .ready thread } } thread waker cargo.unload := by
  rw [← Journey.sees_of_arrive hmove thread waker]
  simp only [run?, Journey.after?_look hidle, Transfer.course, s.journey.see_last?, hmove]

/-- The hop has come down under the poll: the task is awaited next, or the transfer is completed. -/
theorem arrives {hop : Option Nat} {cargo : Cargo β α} {journey : Journey ω}
    (htracked : Journey.Tracked none journey) (hready : journey.stage = .ready thread) (hwaits : s.Waiting)
    (hloaded : Loaded t s hopsFirst cargo) (hstage : s.stage = .running thread waker (.hopping hop cargo)) :
    ∃ u, follow? { s with journey } thread waker cargo.unload = some u ∧ Steps t hopsFirst s u := by
  cases hopsFirst <;> cases cargo
  case true.task now =>
      obtain ⟨hvisitors, hbrings⟩ := hloaded
      refine ⟨_, rfl, ⟨htracked, hwaits, .landed thread now hready hvisitors hbrings⟩, ?_, ?_⟩
      · rw [hstage]
        exact Nat.lt_succ_self 4
      · exact fun hsome => absurd hbrings.1 hsome
  case false.outcome o =>
      obtain ⟨u, hu, hends⟩ : ∃ u, _ = some u ∧ Ends t false { s with journey } u :=
        ends_finished (s := { s with journey }) htracked hwaits hloaded hready
          (absurd · Bool.false_ne_true) fun _ => rfl
      refine ⟨u, hu, hends.steps ?_ fun _ => ⟨rfl, rfl⟩⟩
      rw [hstage]
      exact Nat.zero_lt_succ 1
  all_goals exact absurd hloaded id

/-- The poll looks at the latest hop. -/
theorem look {hop : Option Nat} {cargo : Cargo β α} (h : Kept t hopsFirst s)
    (hstage : s.stage = .running thread waker (.hopping hop cargo)) :
    ∃ u, s.run? thread waker (.hopping hop cargo) = some u ∧ Steps t hopsFirst s u := by
  have hfits := h.fits
  rw [hstage] at hfits
  obtain ⟨hwaits, halong⟩ := hfits
  have hbusy : 1 < s.stage.rank := by
    rw [hstage]
    cases cargo <;> simp [Stage.rank]
  cases halong with
  | hopping cargo hidle hloaded hposted =>
      have hlook := Journey.after?_look hidle thread waker
      have htracked : Journey.Tracked none (s.journey.sees thread waker (s.journey.latest thread)) :=
        (Leads.of_after? _ hlook).keeps (fun _ _ _ hu hstep => hu.step hstep) h.tracked
      simp only [run?, hlook, Transfer.course, s.journey.see_last?]
      generalize hjourney : s.journey.sees thread waker (s.journey.latest thread) = journey at htracked ⊢
      cases hmove : HopMove.of (s.journey.latest thread) with
      | arrive =>
          rw [Journey.sees_of_arrive hmove] at hjourney
          exact arrives htracked (hjourney ▸ rfl) hwaits hloaded hstage
      | wait =>
          rw [Journey.sees_of_wait hmove] at hjourney
          -- A hop is pending, so there is one.
          have hsome : s.journey.hops ≠ [] := by
            intro hnil
            have hpending := (HopMove.of_eq_wait_iff _).mp hmove
            simp [Journey.latest, hnil] at hpending
          have halike : Alike s { s with journey } :=
            ⟨hjourney ▸ hidle.symm, hjourney ▸ rfl, rfl, rfl, rfl⟩
          have halong : Along t { s with journey } hopsFirst none (.hopping s.journey.last? cargo) :=
            (Along.hopping cargo hidle hloaded fun _ _ => hsome).of_alike halike
          obtain ⟨u, hu, hends⟩ := ends_suspended (s := { s with journey }) htracked hwaits halong thread
          exact ⟨u, hu, hends.steps (Nat.zero_lt_of_lt hbusy) fun _ => ⟨rfl, rfl⟩⟩
      | post =>
          rw [Journey.sees_of_post hmove] at hjourney
          have hposting : journey.stage = .posting thread waker (s.journey.latest thread) := hjourney ▸ rfl
          exact ⟨_, rfl, ⟨htracked, hwaits, hloaded, waker, _, hposting⟩, hbusy, fun _ => ⟨rfl, rfl⟩⟩

/-- The poll goes on with a poll of the wrapped task. -/
theorem visit {hopped : Bool} {lent : Task β α} (h : Kept t hopsFirst s)
    (hstage : s.stage = .running thread waker (.awaiting hopped lent)) :
    ∃ u, s.run? thread waker (.awaiting hopped lent) = some u ∧ Steps t hopsFirst s u := by
  have hfits := h.fits
  rw [hstage] at hfits
  obtain ⟨hwaits, halong⟩ := hfits
  have hcloser : 3 < s.stage.rank := by
    rw [hstage]
    exact Nat.lt_succ_self 3
  cases halong with
  | landed thread _ hready hvisitors hbrings =>
      -- Nobody has polled the task before, so the first to do so is the thread that the hop came down on.
      refine ⟨_, rfl, ⟨h.tracked, hwaits, .arrived thread lent hready ?_ hbrings⟩, hcloser, ?_⟩
      · simp [hvisitors]
      · exact fun hsome => absurd hbrings.1 hsome
  | arrived first _ hready hvisitors hbrings =>
      refine ⟨_, rfl, ⟨h.tracked, hwaits, .arrived first lent hready ?_ hbrings⟩, hcloser, ?_⟩
      · simp [hvisitors]
      · exact fun hsome => absurd hbrings.1 hsome
  | ahead _ hidle hhops hbrings =>
      refine ⟨_, rfl, ⟨h.tracked, hwaits, .ahead lent hidle hhops hbrings⟩, hcloser, ?_⟩
      exact fun hsome => absurd hbrings.1 hsome

/-- The wrapped task suspends, and so does the transfer. -/
theorem back_suspended {hopped : Bool} {lent lent' : Task β α} {r : Polled β α} (h : Kept t hopsFirst s)
    (hwaits : s.Waiting) (halong : Along t s hopsFirst none (.awaiting hopped lent)) (thread : Nat)
    (waker : ω) (hpolled : lent.polled r = .ok (false, lent'))
    (hbrings : Brings t { s with heard := s.heard ++ lent.heard r } (.task lent')) :
    ∃ u, s.back? thread waker hopped lent r = some u ∧
      Ends t hopsFirst { s with heard := s.heard ++ lent.heard r } u := by
  let left : Passage β α ω := { s with heard := s.heard ++ lent.heard r }
  have halong' : Along t left hopsFirst none (.awaiting hopped lent') := by
    cases halong with
    | arrived first _ hready hvisitors _ => exact .arrived first lent' hready hvisitors hbrings
    | ahead _ hidle hhops _ => exact .ahead lent' hidle hhops hbrings
  obtain ⟨u, hu, hends⟩ := ends_suspended (s := left) h.tracked hwaits halong' thread
  exact ⟨u, by rw [back?, hpolled]; exact hu, hends⟩

/-- The wrapped task has its outcome: the transfer is completed, or hops with it in the same poll. -/
theorem back_ended {hopped : Bool} {lent lent' : Task β α} {r : Polled β α} {o : Outcome α}
    (h : Kept t hopsFirst s) (hstage : s.stage = .inTask thread waker hopped lent) (hwaits : s.Waiting)
    (halong : Along t s hopsFirst none (.awaiting hopped lent)) (hnone : s.outcome = none)
    (hpolled : lent.polled r = .ok (true, lent')) (htaken : lent'.takeOutcome.1 = .ok o)
    (hbrings : Brings t { s with heard := s.heard ++ lent.heard r, outcome := some o } (.outcome o)) :
    ∃ u, s.back? thread waker hopped lent r = some u ∧ Steps t hopsFirst s u := by
  let got : Passage β α ω := { s with heard := s.heard ++ lent.heard r, outcome := some o }
  have hback : s.back? thread waker hopped lent r = got.follow? thread waker (Transfer.onward hopped o) := by
    simp only [back?, hpolled, htaken, got]
  have hcloser : 2 < s.stage.rank := by
    rw [hstage]
    exact Nat.lt_succ_self 2
  rw [hback]
  cases halong with
  | arrived first _ hready hvisitors _ =>
      obtain ⟨u, hu, hends⟩ : ∃ u, got.ends? thread (.ended o) = some u ∧ Ends t true got u :=
        ends_finished (s := got) h.tracked hwaits hbrings hready (fun _ => hvisitors) nofun
      exact ⟨u, hu, hends.steps (Nat.zero_lt_of_lt hcloser) fun hsome => absurd hnone hsome⟩
  | ahead _ hidle hhops _ =>
      -- No hop has been made, so the one that the transfer holds is the latest there is: none.
      have hlast : s.journey.last? = none := if_pos hhops
      refine ⟨_, rfl, ⟨h.tracked, hwaits, ?_⟩, hcloser, fun hsome => absurd hnone hsome⟩
      show Along t _ false (some thread) (.hopping none (.outcome o))
      rw [← hlast]
      exact .hopping (.outcome o) hidle hbrings nofun

/-- A poll of the wrapped task comes back. -/
theorem back {hopped : Bool} {lent : Task β α} (h : Kept t hopsFirst s)
    (hstage : s.stage = .inTask thread waker hopped lent) (r : Polled β α) :
    ∃ u, s.back? thread waker hopped lent r = some u ∧ Steps t hopsFirst s u := by
  have hfits := h.fits
  rw [hstage] at hfits
  obtain ⟨hwaits, halong⟩ := hfits
  obtain ⟨hnone, hunspent, hsame⟩ : s.Brings t (.task lent) := by
    cases halong with
    | arrived _ _ _ _ hbrings | ahead _ _ _ hbrings => exact hbrings
  rcases hunspent.polled r with ⟨lent', hpolled, hunspent', hrest⟩ | ⟨lent', o, hpolled, htaken, hrest⟩
  · have hbrings : Brings t { s with heard := s.heard ++ lent.heard r } (.task lent') :=
      ⟨hnone, hunspent', fun rest => by rw [List.append_assoc, hsame, hrest]⟩
    obtain ⟨u, hu, hends⟩ := h.back_suspended hwaits halong thread waker hpolled hbrings
    refine ⟨u, hu, hends.steps ?_ fun _ => ⟨rfl, rfl⟩⟩
    rw [hstage]
    exact Nat.zero_lt_succ 2
  · exact h.back_ended hstage hwaits halong hnone hpolled htaken
      ⟨rfl, fun rest => by rw [List.append_assoc, hsame, hrest]⟩

/-- The poll posts a hop. -/
theorem posted {cargo : Cargo β α} (h : Kept t hopsFirst s) (hstage : s.stage = .posting thread cargo)
    (r : Polled β α) : ∃ u, s.advance? r = some u ∧ Steps t hopsFirst s u := by
  have hfits := h.fits
  rw [hstage] at hfits
  obtain ⟨hwaits, hloaded, waker, found, hposting⟩ := hfits
  obtain ⟨journey, hpost, hidle, hhops⟩ := Journey.advance_of_posting hposting
  have htracked : Journey.Tracked none journey := h.tracked.step hpost
  have halong : Along t { s with journey } hopsFirst none (.hopping (some s.journey.hops.length) cargo) := by
    rw [← Journey.last?_of_concat hhops]
    exact .hopping cargo hidle hloaded fun _ _ => by simp [hhops]
  obtain ⟨u, hu, hends⟩ := ends_suspended (s := { s with journey }) htracked hwaits halong thread
  refine ⟨u, by rw [advance?, hstage]; simp only [hpost]; exact hu, hends.steps ?_ fun _ => ⟨rfl, rfl⟩⟩
  rw [hstage]
  exact Nat.lt_succ_self 0

/-- **A poll under way can always go on**, and keeps the transfer in step. -/
theorem advance (h : Kept t hopsFirst s) (hbusy : s.stage ≠ .idle) (r : Polled β α) :
    ∃ u, s.step? (.advance r) = some u ∧ Steps t hopsFirst s u := by
  show ∃ u, s.advance? r = some u ∧ _
  cases hstage : s.stage with
  | idle => exact absurd hstage hbusy
  | running thread waker b =>
      rw [advance?, hstage]
      cases b with
      | hopping hop cargo => exact h.look hstage
      | awaiting hopped lent => exact h.visit hstage
  | inTask thread waker hopped lent =>
      rw [advance?, hstage]
      exact h.back hstage r
  | posting thread cargo => exact h.posted hstage r

/-- Nobody but the poll under way touches the transfer. -/
theorem others {a : Journey.Act ω} (h : Kept t hopsFirst s) (hpoll : ∀ thread waker, a ≠ .poll thread waker)
    (hadvance : a ≠ .advance) (hstep : s.moves? a = some u) :
    Kept t hopsFirst u ∧ u.visitors = s.visitors ∧ u.outcome = s.outcome := by
  obtain ⟨journey, hjourney, rfl⟩ := Option.map_eq_some_iff.mp hstep
  obtain ⟨hstage, hhops, -⟩ := Journey.polls_of_step? hjourney hpoll hadvance
  exact ⟨⟨h.tracked.step hjourney, h.fits.of_alike ⟨hstage, hhops, rfl, rfl, rfl⟩ rfl rfl⟩, rfl, rfl⟩

/-- **Every act keeps the transfer in step**, and once the wrapped task has its outcome nobody polls it. -/
theorem step {a : Act β α ω} (h : Kept t hopsFirst s) (hstep : s.step? a = some u) :
    Kept t hopsFirst u ∧ (s.outcome ≠ none → u.visitors = s.visitors ∧ u.outcome = s.outcome) := by
  cases a with
  | poll thread waker =>
      simp only [step?] at hstep
      split at hstep
      · next b record hidle hbegin =>
          obtain rfl := Option.some.inj hstep
          refine ⟨⟨h.tracked, ?_⟩, fun _ => ⟨rfl, rfl⟩⟩
          have hfits := h.fits
          rw [hidle] at hfits
          rcases hfits with ⟨b', hruns, hopen, halong⟩ | ⟨o, thread', landed, hdone⟩
          · rw [hruns.begin?] at hbegin
            cases hbegin
            exact ⟨⟨⟨b, hruns⟩, hopen⟩, (halong.enter thread).of_alike ⟨rfl, rfl, rfl, rfl, rfl⟩⟩
          · rw [hdone.isOver.2] at hbegin
            cases hbegin
      · obtain rfl := Option.some.inj hstep
        exact ⟨h, fun _ => ⟨rfl, rfl⟩⟩
      · cases hstep
  | advance r =>
      by_cases hbusy : s.stage = .idle
      · simp [step?, advance?, hbusy] at hstep
      · obtain ⟨v, hv, hsteps⟩ := h.advance hbusy r
        obtain rfl := Option.some.inj (hstep.symm.trans hv)
        exact ⟨hsteps.kept, hsteps.settled⟩
  | post wakeUp => exact (h.others (a := .post wakeUp) nofun nofun hstep).imp_right fun hsame _ => hsame
  | take thread => exact (h.others (a := .take thread) nofun nofun hstep).imp_right fun hsame _ => hsame
  | carry i => exact (h.others (a := .carry i) nofun nofun hstep).imp_right fun hsame _ => hsame

/-- A poll under way ends by its own next steps. -/
theorem ends (h : Kept t hopsFirst s) (r : Polled β α) :
    ∃ n u, after? step? s (List.replicate n (.advance r)) = some u ∧ u.stage = .idle ∧ Kept t hopsFirst u ∧
      (s.outcome ≠ none → u.outcome = s.outcome) := by
  -- On the rank: a step of the poll lowers it, and only an idle stage has none.
  induction hrank : s.stage.rank using Nat.strongRecOn generalizing s with
  | _ rank ih =>
      by_cases hidle : s.stage = .idle
      · exact ⟨0, s, rfl, hidle, h, fun _ => rfl⟩
      · obtain ⟨u, hu, hsteps⟩ := h.advance hidle r
        obtain ⟨n, v, hv, hend, hkept, hsettled⟩ := ih _ (hrank ▸ hsteps.closer) hsteps.kept rfl
        refine ⟨n + 1, v, ?_, hend, hkept, fun hsome => ?_⟩
        · rw [List.replicate_succ, after?, hu]
          exact hv
        · have hsame := (hsteps.settled hsome).2
          exact (hsettled (hsame ▸ hsome)).trans hsame

/-! ### What is promised -/

/-- Where the transfer is: it waits with something in hand, or it is completed. -/
theorem whereabouts (h : Kept t hopsFirst s) :
    (s.Waiting ∧ ((∃ who b, Along t s hopsFirst who b) ∨ ∃ cargo, Loaded t s hopsFirst cargo)) ∨
      ∃ o thread landed, Completed t s hopsFirst o thread landed := by
  have hfits := h.fits
  cases hstage : s.stage with
  | idle =>
      rw [hstage] at hfits
      exact hfits.imp_left fun ⟨b, hruns, hopen, halong⟩ => ⟨⟨⟨b, hruns⟩, hopen⟩, .inl ⟨_, b, halong⟩⟩
  | running thread waker b | inTask thread waker hopped lent =>
      rw [hstage] at hfits
      exact .inl ⟨hfits.1, .inl ⟨_, _, hfits.2⟩⟩
  | posting thread cargo =>
      rw [hstage] at hfits
      exact .inl ⟨hfits.1, .inr ⟨cargo, hfits.2.1⟩⟩

theorem exists_brings (h : Kept t hopsFirst s) : ∃ cargo, s.Brings t cargo := by
  rcases h.whereabouts with ⟨-, ⟨who, b, halong⟩ | ⟨cargo, hloaded⟩⟩ | ⟨o, thread, landed, hdone⟩
  · exact halong.exists_brings
  · exact ⟨cargo, hloaded.brings⟩
  · exact ⟨_, hdone.brings⟩

/-- **What comes of the wrapped task is what comes of it alone.** -/
theorem awaited_eq (h : Kept t hopsFirst s) {o : Outcome α} (ho : s.outcome = some o) :
    t.awaited s.heard = some (.ok o) := by
  obtain ⟨cargo, hbrings⟩ := h.exists_brings
  cases cargo with
  | task now =>
      rw [hbrings.1] at ho
      cases ho
  | outcome o' =>
      obtain rfl := Option.some.inj (ho.symm.trans hbrings.1)
      have hsame := hbrings.2 []
      rwa [List.append_nil] at hsame

/-- A transfer that hops first has arrived where its task was first polled. -/
theorem ready_of_visited (h : Kept t true s) (hvisited : s.visitors.head? = some thread) :
    s.journey.stage = .ready thread := by
  have hsome : s.visitors ≠ [] := by
    intro hnil
    simp [hnil] at hvisited
  rcases h.whereabouts with ⟨-, ⟨who, b, halong⟩ | ⟨cargo, hloaded⟩⟩ | ⟨o, last, landed, hdone⟩
  · cases halong with
    | hopping cargo _ hloaded _ => exact absurd hloaded.unvisited hsome
    | landed _ _ _ hvisitors _ => exact absurd hvisitors hsome
    | arrived first _ hready hvisitors _ =>
        obtain rfl := Option.some.inj (hvisited.symm.trans hvisitors)
        exact hready
  · exact absurd hloaded.unvisited hsome
  · obtain rfl := Option.some.inj (hvisited.symm.trans (hdone.first rfl))
    exact hdone.ready

/-- A transfer that awaits its task first has posted nothing before it has the outcome. -/
theorem unposted (h : Kept t false s) (hnone : s.outcome = none) :
    s.journey.hops = [] ∧ s.journey.port.ownHops = 0 := by
  have hhops : s.journey.hops = [] := by
    rcases h.whereabouts with ⟨-, ⟨who, b, halong⟩ | ⟨cargo, hloaded⟩⟩ | ⟨o, thread, landed, hdone⟩
    · cases halong with
      | hopping cargo _ hloaded _ => exact absurd hnone hloaded.outcome_ne_none
      | ahead _ _ hhops _ => exact hhops
    · exact absurd hnone hloaded.outcome_ne_none
    · exact absurd hnone hdone.brings.outcome_ne_none
  exact ⟨hhops, h.tracked.ownHops_of_nil hhops⟩

/-- Between polls a transfer that has the outcome has posted its hop. -/
theorem posted_of_idle (h : Kept t false s) (hidle : s.stage = .idle) (hsome : s.outcome ≠ none) :
    s.journey.hops ≠ [] := by
  have hfits := h.fits
  rw [hidle] at hfits
  rcases hfits with ⟨b, -, -, halong⟩ | ⟨o, thread, landed, hdone⟩
  · cases halong with
    | hopping cargo _ _ hposted => exact hposted rfl hsome
    | ahead _ _ _ hbrings => exact absurd hbrings.1 hsome
  · obtain ⟨hop, hlast, -⟩ := h.tracked.exists_ran hdone.ready
    intro hnil
    simp [hnil] at hlast

/-- A poll of a transfer that awaits the task goes on with a poll of that. -/
theorem poll_visits {hopped : Bool} {now : Task β α} (hruns : s.task.Runs (.awaiting hopped now))
    (hidle : s.stage = .idle) (thread : Nat) (waker : ω) (r : Polled β α) :
    after? step? s [.poll thread waker, .advance r] =
      some { s with stage := .inTask thread waker hopped now, visitors := s.visitors ++ [thread] } := by
  simp only [after?, step?, hidle, hruns.begin?]
  rfl

/-- As long as it has no outcome, a transfer that awaits its task first polls it in every poll. -/
theorem visits (h : Kept t false s) (hnone : s.outcome = none) (hidle : s.stage = .idle) (thread : Nat)
    (waker : ω) (r : Polled β α) :
    ∃ u, after? step? s [.poll thread waker, .advance r] = some u ∧ u.visitors = s.visitors ++ [thread] := by
  have hfits := h.fits
  rw [hidle] at hfits
  rcases hfits with ⟨b, hruns, -, halong⟩ | ⟨o, last, landed, hdone⟩
  · cases halong with
    | hopping cargo _ hloaded _ => exact absurd hnone hloaded.outcome_ne_none
    | ahead now _ _ _ => exact ⟨_, poll_visits hruns hidle thread waker r, rfl⟩
  · exact absurd hnone hdone.brings.outcome_ne_none

/-- A poll of a transfer that hops, on the thread that ran its hop, goes on with what the hop brings over. -/
theorem poll_arrives {cargo : Cargo β α} (hruns : s.task.Runs (.hopping s.journey.last? cargo))
    (hidle : s.stage = .idle) (hhopping : s.journey.stage = .idle) (hran : s.journey.RanOn thread)
    (waker : ω) (acts : List (Act β α ω)) (r : Polled β α)
    (hnext : follow? { s with
      journey := { s.journey with stage := .ready thread }
      stage := .running thread waker (.hopping s.journey.last? cargo) } thread waker cargo.unload = some u) :
    after? step? s (.poll thread waker :: .advance r :: acts) = after? step? u acts := by
  have hpoll : s.step? (.poll thread waker) =
      some { s with stage := .running thread waker (.hopping s.journey.last? cargo) } := by
    simp only [step?, hidle, hruns.begin?]
  have hlook : step? { s with stage := .running thread waker (.hopping s.journey.last? cargo) } (.advance r) =
      some u := by
    rw [← hnext]
    exact run?_of_arrive (s := { s with stage := .running thread waker (.hopping s.journey.last? cargo) })
      hhopping hran.arrives
  simp only [after?, hpoll, hlook]

/-- As long as it has no outcome, a transfer that hops first polls its task in every poll on the thread that
ran its hop, and once it has done so in every poll. -/
theorem visits_landed (h : Kept t true s) (hnone : s.outcome = none) (hidle : s.stage = .idle)
    (hthere : s.visitors ≠ [] ∨ s.journey.RanOn thread) (waker : ω) (r : Polled β α) :
    ∃ n u, after? step? s (.poll thread waker :: List.replicate n (.advance r)) = some u ∧
      u.visitors = s.visitors ++ [thread] := by
  have hfits := h.fits
  rw [hidle] at hfits
  rcases hfits with ⟨b, hruns, -, halong⟩ | ⟨o, last, landed, hdone⟩
  · cases halong with
    | hopping cargo hhopping hloaded _ =>
        have hran := hthere.resolve_left fun hsome => hsome hloaded.unvisited
        cases cargo with
        | task now => exact ⟨2, _, poll_arrives hruns hidle hhopping hran waker [.advance r] r rfl, rfl⟩
        | outcome o => exact hloaded.elim
    | arrived first now _ _ _ => exact ⟨1, _, poll_visits hruns hidle thread waker r, rfl⟩
  · exact absurd hnone hdone.brings.outcome_ne_none

/-- A transfer that hops first is completed as soon as it has the outcome. -/
theorem isReady_of_outcome (h : Kept t true s) (hsome : s.outcome ≠ none) : s.task.isReady = true := by
  rcases h.whereabouts with ⟨-, ⟨who, b, halong⟩ | ⟨cargo, hloaded⟩⟩ | ⟨o, thread, landed, hdone⟩
  · cases halong with
    | hopping cargo _ hloaded _ => exact absurd hloaded.outcome_eq_none hsome
    | landed _ _ _ _ hbrings | arrived _ _ _ _ hbrings => exact absurd hbrings.1 hsome
  · exact absurd hloaded.outcome_eq_none hsome
  · exact hdone.isOver.1

/-- A transfer that has brought the outcome over is completed by a poll on the thread that ran its hop. -/
theorem completes_landed (h : Kept t false s) (hsome : s.outcome ≠ none) (hidle : s.stage = .idle)
    (hready : s.task.isReady = false) (hran : s.journey.RanOn thread) (waker : ω) (r : Polled β α) :
    ∃ u, after? step? s [.poll thread waker, .advance r] = some u ∧ u.completedOn = some thread := by
  have hfits := h.fits
  rw [hidle] at hfits
  rcases hfits with ⟨b, hruns, -, halong⟩ | ⟨o, last, landed, hdone⟩
  · cases halong with
    | hopping cargo hhopping hloaded _ =>
        cases cargo with
        | task now => exact hloaded.elim
        | outcome o =>
            obtain ⟨task, hends, -⟩ := ends?_ended (s := { s with
              journey := { s.journey with stage := .ready thread }
              stage := .running thread waker (.hopping s.journey.last? (.outcome o)) }) hruns thread o
            exact ⟨_, poll_arrives hruns hidle hhopping hran waker [] r hends, rfl⟩
    | ahead _ _ _ hbrings => exact absurd hbrings.1 hsome
  · rw [hdone.isOver.1] at hready
    cases hready

/-- The transfer's task is ready once a poll has completed it, with the outcome of the wrapped task. -/
theorem of_isReady (h : Kept t hopsFirst s) (hready : s.task.isReady = true) :
    ∃ o, s.outcome = some o ∧ s.task.result = .ok o := by
  rcases h.whereabouts with ⟨⟨⟨b, stage, hstage, htask⟩, -⟩, -⟩ | ⟨o, thread, landed, hdone⟩
  · rw [htask, Task.isReady] at hready
    exact absurd (by simpa using hready) hstage
  · exact ⟨o, hdone.brings.1, hdone.result⟩

/-- A transfer that hops last is completed by a poll on the thread that its hop came down on. -/
theorem ready_of_completedOn (h : Kept t false s) (hdone : s.completedOn = some thread) :
    s.journey.stage = .ready thread := by
  rcases h.whereabouts with ⟨⟨-, hopen⟩, -⟩ | ⟨o, last, landed, hcompleted⟩
  · rw [hopen] at hdone
    cases hdone
  · obtain rfl := Option.some.inj (hdone.symm.trans hcompleted.completedOn)
    rw [hcompleted.ready, hcompleted.last rfl]

end Kept

theorem kept_scheduleOn (ht : t.Unspent) : Kept t true (start (.scheduleOn t) : Passage β α ω) where
  tracked := Journey.tracked_start none
  fits := by
    refine .inl ⟨_, Task.runs_new _, rfl, .hopping (.task t) rfl ?_ fun _ hsome => absurd rfl hsome⟩
    exact ⟨rfl, rfl, ht, fun _ => rfl⟩

theorem kept_resumeOn (ht : t.Unspent) : Kept t false (start (.resumeOn t) : Passage β α ω) where
  tracked := Journey.tracked_start none
  fits := .inl ⟨_, Task.runs_new _, rfl, .ahead t rfl rfl ⟨rfl, ht, fun _ => rfl⟩⟩

theorem Kept.of_leads (h : Kept t hopsFirst s) (hleads : Leads step? s u) :
    Kept t hopsFirst u ∧ (s.outcome ≠ none → u.visitors = s.visitors ∧ u.outcome = s.outcome) :=
  hleads.keeps
    (P := fun v => Kept t hopsFirst v ∧ (s.outcome ≠ none → v.visitors = s.visitors ∧ v.outcome = s.outcome))
    (fun v _ w hv hstep => by
      obtain ⟨hkept, hsettled⟩ := hv.1.step hstep
      refine ⟨hkept, fun hsome => ?_⟩
      obtain ⟨hvisitors, houtcome⟩ := hv.2 hsome
      exact (hsettled (houtcome ▸ hsome)).imp (·.trans hvisitors) (·.trans houtcome))
    ⟨h, fun _ => ⟨rfl, rfl⟩⟩

/-- **Hopping before or after a task changes only where it runs.**  Whatever the wrapped task is, as long
as nobody has taken its value away, and in every order of polls by any threads, workers with what is
in the port, and others who post there:

* a transfer that hops first polls the wrapped task for the first time on the thread of the worker that
  ran its latest hop; a poll on that thread does so, and so does every poll after it until the task has its
  outcome, with which the transfer is completed;
* a transfer that awaits the task first posts nothing before the task has its outcome, and until then
  every poll of it polls the task; the poll that gets the outcome posts the hop before it ends; the
  transfer is completed by a poll on the thread of the worker that ran its latest hop, and every poll on
  that thread completes it;
* what comes of the wrapped task is what comes of awaiting it alone with the same polls of its body, be it
  a value, an error or a captured panic, and from then on nobody polls it;
* when the transfer's task is ready, that is what its reader gets;
* no poll is stuck: each ends by its own next steps, whatever polls of the wrapped task's body come to. -/
theorem only_the_place_changes (ht : t.Unspent) {b : Transfer β α}
    (hb : b = .scheduleOn t ∨ b = .resumeOn t) (h : Leads step? (start b) s) :
    (b = .scheduleOn t →
      (∀ thread, s.visitors.head? = some thread → s.journey.RanOn thread) ∧
      (s.outcome = none → s.stage = .idle → ∀ thread, s.visitors ≠ [] ∨ s.journey.RanOn thread →
        ∀ waker r, ∃ n u, after? step? s (.poll thread waker :: List.replicate n (.advance r)) = some u ∧
          u.visitors = s.visitors ++ [thread]) ∧
      (s.outcome ≠ none → s.task.isReady = true)) ∧
    (b = .resumeOn t →
      (s.outcome = none → (s.journey.hops = [] ∧ s.journey.port.ownHops = 0) ∧
        (s.stage = .idle → ∀ thread waker r, ∃ u,
          after? step? s [.poll thread waker, .advance r] = some u ∧ u.visitors = s.visitors ++ [thread])) ∧
      (s.outcome ≠ none → ∀ r, ∃ n u, after? step? s (List.replicate n (.advance r)) = some u ∧
        u.stage = .idle ∧ u.journey.hops ≠ []) ∧
      (s.outcome ≠ none → s.stage = .idle → s.task.isReady = false → ∀ thread, s.journey.RanOn thread →
        ∀ waker r, ∃ u, after? step? s [.poll thread waker, .advance r] = some u ∧
          u.completedOn = some thread) ∧
      ∀ thread, s.completedOn = some thread → s.journey.RanOn thread) ∧
    (∀ o, s.outcome = some o → t.awaited s.heard = some (.ok o) ∧
      ∀ u, Leads step? s u → u.visitors = s.visitors) ∧
    (s.task.isReady = true → ∃ o, s.outcome = some o ∧ s.task.result = .ok o ∧ s.task.takeOutcome.1 = .ok o) ∧
    ∀ r, ∃ n u, after? step? s (List.replicate n (.advance r)) = some u ∧ u.stage = .idle := by
  have hfirst : b = .scheduleOn t → Kept t true s := by
    rintro rfl
    exact ((kept_scheduleOn ht).of_leads h).1
  have hlast : b = .resumeOn t → Kept t false s := by
    rintro rfl
    exact ((kept_resumeOn ht).of_leads h).1
  obtain ⟨hopsFirst, hkept⟩ : ∃ hopsFirst, Kept t hopsFirst s :=
    hb.elim (fun hb => ⟨true, hfirst hb⟩) fun hb => ⟨false, hlast hb⟩
  refine ⟨fun hb => ⟨fun thread hvisited => ?_, fun hnone hidle thread hthere waker r => ?_, fun hsome => ?_⟩,
    fun hb => ⟨fun hnone => ?_, fun hsome r => ?_, fun hsome hidle hready thread hran waker r => ?_,
      fun thread hdone => ?_⟩,
    fun o ho => ?_, fun hready => ?_, fun r => ?_⟩
  · exact (hfirst hb).tracked.exists_ran ((hfirst hb).ready_of_visited hvisited)
  · exact (hfirst hb).visits_landed hnone hidle hthere waker r
  · exact (hfirst hb).isReady_of_outcome hsome
  · exact ⟨(hlast hb).unposted hnone, (hlast hb).visits hnone⟩
  · obtain ⟨n, u, hu, hidle, hkeptu, hsettled⟩ := (hlast hb).ends r
    exact ⟨n, u, hu, hidle, hkeptu.posted_of_idle hidle (hsettled hsome ▸ hsome)⟩
  · exact (hlast hb).completes_landed hsome hidle hready hran waker r
  · exact (hlast hb).tracked.exists_ran ((hlast hb).ready_of_completedOn hdone)
  · refine ⟨hkept.awaited_eq ho, fun u hleads => ((hkept.of_leads hleads).2 ?_).1⟩
    rw [ho]
    nofun
  · obtain ⟨o, ho, hresult⟩ := hkept.of_isReady hready
    exact ⟨o, ho, hresult, Task.takeOutcome_of_result hresult⟩
  · obtain ⟨n, u, hu, hidle, -⟩ := hkept.ends r
    exact ⟨n, u, hu, hidle⟩

/-- A hop comes down on thread 2 while thread 1 polls, which posts another and runs it; there the wrapped
task's body suspends, and it panics in a poll on thread 3.  Of an empty task, which thread 4 awaits, thread 6
brings over that it is broken. -/
theorem only_the_place_changes_both_ways :
    let s : Passage Nat Nat Nat :=
      { task := .failed (.panicked "gone")
        journey :=
          { hops := [⟨some 2, 10⟩, ⟨some 1, 11⟩]
            stage := .ready 1
            past := [⟨1, 10, none⟩, ⟨1, 11, some .elsewhere⟩]
            carriers := [⟨2, 0, .landed⟩, ⟨1, 1, .landed⟩] }
        visitors := [1, 3]
        heard := [.suspended 5, .panicked (.text "gone")]
        outcome := some (.error (.panicked "gone"))
        completedOn := some 3 }
    let u : Passage Nat Nat Nat :=
      { task := .failed .brokenTask
        journey :=
          { hops := [⟨some 6, 20⟩]
            stage := .ready 6
            past := [⟨4, 20, none⟩]
            carriers := [⟨6, 0, .woke 20⟩] }
        visitors := [4]
        outcome := some (.error .brokenTask)
        completedOn := some 6 }
    Leads step? (start (.scheduleOn (.new 0))) s ∧ s.journey.RanOn 1 ∧
      (∃ o, s.outcome = some o ∧ s.task.result = .ok o ∧ s.task.takeOutcome.1 = .ok o) ∧
      Leads step? (start (.resumeOn .empty)) u ∧ u.journey.RanOn 6 ∧
      (Task.empty : Task Nat Nat).awaited [] = some (.ok (.error .brokenTask)) := by
  intro s u
  let rests : Act Nat Nat Nat := .advance (.suspended 5)
  have hs : Leads step? (start (.scheduleOn (.new 0))) s :=
    .of_after? [.poll 1 10, rests, rests, .take 2, .carry 0, .poll 1 11, rests, rests, .take 1, .carry 1,
      .poll 1 12, rests, rests, rests, .poll 3 13, rests, .advance (.panicked (.text "gone"))] rfl
  have hu : Leads step? (start (.resumeOn .empty)) u :=
    .of_after? [.poll 4 20, rests, rests, rests, rests, .take 6, .carry 0, .carry 0, .poll 6 21, rests] rfl
  obtain ⟨hfirst, -, -, hread, -⟩ :=
    only_the_place_changes (.inl ⟨0, Task.runs_new 0⟩) (.inl rfl) hs
  obtain ⟨-, hlast, halone, -⟩ :=
    only_the_place_changes (.inr ⟨Task.over_empty, .error .brokenTask, rfl⟩) (.inr rfl) hu
  exact ⟨hs, (hfirst rfl).1 1 rfl, hread rfl, hu, (hlast rfl).2.2.2 6 rfl, (halone _ rfl).1⟩

end Passage

end TaskDispatch
