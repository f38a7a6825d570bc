/-
What becomes of the task in a frame.

A frame is made around a task as its owner keeps it between polls (`Task.Sound`): it
is over, or it has a body to run and nothing is written yet.  What the polls of the
body come to is kept, in order (`Hosted.log`), so that one can say what the task in
the frame must be: the body that the latest poll left, or the outcome that it ended
with.

The task lies in the frame or is in the hands of one call, and `Kept` says what it is
at each place.  That a task is never polled into a panic of its own, and that whoever
takes it gets the outcome of its last poll, follows.
-/
import TaskDispatch.Proofs.Frame.Ownership

namespace TaskDispatch

variable {β α : Type}

namespace Polled

/-- The outcome of the task, if the poll ended its body. -/
def outcome? : Polled β α → Option (Outcome α)
  | suspended _ => none
  | ended outcome => some outcome
  | panicked p => some (.error p.toError)

/-- The body that the poll left. -/
def body? : Polled β α → Option β
  | suspended body => some body
  | ended _ | panicked _ => none

theorem exists_outcome {r : Polled β α} (h : r.body? = none) : ∃ o, r.outcome? = some o := by
  cases r with
  | suspended body => cases h
  | ended outcome => exact ⟨outcome, rfl⟩
  | panicked p => exact ⟨.error p.toError, rfl⟩

end Polled

namespace Task

/-! ### Tasks between polls -/

/-- The task has this body to run, and nothing is written yet. -/
def Runs (t : Task β α) (body : β) : Prop :=
  ∃ stage, stage ≠ .completed ∧ t = ⟨some ⟨stage, some body, .empty⟩⟩

/-- The task counts as ready and has nothing to run. -/
def Over (t : Task β α) : Prop := t.isReady = true ∧ t.begin? = none

/-- A task as its owner keeps it between polls. -/
def Sound (t : Task β α) : Prop := t.Over ∨ ∃ body, t.Runs body

theorem runs_new (body : β) : (new body : Task β α).Runs body := ⟨.created, nofun, rfl⟩

theorem over_ready (v : α) : (ready v : Task β α).Over := ⟨rfl, rfl⟩

theorem over_failed (e : Error) : (failed e : Task β α).Over := ⟨rfl, rfl⟩

theorem over_empty : (empty : Task β α).Over := ⟨rfl, rfl⟩

theorem Runs.begin? {t : Task β α} {body : β} (h : t.Runs body) :
    t.begin? = some (body, ⟨.started, none, .empty⟩) := by
  obtain ⟨stage, -, rfl⟩ := h
  rfl

theorem Runs.body? {t : Task β α} {body : β} (h : t.Runs body) : t.body? = some body := by
  obtain ⟨stage, -, rfl⟩ := h
  rfl

theorem body?_of_begin? {t : Task β α} (h : t.begin? = none) : t.body? = none := by
  obtain ⟨record⟩ := t
  cases record with
  | none => rfl
  | some r =>
      obtain ⟨stage, body, cell⟩ := r
      cases body with
      | none => rfl
      | some b => cases h

/-- Whoever can look at the outcome can take it. -/
theorem takeOutcome_of_result {t : Task β α} {o : Outcome α} (h : t.result = .ok o) :
    t.takeOutcome.1 = .ok o := by
  match t with
  | ⟨none⟩ => exact h
  | ⟨some ⟨stage, body, cell⟩⟩ =>
      cases cell with
      | empty | consumed => cases h
      | value v | error e => exact h

/-- A poll of a task that is over leaves it as it is. -/
theorem Over.polled {t : Task β α} (h : t.Over) (r : Polled β α) : t.polled r = .ok (true, t) := by
  rw [Task.polled, h.2]

/-- A poll that suspends leaves the task with the body it left. -/
theorem Runs.suspended {t : Task β α} {body : β} (h : t.Runs body) (next : β) :
    ∃ t', t.polled (.suspended next) = .ok (false, t') ∧ t'.Runs next := by
  refine ⟨⟨some ⟨.started, some next, .empty⟩⟩, ?_, .started, nofun, rfl⟩
  rw [Task.polled, h.begin?]
  rfl

/-- A poll that ends the body, or panics, leaves the task over, with its outcome. -/
theorem Runs.ended {t : Task β α} {body : β} (h : t.Runs body) {r : Polled β α} {o : Outcome α}
    (ho : r.outcome? = some o) : ∃ t', t.polled r = .ok (true, t') ∧ t'.Over ∧ t'.result = .ok o := by
  refine ⟨⟨some ⟨.completed, none, .ofOutcome o⟩⟩, ?_, ⟨rfl, rfl⟩, Cell.get_ofOutcome o⟩
  rw [Task.polled, h.begin?]
  cases r with
  | suspended next => cases ho
  | ended outcome =>
      obtain rfl := Option.some.inj ho
      rfl
  | panicked p =>
      obtain rfl := Option.some.inj ho
      rfl

end Task

namespace Frame

/-- A frame, the task it was made around, and what the polls of its body have come to. -/
structure Hosted (β α : Type) where
  input : Task β α
  frame : Callers β α
  log : List (Polled β α) := []

namespace Hosted

/-- A new frame. -/
def start (t : Task β α) : Hosted β α := { input := t, frame := .start t }

/-- What an act adds to the log: a call ends its poll of a body. -/
def heard (f : Hosted β α) : Callers.Act β α → List (Polled β α)
  | .resume | .take => []
  | .go i _ r =>
    match f.frame.calls[i]? with
    | some ⟨.inPoll lent, _⟩ => if lent.begin?.isSome then [r] else []
    | _ => []

/-- The frame after an act, if it can happen. -/
def step? (f : Hosted β α) (a : Callers.Act β α) : Option (Hosted β α) :=
  match f.frame.step? a with
  | none => none
  | some frame => some { f with frame, log := f.log ++ f.heard a }

/-- The body that the next poll has to run. -/
def body? (f : Hosted β α) : Option β :=
  match f.log.getLast? with
  | none => f.input.body?
  | some r => r.body?

/-- What reading the task's outcome comes to, once there is one. -/
def outcome (f : Hosted β α) : Except Panic (Outcome α) :=
  match f.log.getLast? with
  | none => f.input.result
  | some r => r.outcome?.elim f.input.result .ok

/-- Whether the task has its outcome. -/
def isCompleted (f : Hosted β α) : Bool := f.frame.shared.word.isCompleted

/-- Whether some poll of the body has suspended. -/
def hasSuspended (f : Hosted β α) : Bool := f.log.any (·.body?.isSome)

/-- The task is as the next poll is to find it. -/
def Waits (f : Hosted β α) (t : Task β α) : Prop :=
  (∃ body, f.body? = some body ∧ t.Runs body) ∨ f.log = [] ∧ t = f.input ∧ t.Over

/-- The task is as the last poll has left it. -/
def Ends (f : Hosted β α) (t : Task β α) : Prop :=
  f.body? = none ∧ t.Over ∧ t.result = f.outcome

variable {f : Hosted β α}

theorem waits_start {t : Task β α} (hsound : t.Sound) : (start t).Waits t := by
  rcases hsound with hover | ⟨body, hruns⟩
  · exact Or.inr ⟨rfl, rfl, hover⟩
  · exact Or.inl ⟨body, hruns.body?, hruns⟩

/-- A frame whose latest poll left a body has suspended. -/
theorem hasSuspended_of_body? {body : β} (hbody : f.body? = some body) (hlog : f.log ≠ []) :
    f.hasSuspended = true := by
  obtain ⟨r, hr⟩ := List.getLast?_isSome.mpr hlog |> Option.isSome_iff_exists.mp
  have hleft : r.body? = some body := by simpa [Hosted.body?, hr] using hbody
  refine List.any_eq_true.mpr ⟨r, List.mem_of_getLast? hr, ?_⟩
  rw [hleft]
  rfl

/-- **A poll of a waiting task** is no panic: it suspends and leaves the task waiting, or ends it. -/
theorem Waits.polled {lent : Task β α} (hw : f.Waits lent) (frame : Callers β α) (r : Polled β α) :
    ∃ ready t, lent.polled r = .ok (ready, t) ∧
      let log := f.log ++ if lent.begin?.isSome then [r] else []
      let next : Hosted β α := { f with frame, log }
      if ready then next.Ends t else next.Waits t ∧ log ≠ [] := by
  rcases hw with ⟨body, hbody, hruns⟩ | ⟨hlog, rfl, hover⟩
  · rw [hruns.begin?]
    cases hr : r.body? with
    | some next =>
        cases r with
        | suspended b =>
            obtain ⟨t', hpolled, hruns'⟩ := hruns.suspended b
            refine ⟨false, t', hpolled, Or.inl ⟨b, ?_, hruns'⟩, by simp⟩
            simp [Hosted.body?, Polled.body?]
        | ended o => cases hr
        | panicked p => cases hr
    | none =>
        obtain ⟨o, ho⟩ := Polled.exists_outcome hr
        obtain ⟨t', hpolled, hover, hresult⟩ := hruns.ended ho
        refine ⟨true, t', hpolled, ?_, hover, ?_⟩
        · simp [Hosted.body?, hr]
        · simp [Hosted.outcome, ho, hresult]
  · refine ⟨true, f.input, hover.polled r, ?_, hover, ?_⟩
    · simp [Hosted.body?, hlog, hover.2, Task.body?_of_begin? hover.2]
    · simp [Hosted.outcome, hlog, hover.2]

/-- A waiting task whose body ends is over after the poll. -/
theorem Waits.ended {lent : Task β α} (hw : f.Waits lent) {r : Polled β α} {o : Outcome α}
    (ho : r.outcome? = some o) : ∃ t, lent.polled r = .ok (true, t) := by
  rcases hw with ⟨body, -, hruns⟩ | ⟨-, rfl, hover⟩
  · obtain ⟨t, ht, -⟩ := hruns.ended ho
    exact ⟨t, ht⟩
  · exact ⟨f.input, hover.polled r⟩

/-! ### What the task is at each place -/

/-- What a call that has the task in its hands, or owns it, knows of it. -/
def Fits (f : Hosted β α) (c : Call β α) : Prop :=
  match c.place with
  | .resuming .polling => f.Waits f.frame.shared.task
  | .resuming .retire | .resuming .renew => f.Waits f.frame.shared.task ∧ f.log ≠ []
  | .resuming .publish | .moving => f.Ends f.frame.shared.task
  | .inPoll lent => f.Waits lent
  | .took (some t) => f.Ends t
  | .unwound => False
  | _ => True

/-- What the task of a frame is, wherever it is. -/
structure Kept (f : Hosted β α) : Prop where
  owned : Owned f.frame
  notified : ∀ (i : Nat) c, f.frame.calls[i]? = some c → c.place = .inNotifier →
    0 < f.frame.shared.notices
  idle : f.frame.shared.word = .idle →
    f.Waits f.frame.shared.task ∧ (0 < f.frame.shared.polls → f.log ≠ [])
  completed : f.frame.shared.word = .completed → f.Ends f.frame.shared.task
  spent : f.isCompleted = true → f.body? = none
  calls : ∀ (i : Nat) c, f.frame.calls[i]? = some c → f.Fits c

/-- A call that neither owns nor takes the task knows nothing of it. -/
theorem fits_of_idle {c : Call β α} (howns : c.owns = false) (htakes : c.takes = false) : f.Fits c := by
  obtain ⟨place, n⟩ := c
  cases place with
  | resuming pc => cases pc <;> trivial
  | took task => cases task <;> trivial
  | inPoll lent => cases howns
  | unwound => cases howns
  | moving => cases htakes
  | inNotifier => trivial
  | taking => trivial

theorem kept_start {t : Task β α} (hsound : t.Sound) : Kept (start t) where
  owned := owned_start t
  notified i c hc := by simp [start, Callers.start] at hc
  idle _ := ⟨waits_start hsound, fun hpolls => absurd hpolls (Nat.lt_irrefl 0)⟩
  completed hword := by cases hword
  spent hword := by cases hword
  calls i c hc := by simp [start, Callers.start] at hc

end Hosted

/-! ### Who else may touch the task -/

namespace Owned

variable {s : Callers β α} {c d : Call β α} {i j : Nat}

/-- While one call owns the task no other owns it, and nobody takes it. -/
theorem alone_of_owns (h : Owned s) (hi : s.calls[i]? = some c) (hown : c.owns = true)
    (hj : s.calls[j]? = some d) (hne : j ≠ i) : d.owns = false ∧ d.takes = false := by
  have hheld := h.held_of_owns (List.mem_of_getElem? hi) hown
  refine ⟨?_, ?_⟩
  · rw [Bool.eq_false_iff]
    intro hd
    exact hne (index_eq_of_countP_le_one (h.owners ▸ Bool.toNat_le _) hj hi hd hown)
  · rw [Bool.eq_false_iff]
    intro hd
    have := eq_true_of_countP_eq_toNat h.takers (List.mem_of_getElem? hj) hd
    rw [not_isTaken_of_isHeld hheld] at this
    cases this

/-- While one call takes the task no other takes it, and nobody owns it. -/
theorem alone_of_takes (h : Owned s) (hi : s.calls[i]? = some c) (htakes : c.takes = true)
    (hj : s.calls[j]? = some d) (hne : j ≠ i) : d.owns = false ∧ d.takes = false := by
  have htaken := eq_true_of_countP_eq_toNat h.takers (List.mem_of_getElem? hi) htakes
  refine ⟨?_, ?_⟩
  · rw [Bool.eq_false_iff]
    intro hd
    have hheld := h.held_of_owns (List.mem_of_getElem? hj) hd
    rw [not_isTaken_of_isHeld hheld] at htaken
    cases htaken
  · rw [Bool.eq_false_iff]
    intro hd
    exact hne (index_eq_of_countP_le_one (h.takers ▸ Bool.toNat_le _) hj hi hd htakes)

end Owned

/-! ### What every act keeps -/

namespace Hosted

variable {f f' : Hosted β α} {c c' : Call β α} {x : Shared β α} {i : Nat}

/-- What a call knows of the task depends on the task and the log alone. -/
theorem Fits.of_same_task {frame : Callers β α} (hfits : f.Fits c)
    (htask : frame.shared.task = f.frame.shared.task) : Fits { f with frame } c := by
  obtain ⟨place, n⟩ := c
  obtain ⟨⟨word, task, polls, notices⟩, calls⟩ := frame
  obtain rfl : task = f.frame.shared.task := htask
  exact hfits

/-- What the others know while one call moves: the task is as it was, or none of them knows of it. -/
theorem Kept.others (h : Kept f) (hc : f.frame.calls[i]? = some c)
    (htask : x.task = f.frame.shared.task ∨ c.owns = true ∨ c.takes = true)
    (hself : Fits { f with frame := ⟨x, f.frame.calls.set i c'⟩ } c') :
    ∀ (j : Nat) d, (f.frame.calls.set i c')[j]? = some d →
      Fits { f with frame := ⟨x, f.frame.calls.set i c'⟩ } d := by
  intro j d hd
  rcases getElem?_of_set hd with ⟨-, rfl⟩ | ⟨hne, hold⟩
  · exact hself
  · rcases htask with hsame | howns | htakes
    · exact (h.calls j d hold).of_same_task hsame
    · obtain ⟨hdowns, hdtakes⟩ := h.owned.alone_of_owns hc howns hold hne
      exact fits_of_idle hdowns hdtakes
    · obtain ⟨hdowns, hdtakes⟩ := h.owned.alone_of_takes hc htakes hold hne
      exact fits_of_idle hdowns hdtakes

theorem fits_seeing (w : Word) (n : Nat) : f.Fits ⟨.resuming (.seeing w), n⟩ :=
  fits_of_idle (owns_seeing w n) (takes_seeing w n)

/-- A call that is in the notifier has been counted. -/
theorem Kept.notified_set (h : Kept f) (hc : f.frame.calls[i]? = some c)
    (hmove : Moves f.frame.shared c x c') :
    ∀ (j : Nat) d, (f.frame.calls.set i c')[j]? = some d → d.place = .inNotifier → 0 < x.notices := by
  have hle : f.frame.shared.notices ≤ x.notices := by
    cases hmove with
    | notify n => exact Nat.le_succ _
    | _ => exact Nat.le_refl _
  intro j d hd hplace
  rcases getElem?_of_set hd with ⟨-, rfl⟩ | ⟨-, hold⟩
  · cases hmove with
    | notify n => exact Nat.succ_pos _
    | load n => cases hw : f.frame.shared.word <;> simp [hw, Pc.seeing] at hplace
    | fail seen n => cases hw : f.frame.shared.word <;> simp [hw, Pc.seeing] at hplace
    | _ => cases hplace
  · exact Nat.lt_of_lt_of_le (h.notified j d hold hplace) hle

/-- A call that moves, but not out of a poll, keeps what is known of the task. -/
theorem Kept.go (h : Kept f) (hc : f.frame.calls[i]? = some c) (hmove : Moves f.frame.shared c x c')
    (hplace : c.polls = false) :
    Kept { f with frame := ⟨x, f.frame.calls.set i c'⟩ } := by
  have hfits := h.calls i c hc
  have howned : Owned ⟨x, f.frame.calls.set i c'⟩ := h.owned.go hc hmove
  have hnotified := h.notified_set hc hmove
  have hheld := h.owned.held_of_owns (List.mem_of_getElem? hc)
  cases hmove with
  | load n =>
      exact ⟨howned, hnotified, h.idle, h.completed, h.spent, h.others hc (Or.inl rfl) (fits_seeing _ _)⟩
  | fail seen n =>
      exact ⟨howned, hnotified, h.idle, h.completed, h.spent, h.others hc (Or.inl rfl) (fits_seeing _ _)⟩
  | claim n hw =>
      exact ⟨howned, hnotified, nofun, nofun, nofun, h.others hc (Or.inl rfl) (h.idle hw).1⟩
  | mark n hw =>
      exact ⟨howned, hnotified, nofun, nofun, nofun, h.others hc (Or.inl rfl) trivial⟩
  | give seen n hw hnone =>
      exact ⟨howned, hnotified, h.idle, h.completed, h.spent, h.others hc (Or.inl rfl) trivial⟩
  | poll n =>
      have hword := hheld rfl
      refine ⟨howned, hnotified, ?_, ?_, ?_, h.others hc (Or.inr (Or.inl rfl)) hfits⟩
      · intro hidle
        rw [show f.frame.shared.word = .idle from hidle] at hword
        cases hword
      · intro hdone
        rw [show f.frame.shared.word = .completed from hdone] at hword
        cases hword
      · exact h.spent
  | suspend lent t n => cases hplace
  | finish lent t n => cases hplace
  | unwind lent n => cases hplace
  | retire n hw =>
      exact ⟨howned, hnotified, fun _ => ⟨hfits.1, fun _ => hfits.2⟩, nofun, nofun,
        h.others hc (Or.inl rfl) trivial⟩
  | again n hw =>
      exact ⟨howned, hnotified, h.idle, h.completed, h.spent, h.others hc (Or.inl rfl) hfits⟩
  | breaks n hw =>
      exact ⟨howned, hnotified, h.idle, h.completed, h.spent, h.others hc (Or.inl rfl) trivial⟩
  | renew n =>
      exact ⟨howned, hnotified, nofun, nofun, nofun, h.others hc (Or.inl rfl) hfits.1⟩
  | publish n =>
      exact ⟨howned, hnotified, nofun, fun _ => hfits, fun _ => hfits.1, h.others hc (Or.inl rfl) trivial⟩
  | notify n =>
      exact ⟨howned, hnotified, h.idle, h.completed, h.spent, h.others hc (Or.inl rfl) trivial⟩
  | leave n =>
      exact ⟨howned, hnotified, h.idle, h.completed, h.spent, h.others hc (Or.inl rfl) trivial⟩
  | win n hw =>
      exact ⟨howned, hnotified, nofun, nofun, fun _ => (h.completed hw).1,
        h.others hc (Or.inl rfl) (h.completed hw)⟩
  | lose n hw =>
      exact ⟨howned, hnotified, h.idle, h.completed, h.spent, h.others hc (Or.inl rfl) trivial⟩
  | move n =>
      have htaken := eq_true_of_countP_eq_toNat h.owned.takers (List.mem_of_getElem? hc) rfl
      refine ⟨howned, hnotified, ?_, ?_, h.spent, h.others hc (Or.inr (Or.inr rfl)) hfits⟩
      · intro hidle
        rw [show f.frame.shared.word = .idle from hidle] at htaken
        cases htaken
      · intro hdone
        rw [show f.frame.shared.word = .completed from hdone] at htaken
        cases htaken

/-- A poll ends: the task comes back as the log says. -/
theorem Kept.back (h : Kept f) {lent : Task β α} {n : Nat} {spurious : Bool} {r : Polled β α}
    (hc : f.frame.calls[i]? = some ⟨.inPoll lent, n⟩)
    (hstep : Call.step? ⟨.inPoll lent, n⟩ spurious r f.frame.shared = some (x, c')) :
    Kept { f with
      frame := ⟨x, f.frame.calls.set i c'⟩
      log := f.log ++ if lent.begin?.isSome then [r] else [] } := by
  have howned : Owned ⟨x, f.frame.calls.set i c'⟩ := h.owned.go hc (moves_of_step? hstep)
  have hnotified := h.notified_set hc (moves_of_step? hstep)
  have hheld : f.frame.shared.word.isHeld = true := h.owned.held_of_owns (List.mem_of_getElem? hc) rfl
  have hwaits : f.Waits lent := h.calls i _ hc
  obtain ⟨ready, t, hpolled, hback⟩ := hwaits.polled ⟨x, f.frame.calls.set i c'⟩ r
  simp only [Call.step?, hpolled, Option.some.injEq, Prod.mk.injEq] at hstep
  obtain ⟨rfl, rfl⟩ := hstep
  refine ⟨howned, hnotified, ?_, ?_, ?_, ?_⟩
  · intro hidle
    rw [show f.frame.shared.word = .idle from hidle] at hheld
    cases hheld
  · intro hdone
    rw [show f.frame.shared.word = .completed from hdone] at hheld
    cases hheld
  · intro hdone
    cases hdone.symm.trans (not_isCompleted_of_isHeld hheld)
  · intro j d hd
    rcases getElem?_of_set hd with ⟨-, rfl⟩ | ⟨hne, hold⟩
    · cases ready with
      | false => exact hback
      | true => exact hback
    · obtain ⟨hdowns, hdtakes⟩ := h.owned.alone_of_owns hc rfl hold hne
      exact fits_of_idle hdowns hdtakes

theorem Kept.begin (h : Kept f) {place : Place β α} (hp : place = .resuming .load ∨ place = .taking) :
    Kept { f with frame := { f.frame with calls := f.frame.calls ++ [⟨place, 0⟩] } } := by
  refine ⟨h.owned.begin hp, ?_, h.idle, h.completed, h.spent, ?_⟩
  · intro j d hd hplace
    rcases getElem?_of_join hd with rfl | hold
    · rcases hp with rfl | rfl <;> cases hplace
    · exact h.notified j d hold hplace
  intro j d hd
  rcases getElem?_of_join hd with rfl | hold
  · rcases hp with rfl | rfl <;> trivial
  · exact (h.calls j d hold).of_same_task rfl

/-- What an act does to the frame and to the log. -/
theorem of_step? {a : Callers.Act β α} (h : f.step? a = some f') :
    f'.input = f.input ∧ f.frame.step? a = some f'.frame ∧ f'.log = f.log ++ f.heard a := by
  rw [step?] at h
  split at h
  · cases h
  · next frame hframe =>
      obtain rfl := Option.some.inj h
      exact ⟨rfl, hframe, rfl⟩

/-- A call moves. -/
theorem step?_go {spurious : Bool} {r : Polled β α} (hc : f.frame.calls[i]? = some c)
    (hmove : c.step? spurious r f.frame.shared = some (x, c')) :
    f.step? (.go i spurious r) = some { f with
      frame := ⟨x, f.frame.calls.set i c'⟩
      log := f.log ++ f.heard (.go i spurious r) } := by
  simp only [step?, Callers.step?, hc, hmove]

/-- A call that is not in a poll adds nothing to the log. -/
theorem heard_of_not_polls (hc : f.frame.calls[i]? = some c) (hplace : c.polls = false)
    (spurious : Bool) (r : Polled β α) : f.heard (.go i spurious r) = [] := by
  obtain ⟨place, n⟩ := c
  cases place with
  | inPoll lent => cases hplace
  | _ => simp [heard, hc]

/-- What an act does: a call begins, a call moves but not out of a poll, or a poll ends. -/
inductive Acts (f : Hosted β α) : Callers.Act β α → Hosted β α → Prop
  | resume : Acts f .resume
      { f with frame := { f.frame with calls := f.frame.calls ++ [⟨.resuming .load, 0⟩] } }
  | take : Acts f .take
      { f with frame := { f.frame with calls := f.frame.calls ++ [⟨.taking, 0⟩] } }
  | go (i : Nat) (spurious : Bool) (r : Polled β α) (c c' : Call β α) (x : Shared β α)
    (hc : f.frame.calls[i]? = some c) (hmove : Moves f.frame.shared c x c') (hplace : c.polls = false) :
    Acts f (.go i spurious r) { f with frame := ⟨x, f.frame.calls.set i c'⟩ }
  | back (i n : Nat) (lent : Task β α) (spurious : Bool) (r : Polled β α) (x : Shared β α) (c' : Call β α)
    (hc : f.frame.calls[i]? = some ⟨.inPoll lent, n⟩)
    (hpoll : Call.step? ⟨.inPoll lent, n⟩ spurious r f.frame.shared = some (x, c')) :
    Acts f (.go i spurious r)
      { f with
        frame := ⟨x, f.frame.calls.set i c'⟩
        log := f.log ++ if lent.begin?.isSome then [r] else [] }

theorem acts_of_step? {a : Callers.Act β α} (hstep : f.step? a = some f') : Acts f a f' := by
  obtain ⟨hinput, hframe, hlog⟩ := of_step? hstep
  obtain ⟨input, frame, log⟩ := f'
  obtain rfl : input = f.input := hinput
  obtain rfl : log = f.log ++ f.heard a := hlog
  cases a with
  | resume =>
      obtain rfl := Option.some.inj hframe
      simpa [heard] using Acts.resume (f := f)
  | take =>
      obtain rfl := Option.some.inj hframe
      simpa [heard] using Acts.take (f := f)
  | go i spurious r =>
      simp only [Callers.step?] at hframe
      split at hframe
      · cases hframe
      · next c hc =>
          split at hframe
          · cases hframe
          · next x c' hmove =>
              obtain rfl := Option.some.inj hframe
              cases hplace : c.polls with
              | false =>
                  rw [heard_of_not_polls hc hplace, List.append_nil]
                  exact .go i spurious r c c' x hc (moves_of_step? hmove) hplace
              | true =>
                  obtain ⟨place, n⟩ := c
                  cases place with
                  | inPoll lent =>
                      have hheard : f.heard (.go i spurious r) =
                          if lent.begin?.isSome then [r] else [] := by simp [heard, hc]
                      rw [hheard]
                      exact .back i n lent spurious r x c' hc hmove
                  | _ => cases hplace

/-- Every act keeps what is known of the task. -/
theorem Kept.step (h : Kept f) {a : Callers.Act β α} (hstep : f.step? a = some f') : Kept f' := by
  cases acts_of_step? hstep with
  | resume => exact h.begin (Or.inl rfl)
  | take => exact h.begin (Or.inr rfl)
  | go i spurious r c c' x hc hmove hplace => exact h.go hc hmove hplace
  | back i n lent spurious r x c' hc hpoll => exact h.back hc hpoll

/-- **What is known of the task of every frame**, whoever calls it in whatever order. -/
theorem Kept.of_leads {t : Task β α} (hsound : t.Sound) (h : Leads Hosted.step? (start t) f) :
    Kept f :=
  h.keeps (fun _ _ _ hs hstep => hs.step hstep) (kept_start hsound)

/-! ### What follows -/

/-- What the calls do is what they do without a log. -/
theorem leads_frame {t : Task β α} (h : Leads Hosted.step? (start t) f) :
    Leads Callers.step? (Callers.start t) f.frame := by
  refine h.keeps (P := fun u => Leads Callers.step? (Callers.start t) u.frame) ?_ (.refl _)
  intro u a v hu hstep
  exact .step a hu (of_step? hstep).2.1

/-- The log of a completed frame is closed. -/
theorem Kept.log_of_completed (h : Kept f) (hdone : f.isCompleted = true) {a : Callers.Act β α}
    (hstep : f.step? a = some f') : f'.log = f.log := by
  obtain ⟨-, hframe, hlog⟩ := of_step? hstep
  rw [hlog]
  cases a with
  | resume | take => exact List.append_nil _
  | go i spurious r =>
      cases hc : f.frame.calls[i]? with
      | none => simp [Callers.step?, hc] at hframe
      | some c =>
          rw [heard_of_not_polls hc (h.owned.none_polls hdone c (List.mem_of_getElem? hc)),
            List.append_nil]

/-- Whoever has been notified has been notified of a completed frame. -/
theorem Kept.completed_of_notices (h : Kept f) (hpos : 0 < f.frame.shared.notices) :
    f.isCompleted = true := by
  have htold := h.owned.told
  have hle := Bool.toNat_le f.frame.shared.word.isCompleted
  show f.frame.shared.word.isCompleted = true
  exact Bool.toNat_eq_one.mp (by omega)

/-- The outcome of a completed frame stays. -/
theorem Kept.outcome_of_completed (h : Kept f) (hdone : f.isCompleted = true) {a : Callers.Act β α}
    (hstep : f.step? a = some f') : f'.outcome = f.outcome := by
  rw [outcome, outcome, h.log_of_completed hdone hstep, (of_step? hstep).1]

/-- **Whoever takes the task gets it ready, with the outcome of its last poll.** -/
theorem Kept.took (h : Kept f) {t : Task β α} {n : Nat}
    (hc : f.frame.calls[i]? = some ⟨.took (some t), n⟩) :
    t.isReady = true ∧ t.result = f.outcome := by
  have hends : f.Ends t := h.calls i _ hc
  exact ⟨hends.2.1.1, hends.2.2⟩

end Hosted

end Frame

end TaskDispatch
