/-
The frame of one input of a fan-in.

The fan-in itself makes two of the calls of such a frame: the first one, which starts
it, and one that takes its task.

Until the first call has claimed the frame nobody else can call it, for nobody else
has its waker.  So that call polls the task, and when it returns, the task has ended
and its notifier is done, or a poll of it has suspended (`FirstCall`).  A call for the
task that comes once the frame is completed, and is the only one of its kind, gets it
(`TakenBy`).
-/
import TaskDispatch.Proofs.Frame.Hosted
import TaskDispatch.Proofs.Frame.Wake

namespace TaskDispatch.Frame

variable {β α : Type} {x x' : Shared β α} {c c' : Call β α}

/-- Whether the call is one for the task. -/
def Call.fetches (c : Call β α) : Bool :=
  match c.place with
  | .taking | .moving | .took _ => true
  | .resuming _ | .inPoll _ | .unwound | .inNotifier => false

/-- A call stays of its kind. -/
theorem Moves.fetches (h : Moves x c x' c') : c'.fetches = c.fetches := by
  cases h <;> rfl

theorem Call.fetches_of_takes (h : c.takes = true) : c.fetches = true := by
  obtain ⟨place, n⟩ := c
  cases place with
  | moving | took t => rfl
  | _ => cases h

namespace Hosted

variable {f f' : Hosted β α} {a : Callers.Act β α} {i : Nat}

/-- Nobody has called the frame yet. -/
def Fresh (f : Hosted β α) : Prop := f = .start f.input

/-- The first call has returned. -/
def Started (f : Hosted β α) : Prop := ∃ c, f.frame.calls[0]? = some c ∧ c.returned = true

/-- Nobody has called for the task. -/
def Untaken (f : Hosted β α) : Prop := ∀ (j : Nat) c, f.frame.calls[j]? = some c → c.fetches = false

/-- The call with this number has called for the task, alone, and has not been refused. -/
def TakenBy (f : Hosted β α) (i : Nat) : Prop :=
  (∃ p n, f.frame.calls[i]? = some ⟨p, n⟩ ∧ (p = .taking ∨ p = .moving ∨ ∃ t, p = .took (some t))) ∧
    ∀ (j : Nat) c, j ≠ i → f.frame.calls[j]? = some c → c.fetches = false

/-- Only the first call is there, and it has not claimed the frame. -/
def Alone (f : Hosted β α) : Prop :=
  f.frame.calls.length = 1 ∧ f.frame.shared.word = .idle ∧ f.frame.shared.polls = 0

/-- What is known when the first call is at a place; `told` says that the notifier is done. -/
def FirstAt (f : Hosted β α) (told : Prop) : Place β α → Prop
  | .resuming .load => f.Alone
  | .resuming (.exchange seen) => seen = .idle ∧ f.Alone
  | .resuming .done => told ∨ f.hasSuspended = true
  | .taking | .moving | .took _ => False
  | _ => True

/-- There is a first call, and what is known of it. -/
def FirstCall (f : Hosted β α) (told : Prop) : Prop :=
  ∃ c, f.frame.calls[0]? = some c ∧ f.FirstAt told c.place

/-! ### What an act does to the calls -/

/-- What an act can do to a frame: a call begins, or one call moves. -/
inductive Turns (f : Hosted β α) : Callers.Act β α → Hosted β α → Prop
  | resume : Turns f .resume
      { f with frame := { f.frame with calls := f.frame.calls ++ [⟨.resuming .load, 0⟩] } }
  | take : Turns f .take
      { f with frame := { f.frame with calls := f.frame.calls ++ [⟨.taking, 0⟩] } }
  | go (j : Nat) (spurious : Bool) (r : Polled β α) (c c' : Call β α) (x : Shared β α)
    (hc : f.frame.calls[j]? = some c) (hmove : Moves f.frame.shared c x c') (log : List (Polled β α))
    (hlog : f.log <+: log) :
    Turns f (.go j spurious r) { f with frame := ⟨x, f.frame.calls.set j c'⟩, log }

theorem turns_of_step? (h : f.step? a = some f') : Turns f a f' := by
  cases acts_of_step? h with
  | resume => exact .resume
  | take => exact .take
  | go j spurious r c c' x hc hmove => exact .go j spurious r c c' x hc hmove _ (List.prefix_refl _)
  | back j n lent spurious r x c' hc hpoll =>
      exact .go j spurious r _ c' x hc (moves_of_step? hpoll) _ (List.prefix_append _ _)

/-- A poll that has suspended has suspended for good. -/
theorem hasSuspended_mono (h : Turns f a f') (hsuspended : f.hasSuspended = true) :
    f'.hasSuspended = true := by
  cases h with
  | resume => exact hsuspended
  | take => exact hsuspended
  | go j spurious r c c' x hc hmove log hlog =>
      obtain ⟨r, hr, hbody⟩ := List.any_eq_true.mp hsuspended
      exact List.any_eq_true.mpr ⟨r, hlog.subset hr, hbody⟩

/-- A frame that has been called has been called for good. -/
theorem called_of_turns (h : Turns f a f') (hcalled : f.frame.calls ≠ []) : f'.frame.calls ≠ [] := by
  cases h with
  | resume | take => exact List.append_ne_nil_of_left_ne_nil hcalled _
  | go j spurious r c c' x hc hmove log hlog =>
      rw [ne_eq, List.set_eq_nil_iff]
      exact hcalled

theorem called_of_resume (h : Turns f .resume f') : f'.frame.calls ≠ [] := by
  cases h with
  | resume => exact List.append_ne_nil_of_right_ne_nil _ nofun

/-- A call that has returned stays the first. -/
theorem Started.step (h : f.Started) (hturn : Turns f a f') : f'.Started := by
  obtain ⟨c, hc, hreturned⟩ := h
  have hpos : 0 < f.frame.calls.length := (List.getElem?_eq_some_iff.mp hc).1
  cases hturn with
  | resume => exact ⟨c, by rw [List.getElem?_append_left hpos]; exact hc, hreturned⟩
  | take => exact ⟨c, by rw [List.getElem?_append_left hpos]; exact hc, hreturned⟩
  | go j spurious r d d' x hd hmove log hlog =>
      have hne : c ≠ d := by
        rintro rfl
        rw [hmove.not_returned] at hreturned
        cases hreturned
      exact ⟨c, getElem?_set_of_ne hc hd hne, hreturned⟩

theorem Untaken.step (h : f.Untaken) (hturn : Turns f a f') (ha : a ≠ .take) : f'.Untaken := by
  intro j d hd
  cases hturn with
  | resume =>
      rcases getElem?_of_join hd with rfl | hold
      · rfl
      · exact h j d hold
  | take => exact absurd rfl ha
  | go i spurious r c c' x hc hmove log hlog =>
      rcases getElem?_of_set hd with ⟨-, rfl⟩ | ⟨-, hold⟩
      · rw [hmove.fetches]
        exact h i c hc
      · exact h j d hold

/-- The first to call for the task is alone. -/
theorem Untaken.take (h : f.Untaken) (hturn : Turns f .take f') : f'.TakenBy f.frame.calls.length := by
  cases hturn with
  | take =>
      refine ⟨⟨.taking, 0, by simp, Or.inl rfl⟩, ?_⟩
      intro j c hj hc
      rw [List.getElem?_append] at hc
      split at hc
      · exact h j c hc
      · next hlt =>
          have hone := (List.getElem?_eq_some_iff.mp hc).1
          rw [List.length_singleton] at hone
          omega

/-- While the only call for the task of a completed frame has not been answered, nobody has taken it. -/
theorem TakenBy.completed (h : f.TakenBy i) (owned : Owned f.frame) (hdone : f.isCompleted = true)
    {n : Nat} (hi : f.frame.calls[i]? = some ⟨.taking, n⟩) : f.frame.shared.word = .completed := by
  have hnone : f.frame.calls.countP Call.takes = 0 := by
    refine List.countP_eq_zero.mpr fun d hd htakes => ?_
    obtain ⟨k, hk⟩ := List.getElem?_of_mem hd
    by_cases hki : k = i
    · rw [hki, hi] at hk
      rw [← Option.some.inj hk] at htakes
      cases htakes
    · have := h.2 k d hki hk
      rw [Call.fetches_of_takes htakes] at this
      cases this
  have htaken := owned.takers
  rw [hnone] at htaken
  have hword : f.frame.shared.word.isCompleted = true := hdone
  cases hw : f.frame.shared.word with
  | completed => rfl
  | taken => simp [hw, Word.isTaken] at htaken
  | _ =>
      rw [hw] at hword
      cases hword

/-- **The only one to call for the task of a completed frame gets it.** -/
theorem TakenBy.step (h : f.TakenBy i) (owned : Owned f.frame) (hdone : f.isCompleted = true)
    (hturn : Turns f a f') (ha : a ≠ .take) : f'.TakenBy i := by
  have hword := fun n => h.completed owned hdone (n := n)
  obtain ⟨⟨p, n, hi, hp⟩, hothers⟩ := h
  have hlt : i < f.frame.calls.length := (List.getElem?_eq_some_iff.mp hi).1
  cases hturn with
  | resume =>
      refine ⟨⟨p, n, by rw [List.getElem?_append_left hlt]; exact hi, hp⟩, ?_⟩
      intro j c hj hc
      rcases getElem?_of_join hc with rfl | hold
      · rfl
      · exact hothers j c hj hold
  | take => exact absurd rfl ha
  | go j spurious r c c' x hc hmove log hlog =>
      refine ⟨?_, ?_⟩
      · by_cases hij : j = i
        · subst hij
          obtain rfl := Option.some.inj (hi.symm.trans hc)
          have hset : (f.frame.calls.set j c')[j]? = some c' := List.getElem?_set_self hlt
          cases hmove with
          | win n hw => exact ⟨_, _, hset, Or.inr (Or.inl rfl)⟩
          | move n => exact ⟨_, _, hset, Or.inr (Or.inr ⟨_, rfl⟩)⟩
          | lose n hw =>
              exact absurd (hword n hi) hw
          | _ => rcases hp with hp | hp | ⟨t, hp⟩ <;> cases hp
        · exact ⟨p, n, by rw [List.getElem?_set_ne hij]; exact hi, hp⟩
      · intro k d hk hd
        rcases getElem?_of_set hd with ⟨rfl, rfl⟩ | ⟨-, hold⟩
        · rw [hmove.fetches]
          exact hothers k c hk hc
        · exact hothers k d hk hold

/-! ### A frame that nobody has called -/

namespace Fresh

theorem calls (h : f.Fresh) : f.frame.calls = [] := by
  rw [h]
  rfl

theorem polls (h : f.Fresh) : f.frame.shared.polls = 0 := by
  rw [h]
  rfl

theorem notices (h : f.Fresh) : f.frame.shared.notices = 0 := by
  rw [h]
  rfl

theorem untaken (h : f.Fresh) : f.Untaken := by
  intro j c hc
  rw [h.calls] at hc
  cases hc

end Fresh

/-- Only the call of the notifier counts as a notice. -/
theorem notices_of_turns (h : Turns f a f')
    (hquiet : ∀ j spurious r c, a = .go j spurious r → f.frame.calls[j]? = some c → c.announces = false) :
    f'.frame.shared.notices = f.frame.shared.notices := by
  cases h with
  | resume => rfl
  | take => rfl
  | go j spurious r c c' x hc hmove log hlog =>
      have hc' := hquiet j spurious r c rfl hc
      cases hmove with
      | notify n => cases hc'
      | _ => rfl

/-! ### The first call -/

/-- The call that starts a frame comes first. -/
theorem Fresh.firstCall (h : f.Fresh) (hturn : Turns f .resume f') (told : Prop) :
    f'.FirstCall told := by
  cases hturn with
  | resume =>
      rw [h]
      exact ⟨_, rfl, rfl, rfl, rfl⟩

theorem FirstAt.mono {told told' : Prop} {p : Place β α} (h : f.FirstAt told p) (himp : told → told') :
    f.FirstAt told' p := by
  cases p with
  | resuming pc =>
      cases pc with
      | done => exact h.imp_left himp
      | _ => exact h
  | _ => exact h

/-- What is known of the first call while somebody else acts: it has claimed the frame, or returned. -/
theorem FirstAt.other {told : Prop} {p : Place β α} (h : f.FirstAt told p) (halone : ¬ f.Alone)
    (hmono : f.hasSuspended = true → f'.hasSuspended = true) : f'.FirstAt told p := by
  cases p with
  | resuming pc =>
      cases pc with
      | load => exact absurd h halone
      | exchange seen => exact absurd h.2 halone
      | done => exact h.imp_right hmono
      | _ => exact h
  | _ => exact h

/-- A frame that waits after a poll has suspended. -/
theorem Waits.hasSuspended {t : Task β α} (h : f.Waits t) (hlog : f.log ≠ []) :
    f.hasSuspended = true := by
  rcases h with ⟨body, hbody, -⟩ | ⟨hnil, -⟩
  · exact hasSuspended_of_body? hbody hlog
  · exact absurd hnil hlog

/-- What is known of the first call after it has moved. -/
theorem FirstAt.go {told : Prop} (h : f.FirstAt told c.place) (kept : f.Kept)
    (hc : f.frame.calls[0]? = some c) (hmove : Moves f.frame.shared c x c') {log : List (Polled β α)}
    (hlog : f.log <+: log) (hleave : c.place = .inNotifier → told) :
    FirstAt { f with frame := ⟨x, f.frame.calls.set 0 c'⟩, log } told c'.place := by
  have hfits := kept.calls 0 c hc
  cases hmove with
  | load n =>
      obtain ⟨hone, hidle, hpolls⟩ := h
      rw [hidle]
      exact ⟨rfl, (List.length_set ..).trans hone, hidle, hpolls⟩
  | fail seen n =>
      obtain ⟨-, hone, hidle, hpolls⟩ := h
      rw [hidle]
      exact ⟨rfl, (List.length_set ..).trans hone, hidle, hpolls⟩
  | mark n hw =>
      obtain ⟨hseen, -⟩ := h
      cases hseen
  | give seen n hw hnone =>
      obtain ⟨rfl, -⟩ := h
      cases hnone
  | retire n hw =>
      obtain ⟨r, hr, hbody⟩ := List.any_eq_true.mp (Waits.hasSuspended hfits.1 hfits.2)
      exact Or.inr (List.any_eq_true.mpr ⟨r, hlog.subset hr, hbody⟩)
  | leave n => exact Or.inl (hleave rfl)
  | win n hw => exact h
  | lose n hw => exact h
  | move n => exact h
  | _ => trivial

/-- **When the first call returns**, the notifier is done or a poll has suspended, whoever else calls the
frame, if the others come after the first poll. -/
theorem FirstCall.step {told : Prop} (h : f.FirstCall told) (kept : f.Kept) (hturn : Turns f a f')
    (hresume : a = .resume → 0 < f.frame.shared.polls) (htake : a = .take → f.Started)
    (hleave : ∀ j spurious r c, a = .go j spurious r → f.frame.calls[j]? = some c →
      c.place = .inNotifier → told) : f'.FirstCall told := by
  obtain ⟨c, hc, hat⟩ := h
  have hpos : 0 < f.frame.calls.length := (List.getElem?_eq_some_iff.mp hc).1
  have hmono := hasSuspended_mono hturn
  cases hturn with
  | resume =>
      refine ⟨c, by rw [List.getElem?_append_left hpos]; exact hc, hat.other ?_ hmono⟩
      rintro ⟨-, -, hpolls⟩
      exact Nat.ne_of_gt (hresume rfl) hpolls
  | take =>
      obtain ⟨d, hd, hreturned⟩ := htake rfl
      obtain rfl := Option.some.inj (hc.symm.trans hd)
      refine ⟨c, by rw [List.getElem?_append_left hpos]; exact hc, ?_⟩
      rw [Call.place_of_returned hreturned] at hat ⊢
      exact hat
  | go j spurious r d d' x hd hmove log hlog =>
      by_cases hj : j = 0
      · subst hj
        obtain rfl := Option.some.inj (hc.symm.trans hd)
        refine ⟨d', List.getElem?_set_self hpos, ?_⟩
        exact hat.go kept hc hmove hlog (hleave 0 spurious r c rfl hc)
      · refine ⟨c, by rw [List.getElem?_set_ne hj]; exact hc, hat.other ?_ hmono⟩
        rintro ⟨hone, -⟩
        have hlt := (List.getElem?_eq_some_iff.mp hd).1
        omega

/-- What the return of the first call says. -/
theorem FirstCall.of_started {told : Prop} (h : f.FirstCall told) (hstarted : f.Started) :
    told ∨ f.hasSuspended = true := by
  obtain ⟨c, hc, hat⟩ := h
  obtain ⟨d, hd, hreturned⟩ := hstarted
  obtain rfl := Option.some.inj (hc.symm.trans hd)
  rw [Call.place_of_returned hreturned] at hat
  exact hat

end Hosted

end TaskDispatch.Frame
