/-
Who may touch the task of a frame.

The task is guarded by nothing but the frame's word.  `Owned` says how the word and
the places of all callers hang together: while it is `running` or `notified` exactly
one call owns the task, and else none does; once the task is completed the notifier
has been called or one call is about to call it; and as soon as the word is `taken`
exactly one call moves the task out, or has.

Each clause is a count, and one step of one call changes both sides of it by the
same amount.  That polls exclude each other, that nothing is polled or told twice,
and that an owner never finds a word it cannot explain, are read off the counts.
-/
import TaskDispatch.Proofs.Frame.Callers

namespace TaskDispatch.Frame

variable {β α : Type} {x x' : Shared β α} {c c' : Call β α}

/-! ### The word -/

theorem not_isTaken_of_isHeld {w : Word} (h : w.isHeld = true) : w.isTaken = false := by
  cases w with
  | running | notified => rfl
  | _ => cases h

theorem not_isCompleted_of_isHeld {w : Word} (h : w.isHeld = true) : w.isCompleted = false := by
  cases w with
  | running | notified => rfl
  | _ => cases h

theorem isCompleted_of_isTaken {w : Word} (h : w.isTaken = true) : w.isCompleted = true := by
  cases w with
  | taken => rfl
  | _ => cases h

/-! ### What one step does to the counts -/

/-- A call never owns the task because of what it has seen. -/
theorem owns_seeing (w : Word) (n : Nat) :
    (⟨.resuming (.seeing w), n⟩ : Call β α).owns = false := by
  cases w <;> rfl

theorem announces_seeing (w : Word) (n : Nat) :
    (⟨.resuming (.seeing w), n⟩ : Call β α).announces = false := by
  cases w <;> rfl

theorem takes_seeing (w : Word) (n : Nat) :
    (⟨.resuming (.seeing w), n⟩ : Call β α).takes = false := by
  cases w <;> rfl

/-- A step that makes the call the owner puts the word into owned state, and a step that makes it give
the task up takes the word out of it. -/
theorem Moves.owner (h : Moves x c x' c') (hown : c.owns = true → x.word.isHeld = true) :
    c'.owns.toNat + x.word.isHeld.toNat = c.owns.toNat + x'.word.isHeld.toNat := by
  cases h with
  | load n => rw [owns_seeing]; rfl
  | fail seen n => rw [owns_seeing]; rfl
  | claim n hw => rw [hw]; rfl
  | mark n hw => rw [hw]; rfl
  | retire n hw => rw [hw]; rfl
  | win n hw => rw [hw]; rfl
  | renew n => rw [hown rfl]; rfl
  | publish n => rw [hown rfl]; rfl
  | breaks n hw =>
      rw [hown rfl] at hw
      cases hw
  | _ => rfl

/-- The word becomes `taken` with the step that makes a call the one that takes. -/
theorem Moves.taker (h : Moves x c x' c') (hown : c.owns = true → x.word.isHeld = true) :
    c'.takes.toNat + x.word.isTaken.toNat = c.takes.toNat + x'.word.isTaken.toNat := by
  cases h with
  | load n => rw [takes_seeing]; rfl
  | fail seen n => rw [takes_seeing]; rfl
  | claim n hw => rw [hw]; rfl
  | mark n hw => rw [hw]; rfl
  | retire n hw => rw [hw]; rfl
  | win n hw => rw [hw]; rfl
  | renew n => rw [not_isTaken_of_isHeld (hown rfl)]; rfl
  | publish n => rw [not_isTaken_of_isHeld (hown rfl)]; rfl
  | _ => rfl

/-- The step that completes the word makes the call owe the notifier its one call. -/
theorem Moves.notice (h : Moves x c x' c') (hown : c.owns = true → x.word.isHeld = true) :
    x'.notices + c'.announces.toNat + x.word.isCompleted.toNat
      = x.notices + c.announces.toNat + x'.word.isCompleted.toNat := by
  cases h with
  | load n => rw [announces_seeing]; rfl
  | fail seen n => rw [announces_seeing]; rfl
  | claim n hw => rw [hw]; rfl
  | mark n hw => rw [hw]; rfl
  | retire n hw => rw [hw]; rfl
  | win n hw => rw [hw]; rfl
  | renew n => rw [not_isCompleted_of_isHeld (hown rfl)]; rfl
  | publish n => rw [not_isCompleted_of_isHeld (hown rfl)]; rfl
  | _ => rfl

/-- An owner finds `running` or `notified` when its poll has ended. -/
theorem Moves.unbroken (h : Moves x c x' c') (hown : c.owns = true → x.word.isHeld = true) :
    c'.place ≠ .resuming .broken := by
  cases h with
  | load n => cases hw : x.word <;> intro hp <;> cases hp
  | fail seen n => cases hw : x.word <;> intro hp <;> cases hp
  | breaks n hw =>
      rw [hown rfl] at hw
      cases hw
  | _ =>
      intro hp
      cases hp

/-- Only an owner begins a poll or puts the word back: nothing else moves a completed frame on. -/
theorem Moves.settled (h : Moves x c x' c') (hidle : c.owns = false)
    (hdone : x.word.isCompleted = true) :
    x'.word.isCompleted = true ∧ x'.polls = x.polls := by
  cases h with
  | claim n hw =>
      rw [hw] at hdone
      cases hdone
  | mark n hw =>
      rw [hw] at hdone
      cases hdone
  | win n hw => exact ⟨rfl, rfl⟩
  | poll n => cases hidle
  | renew n => cases hidle
  | retire n hw => cases hidle
  | publish n => cases hidle
  | _ => exact ⟨hdone, rfl⟩

/-! ### The invariant -/

/-- How the word and the places of all callers hang together. -/
structure Owned (s : Callers β α) : Prop where
  owners : s.calls.countP Call.owns = s.shared.word.isHeld.toNat
  takers : s.calls.countP Call.takes = s.shared.word.isTaken.toNat
  told : s.shared.notices + s.calls.countP Call.announces = s.shared.word.isCompleted.toNat
  unbroken : ∀ c ∈ s.calls, c.place ≠ .resuming .broken

theorem owned_start (t : Task β α) : Owned (Callers.start t) where
  owners := rfl
  takers := rfl
  told := rfl
  unbroken c hc := by cases hc

namespace Owned

variable {s s' : Callers β α}

/-- Whoever owns the task has the word in owned state. -/
theorem held_of_owns (h : Owned s) (hc : c ∈ s.calls) (hown : c.owns = true) :
    s.shared.word.isHeld = true :=
  eq_true_of_countP_eq_toNat h.owners hc hown

/-- While the word is not in owned state nobody owns the task. -/
theorem not_owns (h : Owned s) (hc : c ∈ s.calls) (hword : s.shared.word.isHeld = false) :
    c.owns = false := by
  rw [Bool.eq_false_iff]
  intro hown
  rw [h.held_of_owns hc hown] at hword
  cases hword

theorem begin {place : Place β α} (h : Owned s) (hp : place = .resuming .load ∨ place = .taking) :
    Owned { s with calls := s.calls ++ [⟨place, 0⟩] } := by
  have hnone : (⟨place, 0⟩ : Call β α).owns = false ∧ (⟨place, 0⟩ : Call β α).takes = false ∧
      (⟨place, 0⟩ : Call β α).announces = false ∧ place ≠ .resuming .broken := by
    rcases hp with rfl | rfl
    · exact ⟨rfl, rfl, rfl, nofun⟩
    · exact ⟨rfl, rfl, rfl, nofun⟩
  obtain ⟨howns, htakes, hannounces, hplace⟩ := hnone
  refine ⟨?_, ?_, ?_, ?_⟩
  · rw [List.countP_append, h.owners]
    simp [howns]
  · rw [List.countP_append, h.takers]
    simp [htakes]
  · rw [List.countP_append, ← h.told]
    simp [hannounces]
  · intro d hd
    rcases List.mem_append.mp hd with hold | hnew
    · exact h.unbroken d hold
    · rw [List.mem_singleton.mp hnew]
      exact hplace

theorem go {i : Nat} (h : Owned s) (hc : s.calls[i]? = some c) (hmove : Moves s.shared c x c') :
    Owned ⟨x, s.calls.set i c'⟩ := by
  have hown : c.owns = true → s.shared.word.isHeld = true :=
    h.held_of_owns (List.mem_of_getElem? hc)
  refine ⟨?_, ?_, ?_, ?_⟩
  · have hset := countP_set_add Call.owns c' hc
    have hmoved := hmove.owner hown
    have := h.owners
    show (s.calls.set i c').countP Call.owns = x.word.isHeld.toNat
    omega
  · have hset := countP_set_add Call.takes c' hc
    have hmoved := hmove.taker hown
    have := h.takers
    show (s.calls.set i c').countP Call.takes = x.word.isTaken.toNat
    omega
  · have hset := countP_set_add Call.announces c' hc
    have hmoved := hmove.notice hown
    have := h.told
    show x.notices + (s.calls.set i c').countP Call.announces = x.word.isCompleted.toNat
    omega
  · intro d hd
    rcases mem_of_mem_set hd with rfl | hold
    · exact hmove.unbroken hown
    · exact h.unbroken d hold

/-- Every act keeps the frame owned. -/
theorem step (h : Owned s) (hturn : Callers.Turns s s') : Owned s' := by
  cases hturn with
  | begin place hp => exact h.begin hp
  | go i c c' x hc hmove => exact h.go hc hmove

/-- **Every frame anybody can call is owned**, whatever the task and the order of the calls. -/
theorem of_leads {t : Task β α} (h : Leads Callers.step? (Callers.start t) s) : Owned s :=
  h.keeps (fun _ _ _ hs hstep => hs.step (Callers.turns_of_step? hstep)) (owned_start t)

/-! ### What the counts say -/

/-- At most one call is inside a poll. -/
theorem one_polls (h : Owned s) : s.calls.countP Call.polls ≤ 1 := by
  have hle : s.calls.countP Call.polls ≤ s.calls.countP Call.owns :=
    List.countP_mono_left fun _ _ => Call.owns_of_polls
  have := h.owners
  have := Bool.toNat_le s.shared.word.isHeld
  omega

/-- Nobody is inside a poll of a completed task. -/
theorem none_polls (h : Owned s) (hdone : s.shared.word.isCompleted = true) :
    ∀ c ∈ s.calls, c.polls = false := by
  intro c hc
  rw [Bool.eq_false_iff]
  intro hpolls
  have hheld := h.held_of_owns hc (Call.owns_of_polls hpolls)
  rw [not_isCompleted_of_isHeld hheld] at hdone
  cases hdone

/-- Whoever takes the task has completed the word. -/
theorem completed_of_takes (h : Owned s) (hc : c ∈ s.calls) (htakes : c.takes = true) :
    s.shared.word.isCompleted = true :=
  isCompleted_of_isTaken (eq_true_of_countP_eq_toNat h.takers hc htakes)

/-- A completed task stays completed, and no poll of it begins. -/
theorem settled (h : Owned s) (hdone : s.shared.word.isCompleted = true)
    (hturn : Callers.Turns s s') :
    s'.shared.word.isCompleted = true ∧ s'.shared.polls = s.shared.polls := by
  cases hturn with
  | begin place hp => exact ⟨hdone, rfl⟩
  | go i c c' x hc hmove =>
      have hidle : c.owns = false := by
        refine h.not_owns (List.mem_of_getElem? hc) ?_
        rw [Bool.eq_false_iff]
        intro hheld
        rw [not_isCompleted_of_isHeld hheld] at hdone
        cases hdone
      exact hmove.settled hidle hdone

theorem settled_of_leads (h : Owned s) (hdone : s.shared.word.isCompleted = true)
    (hrun : Leads Callers.step? s s') :
    s'.shared.word.isCompleted = true ∧ s'.shared.polls = s.shared.polls ∧
      ∀ c ∈ s'.calls, c.polls = false := by
  have hkept : Owned s' ∧ s'.shared.word.isCompleted = true ∧ s'.shared.polls = s.shared.polls := by
    refine hrun.keeps (P := fun u => Owned u ∧ u.shared.word.isCompleted = true ∧
      u.shared.polls = s.shared.polls) ?_ ⟨h, hdone, rfl⟩
    intro u a v ⟨hu, hudone, hpolls⟩ hstep
    have hturn := Callers.turns_of_step? hstep
    obtain ⟨hvdone, hsame⟩ := hu.settled hudone hturn
    exact ⟨hu.step hturn, hvdone, hsame.trans hpolls⟩
  obtain ⟨hs', hdone', hpolls⟩ := hkept
  exact ⟨hdone', hpolls, hs'.none_polls hdone'⟩

end Owned

/-- **Polls exclude each other, and completion happens once.**  In every order of any number of calls
that resume the frame or take its task, whatever its body:

* at most one call is inside a poll, and no owner finds a word it cannot explain;
* from the moment a call wins the task, and even from the moment the word is `completed`, nobody is
  inside a poll and no poll ever begins;
* the notifier has been called only if the word is `completed`, at most once, and exactly once unless
  the call that completed the word has still to do it;
* at most one call moves the task out. -/
theorem polls_exclude_and_complete_once (t : Task β α) {s : Callers β α}
    (h : Leads Callers.step? (Callers.start t) s) :
    s.calls.countP Call.polls ≤ 1 ∧
    (∀ c ∈ s.calls, c.place ≠ .resuming .broken) ∧
    (∀ s', Leads Callers.step? s s' →
      (∃ c ∈ s.calls, c.takes = true) ∨ s.shared.word.isCompleted = true →
      s'.shared.polls = s.shared.polls ∧ ∀ c ∈ s'.calls, c.polls = false) ∧
    (0 < s.shared.notices → s.shared.word.isCompleted = true) ∧
    (s.shared.word.isCompleted = true →
      s.shared.notices + s.calls.countP Call.announces = 1) ∧
    s.calls.countP Call.takes ≤ 1 := by
  have hs : Owned s := .of_leads h
  refine ⟨hs.one_polls, hs.unbroken, ?_, ?_, ?_, ?_⟩
  · intro s' hrun hdone
    have hcompleted : s.shared.word.isCompleted = true := by
      rcases hdone with ⟨c, hc, htakes⟩ | hword
      · exact hs.completed_of_takes hc htakes
      · exact hword
    exact (hs.settled_of_leads hcompleted hrun).2
  · intro hpos
    have htold := hs.told
    have hle := Bool.toNat_le s.shared.word.isCompleted
    exact Bool.toNat_eq_one.mp (by omega)
  · intro hdone
    rw [hs.told, hdone]
    rfl
  · rw [hs.takers]
    exact Bool.toNat_le _

/-- A task that ends at its first poll is taken once, by a call that comes while the notifier runs. -/
theorem polls_exclude_and_complete_once_taken :
    let s : Callers Nat Nat :=
      ⟨⟨.taken, .empty, 1, 1⟩,
        [⟨.inNotifier, 0⟩, ⟨.took (some ⟨some ⟨.completed, none, .value 7⟩⟩), 0⟩, ⟨.took none, 0⟩]⟩
    Leads Callers.step? (Callers.start (Task.new 0)) s ∧
      s.calls.countP Call.polls ≤ 1 ∧
      (∀ c ∈ s.calls, c.place ≠ .resuming .broken) ∧
      (∀ s', Leads Callers.step? s s' →
        (∃ c ∈ s.calls, c.takes = true) ∨ s.shared.word.isCompleted = true →
        s'.shared.polls = s.shared.polls ∧ ∀ c ∈ s'.calls, c.polls = false) ∧
      (0 < s.shared.notices → s.shared.word.isCompleted = true) ∧
      (s.shared.word.isCompleted = true →
        s.shared.notices + s.calls.countP Call.announces = 1) ∧
      s.calls.countP Call.takes ≤ 1 := by
  intro s
  have h : Leads Callers.step? (Callers.start (Task.new 0)) s :=
    .of_after? [.resume, .go 0 false (.suspended 0), .go 0 false (.suspended 0),
      .go 0 false (.suspended 0), .go 0 false (.ended (.ok 7)), .go 0 false (.suspended 0),
      .go 0 false (.suspended 0), .take, .take, .go 1 false (.suspended 0),
      .go 2 false (.suspended 0), .go 1 false (.suspended 0)] rfl
  exact ⟨h, polls_exclude_and_complete_once _ h⟩

end TaskDispatch.Frame
