/-
What a suspended body waits for, and who tells it.

A suspended body waits for a leaf, which keeps the waker of its frame while it is shut,
or for a fan-in of its own, which wakes that frame when it is complete.  Once the leaf is
open, or the fan-in has woken somebody, the frame is *roused*: a wake of it is on its
way, or a call of it has not looked at the word since the latest poll began.  By what
frames keep, another poll then begins before the frame is idle again.

`Tends` says this of one frame, together with what its body will come to.  It looks at
its own fan-ins and wakes alone: `Later` says what the acts of others leave of them, and
`Tends.later` that this is enough.
-/
import TaskDispatch.Proofs.Tree.Seats

namespace TaskDispatch

/-! ### One frame -/

namespace Frame

variable {β α : Type} {x x' : Shared β α} {c c' : Call β α}

/-- Whether the call is in a poll of a body. -/
def Call.visits (c : Call β α) : Bool :=
  match c.place with
  | .inPoll lent => lent.begin?.isSome
  | _ => false

theorem Call.polls_of_visits (h : c.visits = true) : c.polls = true := by
  obtain ⟨place, n⟩ := c
  cases place with
  | inPoll lent => rfl
  | _ => cases h

/-- Only the step that begins a poll goes into a body. -/
theorem Moves.visits (h : Moves x c x' c') (hbegin : c.place ≠ .resuming .polling) :
    c'.visits = false := by
  cases h with
  | poll n => exact absurd rfl hbegin
  | _ => rfl

/-- Only the step that begins a poll counts as one. -/
theorem Moves.polls_eq (h : Moves x c x' c') (hbegin : c.place ≠ .resuming .polling) :
    x'.polls = x.polls := by
  cases h with
  | poll n => exact absurd rfl hbegin
  | _ => rfl

/-- A call that is yet to look at the word, or has looked since the latest poll began, stays one that has. -/
theorem Moves.rouses (h : Moves x c x' c') (hbegin : c.place ≠ .resuming .polling)
    (hc : c.place = .resuming .load ∨ x.polls ≤ c.lookedAt) :
    c'.place = .resuming .load ∨ x.polls ≤ c'.lookedAt := by
  cases h with
  | load n => exact Or.inr (Nat.le_refl _)
  | fail seen n => exact Or.inr (Nat.le_refl _)
  | claim n hw => exact Or.inr (Nat.le_refl _)
  | mark n hw => exact Or.inr (Nat.le_refl _)
  | give seen n hw hnone => exact Or.inr (Nat.le_refl _)
  | poll n => exact absurd rfl hbegin
  | _ => exact Or.inr (hc.resolve_left nofun)

namespace Hosted

variable {f f' : Hosted β α} {a : Callers.Act β α}

/-- Some call is yet to look at the word, or has looked at it since the latest poll began. -/
def Roused (f : Hosted β α) : Prop :=
  ∃ c ∈ f.frame.calls, c.place = .resuming .load ∨ f.frame.shared.polls ≤ c.lookedAt

/-- What an act leaves of a frame that neither begins nor ends a poll of a body. -/
structure Aside (f f' : Hosted β α) : Prop where
  input : f'.input = f.input
  log : f'.log = f.log
  visits : f'.frame.calls.countP Call.visits = f.frame.calls.countP Call.visits
  roused : f.Roused → f'.Roused

theorem Aside.refl (f : Hosted β α) : f.Aside f := ⟨rfl, rfl, rfl, id⟩

/-- One more call leaves the polls of the body alone. -/
theorem aside_of_begin (h : f.step? a = some f') (ha : a = .resume ∨ a = .take) : f.Aside f' := by
  have hroused : ∀ c, f.Roused → Roused { f with frame := { f.frame with calls := f.frame.calls ++ [c] } } :=
    fun c ⟨d, hd, hlooks⟩ => ⟨d, List.mem_append_left _ hd, hlooks⟩
  have hlog := (of_step? h).2.2
  rcases ha with rfl | rfl
  · rw [heard, List.append_nil] at hlog
    cases turns_of_step? h
    exact ⟨rfl, rfl, by simp [Call.visits], hroused _⟩
  · rw [heard, List.append_nil] at hlog
    cases turns_of_step? h
    exact ⟨rfl, rfl, by simp [Call.visits], hroused _⟩

/-- A frame that is woken is roused. -/
theorem roused_of_resume (h : f.step? .resume = some f') : f'.Roused := by
  cases turns_of_step? h
  exact ⟨_, List.mem_append_right _ (List.mem_singleton.mpr rfl), Or.inl rfl⟩

/-- A roused frame stays roused until the next poll begins. -/
theorem Roused.go (h : f.Roused) {j : Nat} {spurious : Bool} {r : Polled β α}
    (hstep : f.step? (.go j spurious r) = some f') (hc : f.frame.calls[j]? = some c)
    (hbegin : c.place ≠ .resuming .polling) : f'.Roused := by
  cases turns_of_step? hstep with
  | go _ _ _ d d' x hd hmove log hprefix =>
      obtain rfl := Option.some.inj (hc.symm.trans hd)
      have hstays := exists_mem_set
        (P := fun c : Call β α => c.place = .resuming .load ∨ f.frame.shared.polls ≤ c.lookedAt) hc h
        (hmove.rouses hbegin)
      simpa only [Roused, hmove.polls_eq hbegin] using hstays

/-- A step of a call leaves the polls of the body alone, unless it begins or ends one. -/
theorem aside_of_go {j : Nat} {spurious : Bool} {r : Polled β α} (h : f.step? (.go j spurious r) = some f')
    (hc : f.frame.calls[j]? = some c) (hbegin : c.place ≠ .resuming .polling) (hback : c.visits = false) :
    f.Aside f' := by
  have hlog : f'.log = f.log := by
    rw [(of_step? h).2.2]
    obtain ⟨place, n⟩ := c
    cases place with
    | inPoll lent =>
        have hnone : lent.begin?.isSome = false := hback
        simp [heard, hc, hnone]
    | _ => simp [heard, hc]
  refine ⟨(of_step? h).1, hlog, ?_, fun hroused => hroused.go h hc hbegin⟩
  cases turns_of_step? h with
  | go _ _ _ d d' x hd hmove log hprefix =>
      obtain rfl := Option.some.inj (hc.symm.trans hd)
      have hcount := countP_set_add Call.visits d' hc
      rw [hback, hmove.visits hbegin] at hcount
      exact hcount

/-- The next poll goes into the body that the latest one has left. -/
theorem Waits.begin? {t : Task β α} (h : f.Waits t) : t.begin?.map Prod.fst = f.body? := by
  rcases h with ⟨body, hbody, hruns⟩ | ⟨hempty, rfl, hover⟩
  · rw [hruns.begin?, hbody]
    rfl
  · rw [hover.2, body?, hempty, List.getLast?_nil, Task.body?_of_begin? hover.2]
    rfl

/-- While a call owns the task that is in no body, nobody is in one. -/
theorem countP_visits_eq_zero (own : Owned f.frame) (hc : c ∈ f.frame.calls) (hown : c.owns = true)
    (hnot : c.visits = false) : f.frame.calls.countP Call.visits = 0 := by
  refine List.countP_eq_zero.mpr fun d hd hvisits => ?_
  have hdown : d.owns = true := Call.owns_of_polls (Call.polls_of_visits hvisits)
  obtain rfl := eq_of_countP_le_one (own.owners ▸ Bool.toNat_le _) hd hc hdown hown
  rw [hnot] at hvisits
  cases hvisits

end Hosted

end Frame

/-! ### The frames of a tree -/

namespace Grove

open TaskDispatch.Frame (Callers Hosted Call)

variable {ℓ α : Type} {s t u : Grove ℓ α} {n : Seat}

/-- A poll of the frame has begun. -/
def Begun (s : Grove ℓ α) (n : Seat) : Prop := ∃ f, s.host? n = some f ∧ 0 < f.frame.shared.polls

/-- A wake of the frame is on its way, or has come since the latest poll began. -/
def Roused (s : Grove ℓ α) (n : Seat) : Prop := n ∈ s.wakes ∨ ∃ f, s.host? n = some f ∧ f.Roused

/-- A suspended body is told when what it waits for is there. -/
def Waits (s : Grove ℓ α) (n : Seat) : Rest ℓ → Prop
  | .leaf l => if s.opened l then s.Roused n else (l, n) ∈ s.kept
  | .fanIn g => ∃ b, s.branches[g]? = some b ∧ b.owner = n ∧ b.fan.stage = .resting ∧
    b.fan.wakers ≠ [] ∧ (b.fan.roll.wakes ≠ [] → s.Roused n)

/-- Nobody polls the frame's own fan-in. -/
def Idle (s : Grove ℓ α) (n : Seat) (g : Nat) : Prop :=
  ∃ b, s.branches[g]? = some b ∧ b.owner = n ∧ b.fan.stage = .resting

/-- The frame polls its own fan-in, and is roused if that has woken it, unless the poll is to find out. -/
def Awaits (s : Grove ℓ α) (n : Seat) (g : Nat) : Prop :=
  ∃ b, s.branches[g]? = some b ∧ b.owner = n ∧ b.fan.wakers ≠ [] ∧
    (b.fan.stage = .resting ∨ b.fan.stage = .counting → b.fan.roll.wakes ≠ [] → s.Roused n)

theorem Moved.idle {m : Seat} {a : Callers.Act (Body ℓ α) α} (h : Moved s t m a) {g : Nat}
    (hidle : s.Idle n g) : t.Idle n g := by
  obtain ⟨b, hb, howner, hstage⟩ := hidle
  obtain ⟨b', hb', haway⟩ := h.branch g b hb
  exact ⟨b', hb', haway.owner.trans howner, haway.stage.trans hstage⟩

/-- What a poll is at. -/
def FocusAt (s : Grove ℓ α) (n : Seat) : Focus ℓ α → Prop
  | .suspended b => ∃ r, b.rest = some r ∧ s.Waits n r
  | .awaits g _ => s.Awaits n g
  | focus => ∀ g, focus.rest = some (.fanIn g) → s.Idle n g

theorem focusAt_of_isPlain {focus : Focus ℓ α} (hplain : focus.isPlain = true)
    (h : ∀ g, focus.rest = some (.fanIn g) → s.Idle n g) : s.FocusAt n focus := by
  cases focus with
  | suspended b | awaits g next => cases hplain
  | body b | asks g next | ended outcome | panicked p => exact h

theorem FocusAt.idle {focus : Focus ℓ α} (h : s.FocusAt n focus) (hplain : focus.isPlain = true) {g : Nat}
    (hg : focus.rest = some (.fanIn g)) : s.Idle n g := by
  cases focus with
  | suspended b | awaits g' next => cases hplain
  | body b | asks g' next | ended outcome | panicked p => exact h g hg

/-- What a poll is at stays known while it takes steps by itself. -/
theorem FocusAt.turn {v w : Visit ℓ α} (h : s.FocusAt n v.focus) (hturn : v.turn? = some w) :
    s.FocusAt n w.focus := by
  rcases Visit.plain_of_turn? hturn with ⟨hfrom, hplain⟩ | ⟨b, b', hv, hw, hrest⟩
  · refine focusAt_of_isPlain hplain fun g hg => ?_
    exact h.idle hfrom ((Visit.eval_of_turn? (F := s.promises) hturn).2 g hg)
  · rw [hv] at h
    rw [hw]
    obtain ⟨r, hr, hwaits⟩ := h
    exact ⟨r, hrest.trans hr, hwaits⟩

/-- How a frame, the poll of its body, and what that body waits for hang together. -/
structure Tends (s : Grove ℓ α) (n : Seat) (f : Hosted (Body ℓ α) α) : Prop where
  visits : f.frame.calls.countP Call.visits = (s.visits n).isSome.toNat
  outcome : ∀ r o, f.log.getLast? = some r → r.outcome? = some o → o = promise f.input
  rests : s.visits n = none → ∀ b, f.body? = some b → b.eval s.promises = promise f.input ∧
    if f.log = [] then ∀ g, b.rest ≠ some (.fanIn g) else ∃ r, b.rest = some r ∧ s.Waits n r
  goes : ∀ v, s.visits n = some v → v.eval s.promises = promise f.input ∧ s.FocusAt n v.focus

/-- While no call is in a poll of the body, none is under way. -/
theorem Tends.quiet {f : Hosted (Body ℓ α) α} (h : s.Tends n f)
    (hnone : f.frame.calls.countP Call.visits = 0) : s.visits n = none := by
  have hvisits := h.visits
  rw [hnone] at hvisits
  cases hv : s.visits n with
  | none => rfl
  | some v =>
      rw [hv] at hvisits
      cases hvisits

/-! ### What others leave of it -/

/-- What the acts of others leave of what a frame looks at. -/
structure Later (s t : Grove ℓ α) (n : Seat) : Prop where
  roused : s.Roused n → t.Roused n
  opened : ∀ l, s.opened l = true → t.opened l = true
  kept : ∀ l, s.opened l = false → (l, n) ∈ s.kept → if t.opened l then t.Roused n else (l, n) ∈ t.kept
  branch : ∀ (g : Nat) b, s.branches[g]? = some b → b.owner = n → ∃ b', t.branches[g]? = some b' ∧
    b'.owner = n ∧ b'.promises = b.promises ∧ b'.fan.stage = b.fan.stage ∧ b'.fan.wakers = b.fan.wakers ∧
    (b'.fan.roll.wakes = b.fan.roll.wakes ∨ t.Roused n)

namespace Later

theorem trans (h₁ : Later s t n) (h₂ : Later t u n) : Later s u n where
  roused h := h₂.roused (h₁.roused h)
  opened l h := h₂.opened l (h₁.opened l h)
  kept l hshut hkept := by
    have hmid := h₁.kept l hshut hkept
    cases hl : t.opened l with
    | true =>
        rw [hl, if_pos rfl] at hmid
        rw [h₂.opened l hl, if_pos rfl]
        exact h₂.roused hmid
    | false =>
        rw [hl, if_neg Bool.false_ne_true] at hmid
        exact h₂.kept l hl hmid
  branch g b hb howner := by
    obtain ⟨b₁, hb₁, howner₁, hpromises₁, hstage₁, hwakers₁, hwakes₁⟩ := h₁.branch g b hb howner
    obtain ⟨b₂, hb₂, howner₂, hpromises₂, hstage₂, hwakers₂, hwakes₂⟩ := h₂.branch g b₁ hb₁ howner₁
    refine ⟨b₂, hb₂, howner₂, hpromises₂.trans hpromises₁, hstage₂.trans hstage₁,
      hwakers₂.trans hwakers₁, ?_⟩
    rcases hwakes₂ with hsame₂ | hroused
    · rcases hwakes₁ with hsame₁ | hroused
      · exact Or.inl (hsame₂.trans hsame₁)
      · exact Or.inr (h₂.roused hroused)
    · exact Or.inr hroused

/-- Nothing changes that a frame looks at. -/
theorem of_same (hwakes : t.wakes = s.wakes) (hhost : t.host? n = s.host? n) (hopened : t.opened = s.opened)
    (hkept : t.kept = s.kept) (hbranches : t.branches = s.branches) : Later s t n where
  roused := by
    rw [Roused, Roused, hwakes, hhost]
    exact id
  opened l hl := by
    rw [hopened]
    exact hl
  kept l hshut hmem := by
    rw [hopened, hshut, if_neg Bool.false_ne_true, hkept]
    exact hmem
  branch g b hb howner := ⟨b, by rw [hbranches]; exact hb, howner, rfl, rfl, rfl, Or.inl rfl⟩

/-- A frame is moved from outside, and if it is this one, it stays roused. -/
theorem of_moved {m : Seat} {a : Callers.Act (Body ℓ α) α} (h : Moved s t m a)
    (hstays : n ≠ m ∨ ∀ f f', s.host? n = some f → t.host? n = some f' → f.Roused → f'.Roused) :
    Later s t n := by
  refine ⟨?_, fun l hl => by rw [h.opened]; exact hl, ?_, ?_⟩
  · rintro (hwake | ⟨f, hf, hroused⟩)
    · exact Or.inl (h.wakes ▸ hwake)
    · by_cases hn : n = m
      · obtain ⟨f₀, f', hf₀, -, hf'⟩ := h.host
        rw [← hn] at hf₀ hf'
        obtain rfl := Option.some.inj (hf.symm.trans hf₀)
        exact Or.inr ⟨f', hf', hstays.resolve_left (fun hne => hne hn) f f' hf hf' hroused⟩
      · exact Or.inr ⟨f, (h.others n hn).trans hf, hroused⟩
  · intro l hshut hkept
    rw [h.opened, hshut, if_neg Bool.false_ne_true, h.kept]
    exact hkept
  · intro g b hb howner
    obtain ⟨b', hb', haway⟩ := h.branch g b hb
    exact ⟨b', hb', haway.owner.trans howner, haway.promises, haway.stage, haway.wakers, Or.inl haway.wakes⟩

theorem waits (h : Later s t n) {r : Rest ℓ} (hw : s.Waits n r) : t.Waits n r := by
  cases r with
  | leaf l =>
      show if t.opened l then _ else _
      cases hl : s.opened l with
      | true =>
          rw [Waits, hl, if_pos rfl] at hw
          rw [h.opened l hl, if_pos rfl]
          exact h.roused hw
      | false =>
          rw [Waits, hl, if_neg Bool.false_ne_true] at hw
          exact h.kept l hl hw
  | fanIn g =>
      obtain ⟨b, hb, howner, hstage, hwakers, hroused⟩ := hw
      obtain ⟨b', hb', howner', -, hstage', hwakers', hwakes⟩ := h.branch g b hb howner
      refine ⟨b', hb', howner', hstage'.trans hstage, by rw [hwakers']; exact hwakers, fun hwoken => ?_⟩
      rcases hwakes with hsame | hthere
      · rw [hsame] at hwoken
        exact h.roused (hroused hwoken)
      · exact hthere

theorem idle (h : Later s t n) {g : Nat} (hidle : s.Idle n g) : t.Idle n g := by
  obtain ⟨b, hb, howner, hstage⟩ := hidle
  obtain ⟨b', hb', howner', -, hstage', -⟩ := h.branch g b hb howner
  exact ⟨b', hb', howner', hstage'.trans hstage⟩

theorem awaits (h : Later s t n) {g : Nat} (hawaits : s.Awaits n g) : t.Awaits n g := by
  obtain ⟨b, hb, howner, hwakers, hroused⟩ := hawaits
  obtain ⟨b', hb', howner', -, hstage', hwakers', hwakes⟩ := h.branch g b hb howner
  refine ⟨b', hb', howner', by rw [hwakers']; exact hwakers, fun hstage hwoken => ?_⟩
  rcases hwakes with hsame | hthere
  · rw [hstage'] at hstage
    rw [hsame] at hwoken
    exact h.roused (hroused hstage hwoken)
  · exact hthere

theorem focusAt (h : Later s t n) {focus : Focus ℓ α} (hfocus : s.FocusAt n focus) : t.FocusAt n focus := by
  cases focus with
  | suspended b =>
      obtain ⟨r, hr, hwaits⟩ := hfocus
      exact ⟨r, hr, h.waits hwaits⟩
  | awaits g next => exact h.awaits hfocus
  | body b | asks g next | ended outcome | panicked p => exact fun g hg => h.idle (hfocus g hg)

/-- A fan-in of the frame's own comes to what it came to before. -/
theorem promises (h : Later s t n) {g : Nat} (hown : ∃ b, s.branches[g]? = some b ∧ b.owner = n) :
    t.promises g = s.promises g := by
  obtain ⟨b, hb, howner⟩ := hown
  obtain ⟨b', hb', -, hpromises, -⟩ := h.branch g b hb howner
  simp [Grove.promises, hb, hb', hpromises]

end Later

/-- The fan-in that a poll is at is the frame's own. -/
theorem FocusAt.own {focus : Focus ℓ α} (h : s.FocusAt n focus) {g : Nat}
    (hg : focus.rest = some (.fanIn g)) : ∃ b, s.branches[g]? = some b ∧ b.owner = n := by
  have hidle : s.Idle n g → ∃ b, s.branches[g]? = some b ∧ b.owner = n := by
    rintro ⟨b, hb, howner, -⟩
    exact ⟨b, hb, howner⟩
  cases focus with
  | suspended b =>
      obtain ⟨r, hr, hwaits⟩ := h
      obtain rfl := Option.some.inj (hr.symm.trans hg)
      obtain ⟨b, hb, howner, -⟩ := hwaits
      exact ⟨b, hb, howner⟩
  | awaits g' next =>
      cases hg
      obtain ⟨b, hb, howner, -⟩ := h
      exact ⟨b, hb, howner⟩
  | body b | asks g' next | ended outcome | panicked p => exact hidle (h g hg)

/-- **A frame is tended to as long as others leave alone what it looks at.** -/
theorem Tends.later {f f' : Hosted (Body ℓ α) α} (h : s.Tends n f) (hlater : Later s t n)
    (hvisits : t.visits n = s.visits n) (haside : f.Aside f') : t.Tends n f' where
  visits := by rw [haside.visits, hvisits, h.visits]
  outcome r o hr ho := by
    rw [haside.log] at hr
    rw [haside.input]
    exact h.outcome r o hr ho
  rests hnone b hb := by
    rw [hvisits] at hnone
    have hbody : f.body? = some b := by
      rw [← hb, Hosted.body?, Hosted.body?, haside.log, haside.input]
    obtain ⟨heval, hwaits⟩ := h.rests hnone b hbody
    rw [haside.log, haside.input]
    by_cases hlog : f.log = []
    · rw [if_pos hlog] at hwaits ⊢
      exact ⟨(b.eval_congr fun g hg => absurd hg (hwaits g)).trans heval, hwaits⟩
    · rw [if_neg hlog] at hwaits ⊢
      obtain ⟨r, hr, hwaits⟩ := hwaits
      refine ⟨(b.eval_congr fun g hg => ?_).trans heval, r, hr, hlater.waits hwaits⟩
      obtain rfl := Option.some.inj (hr.symm.trans hg)
      obtain ⟨b', hb', howner, -⟩ := hwaits
      exact hlater.promises ⟨b', hb', howner⟩
  goes v hv := by
    rw [hvisits] at hv
    obtain ⟨heval, hfocus⟩ := h.goes v hv
    rw [haside.input]
    exact ⟨(v.eval_congr fun g hg => hlater.promises (hfocus.own hg)).trans heval, hlater.focusAt hfocus⟩

end Grove

end TaskDispatch
