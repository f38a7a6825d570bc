/-
An outcome is replayed, and its value moves out once.

A task that is ready has one outcome: that of the last poll of its body, or the one that it
was made with (`Origin.outcome?`).  Whether somebody has claimed it by then is counted along
with the life of the task (`Life.claimedBy`), so that a task which comes out of a frame or a
fan-in is read like any other, and what it answers is what is left of the outcome
(`Task.Keeps`).
-/
import TaskDispatch.Proofs.Task.Forward
import TaskDispatch.Proofs.Task.Readings

namespace TaskDispatch

open TaskDispatch.Frame (Callers Hosted Lodged)

variable {β α ω : Type} {out : Outcome α} {claimed : Bool}

/-! ### Which outcome it is -/

/-- The outcome that a task made so has after these polls of its body, if it has one. -/
def Origin.outcome? (o : Origin β α) (polls : List (Polled β α)) : Option (Outcome α) :=
  match o with
  | .body _ => polls.getLast?.bind Polled.outcome?
  | .value v => some (.ok v)
  | .error e => some (.error e)

namespace Fits

variable {o : Origin β α} {polls more : List (Polled β α)} {t t' : Task β α}

/-- A task that has nothing to run and is read so keeps the outcome so. -/
theorem keeps_of_result (h : Fits o polls t) (hover : t.begin? = none)
    (hresult : t.result = replayed out claimed) : t.Keeps out claimed := by
  have hkeeps : ∀ cell : Cell α, cell.get = replayed out claimed →
      (⟨some ⟨.completed, none, cell⟩⟩ : Task β α).Keeps out claimed := by
    intro cell hget
    rw [Task.Keeps, Cell.get_injective (hget.trans (Cell.get_left out claimed).symm)]
  cases h with
  | created b | started b next hpolls => cases hover
  | ended b hpolls hlast hcell | given hgiven hcell => exact hkeeps _ hresult

/-- No poll follows after the task has its outcome. -/
theorem eq_nil_of_over (h : Fits o polls t) (hover : t.begin? = none) (h' : Fits o (polls ++ more) t') :
    more = [] := by
  cases h with
  | created b | started b next hpolls => cases hover
  | @ended b polls last cell hpolls hlast hcell =>
      by_cases hmore : more = []
      · exact hmore
      · have hmem : last ∈ (polls ++ [last] ++ more).dropLast := by
          rw [List.dropLast_append_of_ne_nil hmore]
          simp
        rw [h'.suspended_of_mem last hmem] at hlast
        cases hlast
  | given hgiven hcell =>
      rw [List.nil_append] at h'
      cases h' with
      | given _ _ => rfl
      | created b => rfl
      | started b next hpolls | ended b hpolls hlast hcell => cases hgiven

/-- The last poll of a body says what the outcome is. -/
theorem outcome?_of_getLast? (h : Fits o polls t) {r : Polled β α} (hlast : polls.getLast? = some r) :
    o.outcome? polls = r.outcome? := by
  cases h with
  | created b | given hgiven hcell => cases hlast
  | started b next hpolls | ended b hpolls hsuspended hcell =>
      rw [Origin.outcome?, hlast]
      rfl

end Fits

/-- The task was made so, these were the polls of its body, and it has its outcome, claimed or not, unless it
has a body to run. -/
structure Recounts (o : Origin β α) (polls : List (Polled β α)) (claimed : Bool) (t : Task β α) : Prop where
  fits : Fits o polls t
  tells : t.begin? ≠ none ∧ claimed = false ∨ ∃ out, o.outcome? polls = some out ∧ t.Keeps out claimed

namespace Recounts

variable {o : Origin β α} {polls before : List (Polled β α)} {t t' : Task β α}

theorem of_origin (o : Origin β α) : Recounts o [] false o.task where
  fits := .of_origin o
  tells := by
    cases o with
    | body b => exact Or.inl ⟨Option.some_ne_none _, rfl⟩
    | value v => exact Or.inr ⟨.ok v, rfl, rfl⟩
    | error e => exact Or.inr ⟨.error e, rfl, rfl⟩

/-- A poll that ends the body brings the outcome, and one that finds it there leaves it. -/
theorem polled (h : Recounts o polls claimed t) {r : Polled β α} {ready : Bool}
    (hpolled : t.polled r = .ok (ready, t')) : Recounts o (polls ++ t.heard r) claimed t' := by
  obtain ⟨u, hu, hfits⟩ := h.fits.polled r
  obtain ⟨-, rfl⟩ := Prod.mk.inj (Except.ok.inj (hu.symm.trans hpolled))
  refine ⟨hfits, ?_⟩
  rcases h.tells with ⟨hbegin, rfl⟩ | ⟨out, hout, hkeeps⟩
  · obtain hover | ⟨body, hruns⟩ := h.fits.sound
    · exact absurd hover.2 hbegin
    have hheard : t.heard r = [r] := by rw [Task.heard, hruns.begin?]; rfl
    cases hr : r.body? with
    | some next =>
        cases r with
        | suspended b =>
            obtain ⟨v, hv, hruns'⟩ := hruns.suspended b
            obtain ⟨-, rfl⟩ := Prod.mk.inj (Except.ok.inj (hv.symm.trans hpolled))
            have hmore : v.begin? ≠ none := by
              rw [hruns'.begin?]
              exact Option.some_ne_none _
            exact Or.inl ⟨hmore, rfl⟩
        | ended outcome | panicked p => cases hr
    | none =>
        obtain ⟨out, hout⟩ := Polled.exists_outcome hr
        obtain ⟨v, hv, hkeeps⟩ := hruns.keeps hout
        obtain ⟨-, rfl⟩ := Prod.mk.inj (Except.ok.inj (hv.symm.trans hpolled))
        refine Or.inr ⟨out, ?_, hkeeps⟩
        rw [hheard] at hfits ⊢
        rw [hfits.outcome?_of_getLast? List.getLast?_concat, hout]
  · have hsame := hkeeps.isOver.polled r
    obtain ⟨-, rfl⟩ := Prod.mk.inj (Except.ok.inj (hsame.symm.trans hpolled))
    have hheard : t.heard r = [] := by simp [Task.heard, hkeeps.isOver.2]
    rw [hheard, List.append_nil]
    exact Or.inr ⟨out, hout, hkeeps⟩

/-- Whoever awaits the task by value claims the outcome, if it is there. -/
theorem leave (h : Recounts o polls claimed t) (byValue : Bool) :
    Recounts o polls (claimed || t.isReady && byValue) (Life.leave byValue t) := by
  refine ⟨h.fits.leave byValue, ?_⟩
  rw [Life.leave]
  by_cases hclaims : (t.isReady && byValue) = true
  · rw [if_pos hclaims, hclaims, Bool.or_true]
    have hover : t.begin? = none := h.fits.isReady_iff.mp (Bool.and_eq_true_iff.mp hclaims).1
    rcases h.tells with ⟨hbegin, -⟩ | ⟨out, hout, hkeeps⟩
    · exact absurd hover hbegin
    · exact Or.inr ⟨out, hout, hkeeps.takeOutcome.2⟩
  · rw [if_neg hclaims, Bool.eq_false_iff.mpr hclaims, Bool.or_false]
    exact h.tells

/-- **Whoever takes the task out of a frame** gets the outcome of the last poll there, or the one with which
it came. -/
theorem of_took {f : Hosted β α} (h : Lodged o before f) (hinput : Recounts o before claimed f.input)
    {c : Frame.Call β α} (hc : c ∈ f.frame.calls) (htook : c.place = .took (some t)) :
    Recounts o (before ++ f.log) claimed t := by
  have hfits := h.of_took hc htook
  obtain ⟨i, hi⟩ := List.getElem?_of_mem hc
  obtain ⟨hnone, hover, hresult⟩ : f.Ends t := by
    have hknows := h.kept.calls i c hi
    rwa [Hosted.Fits, htook] at hknows
  refine ⟨hfits, ?_⟩
  cases hlast : f.log.getLast? with
  | none =>
      have hlog : f.log = [] := List.getLast?_eq_none_iff.mp hlast
      rw [Hosted.outcome, hlast] at hresult
      rw [Hosted.body?, hlast] at hnone
      rw [hlog, List.append_nil] at hfits ⊢
      rcases hinput.tells with ⟨hbegin, -⟩ | ⟨out, hout, hkeeps⟩
      · obtain hidle | ⟨body, hruns⟩ := hinput.fits.sound
        · exact absurd hidle.2 hbegin
        · rw [hruns.body?] at hnone
          cases hnone
      · exact Or.inr ⟨out, hout, hfits.keeps_of_result hover.2 (hresult.trans hkeeps.result)⟩
  | some r =>
      rw [Hosted.outcome, hlast] at hresult
      rw [Hosted.body?, hlast] at hnone
      obtain ⟨out, hout⟩ := Polled.exists_outcome hnone
      -- A poll of the body has ended in the frame, so the task came with a body.
      have hfresh : claimed = false := by
        rcases hinput.tells with ⟨-, hfalse⟩ | ⟨_, -, hkeeps⟩
        · exact hfalse
        · rw [hinput.fits.eq_nil_of_over hkeeps.isOver.2 hfits] at hlast
          cases hlast
      subst hfresh
      refine Or.inr ⟨out, ?_, hfits.keeps_of_result hover.2 (hresult.trans ?_)⟩
      · have hend : (before ++ f.log).getLast? = some r := by
          rw [List.getLast?_append, hlast]
          rfl
        rw [hfits.outcome?_of_getLast? hend, hout]
      · simp only [hout, Option.elim_some]
        cases out <;> rfl

end Recounts

namespace Life

variable {o : Origin β α} {s t : Life β α ω} {acts : List (Act β α ω)}

/-- Whether an act takes the outcome away: somebody polls the task by value, and it is ready then. -/
def claims (s : Life β α ω) : Act β α ω → Bool
  | .poll k byValue r =>
    match s.slots[k]? with
    | none => false
    | some u => !u.isEmpty && byValue && (u.polled r).toOption.any (·.1)
  | _ => false

/-- Whether one of these acts, one after another, takes the outcome away. -/
def claimedBy (s : Life β α ω) : List (Act β α ω) → Bool
  | [] => false
  | a :: rest => s.claims a || (s.step? a).any (·.claimedBy rest)

/-- What is known of the outcome, wherever the task is. -/
def Recalls (o : Origin β α) (claimed : Bool) (s : Life β α ω) : Prop :=
  match s.lodging with
  | .none => ∀ u ∈ s.slots, u = .empty ∨ Recounts o s.before claimed u
  | .frame f => Recounts o s.before claimed f.input
  | .fanIn i g => ∀ f, g.hosts[i]? = some f → Recounts o s.before claimed f.input

theorem recalls_start (o : Origin β α) : Recalls o false (start o : Life β α ω) := by
  intro u hu
  obtain rfl := List.mem_singleton.mp hu
  exact Or.inr (.of_origin o)

namespace Recalls

/-- A task that has moved in nowhere and is not empty is known. -/
theorem recounts (h : Recalls o claimed s) (hnone : s.lodging = .none) {k : Nat} {u : Task β α}
    (hu : s.slots[k]? = some u) (hsome : u.isEmpty = false) : Recounts o s.before claimed u := by
  rw [Recalls, hnone] at h
  rcases h u (List.mem_of_getElem? hu) with rfl | hrecounts
  · cases hsome
  · exact hrecounts

/-- One task comes into a new slot, and all others are empty. -/
theorem of_concat {slots : List (Task β α)} {before : List (Polled β α)} {u : Task β α}
    (hslots : ∀ v ∈ slots, v = .empty) (hu : Recounts o before claimed u) :
    Recalls o claimed (⟨slots ++ [u], .none, before⟩ : Life β α ω) := by
  intro v hv
  rcases List.mem_append.mp hv with hold | hnew
  · exact Or.inl (hslots v hold)
  · rw [List.mem_singleton.mp hnew]
    exact Or.inr hu

theorem poll (h : Recalls o claimed s) (htraced : Traced o s) (byValue : Bool) {k : Nat} {ready : Bool}
    {r : Polled β α} {u u' : Task β α} (hu : s.slots[k]? = some u) (hpolled : u.polled r = .ok (ready, u')) :
    Recalls o (claimed || s.claims (.poll k byValue r))
      { s with slots := s.slots.set k (leave byValue u'), before := s.before ++ u.heard r } := by
  have hclaims : s.claims (.poll k byValue r) = (!u.isEmpty && byValue && ready) := by
    simp [claims, hu, hpolled, Except.toOption]
  rw [hclaims]
  rcases htraced.slot hu with rfl | ⟨hnone, hfits, hothers⟩
  · rw [poll_of_empty byValue hu hpolled, show (Task.empty : Task β α).isEmpty = true from rfl]
    simpa using h
  · have hrecounts := ((h.recounts hnone hu hfits.isEmpty).polled hpolled).leave byValue
    obtain ⟨v, hv, -⟩ := hfits.polled r
    obtain ⟨rfl, rfl⟩ := Prod.mk.inj (Except.ok.inj (hpolled.symm.trans hv))
    rw [hfits.isEmpty, Bool.not_false, Bool.true_and, Bool.and_comm]
    obtain ⟨slots, lodging, before⟩ := s
    obtain rfl : lodging = .none := hnone
    intro w hw
    obtain ⟨j, hj⟩ := List.getElem?_of_mem hw
    rcases getElem?_of_set hj with ⟨-, rfl⟩ | ⟨hne, hold⟩
    · exact Or.inr hrecounts
    · exact Or.inl (hothers j w hold hne)

theorem move (h : Recalls o claimed s) {k : Nat} {u : Task β α} (hu : s.slots[k]? = some u) :
    Recalls o claimed { s with slots := s.slots.set k .empty ++ [u] } := by
  obtain ⟨slots, lodging, before⟩ := s
  cases lodging with
  | none =>
      intro w hw
      rcases List.mem_append.mp hw with hset | hnew
      · rcases mem_of_mem_set hset with rfl | hold
        · exact Or.inl rfl
        · exact h w hold
      · rw [List.mem_singleton.mp hnew]
        exact h u (List.mem_of_getElem? hu)
  | frame f => exact h
  | fanIn i g => exact h

/-- **Every act keeps what is known of the outcome**, and claims it or leaves it. -/
theorem step (h : Recalls o claimed s) (htraced : Traced o s) {a : Act β α ω} (hstep : s.step? a = some t) :
    Recalls o (claimed || s.claims a) t := by
  have hidle : s.claims a = false → Recalls o claimed t → Recalls o (claimed || s.claims a) t := by
    intro hfalse ht
    rwa [hfalse, Bool.or_false]
  cases turns_of_step? hstep with
  | poll k byValue r u u' ready hu hpolled => exact h.poll htraced byValue hu hpolled
  | move k u hu => exact hidle rfl (h.move hu)
  | enterFrame k u hnone hu hsome => exact hidle rfl (h.recounts hnone hu hsome)
  | enterFanIn k lefts rights u hnone hu hsome =>
      refine hidle rfl fun f hf => ?_
      have hhost : f = .start u := by
        simpa [Gathering.start] using hf.symm
      rw [hhost]
      exact h.recounts hnone hu hsome
  | inFrame a f f' hf hgo =>
      refine hidle rfl ?_
      rw [Recalls, hf] at h
      have hinput : f'.input = f.input := (Hosted.of_step? hgo).1
      show Recounts o s.before claimed f'.input
      rw [hinput]
      exact h
  | inFanIn a i g g' hg hgo =>
      refine hidle rfl fun e he => ?_
      cases htraced with
      | held k t ht hfits hothers => cases hg
      | framed hslots hlodged => cases hg
      | gathered f hslots hseated =>
          cases hg
          obtain ⟨f', hseated', hsame⟩ := hseated.step hgo
          obtain rfl := Option.some.inj (hseated'.host.symm.trans he)
          have hinput : f'.input = f.input := by
            rcases hsame with rfl | ⟨b, hb⟩
            · rfl
            · exact (Hosted.of_step? hb).1
          rw [hinput]
          exact h f hseated.host
  | leaveFrame f j n u hf hc =>
      refine hidle rfl ?_
      cases htraced with
      | held k t ht hfits hothers => cases hf
      | gathered f hslots hseated => cases hf
      | framed hslots hlodged =>
          cases hf
          exact .of_concat hslots (.of_took hlodged h (List.mem_of_getElem? hc) rfl)
  | leaveFanIn i g outs u hg hstage hu =>
      refine hidle rfl ?_
      cases htraced with
      | held k t ht hfits hothers => cases hg
      | framed hslots hlodged => cases hg
      | gathered f hslots hseated =>
          cases hg
          obtain ⟨c, hc, htook⟩ := hseated.outs u (by rw [hstage]; exact hu)
          have hrecounts := Recounts.of_took hseated.lodged (h f hseated.host) hc htook
          refine .of_concat hslots ?_
          simpa [polls, Lodging.log, hseated.host] using hrecounts

/-- Any acts keep it. -/
theorem after (h : Recalls o claimed s) (htraced : Traced o s) (hacts : after? step? s acts = some t) : Recalls o (claimed || s.claimedBy acts) t := by
  induction acts generalizing s claimed with
  | nil =>
      obtain rfl := Option.some.inj hacts
      rw [claimedBy, Bool.or_false]
      exact h
  | cons a rest ih =>
      rw [after?] at hacts
      cases hstep : s.step? a with
      | none => simp [hstep] at hacts
      | some u =>
          rw [hstep] at hacts
          rw [claimedBy, hstep, Option.any_some, ← Bool.or_assoc]
          exact ih (h.step htraced hstep) (htraced.step (turns_of_step? hstep)).1 hacts

end Recalls

/-- A ready task in a slot keeps the outcome that its body came to, or that it was made with, and whether it
has been claimed is told by the acts so far. -/
theorem exists_keeps (h : after? step? (start o) acts = some s) {u : Task β α} (hu : u ∈ s.slots)
    (hsome : u.isEmpty = false) (hready : u.isReady = true) :
    ∃ out, o.outcome? s.polls = some out ∧ u.Keeps out ((start o : Life β α ω).claimedBy acts) := by
  have htraced : Traced o s := (Traced.of_leads (.of_after? acts h) (traced_start o)).1
  have hrecalls : Recalls o ((start o : Life β α ω).claimedBy acts) s := by
    simpa using (recalls_start o).after (traced_start o) h
  obtain ⟨k, hk⟩ := List.getElem?_of_mem hu
  obtain rfl | ⟨hnone, hfits, -⟩ := htraced.slot hk
  · cases hsome
  · have hpolls : s.polls = s.before := by simp [polls, hnone, Lodging.log]
    rcases (hrecalls.recounts hnone hk hsome).tells with ⟨hbegin, -⟩ | ⟨out, hout, hkeeps⟩
    · exact absurd (hfits.isReady_iff.mp hready) hbegin
    · exact ⟨out, by rw [hpolls, hout], hkeeps⟩

/-- **An outcome is replayed, and its value moves out once.**  Whatever the task was made with, whatever its
body did, and through any slots, frames and fan-ins: a task that is ready has the outcome to which its body
came at its last poll, or with which it was made.  However it is read from then on,

* it stays ready and has no body to run, and each reading that gives an outcome, the one that uses the task
  up included, gives this one: an error always, and a value unless a poll by value has claimed it before;
  then there is a panic instead;
* no reading but that claim changes the task.

And a cell of its own, whatever is done to it, is written at most once and gives its value away at most once;
one from which was taken while it was empty panics and refuses every outcome from then on. -/
theorem outcome_is_replayed_and_moves_out_once (h : after? step? (start o) acts = some s) {u : Task β α}
    (hu : u ∈ s.slots) (hsome : u.isEmpty = false) (hready : u.isReady = true) :
    (∃ out, o.outcome? s.polls = some out ∧ ∀ (readings : List (Reading β α)) (rd : Reading β α),
      let claimed := (start o : Life β α ω).claimedBy acts || readings.any (·.claims)
      let v := u.after readings
      v.isReady = true ∧ v.begin? = none ∧
      (v.reply rd).1 = rd.told (replayed out claimed) ∧ v.takeOutcome.1 = replayed out claimed ∧
      (rd.claims = false ∨ claimed = true ∨ out.toBool = false → (v.reply rd).2 = v)) ∧
    (∀ (c : Cell α) (deeds : List (Cell.Deed α)),
      (c.history deeds).countP Cell.writes ≤ 1 ∧ (c.history deeds).countP Cell.moves ≤ 1) ∧
    (Cell.empty : Cell α).take.1 = .error .readTooEarly ∧
    ∀ (later : List (Cell.Deed α)) (outcome : Outcome α),
      ((Cell.empty.take.2.after later).complete outcome) = .error .writtenTwice := by
  refine ⟨?_, ?_, rfl, ?_⟩
  · obtain ⟨out, hout, hkeeps⟩ := exists_keeps h hu hsome hready
    refine ⟨out, hout, fun readings rd => ?_⟩
    intro claimed v
    have hv : v.Keeps out claimed := hkeeps.after readings
    obtain ⟨hreply, hleft⟩ := hv.reply rd
    refine ⟨hv.isOver.1, hv.isOver.2, hreply, hv.takeOutcome.1, fun hsame => hv.eq_of_claimed hleft ?_⟩
    rcases hsame with hlooks | hgone | herror
    · exact Or.inl (by rw [hlooks, Bool.or_false])
    · exact Or.inl (by rw [hgone, Bool.true_or])
    · exact Or.inr herror
  · intro c deeds
    have hwrites := Nat.le_trans (c.countP_writes_le deeds) (Bool.toNat_le _)
    have hmoves := Nat.le_trans (c.countP_moves_le deeds) (Bool.toNat_le _)
    exact ⟨hwrites, hmoves⟩
  · intro later outcome
    exact Cell.complete_of_isEmpty_eq_false (Cell.isEmpty_after rfl later) outcome

/-- The body ends with 7 in a fan-in, which hands the task to a second slot.  There the outcome is looked at
and awaited by value twice: the first gets the 7 and the second panics. -/
theorem outcome_is_replayed_and_moves_out_once_after_a_fan_in :
    let call (j : Nat) : Act Nat Nat Nat := .inFanIn (.call 0 j false (.ended (.ok 7)))
    let advance : Act Nat Nat Nat := .inFanIn .advance
    let acts : List (Act Nat Nat Nat) := [.enterFanIn 0 [] [], .inFanIn (.poll 8), advance, advance] ++
      List.replicate 6 (call 0) ++ [.inFanIn (.notify 0), call 0] ++ List.replicate 7 advance ++
      [call 1, call 1, advance, advance, .leaveFanIn]
    let u : Task Nat Nat := ⟨some ⟨.completed, none, .value 7⟩⟩
    let claim : Reading Nat Nat := .claim (.ended (.ok 8))
    after? step? (start (.body 0)) acts =
        some { slots := [.empty, u], before := [.ended (.ok 7)] } ∧
      u.isEmpty = false ∧ u.isReady = true ∧
      (u.reply .look).1 = .outcome (.ok (.ok 7)) ∧
      ((u.after [.look]).reply claim).1 = .outcome (.ok (.ok 7)) ∧
      ((u.after [.look, claim]).reply claim).1 = .outcome (.error .alreadyTaken) ∧
      ((u.after [.look, claim]).reply claim).2 = u.after [.look, claim] ∧
      ∀ c : Cell Nat, (c.history [.complete (.ok 1), .complete (.ok 2)]).countP Cell.writes ≤ 1 := by
  intro call advance acts u claim
  have h : after? step? (start (.body 0)) acts =
      some { slots := [.empty, u], before := [.ended (.ok 7)] } := rfl
  obtain ⟨⟨out, hout, hread⟩, hcell, -⟩ :=
    outcome_is_replayed_and_moves_out_once (u := u) h (by simp) rfl rfl
  obtain rfl : out = .ok 7 := (Option.some.inj hout).symm
  obtain ⟨-, -, hfirst, -⟩ := hread [] .look
  obtain ⟨-, -, hsecond, -⟩ := hread [.look] claim
  obtain ⟨-, -, hthird, -, hsame⟩ := hread [.look, claim] claim
  exact ⟨h, rfl, rfl, hfirst, hsecond, hthird, hsame (Or.inr (Or.inl rfl)), fun c => (hcell c _).1⟩

end Life

end TaskDispatch
