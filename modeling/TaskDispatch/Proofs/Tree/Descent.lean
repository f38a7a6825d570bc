/-
A tree left to itself comes to an end.

Each act of the tree's own lowers the first of the cost, the effort and the depth that it
changes (`nearer_of_turns`):

    the caller's acts        the cost; where it finds the latch not set, the effort
    the acts of calls        the effort; the depth where a call finds another word than
                             it has seen
    the polls of bodies      the cost where something is done for good, else the depth
    the acts of fan-ins      the cost, but for a poll that finds nothing: the depth
    the arrival of a wake    the effort
-/
import TaskDispatch.Proofs.Tree.Progress

namespace TaskDispatch.Grove

open TaskDispatch.Frame (Callers Hosted Call)

variable {ℓ α : Type} {s t u : Grove ℓ α} {n : Seat} {tree : Tree ℓ α}

/-! ### The caller and the calls of the frames -/

/-- The caller of `sync_wait` takes a step for good. -/
theorem nearer_of_main {root : Hosted (Body ℓ α) α} {main : Main α} (haside : s.root.Aside root)
    (hrank : main.rank < s.main.rank) : Nearer { s with root, main } s := by
  have hbodies : ∀ m, Grove.bodyCost { s with root, main } m = s.bodyCost m := by
    intro m
    refine bodyCost_eq rfl rfl ?_
    cases m with
    | root => exact body?_of_aside haside
    | input g k => rfl
  have htotal : Grove.total { s with root, main } (Grove.bodyCost { s with root, main }) = s.total s.bodyCost :=
    total_congr (seats_eq fun m => by cases m <;> rfl) hbodies
  refine .of_cost ?_
  simp only [cost, htotal]
  omega

/-- The caller finds the latch not set, and parks. -/
theorem nearer_of_park (hmain : s.main = .waits .looking) : Nearer { s with main := .waits .parked } s := by
  refine .of_effort ?_ ?_
  · simp only [cost, hmain, Main.rank]
    exact Nat.le_refl _
  · simp only [effort, hmain, Main.isLooking, Bool.toNat_true, Bool.toNat_false]
    exact Nat.add_lt_add_right (Nat.add_lt_add_right Nat.zero_lt_one _) _

section

variable {f f' : Hosted (Body ℓ α) α} {c : Call (Body ℓ α) α} {j : Nat} {r : Polled (Body ℓ α) α}

/-- A step of a call lowers the effort, whatever becomes of the poll of the body, or fewer calls have seen a
word that is gone. -/
theorem effort_of_go? (hrooted : Rooted tree s) (hf : s.host? n = some f) (hc : f.frame.calls[j]? = some c)
    (hgo : s.go? n j false r = some t) (v : Option (Visit ℓ α)) :
    (t.setVisit n v).effort < s.effort ∨ c.isStale f.frame.shared.word = true ∧ t.effort ≤ s.effort ∧
      (t.visits = s.visits → t.depth < s.depth) := by
  have hmoved := moved_of_go? hgo
  obtain ⟨f₀, f', hf₀, hstep, hf'⟩ := hmoved.host
  obtain rfl := Option.some.inj (hf.symm.trans hf₀)
  have hstep := (Hosted.of_step? hstep).2.1
  have hn : n ∈ s.seats := mem_seats.mpr (by rw [hf]; rfl)
  have hcalls : t.total t.callEffort + f.frame.effort = s.total s.callEffort + f'.frame.effort := by
    have := total_move (w := s.callEffort) (v := t.callEffort) hmoved.seats
      (fun m hm => by rw [callEffort, callEffort, hmoved.others m hm]) hn
    simpa only [callEffort, hf, hf', Option.elim_some] using this
  rw [effort_setVisit]
  rcases main_of_go? hgo with hmain | ⟨hmain, f₁, c₁, hf₁, hc₁, hannounces⟩
  · rcases Callers.effort_of_go hc (Frame.notified_of_renew (Hosted.leads_frame (hrooted.hosted hf).2)) hstep with
      hlt | ⟨hstale, hle, hlt⟩
    · left
      simp only [effort, hmoved.wakes, hmain]
      omega
    · refine Or.inr ⟨hstale, ?_, fun hvisits => ?_⟩
      · simp only [effort, hmoved.wakes, hmain]
        omega
      · have hdepth : t.total t.visitDepth + f.frame.stale = s.total s.visitDepth + f'.frame.stale := by
          have := total_move (w := s.visitDepth) (v := t.visitDepth) hmoved.seats
            (fun m hm => by rw [visitDepth, visitDepth, hmoved.others m hm, hvisits]) hn
          simp only [visitDepth, hf, hf', hvisits, Option.elim_some] at this
          omega
        simp only [depth, (branches_of_go? hgo).2]
        omega
  · obtain rfl := Option.some.inj (hf.symm.trans hf₁)
    obtain rfl := Option.some.inj (hc.symm.trans hc₁)
    have htwo := Callers.effort_of_announce hc hannounces hstep
    have hone := Bool.toNat_le t.main.isLooking
    left
    simp only [effort, hmoved.wakes]
    omega

/-- A step of a call costs nothing if it costs the body of its frame nothing. -/
theorem cost_of_go? (hf : s.host? n = some f) {spurious : Bool} (hgo : s.go? n j spurious r = some t)
    {v : Option (Visit ℓ α)} (hself : (t.setVisit n v).bodyCost n ≤ s.bodyCost n) :
    (t.setVisit n v).cost ≤ s.cost := by
  have hmoved := moved_of_go? hgo
  have hbodies := total_move (t := t.setVisit n v) (w := s.bodyCost) (v := (t.setVisit n v).bodyCost)
    hmoved.seats (fun m hm => bodyCost_eq (by rw [visits_setVisit_of_ne _ _ hm, hmoved.visits])
      (funext hmoved.promises) (by rw [host?_setVisit, hmoved.others m hm]))
    (mem_seats.mpr (by rw [hf]; rfl))
  have hranks := (branches_of_go? hgo).1
  have hmain : t.main.rank = s.main.rank := by
    rcases main_of_go? hgo with hmain | ⟨hmain, -⟩
    · rw [hmain]
    · rw [hmain, Main.rank_notify]
  have hcost : (t.setVisit n v).cost =
      t.main.rank + (t.setVisit n v).total (t.setVisit n v).bodyCost + (t.branches.map (·.fan.rank)).sum := rfl
  rw [hcost, cost]
  omega

/-- A call takes a step that neither begins nor ends a poll of a body. -/
theorem nearer_of_move (hrooted : Rooted tree s) (hf : s.host? n = some f) (hc : f.frame.calls[j]? = some c)
    (hbegin : c.place ≠ .resuming .polling) (hback : ∀ lent, c.place = .inPoll lent → lent.begin? = none)
    (hgo : s.go? n j false r = some t) : Nearer t s := by
  have hmoved := moved_of_go? hgo
  have hsame : t.setVisit n (t.visits n) = t := setVisit_self rfl
  have hcost : t.cost ≤ s.cost := by
    rw [← hsame]
    refine cost_of_go? hf hgo (Nat.le_of_eq ?_)
    rw [hsame]
    exact hmoved.bodyCost fun _ _ _ hf₁ hf' => body?_of_aside (aside_of_go? hf hc hbegin hback hgo hf₁ hf')
  have heffort := effort_of_go? hrooted hf hc hgo (t.visits n)
  rw [hsame] at heffort
  rcases heffort with hlt | ⟨-, hle, hdepth⟩
  · exact .of_effort hcost hlt
  · exact .of_depth hcost hle (hdepth hmoved.visits)

/-- The poll of a body begins where the latest one has left it. -/
theorem nearer_of_begin (h : Reached tree s) {m : Nat} (hf : s.host? n = some f)
    (hc : f.frame.calls[j]? = some ⟨.resuming .polling, m⟩) (hgo : s.go? n j false r = some t) :
    Nearer (t.setVisit n (f.frame.shared.task.begin?.map fun (b, _) => { focus := .body b })) s := by
  have hmoved := moved_of_go? hgo
  have hkept := h.rooted.kept hf
  obtain ⟨f₀, f', hf₀, hstep, hf'⟩ := hmoved.host
  obtain rfl := Option.some.inj (hf.symm.trans hf₀)
  have hquiet := (h.tended.frame n f hf).quiet
    (Hosted.countP_visits_eq_zero hkept.owned (List.mem_of_getElem? hc) rfl rfl)
  obtain ⟨hinput, -, hlog⟩ := Hosted.of_step? hstep
  rw [Hosted.heard_of_not_polls hc rfl, List.append_nil] at hlog
  have hbegin := Hosted.Waits.begin? (hkept.calls j _ hc)
  have hbody : f'.body? = f.body? := by rw [Hosted.body?, Hosted.body?, hlog, hinput]
  refine .of_effort (cost_of_go? hf hgo (Nat.le_of_eq ?_)) ?_
  · simp only [bodyCost, visits_setVisit_self, host?_setVisit, promises_setVisit, hquiet, hf, hf',
      Option.bind_some, hbody, ← hbegin, funext hmoved.promises]
    cases f.frame.shared.task.begin? with
    | none => rfl
    | some lent => rfl
  · exact (effort_of_go? h.rooted hf hc hgo _).resolve_right fun hstale => Bool.false_ne_true hstale.1

/-- The poll of a body ends, and leaves what is left of the body to the next. -/
theorem nearer_of_back (h : Reached tree s) {m : Nat} {lent : Task (Body ℓ α) α}
    {b : Body ℓ α × Record (Body ℓ α) α} {v : Visit ℓ α} (hf : s.host? n = some f)
    (hc : f.frame.calls[j]? = some ⟨.inPoll lent, m⟩) (hb : lent.begin? = some b)
    (hv : s.visits n = some v) (hr : v.result? = some r) (hgo : s.go? n j false r = some t) :
    Nearer (t.setVisit n none) s := by
  have hmoved := moved_of_go? hgo
  obtain ⟨-, hleft⟩ := Tended.eval_of_result? (F := s.promises) hr
  obtain ⟨f₀, f', hf₀, hstep, hf'⟩ := hmoved.host
  obtain rfl := Option.some.inj (hf.symm.trans hf₀)
  have hlog : f'.log = f.log ++ [r] := by simp [(Hosted.of_step? hstep).2.2, Hosted.heard, hc, hb]
  have hbody : f'.body? = r.body? := by rw [Hosted.body?, hlog, List.getLast?_concat]
  refine .of_effort (cost_of_go? hf hgo ?_) ?_
  · simp only [bodyCost, visits_setVisit_self, host?_setVisit, promises_setVisit, hv, hf', Option.bind_some,
      hbody, funext hmoved.promises]
    cases hleft' : r.body? with
    | none => exact Nat.zero_le _
    | some body =>
        rw [hleft body hleft']
        exact Nat.le_refl _
  · exact (effort_of_go? h.rooted hf hc hgo _).resolve_right fun hstale => Bool.false_ne_true hstale.1

end

/-! ### The polls of the bodies -/

/-- The seat of a poll is the seat of a frame. -/
theorem Tended.mem_seats (h : s.Tended) {v : Visit ℓ α} (hv : s.visits n = some v) : n ∈ s.seats := by
  obtain ⟨f, hf⟩ := h.seated n v hv
  exact Grove.mem_seats.mpr (by rw [hf]; rfl)

section

variable {v : Visit ℓ α} (hn : n ∈ s.seats) (hv : s.visits n = some v)

include hn hv

/-- When one poll goes on, the cost changes by what it has cost. -/
theorem cost_setVisit (w : Visit ℓ α) :
    (s.setVisit n (some w)).cost + v.cost s.promises = s.cost + w.cost s.promises := by
  have hbodies := total_move (t := s.setVisit n (some w)) (w := s.bodyCost)
    (v := (s.setVisit n (some w)).bodyCost) (seats_eq fun m => by rw [host?_setVisit])
    (fun m hm => bodyCost_eq (visits_setVisit_of_ne _ _ hm) rfl (by rw [host?_setVisit])) hn
  have hself : (s.setVisit n (some w)).bodyCost n = w.cost s.promises := by
    simp only [bodyCost, visits_setVisit_self, promises_setVisit]
  have hbefore : s.bodyCost n = v.cost s.promises := by simp only [bodyCost, hv]
  have hcost : (s.setVisit n (some w)).cost = s.main.rank +
      (s.setVisit n (some w)).total (s.setVisit n (some w)).bodyCost + (s.branches.map (·.fan.rank)).sum := rfl
  rw [hcost, cost]
  omega

theorem depth_setVisit (w : Visit ℓ α) : (s.setVisit n (some w)).depth + v.depth = s.depth + w.depth := by
  have hdepths := total_move (t := s.setVisit n (some w)) (w := s.visitDepth)
    (v := (s.setVisit n (some w)).visitDepth) (seats_eq fun m => by rw [host?_setVisit])
    (fun m hm => by rw [visitDepth, visitDepth, visits_setVisit_of_ne _ _ hm, host?_setVisit]) hn
  simp only [visitDepth, visits_setVisit_self, host?_setVisit, hv, Option.elim_some] at hdepths
  have hdepth : (s.setVisit n (some w)).depth =
      (s.setVisit n (some w)).total (s.setVisit n (some w)).visitDepth +
        s.branches.countP (·.fan.isLooking) := rfl
  rw [hdepth, depth]
  omega

/-- A poll that does something for good, or comes nearer to where it left off, takes the tree with it. -/
theorem nearer_of_visit {w : Visit ℓ α} (hless : w.cost s.promises < v.cost s.promises ∨
    w.cost s.promises = v.cost s.promises ∧ w.depth < v.depth) : Nearer (s.setVisit n (some w)) s := by
  have hcost := cost_setVisit hn hv w
  have hdepth := depth_setVisit hn hv w
  rcases hless with hlt | ⟨heq, hlt⟩
  · exact .of_cost (by omega)
  · exact .of_depth (by omega) (Nat.le_refl _) (by omega)

/-- When a poll goes on inside the same tasks, the cost changes by what it is at. -/
theorem cost_setFocus {focus : Focus ℓ α} (heval : focus.eval s.promises = v.focus.eval s.promises) :
    (s.setVisit n (some { v with focus })).cost + v.focus.cost s.promises =
      s.cost + focus.cost s.promises := by
  have hvisit := cost_setVisit hn hv { v with focus }
  have hfocus := Visit.cost_focus heval
  omega

theorem depth_setFocus (focus : Focus ℓ α) :
    (s.setVisit n (some { v with focus })).depth + v.focus.depth = s.depth + focus.depth := by
  have hvisit := depth_setVisit hn hv { v with focus }
  have hfocus := v.depth_focus focus
  omega

/-- What a poll is at costs less, or is nearer to where the poll leaves off. -/
theorem nearer_of_focus {focus : Focus ℓ α} (heval : focus.eval s.promises = v.focus.eval s.promises)
    (hless : focus.cost s.promises < v.focus.cost s.promises ∨
      focus.cost s.promises = v.focus.cost s.promises ∧ focus.depth < v.focus.depth) :
    Nearer (s.setVisit n (some { v with focus })) s := by
  have hcost := cost_setFocus hn hv heval
  have hdepth := depth_setFocus hn hv focus
  rcases hless with hlt | ⟨heq, hlt⟩
  · exact .of_cost (by omega)
  · exact .of_depth (by omega) (Nat.le_refl _) (by omega)

end

/-- The leaf is open. -/
theorem nearer_of_pass (h : s.Tended) {v : Visit ℓ α} {l : ℓ} {next : Program ℓ α} (hv : s.visits n = some v)
    (hfocus : v.focus = .body (.run (.leaf l next))) :
    Nearer (s.setVisit n (some { v with focus := .body (.run next) })) s := by
  refine nearer_of_focus (h.mem_seats hv) hv ?_ (Or.inl ?_)
  · rw [hfocus]
    rfl
  · rw [hfocus]
    show next.cost < next.cost + 1
    exact Nat.lt_succ_self _

/-- The poll of a body suspends; what the body has still to do is left to the next. -/
theorem nearer_of_suspend (h : s.Tended) {v : Visit ℓ α} {b : Body ℓ α} (hv : s.visits n = some v)
    (heval : b.eval s.promises = v.focus.eval s.promises) (hcost : b.cost s.promises = v.focus.cost s.promises)
    (hdepth : 0 < v.focus.depth) : Nearer (s.setVisit n (some { v with focus := .suspended b })) s :=
  nearer_of_focus (h.mem_seats hv) hv heval (Or.inr ⟨hcost, hdepth⟩)

/-- The body reads the fan-in. -/
theorem nearer_of_read (h : Reached tree s) {v : Visit ℓ α} {g : Nat} {next : List (Outcome α) → Program ℓ α}
    {b : Branch ℓ α} {outs : List (Task (Body ℓ α) α)} (hv : s.visits n = some v)
    (hfocus : v.focus = .awaits g next) (hb : s.branches[g]? = some b)
    (hstage : b.fan.stage = .finished outs) :
    Nearer (s.setVisit n (some { v with focus := reads (outcomesOf outs) next })) s := by
  have hpromises : s.promises g = b.promises := by
    rw [promises, hb]
    rfl
  rw [h.tended.outcomesOf_eq h.rooted hb hstage, ← hpromises]
  refine nearer_of_focus (h.tended.mem_seats hv) hv ?_ (Or.inl ?_)
  · rw [hfocus]
    rfl
  · rw [hfocus]
    show (next (s.promises g)).cost < (next (s.promises g)).cost + 1
    exact Nat.lt_succ_self _

/-! ### The fan-ins -/

section

variable {g : Nat} {b : Branch ℓ α} {fan : Gathering (Body ℓ α) α Seat} (hb : s.branches[g]? = some b)

include hb

/-- When a fan-in moves, the cost changes by what is still to come of it. -/
theorem cost_setFan (hreaches : Reaches b.fan.hosts fan.hosts) :
    (s.setFan g b fan).cost + b.fan.rank = s.cost + fan.rank := by
  have hback : ∀ m, (s.setFan g b fan).host? m = none ∧ s.host? m = none ∨
      ∃ f f', (s.setFan g b fan).host? m = some f' ∧ s.host? m = some f ∧ f.Aside f' := by
    intro m
    cases hf' : (s.setFan g b fan).host? m with
    | some f' =>
        obtain ⟨f, hf, haside⟩ := host?_back_of_reaches hb hreaches hf'
        exact Or.inr ⟨f, f', rfl, hf, haside⟩
    | none =>
        cases hf : s.host? m with
        | none => exact Or.inl ⟨rfl, rfl⟩
        | some f =>
            obtain ⟨f', hthere, -⟩ := host?_of_reaches hb hreaches hf
            exact absurd (hthere.symm.trans hf') nofun
  have hseats : (s.setFan g b fan).seats = s.seats := by
    refine seats_eq fun m => ?_
    rcases hback m with ⟨hnone', hnone⟩ | ⟨f, f', hf', hf, -⟩
    · rw [hnone', hnone]
    · rw [hf', hf]
      rfl
  have hbodies : (s.setFan g b fan).total (s.setFan g b fan).bodyCost = s.total s.bodyCost := by
    refine total_congr hseats fun m => bodyCost_eq rfl (promises_setFan hb hreaches) ?_
    rcases hback m with ⟨hnone', hnone⟩ | ⟨f, f', hf', hf, haside⟩
    · rw [hnone', hnone]
    · rw [hf', hf]
      exact body?_of_aside haside
  have hranks := ranks_setFan hb fan
  have hmain : (s.setFan g b fan).main = s.main := rfl
  rw [cost, cost, hbodies, hmain]
  omega

theorem host?_setFan_of_hosts (hhosts : fan.hosts = b.fan.hosts) (m : Seat) :
    (s.setFan g b fan).host? m = s.host? m := by
  cases m with
  | root => rfl
  | input g' k =>
      by_cases hg : g' = g
      · subst hg
        rw [host?_setFan hb, host?_input hb, hhosts]
      · exact host?_setFan_of_ne b fan k hg

theorem seats_setFan (hhosts : fan.hosts = b.fan.hosts) : (s.setFan g b fan).seats = s.seats :=
  seats_eq fun m => by rw [host?_setFan_of_hosts hb hhosts]

/-- A fan-in that calls no frame leaves the calls alone. -/
theorem effort_setFan (hhosts : fan.hosts = b.fan.hosts) : (s.setFan g b fan).effort = s.effort := by
  have hcalls : (s.setFan g b fan).total (s.setFan g b fan).callEffort = s.total s.callEffort :=
    total_congr (seats_setFan hb hhosts) fun m => by
      rw [callEffort, callEffort, host?_setFan_of_hosts hb hhosts]
  rw [effort, effort, hcalls]
  rfl

theorem depth_setFan (hhosts : fan.hosts = b.fan.hosts) :
    (s.setFan g b fan).depth + b.fan.isLooking.toNat = s.depth + fan.isLooking.toNat := by
  have hdepths : (s.setFan g b fan).total (s.setFan g b fan).visitDepth = s.total s.visitDepth :=
    total_congr (seats_setFan hb hhosts) fun m => by
      rw [visitDepth, visitDepth, host?_setFan_of_hosts hb hhosts]
      rfl
  have hlooking := looking_setFan hb fan
  rw [depth, depth, hdepths]
  omega

/-- The poll of a body begins a poll of its fan-in. -/
theorem nearer_of_ask (h : s.Tended) {v : Visit ℓ α} {next : List (Outcome α) → Program ℓ α}
    (hv : s.visits n = some v) (hfocus : v.focus = .asks g next) (hstep : b.fan.step? (.poll n) = some fan) :
    Nearer ((s.setFan g b fan).setVisit n (some { v with focus := .awaits g next })) s := by
  obtain ⟨hrank, hhosts⟩ := Gathering.rank_of_poll hstep
  have hn : n ∈ (s.setFan g b fan).seats := by
    rw [seats_setFan hb hhosts]
    exact h.mem_seats hv
  have heval : (Focus.awaits g next : Focus ℓ α).eval (s.setFan g b fan).promises =
      v.focus.eval (s.setFan g b fan).promises := by
    rw [hfocus]
    rfl
  have hsame : (Focus.awaits g next : Focus ℓ α).cost (s.setFan g b fan).promises =
      v.focus.cost (s.setFan g b fan).promises := by
    rw [hfocus]
    rfl
  have hfar : v.focus.depth = 3 := by
    rw [hfocus]
    rfl
  have hnear : (Focus.awaits g next : Focus ℓ α).depth = 1 := rfl
  have hcost := cost_setFan hb (Or.inl hhosts)
  have hdepth := depth_setFan hb hhosts
  have hvisit := cost_setFocus hn hv heval
  have hinto := depth_setFocus hn hv (.awaits g next)
  -- The fan-in is farther from where it looks by one, the poll is nearer by two.
  have hone := Bool.toNat_le fan.isLooking
  refine .of_depth (by omega) ?_ (by omega)
  rw [effort_setVisit, effort_setFan hb hhosts]

/-- The poll of a fan-in takes a step. -/
theorem nearer_of_advance (h : b.fan.Gathered) (hstep : b.fan.step? .advance = some fan) :
    Nearer (s.setFan g b fan) s := by
  have hcost := cost_setFan hb (Gathering.of_advance hstep).2.2
  rcases Gathering.rank_of_advance h hstep with hlt | ⟨heq, hlooking, hrests, hhosts⟩
  · exact .of_cost (by omega)
  · have hdepth := depth_setFan hb hhosts
    rw [hlooking, hrests, Bool.toNat_true, Bool.toNat_false] at hdepth
    exact .of_depth (by omega) (Nat.le_of_eq (effort_setFan hb hhosts)) (by omega)

/-- An input takes a step on the countdown. -/
theorem nearer_of_notify {k : Nat} (hstep : b.fan.step? (.notify k) = some fan) (wakes : List Seat) :
    Nearer { s.setFan g b fan with wakes } s := by
  obtain ⟨roll, -, hfan⟩ := Gathering.of_onRoll? hstep
  have hreaches : Reaches b.fan.hosts fan.hosts := Or.inl (by rw [hfan])
  have hcost := cost_setFan hb hreaches
  have hrank := Gathering.rank_of_notify hstep
  have hsame : Grove.cost { s.setFan g b fan with wakes } = (s.setFan g b fan).cost := rfl
  exact .of_cost (by omega)

end

/-! ### A fan-in is made -/

/-- A frame that has not been called has all of its task still to do. -/
theorem cost_start (t : Tree ℓ α) (F : Nat → List (Outcome α)) :
    ((Hosted.start t.toTask).body?).elim 0 (·.cost F) = t.cost := by
  cases t with
  | ready v | failed e | empty =>
      rw [Tree.cost]
      rfl
  | body p =>
      rw [Tree.cost]
      rfl

/-- The frames of a new fan-in's inputs are added to the others. -/
theorem total_join (s : Grove ℓ α) (b : Branch ℓ α) (w : Seat → Nat) :
    (s.join b).total w =
      s.total w + ∑ k ∈ Finset.range b.fan.hosts.length, w (.input s.branches.length k) := by
  have hseats : (s.join b).seats =
      s.seats ∪ (Finset.range b.fan.hosts.length).image (.input s.branches.length) := by
    ext m
    rw [Finset.mem_union, mem_seats, mem_seats, Finset.mem_image]
    constructor
    · intro hm
      obtain ⟨f, hf⟩ := Option.isSome_iff_exists.mp hm
      rcases host?_back_of_join hf with hold | ⟨k, rfl, hk⟩
      · exact Or.inl (by rw [hold]; rfl)
      · exact Or.inr ⟨k, Finset.mem_range.mpr (List.getElem?_eq_some_iff.mp hk).1, rfl⟩
    · rintro (hm | ⟨k, hk, rfl⟩)
      · obtain ⟨f, hf⟩ := Option.isSome_iff_exists.mp hm
        rw [host?_join b hf]
        rfl
      · rw [host?_input (getElem?_join_self s b), List.getElem?_eq_getElem (Finset.mem_range.mp hk)]
        rfl
  have hdisjoint : Disjoint s.seats ((Finset.range b.fan.hosts.length).image (.input s.branches.length)) := by
    refine Finset.disjoint_left.mpr fun m hm hnew => ?_
    obtain ⟨k, -, rfl⟩ := Finset.mem_image.mp hnew
    rw [mem_seats, host?_length] at hm
    cases hm
  rw [total, total, hseats, Finset.sum_union hdisjoint, Finset.sum_image]
  intro i _ j _ hij
  exact (Seat.input.inj hij).2

/-- A new fan-in is nothing to the bodies that were there before. -/
theorem bodyCost_join (h : s.Tended) (b : Branch ℓ α) (hn : n ∈ s.seats) :
    (s.join b).bodyCost n = s.bodyCost n := by
  obtain ⟨f, hf⟩ := Option.isSome_iff_exists.mp (mem_seats.mp hn)
  have hframe := h.frame n f hf
  have hthere : ∀ g, (∃ b, s.branches[g]? = some b ∧ b.owner = n) → (s.join b).promises g = s.promises g := by
    rintro g ⟨b', hb', -⟩
    exact promises_join_of_lt b (List.getElem?_eq_some_iff.mp hb').1
  have hvisits : (s.join b).visits = s.visits := rfl
  simp only [bodyCost, hvisits, host?_join b hf, hf, Option.bind_some]
  cases hv : s.visits n with
  | some v => exact v.cost_congr fun g hg => hthere g ((hframe.goes v hv).2.own hg)
  | none =>
      cases hbody : f.body? with
      | none => rfl
      | some body =>
          refine body.cost_congr fun g hg => ?_
          obtain ⟨-, hrests⟩ := hframe.rests hv body hbody
          by_cases hlog : f.log = []
          · rw [if_pos hlog] at hrests
            exact absurd hg (hrests g)
          · rw [if_neg hlog] at hrests
            obtain ⟨r, hr, hwaits⟩ := hrests
            obtain rfl := Option.some.inj (hr.symm.trans hg)
            obtain ⟨b', hb', howner, -⟩ := hwaits
            exact hthere g ⟨b', hb', howner⟩

/-- A new fan-in costs what is still to come of it, and all that its inputs have to do. -/
theorem cost_join (h : s.Tended) (n : Seat) {k : Nat} (inputs : Fin k → Tree ℓ α) :
    (s.join ⟨n, .start (List.ofFn fun i => (inputs i).toTask)⟩).cost =
      s.cost + (9 * k + 9 + ∑ i, (inputs i).cost) := by
  let b : Branch ℓ α := ⟨n, .start (List.ofFn fun i => (inputs i).toTask)⟩
  have hlength : b.fan.hosts.length = k := by simp [b, Gathering.start]
  have hold : s.total (s.join b).bodyCost = s.total s.bodyCost :=
    Finset.sum_congr rfl fun m hm => bodyCost_join h b hm
  have hnew : ∀ i : Fin k, (s.join b).bodyCost (.input s.branches.length i) = (inputs i).cost := by
    intro i
    have hquiet : (s.join b).visits (.input s.branches.length i) = none := by
      show s.visits _ = none
      cases hv : s.visits (.input s.branches.length i) with
      | none => rfl
      | some v =>
          obtain ⟨f, hf⟩ := h.seated _ v hv
          rw [host?_length] at hf
          cases hf
    have hhost : (s.join b).host? (.input s.branches.length i) = some (.start (inputs i).toTask) := by
      rw [host?_input (getElem?_join_self s b)]
      simp [b, Gathering.start]
    rw [bodyCost, hquiet, hhost]
    exact cost_start (inputs i) _
  have hbodies : (s.join b).total (s.join b).bodyCost = s.total s.bodyCost + ∑ i, (inputs i).cost := by
    rw [total_join, hold, hlength, Finset.sum_range]
    exact congrArg _ (Finset.sum_congr rfl fun i _ => hnew i)
  have hrank : b.fan.rank = 9 * k + 9 := by
    rw [show b.fan.rank = _ from Gathering.rank_start _, List.length_ofFn]
  have hranks : ((s.join b).branches.map (·.fan.rank)).sum = (s.branches.map (·.fan.rank)).sum + b.fan.rank := by
    simp [join]
  show s.main.rank + (s.join b).total (s.join b).bodyCost + ((s.join b).branches.map (·.fan.rank)).sum = _
  rw [hbodies, hranks, hrank, cost]
  omega

/-- The body makes a fan-in, and all that its inputs have to do was left of it before. -/
theorem nearer_of_gather (h : s.Tended) {v : Visit ℓ α} {k : Nat} {hk : k < 2 ^ 64} {inputs : Fin k → Tree ℓ α}
    {next : List (Outcome α) → Program ℓ α} (hv : s.visits n = some v)
    (hfocus : v.focus = .body (.run (.all k hk inputs next))) :
    Nearer ((s.join ⟨n, .start (List.ofFn fun i => (inputs i).toTask)⟩).setVisit n
      (some { v with focus := .asks s.branches.length next })) s := by
  let u := s.join ⟨n, .start (List.ofFn fun i => (inputs i).toTask)⟩
  have hn : n ∈ u.seats := by
    obtain ⟨f, hf⟩ := h.seated n v hv
    exact mem_seats.mpr (by rw [host?_join _ hf]; rfl)
  have heval : (Focus.asks s.branches.length next : Focus ℓ α).eval u.promises = v.focus.eval u.promises := by
    rw [hfocus]
    show (next (u.promises s.branches.length)).eval = _
    rw [promises_join]
    rfl
  have hvisit := cost_setFocus (s := u) hn hv heval
  have hbefore : v.focus.cost u.promises = (9 * k + 9 + ∑ i, (inputs i).cost) +
      ((next (List.ofFn fun i => (inputs i).eval)).cost + 1) + 1 := by
    rw [hfocus, Focus.cost, Body.cost, Program.cost]
  have hafter : (Focus.asks s.branches.length next : Focus ℓ α).cost u.promises =
      (next (List.ofFn fun i => (inputs i).eval)).cost + 1 := by
    rw [Focus.cost, promises_join]
  have hcost : u.cost = _ := cost_join h n inputs
  have hlower : (u.setVisit n (some { v with focus := .asks s.branches.length next })).cost < s.cost := by omega
  exact .of_cost hlower

/-- A wake arrives: one call more, one wake less. -/
theorem nearer_of_arrive {i : Nat} (hi : s.wakes[i]? = some n) (hwake : s.wake? n = some t) :
    Nearer { t with wakes := t.wakes.eraseIdx i } s := by
  have hmoved := (moved_of_wake? hwake).1
  obtain ⟨f, f', hf, hstep, hf'⟩ := hmoved.host
  have hn : n ∈ s.seats := mem_seats.mpr (by rw [hf]; rfl)
  have hmain : t.main = s.main := (root_of_wake? hwake).2.1
  have hbodies : t.total t.bodyCost = s.total s.bodyCost := by
    refine total_congr hmoved.seats fun m => hmoved.bodyCost fun _ f₁ f₂ hf₁ hf₂ => ?_
    obtain rfl := Option.some.inj (hf.symm.trans hf₁)
    obtain rfl := Option.some.inj (hf'.symm.trans hf₂)
    exact body?_of_aside (Hosted.aside_of_begin hstep (Or.inl rfl))
  have hcost : Grove.cost { t with wakes := t.wakes.eraseIdx i } = s.cost := by
    show t.main.rank + t.total t.bodyCost + (t.branches.map (·.fan.rank)).sum = _
    rw [hmain, hbodies, ranks_of_wake? hwake]
    rfl
  have hcalls := total_move (w := s.callEffort) (v := t.callEffort) hmoved.seats
    (fun m hm => by rw [callEffort, callEffort, hmoved.others m hm]) hn
  simp only [callEffort, hf, hf', Option.elim_some] at hcalls
  have hresume := Callers.effort_of_resume (Hosted.of_step? hstep).2.1
  have hlt := (List.getElem?_eq_some_iff.mp hi).1
  have hlength : (t.wakes.eraseIdx i).length + 1 = s.wakes.length := by
    rw [hmoved.wakes, List.length_eraseIdx_of_lt hlt]
    omega
  have heffort : Grove.effort { t with wakes := t.wakes.eraseIdx i } =
      t.main.isLooking.toNat + 10 * (t.wakes.eraseIdx i).length + t.total t.callEffort := rfl
  refine .of_effort (Nat.le_of_eq hcost) ?_
  rw [heffort, effort, hmain]
  omega

/-! ### All of them -/

/-- The caller of `sync_wait` takes a step. -/
theorem nearer_of_enter {root : Hosted (Body ℓ α) α} {a : Callers.Act (Body ℓ α) α}
    (hstep : s.root.step? a = some root) (ha : a = .resume ∨ a = .take) {main : Main α}
    (hrank : main.rank < s.main.rank) : Nearer { s with root, main } s :=
  nearer_of_main (Hosted.aside_of_begin hstep ha) hrank

/-- **Each act of the tree's own brings it nearer to its end.** -/
theorem nearer_of_turns [DecidableEq ℓ] (h : Reached tree s) {a : Act ℓ} (hown : a.isOwn = true)
    (hturn : Turns s a t) : Nearer t s := by
  cases hturn with
  | enter root hmain hstep =>
      exact nearer_of_enter hstep (Or.inl rfl) (by rw [hmain]; exact Nat.lt_succ_self 4)
  | wait c hmain hc hreturned =>
      exact nearer_of_main (.refl _) (by rw [hmain]; exact Nat.lt_succ_self 3)
  | look hmain =>
      cases hset : s.latch.isSet with
      | false =>
          simp only [Latch.Waiter.look, hset, Bool.false_eq_true, if_false]
          exact nearer_of_park hmain
      | true =>
          simp only [Latch.Waiter.look, hset, if_true]
          exact nearer_of_main (.refl _) (by rw [hmain]; exact Nat.lt_succ_self 2)
  | fetch root hmain hstep =>
      exact nearer_of_enter hstep (Or.inr rfl) (by rw [hmain]; exact Nat.lt_succ_self 1)
  | gain j m task hmain hc =>
      exact nearer_of_main (.refl _) (by rw [hmain]; exact Nat.lt_succ_self 0)
  | miss j m hmain hc =>
      exact nearer_of_main (.refl _) (by rw [hmain]; exact Nat.lt_succ_self 0)
  | move n j spurious f c t hf hc hbegin hback hgo =>
      obtain rfl : spurious = false := by simpa [Act.isOwn] using hown
      exact nearer_of_move h.rooted hf hc hbegin hback hgo
  | begin n j m spurious f t hf hc hgo =>
      obtain rfl : spurious = false := by simpa [Act.isOwn] using hown
      exact nearer_of_begin h hf hc hgo
  | back n j m spurious f lent b v r t hf hc hb hv hr hgo =>
      obtain rfl : spurious = false := by simpa [Act.isOwn] using hown
      exact nearer_of_back h hf hc hb hv hr hgo
  | turn n v w hv hturn =>
      exact nearer_of_visit (h.tended.mem_seats hv) hv (Visit.cost_of_turn? hturn)
  | pass n v l next hv hfocus hopen => exact nearer_of_pass h.tended hv hfocus
  | park n v l next hv hfocus hshut =>
      -- No number looks at the wakers that the leaves keep.
      exact nearer_of_suspend (b := .run (.leaf l next)) h.tended hv (by rw [hfocus]; rfl) (by rw [hfocus]; rfl)
        (by rw [hfocus]; exact Nat.succ_pos _)
  | gather n v k hk inputs next hv hfocus => exact nearer_of_gather h.tended hv hfocus
  | ask n v g next b fan hv hfocus hb hstep => exact nearer_of_ask hb h.tended hv hfocus hstep
  | advance n v g next b fan hv hfocus hb hstage hstep =>
      exact nearer_of_advance hb (h.rooted.gathered hb) hstep
  | rest n v g next b hv hfocus hb hstage =>
      exact nearer_of_suspend h.tended hv (by rw [hfocus]; rfl) (by rw [hfocus]; rfl)
        (by rw [hfocus]; exact Nat.succ_pos _)
  | read n v g next b outs hv hfocus hb hstage => exact nearer_of_read h hv hfocus hb hstage
  | notify g k b fan w hb hstep hw => exact nearer_of_notify hb hstep _
  | arrive i n t hi hwake => exact nearer_of_arrive hi hwake
  | unlock l => cases hown
  | wake n t hwake => cases hown

end TaskDispatch.Grove
