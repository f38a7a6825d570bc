/-
A tree that stands still is done.

Suppose nothing is left for a tree to do by itself.  A call that is under way waits for a
call of a frame further from the root, for a fan-in was made after the frame it belongs
to, so no call is under way.  Then no frame that has been called is idle either, if all
leaves that keep a waker are open: its body would wait for a leaf, and the frame would
be roused, or for a fan-in, whose inputs are all done, and the fan-in would have woken
it.  So the frame of the root is completed, and the caller of `sync_wait` has its
outcome.
-/
import TaskDispatch.Proofs.Tree.Enabled

namespace TaskDispatch.Grove

open TaskDispatch.Frame (Callers Hosted Call)

variable {ℓ α : Type} [DecidableEq ℓ] {s : Grove ℓ α} {n : Seat} {tree : Tree ℓ α}

/-- Nothing is left for the tree to do by itself. -/
def Still (s : Grove ℓ α) : Prop := ∀ a : Act ℓ, a.isOwn = true → s.step? a = none

/-- Every leaf that keeps a waker is open. -/
def Unlocked (s : Grove ℓ α) : Prop := ∀ l n, (l, n) ∈ s.kept → s.opened l = true

namespace Still

/-- No act of the tree's own is possible. -/
theorem not_step (h : s.Still) {a : Act ℓ} (hown : a.isOwn = true) (hstep : ∃ t, s.step? a = some t) :
    False := by
  obtain ⟨t, ht⟩ := hstep
  exact absurd (ht.symm.trans (h a hown)) nofun

/-! ### Nobody is under way -/

theorem wakes (h : s.Still) (hreached : Reached tree s) : s.wakes = [] := by
  cases hwakes : s.wakes with
  | nil => rfl
  | cons n rest =>
      exfalso
      obtain ⟨t, ht⟩ := Reached.exists_wake? (hreached.tended.wakes n (by rw [hwakes]; exact List.mem_cons_self))
      have hi : s.wakes[0]? = some n := by
        rw [hwakes]
        rfl
      refine h.not_step (a := .arrive 0) rfl ?_
      simp only [step?, hi, ht]
      exact ⟨_, rfl⟩

/-- Every input that has come to the countdown is done there. -/
theorem told (h : s.Still) (hreached : Reached tree s) {g : Nat} {b : Branch ℓ α}
    (hb : s.branches[g]? = some b) {k : Nat} {p : Countdown.Party Seat}
    (hp : b.fan.roll.parties[k]? = some (some p)) : p = .left := by
  refine Classical.byContradiction fun hleft => ?_
  obtain ⟨fan, hfan⟩ := (hreached.rooted.gathered hb).exists_notify hp hleft
  refine h.not_step (a := .notify g k) rfl ?_
  simp only [step?, notify?, hb, onBranch?_eq hb hfan]
  split <;> exact ⟨_, rfl⟩

/-- A call that is under way waits for a call of an input of a fan-in of its own. -/
theorem waitsFor (h : s.Still) (hreached : Reached tree s) {j : Nat} {f : Hosted (Body ℓ α) α}
    {c : Call (Body ℓ α) α} (hf : s.host? n = some f) (hc : f.frame.calls[j]? = some c)
    (hover : c.isOver = false) : s.WaitsFor n := by
  refine Classical.byContradiction fun hnot => ?_
  refine h.not_step (a := .call n j false) rfl (hreached.exists_call? hf hc hover ?_ ?_ false)
  · rintro ⟨hplace, g, k, b, rfl, hb, htold⟩
    have hhost := (host?_input hb).symm.trans hf
    have hgathered := hreached.rooted.gathered hb
    obtain ⟨p, hp, hiff⟩ := hgathered.told k f hhost
    obtain ⟨q, rfl⟩ := Option.isSome_iff_exists.mp
      (hiff.mpr ((hgathered.kept k f hhost).notified j c hc hplace))
    refine htold ?_
    rw [Gathering.Told, hp, h.told hreached hb hp]
  · intro hvisits
    have hcount := (hreached.tended.frame n f hf).visits
    have hpos : 0 < f.frame.calls.countP Call.visits :=
      List.countP_pos_iff.mpr ⟨c, List.mem_of_getElem? hc, hvisits⟩
    cases hv : s.visits n with
    | none =>
        rw [hcount, hv] at hpos
        cases hpos
    | some v =>
        rcases hreached.exists_visit? hv with hstep | ⟨r, hr⟩ | hwaits
        · exact absurd (h.not_step (a := .visit n) rfl (by simpa only [step?, hv] using hstep)) id
        · exact ⟨v, r, rfl, hr⟩
        · exact absurd hwaits hnot

/-- No call of an input is under way: the fan-ins that it could wait for were made later. -/
theorem not_busy (h : s.Still) (hreached : Reached tree s) (m : Nat) :
    ∀ {g : Nat} {b : Branch ℓ α}, s.branches[g]? = some b → s.branches.length ≤ g + m → ¬ b.fan.Busy := by
  induction m with
  | zero =>
      intro g b hb hlen
      have := (List.getElem?_eq_some_iff.mp hb).1
      omega
  | succ m ih =>
      rintro g b hb hlen ⟨k, f, j, c, hhost, hc, hover⟩
      obtain ⟨g', b', hb', howner, hbusy⟩ := h.waitsFor hreached ((host?_input hb).trans hhost) hc hover
      have hlt := hreached.tended.order g' b' hb' g k howner
      exact ih hb' (by omega) hbusy

/-- **No call is under way.** -/
theorem isOver (h : s.Still) (hreached : Reached tree s) {f : Hosted (Body ℓ α) α} {c : Call (Body ℓ α) α}
    (hf : s.host? n = some f) (hc : c ∈ f.frame.calls) : c.isOver = true := by
  obtain ⟨j, hj⟩ := List.getElem?_of_mem hc
  refine Classical.byContradiction fun hover => ?_
  obtain ⟨g, b, hb, -, hbusy⟩ := h.waitsFor hreached hf hj (Bool.eq_false_iff.mpr hover)
  exact h.not_busy hreached s.branches.length hb (Nat.le_add_left _ _) hbusy

/-! ### Every frame that has been called is completed -/

/-- Whoever has looked at an idle frame has been answered by a poll: the frame is not roused. -/
theorem not_roused (h : s.Still) (hreached : Reached tree s) {f : Hosted (Body ℓ α) α}
    (hf : s.host? n = some f) (huntaken : f.Untaken) (hidle : f.frame.shared.word = .idle) :
    ¬ s.Roused n := by
  rintro (hwake | ⟨f', hf', c, hc, hlooks⟩)
  · rw [h.wakes hreached] at hwake
    cases hwake
  · obtain rfl := Option.some.inj (hf.symm.trans hf')
    obtain ⟨j, hj⟩ := List.getElem?_of_mem hc
    have hover := h.isOver hreached hf hc
    have hpolled := (hreached.rooted.answered hf).of_idle hidle hc
      (Call.returned_of_isOver hover (huntaken j c hj))
    rcases hlooks with hload | hlooked
    · rw [Call.isOver, hload] at hover
      cases hover
    · omega

/-- A frame that is completed has told so. -/
theorem noticed (h : s.Still) (hreached : Reached tree s) {f : Hosted (Body ℓ α) α}
    (hf : s.host? n = some f) (hdone : f.isCompleted = true) : 0 < f.frame.shared.notices := by
  have hquiet : f.frame.calls.countP Call.announces = 0 := by
    refine List.countP_eq_zero.mpr fun c hc hannounces => ?_
    rw [(Call.idle_of_isOver (h.isOver hreached hf hc)).2.2] at hannounces
    cases hannounces
  have htold := (hreached.rooted.kept hf).owned.told
  rw [hquiet, show f.frame.shared.word.isCompleted = true from hdone] at htold
  exact Nat.lt_of_lt_of_eq Nat.zero_lt_one htold.symm

/-- An input that is completed is done with the countdown. -/
theorem told_of_completed (h : s.Still) (hreached : Reached tree s) {g k : Nat} {b : Branch ℓ α}
    {f : Hosted (Body ℓ α) α} (hb : s.branches[g]? = some b) (hhost : b.fan.hosts[k]? = some f)
    (hdone : f.isCompleted = true) : b.fan.Told k := by
  have hgathered := hreached.rooted.gathered hb
  obtain ⟨p, hp, hiff⟩ := hgathered.told k f hhost
  have hnoticed := h.noticed hreached ((host?_input hb).trans hhost) hdone
  obtain ⟨q, rfl⟩ := Option.isSome_iff_exists.mp (hiff.mpr hnoticed)
  rw [Gathering.Told, hp, h.told hreached hb hp]

/-- A fan-in that waits for its inputs has woken the awaiter when all of them are completed. -/
theorem woken (h : s.Still) (hreached : Reached tree s) {g : Nat} {b : Branch ℓ α}
    (hb : s.branches[g]? = some b) (hresting : b.fan.stage = .resting) (hasked : b.fan.wakers ≠ [])
    (hinputs : ∀ (k : Nat) f, b.fan.hosts[k]? = some f → f.frame.calls ≠ [] → f.isCompleted = true) :
    b.fan.roll.wakes ≠ [] := by
  have hgathered := hreached.rooted.gathered hb
  have hawaiter := hgathered.awaiter
  rw [Gathering.AwaiterAt, hresting] at hawaiter
  cases hstarted : b.fan.started with
  | false =>
      simp only [hstarted, Bool.false_eq_true, if_false] at hawaiter
      exact absurd hawaiter.2 hasked
  | true =>
      have hleft : ∀ p ∈ b.fan.roll.parties, p = some .left := by
        intro p hp
        obtain ⟨k, hk⟩ := List.getElem?_of_mem hp
        have hlt : k < b.fan.hosts.length := by
          rw [← hgathered.tallied.length]
          exact (List.getElem?_eq_some_iff.mp hk).1
        have hhost := List.getElem?_eq_getElem hlt
        have hat := hgathered.host k _ hhost
        simp only [Gathering.HostAt, hresting, hstarted, if_true] at hat
        obtain ⟨⟨c, hc, -⟩, -⟩ := hat
        have hdone := hinputs k _ hhost (List.ne_nil_of_mem (List.mem_of_getElem? hc))
        exact Option.some.inj (hk.symm.trans (h.told_of_completed hreached hb hhost hdone))
      simp only [hstarted, if_true] at hawaiter
      obtain ⟨k, w, hwakes⟩ := hgathered.tallied.woken_of_left hawaiter.1 hleft
      rw [hwakes]
      exact List.cons_ne_nil _ _

/-- A frame that has been called is completed if the inputs of its fan-ins are. -/
theorem completed_of_inputs (h : s.Still) (hreached : Reached tree s) (hunlocked : s.Unlocked)
    {f : Hosted (Body ℓ α) α} (hf : s.host? n = some f) (hcalled : f.frame.calls ≠ [])
    (huntaken : f.Untaken)
    (hinputs : ∀ (g : Nat) b, s.branches[g]? = some b → b.owner = n →
      ∀ (k : Nat) f, b.fan.hosts[k]? = some f → f.frame.calls ≠ [] → f.isCompleted = true) :
    f.isCompleted = true := by
  refine Classical.byContradiction fun hnot => ?_
  have hkept := hreached.rooted.kept hf
  have hover := fun c hc => Call.idle_of_isOver (h.isOver hreached hf (c := c) hc)
  have hidle : f.frame.shared.word = .idle := by
    have hnone : f.frame.calls.countP Call.owns = 0 := by
      refine List.countP_eq_zero.mpr fun c hc howns => ?_
      rw [(hover c hc).1] at howns
      cases howns
    have howners := hkept.owned.owners
    rw [hnone] at howners
    rw [Hosted.isCompleted] at hnot
    cases hw : f.frame.shared.word with
    | idle => rfl
    | running | notified =>
        rw [hw] at howners
        cases howners
    | completed | taken =>
        rw [hw] at hnot
        exact absurd rfl hnot
  have hsleeps := h.not_roused hreached hf huntaken hidle
  obtain ⟨c, rest, hcalls⟩ := List.exists_cons_of_ne_nil hcalled
  have hc : f.frame.calls[0]? = some c := by rw [hcalls]; rfl
  have hmem := List.mem_of_getElem? hc
  have hpolled := (hreached.rooted.answered hf).of_idle hidle hmem
    (Call.returned_of_isOver (h.isOver hreached hf hmem) (huntaken 0 c hc))
  -- Some poll has ended, and has left a body.
  obtain ⟨hwaits, hlog⟩ := hkept.idle hidle
  have hlog := hlog (Nat.zero_lt_of_lt hpolled)
  obtain ⟨b, hb, -⟩ := hwaits.resolve_right fun hnil => hlog hnil.1
  have hframe := hreached.tended.frame n f hf
  have hquiet : s.visits n = none := by
    refine hframe.quiet (List.countP_eq_zero.mpr fun c hc hin => ?_)
    rw [(hover c hc).2.1] at hin
    cases hin
  obtain ⟨-, hrest⟩ := hframe.rests hquiet b hb
  rw [if_neg hlog] at hrest
  obtain ⟨r, -, hwaits⟩ := hrest
  cases r with
  | leaf l =>
      rw [Waits] at hwaits
      split at hwaits
      · exact hsleeps hwaits
      · next hshut => exact hshut (hunlocked l n hwaits)
  | fanIn g =>
      obtain ⟨b, hb, howner, hresting, hasked, hroused⟩ := hwaits
      exact hsleeps (hroused (h.woken hreached hb hresting hasked (hinputs g b hb howner)))

/-- Every input that has been called is completed: so are those of the fan-ins made later. -/
theorem inputs_completed (h : s.Still) (hreached : Reached tree s) (hunlocked : s.Unlocked) (m : Nat) :
    ∀ {g : Nat} {b : Branch ℓ α}, s.branches[g]? = some b → s.branches.length ≤ g + m →
      ∀ (k : Nat) f, b.fan.hosts[k]? = some f → f.frame.calls ≠ [] → f.isCompleted = true := by
  induction m with
  | zero =>
      intro g b hb hlen
      have := (List.getElem?_eq_some_iff.mp hb).1
      omega
  | succ m ih =>
      intro g b hb hlen k f hhost hcalled
      rcases (hreached.rooted.gathered hb).untaken_or_completed hhost with huntaken | hdone
      · refine h.completed_of_inputs hreached hunlocked ((host?_input hb).trans hhost) hcalled huntaken ?_
        intro g' b' hb' howner
        have hlt := hreached.tended.order g' b' hb' g k howner
        exact ih hb' (by omega)
      · exact hdone

/-- The frame of the root is completed, unless its task has been called for. -/
theorem root_completed (h : s.Still) (hreached : Reached tree s) (hunlocked : s.Unlocked)
    (hcalled : s.root.frame.calls ≠ []) (huntaken : s.root.Untaken) : s.root.isCompleted = true :=
  h.completed_of_inputs hreached hunlocked (n := .root) rfl hcalled huntaken fun _ _ hb _ =>
    h.inputs_completed hreached hunlocked s.branches.length hb (Nat.le_add_left _ _)

/-- **A tree that stands still is done**: once all leaves that keep a waker are open, the caller has the
outcome of the root. -/
theorem returned (h : s.Still) (hreached : Reached tree s) (hunlocked : s.Unlocked) :
    s.main = .returned (.ok tree.eval) := by
  have hat := hreached.main
  have hover : ∀ (j : Nat) c, s.root.frame.calls[j]? = some c → c.isOver = true := fun j c hc =>
    h.isOver hreached (n := .root) rfl (List.mem_of_getElem? hc)
  have hmoves : (∃ t, s.main? = some t) → False := h.not_step (a := .main) rfl
  cases hmain : s.main with
  | made =>
      exact absurd (hmoves (by simp only [main?, hmain]; exact ⟨_, rfl⟩)) id
  | starting =>
      rw [hmain] at hat
      obtain ⟨c, rest, hcalls⟩ := List.exists_cons_of_ne_nil hat.1
      have hc : s.root.frame.calls[0]? = some c := by rw [hcalls]; rfl
      have hreturned := Call.returned_of_isOver (hover 0 c hc) (hat.2 0 c hc)
      exact absurd (hmoves (by simp only [main?, hmain, hc, hreturned, if_true]; exact ⟨_, rfl⟩)) id
  | waits w =>
      rw [hmain] at hat
      cases w with
      | looking => exact absurd (hmoves (by simp only [main?, hmain]; exact ⟨_, rfl⟩)) id
      | returned => exact absurd (hmoves (by simp only [main?, hmain]; exact ⟨_, rfl⟩)) id
      | parked =>
          -- The frame is completed, and has told the latch.
          obtain ⟨hcalled, huntaken, hshut, -⟩ := hat
          have hdone := h.root_completed hreached hunlocked hcalled huntaken
          have hset := hreached.latch.mpr (h.noticed hreached (n := .root) rfl hdone)
          rw [hshut rfl] at hset
          cases hset
  | takes j =>
      rw [hmain] at hat
      obtain ⟨-, ⟨p, m, hc, hp⟩, -⟩ := hat
      have hrests := hover j _ hc
      rcases hp with rfl | rfl | ⟨task, rfl⟩
      · cases hrests
      · cases hrests
      · exact absurd (hmoves (by simp only [main?, hmain, hc]; exact ⟨_, rfl⟩)) id
  | returned o =>
      rw [hmain] at hat
      have houtcome : o = .ok (promise s.root.input) := hat
      rw [houtcome, hreached.rooted.input, promise_toTask]
  | unreachable =>
      rw [hmain] at hat
      exact absurd hat id

end Still

end TaskDispatch.Grove
