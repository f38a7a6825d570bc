/-
Every order of acts leads to the outcome of the direct evaluation.

Anybody may open leaves in any order and wake frames for no reason, between any two acts
of the tree.  Left to itself from then on, the tree comes to an end, whatever order its
acts come in (`EndsIn`): each of them brings it nearer (`nearer_of_turns`).  There all
is still, and once every leaf that keeps a waker is open, the caller of `sync_wait` has
what `Tree.eval` says (`Still.returned`).

Such an end can be come to from everywhere: a leaf that is shut is opened before it is
polled, and so none keeps a waker.
-/
import TaskDispatch.Proofs.Tree.Descent
import TaskDispatch.Proofs.Tree.Still

namespace TaskDispatch.Grove

variable {ℓ α : Type} [DecidableEq ℓ] {s t : Grove ℓ α} {tree : Tree ℓ α}

/-- Whatever the tree does by itself from here, one act after another, it comes to an end, and there `P`
holds. -/
inductive EndsIn (P : Grove ℓ α → Prop) : Grove ℓ α → Prop
  | of_acts {s : Grove ℓ α} (hacts : ∀ (a : Act ℓ) t, a.isOwn = true → s.step? a = some t → EndsIn P t)
    (hstill : s.Still → P s) : EndsIn P s

/-- What holds of a tree wherever it stands still holds where it comes to an end, and it does. -/
theorem Reached.endsIn {P : Grove ℓ α → Prop} (h : Reached tree s)
    (hstill : ∀ t, Reached tree t → t.Still → P t) : EndsIn P s := by
  induction s using wellFounded_nearer.induction with
  | _ s ih =>
      refine .of_acts (fun a t hown hstep => ?_) (hstill s h)
      have hturn := turns_of_step? hstep
      exact ih t (nearer_of_turns h hown hturn) (h.step hturn)

/-! ### An end to come to -/

/-- The leaves that keep wakers can be opened, one after another. -/
theorem exists_kept_eq_nil (s : Grove ℓ α) : ∃ t, Leads step? s t ∧ t.kept = [] := by
  induction hlength : s.kept.length using Nat.strong_induction_on generalizing s with
  | _ k ih =>
      cases hkept : s.kept with
      | nil => exact ⟨s, .refl s, hkept⟩
      | cons keeper rest =>
          have hfewer : (s.unlock keeper.1).kept.length < k := by
            rw [← hlength]
            show (s.kept.filter _).length < _
            rw [hkept, List.filter_cons_of_neg (by simp)]
            exact Nat.lt_succ_of_le (List.length_filter_le _ _)
          obtain ⟨t, hleads, hnil⟩ := ih _ hfewer (s.unlock keeper.1) rfl
          exact ⟨t, .head (.unlock keeper.1) rfl hleads, hnil⟩

/-- While no leaf keeps a waker, opening one lets no wake go. -/
theorem unlock_of_kept_eq_nil (h : s.kept = []) (l : ℓ) :
    s.unlock l = { s with opened := fun l' => l' = l || s.opened l' } := by
  simp [unlock, h]

/-- Who lets a leaf keep a waker by an act of the tree's own has found that leaf shut. -/
theorem kept_of_turns {a : Act ℓ} (h : Turns s a t) (hown : a.isOwn = true) :
    t.kept = s.kept ∨ ∃ n v l next, s.visits n = some v ∧ v.focus = .body (.run (.leaf l next)) := by
  cases h with
  | park n v l next hv hfocus hshut => exact Or.inr ⟨n, v, l, next, hv, hfocus⟩
  | move n j spurious f c t hf hc hbegin hback hgo => exact Or.inl (moved_of_go? hgo).kept
  | begin n j m spurious f u hf hc hgo => exact Or.inl (moved_of_go? hgo).kept
  | back n j m spurious f lent b v r u hf hc hb hv hr hgo => exact Or.inl (moved_of_go? hgo).kept
  | arrive i n u hi hwake => exact Or.inl (moved_of_wake? hwake).1.kept
  | unlock l => cases hown
  | wake n t hwake => cases hown
  | _ => exact Or.inl rfl

/-- A leaf that a poll is at is opened and passed. -/
theorem Reached.exists_pass (h : Reached tree s) (hkept : s.kept = []) {n : Seat} {v : Visit ℓ α} {l : ℓ}
    {next : Program ℓ α} (hv : s.visits n = some v) (hfocus : v.focus = .body (.run (.leaf l next))) :
    ∃ t, Leads step? s t ∧ t.kept = [] ∧ Nearer t s := by
  let u : Grove ℓ α := { s with opened := fun l' => l' = l || s.opened l' }
  have hopened : u.opened l = true := by simp [u]
  have hunlock : s.step? (.unlock l) = some u := congrArg some (unlock_of_kept_eq_nil hkept l)
  have hpass : u.step? (.visit n) = some (u.setVisit n (some { v with focus := .body (.run next) })) := by
    have hv' : u.visits n = some v := hv
    simp only [step?, hv', visit?, hfocus, hopened, if_true]
  exact ⟨_, .head _ hunlock (.head _ hpass (.refl _)), hkept, nearer_of_pass h.tended hv hfocus⟩

/-- **From everywhere the tree can be brought to stand still with no leaf keeping a waker.** -/
theorem Reached.exists_still (h : Reached tree s) : ∃ t, Leads step? s t ∧ t.Still ∧ t.kept = [] := by
  have hon : ∀ u, Leads step? s u → u.kept = [] → ∃ t, Leads step? u t ∧ t.Still ∧ t.kept = [] := by
    intro u
    induction u using wellFounded_nearer.induction with
    | _ u ih =>
        intro hleads hkept
        have hreached : Reached tree u :=
          hleads.keeps (fun _ _ _ hu hstep => hu.step (turns_of_step? hstep)) h
        by_cases hstill : u.Still
        · exact ⟨u, .refl u, hstill, hkept⟩
        · obtain ⟨w, hw, hkept, hnearer⟩ : ∃ w, Leads step? u w ∧ w.kept = [] ∧ Nearer w u := by
            simp only [Still, not_forall] at hstill
            obtain ⟨a, hown, hacts⟩ := hstill
            obtain ⟨w, hstep⟩ := Option.ne_none_iff_exists'.mp hacts
            have hturn := turns_of_step? hstep
            rcases kept_of_turns hturn hown with hsame | ⟨n, v, l, next, hv, hfocus⟩
            · exact ⟨w, .step a (.refl u) hstep, hsame.trans hkept, nearer_of_turns hreached hown hturn⟩
            · exact hreached.exists_pass hkept hv hfocus
          obtain ⟨t, ht, hend⟩ := ih w hnearer (hleads.trans hw) hkept
          exact ⟨t, hw.trans ht, hend⟩
  obtain ⟨u, hu, hkept⟩ := exists_kept_eq_nil s
  obtain ⟨t, ht, hend⟩ := hon u hu hkept
  exact ⟨t, hu.trans ht, hend⟩

/-! ### Confluence -/

/-- **Every order of acts leads `sync_wait` to the outcome of the direct evaluation.**  Whatever has
happened to the tree, leaves opened and frames woken in any order:

 - the caller has found a task in the frame, and what it has returned, if it has, is that outcome;
 - left to itself the tree comes to an end, whatever order its acts come in, and there the caller has
   returned it, once every leaf that keeps a waker is open;
 - the tree can be brought to such an end. -/
theorem sync_wait_returns_direct_outcome (tree : Tree ℓ α) (s : Grove ℓ α)
    (h : Leads step? (Grove.start tree) s) :
    (s.main ≠ .unreachable ∧ ∀ o, s.main = .returned o → o = .ok tree.eval) ∧
    EndsIn (fun t => t.Unlocked → t.main = .returned (.ok tree.eval)) s ∧
    ∃ t, Leads step? s t ∧ t.Still ∧ t.Unlocked := by
  have hreached := Reached.of_leads h
  refine ⟨⟨?_, ?_⟩, ?_, ?_⟩
  · intro hmain
    have hat := hreached.main
    rw [hmain] at hat
    exact hat
  · intro o hmain
    have hat := hreached.main
    rw [hmain] at hat
    have houtcome : o = .ok (promise s.root.input) := hat
    rw [houtcome, hreached.rooted.input, promise_toTask]
  · exact hreached.endsIn fun t ht hstill => hstill.returned ht
  · obtain ⟨t, ht, hstill, hkept⟩ := hreached.exists_still
    refine ⟨t, ht, hstill, fun l n hmem => ?_⟩
    rw [hkept] at hmem
    cases hmem

/-- A body gathers two tasks, of which one waits for a leaf and the other fails, and goes on with the first
outcome. -/
def twins : Tree Unit Nat :=
  .body (.all 2 (by decide)
    ![.body (.leaf () (.ret (.ok 3))), .body (.await (.failed .brokenTask) fun v => .ret (.ok v))]
    fun outcomes => .ret (outcomes.headD (.ok 0)))

/-- One order of acts: the leaf keeps the waker of its frame, the frame of the root is woken for no reason, the
leaf is opened, its wake arrives, and the last input that completes wakes the root. -/
def twinsRun : List (Act Unit) :=
  [.main, .call .root 0 false, .call .root 0 false, .call .root 0 false, .visit .root, .visit .root,
    .visit .root, .visit .root, .call (.input 0 0) 0 false, .call (.input 0 0) 0 false,
    .call (.input 0 0) 0 false, .visit (.input 0 0), .call (.input 0 0) 0 false, .call (.input 0 0) 0 false,
    .visit .root, .visit .root, .call (.input 0 1) 0 false, .call (.input 0 1) 0 false,
    .call (.input 0 1) 0 false, .visit (.input 0 1), .visit (.input 0 1), .call (.input 0 1) 0 false,
    .call (.input 0 1) 0 false, .call (.input 0 1) 0 false, .notify 0 1, .call (.input 0 1) 0 false,
    .visit .root, .visit .root, .visit .root, .visit .root, .visit .root, .visit .root, .call .root 0 false,
    .call .root 0 false, .main, .main,
    -- from outside
    .wake .root, .unlock (),
    -- the poll that the root is woken for finds the fan-in pending
    .call .root 1 false, .call .root 1 false, .call .root 1 false, .visit .root, .visit .root, .visit .root,
    .visit .root, .call .root 1 false, .call .root 1 false,
    -- the leaf's wake
    .arrive 0, .call (.input 0 0) 1 false, .call (.input 0 0) 1 false, .call (.input 0 0) 1 false,
    .visit (.input 0 0), .visit (.input 0 0), .call (.input 0 0) 1 false, .call (.input 0 0) 1 false,
    .call (.input 0 0) 1 false, .notify 0 0, .notify 0 0, .notify 0 0, .notify 0 0,
    .call (.input 0 0) 1 false,
    -- the fan-in's wake
    .arrive 0, .call .root 2 false, .call .root 2 false, .call .root 2 false, .visit .root, .visit .root,
    .visit .root, .visit .root, .call (.input 0 0) 2 false, .call (.input 0 0) 2 false, .visit .root,
    .visit .root, .call (.input 0 1) 1 false, .call (.input 0 1) 1 false, .visit .root, .visit .root,
    .visit .root, .visit .root, .call .root 2 false, .call .root 2 false, .call .root 2 false, .main, .main,
    .call .root 2 false, .call .root 3 false, .call .root 3 false, .main]

theorem sync_wait_returns_direct_outcome_twins :
    ∃ s o, Leads step? (Grove.start twins) s ∧ s.main = .returned o ∧ o = .ok twins.eval ∧
      twins.eval = .ok 3 := by
  have hrun : (after? step? (Grove.start twins) twinsRun).map (·.main) = some (.returned (.ok (.ok 3))) := by
    rfl
  obtain ⟨s, hs, hmain⟩ := Option.map_eq_some_iff.mp hrun
  have hleads := Leads.of_after? _ hs
  exact ⟨s, _, hleads, hmain, (sync_wait_returns_direct_outcome twins s hleads).1.2 _ hmain, by rfl⟩

end TaskDispatch.Grove
