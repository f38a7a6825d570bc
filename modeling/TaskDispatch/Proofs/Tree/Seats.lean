/-
What an act does to one frame of a tree.

Each act moves at most one frame by one of the acts of its calls, and at most one fan-in
by one of its own acts.  So the frame of the root, each fan-in and each frame of an
input is one of those that the modules before speak of (`Rooted`), and what they keep
in every order of acts they keep here.

An act on a frame from outside, `Moved`, leaves the polls of all fan-ins where they are.
-/
import TaskDispatch.Proofs.FanIn.Polls
import TaskDispatch.Proofs.Tree.Grove

namespace TaskDispatch

/-! ### The acts of a fan-in one by one -/

namespace Roll

variable {ω : Type} {s t : Roll ω}

/-- What the awaiter does wakes nobody. -/
theorem wakes_of_advance (h : s.step? .advance = some t) : t.wakes = s.wakes := by
  simp only [step?] at h
  split at h
  · cases h
  · next p hp =>
      cases p with
      | register w | enlist | claim =>
          obtain rfl := Option.some.inj h
          rfl
      | _ => simp [advanceFrom?] at h

/-- A completion wakes the awaiter where it is about to, and nowhere else. -/
theorem wakes_of_step {k : Nat} (h : s.step? (.step k) = some t) :
    t.wakes = s.wakes ∨ ∃ w, s.parties[k]? = some (some (.wake w)) ∧ t.wakes = s.wakes ++ [(k, w)] := by
  simp only [step?] at h
  split at h
  · next p hp =>
      cases p with
      | wake w =>
          obtain rfl := Option.some.inj h
          exact Or.inr ⟨w, hp, rfl⟩
      | arrive | announce | collect =>
          obtain rfl := Option.some.inj h
          exact Or.inl rfl
      | _ => simp [stepParty?] at h
  · cases h
  · cases h

end Roll

namespace Gathering

open TaskDispatch.Frame (Callers Hosted)

variable {β α ω : Type} {s t : Gathering β α ω}

/-- What the poll under way does to the frames: it starts one or calls for its task. -/
theorem of_advance (h : s.step? .advance = some t) :
    t.wakers = s.wakers ∧ t.roll.wakes = s.roll.wakes ∧
      (t.hosts = s.hosts ∨ ∃ k f f' a, s.hosts[k]? = some f ∧ f.step? a = some f' ∧
        (a = .resume ∨ a = .take) ∧ t.hosts = s.hosts.set k f') := by
  simp only [step?] at h
  cases hstage : s.stage with
  | looking w =>
      simp only [advance?, hstage] at h
      split at h
      all_goals (obtain rfl := Option.some.inj h; exact ⟨rfl, rfl, Or.inl rfl⟩)
  | starting w k =>
      simp only [advance?, hstage] at h
      split at h
      · obtain ⟨u, hu, rfl⟩ := Option.map_eq_some_iff.mp h
        obtain ⟨f, f', hf, hstep, rfl⟩ := of_onHost? hu
        exact ⟨rfl, rfl, Or.inr ⟨_, f, f', _, hf, hstep, Or.inl rfl, rfl⟩⟩
      · obtain ⟨u, hu, rfl⟩ := Option.map_eq_some_iff.mp h
        obtain ⟨roll, hroll, rfl⟩ := of_onRoll? hu
        rw [Roll.of_await hroll]
        exact ⟨rfl, rfl, Or.inl rfl⟩
  | counting =>
      simp only [advance?, hstage] at h
      split at h
      · obtain rfl := Option.some.inj h
        exact ⟨rfl, rfl, Or.inl rfl⟩
      · obtain rfl := Option.some.inj h
        exact ⟨rfl, rfl, Or.inl rfl⟩
      · obtain ⟨roll, hroll, rfl⟩ := of_onRoll? h
        exact ⟨rfl, Roll.wakes_of_advance hroll, Or.inl rfl⟩
  | collecting outs =>
      simp only [advance?, hstage] at h
      split at h
      · obtain rfl := Option.some.inj h
        exact ⟨rfl, rfl, Or.inl rfl⟩
      · obtain ⟨u, hu, rfl⟩ := Option.map_eq_some_iff.mp h
        obtain ⟨f, f', hf, hstep, rfl⟩ := of_onHost? hu
        exact ⟨rfl, rfl, Or.inr ⟨_, f, f', _, hf, hstep, Or.inr rfl, rfl⟩⟩
  | running w k =>
      simp only [advance?, hstage] at h
      split at h
      · cases h
      · split at h
        · cases h
        · split at h
          · obtain rfl := Option.some.inj h
            exact ⟨rfl, rfl, Or.inl rfl⟩
          · cases h
  | taking outs c =>
      simp only [advance?, hstage] at h
      split at h
      · cases h
      · split at h
        · obtain rfl := Option.some.inj h
          exact ⟨rfl, rfl, Or.inl rfl⟩
        · obtain rfl := Option.some.inj h
          exact ⟨rfl, rfl, Or.inl rfl⟩
        · cases h
  | resting => simp [advance?, hstage] at h
  | finished outs => simp [advance?, hstage] at h
  | broken => simp [advance?, hstage] at h

/-- Each frame of a fan-in moves as its calls do. -/
theorem host_of_turns (h : Turns s t) {k : Nat} {f' : Hosted β α} (hf' : t.hosts[k]? = some f') :
    ∃ f, s.hosts[k]? = some f ∧ (f' = f ∨ ∃ a, f.step? a = some f') := by
  have hset : ∀ (j : Nat) (f₁ f₂ : Hosted β α) (a : Callers.Act β α), s.hosts[j]? = some f₁ →
      f₁.step? a = some f₂ → (s.hosts.set j f₂)[k]? = some f' →
      ∃ f, s.hosts[k]? = some f ∧ (f' = f ∨ ∃ a, f.step? a = some f') := by
    intro j f₁ f₂ a hf₁ hstep hset
    rcases getElem?_of_set hset with ⟨rfl, rfl⟩ | ⟨-, hold⟩
    · exact ⟨f₁, hf₁, Or.inr ⟨a, hstep⟩⟩
    · exact ⟨f', hold, Or.inl rfl⟩
  cases h with
  | start w j f₁ f₂ hstage hf hstep => exact hset j f₁ f₂ _ hf hstep hf'
  | take outs f₁ f₂ hstage hf hstep => exact hset _ f₁ f₂ _ hf hstep hf'
  | wake j f₁ f₂ hf hpolls hstep => exact hset j f₁ f₂ _ hf hstep hf'
  | call j i spurious r f₁ f₂ c hf hc hquiet hleft hstep => exact hset j f₁ f₂ _ hf hstep hf'
  | announce j i n spurious r f₁ f₂ roll hf hc hstep hroll => exact hset j f₁ f₂ _ hf hstep hf'
  | _ => exact ⟨f', hf', Or.inl rfl⟩

/-- **Each frame of a fan-in is one that its calls have brought where it is.** -/
theorem host_of_leads {inputs : List (Task β α)} (h : Leads step? (start inputs : Gathering β α ω) s)
    {k : Nat} {f : Hosted β α} (hf : s.hosts[k]? = some f) :
    Leads Hosted.step? (.start f.input) f := by
  have hrun : ∀ (k : Nat) f, s.hosts[k]? = some f → Leads Hosted.step? (.start f.input) f := by
    refine h.keeps (P := fun u => ∀ (k : Nat) f, u.hosts[k]? = some f →
      Leads Hosted.step? (.start f.input) f) ?_ ?_
    · intro u a v hu hstep k f' hf'
      obtain ⟨f, hf, rfl | ⟨b, hb⟩⟩ := host_of_turns (turns_of_step? hstep) hf'
      · exact hu k f' hf
      · rw [(Hosted.of_step? hb).1]
        exact .step b (hu k f hf) hb
    · intro k f hf
      simp only [start, List.getElem?_map, Option.map_eq_some_iff] at hf
      obtain ⟨t, -, rfl⟩ := hf
      exact .refl _
  exact hrun k f hf

end Gathering

namespace Grove

open TaskDispatch.Frame (Callers Hosted)

variable {ℓ α : Type} {s t u : Grove ℓ α} {n : Seat}

/-! ### One fan-in moves -/

theorem host?_setFan {g : Nat} {b : Branch ℓ α} (hb : s.branches[g]? = some b)
    (fan : Gathering (Body ℓ α) α Seat) (k : Nat) :
    (s.setFan g b fan).host? (.input g k) = fan.hosts[k]? := by
  have hlt := (List.getElem?_eq_some_iff.mp hb).1
  simp [host?, setFan, List.getElem?_set_self hlt]

theorem host?_setFan_of_ne {g g' : Nat} (b : Branch ℓ α) (fan : Gathering (Body ℓ α) α Seat) (k : Nat)
    (h : g' ≠ g) : (s.setFan g b fan).host? (.input g' k) = s.host? (.input g' k) := by
  simp [host?, setFan, List.getElem?_set_ne (Ne.symm h)]

theorem host?_input {g k : Nat} {b : Branch ℓ α} (hb : s.branches[g]? = some b) :
    s.host? (.input g k) = b.fan.hosts[k]? := by
  simp [host?, hb]

/-! ### One fan-in is made -/

/-- A fan-in is added. -/
def join (s : Grove ℓ α) (b : Branch ℓ α) : Grove ℓ α := { s with branches := s.branches ++ [b] }

theorem getElem?_join_self (s : Grove ℓ α) (b : Branch ℓ α) : (s.join b).branches[s.branches.length]? = some b := by
  simp [join]

theorem getElem?_join {g : Nat} {b' : Branch ℓ α} (b : Branch ℓ α) (hb' : s.branches[g]? = some b') :
    (s.join b).branches[g]? = some b' :=
  (List.getElem?_append_left (List.getElem?_eq_some_iff.mp hb').1).trans hb'

/-- Every fan-in has been there, or is the new one. -/
theorem getElem?_back_of_join {g : Nat} {b b' : Branch ℓ α} (hb' : (s.join b).branches[g]? = some b') :
    s.branches[g]? = some b' ∨ g = s.branches.length ∧ b' = b := by
  by_cases hg : g < s.branches.length
  · exact Or.inl ((List.getElem?_append_left hg).symm.trans hb')
  · have hlt := (List.getElem?_eq_some_iff.mp hb').1
    simp only [join, List.length_append, List.length_singleton] at hlt
    obtain rfl : g = s.branches.length := by omega
    exact Or.inr ⟨rfl, Option.some.inj (hb'.symm.trans (getElem?_join_self s b))⟩

theorem host?_join {m : Seat} {f : Hosted (Body ℓ α) α} (b : Branch ℓ α) (hf : s.host? m = some f) :
    (s.join b).host? m = some f := by
  cases m with
  | root => exact hf
  | input g i =>
      obtain ⟨b', hb', hhost⟩ := Option.bind_eq_some_iff.mp hf
      exact (host?_input (getElem?_join b hb')).trans hhost

/-- Every frame has been there, or is that of an input of the new fan-in. -/
theorem host?_back_of_join {m : Seat} {b : Branch ℓ α} {f : Hosted (Body ℓ α) α}
    (hf : (s.join b).host? m = some f) :
    s.host? m = some f ∨ ∃ k, m = .input s.branches.length k ∧ b.fan.hosts[k]? = some f := by
  cases m with
  | root => exact Or.inl hf
  | input g k =>
      obtain ⟨b', hb', hhost⟩ := Option.bind_eq_some_iff.mp hf
      rcases getElem?_back_of_join hb' with hold | ⟨rfl, rfl⟩
      · exact Or.inl ((host?_input hold).trans hhost)
      · exact Or.inr ⟨k, rfl, hhost⟩

theorem host?_length (s : Grove ℓ α) (k : Nat) : s.host? (.input s.branches.length k) = none := by
  simp [host?]

/-- The frame of a new fan-in's input is new. -/
theorem host_start {k i : Nat} {inputs : Fin k → Tree ℓ α} {f : Hosted (Body ℓ α) α}
    (hf : (Gathering.start (List.ofFn fun i => (inputs i).toTask) : Gathering (Body ℓ α) α Seat).hosts[i]? = some f) :
    ∃ h : i < k, f = .start (inputs ⟨i, h⟩).toTask := by
  simp only [Gathering.start, List.getElem?_map, List.getElem?_ofFn, Option.map_eq_some_iff] at hf
  obtain ⟨task, htask, rfl⟩ := hf
  split at htask
  · next hi =>
      obtain rfl := Option.some.inj htask
      exact ⟨hi, rfl⟩
  · cases htask

/-- The inputs of a new fan-in come to what they come to by themselves. -/
theorem promises_join (s : Grove ℓ α) (n : Seat) {k : Nat} (inputs : Fin k → Tree ℓ α) :
    (s.join ⟨n, .start (List.ofFn fun i => (inputs i).toTask)⟩).promises s.branches.length =
      List.ofFn fun i => (inputs i).eval := by
  simp [Grove.promises, getElem?_join_self, Branch.promises, Gathering.start, Hosted.start, List.map_ofFn,
    Function.comp_def]

theorem promises_join_of_lt {g : Nat} (b : Branch ℓ α) (hg : g < s.branches.length) :
    (s.join b).promises g = s.promises g := by
  rw [Grove.promises, Grove.promises, join, List.getElem?_append_left hg]

/-- What an act from outside leaves of a fan-in: its poll stays where it is, and nobody is woken. -/
structure Branch.Aside (b b' : Branch ℓ α) : Prop where
  owner : b'.owner = b.owner
  promises : b'.promises = b.promises
  stage : b'.fan.stage = b.fan.stage
  wakers : b'.fan.wakers = b.fan.wakers
  wakes : b'.fan.roll.wakes = b.fan.roll.wakes

theorem Branch.Aside.refl (b : Branch ℓ α) : b.Aside b := ⟨rfl, rfl, rfl, rfl, rfl⟩

/-- The frame at a seat is moved from outside, and nothing else that its neighbours look at. -/
structure Moved (s t : Grove ℓ α) (n : Seat) (a : Callers.Act (Body ℓ α) α) : Prop where
  host : ∃ f f', s.host? n = some f ∧ f.step? a = some f' ∧ t.host? n = some f'
  others : ∀ m, m ≠ n → t.host? m = s.host? m
  branch : ∀ (g : Nat) b, s.branches[g]? = some b → ∃ b', t.branches[g]? = some b' ∧ b.Aside b'
  length : t.branches.length = s.branches.length
  visits : t.visits = s.visits
  opened : t.opened = s.opened
  kept : t.kept = s.kept
  wakes : t.wakes = s.wakes

theorem moved_of_root {a : Callers.Act (Body ℓ α) α} {root : Hosted (Body ℓ α) α}
    (hstep : s.root.step? a = some root) (latch : Latch) (main : Main α) :
    Moved s { s with root, latch, main } .root a where
  host := ⟨s.root, root, rfl, hstep, rfl⟩
  others m hm := by
    cases m with
    | root => exact absurd rfl hm
    | input g k => rfl
  branch g b hb := ⟨b, hb, .refl b⟩
  length := rfl
  visits := rfl
  opened := rfl
  kept := rfl
  wakes := rfl

theorem moved_of_input {g k : Nat} {b : Branch ℓ α} {f f' : Hosted (Body ℓ α) α}
    {a : Callers.Act (Body ℓ α) α} (hb : s.branches[g]? = some b) (hf : b.fan.hosts[k]? = some f)
    (hstep : f.step? a = some f') {roll : Roll Seat} (hwakes : roll.wakes = b.fan.roll.wakes) :
    Moved s (s.setFan g b { b.fan with roll, hosts := b.fan.hosts.set k f' }) (.input g k) a where
  host := by
    refine ⟨f, f', (host?_input hb).trans hf, hstep, (host?_setFan hb _ k).trans ?_⟩
    exact List.getElem?_set_self (List.getElem?_eq_some_iff.mp hf).1
  others m hm := by
    cases m with
    | root => rfl
    | input g' k' =>
        by_cases hg : g' = g
        · subst hg
          have hk : k ≠ k' := fun heq => hm (by rw [heq])
          rw [host?_setFan hb, host?_input hb]
          exact List.getElem?_set_ne hk
        · exact host?_setFan_of_ne _ _ k' hg
  branch g' b' hb' := by
    refine exists_getElem?_set hb hb' ⟨rfl, ?_, rfl, rfl, hwakes⟩ (.refl b')
    have hinput : (b.fan.hosts.map (·.input))[k]? = some f'.input := by
      rw [List.getElem?_map, hf, (Hosted.of_step? hstep).1]
      rfl
    obtain ⟨hlt, heq⟩ := List.getElem?_eq_some_iff.mp hinput
    simp only [Branch.promises, List.map_set, ← heq, List.set_getElem_self]
  length := List.length_set ..
  visits := rfl
  opened := rfl
  kept := rfl
  wakes := rfl

/-- A call of a frame moves its frame. -/
theorem moved_of_go? {j : Nat} {spurious : Bool} {r : Polled (Body ℓ α) α}
    (h : s.go? n j spurious r = some t) : Moved s t n (.go j spurious r) := by
  cases n with
  | root =>
      simp only [go?] at h
      split at h
      · cases h
      · split at h
        · obtain ⟨u, hu, rfl⟩ := Option.map_eq_some_iff.mp h
          obtain ⟨root, hstep, rfl⟩ := of_onRoot? hu
          exact moved_of_root hstep _ _
        · obtain ⟨root, hstep, rfl⟩ := of_onRoot? h
          exact moved_of_root hstep _ _
  | input g k =>
      obtain ⟨b, fan, hb, hcall, rfl⟩ := of_onBranch? h
      obtain ⟨f, f', roll, hf, hstep, rfl, hroll⟩ := Gathering.of_call hcall
      refine moved_of_input hb hf hstep ?_
      rcases hroll with rfl | hroll
      · rfl
      · rw [(Roll.of_enter hroll).2]

/-- A wake moves a frame that has been polled. -/
theorem moved_of_wake? (h : s.wake? n = some t) :
    Moved s t n .resume ∧ ∃ f, s.host? n = some f ∧ 0 < f.frame.shared.polls := by
  cases n with
  | root =>
      simp only [wake?] at h
      split at h
      · next hpolls =>
          obtain ⟨root, hstep, rfl⟩ := of_onRoot? h
          exact ⟨moved_of_root hstep _ _, s.root, rfl, hpolls⟩
      · cases h
  | input g k =>
      obtain ⟨b, fan, hb, hwake, rfl⟩ := of_onBranch? h
      obtain ⟨f, f', hf, hpolls, hstep, rfl⟩ := Gathering.of_wake hwake
      exact ⟨moved_of_input hb hf hstep rfl, f, (host?_input hb).trans hf, hpolls⟩

theorem Moved.promises {a : Callers.Act (Body ℓ α) α} (h : Moved s t n a) (g : Nat) :
    t.promises g = s.promises g := by
  cases hb : s.branches[g]? with
  | none =>
      have hnone : t.branches[g]? = none := by
        rw [List.getElem?_eq_none_iff] at hb ⊢
        rw [h.length]
        exact hb
      simp [Grove.promises, hb, hnone]
  | some b =>
      obtain ⟨b', hb', haway⟩ := h.branch g b hb
      simp [Grove.promises, hb, hb', haway.promises]

/-! ### What the frames and fan-ins of a tree are -/

/-- The frame of the root and the fan-ins are where their own acts have brought them. -/
structure Rooted (tree : Tree ℓ α) (s : Grove ℓ α) : Prop where
  input : s.root.input = tree.toTask
  root : Leads Hosted.step? (.start tree.toTask) s.root
  branch : ∀ (g : Nat) b, s.branches[g]? = some b → ∃ (k : Nat) (_ : k < 2 ^ 64) (inputs : Fin k → Tree ℓ α),
    Leads Gathering.step? (.start (List.ofFn fun i => (inputs i).toTask)) b.fan

/-- What an act can do to the frame of the root and to the fan-ins. -/
structure Grows (s t : Grove ℓ α) : Prop where
  root : t.root = s.root ∨ ∃ a, s.root.step? a = some t.root
  branch : ∀ (g : Nat) b, s.branches[g]? = some b → ∃ b', t.branches[g]? = some b' ∧
    b'.owner = b.owner ∧ (b'.fan = b.fan ∨ ∃ a, b.fan.step? a = some b'.fan)
  fresh : ∀ (g : Nat) b', t.branches[g]? = some b' → s.branches[g]? = none →
    ∃ (k : Nat) (_ : k < 2 ^ 64) (inputs : Fin k → Tree ℓ α),
      b'.fan = .start (List.ofFn fun i => (inputs i).toTask)

namespace Grows

theorem of_eq (hroot : t.root = s.root) (hbranches : t.branches = s.branches) : Grows s t where
  root := Or.inl hroot
  branch g b hb := ⟨b, by rw [hbranches]; exact hb, rfl, Or.inl rfl⟩
  fresh g b hb hnone := by
    rw [hbranches, hnone] at hb
    cases hb

theorem of_root {a : Callers.Act (Body ℓ α) α} (hstep : s.root.step? a = some t.root)
    (hbranches : t.branches = s.branches) : Grows s t where
  root := Or.inr ⟨a, hstep⟩
  branch g b hb := ⟨b, by rw [hbranches]; exact hb, rfl, Or.inl rfl⟩
  fresh g b hb hnone := by
    rw [hbranches, hnone] at hb
    cases hb

theorem of_fan {g : Nat} {b : Branch ℓ α} {fan : Gathering (Body ℓ α) α Seat}
    {a : Gathering.Act (Body ℓ α) α Seat} (hb : s.branches[g]? = some b) (hstep : b.fan.step? a = some fan)
    (hroot : t.root = s.root) (hbranches : t.branches = s.branches.set g { b with fan }) : Grows s t where
  root := Or.inl hroot
  branch g' b' hb' := by
    rw [hbranches]
    exact exists_getElem?_set (P := fun b b' : Branch ℓ α =>
      b'.owner = b.owner ∧ (b'.fan = b.fan ∨ ∃ a, b.fan.step? a = some b'.fan)) hb hb'
      ⟨rfl, Or.inr ⟨a, hstep⟩⟩ ⟨rfl, Or.inl rfl⟩
  fresh g' b' hb' hnone := by
    rw [hbranches] at hb'
    rcases getElem?_of_set hb' with ⟨rfl, -⟩ | ⟨-, hold⟩
    · rw [hb] at hnone
      cases hnone
    · rw [hold] at hnone
      cases hnone

theorem of_go? {j : Nat} {spurious : Bool} {r : Polled (Body ℓ α) α}
    (h : s.go? n j spurious r = some t) : Grows s t := by
  cases n with
  | root =>
      simp only [go?] at h
      split at h
      · cases h
      · split at h
        · obtain ⟨u, hu, rfl⟩ := Option.map_eq_some_iff.mp h
          obtain ⟨root, hstep, rfl⟩ := of_onRoot? hu
          exact .of_root hstep rfl
        · obtain ⟨root, hstep, rfl⟩ := of_onRoot? h
          exact .of_root hstep rfl
  | input g k =>
      obtain ⟨b, fan, hb, hcall, rfl⟩ := of_onBranch? h
      exact .of_fan hb hcall rfl rfl

theorem of_wake? (h : s.wake? n = some t) : Grows s t := by
  cases n with
  | root =>
      simp only [wake?] at h
      split at h
      · obtain ⟨root, hstep, rfl⟩ := of_onRoot? h
        exact .of_root hstep rfl
      · cases h
  | input g k =>
      obtain ⟨b, fan, hb, hwake, rfl⟩ := of_onBranch? h
      exact .of_fan hb hwake rfl rfl

theorem same (h : Grows s t) (hroot : u.root = t.root) (hbranches : u.branches = t.branches) :
    Grows s u where
  root := by
    rw [hroot]
    exact h.root
  branch := by
    rw [hbranches]
    exact h.branch
  fresh := by
    rw [hbranches]
    exact h.fresh

theorem of_join (n : Seat) {k : Nat} (hk : k < 2 ^ 64) (inputs : Fin k → Tree ℓ α) :
    Grows s (s.join ⟨n, .start (List.ofFn fun i => (inputs i).toTask)⟩) where
  root := Or.inl rfl
  branch g b hb := ⟨b, getElem?_join _ hb, rfl, Or.inl rfl⟩
  fresh g b hb hnone := by
    rcases getElem?_back_of_join hb with hold | ⟨-, rfl⟩
    · rw [hold] at hnone
      cases hnone
    · exact ⟨k, hk, inputs, rfl⟩

/-- Each act moves the frame of the root and the fan-ins by their own acts, or adds a new fan-in. -/
theorem of_turns [DecidableEq ℓ] {a : Act ℓ} (h : Turns s a t) : Grows s t := by
  cases h with
  | enter root hmain hstep => exact .of_root hstep rfl
  | fetch root hmain hstep => exact .of_root hstep rfl
  | move n j spurious f c t hf hc hbegin hback hgo => exact .of_go? hgo
  | begin n j m spurious f u hf hc hgo => exact (of_go? hgo).same rfl rfl
  | back n j m spurious f lent b v r u hf hc hb hv hr hgo => exact (of_go? hgo).same rfl rfl
  | gather n v k hk inputs next hv hfocus => exact (of_join n hk inputs).same rfl rfl
  | ask n v g next b fan hv hfocus hb hstep => exact .of_fan hb hstep rfl rfl
  | advance n v g next b fan hv hfocus hb hstage hstep => exact .of_fan hb hstep rfl rfl
  | notify g k b fan w hb hstep hw => exact .of_fan hb hstep rfl rfl
  | arrive i n u hi hwake => exact (of_wake? hwake).same rfl rfl
  | wake n t hwake => exact .of_wake? hwake
  | _ => exact .of_eq rfl rfl

/-- Every fan-in has been there, or is new. -/
theorem back (h : Grows s t) {g : Nat} {b' : Branch ℓ α} (hb' : t.branches[g]? = some b') :
    (∃ b, s.branches[g]? = some b ∧ b'.owner = b.owner ∧
      (b'.fan = b.fan ∨ ∃ a, b.fan.step? a = some b'.fan)) ∨
    s.branches[g]? = none ∧ ∃ (k : Nat) (_ : k < 2 ^ 64) (inputs : Fin k → Tree ℓ α),
      b'.fan = .start (List.ofFn fun i => (inputs i).toTask) := by
  cases hb : s.branches[g]? with
  | none => exact Or.inr ⟨rfl, h.fresh g b' hb' hb⟩
  | some b =>
      obtain ⟨b'', hb'', howner, hfan⟩ := h.branch g b hb
      obtain rfl := Option.some.inj (hb''.symm.trans hb')
      exact Or.inl ⟨b, rfl, howner, hfan⟩

/-- Every frame stays, and moves as its calls do. -/
theorem host (h : Grows s t) {f : Hosted (Body ℓ α) α} (hf : s.host? n = some f) :
    ∃ f', t.host? n = some f' ∧ (f' = f ∨ ∃ a, f.step? a = some f') := by
  cases n with
  | root =>
      obtain rfl := Option.some.inj hf
      exact ⟨t.root, rfl, h.root⟩
  | input g k =>
      obtain ⟨b, hb, hhost⟩ := Option.bind_eq_some_iff.mp hf
      obtain ⟨b', hb', -, hfan⟩ := h.branch g b hb
      rcases hfan with hsame | ⟨a, hstep⟩
      · exact ⟨f, (host?_input hb').trans (by rw [hsame]; exact hhost), Or.inl rfl⟩
      · have hturn := Gathering.turns_of_step? hstep
        have hlen : b'.fan.hosts.length = b.fan.hosts.length := by
          have := congrArg List.length (Gathering.inputs_of_turns hturn)
          simpa only [List.length_map] using this
        have hlt : k < b'.fan.hosts.length := hlen ▸ (List.getElem?_eq_some_iff.mp hhost).1
        have hf' : b'.fan.hosts[k]? = some b'.fan.hosts[k] := List.getElem?_eq_getElem hlt
        obtain ⟨f₀, hf₀, hmove⟩ := Gathering.host_of_turns hturn hf'
        obtain rfl := Option.some.inj (hhost.symm.trans hf₀)
        exact ⟨_, (host?_input hb').trans hf', hmove⟩

end Grows

namespace Rooted

variable {tree : Tree ℓ α}

theorem start (tree : Tree ℓ α) : Rooted tree (Grove.start tree) where
  input := rfl
  root := .refl _
  branch g b hb := by cases hb

theorem grow (h : Rooted tree s) (hgrows : Grows s t) : Rooted tree t where
  input := by
    rcases hgrows.root with hsame | ⟨a, hstep⟩
    · rw [hsame]
      exact h.input
    · rw [(Hosted.of_step? hstep).1]
      exact h.input
  root := by
    rcases hgrows.root with hsame | ⟨a, hstep⟩
    · rw [hsame]
      exact h.root
    · exact .step a h.root hstep
  branch g b' hb' := by
    rcases hgrows.back hb' with ⟨b, hb, -, hfan⟩ | ⟨-, k, hk, inputs, hfan⟩
    · obtain ⟨k, hk, inputs, hleads⟩ := h.branch g b hb
      rcases hfan with hsame | ⟨a, hstep⟩
      · exact ⟨k, hk, inputs, by rw [hsame]; exact hleads⟩
      · exact ⟨k, hk, inputs, .step a hleads hstep⟩
    · exact ⟨k, hk, inputs, by rw [hfan]; exact .refl _⟩

/-- What every fan-in keeps holds of those of a tree, and their inputs are tasks of the tree. -/
theorem of_branch (h : Rooted tree s) {g : Nat} {b : Branch ℓ α} (hb : s.branches[g]? = some b) :
    b.fan.Gathered ∧ b.fan.hosts.length < 2 ^ 64 ∧ ∀ (k : Nat) f, b.fan.hosts[k]? = some f →
      (∃ t : Tree ℓ α, f.input = t.toTask) ∧ Leads Hosted.step? (.start f.input) f := by
  obtain ⟨n, hn, inputs, hleads⟩ := h.branch g b hb
  have htree : ∀ t ∈ List.ofFn fun i => (inputs i).toTask, ∃ i, t = (inputs i).toTask := by
    intro t ht
    obtain ⟨i, hi⟩ := List.mem_ofFn.mp ht
    exact ⟨i, hi.symm⟩
  have hsound : ∀ t ∈ List.ofFn fun i => (inputs i).toTask, t.Sound := by
    intro t ht
    obtain ⟨i, rfl⟩ := htree t ht
    exact sound_toTask (inputs i)
  have hlen : (List.ofFn fun i => (inputs i).toTask).length < 2 ^ 64 := by
    rw [List.length_ofFn]
    exact hn
  obtain ⟨hgathered, hinputs⟩ := Gathering.gathered_of_leads hsound hlen hleads
  refine ⟨hgathered, ?_, ?_⟩
  · rw [← hinputs, List.length_map] at hlen
    exact hlen
  · intro k f hf
    refine ⟨?_, Gathering.host_of_leads hleads hf⟩
    obtain ⟨i, hi⟩ := htree f.input (hinputs ▸ List.mem_map_of_mem (List.mem_of_getElem? hf))
    exact ⟨inputs i, hi⟩

theorem gathered (h : Rooted tree s) {g : Nat} {b : Branch ℓ α} (hb : s.branches[g]? = some b) :
    b.fan.Gathered :=
  (h.of_branch hb).1

/-- Each frame is around a task of the tree, and is where its calls have brought it. -/
theorem hosted (h : Rooted tree s) {f : Hosted (Body ℓ α) α} (hf : s.host? n = some f) :
    (∃ t : Tree ℓ α, f.input = t.toTask) ∧ Leads Hosted.step? (.start f.input) f := by
  cases n with
  | root =>
      obtain rfl := Option.some.inj hf
      refine ⟨⟨tree, h.input⟩, ?_⟩
      rw [h.input]
      exact h.root
  | input g k =>
      obtain ⟨b, hb, hhost⟩ := Option.bind_eq_some_iff.mp hf
      exact (h.of_branch hb).2.2 k f hhost

/-- What every frame keeps holds of those of a tree. -/
theorem kept (h : Rooted tree s) {f : Hosted (Body ℓ α) α} (hf : s.host? n = some f) : f.Kept := by
  obtain ⟨⟨t, ht⟩, hleads⟩ := h.hosted hf
  exact .of_leads (ht ▸ sound_toTask t) hleads

theorem answered (h : Rooted tree s) {f : Hosted (Body ℓ α) α} (hf : s.host? n = some f) :
    Frame.Answered f.frame :=
  .of_leads (Hosted.leads_frame (h.hosted hf).2)

end Rooted

end Grove

end TaskDispatch
