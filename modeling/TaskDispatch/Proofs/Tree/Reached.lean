/-
What holds in every order of acts.

The acts that `Tended` has not seen yet: a fan-in is polled by the frame that made it,
its poll goes on, an input counts, a wake arrives, a leaf is opened.  Together they make
`Tended.step`: every act tends to every frame.

The caller of `sync_wait` adds one thing of its own, `MainAt`.  The latch is set exactly
when the root's frame has been told of its completion, so the caller is the only one to
call for the task, does so after the task has its outcome, and gets it.
-/
import TaskDispatch.Proofs.Tree.Tended

namespace TaskDispatch.Grove

open TaskDispatch.Frame (Callers Hosted Call)

variable {ℓ α : Type} {s t u : Grove ℓ α} {n : Seat}

/-! ### A fan-in moves -/

/-- What a fan-in does to the frames of its inputs by itself: it calls one, or none. -/
def Reaches (hosts hosts' : List (Hosted (Body ℓ α) α)) : Prop :=
  hosts' = hosts ∨ ∃ k f f' a, hosts[k]? = some f ∧ f.step? a = some f' ∧ (a = .resume ∨ a = .take) ∧
    hosts' = hosts.set k f'

theorem Reaches.getElem? {hosts hosts' : List (Hosted (Body ℓ α) α)} (h : Reaches hosts hosts') {k : Nat}
    {f : Hosted (Body ℓ α) α} (hf : hosts[k]? = some f) : ∃ f', hosts'[k]? = some f' ∧ f.Aside f' := by
  rcases h with rfl | ⟨j, f₁, f₂, a, hf₁, hstep, ha, rfl⟩
  · exact ⟨f, hf, .refl f⟩
  · exact exists_getElem?_set hf₁ hf (Hosted.aside_of_begin hstep ha) (.refl f)

theorem Reaches.length {hosts hosts' : List (Hosted (Body ℓ α) α)} (h : Reaches hosts hosts') :
    hosts'.length = hosts.length := by
  rcases h with rfl | ⟨j, f₁, f₂, a, hf₁, hstep, ha, rfl⟩
  · rfl
  · exact List.length_set ..

theorem Reaches.inputs {hosts hosts' : List (Hosted (Body ℓ α) α)} (h : Reaches hosts hosts') :
    hosts'.map (·.input) = hosts.map (·.input) := by
  refine List.ext_getElem? fun k => ?_
  rw [List.getElem?_map, List.getElem?_map]
  cases hf : hosts[k]? with
  | none =>
      rw [List.getElem?_eq_none_iff, ← h.length, ← List.getElem?_eq_none_iff] at hf
      rw [hf]
  | some f =>
      obtain ⟨f', hf', haside⟩ := h.getElem? hf
      rw [hf', Option.map_some, Option.map_some, haside.input]

section

variable {g : Nat} {b : Branch ℓ α} {fan : Gathering (Body ℓ α) α Seat}

theorem promises_setFan (hb : s.branches[g]? = some b) (hreaches : Reaches b.fan.hosts fan.hosts) :
    (s.setFan g b fan).promises = s.promises := by
  funext g'
  have hsame : ({ b with fan } : Branch ℓ α).promises = b.promises := by
    rw [Branch.promises, Branch.promises, hreaches.inputs]
  by_cases hg : g' = g
  · subst hg
    simp [Grove.promises, setFan, hb, List.getElem?_set_self (List.getElem?_eq_some_iff.mp hb).1, hsame]
  · simp [Grove.promises, setFan, List.getElem?_set_ne (Ne.symm hg)]

theorem host?_of_reaches (hb : s.branches[g]? = some b) (hreaches : Reaches b.fan.hosts fan.hosts) {m : Seat}
    {f : Hosted (Body ℓ α) α} (hf : s.host? m = some f) :
    ∃ f', (s.setFan g b fan).host? m = some f' ∧ f.Aside f' := by
  cases m with
  | root => exact ⟨f, hf, .refl f⟩
  | input g' k =>
      by_cases hg : g' = g
      · subst hg
        rw [host?_input hb] at hf
        rw [host?_setFan hb]
        exact hreaches.getElem? hf
      · exact ⟨f, (host?_setFan_of_ne b fan k hg).trans hf, .refl f⟩

theorem host?_back_of_reaches (hb : s.branches[g]? = some b) (hreaches : Reaches b.fan.hosts fan.hosts)
    {m : Seat} {f' : Hosted (Body ℓ α) α} (hf' : (s.setFan g b fan).host? m = some f') :
    ∃ f, s.host? m = some f ∧ f.Aside f' := by
  cases hf : s.host? m with
  | none =>
      refine absurd hf' ?_
      cases m with
      | root => cases hf
      | input g' k =>
          by_cases hg : g' = g
          · subst hg
            rw [host?_input hb, List.getElem?_eq_none_iff, ← hreaches.length, ← List.getElem?_eq_none_iff] at hf
            rw [host?_setFan hb, hf]
            exact nofun
          · rw [host?_setFan_of_ne b fan k hg, hf]
            exact nofun
  | some f =>
      obtain ⟨f₁, hf₁, haside⟩ := host?_of_reaches hb hreaches hf
      obtain rfl := Option.some.inj (hf₁.symm.trans hf')
      exact ⟨f, rfl, haside⟩

/-- A fan-in moves by itself; it lets wakes of its owner go, and those alone. -/
theorem Later.of_setFan (hb : s.branches[g]? = some b) (hreaches : Reaches b.fan.hosts fan.hosts)
    {wakes : List Seat} (hwakes : ∀ m ∈ s.wakes, m ∈ wakes) {m : Seat}
    (hsame : m = b.owner → fan.stage = b.fan.stage ∧ fan.wakers = b.fan.wakers ∧
      (fan.roll.wakes = b.fan.roll.wakes ∨ m ∈ wakes)) :
    Later s { s.setFan g b fan with wakes } m := by
  refine ⟨?_, fun l hl => hl, ?_, ?_⟩
  · rintro (hwake | ⟨f, hf, hroused⟩)
    · exact Or.inl (hwakes m hwake)
    · obtain ⟨f', hf', haside⟩ := host?_of_reaches hb hreaches hf
      exact Or.inr ⟨f', hf', haside.roused hroused⟩
  · intro l hl hkept
    show if s.opened l then _ else _
    rw [hl, if_neg Bool.false_ne_true]
    exact hkept
  · intro g' b' hb' howner
    by_cases hg : g' = g
    · subst hg
      obtain rfl := Option.some.inj (hb.symm.trans hb')
      obtain ⟨hstage, hwakers, hroused⟩ := hsame howner.symm
      refine ⟨_, List.getElem?_set_self (List.getElem?_eq_some_iff.mp hb).1, howner, ?_, hstage, hwakers, ?_⟩
      · simp only [Branch.promises, hreaches.inputs]
      · exact hroused.imp_right Or.inl
    · refine ⟨b', ?_, howner, rfl, rfl, rfl, Or.inl rfl⟩
      show (s.branches.set g _)[g']? = _
      rw [List.getElem?_set_ne (Ne.symm hg)]
      exact hb'

end

/-- A call that neither begins nor ends a poll of a body leaves the body alone. -/
theorem aside_of_go? {j : Nat} {spurious : Bool} {r : Polled (Body ℓ α) α} {f : Hosted (Body ℓ α) α}
    {c : Call (Body ℓ α) α} (hf : s.host? n = some f) (hc : f.frame.calls[j]? = some c)
    (hbegin : c.place ≠ .resuming .polling) (hback : ∀ lent, c.place = .inPoll lent → lent.begin? = none)
    (hgo : s.go? n j spurious r = some t) {f₁ f' : Hosted (Body ℓ α) α} (hf₁ : s.host? n = some f₁)
    (hf' : t.host? n = some f') : f₁.Aside f' := by
  obtain rfl := Option.some.inj (hf.symm.trans hf₁)
  obtain ⟨f₂, f₃, hf₂, hstep, hf₃⟩ := (moved_of_go? hgo).host
  obtain rfl := Option.some.inj (hf.symm.trans hf₂)
  obtain rfl := Option.some.inj (hf'.symm.trans hf₃)
  refine Hosted.aside_of_go hstep hc hbegin ?_
  obtain ⟨place, m⟩ := c
  cases place with
  | inPoll lent =>
      show lent.begin?.isSome = false
      rw [hback lent rfl]
      rfl
  | _ => rfl

namespace Tended

variable {tree : Tree ℓ α} {v : Visit ℓ α} {g : Nat} {b : Branch ℓ α}
  {fan : Gathering (Body ℓ α) α Seat} {next : List (Outcome α) → Program ℓ α}

/-- The poll of a body moves the fan-in that it is at. -/
theorem of_ownFan (h : s.Tended) {w : Visit ℓ α} (hv : s.visits n = some v)
    (hb : s.branches[g]? = some b) (howner : b.owner = n) {a : Gathering.Act (Body ℓ α) α Seat}
    (hstep : b.fan.step? a = some fan) (hreaches : Reaches b.fan.hosts fan.hosts)
    (heval : w.eval s.promises = v.eval s.promises) (hfocus : (s.setFan g b fan).FocusAt n w.focus)
    (hwakers : ∀ m ∈ fan.wakers, m ∈ b.fan.wakers ∨ m = n) :
    ((s.setFan g b fan).setVisit n (some w)).Tended := by
  refine h.of_visit (u := s.setFan g b fan) hv (.of_fan hb hstep rfl rfl) rfl ?_ ⟨?_, hfocus⟩ ?_ ?_ rfl h.kept
  · intro m f' hf'
    obtain ⟨f, hf, haside⟩ := host?_back_of_reaches hb hreaches hf'
    refine Or.inr ⟨f, hf, haside, fun hm => ?_⟩
    exact .of_setFan hb hreaches (fun _ => id) fun hown => absurd (hown.trans howner) hm
  · rw [promises_setFan hb hreaches]
    exact heval
  · intro g' b' hb' hnone
    rcases getElem?_of_set hb' with ⟨rfl, -⟩ | ⟨-, hold⟩
    · exact absurd (hb.symm.trans hnone) nofun
    · exact absurd (hold.symm.trans hnone) nofun
  · intro g' b₁ b₂ hb₁ hb₂ m hm
    rcases getElem?_of_set hb₂ with ⟨rfl, rfl⟩ | ⟨-, hold⟩
    · obtain rfl := Option.some.inj (hb.symm.trans hb₁)
      rw [howner]
      exact hwakers m hm
    · obtain rfl := Option.some.inj (hold.symm.trans hb₁)
      exact Or.inl hm

/-- A poll of the fan-in begins, with the waker of the frame. -/
theorem ask (h : s.Tended) (hv : s.visits n = some v) (hfocus : v.focus = .asks g next)
    (hb : s.branches[g]? = some b) (hstep : b.fan.step? (.poll n) = some fan) :
    ((s.setFan g b fan).setVisit n (some { v with focus := .awaits g next })).Tended := by
  obtain ⟨f, hf⟩ := h.seated n v hv
  have hat := ((h.frame n f hf).goes v hv).2
  rw [hfocus] at hat
  obtain ⟨b', hb', howner, -⟩ := hat g rfl
  obtain rfl := Option.some.inj (hb.symm.trans hb')
  obtain ⟨-, rfl⟩ := Gathering.of_poll hstep
  refine h.of_ownFan hv hb howner hstep (Or.inl rfl) (Visit.eval_focus (by rw [hfocus]; rfl)) ?_ ?_
  · refine ⟨_, List.getElem?_set_self (List.getElem?_eq_some_iff.mp hb).1, howner, ?_, ?_⟩
    · exact List.append_ne_nil_of_right_ne_nil _ nofun
    · rintro (hstage | hstage)
      · cases hstage
      · cases hstage
  · intro m hm
    exact (List.mem_append.mp hm).imp_right List.mem_singleton.mp

/-- The poll of the fan-in takes a step. -/
theorem advance (h : s.Tended) (hrooted : Rooted tree s) (hv : s.visits n = some v)
    (hfocus : v.focus = .awaits g next) (hb : s.branches[g]? = some b)
    (hstep : b.fan.step? .advance = some fan) : (s.setFan g b fan).Tended := by
  obtain ⟨f, hf⟩ := h.seated n v hv
  have hat := ((h.frame n f hf).goes v hv).2
  rw [hfocus] at hat
  obtain ⟨b', hb', howner, hasked, hroused⟩ := hat
  obtain rfl := Option.some.inj (hb.symm.trans hb')
  obtain ⟨hwakers, hwakes, hreaches⟩ := Gathering.of_advance hstep
  rw [← setVisit_self (s := s.setFan g b fan) (n := n) (v := some v) hv]
  refine h.of_ownFan hv hb howner hstep hreaches rfl ?_ ?_
  · rw [hfocus]
    refine ⟨_, List.getElem?_set_self (List.getElem?_eq_some_iff.mp hb).1, howner, ?_, ?_⟩
    · rw [hwakers]
      exact hasked
    · intro hstage hwoken
      rw [hwakes] at hwoken
      -- The fan-in has woken the awaiter it has counted in.
      have hcounting := Gathering.counting_of_advance (hrooted.gathered hb) hstep hstage hwoken
      rcases hroused (Or.inr hcounting) hwoken with hwake | ⟨f₁, hf₁, hroused⟩
      · exact Or.inl hwake
      · obtain ⟨f₂, hf₂, haside⟩ := host?_of_reaches hb hreaches hf₁
        exact Or.inr ⟨f₂, hf₂, haside.roused hroused⟩
  · intro m hm
    rw [hwakers] at hm
    exact Or.inl hm

/-- Nothing but the wakes on their way changes, and whoever was about to be woken is, or has been. -/
theorem of_wakes (h : s.Tended) (hgrows : Grows s t) (hlater : ∀ m, Later s t m)
    (hhost : ∀ m f', t.host? m = some f' → ∃ f, s.host? m = some f ∧ f.Aside f')
    (hvisits : t.visits = s.visits) (hlength : t.branches.length = s.branches.length)
    (hwakers : ∀ (g : Nat) b b', s.branches[g]? = some b → t.branches[g]? = some b' → b'.fan.wakers = b.fan.wakers)
    (hwakes : ∀ m ∈ t.wakes, s.Begun m) (hkept : ∀ l m, (l, m) ∈ t.kept → s.Begun m) : t.Tended := by
  refine h.grow hgrows ?_ (fun m v hv => h.seated m v (by rw [← hvisits]; exact hv)) ?_ ?_ hwakes hkept
  · intro m f' hf'
    obtain ⟨f, hf, haside⟩ := hhost m f' hf'
    exact (h.frame m f hf).later (hlater m) (by rw [hvisits]) haside
  · intro g b' hb' hnone
    rw [List.getElem?_eq_none_iff, ← hlength, ← List.getElem?_eq_none_iff] at hnone
    exact absurd (hb'.symm.trans hnone) nofun
  · intro g b b' hb hb' w hw
    rw [hwakers g b b' hb hb'] at hw
    exact Or.inl hw

/-- An input takes a step on the countdown: the wake that it may let go is one of the owner. -/
theorem notify (h : s.Tended) (hrooted : Rooted tree s) {k : Nat} {w : Option Seat}
    (hb : s.branches[g]? = some b) (hstep : b.fan.step? (.notify k) = some fan)
    (hw : ∀ m, w = some m ↔ b.fan.roll.parties[k]? = some (some (.wake m))) :
    Tended { s.setFan g b fan with wakes := s.wakes ++ w.toList } := by
  have hgathered : fan.Gathered := by
    have hgrown : Rooted tree (s.setFan g b fan) := hrooted.grow (.of_fan hb hstep rfl rfl)
    exact hgrown.gathered (List.getElem?_set_self (List.getElem?_eq_some_iff.mp hb).1)
  obtain ⟨roll, hroll, hfan⟩ := Gathering.of_onRoll? hstep
  have hreaches : Reaches b.fan.hosts fan.hosts := Or.inl (by rw [hfan])
  have hwoken := Roll.wakes_of_step hroll
  have hown : ∀ m, w = some m → m = b.owner := by
    intro m hm
    have hparty := (hw m).mp hm
    have hwake : (k, m) ∈ fan.roll.wakes := by
      simp only [Roll.step?, hparty, Roll.stepParty?] at hroll
      obtain rfl := Option.some.inj hroll
      rw [hfan]
      exact List.mem_append_right _ (List.mem_singleton.mpr rfl)
    have hasked := (hgathered.tallied.of_wake hwake).2.1
    have hhead := hgathered.asked m hasked
    rw [hfan] at hhead
    exact h.wakers g b hb m (List.mem_of_head? hhead)
  refine h.of_wakes (.of_fan hb hstep rfl rfl) ?_ ?_ rfl (List.length_set ..) ?_ ?_ h.kept
  · intro m
    refine .of_setFan hb hreaches (fun m hm => List.mem_append_left _ hm) fun hm => ?_
    rw [hfan]
    refine ⟨rfl, rfl, ?_⟩
    rcases hwoken with hsame | ⟨m', hparty, -⟩
    · exact Or.inl hsame
    · have hm' := (hw m').mpr hparty
      refine Or.inr (List.mem_append_right _ ?_)
      rw [hm', hm, hown m' hm']
      exact List.mem_singleton.mpr rfl
  · exact fun m f' hf' => host?_back_of_reaches hb hreaches hf'
  · intro g' b₁ b₂ hb₁ hb₂
    rcases getElem?_of_set hb₂ with ⟨rfl, rfl⟩ | ⟨-, hold⟩
    · obtain rfl := Option.some.inj (hb.symm.trans hb₁)
      rw [hfan]
    · obtain rfl := Option.some.inj (hold.symm.trans hb₁)
      rfl
  · intro m hm
    rcases List.mem_append.mp hm with hold | hnew
    · exact h.wakes m hold
    · rw [hown m (Option.mem_toList.mp hnew)]
      exact h.owner g b hb

/-! ### Everybody else -/

/-- Somebody wakes a frame. -/
theorem wake (h : s.Tended) (hwake : s.wake? n = some t) : t.Tended := by
  have hmoved := (moved_of_wake? hwake).1
  refine h.moved (.of_wake? hwake) hmoved fun f f' hf hf' => ?_
  obtain ⟨f₁, f₂, hf₁, hstep, hf₂⟩ := hmoved.host
  obtain rfl := Option.some.inj (hf.symm.trans hf₁)
  obtain rfl := Option.some.inj (hf'.symm.trans hf₂)
  exact Hosted.aside_of_begin hstep (Or.inl rfl)

/-- A wake arrives. -/
theorem arrive (h : s.Tended) {i : Nat} (hi : s.wakes[i]? = some n) (hwake : s.wake? n = some t) :
    Tended { t with wakes := t.wakes.eraseIdx i } := by
  have hmoved := (moved_of_wake? hwake).1
  have htended := h.wake hwake
  obtain ⟨f, f', hf, hstep, hf'⟩ := hmoved.host
  have hgrows : Grows t { t with wakes := t.wakes.eraseIdx i } := .of_eq rfl rfl
  refine htended.of_wakes hgrows ?_ (fun m f hf => ⟨f, hf, .refl f⟩) rfl rfl ?_ ?_ htended.kept
  · intro m
    refine ⟨?_, fun l hl => hl, ?_, fun g b hb howner => ⟨b, hb, howner, rfl, rfl, rfl, Or.inl rfl⟩⟩
    · rintro (hm | hroused)
      · by_cases hmn : m = n
        · exact Or.inr ⟨f', hmn ▸ hf', Hosted.roused_of_resume hstep⟩
        · obtain ⟨j, hj⟩ := List.getElem?_of_mem hm
          refine Or.inl (List.mem_eraseIdx_iff_getElem?.mpr ⟨j, ?_, hj⟩)
          rintro rfl
          rw [hmoved.wakes, hi] at hj
          exact hmn (Option.some.inj hj).symm
      · exact Or.inr hroused
    · intro l hl hkept
      show if t.opened l then _ else _
      rw [hl, if_neg Bool.false_ne_true]
      exact hkept
  · intro g b b' hb hb'
    obtain rfl := Option.some.inj (hb.symm.trans hb')
    rfl
  · exact fun m hm => htended.wakes m (List.mem_of_mem_eraseIdx hm)

/-- A leaf is opened: the wakes that it has kept are on their way. -/
theorem unlock [DecidableEq ℓ] (h : s.Tended) (l : ℓ) : (s.unlock l).Tended := by
  have hwoken : ∀ m, m ∈ (s.unlock l).wakes ↔ m ∈ s.wakes ∨ (l, m) ∈ s.kept := by
    intro m
    simp [Grove.unlock, eq_comm]
  refine h.of_wakes (.of_eq rfl rfl) ?_ (fun m f hf => ⟨f, hf, .refl f⟩) rfl rfl ?_ ?_ ?_
  · intro m
    refine ⟨?_, ?_, ?_, fun g b hb howner => ⟨b, hb, howner, rfl, rfl, rfl, Or.inl rfl⟩⟩
    · exact Or.imp_left fun hm => (hwoken m).mpr (Or.inl hm)
    · intro l' hl'
      simp [Grove.unlock, hl']
    · intro l' hl' hkept
      by_cases hl : l' = l
      · subst hl
        have hopened : (s.unlock l').opened l' = true := by simp [Grove.unlock]
        rw [hopened, if_pos rfl]
        exact Or.inl ((hwoken m).mpr (Or.inr hkept))
      · have hopened : (s.unlock l).opened l' = false := by simp [Grove.unlock, hl, hl']
        rw [hopened, if_neg Bool.false_ne_true]
        exact List.mem_filter.mpr ⟨hkept, by simpa using hl⟩
  · intro g b b' hb hb'
    obtain rfl := Option.some.inj (hb.symm.trans hb')
    rfl
  · intro m hm
    rcases (hwoken m).mp hm with hold | hkept
    · exact h.wakes m hold
    · exact h.kept l m hkept
  · exact fun l' m hm => h.kept l' m (List.mem_filter.mp hm).1

/-- The caller of `sync_wait` calls the frame of the root. -/
theorem called (h : s.Tended) {root : Hosted (Body ℓ α) α} {a : Callers.Act (Body ℓ α) α}
    (hstep : s.root.step? a = some root) (ha : a = .resume ∨ a = .take) (main : Main α) :
    Tended { s with root, main } := by
  refine h.moved (.of_root hstep rfl) (moved_of_root hstep s.latch main) fun f f' hf hf' => ?_
  obtain rfl := Option.some.inj hf
  obtain rfl := Option.some.inj hf'
  exact Hosted.aside_of_begin hstep ha

/-- A call of a frame takes a step that neither begins nor ends a poll of a body. -/
theorem move (h : s.Tended) {j : Nat} {spurious : Bool} {f : Hosted (Body ℓ α) α} {c : Call (Body ℓ α) α}
    (hf : s.host? n = some f) (hc : f.frame.calls[j]? = some c) (hbegin : c.place ≠ .resuming .polling)
    (hback : ∀ lent, c.place = .inPoll lent → lent.begin? = none)
    (hgo : s.go? n j spurious Gathering.noPoll = some t) : t.Tended :=
  h.moved (.of_go? hgo) (moved_of_go? hgo) fun _ _ hf₁ hf' =>
    aside_of_go? hf hc hbegin hback hgo hf₁ hf'

/-- **Every act tends to every frame.** -/
theorem step [DecidableEq ℓ] (h : s.Tended) (hrooted : Rooted tree s) {a : Act ℓ} (hturn : Turns s a t) :
    t.Tended := by
  cases hturn with
  | enter root hmain hstep => exact h.called hstep (Or.inl rfl) _
  | wait c hmain hc hreturned => exact h.of_same rfl rfl rfl rfl rfl rfl
  | look hmain => exact h.of_same rfl rfl rfl rfl rfl rfl
  | fetch root hmain hstep => exact h.called hstep (Or.inr rfl) _
  | gain j m task hmain hc => exact h.of_same rfl rfl rfl rfl rfl rfl
  | miss j m hmain hc => exact h.of_same rfl rfl rfl rfl rfl rfl
  | move n j spurious f c t hf hc hbegin hback hgo => exact h.move hf hc hbegin hback hgo
  | begin n j m spurious f t hf hc hgo => exact h.begin hrooted hf hc hgo
  | back n j m spurious f lent b v r t hf hc hb hv hr hgo => exact h.back hf hc hb hv hr hgo
  | turn n v w hv hturn => exact h.turn hv hturn
  | pass n v l next hv hfocus hopen => exact h.pass hv hfocus
  | park n v l next hv hfocus hshut => exact h.park hrooted hv hfocus hshut
  | gather n v k hk inputs next hv hfocus => exact h.gather hrooted hv hfocus
  | ask n v g next b fan hv hfocus hb hstep => exact h.ask hv hfocus hb hstep
  | advance n v g next b fan hv hfocus hb hstage hstep => exact h.advance hrooted hv hfocus hb hstep
  | rest n v g next b hv hfocus hb hstage => exact h.rest hv hfocus hb hstage
  | read n v g next b outs hv hfocus hb hstage => exact h.read hrooted hv hfocus hb hstage
  | notify g k b fan w hb hstep hw => exact h.notify hrooted hb hstep hw
  | arrive i n t hi hwake => exact h.arrive hi hwake
  | unlock l => exact h.unlock l
  | wake n t hwake => exact h.wake hwake

end Tended

/-! ### The caller of `sync_wait` -/

/-- What the caller knows of the frame of the root and of the latch. -/
def MainAt (root : Hosted (Body ℓ α) α) (latch : Latch) : Main α → Prop
  | .made => root.Fresh
  | .starting => root.frame.calls ≠ [] ∧ root.Untaken
  | .waits w => root.frame.calls ≠ [] ∧ root.Untaken ∧ (w = .parked → latch.isSet = false) ∧
    (w = .returned → latch.isSet = true)
  | .takes j => latch.isSet = true ∧ root.TakenBy j
  | .returned o => o = .ok (promise root.input)
  | .unreachable => False

/-- What holds of a tree in every order of acts. -/
structure Reached (tree : Tree ℓ α) (s : Grove ℓ α) : Prop where
  rooted : Rooted tree s
  tended : s.Tended
  /-- The latch is set when the notifier of the root's frame is called. -/
  latch : s.latch.isSet = true ↔ 0 < s.root.frame.shared.notices
  main : MainAt s.root s.latch s.main

/-- A frame that has called its notifier has done so. -/
theorem notices_pos {f f' : Hosted (Body ℓ α) α} {j : Nat} {spurious : Bool} {r : Polled (Body ℓ α) α}
    (hstep : f.step? (.go j spurious r) = some f') {c : Call (Body ℓ α) α} (hc : f.frame.calls[j]? = some c)
    (hannounces : c.announces = true) : 0 < f'.frame.shared.notices := by
  cases Hosted.turns_of_step? hstep with
  | go _ _ _ c₀ c' x hc₀ hmove log hlog =>
      obtain rfl := Option.some.inj (hc.symm.trans hc₀)
      cases hmove with
      | notify m => exact Nat.succ_pos _
      | _ => cases hannounces

namespace MainAt

variable {root root' : Hosted (Body ℓ α) α} {latch : Latch} {main : Main α}

/-- The frame of the root moves, and not because the caller calls it. -/
theorem step (h : MainAt root latch main) (kept : root.Kept)
    (hlatch : latch.isSet = true ↔ 0 < root.frame.shared.notices) {a : Callers.Act (Body ℓ α) α}
    (hstep : root.step? a = some root') (ha : a ≠ .take) (hresume : a = .resume → 0 < root.frame.shared.polls) :
    MainAt root' latch main := by
  have hturn := Hosted.turns_of_step? hstep
  cases main with
  | made =>
      have hfresh : root.Fresh := h
      exfalso
      cases hturn with
      | resume => exact Nat.ne_of_gt (hresume rfl) hfresh.polls
      | take => exact ha rfl
      | go j spurious r c c' x hc hmove log hlog =>
          rw [hfresh.calls] at hc
          cases hc
  | starting => exact ⟨Hosted.called_of_turns hturn h.1, h.2.step hturn ha⟩
  | waits w => exact ⟨Hosted.called_of_turns hturn h.1, h.2.1.step hturn ha, h.2.2⟩
  | takes j =>
      exact ⟨h.1, h.2.step kept.owned (kept.completed_of_notices (hlatch.mp h.1)) hturn ha⟩
  | returned o =>
      show o = .ok (promise root'.input)
      rw [(Hosted.of_step? hstep).1]
      exact h
  | unreachable => exact h

/-- The latch is set, and the caller looks at it again if it was parked. -/
theorem notify (h : MainAt root latch main) : MainAt root latch.set main.notify := by
  cases main with
  | waits w =>
      refine ⟨h.1, h.2.1, ?_, fun _ => rfl⟩
      cases w <;> exact nofun
  | takes j => exact ⟨rfl, h.2⟩
  | _ => exact h

end MainAt

/-- What a wake does to what the caller looks at. -/
theorem root_of_wake? (h : s.wake? n = some t) :
    t.latch = s.latch ∧ t.main = s.main ∧
      (t.root = s.root ∨ s.root.step? .resume = some t.root ∧ 0 < s.root.frame.shared.polls) := by
  cases n with
  | root =>
      simp only [wake?] at h
      split at h
      · next hpolls =>
          obtain ⟨root, hstep, rfl⟩ := of_onRoot? h
          exact ⟨rfl, rfl, Or.inr ⟨hstep, hpolls⟩⟩
      · cases h
  | input g k =>
      obtain ⟨b, fan, hb, hstep, rfl⟩ := of_onBranch? h
      exact ⟨rfl, rfl, Or.inl rfl⟩

/-- What a call of a frame does to what the caller looks at. -/
theorem root_of_go? {j : Nat} {spurious : Bool} {r : Polled (Body ℓ α) α}
    (h : s.go? n j spurious r = some t) :
    t.root = s.root ∧ t.latch = s.latch ∧ t.main = s.main ∨
      ∃ c, s.root.frame.calls[j]? = some c ∧ s.root.step? (.go j spurious r) = some t.root ∧
        if c.announces then t.latch = s.latch.set ∧ t.main = s.main.notify
        else t.latch = s.latch ∧ t.main = s.main := by
  cases n with
  | root =>
      refine Or.inr ?_
      simp only [go?] at h
      split at h
      · cases h
      · next c hc =>
          refine ⟨c, hc, ?_⟩
          split at h
          · next hannounces =>
              obtain ⟨u, hu, rfl⟩ := Option.map_eq_some_iff.mp h
              obtain ⟨root, hstep, rfl⟩ := of_onRoot? hu
              exact ⟨hstep, by rw [if_pos hannounces]; exact ⟨rfl, rfl⟩⟩
          · next hquiet =>
              obtain ⟨root, hstep, rfl⟩ := of_onRoot? h
              exact ⟨hstep, by rw [if_neg hquiet]; exact ⟨rfl, rfl⟩⟩
  | input g k =>
      obtain ⟨b, fan, hb, hstep, rfl⟩ := of_onBranch? h
      exact Or.inl ⟨rfl, rfl, rfl⟩

namespace Reached

variable {tree : Tree ℓ α}

theorem start (tree : Tree ℓ α) : Reached tree (Grove.start tree) where
  rooted := .start tree
  tended := tended_start tree
  latch := ⟨nofun, nofun⟩
  main := rfl

theorem kept (h : Reached tree s) : s.root.Kept := h.rooted.kept (n := .root) rfl

/-- Neither the frame of the root nor the latch nor the caller moves. -/
theorem caller_of_same (h : Reached tree s) (hroot : t.root = s.root) (hlatch : t.latch = s.latch)
    (hmain : t.main = s.main) :
    (t.latch.isSet = true ↔ 0 < t.root.frame.shared.notices) ∧ MainAt t.root t.latch t.main := by
  rw [hroot, hlatch, hmain]
  exact ⟨h.latch, h.main⟩

/-- The frame of the root moves, and nobody calls its notifier. -/
theorem caller_of_root (h : Reached tree s) (hlatch : t.latch = s.latch) (hmain : t.main = s.main)
    {a : Callers.Act (Body ℓ α) α} (hstep : s.root.step? a = some t.root) (ha : a ≠ .take)
    (hresume : a = .resume → 0 < s.root.frame.shared.polls)
    (hquiet : ∀ j spurious r c, a = .go j spurious r → s.root.frame.calls[j]? = some c → c.announces = false) :
    (t.latch.isSet = true ↔ 0 < t.root.frame.shared.notices) ∧ MainAt t.root t.latch t.main := by
  rw [hlatch, hmain, Hosted.notices_of_turns (Hosted.turns_of_step? hstep) hquiet]
  exact ⟨h.latch, h.main.step h.kept h.latch hstep ha hresume⟩

theorem caller_of_wake? (h : Reached tree s) (hwake : s.wake? n = some t) :
    (t.latch.isSet = true ↔ 0 < t.root.frame.shared.notices) ∧ MainAt t.root t.latch t.main := by
  obtain ⟨hlatch, hmain, hroot | ⟨hstep, hpolls⟩⟩ := root_of_wake? hwake
  · exact h.caller_of_same hroot hlatch hmain
  · exact h.caller_of_root hlatch hmain hstep nofun (fun _ => hpolls) nofun

theorem caller_of_go? (h : Reached tree s) {j : Nat} {spurious : Bool} {r : Polled (Body ℓ α) α}
    (hgo : s.go? n j spurious r = some t) :
    (t.latch.isSet = true ↔ 0 < t.root.frame.shared.notices) ∧ MainAt t.root t.latch t.main := by
  rcases root_of_go? hgo with ⟨hroot, hlatch, hmain⟩ | ⟨c, hc, hstep, hcaller⟩
  · exact h.caller_of_same hroot hlatch hmain
  · by_cases hannounces : c.announces = true
    · rw [if_pos hannounces] at hcaller
      obtain ⟨hlatch, hmain⟩ := hcaller
      rw [hlatch, hmain]
      exact ⟨⟨fun _ => notices_pos hstep hc hannounces, fun _ => rfl⟩, (h.main.step h.kept h.latch hstep nofun nofun).notify⟩
    · rw [if_neg hannounces] at hcaller
      refine h.caller_of_root hcaller.1 hcaller.2 hstep nofun nofun ?_
      intro j' spurious' r' c₀ ha hc₀
      cases ha
      obtain rfl := Option.some.inj (hc.symm.trans hc₀)
      exact Bool.eq_false_iff.mpr hannounces

/-- The caller gets the outcome of the root. -/
theorem gained (h : Reached tree s) {j m : Nat} {task : Task (Body ℓ α) α} (hmain : s.main = .takes j)
    (hc : s.root.frame.calls[j]? = some ⟨.took (some task), m⟩) :
    task.takeOutcome.1 = .ok (promise s.root.input) := by
  have hat := h.main
  rw [hmain] at hat
  refine Task.takeOutcome_of_result ?_
  rw [(h.kept.took hc).2]
  exact (h.tended.frame .root s.root rfl).outcome_eq h.kept ⟨tree, h.rooted.input⟩
    (h.kept.completed_of_notices (h.latch.mp hat.1))

/-- What the caller knows stays true, whoever moves. -/
theorem caller [DecidableEq ℓ] (h : Reached tree s) {a : Act ℓ} (hturn : Turns s a t) :
    (t.latch.isSet = true ↔ 0 < t.root.frame.shared.notices) ∧ MainAt t.root t.latch t.main := by
  have hat := h.main
  cases hturn with
  | enter root hmain hstep =>
      rw [hmain] at hat
      have hturn := Hosted.turns_of_step? hstep
      refine ⟨?_, Hosted.called_of_resume hturn, hat.untaken.step hturn nofun⟩
      rw [Hosted.notices_of_turns hturn nofun]
      exact h.latch
  | wait c hmain hc hreturned =>
      rw [hmain] at hat
      exact ⟨h.latch, hat.1, hat.2, nofun, nofun⟩
  | look hmain =>
      rw [hmain] at hat
      refine ⟨h.latch, hat.1, hat.2.1, ?_, ?_⟩
      all_goals cases hset : s.latch.isSet <;> simp [Latch.Waiter.look, hset]
  | fetch root hmain hstep =>
      rw [hmain] at hat
      have hturn := Hosted.turns_of_step? hstep
      refine ⟨?_, hat.2.2.2 rfl, hat.2.1.take hturn⟩
      rw [Hosted.notices_of_turns hturn nofun]
      exact h.latch
  | gain j m task hmain hc => exact ⟨h.latch, h.gained hmain hc⟩
  | miss j m hmain hc =>
      rw [hmain] at hat
      obtain ⟨-, ⟨p, i, hi, hp⟩, -⟩ := hat
      obtain ⟨rfl, -⟩ := Call.mk.inj (Option.some.inj (hc.symm.trans hi))
      rcases hp with hp | hp | ⟨task, hp⟩ <;> cases hp
  | move n j spurious f c t hf hc hbegin hback hgo => exact h.caller_of_go? hgo
  | begin n j m spurious f t hf hc hgo =>
      have hcaller := h.caller_of_go? hgo
      exact hcaller
  | back n j m spurious f lent b v r t hf hc hb hv hr hgo =>
      have hcaller := h.caller_of_go? hgo
      exact hcaller
  | arrive i n t hi hwake =>
      have hcaller := h.caller_of_wake? hwake
      exact hcaller
  | wake n t hwake => exact h.caller_of_wake? hwake
  | _ => exact ⟨h.latch, h.main⟩

/-- **Every act keeps what holds of a tree.** -/
theorem step [DecidableEq ℓ] (h : Reached tree s) {a : Act ℓ} (hturn : Turns s a t) : Reached tree t where
  rooted := h.rooted.grow (.of_turns hturn)
  tended := h.tended.step h.rooted hturn
  latch := (h.caller hturn).1
  main := (h.caller hturn).2

/-- In every order of acts it holds. -/
theorem of_leads [DecidableEq ℓ] (h : Leads step? (Grove.start tree) s) : Reached tree s :=
  h.keeps (fun _ _ _ hu hstep => hu.step (turns_of_step? hstep)) (.start tree)

end Reached

end TaskDispatch.Grove
