/-
The work that keeps a service running.

A unit of work is announced and retired, directly or by a work scope, and whoever retires the last one
stops the service.  Retiring and stopping are steps of their own: the word that counts the work goes down
in one, and the stop raises the flag and posts its wake-ups in others, so between them any others of the
service's crew may move, units be announced and retired, and the service be reset and used again.

`started` and `finished` count the units that acts announce and retire, without looking at the word.  As
long as no more units are retired than announced and fewer than 2^64 are there at once (`Orderly`), the
word is the difference.
-/
import Mathlib.Data.List.Infix
import TaskDispatch.Proofs.Service.Stop

namespace TaskDispatch

variable {ω : Type}

/-- The state of one work scope. -/
inductive Scope where
  | held
  | retired
  deriving DecidableEq

/-- A service with its crew, its work, and the work scopes made on it. -/
structure Site (ω : Type) where
  crew : Crew ω := {}
  work : Workload := {}
  scopes : List Scope := []

namespace Site

/-- Who moves. -/
inductive Act (ω : Type) where
  /-- Somebody announces a unit of work. -/
  | start
  /-- Somebody retires a unit of work. -/
  | finish
  /-- Somebody makes a work scope. -/
  | scope
  /-- Somebody copies a work scope that is held. -/
  | clone (k : Nat)
  /-- Somebody drops a work scope that is held. -/
  | drop (k : Nat)
  /-- Somebody of the crew moves. -/
  | crew (a : Crew.Act ω)

namespace Act

/-- Whether a unit of work is announced. -/
def starts : Act ω → Bool
  | start | scope | clone _ => true
  | finish | drop _ | crew _ => false

/-- Whether a unit of work is retired. -/
def finishes : Act ω → Bool
  | finish | drop _ => true
  | start | scope | clone _ | crew _ => false

/-- Whether a unit of work is announced or retired without a scope. -/
def isDirect : Act ω → Bool
  | start | finish => true
  | scope | clone _ | drop _ | crew _ => false

/-- The scope that is copied or dropped. -/
def scope? : Act ω → Option Nat
  | clone k | drop k => some k
  | start | finish | scope | crew _ => none

/-- Whether it is the next step of the stop with this number. -/
def isStepOf (j : Nat) : Act ω → Bool
  | crew (.halt k) => k == j
  | _ => false

theorem eq_of_isStepOf {a : Act ω} {j : Nat} (h : a.isStepOf j = true) : a = crew (.halt j) := by
  unfold isStepOf at h
  split at h
  · rw [beq_iff_eq.mp h]
  · cases h

end Act

/-- Announces a unit of work. -/
def announce (s : Site ω) : Site ω := { s with work := s.work.start }

/-- Retires a unit of work.  Who retires the last one then stops the service. -/
def retire? (s : Site ω) : Option (Site ω) :=
  match s.work.finish with
  | (false, work) => some { s with work }
  | (true, work) => (s.crew.step? .stop).map fun crew => { s with work, crew }

/-- The site after an act, if it can happen. -/
def step? (s : Site ω) : Act ω → Option (Site ω)
  | .start => some s.announce
  | .finish => s.retire?
  | .scope => some { s.announce with scopes := s.scopes ++ [.held] }
  | .clone k =>
    match s.scopes[k]? with
    | some .held => some { s.announce with scopes := s.scopes ++ [.held] }
    | some .retired | none => none
  | .drop k =>
    match s.scopes[k]? with
    | some .held => ({ s with scopes := s.scopes.set k .retired } : Site ω).retire?
    | some .retired | none => none
  | .crew a => (s.crew.step? a).map fun crew => { s with crew }

/-- How many units of work acts announce. -/
def started (acts : List (Act ω)) : Nat := acts.countP Act.starts

/-- How many units of work acts retire. -/
def finished (acts : List (Act ω)) : Nat := acts.countP Act.finishes

/-- At no point have more units been retired than announced, and fewer than 2^64 are there at once. -/
def Orderly (acts : List (Act ω)) : Prop :=
  ∀ before ∈ acts.inits, finished before ≤ started before ∧ started before < finished before + 2 ^ 64

instance (acts : List (Act ω)) : Decidable (Orderly acts) :=
  inferInstanceAs (Decidable (∀ before ∈ acts.inits, _))

/-- What the steps of one stop put into the port on the way along acts. -/
def posted (j : Nat) : Site ω → List (Act ω) → List (Event ω)
  | _, [] => []
  | s, a :: rest =>
    match s.step? a with
    | none => []
    | some t =>
      (if a.isStepOf j then t.crew.port.queue.drop s.crew.port.queue.length else []) ++ posted j t rest

end Site

/-! ### The word -/

namespace Workload

/-- While there is room, announcing a unit adds one. -/
theorem toNat_start {l : Workload} (h : l.count.toNat + 1 < 2 ^ 64) : l.start.count.toNat = l.count.toNat + 1 := by
  have hone : (1 : UInt64).toNat = 1 := rfl
  rw [start, UInt64.toNat_add, hone, Nat.mod_eq_of_lt h]

/-- While there is one, retiring a unit takes one away. -/
theorem toNat_finish {l : Workload} (h : 0 < l.count.toNat) : l.finish.2.count.toNat + 1 = l.count.toNat := by
  have hle : (1 : UInt64) ≤ l.count := UInt64.le_iff_toNat_le.mpr h
  have hone : (1 : UInt64).toNat = 1 := rfl
  rw [finish, UInt64.toNat_sub_of_le _ _ hle, hone]
  omega

/-- A unit is the last one exactly if none is left when it is retired. -/
theorem finish_last_iff {l : Workload} (h : 0 < l.count.toNat) : l.finish.1 = true ↔ l.finish.2.count.toNat = 0 := by
  have hleft := toNat_finish h
  have hone : (1 : UInt64).toNat = 1 := rfl
  rw [finish, beq_iff_eq, ← UInt64.toNat_inj, hone]
  rw [finish] at hleft
  omega

end Workload

/-! ### The stops of a crew -/

namespace Stop

/-- A stop that owes wake-ups posts one in each of its steps, and one that owes none posts none. -/
theorem step_of_ne_raise {pc : Stop} (h : pc ≠ .raise) (r : Roster) (p : Port ω) :
    (pc.step r p).2.1.queue = p.queue ++ List.replicate (min pc.owed 1) .wakeUp ∧
      (pc.step r p).2.2 ≠ .raise ∧ (pc.step r p).2.2.owed = pc.owed - 1 := by
  cases pc with
  | raise => exact absurd rfl h
  | returned => exact ⟨(List.append_nil _).symm, by simp [step], rfl⟩
  | posting left =>
      cases left with
      | zero => exact ⟨(List.append_nil _).symm, by simp [step], rfl⟩
      | succ left =>
          have hone : min (posting (left + 1)).owed 1 = 1 := by simp [owed]
          rw [hone]
          exact ⟨rfl, by simp [step], rfl⟩

/-- The first step of a stop raises the flag, and then it owes a wake-up to each active caller if the flag
was down. -/
theorem step_raise (r : Roster) (p : Port ω) :
    (raise.step r p).1 = { r with stopRequested := true } ∧ (raise.step r p).2.1 = p ∧
      (raise.step r p).2.2 ≠ .raise ∧
      (raise.step r p).2.2.owed = if r.stopRequested then 0 else r.active := by
  obtain ⟨stopRequested, active⟩ := r
  cases stopRequested
  · exact ⟨rfl, rfl, by simp [step, Roster.requestStop], rfl⟩
  · exact ⟨rfl, rfl, by simp [step, Roster.requestStop], rfl⟩

end Stop

namespace Crew

variable {s t : Crew ω} {j : Nat} {pc : Stop}

/-- A stop is moved by nobody else. -/
theorem stop_of_step? {a : Act ω} (h : s.step? a = some t) (hj : s.stops[j]? = some pc) (ha : a ≠ .halt j) :
    t.stops[j]? = some pc := by
  have hlt := (List.getElem?_eq_some_iff.mp hj).1
  cases a with
  | join mode =>
      cases h
      exact hj
  | post w =>
      cases h
      exact hj
  | reset =>
      cases h
      exact hj
  | stop =>
      cases h
      exact (List.getElem?_append_left hlt).trans hj
  | work i =>
      simp only [step?] at h
      split at h
      · cases h
      · split at h <;> cases h
        exact hj
  | ran i =>
      simp only [step?] at h
      split at h <;> cases h
      exact hj
  | panicked i =>
      simp only [step?] at h
      split at h <;> cases h
      exact hj
  | halt k =>
      have hne : k ≠ j := by
        intro heq
        exact ha (congrArg Act.halt heq)
      simp only [step?] at h
      split at h
      · cases h
      · cases h
        exact (List.getElem?_set_ne hne).trans hj

/-- What one step of a stop does. -/
theorem halt_eq (h : s.step? (.halt j) = some t) (hj : s.stops[j]? = some pc) :
    t.roster = (pc.step s.roster s.port).1 ∧ t.port = (pc.step s.roster s.port).2.1 ∧
      t.stops[j]? = some (pc.step s.roster s.port).2.2 := by
  simp only [step?, hj, Option.some.injEq] at h
  subst h
  exact ⟨rfl, rfl, List.getElem?_set_self (List.getElem?_eq_some_iff.mp hj).1⟩

/-- A stop has always another step. -/
theorem exists_halt (hj : s.stops[j]? = some pc) : ∃ t, s.step? (.halt j) = some t := by
  simp only [step?, hj, Option.some.injEq, exists_eq']

end Crew

namespace Site

variable {s t u : Site ω} {a : Act ω} {acts : List (Act ω)} {j : Nat} {pc : Stop}

/-! ### One act -/

/-- What one act can do: announce a unit, retire one and stop the service if it was the last, or leave
the work to others. -/
inductive Turns (s : Site ω) (a : Act ω) (t : Site ω) : Prop
  | starts (hstarts : a.starts = true) (hfinishes : a.finishes = false) (hwork : t.work = s.work.start)
    (hcrew : t.crew = s.crew)
    (hscopes : a.isDirect = false → t.scopes.count .held = s.scopes.count .held + 1)
  | finishes (hstarts : a.starts = false) (hfinishes : a.finishes = true) (hwork : t.work = s.work.finish.2)
    (hcrew : t.crew = if s.work.finish.1 then { s.crew with stops := s.crew.stops ++ [.raise] } else s.crew)
    (hscopes : a.isDirect = false → t.scopes.count .held + 1 = s.scopes.count .held)
  | crew (b : Crew.Act ω) (ha : a = .crew b) (hcrew : s.crew.step? b = some t.crew) (hwork : t.work = s.work)
    (hscopes : t.scopes = s.scopes)

/-- Retiring a unit of work can always happen. -/
theorem retire?_eq (s : Site ω) :
    s.retire? = some { s with
      work := s.work.finish.2
      crew := if s.work.finish.1 then { s.crew with stops := s.crew.stops ++ [.raise] } else s.crew } := by
  rw [retire?]
  cases h : s.work.finish with
  | mk last work => cases last <;> rfl

/-- One more scope is held. -/
theorem count_held_concat (scopes : List Scope) :
    (scopes ++ [Scope.held]).count .held = scopes.count .held + 1 := by
  rw [List.count_append]
  rfl

/-- When a scope is dropped, one less is held. -/
theorem count_held_set {scopes : List Scope} {k : Nat} (h : scopes[k]? = some .held) :
    (scopes.set k .retired).count .held + 1 = scopes.count .held :=
  countP_set_add (· == Scope.held) .retired h

theorem turns_of_step? (h : s.step? a = some t) : Turns s a t := by
  cases a with
  | start =>
      cases h
      exact .starts rfl rfl rfl rfl nofun
  | finish =>
      rw [step?, retire?_eq] at h
      cases h
      exact .finishes rfl rfl rfl rfl nofun
  | scope =>
      cases h
      exact .starts rfl rfl rfl rfl fun _ => count_held_concat _
  | clone k =>
      simp only [step?] at h
      split at h <;> cases h
      exact .starts rfl rfl rfl rfl fun _ => count_held_concat _
  | drop k =>
      simp only [step?] at h
      split at h
      · next hheld =>
          rw [retire?_eq] at h
          cases h
          exact .finishes rfl rfl rfl rfl fun _ => count_held_set hheld
      · cases h
      · cases h
  | crew b =>
      simp only [step?, Option.map_eq_some_iff] at h
      obtain ⟨crew, hcrew, rfl⟩ := h
      exact .crew b rfl hcrew rfl rfl

/-- Units of work can always be announced and retired, by a scope as long as it is held. -/
theorem exists_step? (hwork : (a.starts || a.finishes) = true)
    (hheld : ∀ k, a.scope? = some k → s.scopes[k]? = some .held) : ∃ t, s.step? a = some t := by
  cases a with
  | start => exact ⟨_, rfl⟩
  | finish => exact ⟨_, retire?_eq s⟩
  | scope => exact ⟨_, rfl⟩
  | clone k =>
      simp only [step?, hheld k rfl]
      exact ⟨_, rfl⟩
  | drop k =>
      simp only [step?, hheld k rfl]
      exact ⟨_, retire?_eq _⟩
  | crew b => cases hwork

/-- A stop is moved by nobody else. -/
theorem stop_of_step? (h : s.step? a = some t) (hj : s.crew.stops[j]? = some pc)
    (ha : a.isStepOf j = false) : t.crew.stops[j]? = some pc := by
  cases turns_of_step? h with
  | starts _ _ _ hcrew _ =>
      rw [hcrew]
      exact hj
  | finishes _ _ _ hcrew _ =>
      rw [hcrew]
      split
      · exact (List.getElem?_append_left (List.getElem?_eq_some_iff.mp hj).1).trans hj
      · exact hj
  | crew b hb hcrew _ _ =>
      refine Crew.stop_of_step? hcrew hj ?_
      intro heq
      subst hb heq
      simp [Act.isStepOf] at ha

/-- The next step of a stop is one of the crew. -/
theorem halt_of_isStepOf (h : s.step? a = some t) (ha : a.isStepOf j = true) :
    s.crew.step? (.halt j) = some t.crew := by
  obtain rfl := Act.eq_of_isStepOf ha
  cases turns_of_step? h with
  | starts hstarts _ _ _ _ => cases hstarts
  | finishes _ hfinishes _ _ _ => cases hfinishes
  | crew b hb hcrew _ _ =>
      cases hb
      exact hcrew

/-! ### The balance -/

theorem started_concat (acts : List (Act ω)) (a : Act ω) :
    started (acts ++ [a]) = started acts + a.starts.toNat := by
  rw [started, started, List.countP_append, countP_cons_eq_add, List.countP_nil, Nat.zero_add]

theorem finished_concat (acts : List (Act ω)) (a : Act ω) :
    finished (acts ++ [a]) = finished acts + a.finishes.toNat := by
  rw [finished, finished, List.countP_append, countP_cons_eq_add, List.countP_nil, Nat.zero_add]

/-- An orderly run has been orderly all along. -/
theorem Orderly.of_concat (h : Orderly (acts ++ [a])) : Orderly acts := by
  intro before hbefore
  refine h before ?_
  rw [List.mem_inits] at hbefore ⊢
  exact hbefore.trans (List.prefix_append _ _)

/-- An orderly run is in balance at its end. -/
theorem Orderly.last (h : Orderly acts) : finished acts ≤ started acts ∧ started acts < finished acts + 2 ^ 64 :=
  h acts ((List.mem_inits _ _).mpr (List.prefix_refl _))

/-- What orderly acts keep: the word is what was announced and not retired, and if it was all done by
scopes, there is a scope held for each. -/
structure Balanced (acts : List (Act ω)) (s : Site ω) : Prop where
  crew : Leads Crew.step? {} s.crew
  count : s.work.count.toNat + finished acts = started acts
  scopes : (∀ a ∈ acts, a.isDirect = false) → s.scopes.count .held + finished acts = started acts

namespace Balanced

/-- Announcing a unit counts it and leaves the crew alone. -/
theorem of_starts (ok : Balanced acts s) (h : s.step? a = some t) (hok : Orderly (acts ++ [a]))
    (ha : a.starts = true) : t.work.count.toNat = s.work.count.toNat + 1 ∧ t.crew = s.crew := by
  have hcount := ok.count
  have hlast := hok.last
  cases turns_of_step? h with
  | starts hstarts hfinishes hwork hcrew _ =>
      rw [started_concat, finished_concat, hstarts, hfinishes, Bool.toNat_true, Bool.toNat_false] at hlast
      refine ⟨?_, hcrew⟩
      rw [hwork, Workload.toNat_start (by omega)]
  | finishes hstarts _ _ _ _ =>
      rw [ha] at hstarts
      cases hstarts
  | crew b hb _ _ _ =>
      subst hb
      cases ha

/-- Retiring a unit takes it off the count, and stops the service exactly if none is left. -/
theorem of_finishes (ok : Balanced acts s) (h : s.step? a = some t) (hok : Orderly (acts ++ [a]))
    (ha : a.finishes = true) :
    t.work.count.toNat + 1 = s.work.count.toNat ∧
      t.crew = if t.work.count.toNat = 0 then { s.crew with stops := s.crew.stops ++ [.raise] }
        else s.crew := by
  have hcount := ok.count
  have hlast := hok.last
  cases turns_of_step? h with
  | starts _ hfinishes _ _ _ =>
      rw [ha] at hfinishes
      cases hfinishes
  | finishes hstarts hfinishes hwork hcrew _ =>
      rw [started_concat, finished_concat, hstarts, hfinishes, Bool.toNat_true, Bool.toNat_false] at hlast
      have hpos : 0 < s.work.count.toNat := by omega
      rw [hwork]
      refine ⟨Workload.toNat_finish hpos, ?_⟩
      rw [hcrew]
      simp only [Workload.finish_last_iff hpos]
  | crew b hb _ _ _ =>
      subst hb
      cases ha

/-- Every act keeps the balance. -/
theorem step (ok : Balanced acts s) (h : s.step? a = some t) (hok : Orderly (acts ++ [a])) :
    Balanced (acts ++ [a]) t := by
  have hcount := ok.count
  have hstarted := started_concat acts a
  have hfinished := finished_concat acts a
  have hbefore : (∀ b ∈ acts ++ [a], b.isDirect = false) →
      a.isDirect = false ∧ s.scopes.count .held + finished acts = started acts := fun hall =>
    ⟨hall a (by simp), ok.scopes fun b hb => hall b (by simp [hb])⟩
  cases turns_of_step? h with
  | starts hstarts hfinishes _ _ hscopes =>
      obtain ⟨hone, hcrew⟩ := ok.of_starts h hok hstarts
      rw [hstarts, Bool.toNat_true] at hstarted
      rw [hfinishes, Bool.toNat_false] at hfinished
      refine ⟨hcrew ▸ ok.crew, by omega, fun hall => ?_⟩
      obtain ⟨ha, hheld⟩ := hbefore hall
      have := hscopes ha
      omega
  | finishes hstarts hfinishes _ hcrew hscopes =>
      obtain ⟨hone, -⟩ := ok.of_finishes h hok hfinishes
      rw [hstarts, Bool.toNat_false] at hstarted
      rw [hfinishes, Bool.toNat_true] at hfinished
      refine ⟨?_, by omega, fun hall => ?_⟩
      · rw [hcrew]
        split
        · exact .step .stop ok.crew rfl
        · exact ok.crew
      · obtain ⟨ha, hheld⟩ := hbefore hall
        have := hscopes ha
        omega
  | crew b hb hcrew hwork hscopes =>
      subst hb
      rw [Act.starts, Bool.toNat_false] at hstarted
      rw [Act.finishes, Bool.toNat_false] at hfinished
      refine ⟨.step b ok.crew hcrew, ?_, fun hall => ?_⟩
      · rw [hwork]
        omega
      · have hheld := (hbefore hall).2
        rw [hscopes]
        omega

/-- Orderly acts keep the balance from the start. -/
theorem of_after? (h : after? step? {} acts = some s) (hok : Orderly acts) : Balanced acts s := by
  induction acts using List.reverseRecOn generalizing s with
  | nil =>
      cases h
      exact ⟨.refl _, rfl, fun _ => rfl⟩
  | append_singleton acts a ih =>
      rw [after?_concat, Option.bind_eq_some_iff] at h
      obtain ⟨before, hbefore, hstep⟩ := h
      exact (ih hbefore hok.of_concat).step hstep hok

end Balanced

/-! ### What a stop posts -/

/-- Along a run a stop pays what it owes into the port, one wake-up with each of its steps. -/
theorem posted_eq {more : List (Act ω)} (h : after? step? s more = some u)
    (hj : s.crew.stops[j]? = some pc) (hpc : pc ≠ .raise) :
    posted j s more = List.replicate (min pc.owed (more.countP (Act.isStepOf j))) .wakeUp ∧
      ∃ pc', u.crew.stops[j]? = some pc' ∧ pc'.owed = pc.owed - more.countP (Act.isStepOf j) := by
  induction more generalizing s pc with
  | nil =>
      cases h
      exact ⟨by rw [List.countP_nil, Nat.min_zero]; rfl, pc, hj, rfl⟩
  | cons a rest ih =>
      rw [after?] at h
      cases hstep : s.step? a with
      | none => simp [hstep] at h
      | some t =>
          rw [hstep] at h
          rw [posted, hstep, countP_cons_eq_add]
          cases ha : a.isStepOf j with
          | false =>
              have hstays := stop_of_step? hstep hj ha
              exact ih h hstays hpc
          | true =>
              obtain ⟨hport, hnext⟩ := (Crew.halt_eq (halt_of_isStepOf hstep ha) hj).2
              obtain ⟨hqueue, hne, howed⟩ := Stop.step_of_ne_raise hpc s.crew.roster s.crew.port
              obtain ⟨hposted, pc', hend, howed'⟩ := ih h hnext hne
              refine ⟨?_, pc', hend, ?_⟩
              · show t.crew.port.queue.drop _ ++ posted j t rest = _
                rw [hport, hqueue, List.drop_left, hposted, List.replicate_append_replicate, howed,
                  Bool.toNat_true]
                congr 1
                omega
              · rw [howed', howed, Bool.toNat_true]
                omega

/-- A stop can take its next step whatever the others have done, and leaves the work alone. -/
theorem exists_halt (hj : s.crew.stops[j]? = some pc) :
    ∃ t, s.step? (.crew (.halt j)) = some t ∧ t.work = s.work ∧
      t.crew.roster = (pc.step s.crew.roster s.crew.port).1 ∧
      t.crew.port = (pc.step s.crew.roster s.crew.port).2.1 ∧
      t.crew.stops[j]? = some (pc.step s.crew.roster s.crew.port).2.2 := by
  obtain ⟨crew, hhalt⟩ := Crew.exists_halt hj
  exact ⟨{ s with crew }, by rw [step?, hhalt]; rfl, rfl, Crew.halt_eq hhalt hj⟩

/-- With its own steps alone a stop comes to return. -/
def Returns (j : Nat) (s : Site ω) : Prop :=
  ∃ n t, after? step? s (List.replicate n (.crew (.halt j))) = some t ∧ t.crew.stops[j]? = some .returned

theorem Returns.halt (h : s.step? (.crew (.halt j)) = some t) (ht : t.Returns j) : s.Returns j := by
  obtain ⟨n, u, hrun, hreturned⟩ := ht
  refine ⟨n + 1, u, ?_, hreturned⟩
  rw [List.replicate_succ, after?, h]
  exact hrun

theorem returns_of_posting {left : Nat} (hj : s.crew.stops[j]? = some (.posting left)) : s.Returns j := by
  induction left generalizing s with
  | zero =>
      obtain ⟨t, hstep, -, -, -, hnext⟩ := exists_halt hj
      exact .halt hstep ⟨0, t, rfl, hnext⟩
  | succ left ih =>
      obtain ⟨t, hstep, -, -, -, hnext⟩ := exists_halt hj
      exact .halt hstep (ih hnext)

/-- **A stop returns**, wherever it has come to, if it goes on. -/
theorem returns_of_stop (hj : s.crew.stops[j]? = some pc) : s.Returns j := by
  have hrest : ∀ {u : Site ω} {pc : Stop}, u.crew.stops[j]? = some pc → pc ≠ .raise → u.Returns j := by
    intro u pc hu hpc
    cases pc with
    | raise => exact absurd rfl hpc
    | posting left => exact returns_of_posting hu
    | returned => exact ⟨0, u, rfl, hu⟩
  by_cases hpc : pc = .raise
  · obtain ⟨t, hstep, -, -, -, hnext⟩ := exists_halt hj
    rw [hpc] at hnext
    exact .halt hstep (hrest hnext (Stop.step_raise s.crew.roster s.crew.port).2.2.1)
  · exact hrest hj hpc

/--
**The last unit of work stops the service.**  However announcing, retiring, copying and dropping scopes,
stopping, resetting and running events are mixed, the word is the number of units announced and not
retired, and that of the scopes held if all was done by scopes.  What happens next: announcing a unit
counts it and touches nothing else; retiring one calls a stop exactly if it was the last, and touches
nothing else.  A stop that finds the flag down owes a wake-up to each caller that is inside, one that
finds it raised owes none, and what a stop owes is what it posts, one wake-up with each of its next steps.
It can take them whatever the others do meanwhile, and comes to return.
-/
theorem last_unit_stops_the_service (h : after? step? {} acts = some s) (hok : Orderly acts) :
    s.work.count.toNat + finished acts = started acts ∧
      ((∀ a ∈ acts, a.isDirect = false) → s.work.count.toNat = s.scopes.count .held) ∧
      (∀ a, Orderly (acts ++ [a]) → (∀ k, a.scope? = some k → s.scopes[k]? = some .held) →
        (a.starts = true → ∃ t, s.step? a = some t ∧
          t.work.count.toNat = s.work.count.toNat + 1 ∧ t.crew = s.crew) ∧
        (a.finishes = true → ∃ t, s.step? a = some t ∧
          t.work.count.toNat + 1 = s.work.count.toNat ∧
          t.crew = if t.work.count.toNat = 0 then { s.crew with stops := s.crew.stops ++ [.raise] }
            else s.crew)) ∧
      ∀ j, s.crew.stops[j]? = some .raise → ∃ t, s.step? (.crew (.halt j)) = some t ∧
        t.work = s.work ∧ t.crew.roster = { s.crew.roster with stopRequested := true } ∧
        t.crew.port = s.crew.port ∧
        ∀ more u, after? step? t more = some u →
          let owed := if s.crew.roster.stopRequested then 0 else s.crew.countAt EventLoop.isInside
          posted j t more = List.replicate (min owed (more.countP (Act.isStepOf j))) .wakeUp ∧
            (u.crew.stops[j]? = some .returned → posted j t more = List.replicate owed .wakeUp) ∧
            (∃ v, u.step? (.crew (.halt j)) = some v) ∧ u.Returns j := by
  have ok := Balanced.of_after? h hok
  refine ⟨ok.count, ?_, ?_, ?_⟩
  · intro hall
    have hcount := ok.count
    have hscopes := ok.scopes hall
    omega
  · intro a hnext hheld
    refine ⟨fun ha => ?_, fun ha => ?_⟩
    · obtain ⟨t, hstep⟩ := exists_step? (by rw [ha]; rfl) hheld
      exact ⟨t, hstep, ok.of_starts hstep hnext ha⟩
    · obtain ⟨t, hstep⟩ := exists_step? (by rw [ha, Bool.or_true]) hheld
      exact ⟨t, hstep, ok.of_finishes hstep hnext ha⟩
  · intro j hj
    obtain ⟨t, hstep, hwork, hroster, hport, hnext⟩ := exists_halt hj
    obtain ⟨hraised, hsame, hne, howed⟩ := Stop.step_raise s.crew.roster s.crew.port
    refine ⟨t, hstep, hwork, hroster.trans hraised, hport.trans hsame, ?_⟩
    intro more u hmore
    obtain ⟨hposted, pc, hend, hleft⟩ := posted_eq hmore hnext hne
    rw [howed, (Crew.told_of_leads ok.crew).active] at hposted hleft
    obtain ⟨v, hgoes, -⟩ := exists_halt hend
    refine ⟨hposted, fun hreturned => ?_, ⟨v, hgoes⟩, returns_of_stop hend⟩
    -- A stop that has returned owes nothing, so it has taken as many steps as it owed.
    obtain rfl := Option.some.inj (hend.symm.trans hreturned)
    rw [hposted, Nat.min_eq_left (Nat.le_of_sub_eq_zero hleft.symm)]

/-- A scope is copied, and both are dropped while a caller runs a resumption.  The second is the last: its
stop owes that caller a wake-up.  Another scope is made meanwhile, which takes nothing back. -/
theorem last_unit_stops_the_service_in_a_resumption :
    let acts : List (Act Nat) := [.crew (.join ⟨true, none⟩), .crew (.work 0), .scope, .clone 0,
      .crew (.post 7), .crew (.work 0), .drop 0]
    let s : Site Nat :=
      { crew := { roster := ⟨false, 1⟩, workers := [⟨⟨true, none⟩, .run 7 0⟩] }
        work := ⟨1⟩
        scopes := [.retired, .held] }
    let t : Site Nat := { s with
      crew := { s.crew with stops := [.raise] }, work := ⟨0⟩, scopes := [.retired, .retired] }
    after? step? {} acts = some s ∧ Orderly (acts ++ [.drop 1]) ∧
      s.work.count.toNat = s.scopes.count .held ∧
      (∃ t, s.step? (.drop 1) = some t ∧ t.crew = { s.crew with stops := s.crew.stops ++ [.raise] }) ∧
      after? step? {} (acts ++ [.drop 1]) = some t ∧ t.crew.stops[0]? = some .raise ∧
      ∃ u, t.step? (.crew (.halt 0)) = some u ∧ u.crew.roster = ⟨true, 1⟩ ∧
        posted 0 u [.scope, .crew (.halt 0), .crew (.ran 0), .crew (.halt 0)] = [.wakeUp] := by
  intro acts s t
  have hs : after? step? {} acts = some s := rfl
  have ht : after? step? {} (acts ++ [.drop 1]) = some t := rfl
  have hok : Orderly (acts ++ [.drop 1]) := by decide
  obtain ⟨-, hheld, hnext, -⟩ := last_unit_stops_the_service hs hok.of_concat
  obtain ⟨t', hstep, hone, hcrew⟩ := (hnext (.drop 1) hok (by rintro k ⟨⟩; rfl)).2 rfl
  obtain ⟨u, hu, -, hroster, -, hposts⟩ := (last_unit_stops_the_service ht hok).2.2.2 0 rfl
  refine ⟨hs, hok, hheld (by decide), ⟨t', hstep, ?_⟩, ht, rfl, u, hu, hroster, ?_⟩
  · have hnone : t'.work.count.toNat = 0 := Nat.succ.inj hone
    rw [hcrew, if_pos hnone]
  · cases hu
    exact (hposts _ _ rfl).1

end Site

end TaskDispatch
