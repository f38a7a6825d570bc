/-
Runs of many parties that take turns in any order.

A system is a state and a partial step.  An act says which party moves and how the
surroundings answer it; an act that cannot happen leads nowhere.  Nothing is ever
said about who moves next, so what is proved of every state that acts lead to is
proved of every interleaving.

There is one induction over runs, `Leads.keeps`: what every act keeps, a run keeps.
The parties of a system stand in a list that only grows.  One act changes the entry
of one party, and the second half of this file says what that does to a count, to a
sum, to membership and to numbers, so that an invariant which counts parties is
arithmetic.
-/
import Mathlib.Algebra.GroupWithZero.Nat

namespace TaskDispatch

/-- `Leads step? s t`: acts, one after another, can take a system from `s` to `t`. -/
inductive Leads {σ α : Type} (step? : σ → α → Option σ) : σ → σ → Prop
  | refl (s : σ) : Leads step? s s
  | step {s u t : σ} (a : α) (h : Leads step? s u) (hstep : step? u a = some t) : Leads step? s t

/-- The state after a list of acts, if each of them can happen. -/
def after? {σ α : Type} (step? : σ → α → Option σ) : σ → List α → Option σ
  | s, [] => some s
  | s, a :: rest =>
    match step? s a with
    | none => none
    | some t => after? step? t rest

/-- A run of acts goes on from where the first of them have led. -/
theorem after?_append {σ α : Type} {step? : σ → α → Option σ} (s : σ) (acts rest : List α) :
    after? step? s (acts ++ rest) = (after? step? s acts).bind (after? step? · rest) := by
  induction acts generalizing s with
  | nil => rfl
  | cons a acts ih =>
      rw [List.cons_append, after?, after?]
      cases step? s a with
      | none => rfl
      | some t => exact ih t

/-- The last act of a run happens after the others. -/
theorem after?_concat {σ α : Type} {step? : σ → α → Option σ} (s : σ) (acts : List α) (a : α) :
    after? step? s (acts ++ [a]) = (after? step? s acts).bind (step? · a) := by
  have hone : ∀ t, after? step? t [a] = step? t a := by
    intro t
    rw [after?]
    cases step? t a <;> rfl
  rw [after?_append]
  simp only [hone]

namespace Leads

variable {σ α : Type} {step? : σ → α → Option σ} {s t u : σ}

theorem trans (h₁ : Leads step? s t) (h₂ : Leads step? t u) : Leads step? s u := by
  induction h₂ with
  | refl => exact h₁
  | step a _ hstep ih => exact .step a ih hstep

theorem head (a : α) (hstep : step? s a = some u) (h : Leads step? u t) : Leads step? s t :=
  (Leads.step a (.refl s) hstep).trans h

/-- **What every act keeps, a run keeps.** -/
theorem keeps {P : σ → Prop} (hkeep : ∀ u a v, P u → step? u a = some v → P v)
    (h : Leads step? s t) (hs : P s) : P t := by
  induction h with
  | refl => exact hs
  | step a _ hstep ih => exact hkeep _ a _ ih hstep

/-- A list of acts that can all happen is a run. -/
theorem of_after? (acts : List α) (h : after? step? s acts = some t) : Leads step? s t := by
  induction acts generalizing s with
  | nil =>
      cases h
      exact .refl _
  | cons a rest ih =>
      rw [after?] at h
      cases hstep : step? s a with
      | none => simp [hstep] at h
      | some v =>
          rw [hstep] at h
          exact .head a hstep (ih h)

end Leads

/-! ### Counting parties -/

variable {κ : Type} {parties : List κ} {i : Nat} {old new : κ}

/-- One more party counts if it is of the kind. -/
theorem countP_cons_eq_add (p : κ → Bool) (c : κ) (rest : List κ) :
    (c :: rest).countP p = rest.countP p + (p c).toNat := by
  rw [List.countP_cons]
  by_cases hp : p c = true <;> simp [hp]

/-- When one party moves, a count changes by that party alone. -/
theorem countP_set_add (p : κ → Bool) (new : κ) (h : parties[i]? = some old) :
    (parties.set i new).countP p + (p old).toNat = parties.countP p + (p new).toNat := by
  obtain ⟨hi, hget⟩ := List.getElem?_eq_some_iff.mp h
  have hle : (p old).toNat ≤ parties.countP p := by
    have := List.boole_getElem_le_countP (p := p) hi
    rw [hget] at this
    cases hp : p old <;> simp_all
  rw [List.countP_set hi, hget]
  cases hp : p old <;> cases hn : p new <;> simp_all

theorem count_cons_eq_add (k a : Nat) (as : List Nat) : (a :: as).count k = as.count k + (a == k).toNat :=
  countP_cons_eq_add (· == k) a as

/-- What is taken out of a list once is in it once less. -/
theorem count_erase_add {a : Nat} {as : List Nat} (h : a ∈ as) (k : Nat) :
    (as.erase a).count k + (a == k).toNat = as.count k := by
  rw [(List.perm_cons_erase h).count_eq, count_cons_eq_add]

/-- When one party moves, a sum over all changes by that party alone. -/
theorem sum_map_set_add (w : κ → Nat) (new : κ) (h : parties[i]? = some old) :
    ((parties.set i new).map w).sum + w old = (parties.map w).sum + w new := by
  induction parties generalizing i with
  | nil => cases h
  | cons d rest ih =>
      cases i with
      | zero =>
          cases h
          simp only [List.set_cons_zero, List.map_cons, List.sum_cons]
          omega
      | succ i =>
          have := ih h
          simp only [List.set_cons_succ, List.map_cons, List.sum_cons]
          omega

/-- Of two kinds, one within the other, the wider has more parties if some party is only of it. -/
theorem countP_lt_countP {p q : κ → Bool} (hpq : ∀ c, p c = true → q c = true) {c : κ}
    (hc : c ∈ parties) (hp : p c = false) (hq : q c = true) :
    parties.countP p < parties.countP q := by
  induction parties with
  | nil => cases hc
  | cons d rest ih =>
      rw [List.countP_cons, List.countP_cons]
      rcases List.mem_cons.mp hc with rfl | hrest
      · have := List.countP_mono_left (l := rest) fun d _ => hpq d
        rw [if_neg (by simp [hp]), if_pos hq]
        omega
      · have := ih hrest
        by_cases hpd : p d = true
        · rw [if_pos hpd, if_pos (hpq d hpd)]
          omega
        · rw [if_neg hpd]
          omega

/-- A flag that counts the parties of a kind is up as long as there is one. -/
theorem eq_true_of_countP_eq_toNat {p : κ → Bool} {b : Bool} (hcount : parties.countP p = b.toNat)
    {c : κ} (hc : c ∈ parties) (hp : p c = true) : b = true := by
  have hpos : 0 < parties.countP p := List.countP_pos_iff.mpr ⟨c, hc, hp⟩
  have hle := Bool.toNat_le b
  exact Bool.toNat_eq_one.mp (by omega)

/-- Who is in the list after a move is the party that moved, or was in it before. -/
theorem mem_of_mem_set {c : κ} (h : c ∈ parties.set i new) : c = new ∨ c ∈ parties := by
  rcases List.mem_or_eq_of_mem_set h with hmem | heq
  · exact Or.inr hmem
  · exact Or.inl heq

/-- A party that has not moved keeps its number. -/
theorem getElem?_set_of_ne {c : κ} {j : Nat} (hc : parties[j]? = some c) (h : parties[i]? = some old)
    (hne : c ≠ old) : (parties.set i new)[j]? = some c := by
  have hij : i ≠ j := by
    intro heq
    rw [heq, hc] at h
    exact hne (Option.some.inj h)
  rw [List.getElem?_set_ne hij, hc]

/-- After a move every party has one in its place that it goes over to: the new one, or itself. -/
theorem exists_getElem?_set {P : κ → κ → Prop} {c : κ} {j : Nat} (h : parties[i]? = some old)
    (hc : parties[j]? = some c) (hmove : P old new) (hstay : P c c) :
    ∃ d, (parties.set i new)[j]? = some d ∧ P c d := by
  by_cases hij : i = j
  · subst hij
    obtain rfl := Option.some.inj (h.symm.trans hc)
    exact ⟨new, List.getElem?_set_self (List.getElem?_eq_some_iff.mp h).1, hmove⟩
  · exact ⟨c, by rw [List.getElem?_set_ne hij, hc], hstay⟩

/-- A party that has not moved stays in the list. -/
theorem mem_set_of_ne {c : κ} (hc : c ∈ parties) (h : parties[i]? = some old) (hne : c ≠ old) :
    c ∈ parties.set i new := by
  obtain ⟨j, hj⟩ := List.getElem?_of_mem hc
  exact List.mem_of_getElem? (getElem?_set_of_ne hj h hne)

/-- A party that moves into the list is in it. -/
theorem mem_set_self (h : parties[i]? = some old) : new ∈ parties.set i new :=
  List.mem_set (List.getElem?_eq_some_iff.mp h).1 new

/-- A kind that the move does not lead out of still has a party. -/
theorem exists_mem_set {P : κ → Prop} (h : parties[i]? = some old) (hex : ∃ c ∈ parties, P c)
    (hmove : P old → P new) : ∃ c ∈ parties.set i new, P c := by
  obtain ⟨c, hc, hPc⟩ := hex
  by_cases heq : c = old
  · rw [heq] at hPc
    exact ⟨new, mem_set_self h, hmove hPc⟩
  · exact ⟨c, mem_set_of_ne hc h heq, hPc⟩

/-- Who has a number after a move is the party that moved, or had it before. -/
theorem getElem?_of_set {c : κ} {j : Nat} (h : (parties.set i new)[j]? = some c) :
    j = i ∧ c = new ∨ j ≠ i ∧ parties[j]? = some c := by
  by_cases hj : j = i
  · rw [hj] at h
    have hmem := List.getElem?_eq_some_iff.mp h
    obtain ⟨hlt, hget⟩ := hmem
    rw [List.getElem_set_self] at hget
    exact Or.inl ⟨hj, hget.symm⟩
  · rw [List.getElem?_set_ne (Ne.symm hj)] at h
    exact Or.inr ⟨hj, h⟩

/-- Who has a number after somebody has joined is the newcomer, with the last number, or had it before. -/
theorem getElem?_of_concat {c : κ} {j : Nat} (h : (parties ++ [new])[j]? = some c) :
    j = parties.length ∧ c = new ∨ j < parties.length ∧ parties[j]? = some c := by
  rw [List.getElem?_append] at h
  split at h
  · next hlt => exact Or.inr ⟨hlt, h⟩
  · next hge =>
      have hone := (List.getElem?_eq_some_iff.mp h).1
      rw [List.length_singleton] at hone
      exact Or.inl ⟨by omega, List.mem_singleton.mp (List.mem_of_getElem? h)⟩

/-- The same without the numbers. -/
theorem getElem?_of_join {c : κ} {j : Nat} (h : (parties ++ [new])[j]? = some c) :
    c = new ∨ parties[j]? = some c :=
  (getElem?_of_concat h).imp And.right And.right

/-- Nobody can tell a newcomer from one who is still to come, if all that is asked is answered alike. -/
theorem elim_getElem?_concat {ρ : Type} (f : κ → ρ) (j : Nat) :
    ((parties ++ [new])[j]?).elim (f new) f = (parties[j]?).elim (f new) f := by
  cases hj : (parties ++ [new])[j]? with
  | none =>
      have hge := List.getElem?_eq_none_iff.mp hj
      rw [List.length_append, List.length_singleton] at hge
      rw [List.getElem?_eq_none (by omega)]
  | some c =>
      rcases getElem?_of_concat hj with ⟨rfl, rfl⟩ | ⟨-, hold⟩
      · rw [List.getElem?_eq_none (Nat.le_refl _)]
        rfl
      · rw [hold]

/-- If at most one place counts, two parties that count are the same. -/
theorem eq_of_countP_le_one {p : κ → Bool} (hle : parties.countP p ≤ 1) {c d : κ}
    (hc : c ∈ parties) (hd : d ∈ parties) (hpc : p c = true) (hpd : p d = true) : c = d := by
  rw [List.countP_eq_length_filter] at hle
  have hcf : c ∈ parties.filter p := List.mem_filter.mpr ⟨hc, hpc⟩
  have hdf : d ∈ parties.filter p := List.mem_filter.mpr ⟨hd, hpd⟩
  match hf : parties.filter p with
  | [] => simp [hf] at hcf
  | [a] =>
      rw [hf] at hcf hdf
      rw [List.mem_singleton.mp hcf, List.mem_singleton.mp hdf]
  | a :: b :: rest => simp [hf] at hle

/-- The same for their numbers. -/
theorem index_eq_of_countP_le_one {p : κ → Bool} (hle : parties.countP p ≤ 1) {c d : κ} {i j : Nat}
    (hi : parties[i]? = some c) (hj : parties[j]? = some d) (hpc : p c = true) (hpd : p d = true) :
    i = j := by
  induction parties generalizing i j with
  | nil => cases hi
  | cons a rest ih =>
      rw [countP_cons_eq_add] at hle
      cases i with
      | zero =>
          cases j with
          | zero => rfl
          | succ j =>
              obtain rfl := Option.some.inj hi
              have hpos : 0 < rest.countP p := List.countP_pos_iff.mpr ⟨d, List.mem_of_getElem? hj, hpd⟩
              rw [hpc] at hle
              simp only [Bool.toNat_true] at hle
              omega
      | succ i =>
          cases j with
          | zero =>
              obtain rfl := Option.some.inj hj
              have hpos : 0 < rest.countP p := List.countP_pos_iff.mpr ⟨c, List.mem_of_getElem? hi, hpc⟩
              rw [hpd] at hle
              simp only [Bool.toNat_true] at hle
              omega
          | succ j => rw [ih (by omega) hi hj]

end TaskDispatch
