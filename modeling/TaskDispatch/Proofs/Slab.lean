/-
What a slab holds.

A slab is a finite map from small indices to items.  `Sound` ties its stack of free
indices to its slots: the stack holds the vacant indices, each once.  That is why an
insertion never lands on a live slot, and a look-up after any operation is the look-up
before it except at the one index the operation names.
-/
import Mathlib.Data.Finset.Card
import Mathlib.Data.List.Nodup
import TaskDispatch.Proofs.Interleaving
import TaskDispatch.Slab

namespace TaskDispatch.Slab

variable {α : Type} {s s' : Slab α} {a : α} {i j : Nat}

/-- The stack of free indices holds the vacant ones, each once. -/
structure Sound (s : Slab α) : Prop where
  nodup : s.free.Nodup
  vacant : ∀ i, i ∈ s.free ↔ i < s.slots.length ∧ s.get? i = none

theorem sound_empty : Sound ({} : Slab α) where
  nodup := List.nodup_nil
  vacant i := by simp

/-! ### Look-ups -/

theorem lt_of_get? (h : s.get? i = some a) : i < s.slots.length := by
  by_contra hlt
  rw [get?, List.getElem?_eq_none (Nat.le_of_not_lt hlt)] at h
  cases h

/-- A look-up after a slot has been written. -/
theorem get?_set (slots : List (Option α)) (free : List Nat) (n : Nat) (o : Option α)
    (hi : i < slots.length) :
    (⟨slots.set i o, free, n⟩ : Slab α).get? j = if j = i then o else (slots[j]?).join := by
  rw [get?]
  by_cases hji : j = i
  · rw [hji, List.getElem?_set_self hi, if_pos rfl]
    rfl
  · rw [List.getElem?_set_ne (Ne.symm hji), if_neg hji]

/-- A look-up after a slot has been appended. -/
theorem get?_append (slots : List (Option α)) (free : List Nat) (n : Nat) (o : Option α) :
    (⟨slots ++ [o], free, n⟩ : Slab α).get? j
      = if j = slots.length then o else (slots[j]?).join := by
  rw [get?]
  by_cases hj : j = slots.length
  · rw [hj, List.getElem?_concat_length, if_pos rfl]
    rfl
  · rw [if_neg hj]
    by_cases hlt : j < slots.length
    · rw [List.getElem?_append_left hlt]
    · rw [List.getElem?_eq_none (by rw [List.length_append, List.length_singleton]; omega),
        List.getElem?_eq_none (by omega)]

/-! ### Insertion -/

/-- The slot an insertion fills was vacant. -/
theorem get?_insert_index (h : Sound s) (a : α) : s.get? (s.insert a).1 = none := by
  obtain ⟨slots, free, n⟩ := s
  cases free with
  | nil =>
      show (slots[slots.length]?).join = none
      rw [List.getElem?_eq_none (Nat.le_refl _)]
      rfl
  | cons i rest => exact ((h.vacant i).mp List.mem_cons_self).2

/-- **An insertion changes what its index holds, and nothing else.** -/
theorem get?_insert (h : Sound s) (a : α) (j : Nat) :
    (s.insert a).2.get? j = if j = (s.insert a).1 then some a else s.get? j := by
  obtain ⟨slots, free, n⟩ := s
  cases free with
  | nil => exact get?_append slots [] (n + 1) (some a)
  | cons i rest => exact get?_set slots rest (n + 1) (some a) ((h.vacant i).mp List.mem_cons_self).1

/-- What was there before an insertion is there after it. -/
theorem get?_insert_of_get? (h : Sound s) (hget : s.get? i = some a) (b : α) :
    (s.insert b).2.get? i = some a := by
  rw [get?_insert h, if_neg, hget]
  intro heq
  rw [heq, get?_insert_index h] at hget
  cases hget

theorem Sound.insert (h : Sound s) (a : α) : Sound (s.insert a).2 := by
  obtain ⟨slots, free, n⟩ := s
  cases free with
  | nil =>
      have hnone : ∀ j, j < (slots ++ [some a]).length →
          (⟨slots ++ [some a], [], n + 1⟩ : Slab α).get? j ≠ none := by
        intro j hlt
        rw [List.length_append, List.length_singleton] at hlt
        rw [get?_append]
        by_cases hj : j = slots.length
        · rw [if_pos hj]
          nofun
        · rw [if_neg hj]
          intro hvacant
          have := (h.vacant j).mpr ⟨(by show j < slots.length; omega), hvacant⟩
          cases this
      refine ⟨List.nodup_nil, fun j => ⟨?_, ?_⟩⟩
      · intro hj
        cases hj
      · rintro ⟨hlt, hvacant⟩
        exact absurd hvacant (hnone j hlt)
  | cons i rest =>
      obtain ⟨hnot, hnodup⟩ := List.nodup_cons.mp h.nodup
      refine ⟨hnodup, fun j => ?_⟩
      rw [get?_insert h]
      show j ∈ rest ↔ j < (slots.set i (some a)).length ∧ (if j = i then some a else _) = none
      rw [List.length_set]
      by_cases hj : j = i
      · rw [if_pos hj, hj]
        exact ⟨fun hmem => absurd hmem hnot, fun ⟨_, hnone⟩ => by cases hnone⟩
      · rw [if_neg hj]
        show j ∈ rest ↔ _
        rw [← h.vacant j, List.mem_cons]
        exact ⟨Or.inr, fun hmem => hmem.resolve_left hj⟩

/-! ### Removal -/

/-- **A removal empties its index, and changes nothing else.** -/
theorem get?_remove? (s : Slab α) (i j : Nat) :
    (s.remove? i).2.get? j = if j = i then none else s.get? j := by
  cases hi : s.get? i with
  | none =>
      rw [remove?_of_get?_eq_none hi]
      by_cases hj : j = i
      · rw [if_pos hj, hj, hi]
      · rw [if_neg hj]
  | some a =>
      rw [remove?_of_get?_eq_some hi]
      exact get?_set s.slots (i :: s.free) (s.len - 1) none (lt_of_get? hi)

theorem get?_remove?_of_ne (s : Slab α) {i j : Nat} (h : j ≠ i) : (s.remove? i).2.get? j = s.get? j := by
  rw [get?_remove?, if_neg h]

theorem Sound.remove? (h : Sound s) (i : Nat) : Sound (s.remove? i).2 := by
  cases hi : s.get? i with
  | none =>
      rw [remove?_of_get?_eq_none hi]
      exact h
  | some a =>
      have hget := get?_remove? s i
      rw [remove?_of_get?_eq_some hi] at hget ⊢
      have hlive : i ∉ s.free := by
        intro hmem
        rw [((h.vacant i).mp hmem).2] at hi
        cases hi
      refine ⟨List.nodup_cons.mpr ⟨hlive, h.nodup⟩, fun j => ?_⟩
      rw [hget]
      show j ∈ i :: s.free ↔ j < (s.slots.set i none).length ∧ _
      rw [List.length_set, List.mem_cons]
      by_cases hj : j = i
      · rw [if_pos hj, hj]
        exact ⟨fun _ => ⟨lt_of_get? hi, rfl⟩, fun _ => Or.inl rfl⟩
      · rw [if_neg hj, ← h.vacant j]
        exact ⟨fun hmem => hmem.resolve_left hj, Or.inr⟩

/-! ### Modification -/

/-- **A modification changes what its index holds, and nothing else.** -/
theorem get?_modify (s : Slab α) (i j : Nat) (f : α → α) :
    (s.modify i f).get? j = if j = i then (s.get? j).map f else s.get? j := by
  simp only [get?, modify, List.getElem?_modify]
  by_cases hj : j = i
  · rw [if_pos hj, hj]
    cases s.slots[i]? <;> simp
  · rw [if_neg hj]
    cases s.slots[j]? <;> simp [Ne.symm hj]

theorem isSome_get?_modify (s : Slab α) (i j : Nat) (f : α → α) :
    ((s.modify i f).get? j).isSome = (s.get? j).isSome := by
  rw [get?_modify]
  split
  · rw [Option.isSome_map]
  · rfl

theorem Sound.modify (h : Sound s) (i : Nat) (f : α → α) : Sound (s.modify i f) where
  nodup := h.nodup
  vacant j := by
    have hsome := isSome_get?_modify s i j f
    rw [← Option.isNone_iff_eq_none, ← Option.not_isSome, hsome, Option.not_isSome,
      Option.isNone_iff_eq_none]
    show j ∈ s.free ↔ j < (s.slots.modify i _).length ∧ _
    rw [List.length_modify]
    exact h.vacant j

/-! ### Draining -/

/-- A drain hands over every live item. -/
theorem mem_drain (h : s.get? i = some a) : a ∈ s.drain.1 := by
  refine List.mem_filterMap.mpr ⟨some a, ?_, rfl⟩
  rw [get?] at h
  exact List.mem_of_getElem? (Option.join_eq_some_iff.mp h)

/-! ### Counting

How many items of a kind are live; every operation changes this by the one item that comes or goes.
-/

/-- How many live items are of a kind. -/
def liveCount (p : α → Bool) (s : Slab α) : Nat := s.slots.countP (·.any p)

theorem liveCount_insert_le (p : α → Bool) (s : Slab α) (a : α) :
    (s.insert a).2.liveCount p ≤ s.liveCount p + (p a).toNat := by
  obtain ⟨slots, free, n⟩ := s
  cases free with
  | nil =>
      simp only [insert, liveCount, List.countP_append, countP_cons_eq_add, List.countP_nil,
        Option.any_some]
      omega
  | cons i rest =>
      simp only [insert, liveCount]
      by_cases hi : i < slots.length
      · have hset := countP_set_add (·.any p) (some a) (List.getElem?_eq_getElem hi)
        simp only [Option.any_some] at hset
        omega
      · rw [List.set_eq_of_length_le (Nat.le_of_not_lt hi)]
        omega

/-- **An insertion adds its item to the count.** -/
theorem liveCount_insert (h : Sound s) (p : α → Bool) (a : α) :
    (s.insert a).2.liveCount p = s.liveCount p + (p a).toNat := by
  obtain ⟨slots, free, n⟩ := s
  cases free with
  | nil =>
      simp only [insert, liveCount, List.countP_append, countP_cons_eq_add, List.countP_nil,
        Option.any_some]
      omega
  | cons i rest =>
      obtain ⟨hi, hvacant⟩ := (h.vacant i).mp List.mem_cons_self
      have hnone : slots[i]? = some none := by
        rw [get?, List.getElem?_eq_getElem hi, Option.join_some] at hvacant
        rw [List.getElem?_eq_getElem hi, hvacant]
      have hset := countP_set_add (·.any p) (some a) hnone
      simp only [Option.any_some, Option.any_none, Bool.toNat_false, Nat.add_zero] at hset
      exact hset

theorem liveCount_of_remove? (p : α → Bool) (h : s.remove? i = (some a, s')) :
    s'.liveCount p + (p a).toNat = s.liveCount p := by
  cases hi : s.get? i with
  | none =>
      rw [remove?_of_get?_eq_none hi] at h
      cases h
  | some b =>
      rw [remove?_of_get?_eq_some hi] at h
      cases h
      have hget : s.slots[i]? = some (some a) := Option.join_eq_some_iff.mp hi
      have hset := countP_set_add (·.any p) none hget
      simp only [Option.any_some, Option.any_none, Bool.toNat_false, Nat.add_zero] at hset
      exact hset

theorem liveCount_modify (p : α → Bool) (s : Slab α) (i : Nat) {f : α → α} (hf : ∀ a, p (f a) = p a) :
    (s.modify i f).liveCount p = s.liveCount p := by
  have hany : ∀ o : Option α, (o.map f).any p = o.any p := by
    intro o
    cases o with
    | none => rfl
    | some a => exact hf a
  simp only [modify, liveCount]
  cases hget : s.slots[i]? with
  | none => rw [List.modify_eq_self (List.getElem?_eq_none_iff.mp hget)]
  | some o =>
      have hset := countP_set_add (·.any p) (o.map f) hget
      rw [hany] at hset
      obtain ⟨hi, hval⟩ := List.getElem?_eq_some_iff.mp hget
      rw [List.modify_eq_set_get _ hi, List.get_eq_getElem, hval]
      omega

/-- A drain hands over what is live, each item once. -/
theorem countP_drain (p : α → Bool) (s : Slab α) : s.drain.1.countP p = s.liveCount p := by
  rw [drain, liveCount, List.countP_filterMap]
  refine List.countP_congr fun o _ => ?_
  cases o <;> rfl

/-! ### The number of items -/

/-- The number of items is kept: it is the number of live slots. -/
def Tallied (s : Slab α) : Prop := s.len = s.liveCount fun _ => true

theorem tallied_empty : Tallied ({} : Slab α) := rfl

namespace Tallied

theorem insert (h : Tallied s) (hsound : Sound s) (a : α) : Tallied (s.insert a).2 := by
  have hlen : (s.insert a).2.len = s.len + 1 := by
    rw [Slab.insert]
    split <;> rfl
  rw [Tallied, liveCount_insert hsound, hlen, h]
  rfl

theorem of_remove? (h : Tallied s) (hremove : s.remove? i = (some a, s')) : Tallied s' := by
  have hcount := liveCount_of_remove? (fun _ => true) hremove
  have hlen : s'.len = s.len - 1 := by
    cases hi : s.get? i with
    | none =>
        rw [remove?_of_get?_eq_none hi] at hremove
        cases hremove
    | some b =>
        rw [remove?_of_get?_eq_some hi] at hremove
        cases hremove
        rfl
  rw [Tallied] at h ⊢
  simp only [Bool.toNat_true] at hcount
  omega

theorem modify (h : Tallied s) (i : Nat) (f : α → α) : Tallied (s.modify i f) := by
  have hcount : (s.modify i f).liveCount (fun _ => true) = s.liveCount fun _ => true :=
    liveCount_modify _ s i fun _ => rfl
  rw [Tallied, hcount]
  exact h

end Tallied

/-! ### The live indices -/

/-- Slot by slot, a slab is its look-ups. -/
theorem slots_eq_map_get? (s : Slab α) : s.slots = (List.range s.slots.length).map s.get? := by
  refine List.ext_getElem (by simp) fun i hi _ => ?_
  simp [get?, hi]

/-- The indices that hold something. -/
def live (s : Slab α) : Finset Nat := {i ∈ Finset.range s.slots.length | (s.get? i).isSome}

theorem mem_live : i ∈ s.live ↔ (s.get? i).isSome = true := by
  rw [live, Finset.mem_filter, Finset.mem_range, and_iff_right_iff_imp]
  intro hsome
  obtain ⟨a, ha⟩ := Option.isSome_iff_exists.mp hsome
  exact lt_of_get? ha

/-- There are as many items as live indices. -/
theorem card_live (h : Tallied s) : s.live.card = s.len := by
  calc s.live.card
      = (List.range s.slots.length).countP fun i => (s.get? i).isSome := by
        rw [List.countP_eq_length_filter]
        show (List.filter (fun i => decide ((s.get? i).isSome = true)) _).length = _
        simp only [Bool.decide_eq_true]
    _ = ((List.range s.slots.length).map s.get?).countP (·.any fun _ => true) := by
        rw [List.countP_map]
        refine List.countP_congr fun i _ => ?_
        rw [Function.comp_apply]
        cases s.get? i <;> simp
    _ = s.liveCount fun _ => true := by rw [liveCount, ← slots_eq_map_get?]
    _ = s.len := h.symm

/-- Different live indices are no more than there are items. -/
theorem length_le_len {indices : List Nat} (h : Tallied s) (hnodup : indices.Nodup)
    (hlive : ∀ i ∈ indices, (s.get? i).isSome = true) : indices.length ≤ s.len := by
  have hsub : indices.toFinset ⊆ s.live := by
    intro i hi
    exact mem_live.mpr (hlive i (List.mem_toFinset.mp hi))
  calc indices.length
      = indices.toFinset.card := (List.toFinset_card_of_nodup hnodup).symm
    _ ≤ s.live.card := Finset.card_le_card hsub
    _ = s.len := card_live h

end TaskDispatch.Slab
