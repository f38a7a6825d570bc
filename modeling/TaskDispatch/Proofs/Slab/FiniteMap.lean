/-
A slab is a finite map.

Its users insert, remove and drain in any order, and remove under any index: one that is
live, one that is vacant, one from before a drain, one that never was.  What they get is
what a map from indices to items allows (`Allows`), which says nothing of slots or of a stack.
The slab has two more fields than a map needs, and both go with it: the stack holds the
vacant indices (`Sound`) and the number of items is the number of live indices (`Tallied`).

A drain hands its items over one at a time, and its caller may stop asking.  The slab is
empty from the moment on at which the drain begins, so what the caller asks for decides only
what he gets (`taken_eq`).
-/
import Mathlib.Data.Finset.Sort
import TaskDispatch.Proofs.Slab

namespace TaskDispatch.Slab

variable {α : Type} {s : Slab α}

/-! ### A drain under way -/

/-- The next item of a drain that has these slots before it, and the slots it then has. -/
def nextItem? : List (Option α) → Option (α × List (Option α))
  | [] => none
  | none :: rest => nextItem? rest
  | some a :: rest => some (a, rest)

/-- What a caller gets who asks for an item `n` times. -/
def taken : Nat → List (Option α) → List α
  | 0, _ => []
  | n + 1, slots =>
    match nextItem? slots with
    | none => []
    | some (a, rest) => a :: taken n rest

/-- A drain passes over vacant slots, and over nothing else. -/
theorem filterMap_id_eq (slots : List (Option α)) :
    slots.filterMap id = (nextItem? slots).elim [] fun (a, rest) => a :: rest.filterMap id := by
  induction slots with
  | nil => rfl
  | cons o rest ih =>
      cases o with
      | none => simpa [nextItem?] using ih
      | some a => simp [nextItem?]

/-- Who stops asking gets the first of the items. -/
theorem taken_eq (n : Nat) (slots : List (Option α)) : taken n slots = (slots.filterMap id).take n := by
  induction n generalizing slots with
  | zero => rfl
  | succ n ih =>
      rw [taken, filterMap_id_eq]
      cases nextItem? slots with
      | none => rfl
      | some next => simp [ih]

/-! ### The deeds and what a map allows -/

/-- What is done to a slab.  A drain is asked for this many items. -/
inductive Deed (α : Type) where
  | insert (a : α)
  | remove (i : Nat)
  | drain (n : Nat)

/-- What a deed answers. -/
inductive Answer (α : Type) where
  | index (i : Nat)
  | item (o : Option α)
  | items (as : List α)

/-- What a deed answers and leaves. -/
def perform (s : Slab α) : Deed α → Answer α × Slab α
  | .insert a => (.index (s.insert a).1, (s.insert a).2)
  | .remove i => (.item (s.remove? i).1, (s.remove? i).2)
  | .drain n => (.items (taken n s.slots), s.drain.2)

/-- The slab after deeds, one after another. -/
def after (s : Slab α) (deeds : List (Deed α)) : Slab α := deeds.foldl (fun s d => (s.perform d).2) s

/-- What a map from indices to items may answer to a deed, and the map that there is then: an insertion
picks any index that holds nothing, and a drain goes through the indices that hold something upwards. -/
inductive Allows (m : Nat → Option α) : Deed α → Answer α → (Nat → Option α) → Prop
  | insert (a : α) (i : Nat) (hvacant : m i = none) :
    Allows m (.insert a) (.index i) (Function.update m i (some a))
  | remove (i : Nat) : Allows m (.remove i) (.item (m i)) (Function.update m i none)
  | drain (n : Nat) (live : Finset Nat) (hlive : ∀ i, i ∈ live ↔ (m i).isSome = true) :
    Allows m (.drain n) (.items (((live.sort (· ≤ ·)).filterMap m).take n)) fun _ => none

/-! ### One deed -/

/-- Upwards, the live indices are the indices of the slots that are live. -/
theorem sort_live (s : Slab α) :
    s.live.sort (· ≤ ·) = (List.range s.slots.length).filter fun i => (s.get? i).isSome := by
  refine List.Perm.eq_of_pairwise' (r := (· ≤ ·)) (Finset.pairwise_sort _ _) ?_ ?_
  · exact (List.pairwise_le_range).filter _
  · refine (List.perm_ext_iff_of_nodup (Finset.sort_nodup _ _) (List.nodup_range.filter _)).mpr fun i => ?_
    simp [live]

/-- A drain hands over what the live indices hold, in their order. -/
theorem drain_eq_sort_live (s : Slab α) : s.drain.1 = (s.live.sort (· ≤ ·)).filterMap s.get? := by
  calc s.drain.1
      = ((List.range s.slots.length).map s.get?).filterMap id := by rw [drain, ← slots_eq_map_get?]
    _ = (List.range s.slots.length).filterMap s.get? := by rw [List.filterMap_map, Function.id_comp]
    _ = (s.live.sort (· ≤ ·)).filterMap s.get? := by
        rw [sort_live, List.filterMap_filter]
        refine List.filterMap_congr fun i _ => ?_
        cases s.get? i <;> rfl

/-- **A sound slab does what a map does.** -/
theorem Sound.allows (h : Sound s) (d : Deed α) :
    Allows s.get? d (s.perform d).1 (s.perform d).2.get? := by
  cases d with
  | insert a =>
      have hmap : (s.insert a).2.get? = Function.update s.get? (s.insert a).1 (some a) := by
        funext j
        rw [get?_insert h, Function.update_apply]
      simp only [perform]
      rw [hmap]
      exact .insert a _ (get?_insert_index h a)
  | remove i =>
      have hanswer : (s.remove? i).1 = s.get? i := by
        cases hi : s.get? i with
        | none => rw [remove?_of_get?_eq_none hi]
        | some a => rw [remove?_of_get?_eq_some hi]
      have hmap : (s.remove? i).2.get? = Function.update s.get? i none := by
        funext j
        rw [get?_remove?, Function.update_apply]
      simp only [perform]
      rw [hanswer, hmap]
      exact .remove i
  | drain n =>
      have hitems : taken n s.slots = ((s.live.sort (· ≤ ·)).filterMap s.get?).take n := by
        rw [taken_eq, ← drain_eq_sort_live, drain]
      simp only [perform]
      rw [hitems]
      exact .drain n s.live fun i => mem_live

/-- Every deed leaves the slab sound. -/
theorem Sound.perform (h : Sound s) (d : Deed α) : Sound (s.perform d).2 := by
  cases d with
  | insert a => exact h.insert a
  | remove i => exact h.remove? i
  | drain n => exact sound_empty

/-- Every deed keeps the number of items. -/
theorem Tallied.perform (h : Tallied s) (hsound : Sound s) (d : Deed α) : Tallied (s.perform d).2 := by
  cases d with
  | insert a => exact h.insert hsound a
  | remove i =>
      simp only [Slab.perform]
      cases hi : s.get? i with
      | none =>
          rw [remove?_of_get?_eq_none hi]
          exact h
      | some a => exact h.of_remove? (a := a) (by rw [remove?_of_get?_eq_some hi])
  | drain n => exact tallied_empty

/-! ### Any deeds -/

/-- Whatever is done to it, a slab stays sound and knows how many items it has. -/
theorem Sound.after (h : Sound s) (htallied : Tallied s) (deeds : List (Deed α)) :
    Sound (s.after deeds) ∧ Tallied (s.after deeds) := by
  induction deeds generalizing s with
  | nil => exact ⟨h, htallied⟩
  | cons d rest ih =>
      simp only [Slab.after, List.foldl_cons]
      exact ih (h.perform d) (htallied.perform h d)

/-- **A slab is a finite map.**  After insertions, removals under any index and drains that were asked for
any number of items:

* the next deed answers what a map may answer and leaves the map that a map may leave; a removal under an
  index that holds nothing leaves the slab itself as it is;
* there are as many items as indices that hold something;
* the stack of free indices holds the vacant ones among the slots, each once. -/
theorem slab_is_a_finite_map (deeds : List (Deed α)) (d : Deed α) :
    let s := ({} : Slab α).after deeds
    Allows s.get? d (s.perform d).1 (s.perform d).2.get? ∧
      (∀ i, s.get? i = none → s.perform (.remove i) = (.item none, s)) ∧
      (∃ live : Finset Nat, (∀ i, i ∈ live ↔ (s.get? i).isSome = true) ∧ s.len = live.card) ∧
      s.free.Nodup ∧ ∀ i, i ∈ s.free ↔ i < s.slots.length ∧ s.get? i = none := by
  intro s
  obtain ⟨hsound, htallied⟩ : Sound s ∧ Tallied s := sound_empty.after tallied_empty deeds
  refine ⟨hsound.allows d, fun i hi => ?_, ?_, hsound.nodup, hsound.vacant⟩
  · simp only [perform, remove?_of_get?_eq_none hi]
  · exact ⟨s.live, fun i => mem_live, (card_live htallied).symm⟩

/-- A second removal finds nothing, the slot vacated last is filled first, and a drain of which only one item
was asked for leaves no index that could still be removed. -/
example :
    let s : Slab Nat := ({} : Slab Nat).after [.insert 5, .insert 6, .insert 7, .remove 0, .remove 1]
    (s.perform (.remove 1)).1 = .item none ∧ (s.perform (.insert 8)).1 = .index 1 ∧
      (s.perform (.drain 1)).1 = .items [7] ∧ ((s.perform (.drain 1)).2.perform (.remove 2)).1 = .item none :=
  ⟨rfl, rfl, rfl, rfl⟩

end TaskDispatch.Slab
