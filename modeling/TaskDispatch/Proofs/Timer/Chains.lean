/-
What the slots of an inbox hold.

The list begins at the head, a detached chain wherever the one who has detached it says,
and both run from slot to slot to their end (`Linked`).  Every slot in use is on the
list, on the chain, or belongs to one push under way, each once (`Tidy`).  So slots may
be used again and again, and an exchange may find the same head after the list has been
taken and pushed to anew: a push writes only to a slot of its own, and the slot that it
has linked its node before is the head whenever its exchange succeeds.

Every step of a push and of the one who takes keeps this.  A push that is exchanged puts
its node in front of the list, and nothing else changes what is on it.
-/
import TaskDispatch.Proofs.Slab
import TaskDispatch.Timer.Inbox

namespace TaskDispatch.Timer.Inbox

variable {α : Type} {nodes nodes' : Slab (Node α)} {start : Option Nat} {cells : List (Nat × α)}

/-! ### Chains -/

/-- The chain of nodes that begins at `start`: the slots it runs through and what they carry. -/
def Linked (nodes : Slab (Node α)) : Option Nat → List (Nat × α) → Prop
  | start, [] => start = none
  | start, (slot, a) :: rest =>
    start = some slot ∧ ∃ next, nodes.get? slot = some ⟨a, next⟩ ∧ Linked nodes next rest

namespace Linked

/-- A chain stays as long as its own slots do. -/
theorem congr (h : Linked nodes start cells)
    (hsame : ∀ slot ∈ cells.map (·.1), nodes'.get? slot = nodes.get? slot) :
    Linked nodes' start cells := by
  induction cells generalizing start with
  | nil => exact h
  | cons cell rest ih =>
      obtain ⟨hstart, next, hget, hrest⟩ := h
      refine ⟨hstart, next, ?_, ih hrest fun slot hslot => hsame slot (List.mem_cons_of_mem _ hslot)⟩
      rw [hsame _ List.mem_cons_self, hget]

theorem isSome_get? (h : Linked nodes start cells) {slot : Nat} (hslot : slot ∈ cells.map (·.1)) :
    (nodes.get? slot).isSome = true := by
  induction cells generalizing start with
  | nil => cases hslot
  | cons cell rest ih =>
      obtain ⟨-, next, hget, hrest⟩ := h
      rcases List.mem_cons.mp hslot with rfl | htail
      · rw [hget]
        rfl
      · exact ih hrest htail

/-- A chain stays when a slot that it does not run through is vacated. -/
theorem remove? (h : Linked nodes start cells) {slot : Nat} (hslot : slot ∉ cells.map (·.1)) :
    Linked (nodes.remove? slot).2 start cells :=
  h.congr fun _ hk => Slab.get?_remove?_of_ne nodes (ne_of_mem_of_not_mem hk hslot)

end Linked

theorem next?_of_get? {l : Inbox α} {slot : Nat} {node : Node α} (h : l.nodes.get? slot = some node) :
    l.next? (some slot) =
      some (node.item, node.next, { l with nodes := (l.nodes.remove? slot).2 }) := by
  simp [next?, Slab.remove?_of_get?_eq_some h]

/-- **Taking a chain node by node hands over what its slots carry, in order.** -/
theorem collect_of_linked {l : Inbox α} (h : Linked l.nodes start cells) (hnodup : (cells.map (·.1)).Nodup)
    {fuel : Nat} (hfuel : cells.length ≤ fuel) : (l.collect fuel start).1 = cells.map (·.2) := by
  induction cells generalizing l start fuel with
  | nil =>
      obtain rfl : start = none := h
      cases fuel <;> rfl
  | cons cell rest ih =>
      obtain ⟨slot, a⟩ := cell
      obtain ⟨rfl, next, hget, hrest⟩ := h
      obtain ⟨hnot, hnodup⟩ := List.nodup_cons.mp hnodup
      cases fuel with
      | zero => cases hfuel
      | succ fuel =>
          simp only [collect, next?_of_get? hget]
          rw [ih (l := { l with nodes := (l.nodes.remove? slot).2 }) (hrest.remove? hnot) hnodup
            (Nat.le_of_succ_le_succ hfuel)]
          rfl

/-! ### Pushes -/

namespace Push

/-- The slot that a push under way has put its node into. -/
def slot? : Push α → Option Nat
  | load slot | link slot _ | exchange slot _ => some slot
  | place _ | pushed _ => none

def isPushed : Push α → Bool
  | pushed _ => true
  | _ => false

/-- The push is to bring `a`: the node in its slot carries it, and is linked before what the exchange
looks for. -/
def Carries (nodes : Slab (Node α)) (a : α) : Push α → Prop
  | place b => b = a
  | load slot | link slot _ => ∃ next, nodes.get? slot = some ⟨a, next⟩
  | exchange slot seen => nodes.get? slot = some ⟨a, seen⟩
  | pushed _ => True

variable {pc other : Push α} {a b : α}

theorem Carries.congr (h : pc.Carries nodes a)
    (hsame : ∀ slot, pc.slot? = some slot → nodes'.get? slot = nodes.get? slot) : pc.Carries nodes' a := by
  cases pc with
  | place b => exact h
  | load slot | link slot seen | exchange slot seen =>
      rw [Carries, hsame slot rfl]
      exact h
  | pushed wasEmpty => trivial

theorem Carries.isSome_get? (h : pc.Carries nodes a) {slot : Nat} (hslot : pc.slot? = some slot) :
    (nodes.get? slot).isSome = true := by
  cases pc with
  | place b | pushed wasEmpty => cases hslot
  | load k | link k seen =>
      cases hslot
      obtain ⟨next, hget⟩ := h
      rw [hget]
      rfl
  | exchange k seen =>
      cases hslot
      rw [h]
      rfl

/-- A push writes to no slot in use but its own. -/
theorem get?_step {l : Inbox α} (hsound : l.nodes.Sound) (spurious : Bool) {slot : Nat}
    (hlive : (l.nodes.get? slot).isSome = true) (hne : pc.slot? ≠ some slot) :
    (pc.step spurious l).1.nodes.get? slot = l.nodes.get? slot := by
  cases pc with
  | place b =>
      obtain ⟨node, hnode⟩ := Option.isSome_iff_exists.mp hlive
      rw [hnode]
      exact Slab.get?_insert_of_get? hsound hnode { item := b }
  | link k seen =>
      show (l.nodes.modify k _).get? slot = _
      rw [Slab.get?_modify, if_neg]
      rintro rfl
      exact hne rfl
  | exchange k seen =>
      rw [step]
      split <;> rfl
  | load k | pushed wasEmpty => rfl

/-- What a push is to bring it goes on to bring. -/
theorem Carries.step {l : Inbox α} (h : pc.Carries l.nodes a) (hsound : l.nodes.Sound) (spurious : Bool) :
    (pc.step spurious l).2.Carries (pc.step spurious l).1.nodes a := by
  cases pc with
  | place b =>
      obtain rfl : b = a := h
      refine ⟨none, ?_⟩
      show (l.nodes.insert { item := b }).2.get? (l.nodes.insert { item := b }).1 = _
      rw [Slab.get?_insert hsound, if_pos rfl]
  | load slot => exact h
  | link slot seen =>
      obtain ⟨next, hget⟩ := h
      show (l.nodes.modify slot _).get? slot = _
      rw [Slab.get?_modify, if_pos rfl, hget]
      rfl
  | exchange slot seen =>
      rw [Push.step]
      split
      · trivial
      · exact ⟨seen, h⟩
  | pushed wasEmpty => trivial

end Push

/-! ### The inbox -/

/-- The slots in use: those of the list, those of the chain that begins at `chain`, and `pushing` tells of
each how many pushes under way have it. -/
structure Tidy (l : Inbox α) (chain : Option Nat) (list detached : List (Nat × α)) (pushing : Nat → Nat) :
    Prop where
  sound : l.nodes.Sound
  tallied : l.nodes.Tallied
  onList : Linked l.nodes l.head list
  onChain : Linked l.nodes chain detached
  live : ∀ slot, (list.map (·.1)).count slot + (detached.map (·.1)).count slot + pushing slot =
    (l.nodes.get? slot).isSome.toNat

theorem tidy_empty : Tidy ({} : Inbox α) none [] [] fun _ => 0 where
  sound := Slab.sound_empty
  tallied := Slab.tallied_empty
  onList := rfl
  onChain := rfl
  live _ := rfl

namespace Tidy

variable {l : Inbox α} {chain : Option Nat} {list detached : List (Nat × α)} {pushing pushing' : Nat → Nat}
  {pc : Push α} {a : α}

theorem count_le_one (h : Tidy l chain list detached pushing) (slot : Nat) :
    (list.map (·.1)).count slot + (detached.map (·.1)).count slot + pushing slot ≤ 1 := by
  rw [h.live]
  exact Bool.toNat_le _

/-- A slot with a push under way is on neither chain. -/
theorem not_mem_of_pushing (h : Tidy l chain list detached pushing) {slot : Nat} (hslot : 0 < pushing slot) :
    slot ∉ list.map (·.1) ∧ slot ∉ detached.map (·.1) := by
  have hle := h.count_le_one slot
  constructor <;> intro hmem <;> have := List.count_pos_iff.mpr hmem <;> omega

theorem nodup_list (h : Tidy l chain list detached pushing) : (list.map (·.1)).Nodup :=
  List.nodup_iff_count_le_one.mpr fun slot => by have := h.count_le_one slot; omega

theorem nodup_detached (h : Tidy l chain list detached pushing) : (detached.map (·.1)).Nodup :=
  List.nodup_iff_count_le_one.mpr fun slot => by have := h.count_le_one slot; omega

/-- **Taking everything hands over what was pushed, the last push first.** -/
theorem takeAll (h : Tidy l chain list detached pushing) : l.takeAll.1 = list.map (·.2) := by
  have hlen := Slab.length_le_len h.tallied h.nodup_list fun _ => h.onList.isSome_get?
  rw [List.length_map] at hlen
  exact collect_of_linked (l := l.detach.2) h.onList h.nodup_list hlen

/-- The chain hands over what was on it when it was detached and is still left. -/
theorem collect (h : Tidy l chain list detached pushing) :
    (l.collect l.nodes.len chain).1 = detached.map (·.2) := by
  have hlen := Slab.length_le_len h.tallied h.nodup_detached fun _ => h.onChain.isSome_get?
  rw [List.length_map] at hlen
  exact collect_of_linked h.onChain h.nodup_detached hlen

/-- A node that is put into a free slot belongs to the push that has put it there. -/
theorem insert (h : Tidy l chain list detached pushing) (node : Node α)
    (hpushing : ∀ slot, pushing' slot = pushing slot + ((l.nodes.insert node).1 == slot).toNat) :
    Tidy { l with nodes := (l.nodes.insert node).2 } chain list detached pushing' := by
  have hstay : ∀ {start cells}, Linked l.nodes start cells → Linked (l.nodes.insert node).2 start cells := by
    intro start cells hlinked
    refine hlinked.congr fun slot hslot => ?_
    obtain ⟨old, hold⟩ := Option.isSome_iff_exists.mp (hlinked.isSome_get? hslot)
    rw [hold]
    exact Slab.get?_insert_of_get? h.sound hold node
  refine ⟨h.sound.insert node, h.tallied.insert h.sound node, hstay h.onList, hstay h.onChain, fun slot => ?_⟩
  have hlive := h.live slot
  rw [hpushing slot, Slab.get?_insert h.sound]
  by_cases hslot : slot = (l.nodes.insert node).1
  · rw [hslot, Slab.get?_insert_index h.sound, Option.isSome_none, Bool.toNat_false] at hlive
    rw [if_pos hslot, hslot, beq_self_eq_true, Option.isSome_some, Bool.toNat_true]
    omega
  · rw [if_neg hslot, beq_eq_false_iff_ne.mpr (Ne.symm hslot), Bool.toNat_false]
    omega

/-- A push writes to the node in its own slot. -/
theorem modify (h : Tidy l chain list detached pushing) {slot : Nat} (hown : 0 < pushing slot)
    (f : Node α → Node α) : Tidy { l with nodes := l.nodes.modify slot f } chain list detached pushing := by
  have hstay : ∀ {start cells}, Linked l.nodes start cells → slot ∉ cells.map (·.1) →
      Linked (l.nodes.modify slot f) start cells := by
    intro start cells hlinked hnot
    refine hlinked.congr fun k hk => ?_
    rw [Slab.get?_modify, if_neg]
    rintro rfl
    exact hnot hk
  obtain ⟨hlist, hchain⟩ := h.not_mem_of_pushing hown
  refine ⟨h.sound.modify slot f, h.tallied.modify slot f, hstay h.onList hlist, hstay h.onChain hchain,
    fun k => ?_⟩
  rw [Slab.isSome_get?_modify]
  exact h.live k

/-- A node that is linked before the head goes from its push to the front of the list. -/
theorem exchange (h : Tidy l chain list detached pushing) {slot : Nat}
    (hget : l.nodes.get? slot = some ⟨a, l.head⟩)
    (hpushing : ∀ k, pushing' k + (slot == k).toNat = pushing k) :
    Tidy { l with head := some slot } chain ((slot, a) :: list) detached pushing' := by
  refine ⟨h.sound, h.tallied, ⟨rfl, l.head, hget, h.onList⟩, h.onChain, fun k => ?_⟩
  have hlive := h.live k
  have hk := hpushing k
  show _ = (l.nodes.get? k).isSome.toNat
  simp only [List.map_cons, count_cons_eq_add]
  omega

/-- **A push that is exchanged puts its node in front of the list; no other step changes what is on it.** -/
theorem push (h : Tidy l chain list detached pushing) (hpc : pc.Carries l.nodes a) (spurious : Bool)
    (hown : ∀ slot, pc.slot? = some slot → 0 < pushing slot)
    (hpushing : ∀ slot, pushing' slot + (pc.slot? == some slot).toNat =
      pushing slot + ((pc.step spurious l).2.slot? == some slot).toNat) :
    ∃ news, Tidy (pc.step spurious l).1 chain (news ++ list) detached pushing' ∧
      (news = [] ∧ (pc.step spurious l).2.isPushed = pc.isPushed ∨
        (∃ slot, news = [(slot, a)]) ∧ pc.isPushed = false ∧ (pc.step spurious l).2.isPushed = true) := by
  -- A push that keeps its slot leaves every other slot to whom it belongs.
  have hkeeps : (pc.step spurious l).2.slot? = pc.slot? → pushing' = pushing := by
    intro hslot
    funext k
    have hk := hpushing k
    rw [hslot] at hk
    exact Nat.add_right_cancel hk
  cases pc with
  | place b =>
      refine ⟨[], h.insert { item := b } fun slot => ?_, Or.inl ⟨rfl, rfl⟩⟩
      simpa only [Push.slot?, Push.step, Option.none_beq_some, Option.some_beq_some, Bool.toNat_false,
        Nat.add_zero] using hpushing slot
  | load slot =>
      rw [hkeeps rfl]
      exact ⟨[], h, Or.inl ⟨rfl, rfl⟩⟩
  | link slot seen =>
      rw [hkeeps rfl]
      exact ⟨[], h.modify (hown slot rfl) _, Or.inl ⟨rfl, rfl⟩⟩
  | exchange slot seen =>
      rw [Push.step] at hpushing hkeeps ⊢
      by_cases hsame : (l.head = seen && !spurious) = true
      · rw [if_pos hsame] at hpushing ⊢
        obtain ⟨hhead, -⟩ := Bool.and_eq_true_iff.mp hsame
        obtain rfl := of_decide_eq_true hhead
        refine ⟨[(slot, a)], h.exchange hpc fun k => ?_, Or.inr ⟨⟨slot, rfl⟩, rfl, rfl⟩⟩
        simpa only [Push.slot?, Option.none_beq_some, Option.some_beq_some, Bool.toNat_false,
          Nat.add_zero] using hpushing k
      · rw [if_neg hsame] at hkeeps ⊢
        rw [hkeeps rfl]
        exact ⟨[], h, Or.inl ⟨rfl, rfl⟩⟩
  | pushed wasEmpty =>
      rw [hkeeps rfl]
      exact ⟨[], h, Or.inl ⟨rfl, rfl⟩⟩

/-- **Detaching makes the whole list the chain.** -/
theorem detach (h : Tidy l none list detached pushing) :
    detached = [] ∧ Tidy l.detach.2 l.head [] list pushing := by
  have hnone : detached = [] := by
    cases detached with
    | nil => rfl
    | cons cell rest => cases h.onChain.1
  refine ⟨hnone, h.sound, h.tallied, rfl, h.onList, fun slot => ?_⟩
  have hlive := h.live slot
  subst hnone
  simp only [List.map_nil, List.count_nil, Inbox.detach] at hlive ⊢
  omega

/-- A chain that hands over nothing more is at its end. -/
theorem chain_eq_none (h : Tidy l chain list detached pushing) (hnext : l.next? chain = none) :
    chain = none := by
  cases detached with
  | nil => exact h.onChain
  | cons cell rest =>
      obtain ⟨rfl, next, hget, -⟩ := h.onChain
      rw [next?_of_get? hget] at hnext
      cases hnext

/-- A slot is vacated that is not on the list, nor on what is left of the chain. -/
theorem remove? (h : Tidy l chain list detached pushing) {slot : Nat} {node : Node α} {chain' : Option Nat}
    {detached' : List (Nat × α)} (hget : l.nodes.get? slot = some node) (hlist : slot ∉ list.map (·.1))
    (hlinked : Linked l.nodes chain' detached') (hchain : slot ∉ detached'.map (·.1))
    (hcount : ∀ k, (detached'.map (·.1)).count k + pushing' k + (slot == k).toNat =
      (detached.map (·.1)).count k + pushing k) :
    Tidy { l with nodes := (l.nodes.remove? slot).2 } chain' list detached' pushing' := by
  have hremove := Slab.remove?_of_get?_eq_some hget
  refine ⟨h.sound.remove? slot, ?_, h.onList.remove? hlist, hlinked.remove? hchain, fun k => ?_⟩
  · rw [hremove]
    exact h.tallied.of_remove? hremove
  · have hlive := h.live k
    have hk := hcount k
    have hle := h.count_le_one k
    show _ = ((l.nodes.remove? slot).2.get? k).isSome.toNat
    rw [Slab.get?_remove?]
    by_cases hslot : k = slot
    · subst hslot
      simp only [beq_self_eq_true, Bool.toNat_true] at hk
      simp only [if_true, Option.isSome_none, Bool.toNat_false]
      omega
    · rw [beq_eq_false_iff_ne.mpr (Ne.symm hslot), Bool.toNat_false] at hk
      rw [if_neg hslot]
      omega

/-- **The first node of the chain is taken off it and its slot freed.** -/
theorem next? (h : Tidy l chain list detached pushing) {next : Option Nat} {l' : Inbox α}
    (hnext : l.next? chain = some (a, next, l')) :
    ∃ slot rest, detached = (slot, a) :: rest ∧ Tidy l' next list rest pushing ∧ pushing slot = 0 ∧
      ∀ k, k ≠ slot → l'.nodes.get? k = l.nodes.get? k := by
  cases detached with
  | nil =>
      obtain rfl : chain = none := h.onChain
      cases hnext
  | cons cell rest =>
      obtain ⟨slot, b⟩ := cell
      obtain ⟨rfl, follows, hget, hrest⟩ := h.onChain
      have htaken := next?_of_get? hget
      rw [hnext] at htaken
      cases htaken
      have hcount := h.count_le_one slot
      simp only [List.map_cons, List.count_cons_self] at hcount
      refine ⟨slot, rest, rfl, h.remove? hget (List.count_eq_zero.mp (by omega)) hrest
        (List.count_eq_zero.mp (by omega)) fun k => ?_, by omega, fun k => Slab.get?_remove?_of_ne l.nodes⟩
      simp only [List.map_cons, count_cons_eq_add]
      omega

/-- A slot that is on no chain is vacated. -/
theorem release (h : Tidy l chain list detached pushing) {slot : Nat} {node : Node α}
    (hget : l.nodes.get? slot = some node) (hown : 0 < pushing slot)
    (hpushing : ∀ k, pushing' k + (slot == k).toNat = pushing k) :
    Tidy { l with nodes := (l.nodes.remove? slot).2 } chain list detached pushing' := by
  obtain ⟨hlist, hchain⟩ := h.not_mem_of_pushing hown
  refine h.remove? hget hlist h.onChain hchain fun k => ?_
  have hk := hpushing k
  omega

/-- The chain may be somebody else's to look after. -/
theorem entrust (h : Tidy l chain list detached pushing)
    (hpushing : ∀ k, pushing' k = pushing k + (detached.map (·.1)).count k) :
    Tidy l none list [] pushing' := by
  refine ⟨h.sound, h.tallied, h.onList, rfl, fun k => ?_⟩
  have hlive := h.live k
  have hk := hpushing k
  simp only [List.map_nil, List.count_nil]
  omega

end Tidy

end TaskDispatch.Timer.Inbox
