/-
Whose node is on which chain.

A node is on the list from its push's exchange on, until the list is detached; then it
is on the chain of the drain that has detached it, until that drain comes to it.  So the
numbers of the senders follow the nodes: `order` is the list backwards, and the batch of
a drain, backwards, is what it has come to and then what is left on its chain (`Filed`).

A push may have seen the head long before its exchange.  The list may have been taken
since, and the slot it saw may have been vacated and filled by another node.  If that
slot is the head again when the exchange comes, then the node is linked before the head
as it is now, and nothing is lost (`Inbox.Tidy.push`).  And what the exchange has found
is then the list as it is now: it answers that the list was empty if and only if nobody
has been exchanged since the list was last detached.
-/
import Mathlib.Algebra.Order.BigOperators.Group.List
import Mathlib.Algebra.Order.Ring.Nat
import TaskDispatch.Proofs.Timer.Mailroom

namespace TaskDispatch.Timer

open Inbox (Linked Push Tidy)

variable {α : Type}

/-- A push that is exchanged answers whether the list was empty. -/
theorem Inbox.Push.answer_step {pc : Push α} {spurious wasEmpty : Bool} {l : Inbox α}
    (hunder : pc.isPushed = false) (h : (pc.step spurious l).2 = .pushed wasEmpty) :
    wasEmpty = l.head.isNone := by
  cases pc with
  | exchange slot seen =>
      rw [step] at h
      by_cases hsame : (l.head = seen && !spurious) = true
      · rw [if_pos hsame] at h
        obtain ⟨hhead, -⟩ := Bool.and_eq_true_iff.mp hsame
        rw [of_decide_eq_true hhead]
        exact (Push.pushed.inj h).symm
      · rw [if_neg hsame] at h
        cases h
  | pushed other => cases hunder
  | place a | load slot | link slot seen => cases h

/-- A chain begins nowhere exactly if nothing is on it. -/
theorem Inbox.Linked.start_eq_none_iff {nodes : Slab (Node α)} {start : Option Nat} {cells : List (Nat × α)}
    (h : Linked nodes start cells) : start = none ↔ cells = [] := by
  cases cells with
  | nil => exact iff_of_true h rfl
  | cons cell rest =>
      obtain ⟨rfl, -⟩ := h
      exact iff_of_false nofun nofun

namespace Mailroom

variable {s t : Mailroom α} {list : List (Nat × α)} {rests : List (List (Nat × α))}

/-! ### What is known of the senders grows -/

/-- The senders of `s` bring in `t` what they brought, and the answers they have had stand. -/
structure Heeds (s t : Mailroom α) : Prop where
  brings : ∀ {j a}, s.Brings j a → t.Brings j a
  answers : ∀ {j b}, s.Answers j b → t.Answers j b

theorem Heeds.of_senders (h : t.senders = s.senders) : Heeds s t where
  brings hb := by
    rw [Brings, h]
    exact hb
  answers ha := by
    rw [Answers, h]
    exact ha

theorem Heeds.send (item : α) : Heeds s { s with senders := s.senders ++ [⟨item, .place item⟩] } where
  brings := fun ⟨place, hj⟩ =>
    ⟨place, (List.getElem?_append_left (List.getElem?_eq_some_iff.mp hj).1).trans hj⟩
  answers := fun ⟨a, hj⟩ => ⟨a, (List.getElem?_append_left (List.getElem?_eq_some_iff.mp hj).1).trans hj⟩

theorem Heeds.push {j : Nat} {c : Sender α} (hc : s.senders[j]? = some c) (hunder : c.place.isPushed = false)
    (inbox : Inbox α) (place : Push α) (order : List Nat) :
    Heeds s { s with inbox, senders := s.senders.set j { c with place }, order } where
  brings := by
    rintro k a ⟨old, hk⟩
    by_cases hkj : j = k
    · subst hkj
      obtain rfl := Option.some.inj (hc.symm.trans hk)
      exact ⟨place, List.getElem?_set_self (List.getElem?_eq_some_iff.mp hk).1⟩
    · exact ⟨old, (List.getElem?_set_ne hkj).trans hk⟩
  answers := by
    rintro k b ⟨a, hk⟩
    refine ⟨a, getElem?_set_of_ne hk hc ?_⟩
    rintro rfl
    cases hunder

/-- The senders of a batch have their answers: the first that the list was empty, the others that it was
not. -/
def Answered (s : Mailroom α) (batch : List Nat) : Prop :=
  ∀ (i j : Nat), batch[i]? = some j → s.Answers j (decide (i = 0))

theorem Answered.mono {batch : List Nat} (h : s.Answered batch) (hst : Heeds s t) : t.Answered batch :=
  fun i j hj => hst.answers (h i j hj)

/-- One more sender is answered that the list was empty exactly if it is the first. -/
theorem Answered.concat {batch : List Nat} {j : Nat} (h : s.Answered batch)
    (hj : s.Answers j batch.isEmpty) : s.Answered (batch ++ [j]) := by
  intro i k hk
  rcases getElem?_of_concat hk with ⟨rfl, rfl⟩ | ⟨-, hold⟩
  · convert hj using 1
    cases batch <;> simp
  · exact h i k hold

/-! ### The nodes and their senders -/

/-- How many parties have a slot that is not on the list: pushes under way, drains whose chains it is on, and
others. -/
def elsewhere (s : Mailroom α) (rests : List (List (Nat × α))) (slot : Nat) : Nat :=
  s.senders.countP (fun c => c.place.slot? == some slot) + s.others.count slot +
    (rests.map fun cells => (cells.map (·.1)).count slot).sum

/-- What a drain has come to, and what is left on its chain, is what its batch brings, the latest first. -/
structure Drains (s : Mailroom α) (d : Drain α) (cells : List (Nat × α)) : Prop where
  linked : Linked s.inbox.nodes d.chain cells
  brings : List.Forall₂ s.Brings d.batch.reverse (d.handed ++ d.disposed ++ cells.map (·.2))
  answered : s.Answered d.batch
  undropped : d.dropped = false → d.disposed = []

/-- Every slot has its place, `list` is on the list and `rests` on the chains of the drains, and they carry
what the senders bring. -/
structure Filed (s : Mailroom α) (list : List (Nat × α)) (rests : List (List (Nat × α))) : Prop where
  tidy : Tidy s.inbox none list [] (s.elsewhere rests)
  carries : ∀ (j : Nat) (c : Sender α), s.senders[j]? = some c → c.place.Carries s.inbox.nodes c.item
  brings : List.Forall₂ s.Brings s.order.reverse (list.map (·.2))
  answered : s.Answered s.order
  length : rests.length = s.drains.length
  drains : ∀ (i : Nat) d cells, s.drains[i]? = some d → rests[i]? = some cells → s.Drains d cells
  once : ∀ j, s.exchanged.count j = (s.hasReturned j).toNat

theorem filed_start : Filed ({} : Mailroom α) [] [] where
  tidy := Inbox.tidy_empty
  carries := nofun
  brings := .nil
  answered := nofun
  length := rfl
  drains := nofun
  once _ := rfl

theorem Drains.mono {d : Drain α} {cells : List (Nat × α)} (h : s.Drains d cells) (hst : Heeds s t)
    (hsame : ∀ slot ∈ cells.map (·.1), t.inbox.nodes.get? slot = s.inbox.nodes.get? slot) :
    t.Drains d cells where
  linked := h.linked.congr hsame
  brings := h.brings.imp fun _ _ => hst.brings
  answered := h.answered.mono hst
  undropped := h.undropped

/-- A sender whose push is under way has its slot. -/
theorem senders_pos {j : Nat} {c : Sender α} (hc : s.senders[j]? = some c) {slot : Nat}
    (hslot : c.place.slot? = some slot) :
    0 < s.senders.countP fun c => c.place.slot? == some slot :=
  List.countP_pos_iff.mpr ⟨c, List.mem_of_getElem? hc, by rw [hslot, beq_self_eq_true]⟩

/-- A slot on a drain's chain is counted there. -/
theorem rests_pos {i : Nat} {cells : List (Nat × α)} (hcells : rests[i]? = some cells) {slot : Nat}
    (hslot : slot ∈ cells.map (·.1)) : 0 < (rests.map fun cells => (cells.map (·.1)).count slot).sum :=
  Nat.lt_of_lt_of_le (List.count_pos_iff.mpr hslot)
    (List.le_sum_of_mem (List.mem_map_of_mem (List.mem_of_getElem? hcells)))

namespace Filed

/-- No slot is in use twice. -/
theorem elsewhere_le_one (h : Filed s list rests) (slot : Nat) :
    s.senders.countP (fun c => c.place.slot? == some slot) + s.others.count slot +
      (rests.map fun cells => (cells.map (·.1)).count slot).sum ≤ 1 := by
  have hle := h.tidy.count_le_one slot
  rw [elsewhere] at hle
  omega

/-- A slot that somebody has is in use. -/
theorem isSome_of_elsewhere (h : Filed s list rests) {slot : Nat} (hpos : 0 < s.elsewhere rests slot) :
    (s.inbox.nodes.get? slot).isSome = true := by
  have hlive := h.tidy.live slot
  have hle := Bool.toNat_le (s.inbox.nodes.get? slot).isSome
  exact Bool.toNat_eq_one.mp (by omega)

theorem exists_rest (h : Filed s list rests) {i : Nat} {d : Drain α} (hd : s.drains[i]? = some d) :
    ∃ cells, rests[i]? = some cells :=
  ⟨_, List.getElem?_eq_getElem (by rw [h.length]; exact (List.getElem?_eq_some_iff.mp hd).1)⟩

/-- Two pushes under way have different slots. -/
theorem slot?_ne (h : Filed s list rests) {j k : Nat} {c d : Sender α} (hc : s.senders[j]? = some c)
    (hd : s.senders[k]? = some d) (hne : k ≠ j) {slot : Nat} (hslot : d.place.slot? = some slot) :
    c.place.slot? ≠ some slot := by
  intro hsame
  have hle := h.elsewhere_le_one slot
  have hone : s.senders.countP (fun c => c.place.slot? == some slot) ≤ 1 := by omega
  exact hne (index_eq_of_countP_le_one hone hd hc (by simp [hslot]) (by simp [hsame]))

/-- The nodes of the drains stay when a slot is written that is on none of their chains. -/
theorem drains_of_same (h : Filed s list rests) (hst : Heeds s t) (hdrains : t.drains = s.drains)
    (hsame : ∀ slot, 0 < (rests.map fun cells => (cells.map (·.1)).count slot).sum →
      t.inbox.nodes.get? slot = s.inbox.nodes.get? slot) :
    ∀ (i : Nat) d cells, t.drains[i]? = some d → rests[i]? = some cells → t.Drains d cells := by
  intro i d cells hd hcells
  rw [hdrains] at hd
  exact (h.drains i d cells hd hcells).mono hst fun slot hslot => hsame slot (rests_pos hcells hslot)

/-! ### What every act keeps -/

theorem send (h : Filed s list rests) (item : α) :
    Filed { s with senders := s.senders ++ [⟨item, .place item⟩] } list rests := by
  have hheeds : Heeds s { s with senders := s.senders ++ [⟨item, .place item⟩] } := .send item
  have hsame : elsewhere { s with senders := s.senders ++ [⟨item, .place item⟩] } rests = s.elsewhere rests := by
    funext slot
    simp [elsewhere, Push.slot?]
  refine ⟨?_, ?_, h.brings.imp fun _ _ => hheeds.brings, h.answered.mono hheeds, h.length,
    h.drains_of_same hheeds rfl fun _ _ => rfl, fun j => ?_⟩
  · rw [hsame]
    exact h.tidy
  · intro j c hc
    rcases getElem?_of_join hc with rfl | hold
    · rfl
    · exact h.carries j c hold
  · have hreturned : hasReturned { s with senders := s.senders ++ [⟨item, .place item⟩] } j = s.hasReturned j := by
      have helim : ∀ x : Option (Sender α), (x.any fun c => c.place.isPushed) = x.elim false fun c =>
          c.place.isPushed := by
        rintro (_ | c) <;> rfl
      rw [hasReturned, hasReturned, helim, helim]
      exact elim_getElem?_concat (fun c : Sender α => c.place.isPushed) j
    rw [hreturned]
    exact h.once j

/-- Whose push has returned after one sender's step. -/
theorem hasReturned_set {j : Nat} {c c' : Sender α} (hc : s.senders[j]? = some c) (k : Nat) :
    ((s.senders.set j c')[k]?).any (·.place.isPushed) =
      if k = j then c'.place.isPushed else s.hasReturned k := by
  by_cases hk : k = j
  · rw [if_pos hk, hk, List.getElem?_set_self (List.getElem?_eq_some_iff.mp hc).1, Option.any_some]
  · rw [if_neg hk, List.getElem?_set_ne (Ne.symm hk), hasReturned]

/-- Whose push returns with its step has been exchanged once, and nobody else has been with it. -/
theorem count_exchanged_push (h : Filed s list rests) {j : Nat} {c : Sender α} (hc : s.senders[j]? = some c)
    (hunder : c.place.isPushed = false) (place : Push α) (inbox : Inbox α) (k : Nat) :
    (exchanged { s with
      inbox
      senders := s.senders.set j { c with place }
      order := if place.isPushed then s.order ++ [j] else s.order }).count k =
    (((s.senders.set j { c with place })[k]?).any (·.place.isPushed)).toNat := by
  have honce := h.once k
  rw [hasReturned_set hc]
  simp only [exchanged, List.count_append] at honce ⊢
  cases hplace : place.isPushed with
  | false =>
      rw [if_neg Bool.false_ne_true]
      by_cases hk : k = j
      · rw [hk, hasReturned, hc, Option.any_some, hunder] at honce
        rw [if_pos hk, hk]
        exact honce
      · rw [if_neg hk]
        exact honce
  | true =>
      rw [if_pos rfl, List.count_append, List.count_singleton]
      by_cases hk : k = j
      · rw [hk, hasReturned, hc, Option.any_some, hunder, Bool.toNat_false] at honce
        rw [hk, if_pos rfl, if_pos (beq_self_eq_true j), Bool.toNat_true]
        omega
      · rw [if_neg hk, if_neg (by simp [Ne.symm hk])]
        exact honce

/-- An empty list is one that nobody has been exchanged for since it was last detached. -/
theorem isNone_head (h : Filed s list rests) : s.inbox.head.isNone = s.order.isEmpty := by
  have hlen := h.brings.length_eq
  rw [List.length_reverse, List.length_map] at hlen
  rw [Bool.eq_iff_iff, Option.isNone_iff_eq_none, h.tidy.onList.start_eq_none_iff, List.isEmpty_iff,
    ← List.length_eq_zero_iff, ← List.length_eq_zero_iff, hlen]

/-- A sender's step leaves alone the nodes of the other senders and of the drains. -/
theorem of_push (h : Filed s list rests) {j : Nat} {c : Sender α} (hc : s.senders[j]? = some c)
    (hunder : c.place.isPushed = false) (spurious : Bool) {order : List Nat} {list' : List (Nat × α)}
    (ht : t = { s with
      inbox := (c.place.step spurious s.inbox).1
      senders := s.senders.set j { c with place := (c.place.step spurious s.inbox).2 }
      order })
    (htidy : Tidy t.inbox none list' [] (t.elsewhere rests))
    (hbrings : List.Forall₂ t.Brings order.reverse (list'.map (·.2))) (hanswered : t.Answered order)
    (honce : ∀ k, t.exchanged.count k = (t.hasReturned k).toNat) : Filed t list' rests := by
  subst ht
  have hcarries := h.carries j c hc
  have hkept : ∀ slot, (s.inbox.nodes.get? slot).isSome = true → c.place.slot? ≠ some slot →
      (c.place.step spurious s.inbox).1.nodes.get? slot = s.inbox.nodes.get? slot :=
    fun slot hlive hne => Push.get?_step h.tidy.sound spurious hlive hne
  refine ⟨htidy, ?_, hbrings, hanswered, h.length, ?_, honce⟩
  · intro k d hd
    rcases getElem?_of_set hd with ⟨rfl, rfl⟩ | ⟨hk, hold⟩
    · exact hcarries.step h.tidy.sound spurious
    · have hother := h.carries k d hold
      exact hother.congr fun slot hslot =>
        hkept slot (hother.isSome_get? hslot) (h.slot?_ne hc hold hk hslot)
  · refine h.drains_of_same (Heeds.push hc hunder _ _ _) rfl fun slot hslot => ?_
    have hle := h.elsewhere_le_one slot
    refine hkept slot (h.isSome_of_elsewhere ?_) fun hsame => ?_
    · rw [elsewhere]
      omega
    · have hpos := senders_pos hc hsame
      omega

/-- **A push that is exchanged comes to the front of the list, behind all others in order**; any other step
of a push leaves both as they are. -/
theorem push (h : Filed s list rests) {j : Nat} {c : Sender α} (hc : s.senders[j]? = some c)
    (hunder : c.place.isPushed = false) (spurious : Bool) :
    ∃ news, Filed { s with
      inbox := (c.place.step spurious s.inbox).1
      senders := s.senders.set j { c with place := (c.place.step spurious s.inbox).2 }
      order := if (c.place.step spurious s.inbox).2.isPushed then s.order ++ [j] else s.order }
      (news ++ list) rests := by
  generalize horder :
    (if (c.place.step spurious s.inbox).2.isPushed then s.order ++ [j] else s.order) = order
  have hheeds := Heeds.push hc hunder (c.place.step spurious s.inbox).1 (c.place.step spurious s.inbox).2 order
  have hpushing : ∀ slot, elsewhere { s with
        senders := s.senders.set j { c with place := (c.place.step spurious s.inbox).2 } } rests slot +
      (c.place.slot? == some slot).toNat =
        s.elsewhere rests slot + ((c.place.step spurious s.inbox).2.slot? == some slot).toNat := by
    intro slot
    have hset := countP_set_add (fun c : Sender α => c.place.slot? == some slot)
      { c with place := (c.place.step spurious s.inbox).2 } hc
    simp only [elsewhere] at hset ⊢
    omega
  obtain ⟨news, htidy, hnews⟩ := h.tidy.push (h.carries j c hc) spurious
    (fun slot hslot => by
      have := senders_pos hc hslot
      rw [elsewhere]
      omega) hpushing
  have hbrings := h.brings.imp fun _ _ => hheeds.brings
  refine ⟨news, h.of_push hc hunder spurious rfl htidy ?_ ?_ fun k => ?_⟩
  · rcases hnews with ⟨rfl, hsame⟩ | ⟨⟨slot, rfl⟩, -, hafter⟩
    · rw [← horder, hsame, hunder]
      exact hbrings
    · rw [← horder, if_pos hafter, List.reverse_append]
      exact .cons (hheeds.brings ⟨c.place, hc⟩) hbrings
  · rcases hnews with ⟨-, hsame⟩ | ⟨-, -, hafter⟩
    · rw [hsame, hunder] at horder
      obtain rfl : s.order = order := horder
      exact h.answered.mono hheeds
    · rw [if_pos hafter] at horder
      rw [← horder]
      refine (h.answered.mono hheeds).concat ?_
      cases hplace : (c.place.step spurious s.inbox).2 with
      | pushed wasEmpty =>
          rw [← h.isNone_head, ← Push.answer_step hunder hplace]
          exact ⟨c.item, List.getElem?_set_self (List.getElem?_eq_some_iff.mp hc).1⟩
      | _ => rw [hplace] at hafter; cases hafter
  · rw [← horder]
    exact h.count_exchanged_push hc hunder _ _ k

/-- **Taking makes the whole list the chain of a new drain**, whose batch are those on it. -/
theorem take (h : Filed s list rests) :
    Filed { s with
      inbox := s.inbox.detach.2
      drains := s.drains ++ [{ batch := s.order, chain := s.inbox.head }]
      order := [] } [] (rests ++ [list]) := by
  have hheeds : Heeds s { s with
      inbox := s.inbox.detach.2
      drains := s.drains ++ [{ batch := s.order, chain := s.inbox.head }]
      order := [] } := .of_senders rfl
  refine ⟨h.tidy.detach.2.entrust fun k => ?_, h.carries, .nil, nofun, ?_, ?_, fun j => ?_⟩
  · simp only [elsewhere, List.map_append, List.map_cons, List.map_nil, List.sum_append, List.sum_cons,
      List.sum_nil]
    omega
  · simp only [List.length_append, List.length_singleton, h.length]
  · intro i d cells hd hcells
    rcases getElem?_of_concat hd with ⟨rfl, rfl⟩ | ⟨hlt, hold⟩
    · rw [← h.length, List.getElem?_concat_length] at hcells
      obtain rfl := Option.some.inj hcells
      exact ⟨h.tidy.onList, h.brings.imp fun _ _ => hheeds.brings, h.answered.mono hheeds, fun _ => rfl⟩
    · rw [List.getElem?_append_left (by rw [h.length]; exact hlt)] at hcells
      exact (h.drains i d cells hold hcells).mono hheeds fun _ _ => rfl
  · have honce := h.once j
    simp only [exchanged, List.flatMap_append, List.flatMap_cons, List.flatMap_nil, List.append_nil]
    exact honce

/-- One drain has moved, and its batch is what it was: the others are as before, and so is who was
exchanged. -/
theorem of_drain (h : Filed s list rests) {i : Nat} {d d' : Drain α} {cells' : List (Nat × α)}
    (hd : s.drains[i]? = some d) (ht : t = { s with inbox := t.inbox, drains := s.drains.set i d' })
    (hbatch : d'.batch = d.batch) (htidy : Tidy t.inbox none list [] (t.elsewhere (rests.set i cells')))
    (hcarries : ∀ (j : Nat) (c : Sender α), s.senders[j]? = some c → c.place.Carries t.inbox.nodes c.item)
    (hself : t.Drains d' cells')
    (hothers : ∀ (k : Nat) e cells, k ≠ i → s.drains[k]? = some e → rests[k]? = some cells → t.Drains e cells) :
    Filed t list (rests.set i cells') := by
  obtain ⟨inbox, senders, drains, others, order⟩ := t
  cases ht
  have hheeds : Heeds s { s with inbox, drains := s.drains.set i d' } := .of_senders rfl
  refine ⟨htidy, hcarries, h.brings.imp fun _ _ => hheeds.brings, h.answered.mono hheeds, ?_, ?_, fun j => ?_⟩
  · simp only [List.length_set, h.length]
  · intro k e cells he hcells
    rcases getElem?_of_set he with ⟨rfl, rfl⟩ | ⟨hk, hold⟩
    · rcases getElem?_of_set hcells with ⟨-, rfl⟩ | ⟨hne, -⟩
      · exact hself
      · exact absurd rfl hne
    · rw [List.getElem?_set_ne (Ne.symm hk)] at hcells
      exact hothers k e cells hk hold hcells
  · have hsame : (s.drains.set i d').map (·.batch) = s.drains.map (·.batch) := by
      obtain ⟨hi, rfl⟩ := List.getElem?_eq_some_iff.mp hd
      rw [List.map_set, hbatch]
      refine List.ext_getElem (List.length_set ..) fun k hk _ => ?_
      rw [List.getElem_set]
      split
      · next hki => simp only [hki, List.getElem_map]
      · rfl
    have honce := h.once j
    simp only [exchanged, List.flatMap_def] at honce ⊢
    rw [hsame]
    exact honce

/-- A drain that has come to a node has its slot on its chain once less. -/
theorem count_rests_set {i slot : Nat} {a : α} {rest : List (Nat × α)} (hcells : rests[i]? = some ((slot, a) :: rest))
    (k : Nat) : ((rests.set i rest).map fun cells => (cells.map (·.1)).count k).sum + (slot == k).toNat =
      (rests.map fun cells => (cells.map (·.1)).count k).sum := by
  have hset := sum_map_set_add (fun cells : List (Nat × α) => (cells.map (·.1)).count k) rest hcells
  simp only [List.map_cons, count_cons_eq_add] at hset
  omega

/-- **A drain comes to the first node of its chain**, and its slot is vacated. -/
theorem advance (h : Filed s list rests) {i : Nat} {d : Drain α} {a : α} {chain : Option Nat}
    {inbox : Inbox α} (hd : s.drains[i]? = some d)
    (hnext : s.inbox.next? d.chain = some (a, chain, inbox)) :
    ∃ rests', Filed { s with inbox, drains := s.drains.set i (d.accept a chain) } list rests' := by
  obtain ⟨cells, hcells⟩ := h.exists_rest hd
  obtain ⟨hlinked, hbrings, hanswered, hundropped⟩ := h.drains i d cells hd hcells
  cases cells with
  | nil =>
      have hnone : d.chain = none := hlinked
      rw [hnone] at hnext
      cases hnext
  | cons cell rest =>
      obtain ⟨slot, b⟩ := cell
      obtain ⟨hstart, next, hget, hrest⟩ := hlinked
      rw [hstart, Inbox.next?_of_get? hget] at hnext
      cases hnext
      have hheeds : Heeds s { s with
          inbox := { s.inbox with nodes := (s.inbox.nodes.remove? slot).2 }
          drains := s.drains.set i (d.accept b next) } := .of_senders rfl
      have hother : ∀ k, k ≠ slot → (s.inbox.nodes.remove? slot).2.get? k = s.inbox.nodes.get? k :=
        fun k => Slab.get?_remove?_of_ne s.inbox.nodes
      have hsum := count_rests_set hcells
      -- The slot was on this chain once, so it is nobody else's and no longer on any chain.
      have hmine : (s.senders.countP fun c => c.place.slot? == some slot) = 0 ∧
          ((rests.set i rest).map fun cells => (cells.map (·.1)).count slot).sum = 0 := by
        have hle := h.elsewhere_le_one slot
        have hslot := hsum slot
        rw [beq_self_eq_true, Bool.toNat_true] at hslot
        omega
      have hleft : ∀ (k : Nat) (cells : List (Nat × α)), (rests.set i rest)[k]? = some cells →
          ∀ m ∈ cells.map (·.1), m ≠ slot := by
        rintro k cells hcellsk m hm rfl
        have := rests_pos hcellsk hm
        omega
      refine ⟨rests.set i rest, h.of_drain hd rfl (Drain.accept_batch ..) ?_ ?_ ⟨?_, ?_, ?_, ?_⟩ ?_⟩
      · refine h.tidy.release hget ?_ fun k => ?_
        · have hslot := hsum slot
          rw [beq_self_eq_true, Bool.toNat_true] at hslot
          rw [elsewhere]
          omega
        · have hk := hsum k
          simp only [elsewhere]
          omega
      · intro j c hc
        refine (h.carries j c hc).congr fun k hk => hother k ?_
        rintro rfl
        have := senders_pos hc hk
        omega
      · rw [Drain.accept_chain]
        exact hrest.congr fun k hk =>
          hother k (hleft i rest (List.getElem?_set_self (List.getElem?_eq_some_iff.mp hcells).1) k hk)
      · rw [Drain.accept_batch, Drain.accept_items hundropped, List.append_assoc]
        exact hbrings.imp fun _ _ => hheeds.brings
      · rw [Drain.accept_batch]
        exact hanswered.mono hheeds
      · exact Drain.accept_undropped hundropped b next
      · intro k e cells hk he hcellsk
        exact (h.drains k e cells he hcellsk).mono hheeds fun m hm =>
          hother m (hleft k cells ((List.getElem?_set_ne (Ne.symm hk)).trans hcellsk) m hm)

/-- A dropped drain has the same chain to come to. -/
theorem drop (h : Filed s list rests) {i : Nat} {d : Drain α} (hd : s.drains[i]? = some d) :
    ∃ rests', Filed { s with drains := s.drains.set i { d with dropped := true } } list rests' := by
  obtain ⟨cells, hcells⟩ := h.exists_rest hd
  have hheeds : Heeds s { s with drains := s.drains.set i { d with dropped := true } } := .of_senders rfl
  have hsame : elsewhere { s with drains := s.drains.set i { d with dropped := true } } (rests.set i cells) =
      s.elsewhere rests := by
    funext k
    have hset := sum_map_set_add (fun cells : List (Nat × α) => (cells.map (·.1)).count k) cells hcells
    simp only [elsewhere]
    omega
  have hmine := (h.drains i d cells hd hcells).mono hheeds fun _ _ => rfl
  refine ⟨rests.set i cells, h.of_drain hd rfl rfl (hsame ▸ h.tidy) h.carries ?_ ?_⟩
  · exact ⟨hmine.linked, hmine.brings, hmine.answered, nofun⟩
  · intro k e cells _ he hcells
    exact (h.drains k e cells he hcells).mono hheeds fun _ _ => rfl

/-- Somebody else has changed slots that are neither the senders' nor on a chain. -/
theorem of_others (h : Filed s list rests) {nodes : Slab (Node α)} {others : List Nat}
    (htidy : Tidy { s.inbox with nodes } none list []
      (elsewhere { s with inbox := { s.inbox with nodes }, others } rests))
    (hsame : ∀ slot, (s.inbox.nodes.get? slot).isSome = true → s.others.count slot = 0 →
      nodes.get? slot = s.inbox.nodes.get? slot) :
    Filed { s with inbox := { s.inbox with nodes }, others } list rests := by
  have hheeds : Heeds s { s with inbox := { s.inbox with nodes }, others } := .of_senders rfl
  refine ⟨htidy, fun j c hc => ?_, h.brings.imp fun _ _ => hheeds.brings, h.answered.mono hheeds, h.length,
    h.drains_of_same hheeds rfl fun slot hslot => ?_, h.once⟩
  · refine (h.carries j c hc).congr fun slot hslot => ?_
    refine hsame slot ((h.carries j c hc).isSome_get? hslot) ?_
    have hpos : 0 < s.senders.countP fun c => c.place.slot? == some slot := senders_pos hc hslot
    have hle := h.elsewhere_le_one slot
    omega
  · have hle := h.elsewhere_le_one slot
    refine hsame slot (h.isSome_of_elsewhere ?_) (by omega)
    rw [elsewhere]
    omega

/-- Somebody else uses a slot that was vacant. -/
theorem occupy (h : Filed s list rests) (node : Node α) :
    Filed { s with
      inbox := { s.inbox with nodes := (s.inbox.nodes.insert node).2 }
      others := (s.inbox.nodes.insert node).1 :: s.others } list rests := by
  refine h.of_others (h.tidy.insert node fun slot => ?_) fun slot hlive _ => ?_
  · simp only [elsewhere, count_cons_eq_add]
    omega
  · obtain ⟨old, hold⟩ := Option.isSome_iff_exists.mp hlive
    rw [hold]
    exact Slab.get?_insert_of_get? h.tidy.sound hold node

/-- Somebody else gives a slot back that was theirs. -/
theorem vacate (h : Filed s list rests) {slot : Nat} (hslot : slot ∈ s.others) :
    Filed { s with
      inbox := { s.inbox with nodes := (s.inbox.nodes.remove? slot).2 }
      others := s.others.erase slot } list rests := by
  have hown := List.count_pos_iff.mpr hslot
  have hhas : 0 < s.elsewhere rests slot := by
    rw [elsewhere]
    omega
  obtain ⟨node, hget⟩ := Option.isSome_iff_exists.mp (h.isSome_of_elsewhere hhas)
  refine h.of_others (h.tidy.release hget hhas fun k => ?_) fun k _ hk => ?_
  · have hcount := count_erase_add hslot k
    simp only [elsewhere]
    omega
  · refine Slab.get?_remove?_of_ne s.inbox.nodes ?_
    rintro rfl
    omega

/-- **What every act keeps.** -/
theorem step (h : Filed s list rests) (hst : Turns s t) : ∃ list' rests', Filed t list' rests' := by
  cases hst with
  | send item => exact ⟨list, rests, h.send item⟩
  | push j c spurious hc hunder =>
      obtain ⟨news, hnews⟩ := h.push hc hunder spurious
      exact ⟨news ++ list, rests, hnews⟩
  | take => exact ⟨[], rests ++ [list], h.take⟩
  | advance i d a chain inbox hd hnext => exact ⟨list, h.advance hd hnext⟩
  | drop i d hd => exact ⟨list, h.drop hd⟩
  | occupy node => exact ⟨list, rests, h.occupy node⟩
  | vacate slot hslot => exact ⟨list, rests, h.vacate hslot⟩

end Filed

/-- Whatever acts lead to, every node has its place. -/
theorem filed_of_leads (h : Leads step? {} s) : ∃ list rests, Filed s list rests :=
  h.keeps (P := fun s => ∃ list rests, Filed s list rests)
    (fun _ _ _ ⟨_, _, hfiled⟩ hstep => hfiled.step (turns_of_step? hstep)) ⟨[], [], filed_start⟩

end Mailroom

end TaskDispatch.Timer
