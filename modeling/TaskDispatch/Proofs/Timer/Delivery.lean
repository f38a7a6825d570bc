/-
What is pushed on an inbox is delivered once, the latest first.

The slots of the nodes say where every sender's item is (`Filed`), so what a drain has
come to and has still to come to can be read off its batch.  Whether the drain is dropped
makes no difference to that: the rest is taken off its chain node by node and disposed
of, and the list is not touched by it (`run_out`).
-/
import TaskDispatch.Proofs.Timer.Filing

namespace TaskDispatch.Timer.Mailroom

open Inbox (Linked Push)

variable {α : Type} {s t : Mailroom α} {list : List (Nat × α)} {rests : List (List (Nat × α))} {i : Nat}
  {d : Drain α} {cells : List (Nat × α)}

namespace Filed

/-- No slot is on a drain's chain twice. -/
theorem nodup_rest (h : Filed s list rests) (hcells : rests[i]? = some cells) : (cells.map (·.1)).Nodup := by
  refine List.nodup_iff_count_le_one.mpr fun slot => ?_
  have hle := h.elsewhere_le_one slot
  have hmem := List.le_sum_of_mem (List.mem_map_of_mem
    (f := fun cells : List (Nat × α) => (cells.map (·.1)).count slot) (List.mem_of_getElem? hcells))
  omega

/-- What a drain has still to come to is what its chain carries. -/
theorem rest_eq (h : Filed s list rests) (hd : s.drains[i]? = some d) (hcells : rests[i]? = some cells) :
    s.rest d = cells.map (·.2) := by
  have hlinked := (h.drains i d cells hd hcells).linked
  have hlen := Slab.length_le_len h.tidy.tallied (h.nodup_rest hcells) fun _ => hlinked.isSome_get?
  rw [List.length_map] at hlen
  exact Inbox.collect_of_linked hlinked (h.nodup_rest hcells) hlen

end Filed

theorem step?_advance {slot : Nat} {node : Node α} (hd : s.drains[i]? = some d) (hchain : d.chain = some slot)
    (hget : s.inbox.nodes.get? slot = some node) :
    s.step? (.advance i) = some { s with
      inbox := { s.inbox with nodes := (s.inbox.nodes.remove? slot).2 }
      drains := s.drains.set i (d.accept node.item node.next) } := by
  simp only [step?, hd, hchain, Inbox.next?_of_get? hget]

/-- **A dropped drain comes to the rest of its nodes and disposes of them all**, and puts none back. -/
theorem run_out (hd : s.drains[i]? = some d) (hdropped : d.dropped = true)
    (hlinked : Linked s.inbox.nodes d.chain cells) (hnodup : (cells.map (·.1)).Nodup) :
    ∃ t, after? step? s (List.replicate cells.length (.advance i)) = some t ∧
      t.drains[i]? = some { d with chain := none, disposed := d.disposed ++ cells.map (·.2) } ∧
      t.inbox.head = s.inbox.head ∧ t.order = s.order ∧ t.senders = s.senders := by
  induction cells generalizing s d with
  | nil =>
      have hnone : d.chain = none := hlinked
      refine ⟨s, rfl, ?_, rfl, rfl, rfl⟩
      rw [hd, List.map_nil, List.append_nil, ← hnone]
  | cons cell rest ih =>
      obtain ⟨slot, a⟩ := cell
      obtain ⟨hstart, next, hget, hrest⟩ := hlinked
      obtain ⟨hnot, hnodup⟩ := List.nodup_cons.mp hnodup
      have hkept := hrest.remove? hnot
      have hnext : d.accept a next = { d with chain := next, disposed := d.disposed ++ [a] } := by
        rw [Drain.accept, if_pos hdropped]
      obtain ⟨t, hafter, hdrain, hkeeps⟩ := ih (s := { s with
          inbox := { s.inbox with nodes := (s.inbox.nodes.remove? slot).2 }
          drains := s.drains.set i (d.accept a next) }) (d := d.accept a next)
        (List.getElem?_set_self (List.getElem?_eq_some_iff.mp hd).1)
        (by rw [Drain.accept_dropped, hdropped]) (by rw [Drain.accept_chain]; exact hkept) hnodup
      refine ⟨t, ?_, ?_, hkeeps⟩
      · rw [List.length_cons, List.replicate_succ, after?, step?_advance hd hstart hget]
        exact hafter
      · rw [hdrain, hnext, List.map_cons, List.append_assoc]
        rfl

/-- **An inbox is a stack that is pushed to in one step and taken from in one.**  However many push and take,
in every order of their steps, with exchanges that fail for no reason and slots that are used again by
anybody:

* who was exchanged is in the batch of exactly one drain or still on the list, if and only if its push has
  returned;
* taking everything hands over what was exchanged since the list was last detached, the latest first, and
  each drain's batch is handed over so, or disposed of;
* of those exchanged since the list was last detached, and of each batch, exactly the oldest is answered
  that the list was empty;
* only a dropped drain disposes of items, and it disposes of all that are left, putting none back. -/
theorem delivers_once_latest_first (h : Leads step? {} s) :
    (∀ j, s.exchanged.count j = (s.hasReturned j).toNat) ∧
      List.Forall₂ s.Brings s.order.reverse s.inbox.takeAll.1 ∧ s.Answered s.order ∧
      ∀ (i : Nat) (d : Drain α), s.drains[i]? = some d →
        List.Forall₂ s.Brings d.batch.reverse (d.handed ++ d.disposed ++ s.rest d) ∧
        s.Answered d.batch ∧
        (d.dropped = false → d.disposed = []) ∧
        (d.dropped = true → ∃ t, after? step? s (List.replicate (s.rest d).length (.advance i)) = some t ∧
          t.drains[i]? = some { d with chain := none, disposed := d.disposed ++ s.rest d } ∧
          t.inbox.head = s.inbox.head ∧ t.order = s.order ∧ t.senders = s.senders) := by
  obtain ⟨list, rests, hfiled⟩ := filed_of_leads h
  refine ⟨hfiled.once, hfiled.tidy.takeAll ▸ hfiled.brings, hfiled.answered, fun i d hd => ?_⟩
  obtain ⟨cells, hcells⟩ := hfiled.exists_rest hd
  have hdrains := hfiled.drains i d cells hd hcells
  rw [hfiled.rest_eq hd hcells]
  refine ⟨hdrains.brings, hdrains.answered, hdrains.undropped, fun hdropped => ?_⟩
  rw [List.length_map]
  exact run_out hd hdropped hdrains.linked (hfiled.nodup_rest hcells)

/-- The second push has linked its node before the first; that is taken and its slot filled by the third
push, which fails for no reason before it is exchanged.  Then the second is exchanged, and goes before the
third.  The drain that takes both is dropped between them. -/
theorem delivers_once_latest_first_after_reuse :
    let acts : List (Act Nat) := [.send 10, .push 0 false, .push 0 false, .push 0 false, .push 0 false,
      .send 20, .push 1 false, .push 1 false, .push 1 false, .take, .advance 0,
      .send 30, .push 2 false, .push 2 false, .push 2 false, .push 2 true, .push 2 false, .push 2 false,
      .push 1 false, .take, .advance 1, .drop 1]
    let s : Mailroom Nat :=
      { inbox := { nodes := { slots := [some ⟨30, none⟩, none], free := [1], len := 1 } }
        senders := [⟨10, .pushed true⟩, ⟨20, .pushed false⟩, ⟨30, .pushed true⟩]
        drains := [{ batch := [0], chain := none, handed := [10] },
          { batch := [2, 1], chain := some 0, handed := [20], dropped := true }] }
    Leads step? {} s ∧ after? step? {} acts = some s ∧
      List.Forall₂ s.Brings [1, 2] ([20] ++ [] ++ [30]) ∧
      ∃ t, after? step? s [.advance 1] = some t ∧
        t.drains[1]? = some { batch := [2, 1], chain := none, handed := [20], dropped := true, disposed := [30] } := by
  intro acts s
  have hacts : after? step? {} acts = some s := rfl
  have h : Leads step? {} s := .of_after? acts hacts
  obtain ⟨-, -, -, hdrains⟩ := delivers_once_latest_first h
  obtain ⟨hbrings, -, -, hdisposes⟩ := hdrains 1 _ rfl
  obtain ⟨t, hafter, hdrain, -⟩ := hdisposes rfl
  exact ⟨h, hacts, hbrings, t, hafter, hdrain⟩

end TaskDispatch.Timer.Mailroom
