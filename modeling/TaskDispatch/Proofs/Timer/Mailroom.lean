/-
All who deal with one inbox.

Any number of senders push, each one item, and any number of drains take what has been
pushed: taking detaches the list, and the drain then comes to one node after another.
A drain that is dropped before its end comes to the rest of its nodes all the same and
disposes of them.  All of them take turns step by step.

The slots that nodes live in are memory like any other.  Somebody else may use slots and
give them back, so that which vacant slot a push gets is up to them: a slot that has
just been vacated may be the next one in use, or stay out of use for as long as they
like.

Kept along are the numbers of the senders whose push has been exchanged since the list
was last detached, in the order of the exchanges, and for each drain the numbers of
those that it has detached.
-/
import TaskDispatch.Proofs.Timer.Chains

namespace TaskDispatch.Timer

open Inbox (Push)

variable {α : Type}

/-- One who pushes: the item, and how far the push has come. -/
structure Sender (α : Type) where
  item : α
  place : Push α

/-- One who has taken everything: the numbers of the senders whose nodes were on the list, the oldest
first; where the chain begins that is left; the items that were handed over; and, once the drain was
dropped, the items that it has disposed of. -/
structure Drain (α : Type) where
  batch : List Nat
  chain : Option Nat
  handed : List α := []
  dropped : Bool := false
  disposed : List α := []

/-- What becomes of the item that the drain comes to next. -/
def Drain.accept (d : Drain α) (a : α) (chain : Option Nat) : Drain α :=
  if d.dropped then { d with chain, disposed := d.disposed ++ [a] }
  else { d with chain, handed := d.handed ++ [a] }

@[simp] theorem Drain.accept_batch (d : Drain α) (a : α) (chain : Option Nat) :
    (d.accept a chain).batch = d.batch := by
  rw [accept]
  split <;> rfl

@[simp] theorem Drain.accept_chain (d : Drain α) (a : α) (chain : Option Nat) :
    (d.accept a chain).chain = chain := by
  rw [accept]
  split <;> rfl

@[simp] theorem Drain.accept_dropped (d : Drain α) (a : α) (chain : Option Nat) :
    (d.accept a chain).dropped = d.dropped := by
  rw [accept]
  split <;> rfl

/-- The item that a drain comes to is the latest it has come to, handed over or disposed of. -/
theorem Drain.accept_items {d : Drain α} (h : d.dropped = false → d.disposed = []) (a : α)
    (chain : Option Nat) :
    (d.accept a chain).handed ++ (d.accept a chain).disposed = d.handed ++ d.disposed ++ [a] := by
  rw [accept]
  cases hdropped : d.dropped with
  | true => simp
  | false => simp [h hdropped]

/-- Only a drain that was dropped disposes of what it comes to. -/
theorem Drain.accept_undropped {d : Drain α} (h : d.dropped = false → d.disposed = []) (a : α)
    (chain : Option Nat) : (d.accept a chain).dropped = false → (d.accept a chain).disposed = [] := by
  rw [accept_dropped]
  intro hdropped
  rw [accept, hdropped]
  exact h hdropped

/-- An inbox, those who push and those who have taken; the slots that somebody else uses; and the numbers of
the senders whose push was exchanged since the list was last detached, the latest last. -/
structure Mailroom (α : Type) where
  inbox : Inbox α := {}
  senders : List (Sender α) := []
  drains : List (Drain α) := []
  others : List Nat := []
  order : List Nat := []

namespace Mailroom

/-- Who moves. -/
inductive Act (α : Type) where
  /-- Somebody begins to push an item. -/
  | send (a : α)
  /-- A sender takes its next step; its exchange may fail for no reason. -/
  | push (j : Nat) (spurious : Bool)
  /-- Somebody takes everything. -/
  | take
  /-- A drain comes to its next node. -/
  | advance (i : Nat)
  /-- A drain is dropped. -/
  | drop (i : Nat)
  /-- Somebody else uses a slot. -/
  | occupy (node : Node α)
  /-- Somebody else gives a slot back. -/
  | vacate (slot : Nat)

/-- The mailroom after an act, if it can happen. -/
def step? (s : Mailroom α) : Act α → Option (Mailroom α)
  | .send item => some { s with senders := s.senders ++ [⟨item, .place item⟩] }
  | .push j spurious =>
    match s.senders[j]? with
    | none => none
    | some c =>
      if c.place.isPushed then none
      else
        let (inbox, place) := c.place.step spurious s.inbox
        some { s with
          inbox
          senders := s.senders.set j { c with place }
          order := if place.isPushed then s.order ++ [j] else s.order }
  | .take =>
    let (chain, inbox) := s.inbox.detach
    some { s with inbox, drains := s.drains ++ [{ batch := s.order, chain }], order := [] }
  | .advance i =>
    match s.drains[i]? with
    | none => none
    | some d =>
      match s.inbox.next? d.chain with
      | none => none
      | some (a, chain, inbox) => some { s with inbox, drains := s.drains.set i (d.accept a chain) }
  | .drop i =>
    match s.drains[i]? with
    | none => none
    | some d => some { s with drains := s.drains.set i { d with dropped := true } }
  | .occupy node =>
    let (slot, nodes) := s.inbox.nodes.insert node
    some { s with inbox := { s.inbox with nodes }, others := slot :: s.others }
  | .vacate slot =>
    if slot ∈ s.others then
      some { s with
        inbox := { s.inbox with nodes := (s.inbox.nodes.remove? slot).2 }
        others := s.others.erase slot }
    else none

/-- What an act can do. -/
inductive Turns (s : Mailroom α) : Mailroom α → Prop
  | send (item : α) : Turns s { s with senders := s.senders ++ [⟨item, .place item⟩] }
  | push (j : Nat) (c : Sender α) (spurious : Bool) (hc : s.senders[j]? = some c)
    (hunder : c.place.isPushed = false) :
    Turns s { s with
      inbox := (c.place.step spurious s.inbox).1
      senders := s.senders.set j { c with place := (c.place.step spurious s.inbox).2 }
      order := if (c.place.step spurious s.inbox).2.isPushed then s.order ++ [j] else s.order }
  | take : Turns s { s with
      inbox := s.inbox.detach.2
      drains := s.drains ++ [{ batch := s.order, chain := s.inbox.head }]
      order := [] }
  | advance (i : Nat) (d : Drain α) (a : α) (chain : Option Nat) (inbox : Inbox α)
    (hd : s.drains[i]? = some d) (hnext : s.inbox.next? d.chain = some (a, chain, inbox)) :
    Turns s { s with inbox, drains := s.drains.set i (d.accept a chain) }
  | drop (i : Nat) (d : Drain α) (hd : s.drains[i]? = some d) :
    Turns s { s with drains := s.drains.set i { d with dropped := true } }
  | occupy (node : Node α) : Turns s { s with
      inbox := { s.inbox with nodes := (s.inbox.nodes.insert node).2 }
      others := (s.inbox.nodes.insert node).1 :: s.others }
  | vacate (slot : Nat) (hslot : slot ∈ s.others) : Turns s { s with
      inbox := { s.inbox with nodes := (s.inbox.nodes.remove? slot).2 }
      others := s.others.erase slot }

variable {s t : Mailroom α}

/-- **What an act can do.** -/
theorem turns_of_step? {act : Act α} (h : s.step? act = some t) : Turns s t := by
  cases act with
  | send item =>
      obtain rfl := Option.some.inj h
      exact .send item
  | push j spurious =>
      simp only [step?] at h
      split at h
      · cases h
      · next c hc =>
          split at h
          · cases h
          · next hunder =>
              obtain rfl := Option.some.inj h
              exact .push j c spurious hc (Bool.eq_false_iff.mpr hunder)
  | take =>
      obtain rfl := Option.some.inj h
      exact .take
  | advance i =>
      simp only [step?] at h
      split at h
      · cases h
      · next d hd =>
          split at h
          · cases h
          · next a chain inbox hnext =>
              obtain rfl := Option.some.inj h
              exact .advance i d a chain inbox hd hnext
  | drop i =>
      simp only [step?] at h
      split at h
      · cases h
      · next d hd =>
          obtain rfl := Option.some.inj h
          exact .drop i d hd
  | occupy node =>
      obtain rfl := Option.some.inj h
      exact .occupy node
  | vacate slot =>
      simp only [step?] at h
      split at h
      · next hslot =>
          obtain rfl := Option.some.inj h
          exact .vacate slot hslot
      · cases h

/-! ### What can be said of a mailroom -/

/-- The sender with this number brings this item. -/
def Brings (s : Mailroom α) (j : Nat) (a : α) : Prop := ∃ place, s.senders[j]? = some ⟨a, place⟩

/-- The push of the sender with this number has returned, with this answer. -/
def Answers (s : Mailroom α) (j : Nat) (wasEmpty : Bool) : Prop :=
  ∃ a, s.senders[j]? = some ⟨a, .pushed wasEmpty⟩

/-- Whether the push of the sender with this number has returned. -/
def hasReturned (s : Mailroom α) (j : Nat) : Bool := (s.senders[j]?).any (·.place.isPushed)

/-- What a drain has still to come to. -/
def rest (s : Mailroom α) (d : Drain α) : List α := (s.inbox.collect s.inbox.nodes.len d.chain).1

/-- All whose push was exchanged: those taken, drain by drain, and those still on the list. -/
def exchanged (s : Mailroom α) : List Nat := s.drains.flatMap (·.batch) ++ s.order

end Mailroom

end TaskDispatch.Timer
