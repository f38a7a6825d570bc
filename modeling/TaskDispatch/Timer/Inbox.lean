/-
The inbox: how timers reach the timer thread.

It is a linked list with one shared word, the head.  A push puts its node into a
slot of its own, reads the head, links the node before it and exchanges the head
for the node; an exchange that finds another head, or fails for no reason, starts
over from what it found.  Taking everything exchanges the head for nothing, and the
detached chain belongs to the taker, most recent push first.  Slots are reused once
their node has been taken.

`Push` is the place of one pusher and `Push.step` its next atomic step.
-/
import TaskDispatch.Slab

namespace TaskDispatch.Timer

/-- A node of the list: what it carries, and the slot of the node pushed before it. -/
structure Node (α : Type) where
  item : α
  next : Option Nat := none

/-- The shared head and the slots that the nodes live in. -/
structure Inbox (α : Type) where
  head : Option Nat := none
  nodes : Slab (Node α) := {}

namespace Inbox

variable {α : Type}

/-- The place of one pusher. -/
inductive Push (α : Type) where
  /-- About to put its node into a slot, which nobody else sees. -/
  | place (item : α)
  /-- About to read the head. -/
  | load (slot : Nat)
  /-- About to link its node before the head it saw. -/
  | link (slot : Nat) (seen : Option Nat)
  /-- About to exchange the head it saw for its node. -/
  | exchange (slot : Nat) (seen : Option Nat)
  /-- Done; it knows whether the list was empty. -/
  | pushed (wasEmpty : Bool)

/-- The next atomic step; `spurious` makes an exchange fail for no reason. -/
def Push.step (spurious : Bool) (pc : Push α) (l : Inbox α) : Inbox α × Push α :=
  match pc with
  | place item =>
    let (slot, nodes) := l.nodes.insert { item }
    ({ l with nodes }, load slot)
  | load slot => (l, link slot l.head)
  | link slot seen =>
    ({ l with nodes := l.nodes.modify slot fun n => { n with next := seen } }, exchange slot seen)
  | exchange slot seen =>
    if l.head = seen && !spurious then ({ l with head := some slot }, pushed seen.isNone)
    else (l, link slot l.head)
  | pushed wasEmpty => (l, pushed wasEmpty)

/-- Detaches the chain: its first slot. -/
def detach (l : Inbox α) : Option Nat × Inbox α := (l.head, { l with head := none })

/-- Takes the first node of a detached chain and frees its slot. -/
def next? (l : Inbox α) (chain : Option Nat) : Option (α × Option Nat × Inbox α) := do
  let slot ← chain
  let (node, nodes) := l.nodes.remove? slot
  let node ← node
  return (node.item, node.next, { l with nodes })

/-- Takes at most `fuel` nodes of a chain. -/
def collect : (fuel : Nat) → Inbox α → Option Nat → List α × Inbox α
  | 0, l, _ => ([], l)
  | fuel + 1, l, chain =>
    match l.next? chain with
    | none => ([], l)
    | some (item, chain, l) =>
      let (items, l) := collect fuel l chain
      (item :: items, l)

/-- A push with nobody in between: it answers whether the list was empty. -/
def push (l : Inbox α) (item : α) : Bool × Inbox α :=
  let (l, pc) := (Push.place item).step false l
  let (l, pc) := pc.step false l
  let (l, pc) := pc.step false l
  let (l, pc) := pc.step false l
  match pc with
  | .pushed wasEmpty => (wasEmpty, l)
  | _ => (false, l)

/-- Takes everything, most recent push first.  A chain has no more nodes than there are slots in use. -/
def takeAll (l : Inbox α) : List α × Inbox α :=
  let (chain, l) := l.detach
  l.collect l.nodes.len chain

end Inbox

end TaskDispatch.Timer
