/-
The queue of armed timers.

Timers live in a heap, from which the one due first comes out first.  When the heap
cannot grow a timer goes to the overflow list, which is kept in order of due time;
of equal due times the one enqueued first stands in front.  The two containers
act as one queue: `dequeueDue` merges them, with the heap in front at equal due
times, and `removeCancelled` filters both.

The heap is the bag of its timers.  Only the due time decides which one comes out,
so of several timers due first any may; this queue takes the one pushed first.
-/
namespace TaskDispatch.Timer

/-- Something armed, and when it is due. -/
structure Entry (α : Type) where
  due : Nat
  item : α
  deriving DecidableEq

/-- The container that a timer came from. -/
inductive Place where
  | heap
  | overflow
  deriving DecidableEq

/-- A timer handed to the sink, with its container. -/
structure Handed (α : Type) where
  place : Place
  entry : Entry α

namespace Handed

variable {α : Type}

/-- Whether two timers came from the heap in an order that the heap does not fix: it fixes none but that
of due times, and where `byDue` is false not even that. -/
def unordered (byDue : Bool) (a b : Handed α) : Bool :=
  a.place == .heap && b.place == .heap && (!byDue || a.entry.due == b.entry.due)

/-- What was handed over, with neighbours whose order the heap does not fix in order of `key`. -/
def canonical (byDue : Bool) (key : α → Nat) (handed : List (Handed α)) : List (Handed α) :=
  (handed.splitBy (unordered byDue)).flatMap fun group =>
    group.mergeSort fun a b => key a.entry.item ≤ key b.entry.item

end Handed

/-- The armed timers. -/
structure Queue (α : Type) where
  heap : List (Entry α) := []
  overflow : List (Entry α) := []
  overflowLen : Nat := 0

namespace Queue

variable {α : Type}

def isEmpty (q : Queue α) : Bool := q.heap.isEmpty && q.overflow.isEmpty

def len (q : Queue α) : Nat := q.heap.length + q.overflowLen

/-- The smallest due time in a bag. -/
def earliestIn : List (Entry α) → Option Nat
  | [] => none
  | e :: rest =>
    match earliestIn rest with
    | none => some e.due
    | some due => some (min e.due due)

/-- The smallest due time in the queue: the overflow list has its smallest in front. -/
def earliest? (q : Queue α) : Option Nat :=
  match earliestIn q.heap, q.overflow.head?.map Entry.due with
  | some h, some o => some (min h o)
  | some h, none => some h
  | none, o => o

/-- Puts a timer behind all that are due no later. -/
def link (e : Entry α) : List (Entry α) → List (Entry α)
  | [] => [e]
  | next :: rest => if next.due ≤ e.due then next :: link e rest else e :: next :: rest

/-- Adds a timer: to the heap if it has room, else to the overflow list. -/
def enqueue (q : Queue α) (room : Bool) (e : Entry α) : Queue α :=
  if room then { q with heap := q.heap ++ [e] }
  else { q with overflow := link e q.overflow, overflowLen := q.overflowLen + 1 }

/-- Takes the first timer with this due time out of a bag. -/
def popAt (due : Nat) : List (Entry α) → Option (Entry α × List (Entry α))
  | [] => none
  | e :: rest =>
    if e.due = due then some (e, rest)
    else (popAt due rest).map fun (found, others) => (found, e :: others)

/-- Takes a timer that is due first out of a bag. -/
def popMin (heap : List (Entry α)) : Option (Entry α × List (Entry α)) :=
  match earliestIn heap with
  | none => none
  | some due => popAt due heap

/-- Whether the next timer comes from the overflow list: only if it is due strictly earlier. -/
def fromOverflow (q : Queue α) : Bool :=
  match earliestIn q.heap, q.overflow.head? with
  | some h, some o => o.due < h
  | none, some _ => true
  | _, none => false

/-- Takes the next timer, if it is due by `now`. -/
def dequeue? (q : Queue α) (now : Nat) : Option (Handed α × Queue α) :=
  if q.fromOverflow then
    match q.overflow with
    | e :: rest =>
      if e.due ≤ now then
        some (⟨.overflow, e⟩, { q with overflow := rest, overflowLen := q.overflowLen - 1 })
      else none
    | [] => none
  else
    match popMin q.heap with
    | some (e, rest) => if e.due ≤ now then some (⟨.heap, e⟩, { q with heap := rest }) else none
    | none => none

/-- Takes timers due by `now`, at most `fuel` of them. -/
def dequeueUpTo (now : Nat) : (fuel : Nat) → Queue α → List (Handed α) × Queue α
  | 0, q => ([], q)
  | fuel + 1, q =>
    match q.dequeue? now with
    | none => ([], q)
    | some (handed, q) =>
      let (rest, q) := dequeueUpTo now fuel q
      (handed :: rest, q)

/-- Hands over all timers due by `now`, in order of due time.  No more can be due than there are. -/
def dequeueDue (q : Queue α) (now : Nat) : List (Handed α) × Queue α :=
  dequeueUpTo now (q.heap.length + q.overflow.length) q

/-- Splits a container by asking each timer once, first to last. -/
def sift {m : Type → Type} [Monad m] (ask : α → m Bool) :
    List (Entry α) → m (List (Entry α) × List (Entry α))
  | [] => pure ([], [])
  | e :: rest => do
    let cancelled ← ask e.item
    let (gone, kept) ← sift ask rest
    pure (if cancelled then (e :: gone, kept) else (gone, e :: kept))

/-- Hands over the timers that say they are cancelled: the heap's first, then the overflow list's. -/
def removeCancelled {m : Type → Type} [Monad m] (q : Queue α) (ask : α → m Bool) :
    m (List (Handed α) × Queue α) := do
  let (goneHeap, heap) ← sift ask q.heap
  let (goneOverflow, overflow) ← sift ask q.overflow
  pure (goneHeap.map (⟨.heap, ·⟩) ++ goneOverflow.map (⟨.overflow, ·⟩),
    { heap, overflow, overflowLen := q.overflowLen - goneOverflow.length })

/-- Hands over everything: the heap's timers, then the overflow list's. -/
def drain (q : Queue α) : List (Handed α) × Queue α :=
  (q.heap.map (⟨.heap, ·⟩) ++ q.overflow.map (⟨.overflow, ·⟩), {})

end Queue

end TaskDispatch.Timer
