/-
Instants and deadlines.

An instant is a number of nanoseconds on a clock whose seconds fit a signed
64-bit word.  A deadline that lies beyond the clock's range is replaced by one
thirty years ahead, which is far enough not to matter.
-/
namespace TaskDispatch.Timer

/-- Nanoseconds in a second. -/
def nanosPerSecond : Nat := 1000000000

/-- Nanoseconds in a millisecond. -/
def nanosPerMilli : Nat := 1000000

/-- The first instant that the clock cannot show. -/
def clockEnd : Nat := Nat.pow 2 63 * nanosPerSecond

/-- A length of time. -/
structure Delay where
  seconds : Nat := 0
  nanos : Nat := 0

namespace Delay

/-- The delay in nanoseconds. -/
def total (d : Delay) : Nat := d.seconds * nanosPerSecond + d.nanos

/-- A delay of so many milliseconds. -/
def ofMillis (ms : Nat) : Delay := ⟨ms / 1000, ms % 1000 * nanosPerMilli⟩

/-- Days of 24 hours. -/
def ofDays (n : Nat) : Delay := ⟨n * 86400, 0⟩

/-- The instant that is a delay after `now`, if the clock can show it. -/
def end? (d : Delay) (now : Nat) : Option Nat :=
  let due := now + d.total
  if due < clockEnd then some due else none

/-- The deadline of a delay that starts now: beyond the clock's range, thirty years ahead. -/
def deadline (d : Delay) (now : Nat) : Nat :=
  (d.end? now).getD (((ofDays (365 * 30)).end? now).getD now)

theorem le_of_end? {d : Delay} {now due : Nat} (h : d.end? now = some due) : now ≤ due := by
  dsimp only [end?] at h
  split at h
  · cases h; exact Nat.le_add_right ..
  · cases h

/-- A deadline never lies in the past. -/
theorem le_deadline (d : Delay) (now : Nat) : now ≤ d.deadline now := by
  unfold deadline
  cases h : d.end? now with
  | some due => exact le_of_end? h
  | none =>
    cases hf : (ofDays (365 * 30)).end? now with
    | some due => exact le_of_end? hf
    | none => exact Nat.le_refl now

end Delay

end TaskDispatch.Timer
