import LeaseLock.Time.Duration

/-!
# Clocks

Time has two sides. Ticks count the milliseconds that pass and never go back; waits and background
tasks are timed by them. The wall clock tells what time it is; leases and stores go by it. It moves
with the ticks, but it can be set forward and back, and it shows nothing before 1970.

How far the wall clock is from the ticks is a signed word of 64 bits. Setting the clock beyond the
range of such words leads around to its other end.
-/

namespace LeaseLock

/-- The two sides of time. -/
structure Clock where
  /-- What the wall clock would show at tick zero. -/
  base : Int
  /-- The milliseconds that have passed. -/
  tick : Nat := 0
deriving DecidableEq, Repr

namespace Clock

/-- What the wall clock shows, in milliseconds since 1970. -/
def now (c : Clock) : Nat := (c.base + c.tick).toNat

/-- Set the wall clock forward, or back by a negative amount. -/
def shift (c : Clock) (ms : Int) : Clock := { c with base := (c.base + ms).bmod wordBound }

/-- Let time pass up to a tick, if it has not come yet. -/
def passTo (c : Clock) (tick : Nat) : Clock := { c with tick := max c.tick tick }

end Clock

end LeaseLock
