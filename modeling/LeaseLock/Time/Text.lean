import LeaseLock.Time.Duration

/-!
# The text of a duration

A duration is written in the largest unit of which it holds at least one: seconds, milliseconds,
microseconds or nanoseconds. The part below that unit follows a point, without trailing zeros, and
the point is left out together with an empty part: `1.5s`, `350ms`, `100.000001ms`, `1µs`, `0ns`.
-/

namespace LeaseLock.Duration

/-- The decimal digits of `n`, padded with zeros on the left to `width` of them. -/
def padded (width n : Nat) : String :=
  let digits := toString n
  String.ofList (List.replicate (width - digits.length) '0') ++ digits

/-- A fraction's digits after the point: `n` of them in `width` places, trailing zeros dropped. -/
def fractionDigits (width n : Nat) : String :=
  String.ofList ((padded width n).toList.reverse.dropWhile (· == '0')).reverse

/-- A whole number, a fraction of `width` places, and a unit. -/
def inUnit (whole fraction width : Nat) (unit : String) : String :=
  if fraction = 0 then toString whole ++ unit
  else toString whole ++ "." ++ fractionDigits width fraction ++ unit

/-- The text of a duration. -/
def text (d : Duration) : String :=
  if 0 < d.secs then inUnit d.secs d.subsecNanos 9 "s"
  else if 1000000 ≤ d.nanos then inUnit (d.nanos / 1000000) (d.nanos % 1000000) 6 "ms"
  else if 1000 ≤ d.nanos then inUnit (d.nanos / 1000) (d.nanos % 1000) 3 "µs"
  else inUnit d.nanos 0 0 "ns"

end LeaseLock.Duration
