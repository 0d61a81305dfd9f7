import LeaseLock.Number.Binary64

/-!
# The shortest decimal of a double

Every double is the rounding of an interval of reals. `Decimal.shortest` finds the decimal with the
fewest digits inside that interval, and of those the one nearest to the double. For a given number
of digits only the two neighbours of the double on that decimal grid need to be tried, because if
any point of the grid lies in the interval then one of these does.

`Decimal.text` lays the digits out: positionally while the point stands at most sixteen digits from
the left and at most five zeros follow it, with an exponent otherwise. A whole number keeps `.0`.
-/

namespace LeaseLock

/-- The decimal `digits · 10 ^ exponent`. -/
structure Decimal where
  /-- The digits as a number. -/
  digits : Nat
  /-- The power of ten by which they are scaled. -/
  exponent : Int
deriving DecidableEq, Repr

namespace Decimal

/-- How many decimal digits a number has. -/
def digitCount (n : Nat) : Nat := (toString n).length

/-- The power `p` of ten for which `10 ^ p ≤ num / den < 10 ^ (p + 1)`. -/
def magnitude (num den : Nat) : Int :=
  if den ≤ num then (digitCount (num / den) : Int) - 1
  else -(digitCount ((den + num - 1) / num - 1) : Int)

/-- Multiply the quotient `num / den` by `10 ^ k`. -/
def scale (num den : Nat) (k : Int) : Nat × Nat :=
  if 0 ≤ k then (num * Nat.pow 10 k.toNat, den) else (num, den * Nat.pow 10 (-k).toNat)

/-- The interval of reals that round to a nonzero double: its ends and the double itself in units of
a quarter of the last binary place, the exponent of that unit, and whether the ends belong to it. -/
structure Interval where
  /-- The lower end. -/
  lower : Nat
  /-- The double. -/
  value : Nat
  /-- The upper end. -/
  upper : Nat
  /-- The power of two that is the unit. -/
  unit : Int
  /-- Whether the ends round to the double as well. -/
  closed : Bool

/-- The interval of a double. Below a power of two the doubles lie twice as close. -/
def intervalOf (x : Binary64) : Interval where
  lower :=
    if x.mantissa = Binary64.leastNormal ∧ Binary64.minExponent < x.exponent then 4 * x.mantissa - 1
    else 4 * x.mantissa - 2
  value := 4 * x.mantissa
  upper := 4 * x.mantissa + 2
  unit := x.exponent - 2
  closed := x.mantissa % 2 == 0

/-- Whether `c · 10 ^ k` lies in the interval. -/
def Interval.holds (i : Interval) (c : Nat) (k : Int) : Bool :=
  let (n, d) := scale c 1 k
  let (u, w) := Binary64.shift 1 1 i.unit
  let left := i.lower * u * d
  let here := n * w
  let right := i.upper * u * d
  if i.closed then decide (left ≤ here) && decide (here ≤ right)
  else decide (left < here) && decide (here < right)

/-- The decimal with `n` digits in the interval, if there is one: the nearer of the two neighbours
of the double, on a tie the even one. -/
def Interval.withDigits (i : Interval) (n : Nat) : Option Decimal :=
  let (u, w) := Binary64.shift i.value 1 i.unit
  let k := magnitude u w - n + 1
  let (a, b) := scale u w (-k)
  let below := a / b
  let above := below + 1
  match i.holds below k, i.holds above k with
  | true, true =>
    let gap := 2 * (a % b)
    if gap < b then some ⟨below, k⟩
    else if b < gap then some ⟨above, k⟩
    else some ⟨below + below % 2, k⟩
  | true, false => some ⟨below, k⟩
  | false, true => some ⟨above, k⟩
  | false, false => none

/-- Drop the zeros at the end of the digits, at most `fuel` of them. -/
def stripZeros : Nat → Decimal → Decimal
  | 0, d => d
  | fuel + 1, d =>
    if d.digits ≠ 0 ∧ d.digits % 10 = 0 then stripZeros fuel ⟨d.digits / 10, d.exponent + 1⟩ else d

/-- The shortest decimal that rounds to the magnitude of `x`. Seventeen digits always suffice. -/
def shortest (x : Binary64) : Decimal :=
  if x.mantissa = 0 then ⟨0, 0⟩
  else
    match (List.range 17).findSome? fun n ↦ (intervalOf x).withDigits (n + 1) with
    | some d => stripZeros 17 d
    | none => ⟨x.mantissa, 0⟩

/-- `n` zeros. -/
def zeros (n : Nat) : String := String.ofList (List.replicate n '0')

/-- The text of a decimal without a sign. -/
def text (d : Decimal) : String :=
  let ds := toString d.digits
  let point : Int := ds.length + d.exponent
  let head := fun (n : Nat) ↦ String.ofList (ds.toList.take n)
  let tail := fun (n : Nat) ↦ String.ofList (ds.toList.drop n)
  if d.digits = 0 then "0.0"
  else if 0 ≤ d.exponent ∧ point ≤ 16 then ds ++ zeros d.exponent.toNat ++ ".0"
  else if 0 < point ∧ point ≤ 16 then head point.toNat ++ "." ++ tail point.toNat
  else if -5 < point ∧ point ≤ 0 then "0." ++ zeros (-point).toNat ++ ds
  else if ds.length = 1 then ds ++ "e" ++ toString (point - 1)
  else head 1 ++ "." ++ tail 1 ++ "e" ++ toString (point - 1)

end Decimal

/-- The text of a double: its shortest decimal behind its sign. -/
def Binary64.text (x : Binary64) : String :=
  (if x.negative then "-" else "") ++ (Decimal.shortest x).text

end LeaseLock
