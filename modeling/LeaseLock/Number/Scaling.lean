import LeaseLock.Number.Decimal
import LeaseLock.Number.Word

/-!
# Doubles from decimals

A decimal becomes a double in two steps. `Decimal.ofDigits` keeps the leading digits, as many as
stand for a number of 64 bits, and lets the power of ten make up for those left out.
`Decimal.toBinary64?` rounds the kept digits to a double and multiplies or divides it by the power
of ten, rounded as well.

Every step rounds to the nearest double, but the steps add up: a decimal of few digits with a small
power becomes the double nearest to it, any other one may become a neighbour of that. Near the upper
end of the range the step that multiplies decides whether there is a double at all.
-/

namespace LeaseLock.Decimal

/-! ### Leading digits -/

/-- Write digits behind the number `n` as long as it stays a number of 64 bits: the number, and the
digits left over from the first that does not fit. -/
def appendDigits (n : Nat) : List Nat → Nat × List Nat
  | [] => (n, [])
  | d :: ds => if 10 * n + d < wordBound then appendDigits (10 * n + d) ds else (n, d :: ds)

/-- The leading digits of a number with digits before and behind its point and a power of ten. A
digit left out before the point raises the power, one behind the point leaves no trace. -/
def ofDigits (whole fraction : List Nat) (power : Int) : Decimal :=
  let (n, left) := appendDigits 0 whole
  let (n, unused) := appendDigits n fraction
  ⟨n, power + left.length - (fraction.length - unused.length : Nat)⟩

/-! ### Scaling -/

/-- The exponent of the largest power of ten in the range of doubles. -/
def maxPower : Nat := 308

/-- A power of ten, rounded to a double. -/
def powerOfTen (k : Nat) : Option Binary64 := Binary64.ofRatio false (Nat.pow 10 k) 1

/-- Divide a double by `10 ^ k`, by the largest power of ten first where `k` exceeds it. -/
def reduce (x : Binary64) (k : Nat) : Option Binary64 :=
  if k ≤ maxPower then do x.div (← powerOfTen k)
  else if x.mantissa = 0 then some x
  else do
    let y ← x.div (← powerOfTen maxPower)
    reduce y (k - maxPower)
termination_by k
decreasing_by simp only [maxPower] at *; omega

/-- The double that a decimal becomes behind the given sign, or `none` if it is too large. -/
def toBinary64? (d : Decimal) (negative : Bool) : Option Binary64 := do
  let x ← Binary64.ofRatio negative d.digits 1
  if d.exponent < 0 then reduce x (-d.exponent).toNat
  else if d.exponent ≤ maxPower then x.mul (← powerOfTen d.exponent.toNat)
  else if d.digits = 0 then some x
  else none

end LeaseLock.Decimal
