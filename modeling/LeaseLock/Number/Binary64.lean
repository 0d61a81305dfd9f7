/-!
# Doubles as exact numbers

A finite double is `± m · 2 ^ e` with a natural number `m` below `2 ^ 53`. `Binary64` keeps the
three parts, so every rule about doubles is arithmetic on natural numbers.

`Binary64.ofRatio` rounds a quotient to the nearest double, a half to the even neighbour; it is the
only rounding in the library. Whole numbers, products and quotients of doubles go through it. A
value too large for a double has no rounding.
-/

namespace LeaseLock

/-- The finite double `± mantissa · 2 ^ exponent`. -/
structure Binary64 where
  /-- Whether the sign is a minus; zero has a sign too. -/
  negative : Bool
  /-- The mantissa, below `2 ^ 53`. -/
  mantissa : Nat
  /-- The exponent, from `-1074` to `971`. -/
  exponent : Int
deriving DecidableEq, Repr

namespace Binary64

/-- The exponent of the smallest doubles. -/
def minExponent : Int := -1074

/-- The exponent of the largest doubles. -/
def maxExponent : Int := 971

/-- The least mantissa of 53 bits, two to the power of 52. -/
def leastNormal : Nat := 4503599627370496

/-- Zero with the given sign. -/
def zero (negative : Bool) : Binary64 := ⟨negative, 0, minExponent⟩

instance : Inhabited Binary64 := ⟨zero false⟩

/-- The quotient rounded to the nearest whole number, a half to the even one. -/
def halfEven (num den : Nat) : Nat :=
  let q := num / den
  let r := num % den
  if 2 * r < den then q else if den < 2 * r then q + 1 else q + q % 2

/-- Multiply the quotient `num / den` by `2 ^ k`. -/
def shift (num den : Nat) (k : Int) : Nat × Nat :=
  if 0 ≤ k then (num <<< k.toNat, den) else (num, den <<< (-k).toNat)

/-- The exponent at which a nonzero quotient has a mantissa of 53 bits, or the smallest exponent if
that is larger. -/
def exponentOf (num den : Nat) : Int :=
  let guess := max ((num.log2 : Int) - den.log2 - 53) minExponent
  let (n, d) := shift num den (-guess)
  if n / d < 2 * leastNormal then guess else guess + 1

/-- The double nearest to `± num / den`, or `none` if that is too large for one. -/
def ofRatio (negative : Bool) (num den : Nat) : Option Binary64 :=
  if num = 0 then some (zero negative)
  else
    let e := exponentOf num den
    let (n, d) := shift num den (-e)
    let m := halfEven n d
    let x : Binary64 :=
      if m = 2 * leastNormal then ⟨negative, leastNormal, e + 1⟩ else ⟨negative, m, e⟩
    if maxExponent < x.exponent then none else some x

/-- The magnitude as a quotient. -/
def ratio (x : Binary64) : Nat × Nat := shift x.mantissa 1 x.exponent

/-- The double nearest to a whole number. -/
def ofInt (i : Int) : Option Binary64 := ofRatio (decide (i < 0)) i.natAbs 1

/-- The product of two doubles, rounded to the nearest one, or `none` if that is too large. -/
def mul (x y : Binary64) : Option Binary64 :=
  let (n, d) := x.ratio
  let (n', d') := y.ratio
  ofRatio (x.negative != y.negative) (n * n') (d * d')

/-- The quotient of two doubles, rounded to the nearest one, or `none` if that is too large or the
divisor is zero. -/
def div (x y : Binary64) : Option Binary64 :=
  let (n, d) := x.ratio
  let (n', d') := y.ratio
  if n' = 0 then none else ofRatio (x.negative != y.negative) (n * d') (d * n')

/-- The quotient of two whole numbers, each rounded to a double first. Only a zero divisor or a
number beyond the range of doubles has no quotient. -/
def quotient (a b : Nat) : Option Binary64 := do (← ofInt a).div (← ofInt b)

end Binary64

end LeaseLock
