import DynamicObjects.Number.Binary64

/-!
# Rounding to the nearest double

`Binary64.ofRatio` gives the double nearest to a quotient of natural numbers, ties
going to the even significand. Sums of shifts and significands are packed by one
addition, so a significand that rounds up to a power of two carries into the
exponent by itself, and past the largest double into infinity. Products, quotients
and powers of ten of doubles are all roundings of exact ratios.
-/

namespace DynamicObjects.Number

/-- The natural number nearest to `num / den`, a half going to the even neighbour. -/
def roundHalfEven (num den : Nat) : Nat :=
  let quotient := num / den
  let twice := 2 * (num % den)
  if twice < den then quotient
  else if den < twice then quotient + 1
  else quotient + quotient % 2

namespace Binary64

/-- The magnitude nearest to a quotient. The shift is chosen so that the quotient
has fifty-three bits before its point, or fewer when it is subnormal. -/
def magnitudeOfRatio (num den : Nat) : Nat :=
  if num = 0 then 0
  else
    let scaled := num * grainsPerUnit
    let top := scaled.log2 - den.log2
    let top := if scaled < den * Nat.pow 2 top then top - 1 else top
    let shift := top - 52
    min (shift * Nat.pow 2 52 + roundHalfEven scaled (den * Nat.pow 2 shift)) infiniteMagnitude

/-- The double nearest to a signed quotient with a positive denominator. -/
def ofRatio (negative : Bool) (num den : Nat) : Binary64 :=
  ofMagnitude negative (magnitudeOfRatio num den)

/-- The double nearest to an integer. -/
def ofInt (n : Int) : Binary64 := ofRatio (n < 0) n.natAbs 1

/-- The product of two finite doubles without their signs, rounded. -/
def multiplyMagnitudes (x y : Binary64) : Binary64 :=
  ofRatio false (x.grains * y.grains) (grainsPerUnit * grainsPerUnit)

/-- The quotient of two finite doubles without their signs, rounded; the divisor
is not zero. -/
def divideMagnitudes (x y : Binary64) : Binary64 := ofRatio false x.grains y.grains

/-- The double nearest to a power of ten. -/
def powerOfTen (n : Nat) : Binary64 := ofRatio false (Nat.pow 10 n) 1

/-- The number with its sign turned. -/
def negate (x : Binary64) : Binary64 := ofMagnitude (!x.isNegative) x.magnitude

end Binary64

end DynamicObjects.Number
