import DynamicObjects.Number.Binary64

/-!
# The shortest decimal of a double

A decimal reads back to a double when it lies in the interval of reals that round to
it; the ends belong to the interval when the significand is even. `Binary64.shortest`
tries one digit, two digits, and so on. At each length it looks at the two points of
the decimal grid next to the value, and the first length with a point inside the
interval wins; of two points the nearer is taken, and `Tie` settles an exact half.
All arithmetic is on natural numbers, in quarters of a grain.
-/

namespace DynamicObjects.Number

/-- What to do when two decimals of the same length are equally near. -/
inductive Tie where
  /-- Take the one of larger magnitude. -/
  | away
  /-- Take the one whose last digit is even. -/
  | even
  deriving DecidableEq, Repr

/-- A decimal `digits * 10 ^ exponent`. -/
structure Decimal where
  /-- The digits as a number. -/
  digits : Nat
  /-- The power of ten that the last digit counts. -/
  exponent : Int
  deriving DecidableEq, Repr

namespace Binary64

/-- A quarter of a grain is this part of one. -/
def quartersPerUnit : Nat := 4 * grainsPerUnit

/-- The lower end, in quarters of a grain, of the reals that round to a positive
finite double. Below a power of two the neighbour is only half as far. -/
def lowerEnd (x : Binary64) : Nat :=
  if x.significand = Nat.pow 2 52 ∧ 0 < x.shift then (4 * x.significand - 1) * Nat.pow 2 x.shift
  else (4 * x.significand - 2) * Nat.pow 2 x.shift

/-- The upper end, in quarters of a grain. -/
def upperEnd (x : Binary64) : Nat := (4 * x.significand + 2) * Nat.pow 2 x.shift

/-- Whether `num / den` quarters of a grain round to the double. -/
def readsBack (x : Binary64) (num den : Nat) : Bool :=
  if x.significand % 2 = 0 then x.lowerEnd * den ≤ num && num ≤ x.upperEnd * den
  else x.lowerEnd * den < num && num < x.upperEnd * den

/-- The point of the grid `10 ^ exponent` that stands for the double, if one of the
two next to the value does. -/
def onGrid (tie : Tie) (x : Binary64) (exponent : Int) : Option Decimal :=
  let up := Nat.pow 10 exponent.toNat * quartersPerUnit
  let down := Nat.pow 10 (-exponent).toNat
  let value := 4 * x.grains * down
  let below := value / up
  let twice := 2 * (value % up)
  let lowFits := x.readsBack (below * up) down
  let highFits := x.readsBack ((below + 1) * up) down
  let takeHigh : Bool :=
    if lowFits && highFits then
      if twice = up then (match tie with | .away => true | .even => below % 2 == 1)
      else decide (up < twice)
    else highFits
  if takeHigh then some ⟨below + 1, exponent⟩
  else if lowFits then some ⟨below, exponent⟩
  else none

/-- The exponent of the leading digit of a positive finite double: `10 ^ e` is not
above the value and `10 ^ (e + 1)` is. Large values count their digits, small
ones are multiplied by ten until they reach one. -/
def leadingExponent (x : Binary64) : Int :=
  let whole := x.grains / grainsPerUnit
  if whole = 0 then
    -(((List.range 330).find? fun k => grainsPerUnit ≤ x.grains * Nat.pow 10 k).getD 330 : Nat)
  else ((Nat.toDigits 10 whole).length - 1 : Nat)

/-- The shortest decimal that reads back to a positive finite double, and of the
shortest ones the nearest. Seventeen digits always suffice. -/
def shortest (tie : Tie) (x : Binary64) : Decimal :=
  let lead := x.leadingExponent
  ((List.range 17).findSome? fun (extra : Nat) => x.onGrid tie (lead - extra)).getD
    ⟨4 * x.grains * Nat.pow 10 (16 - lead).toNat / (Nat.pow 10 (lead - 16).toNat * quartersPerUnit),
      lead - 16⟩

end Binary64

/-- The decimal without trailing zeros in its digits. -/
def Decimal.trim (d : Decimal) : Decimal :=
  if h : d.digits ≠ 0 ∧ d.digits % 10 = 0 then Decimal.trim ⟨d.digits / 10, d.exponent + 1⟩
  else d
termination_by d.digits
decreasing_by omega

end DynamicObjects.Number
