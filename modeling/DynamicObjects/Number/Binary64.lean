/-!
# Binary floating-point numbers

A `Binary64` is the sixty-four bits of an interchange double: a sign, eleven bits
of exponent and fifty-two of fraction. `Binary64.read` gives it its meaning, an
element of the extended line (`Extended`): a whole number of *grains*, the
grain being the smallest positive double `2 ^ (-1074)`, or an infinity, or no
number at all. Since every finite double is a whole number of grains,
comparisons and truncation are integer arithmetic and exact.
-/

namespace DynamicObjects.Number

/-- A double, given by its interchange bits. -/
structure Binary64 where
  /-- Sign, biased exponent and fraction, from the top bit down. -/
  bits : UInt64
  deriving DecidableEq, Repr, Inhabited

/-- A single-precision number, given by its interchange bits. -/
structure Binary32 where
  /-- Sign, biased exponent and fraction, from the top bit down. -/
  bits : UInt32
  deriving DecidableEq, Repr, Inhabited

/-- What a double stands for: a number of grains, an infinity, or not a number. -/
inductive Extended where
  | nan
  | negInfinity
  | finite (grains : Int)
  | posInfinity
  deriving DecidableEq, Repr

/-- The number of grains in one: the grain is `2 ^ (-1074)`. -/
def grainsPerUnit : Nat := Nat.pow 2 1074

namespace Binary64

/-! ## Fields -/

/-- The sign bit. -/
def isNegative (x : Binary64) : Bool := Nat.pow 2 63 ≤ x.bits.toNat

/-- The bits without the sign. They grow with the magnitude. -/
def magnitude (x : Binary64) : Nat := x.bits.toNat % Nat.pow 2 63

/-- The magnitude of the infinities. Anything above it is not a number. -/
def infiniteMagnitude : Nat := 2047 * Nat.pow 2 52

/-- The double of a sign and a magnitude; a magnitude past the infinite one counts
as infinite. -/
def ofMagnitude (negative : Bool) (magnitude : Nat) : Binary64 :=
  let clipped := min magnitude infiniteMagnitude
  ⟨UInt64.ofNat (if negative then Nat.pow 2 63 + clipped else clipped)⟩

/-- The canonical quiet not-a-number. -/
def nan : Binary64 := ⟨0x7ff8000000000000⟩

/-- Whether the bits stand for no number. -/
def isNaN (x : Binary64) : Bool := infiniteMagnitude < x.magnitude

/-- Whether the bits stand for a real number. -/
def isFinite (x : Binary64) : Bool := x.magnitude < infiniteMagnitude

/-- The integer significand of a finite double: the fraction, with the hidden bit
unless the number is subnormal. -/
def significand (x : Binary64) : Nat :=
  if x.magnitude < Nat.pow 2 52 then x.magnitude else Nat.pow 2 52 + x.magnitude % Nat.pow 2 52

/-- How far the significand is shifted: a finite double has
`significand * 2 ^ shift` grains. -/
def shift (x : Binary64) : Nat := x.magnitude / Nat.pow 2 52 - 1

/-- The grains of a finite double, its sign put aside. -/
def grains (x : Binary64) : Nat := x.significand * Nat.pow 2 x.shift

/-! ## Meaning -/

/-- The meaning of the bits. Both zeros have no grains. -/
def read (x : Binary64) : Extended :=
  if x.isNaN then .nan
  else if x.isFinite then .finite (if x.isNegative then -(x.grains : Int) else x.grains)
  else if x.isNegative then .negInfinity
  else .posInfinity

/-- Whether the number is zero, of either sign. -/
def isZero (x : Binary64) : Bool := x.magnitude == 0

/-- Equality of numbers: the zeros are equal, and what is no number equals nothing. -/
def numericallyEqual (x y : Binary64) : Bool :=
  match x.read, y.read with
  | .nan, _ => false
  | a, b => a == b

end Binary64

/-! ## Order on the extended line -/

/-- The order of the extended line. What is no number has no place in it. -/
def Extended.compare? : Extended → Extended → Option Ordering
  | .nan, _ | _, .nan => none
  | .finite a, .finite b => some (compare a b)
  | .negInfinity, .negInfinity | .posInfinity, .posInfinity => some .eq
  | .negInfinity, _ | _, .posInfinity => some .lt
  | _, .negInfinity | .posInfinity, _ => some .gt

/-- The total order that puts what is no number above everything. -/
def Extended.compare (x y : Extended) : Ordering :=
  (x.compare? y).getD (Ord.compare (x == .nan) (y == .nan))

/-! ## Integers against doubles -/

/-- The integer part, towards zero, of a number of grains. -/
def truncateGrains (grains : Int) : Int := grains.tdiv grainsPerUnit

/-- Exact comparison of a sixty-four bit integer with a point of the extended
line. Outside the integers' range the answer is known from the sign; inside it,
the integer part decides first and the fraction after it, so the integer is
never rounded. -/
def Extended.compareWithInteger (x : Int64) : Extended → Ordering
  | .nan | .posInfinity => .lt
  | .negInfinity => .gt
  | .finite y =>
    if Nat.pow 2 63 * grainsPerUnit ≤ y then .lt
    else if y < -(Nat.pow 2 63 * grainsPerUnit) then .gt
    else
      let whole := truncateGrains y
      (Ord.compare x (Int64.ofInt whole)).then (Ord.compare (whole * grainsPerUnit) y)

/-! ## Widening -/

namespace Binary32

/-- The double with the same value. Subnormal singles become normal doubles, and
what is no number stays none. -/
def widen (x : Binary32) : Binary64 :=
  let negative := Nat.pow 2 31 ≤ x.bits.toNat
  let magnitude := x.bits.toNat % Nat.pow 2 31
  let exponent := magnitude / Nat.pow 2 23
  let fraction := magnitude % Nat.pow 2 23
  if exponent = 255 then
    if fraction = 0 then Binary64.ofMagnitude negative Binary64.infiniteMagnitude
    else Binary64.nan
  else if exponent = 0 then
    if fraction = 0 then Binary64.ofMagnitude negative 0
    else
      let top := Nat.log2 fraction
      let shifted := fraction * Nat.pow 2 (52 - top) - Nat.pow 2 52
      Binary64.ofMagnitude negative ((874 + top) * Nat.pow 2 52 + shifted)
  else Binary64.ofMagnitude negative ((exponent + 896) * Nat.pow 2 52 + fraction * Nat.pow 2 29)

/-- Whether the bits stand for no number. -/
def isNaN (x : Binary32) : Bool := 255 * Nat.pow 2 23 < x.bits.toNat % Nat.pow 2 31

end Binary32

end DynamicObjects.Number
