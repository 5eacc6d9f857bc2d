import DynamicObjects.Number.Rounding

/-!
# Reading decimal numerals

A `Numeral` is a scanned number of a document: a sign, whole digits, and perhaps a
fraction and an exponent. `Numeral.read` turns it into a whole number or a double.
The digits are gathered into one word of sixty-four bits; digits past its capacity
are dropped and only counted. The word, rounded to a double, is then scaled by a
power of ten in one correctly rounded step, or in several when the power is beyond
`10 ^ 308`. So a numeral with few digits is read exactly, one with many to within a
last place or two.
-/

namespace DynamicObjects.Number

/-- A number as it stands in a document. -/
structure Numeral where
  /-- Whether a minus sign stands in front. -/
  negative : Bool
  /-- The digits before the point. -/
  whole : List Nat
  /-- The digits after the point, if there is one. -/
  fraction : Option (List Nat)
  /-- The exponent, if there is one. -/
  exponent : Option Int
  deriving DecidableEq, Repr

/-- A number read from a document. -/
inductive Reading where
  | integer (n : Int)
  | real (x : Binary64)
  deriving DecidableEq, Repr

/-- Takes digits into a word until the next one would not fit. Gives the word and the
digits left over. -/
def absorbDigits (word : Nat) : List Nat → Nat × List Nat
  | [] => (word, [])
  | d :: rest =>
    if word * 10 + d < Nat.pow 2 64 then absorbDigits (word * 10 + d) rest else (word, d :: rest)

/-- Scales a non-negative double by a power of ten. There is no answer when it grows
past the largest double; what becomes too small is zero. -/
def scale (x : Binary64) (exponent : Int) : Option Binary64 :=
  if exponent.natAbs ≤ 308 then
    if 0 ≤ exponent then
      let scaled := x.multiplyMagnitudes (Binary64.powerOfTen exponent.natAbs)
      if scaled.isFinite then some scaled else none
    else some (x.divideMagnitudes (Binary64.powerOfTen exponent.natAbs))
  else if x.isZero then some x
  else if 0 ≤ exponent then none
  else scale (x.divideMagnitudes (Binary64.powerOfTen 308)) (exponent + 308)
termination_by exponent.natAbs
decreasing_by omega

namespace Numeral

/-- A double from a word of digits and a power of ten. -/
def scaled (n : Numeral) (word : Nat) (exponent : Int) : Option Reading :=
  (scale (Binary64.ofRatio false word 1) exponent).map fun x =>
    .real (if n.negative then x.negate else x)

/-- The number that a numeral stands for. Plain digits that fit sixty-four bits, with
their sign, are a whole number; minus zero and everything else is a double. A
number beyond the largest double has no reading. -/
def read (n : Numeral) : Option Reading :=
  let (word, dropped) := absorbDigits 0 n.whole
  match n.fraction, n.exponent with
  | none, none =>
    if dropped ≠ [] then n.scaled word dropped.length
    else if !n.negative then some (.integer word)
    else if word = 0 ∨ Nat.pow 2 63 < word then some (.real (Binary64.ofRatio true word 1))
    else some (.integer (-word))
  | fraction, exponent =>
    let digits := fraction.getD []
    let (word, unread) := absorbDigits word digits
    n.scaled word (dropped.length - (digits.length - unread.length : Nat) + exponent.getD 0)

end Numeral

end DynamicObjects.Number
