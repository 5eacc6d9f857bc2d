import DynamicObjects.Number.Shortest

/-!
# Decimal text of doubles

A `Layout` says how the digits of a double are laid out: where positional writing
ends, whether a whole number keeps a fraction, how ties between decimals go, and how
the values that are no finite number are spelt. `Layout.plain` is the reading form
used in messages and keys; `Layout.json` the form of documents.
-/

namespace DynamicObjects.Number

/-- The choices of one decimal text form. -/
structure Layout where
  /-- Whether a leading digit counting `10 ^ e` is written without an exponent. -/
  positional : Int → Bool
  /-- What follows a whole number. -/
  wholeSuffix : String
  /-- How a tie between two shortest decimals goes. -/
  tie : Tie
  /-- The text for no number. -/
  nan : String
  /-- The text for positive infinity. -/
  infinity : String
  /-- The text for negative infinity. -/
  negInfinity : String

/-- Messages and keys: never an exponent, whole numbers bare. -/
def Layout.plain : Layout where
  positional := fun _ => true
  wholeSuffix := ""
  tie := .away
  nan := "NaN"
  infinity := "inf"
  negInfinity := "-inf"

/-- Documents: an exponent below `10 ^ (-5)` and from `10 ^ 16` on, whole numbers end
in `.0`, and what is not finite is written `null`. -/
def Layout.json : Layout where
  positional := fun e => -5 ≤ e && e < 16
  wholeSuffix := ".0"
  tie := .even
  nan := "null"
  infinity := "null"
  negInfinity := "null"

/-- The decimal digits of a number. -/
def digitText (n : Nat) : String := String.ofList (Nat.toDigits 10 n)

/-- A whole number, with its sign. -/
def integerText (n : Int) : String :=
  if n < 0 then "-" ++ digitText n.natAbs else digitText n.natAbs

/-- A run of zeros. -/
def zeros (n : Nat) : String := String.ofList (List.replicate n '0')

namespace Layout

/-- Digits in place: `digits` are the significant digits and `lead` is the exponent
of the first one. -/
def positionalText (layout : Layout) (digits : String) (lead : Int) : String :=
  if lead < 0 then "0." ++ zeros (-lead - 1).toNat ++ digits
  else
    let wholeCount := lead.toNat + 1
    if digits.length ≤ wholeCount then
      digits ++ zeros (wholeCount - digits.length) ++ layout.wholeSuffix
    else String.ofList (digits.toList.take wholeCount) ++ "." ++
      String.ofList (digits.toList.drop wholeCount)

/-- One digit, the others after a point, then the exponent with its sign. -/
def exponentText (digits : String) (lead : Int) : String :=
  let mantissa :=
    if digits.length ≤ 1 then digits
    else String.ofList (digits.toList.take 1) ++ "." ++ String.ofList (digits.toList.drop 1)
  mantissa ++ "e" ++ (if lead < 0 then "-" else "+") ++ digitText lead.natAbs

/-- The text of a double. -/
def text (layout : Layout) (x : Binary64) : String :=
  if x.isNaN then layout.nan
  else
    let sign := if x.isNegative then "-" else ""
    if !x.isFinite then if x.isNegative then layout.negInfinity else layout.infinity
    else if x.isZero then sign ++ "0" ++ layout.wholeSuffix
    else
      let d := (x.shortest layout.tie).trim
      let digits := digitText d.digits
      let lead := d.exponent + ((digits.length - 1 : Nat) : Int)
      sign ++ (if layout.positional lead then layout.positionalText digits lead
        else exponentText digits lead)

end Layout

end DynamicObjects.Number
