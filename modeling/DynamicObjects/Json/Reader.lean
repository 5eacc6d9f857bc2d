import DynamicObjects.Entries.Draft
import DynamicObjects.Json.Tree
import DynamicObjects.Number.Numeral

/-!
# Reading documents

A reader takes characters from the front of a list and gives what it read together
with the rest, or nothing when the text is not of its form. `Strictness` separates a
document that is used from one that is only passed over: a strict reader bounds the
nesting, wants every escape to stand for a character and every number to be within
the doubles; a lax one checks the form alone.

* `Json.parse?` reads a whole text strictly.
* `Json.Reader.value` reads one value.
-/

namespace DynamicObjects.Json

open Number

namespace Reader

/-! ## Blanks and words -/

/-- Blanks between the parts of a document. -/
def isBlank (c : Char) : Bool := c == ' ' || c == '\n' || c == '\t' || c == '\r'

/-- The text after leading blanks. -/
def skipBlanks (text : List Char) : List Char := text.dropWhile isBlank

/-- The text after a given word at its front. -/
def word (expected text : List Char) : Option (List Char) :=
  if expected.isPrefixOf text then some (text.drop expected.length) else none

/-- Leading decimal digits, as numbers. -/
def digits (text : List Char) : List Nat × List Char :=
  ((text.takeWhile Char.isDigit).map fun c => c.toNat - '0'.toNat, text.dropWhile Char.isDigit)

/-! ## Numbers -/

/-- Leading digits, at least one. -/
def someDigits (text : List Char) : Option (List Nat × List Char) :=
  match digits text with
  | ([], _) => none
  | read => some read

/-- The number that a list of digits writes. -/
def digitsValue (ds : List Nat) : Nat := ds.foldl (fun n d => 10 * n + d) 0

/-- Whole digits: a zero alone, or digits that do not start with zero. -/
def wholeDigits (text : List Char) : Option (List Nat × List Char) :=
  match someDigits text with
  | some (0 :: _ :: _, _) => none
  | read => read

/-- The fraction after a point, if there is one. -/
def fraction : List Char → Option (Option (List Nat) × List Char)
  | '.' :: rest => (someDigits rest).map fun (ds, rest) => (some ds, rest)
  | text => some (none, text)

/-- The exponent after its letter, if there is one. -/
def exponent : List Char → Option (Option Int × List Char)
  | c :: rest =>
    if c = 'e' ∨ c = 'E' then
      match rest with
      | '-' :: rest => (someDigits rest).map fun (ds, rest) => (some (-(digitsValue ds : Int)), rest)
      | '+' :: rest => (someDigits rest).map fun (ds, rest) => (some (digitsValue ds : Int), rest)
      | rest => (someDigits rest).map fun (ds, rest) => (some (digitsValue ds : Int), rest)
    else some (none, c :: rest)
  | [] => some (none, [])

def numeral (text : List Char) : Option (Numeral × List Char) := do
  let (negative, text) := match text with
    | '-' :: rest => (true, rest)
    | text => (false, text)
  let (whole, text) ← wholeDigits text
  let (fraction, text) ← fraction text
  let (exponent, text) ← exponent text
  return (⟨negative, whole, fraction, exponent⟩, text)

/-! ## Strings -/

/-- How closely a document is checked. -/
inductive Strictness where
  /-- The value is used. -/
  | strict
  /-- The value is passed over. -/
  | lax
  deriving DecidableEq

/-- The value of a digit of base sixteen, in either case. -/
def hexValue (c : Char) : Option Nat :=
  if '0' ≤ c ∧ c ≤ '9' then some (c.toNat - '0'.toNat)
  else if 'a' ≤ c ∧ c ≤ 'f' then some (c.toNat - 'a'.toNat + 10)
  else if 'A' ≤ c ∧ c ≤ 'F' then some (c.toNat - 'A'.toNat + 10)
  else none

/-- Four digits of base sixteen. -/
def hexUnit : List Char → Option (Nat × List Char)
  | a :: b :: c :: d :: rest => do
    return (((← hexValue a) * 16 + (← hexValue b)) * 256 + ((← hexValue c) * 16 + (← hexValue d)),
      rest)
  | _ => none

/-- The character of an escape by code units. A first half of a pair needs its second
half in the next escape, and a second half cannot stand alone; passed over, any unit
will do. -/
def unitEscape (strictness : Strictness) (text : List Char) : Option (Char × List Char) := do
  let (unit, rest) ← hexUnit text
  if strictness = .lax then return ('\uFFFD', rest)
  if unit < 0xD800 ∨ 0xE000 ≤ unit then return (Char.ofNat unit, rest)
  if 0xDC00 ≤ unit then none
  match rest with
  | '\\' :: 'u' :: rest =>
    let (low, rest) ← hexUnit rest
    if 0xDC00 ≤ low ∧ low < 0xE000 then
      return (Char.ofNat (0x10000 + (unit - 0xD800) * 0x400 + (low - 0xDC00)), rest)
    else none
  | _ => none

/-- The character after a backslash. -/
def escape (strictness : Strictness) : List Char → Option (Char × List Char)
  | '"' :: rest => some ('"', rest)
  | '\\' :: rest => some ('\\', rest)
  | '/' :: rest => some ('/', rest)
  | 'b' :: rest => some (Char.ofNat 8, rest)
  | 'f' :: rest => some (Char.ofNat 12, rest)
  | 'n' :: rest => some ('\n', rest)
  | 'r' :: rest => some ('\r', rest)
  | 't' :: rest => some ('\t', rest)
  | 'u' :: rest => unitEscape strictness rest
  | _ => none

/-- The characters up to the closing quote, last one first. Control characters must be
escaped. The fuel bounds the number of characters. -/
def stringBody (strictness : Strictness) : Nat → List Char → List Char →
    Option (List Char × List Char)
  | 0, _, _ => none
  | _ + 1, _, [] => none
  | _ + 1, read, '"' :: rest => some (read, rest)
  | fuel + 1, read, '\\' :: rest => do
    let (c, rest) ← escape strictness rest
    stringBody strictness fuel (c :: read) rest
  | fuel + 1, read, c :: rest =>
    if c.toNat < 32 then none else stringBody strictness fuel (c :: read) rest

/-- A string, from the character after its opening quote. The fuel bounds the number of
characters. -/
def string (strictness : Strictness) (fuel : Nat) (text : List Char) :
    Option (String × List Char) :=
  (stringBody strictness fuel [] text).map fun (read, rest) => (String.ofList read.reverse, rest)

/-! ## Values -/

/-- The value of a numeral; passed over, its size does not matter. -/
def number (strictness : Strictness) (text : List Char) : Option (Json × List Char) := do
  let (n, rest) ← numeral text
  match n.read with
  | some (.integer n) => return (.integer n, rest)
  | some (.real x) => return (.real x, rest)
  | none => if strictness = .lax then return (.null, rest) else none

/-- The containers that a strict document may nest. -/
def nestingLimit : Nat := 127

mutual

/-- One value after blanks. `depth` counts the containers around it and the fuel bounds
the steps. -/
def value (strictness : Strictness) : Nat → Nat → List Char → Option (Json × List Char)
  | 0, _, _ => none
  | fuel + 1, depth, text =>
    match skipBlanks text with
    | '[' :: rest =>
      if strictness = .strict ∧ nestingLimit ≤ depth then none
      else match skipBlanks rest with
        | ']' :: rest => some (.array [], rest)
        | rest => (elements strictness fuel (depth + 1) rest).map fun (items, rest) =>
            (.array items, rest)
    | '\x7b' :: rest =>
      if strictness = .strict ∧ nestingLimit ≤ depth then none
      else match skipBlanks rest with
        | '\x7d' :: rest => some (.object [], rest)
        | rest => (members strictness fuel (depth + 1) rest).map fun (entries, rest) =>
            (.object (Entries.ofList entries), rest)
    | '"' :: rest => (string strictness fuel rest).map fun (s, rest) => (.string s, rest)
    | 't' :: rest => (word ['r', 'u', 'e'] rest).map fun rest => (.boolean true, rest)
    | 'f' :: rest => (word ['a', 'l', 's', 'e'] rest).map fun rest => (.boolean false, rest)
    | 'n' :: rest => (word ['u', 'l', 'l'] rest).map fun rest => (.null, rest)
    | text => number strictness text

/-- The items of an array up to its bracket: a value, then a comma and more items. -/
def elements (strictness : Strictness) : Nat → Nat → List Char → Option (List Json × List Char)
  | 0, _, _ => none
  | fuel + 1, depth, text => do
    let (item, rest) ← value strictness fuel depth text
    match skipBlanks rest with
    | ',' :: rest =>
      let (items, rest) ← elements strictness fuel depth rest
      return (item :: items, rest)
    | ']' :: rest => return ([item], rest)
    | _ => none

/-- The entries of an object up to its brace: a key, a colon and a value, then a comma
and more entries. -/
def members (strictness : Strictness) :
    Nat → Nat → List Char → Option (List (String × Json) × List Char)
  | 0, _, _ => none
  | fuel + 1, depth, text =>
    match skipBlanks text with
    | '"' :: rest => do
      let (key, rest) ← string strictness fuel rest
      match skipBlanks rest with
      | ':' :: rest =>
        let (item, rest) ← value strictness fuel depth rest
        match skipBlanks rest with
        | ',' :: rest =>
          let (entries, rest) ← members strictness fuel depth rest
          return ((key, item) :: entries, rest)
        | '\x7d' :: rest => return ([(key, item)], rest)
        | _ => none
      | _ => none
    | _ => none

end

/-- Steps that suffice for a text and for the strings in it: each step takes a character
or goes one call deeper before taking one. -/
def steps (text : List Char) : Nat := 2 * text.length + 2

end Reader

/-- The document that a whole text writes, if it writes one. -/
def parse? (text : String) : Option Json :=
  match Reader.value .strict (Reader.steps text.toList) 0 text.toList with
  | some (document, rest) => if Reader.skipBlanks rest = [] then some document else none
  | none => none

end DynamicObjects.Json
