import DynamicObjects.Entries
import DynamicObjects.Number.Layout

/-!
# Document trees and their text

`Json` is a document: objects keep their keys in order. `Json.compact` writes it
without blanks, `Json.pretty` one entry a line and two spaces a level, with empty
containers closed at once.
-/

namespace DynamicObjects

open Number

/-- A document. -/
inductive Json where
  | null
  | boolean (b : Bool)
  | integer (n : Int)
  | real (x : Binary64)
  | string (s : String)
  | array (items : List Json)
  | object (entries : List (String × Json))
  deriving Repr

namespace Json

/-! ## Text of strings -/

/-- A digit of base sixteen, in lower case. -/
def hexDigit (n : Nat) : Char := (Nat.digitChar n)

/-- How a character is written between quotes. -/
def escapeChar (c : Char) : List Char :=
  match c with
  | '"' => ['\\', '"']
  | '\\' => ['\\', '\\']
  | '\n' => ['\\', 'n']
  | '\r' => ['\\', 'r']
  | '\t' => ['\\', 't']
  | c =>
    if c.toNat = 8 then ['\\', 'b']
    else if c.toNat = 12 then ['\\', 'f']
    else if c.toNat < 32 then
      ['\\', 'u', '0', '0', hexDigit (c.toNat / 16), hexDigit (c.toNat % 16)]
    else [c]

/-- A string between quotes. -/
def quote (s : String) : String :=
  "\"" ++ String.ofList (s.toList.flatMap escapeChar) ++ "\""

/-! ## Compact text -/

mutual

/-- The document on one line, without blanks. -/
def compact : Json → String
  | null => "null"
  | boolean b => if b then "true" else "false"
  | integer n => integerText n
  | real x => Layout.json.text x
  | string s => quote s
  | array items => "[" ++ ",".intercalate (compactItems items) ++ "]"
  | object entries => "\x7b" ++ ",".intercalate (compactEntries entries) ++ "\x7d"

/-- The texts of array items. -/
def compactItems : List Json → List String
  | [] => []
  | item :: rest => compact item :: compactItems rest

/-- The texts of object entries. -/
def compactEntries : List (String × Json) → List String
  | [] => []
  | (key, value) :: rest => (quote key ++ ":" ++ compact value) :: compactEntries rest

end

/-! ## Indented text -/

/-- A new line at a depth of two spaces a level. -/
def newLine (depth : Nat) : String := "\n" ++ String.ofList (List.replicate (2 * depth) ' ')

/-- Lines between brackets, one level deeper than the brackets. -/
def block (depth : Nat) (opening closing : String) (lines : List String) : String :=
  match lines with
  | [] => opening ++ closing
  | _ => opening ++ newLine (depth + 1) ++ ("," ++ newLine (depth + 1)).intercalate lines
      ++ newLine depth ++ closing

mutual

/-- The document over several lines, at a depth. -/
def prettyAt (depth : Nat) : Json → String
  | array items => block depth "[" "]" (prettyItems (depth + 1) items)
  | object entries => block depth "\x7b" "\x7d" (prettyEntries (depth + 1) entries)
  | null => "null"
  | boolean b => if b then "true" else "false"
  | integer n => integerText n
  | real x => Layout.json.text x
  | string s => quote s

/-- The texts of array items at a depth. -/
def prettyItems (depth : Nat) : List Json → List String
  | [] => []
  | item :: rest => prettyAt depth item :: prettyItems depth rest

/-- The texts of object entries at a depth. -/
def prettyEntries (depth : Nat) : List (String × Json) → List String
  | [] => []
  | (key, value) :: rest => (quote key ++ ": " ++ prettyAt depth value) :: prettyEntries depth rest

end

/-- The document over several lines. -/
def pretty (document : Json) : String := prettyAt 0 document

end Json

end DynamicObjects
