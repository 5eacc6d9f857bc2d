import DynamicObjects.Number.Layout
import DynamicObjects.Value.Basic

/-!
# Values as text

The displayed form of a value, in which strings stand between quotes and are not
escaped, and its plain text, in which a string stands for itself. The plain text is
also the key under which a value enters a map.
-/

namespace DynamicObjects.Value

open Number

/-- The displayed forms of the elements of a typed array. -/
def displayElements : TypedArray → List String
  | .int8 items => items.map fun n => integerText n.toInt
  | .int16 items => items.map fun n => integerText n.toInt
  | .int32 items => items.map fun n => integerText n.toInt
  | .float32 items => items.map fun x => Layout.plain.text x.widen
  | .float64 items => items.map Layout.plain.text

mutual

/-- The displayed form of a value. -/
def display : Value → String
  | undefined => "undefined"
  | none => "None"
  | boolean b => if b then "true" else "false"
  | integer n => integerText n.toInt
  | float x => Layout.plain.text x
  | string s => "\"" ++ s ++ "\""
  | array items => "[" ++ ", ".intercalate (displayItems items) ++ "]"
  | typed items => "[" ++ ", ".intercalate (displayElements items) ++ "]"
  | map entries => "\x7b" ++ ", ".intercalate (displayEntries entries) ++ "\x7d"
  | iterable .. | foreign _ => "<iterable>"
  | function f => "<function " ++ f.name ++ ">"
  | cls c => "<class " ++ c.displayName ++ ">"
  | inst i => "<" ++ i.cls.displayName ++ " instance>"

/-- The displayed forms of several values. -/
def displayItems : List Value → List String
  | [] => []
  | v :: rest => display v :: displayItems rest

/-- The displayed forms of entries, keys between quotes. -/
def displayEntries : List (String × Value) → List String
  | [] => []
  | (key, v) :: rest => ("\"" ++ key ++ "\": " ++ display v) :: displayEntries rest

end

/-- The plain text of a value. -/
def text : Value → String
  | string s => s
  | v => v.display

end DynamicObjects.Value
