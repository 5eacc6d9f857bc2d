import DynamicObjects.Entries.Draft
import DynamicObjects.Json.Tree
import DynamicObjects.Number.Rounding
import DynamicObjects.Value.Basic

/-!
# Values and documents

Every document is a value: `Value.ofJson`. A value is written as a document by leaving
out what documents do not have. Missing values, functions, classes, foreign iterables
and floats that are not finite become `null`; typed arrays become arrays, instances
the object of their properties.
-/

namespace DynamicObjects.Value

open Number

/-! ## From documents -/

mutual

/-- The value of a document. A whole number beyond sixty-four bits is a float. -/
def ofJson : Json → Value
  | .null => none
  | .boolean b => boolean b
  | .integer n =>
    if Int64.minValue.toInt ≤ n ∧ n ≤ Int64.maxValue.toInt then integer (Int64.ofInt n)
    else float (Binary64.ofInt n)
  | .real x => float x
  | .string s => string s
  | .array items => array (ofJsonItems items)
  | .object entries => map (Entries.ofList (ofJsonEntries entries))

/-- The values of array items. -/
def ofJsonItems : List Json → List Value
  | [] => []
  | item :: rest => ofJson item :: ofJsonItems rest

/-- The values of object entries. -/
def ofJsonEntries : List (String × Json) → List (String × Value)
  | [] => []
  | (key, item) :: rest => (key, ofJson item) :: ofJsonEntries rest

end

/-! ## To documents -/

/-- A float as a document. -/
def floatToJson (x : Binary64) : Json := if x.isFinite then .real x else .null

/-- The items of a typed array as documents. -/
def typedToJson : TypedArray → List Json
  | .int8 items => items.map fun n => .integer n.toInt
  | .int16 items => items.map fun n => .integer n.toInt
  | .int32 items => items.map fun n => .integer n.toInt
  | .float32 items => items.map fun x => floatToJson x.widen
  | .float64 items => items.map floatToJson

variable (expand : InstanceRef → Option Json)

mutual

/-- The document of a value, given the documents of instances, if they have one. -/
def toJson? : Value → Option Json
  | undefined | none | iterable .. | foreign _ | function _ | cls _ => some .null
  | boolean b => some (.boolean b)
  | integer n => some (.integer n.toInt)
  | float x => some (floatToJson x)
  | string s => some (.string s)
  | array items => (toJsonItems? items).map .array
  | typed items => some (.array (typedToJson items))
  | map entries => (toJsonEntries? entries).map .object
  | inst i => expand i

/-- The documents of several values. -/
def toJsonItems? : List Value → Option (List Json)
  | [] => some []
  | v :: rest => do return (← toJson? v) :: (← toJsonItems? rest)

/-- The documents of entries. -/
def toJsonEntries? : List (String × Value) → Option (List (String × Json))
  | [] => some []
  | (key, v) :: rest => do return (key, ← toJson? v) :: (← toJsonEntries? rest)

end

end DynamicObjects.Value
