import DynamicObjects.Entries
import DynamicObjects.Script.Expr
import DynamicObjects.Value.Node

/-!
# Values

What scripts compute with. Data is structural; functions, classes, instances and
foreign iterables have an identity.
-/

namespace DynamicObjects

open Number Script

/-! ## Functions -/

/-- What runs when a function is called. -/
inductive Code where
  | script (body : Expr)
  /-- A named operation. -/
  | builtin (b : Builtin)
  /-- A member looked up on a receiver, which does not keep the receiver alive. The
  receiver may be passed as a last argument too. -/
  | bound (receiver : InstanceRef) (member : String) (appendsReceiver : Bool)

/-- A function. Two functions are the same when their numbers are. -/
structure Function where
  id : Nat
  name : String
  code : Code

/-! ## Values -/

private theorem sizeOf_snd_lt_of_mem {α β : Type} [SizeOf α] [SizeOf β] {entry : α × β}
    {entries : List (α × β)} (h : entry ∈ entries) : sizeOf entry.2 < sizeOf entries := by
  have := List.sizeOf_lt_of_mem h
  cases entry
  simp only [Prod.mk.sizeOf_spec] at this ⊢
  omega

inductive Value where
  /-- A missing value. -/
  | undefined
  /-- The explicit absence of a value. -/
  | none
  | boolean (b : Bool)
  | integer (n : Int64)
  | float (x : Binary64)
  | string (s : String)
  | array (items : List Value)
  | typed (items : TypedArray)
  /-- A map with string keys in insertion order. -/
  | map (entries : List (String × Value))
  /-- A foreign container that is a table: it only tells its length and its elements one by
  one. The length may fail; so may single positions. Beyond the items it holds nothing. -/
  | iterable (id : Nat) (label : String) (length : Nat) (items : List Value)
      (lengthFault : Option Value) (faults : List (Nat × Value))
  /-- A foreign container that the host takes apart. What it holds and the state that it keeps
  are those of an instance. -/
  | foreign (i : InstanceRef)
  | function (f : Function)
  | cls (c : ClassRef)
  | inst (i : InstanceRef)
with
  /-- The classes and instances that a value holds. They are kept with the value, so that
  one with the same part in many places is not gone through again. -/
  @[computed_field] nodes : Value → NodeSet
    | .cls c => {.cls c}
    | .inst i => {.inst i}
    | .foreign i => {.inst i}
    | .array items => NodeSet.gather (fun ⟨v, _⟩ => nodes v) items.attach
    | .map entries =>
      NodeSet.gather (fun ⟨entry, h⟩ =>
        have := sizeOf_snd_lt_of_mem h
        nodes entry.2) entries.attach
    | .iterable _ _ _ items lengthFault faults =>
      NodeSet.gather (fun ⟨v, _⟩ => nodes v) items.attach ∪
        (NodeSet.gather (fun ⟨v, _⟩ => nodes v) lengthFault.attach.toList ∪
          NodeSet.gather (fun ⟨fault, h⟩ =>
            have := sizeOf_snd_lt_of_mem h
            nodes fault.2) faults.attach)
    | .undefined => ∅
    | .none => ∅
    | .boolean _ => ∅
    | .integer _ => ∅
    | .float _ => ∅
    | .string _ => ∅
    | .typed _ => ∅
    | .function _ => ∅
  /-- The items of an array or of an iterable once more, for access by position. -/
  @[computed_field] elements : Value → Array Value
    | .array items => items.toArray
    | .iterable _ _ _ items _ _ => items.toArray
    | .undefined => #[]
    | .none => #[]
    | .boolean _ => #[]
    | .integer _ => #[]
    | .float _ => #[]
    | .string _ => #[]
    | .typed _ => #[]
    | .map _ => #[]
    | .function _ => #[]
    | .cls _ => #[]
    | .inst _ => #[]
    | .foreign _ => #[]

instance : Inhabited Value := ⟨.undefined⟩

/-- The elements of a typed array, widened. -/
def TypedArray.values : TypedArray → List Value
  | int8 items => items.map fun n => .integer n.toInt64
  | int16 items => items.map fun n => .integer n.toInt64
  | int32 items => items.map fun n => .integer n.toInt64
  | float32 items => items.map fun x => .float x.widen
  | float64 items => items.map .float

/-- The element at a position of a typed array, widened. -/
def TypedArray.get? (i : Nat) : TypedArray → Option Value
  | int8 items => items[i]?.map fun n => .integer n.toInt64
  | int16 items => items[i]?.map fun n => .integer n.toInt64
  | int32 items => items[i]?.map fun n => .integer n.toInt64
  | float32 items => items[i]?.map fun x => .float x.widen
  | float64 items => items[i]?.map .float

theorem TypedArray.get?_eq (i : Nat) (items : TypedArray) : items.get? i = items.values[i]? := by
  cases items <;> simp [get?, values]

namespace Value

/-! ## What a value holds -/

theorem nodes_array (items : List Value) : (array items).nodes = NodeSet.gather nodes items := by
  rw [nodes]
  exact NodeSet.gather_attach nodes items

theorem nodes_map (entries : List (String × Value)) :
    (map entries).nodes = NodeSet.gather (fun entry => entry.2.nodes) entries := by
  rw [nodes]
  exact NodeSet.gather_attach (fun entry => entry.2.nodes) entries

theorem nodes_iterable (id : Nat) (label : String) (length : Nat) (items : List Value)
    (lengthFault : Option Value) (faults : List (Nat × Value)) :
    (iterable id label length items lengthFault faults).nodes =
      NodeSet.gather nodes items ∪ (NodeSet.gather nodes lengthFault.toList ∪
        NodeSet.gather (fun fault => fault.2.nodes) faults) := by
  rw [nodes, ← NodeSet.gather_attach nodes items,
    ← NodeSet.gather_attach (fun fault => fault.2.nodes) faults]
  cases lengthFault <;> rfl

@[simp] theorem elements_array (items : List Value) : (array items).elements = items.toArray := by
  simp [elements]

@[simp]
theorem elements_iterable (id : Nat) (label : String) (length : Nat) (items : List Value)
    (lengthFault : Option Value) (faults : List (Nat × Value)) :
    (iterable id label length items lengthFault faults).elements = items.toArray := by
  simp [elements]

/-! ## Views of a value -/

/-- A count as a value. -/
def ofNat (n : Nat) : Value := .integer (Int64.ofNat n)

/-- The type label used in messages. -/
def typeName : Value → String
  | undefined => "Undefined"
  | none => "None"
  | boolean _ => "Bool"
  | integer _ => "Int"
  | float _ => "Float"
  | string _ => "String"
  | array _ => "Array"
  | typed items => items.typeName
  | map _ => "Map"
  | iterable .. | foreign _ => "Iterable"
  | function _ => "Function"
  | cls _ => "Class"
  | inst _ => "Instance"

/-- The coarse type label that scripts see. -/
def typeLabel : Value → String
  | undefined => "undefined"
  | none => "none"
  | boolean _ => "boolean"
  | integer _ | float _ => "number"
  | string _ => "string"
  | array _ | typed _ => "list"
  | map _ => "map"
  | iterable .. | foreign _ => "iterable"
  | function _ => "function"
  | cls _ => "class"
  | inst _ => "instance"

/-- Whether the value counts as true: missing and absent values, false, zero, what is
no number, and the empty string do not. -/
def isTruthy : Value → Bool
  | undefined | none => false
  | boolean b => b
  | integer n => n != 0
  | float x => !x.isZero && !x.isNaN
  | string s => s != ""
  | _ => true

/-- Whether the value is there. -/
def isDefined : Value → Bool
  | undefined => false
  | _ => true

/-- Whether the value is missing or absent. -/
def isAbsent : Value → Bool
  | undefined | none => true
  | _ => false

/-- What a foreign table raises at a position, if it fails there. -/
def faultAt? (faults : List (Nat × Value)) (i : Nat) : Option Value :=
  (faults.find? fun fault => fault.1 == i).map Prod.snd

end Value

/-! ## Positions -/

/-- Where an element stands in a container: sequences count, maps name. -/
inductive Key where
  | index (i : Nat)
  | name (s : String)
  deriving DecidableEq, Repr

namespace Key

/-- The position as a value. -/
def toValue : Key → Value
  | index i => Value.ofNat i
  | name s => .string s

/-- The position as a key of a map. -/
def toName : Key → String
  | index i => digitText i
  | name s => s

/-- The position as it is displayed. -/
def display : Key → String
  | index i => digitText i
  | name s => "\"" ++ s ++ "\""

end Key

end DynamicObjects
