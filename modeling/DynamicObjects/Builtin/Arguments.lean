import DynamicObjects.Collections.Order
import DynamicObjects.Collections.Transform

/-!
# Arguments of named operations

Checks on the number and the types of arguments, and the two ways in which an
operation takes a value apart: into entries, or into a flat list of elements.
-/

namespace DynamicObjects

namespace Builtin

/-- Fails unless the number of arguments is right. -/
def checkCount (b : Builtin) (args : List Value) : Eval Unit :=
  if args.length < b.fewest ∨ b.most < args.length then
    Eval.fail (.arity b.name b.fewest b.most args.length b.signature)
  else return ()

/-- How messages call an argument. -/
def role : Nat → String
  | 0 => "first argument"
  | 1 => "second argument"
  | _ => "third argument"

/-- The failure of an argument of the wrong type. -/
def typeFailure (b : Builtin) (role expected : String) (got : Value) : Failure :=
  .type b.name role expected got.typeName b.signature

end Builtin

/-- The argument at a position, missing beyond the end. -/
def argumentAt (args : List Value) (i : Nat) : Value := args[i]?.getD .undefined

/-- The argument at a position that has to be there. -/
def argument (args : List Value) (i : Nat) : Eval Value :=
  match args[i]? with
  | some v => return v
  | none => Eval.stuck .outOfRange

/-- The argument at a position, unless it is missing or absent. -/
def optionalAt (args : List Value) (i : Nat) : Option Value :=
  (args[i]?).filter fun v => !v.isAbsent

/-- A whole number at a position. -/
def integerAt (b : Builtin) (args : List Value) (i : Nat) : Eval Int64 := do
  match (← argument args i) with
  | .integer n => return n
  | other => Eval.fail (b.typeFailure (Builtin.role i) "Int" other)

/-- A whole number at a position that may be left out. -/
def optionalIntegerAt (b : Builtin) (args : List Value) (i : Nat) : Eval (Option Int64) :=
  match optionalAt args i with
  | none => return none
  | some _ => do return some (← integerAt b args i)

/-- A function at a position. -/
def functionAt (b : Builtin) (args : List Value) (i : Nat) : Eval Function := do
  match (← argument args i) with
  | .function f => return f
  | other => Eval.fail (b.typeFailure (Builtin.role i) "Function" other)

/-- A function at a position that may be left out. -/
def optionalFunctionAt (b : Builtin) (args : List Value) (i : Nat) : Eval (Option Function) :=
  match optionalAt args i with
  | none => return none
  | some _ => do return some (← functionAt b args i)

/-- Whether a flag at a position is set. -/
def flagAt (args : List Value) (i : Nat) : Bool := ((optionalAt args i).map Value.isTruthy).getD false

/-! ## Callbacks and reports -/

/-- Calls a function with an element and its position. -/
def callVisit [Host] (f : Function) (v : Value) (key : Key) : Eval Value :=
  Host.call f [v, key.toValue]

/-- Whether a function answers true for an element and its position. -/
def callTest [Host] (f : Function) (v : Value) (key : Key) : Eval Bool := do
  return (← callVisit f v key).isTruthy

/-- Reports that an operation does not apply to a value, and answers something else. -/
def reportUnsupported (b : Builtin) (v fallback : Value) : Eval Value := do
  Eval.report .error (Failure.unsupportedType b.name v.typeName).message
  return fallback

/-! ## Taking values apart -/

/-- The entries of a container, or the properties of an instance that is none. -/
def entriesOf? [Host] (v : Value) : Eval (Option (List (Key × Value))) := do
  match (← v.kind), v with
  | .sequence, _ | .associative, _ | .generic, _ => return some (← collect v)
  | .instanceKind, .inst i => return some (namedEntries (← Eval.reads fun w => w.properties i))
  | _, _ => return none

/-- The elements of a sequence or a generic iterable. -/
def elementsOf? [Host] (v : Value) : Eval (Option (List Value)) := do
  if (← v.kind).isListLike then return some ((← collect v).map Prod.snd) else return none

/-- Whether a list holds a value equal to another. -/
def holdsEqual [Host] (needle : Value) : List Value → Eval Bool
  | [] => return false
  | v :: rest => do if ← v.equals needle then return true else holdsEqual needle rest

end DynamicObjects
