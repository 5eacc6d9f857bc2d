import DynamicObjects.Builtin.Arguments

/-!
# Types and lengths

The operations that only look at what a value is.
-/

namespace DynamicObjects

/-- Whether a value is an object for scripts: absence, containers and instances are. -/
def Value.isObject : Value → Bool
  | .none | .array _ | .typed _ | .map _ | .iterable .. | .foreign _ | .inst _ => true
  | _ => false

/-- Whether a value is a number. -/
def Value.isNumber : Value → Bool
  | .integer _ | .float _ => true
  | _ => false

/-- Whether a value is a string. -/
def Value.isString : Value → Bool
  | .string _ => true
  | _ => false

/-- Whether a value is a function. -/
def Value.isFunction : Value → Bool
  | .function _ => true
  | _ => false

/-- Whether a value is an instance, and of a class when one is given. -/
def World.isInstance (w : World) (v : Value) : Option ClassRef → Bool
  | some c => w.hasInstance c v
  | none => match v with
    | .inst _ => true
    | _ => false

/-- The class of an instance, or a class itself. -/
def Value.classOf? : Value → Option ClassRef
  | .inst i => some i.cls
  | .cls c => some c
  | _ => Option.none

namespace Builtin

/-- Whether a value is an instance, perhaps of a class. -/
def runIsInstance (v : Value) (args : List Value) : Eval Value := do
  match optionalAt args 1 with
  | none => return .boolean (← Eval.reads fun w => w.isInstance v none)
  | some (.cls c) => return .boolean (← Eval.reads fun w => w.isInstance v (some c))
  | some other => Eval.fail (isInstance.typeFailure (role 1) "Class" other)

end Builtin

end DynamicObjects
