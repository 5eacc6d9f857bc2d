import DynamicObjects.Inspection
import DynamicObjects.Script.Operands

/-!
# Forms on values and on the session

Arithmetic wraps at sixty-four bits, and an operation on anything but whole numbers
gives a missing value. The remainder is never negative.
-/

namespace DynamicObjects.Script

/-- An operation on whole numbers. -/
def onIntegers (f : Int64 → Int64 → Value) : Value → Value → Value
  | .integer a, .integer b => f a b
  | _, _ => .undefined

/-- The remainder between zero and the size of the divisor, missing for a divisor zero. -/
def remainder (a b : Int64) : Value :=
  if b = 0 then .undefined else .integer (Int64.ofInt (a.toInt.emod b.toInt))

/-- Whether two handles are one, or two values equal. -/
def sameItem : Item → Item → Bool
  | .value a, .value b => a.same b
  | .handle (.boundMethod a), .handle (.boundMethod b) => a.id == b.id
  | .handle (.boundOperation a), .handle (.boundOperation b) => a.id == b.id
  | .handle (.proxy a), .handle (.proxy b) => a.id == b.id
  | .handle (.method a), .handle (.method b) => a.id == b.id
  | .handle (.operation a), .handle (.operation b) => a.id == b.id
  | .handle (.member (.method a)), .handle (.member (.method b)) => a.id == b.id
  | .handle (.member (.operation a)), .handle (.member (.operation b)) => a.id == b.id
  | .handle (.registry a), .handle (.registry b) => a == b
  | _, _ => false

/-- The one-word form of a handle or a function. -/
def briefText : Item → Option String
  | .handle (.boundMethod b) => some ("BoundMethod(" ++ b.name ++ ")")
  | .handle (.proxy p) => some ("SuperProxy(" ++ p.cls.displayName ++ ")")
  | .handle (.method routine) => some ("Method(" ++ routine.name ++ ")")
  | .handle (.operation routine) => some ("Operation(" ++ routine.name ++ ")")
  | .value (.function f) => some ("Function(" ++ f.name ++ ")")
  | _ => none

/-- The key that a value stands for. A negative number stands for the position that is
written with the same bits. -/
def keyOf : Value → Option Key
  | .integer n => some (.index n.toUInt64.toNat)
  | .string s => some (.name s)
  | _ => none

/-- The parts of a key. -/
def describeKey (key : Key) : Value :=
  .map [("display", .string key.display),
    ("index", match key with
      | .index i => Value.ofNat i
      | .name _ => .undefined),
    ("name", .string key.toName), ("value", key.toValue)]

/-- Pairs up keys and values. -/
def pairUp : List Value → Option (List (String × Value))
  | [] => some []
  | [_] => none
  | key :: v :: rest => (pairUp rest).map ((key.text, v) :: ·)

/-- Runs a form on values. -/
def actOnValues [Host] (form : ValueForm) (operands : List Item) : Eval Item := do
  match form, operands with
  | .proceed, [] => return .flow .proceed
  | .stop, [] => return .flow .stop
  | .answer, [x] => return .flow (.answer (← x.toValue))
  | .accumulate, [acc, answer] => return .folded (← acc.toValue) (← answer.toValue)
  | .raise, [x] => Eval.fail (.raised (← x.toValue))
  | .trace, [x] =>
    let seen ← Eval.reads fun w => w.snapshotItem x
    Eval.modify fun w => { w with trace := w.trace.push seen }
    return x
  | .makeArray, xs => return .value (.array (← Item.toValues xs))
  | .makeMap, xs =>
    let pairs ← Eval.ofOption (pairUp (← Item.toValues xs))
    return .value (.map (Entries.ofList pairs))
  | .add, [a, b] =>
    return .value (onIntegers (fun a b => .integer (a + b)) (← a.toValue) (← b.toValue))
  | .subtract, [a, b] =>
    return .value (onIntegers (fun a b => .integer (a - b)) (← a.toValue) (← b.toValue))
  | .multiply, [a, b] =>
    return .value (onIntegers (fun a b => .integer (a * b)) (← a.toValue) (← b.toValue))
  | .modulo, [a, b] => return .value (onIntegers remainder (← a.toValue) (← b.toValue))
  | .join, xs =>
    let values ← Item.toValues xs
    return Item.ofString (String.join (values.map Value.text))
  | .render, [x] => return Item.ofString (← x.toValue).display
  | .truthy, [x] => return Item.ofBool x.isTruthy
  | .toJson, [x] => return Item.ofString (← (← x.toValue).compact)
  | .equal, [a, b] => return Item.ofBool ((← a.toValue).same (← b.toValue))
  | .same, [a, b] => return Item.ofBool (sameItem a b)
  | .call b, xs => return .value (← b.apply (← Item.toValues xs))
  | .apply, f :: xs =>
    match (← f.toValue) with
    | .function f => return .value (← Host.call f (← Item.toValues xs))
    | _ => Eval.illFormed
  | .key, [x] => return .value (describeKey (← Eval.ofOption (keyOf (← x.toValue))))
  | .brief, [x] => return Item.ofString (← Eval.ofOption (briefText x))
  | .builtinBrief, [x] =>
    return Item.ofOption (fun b => Item.ofString ("BuiltinFunction(" ++ b.name ++ ")"))
      (Builtin.ofName? (← x.toString))
  | .builtinEqual, [a, b] =>
    return Item.ofBool (Builtin.ofName? (← a.toString) == Builtin.ofName? (← b.toString))
  | _, _ => Eval.illFormed

/-- Runs a form on the session. A report of a level that is no level is the context of an
exception. -/
def actOnSession (form : SessionForm) (operands : List Item) : Eval Item := do
  match form, operands with
  | .activeSettings, [] => return Item.ofString (← Eval.scope).settings.toJson.compact
  | .report, [level, text] =>
    let text ← text.toString
    match (← level.toString) with
    | "warn" => Eval.report .warn text
    | "error" => Eval.report .error text
    | "debug" => Eval.report .debug text
    | context => Eval.reportException context (.raised (.string text))
    return Item.missing
  | _, _ => Eval.illFormed

end DynamicObjects.Script
