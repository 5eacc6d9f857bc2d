import DynamicObjects.Builtin.Search
import DynamicObjects.Builtin.Sets
import DynamicObjects.Builtin.TypeTests
import DynamicObjects.Collections.Sort

/-!
# Calling named operations and functions

`Builtin.apply` checks the number of arguments and runs a named operation on them.
`Function.call` calls any function: a body, a named operation, or a bound method.
-/

namespace DynamicObjects

open Number

/-! ## Sorting by functions -/

/-- The number for an ordering. -/
def orderingValue : Ordering → Value
  | .lt => .integer (-1)
  | .eq => .integer 0
  | .gt => .integer 1

/-- The ordering that a comparison's answer stands for: its sign. What is no number is a
tie among floats, and a failure otherwise. -/
def signOf (answer : Value) : Eval Ordering :=
  match answer with
  | .integer n => return compare n 0
  | .float x => return (x.read.compare? (.finite 0)).getD .eq
  | other => Eval.fail (.type Builtin.sorted.name "comparator result" "Int or Float"
      other.typeName "comparator(a, b) -> number")

/-- The functions of a list, or a failure at the first that is none. -/
def extractorsOf : List Value → Eval (List Function)
  | [] => return []
  | .function f :: rest => do return f :: (← extractorsOf rest)
  | other :: _ => Eval.fail (Builtin.sorted.typeFailure "every extractor" "Function" other)

/-- The comparison that an argument describes: none for the order of values, a function,
or a list of extractors. -/
def comparisonOf [Host] : Option Value → Eval Comparison
  | none => return .natural
  | some (.function f) =>
    return .comparator fun a b => do signOf (← Host.call f [a, b])
  | some (.array items) => do
    let extractors ← extractorsOf items
    return .extractors (extractors.map fun f v => Host.call f [v])
  | some other => Eval.fail
      (Builtin.sorted.typeFailure (Builtin.role 1) "Function or Array of Functions" other)

/-- Folds a container by a function of accumulator, element, position and ordinal. -/
def reduceByFunction [Host] (container : Value) (f : Function) (initial : Option Value) :
    Eval Value :=
  reduceWith (fun acc v key ordinal => do
    return (acc, ← Host.call f [acc, v, key.toValue, Value.ofNat ordinal])) initial container

namespace Builtin

/-! ## Named operations -/

/-- Runs a named operation on as many arguments as it takes. -/
def run [Host] (b : Builtin) (args : List Value) : Eval Value := do
  let v ← argument args 0
  match b with
  | len => return Value.ofNat (← v.length)
  | typeOf => return .string v.typeLabel
  | kindOf => return .string (← v.kind).label
  | isList => return .boolean ((← v.kind) == .sequence)
  | isMap => return .boolean ((← v.kind) == .associative)
  | isIterable => return .boolean (← v.kind).isContainer
  | isFunction => return .boolean v.isFunction
  | isInstance => runIsInstance v args
  | isDefined => return .boolean v.isDefined
  | isUndefined => return .boolean (!v.isDefined)
  | isNumber => return .boolean v.isNumber
  | isString => return .boolean v.isString
  | isObject => return .boolean v.isObject
  | keys => keysOf v
  | values => valuesOf v
  | items => itemsOf v
  | pairs => pairsOf v
  | access => accessValue v (← argument args 1)
  | offset =>
    let i ← integerAt offset args 1
    return .integer (← resolveOffset v i)
  | copy =>
    let depth ← optionalIntegerAt copy args 1
    copyValue (depth.getD 1).toInt.toNat v
  | merge => mergeValues v (argumentAt args 1) (flagAt args 2)
  | find => findEqual v (← argument args 1)
  | findLike => findLikeValue v (← functionAt findLike args 1)
  | findOneOf => findOneOfValues v (← argument args 1)
  | first => firstOf v (← optionalFunctionAt first args 1)
  | last => lastOf v (← optionalFunctionAt last args 1)
  | insert => insertValue v (← integerAt insert args 1) (argumentAt args 2)
  | add => addValue v (argumentAt args 1)
  | remove => removeValue v (argumentAt args 1)
  | removeAt => removePosition v (argumentAt args 1)
  | slice =>
    let start ← optionalIntegerAt slice args 1
    let stop ← optionalIntegerAt slice args 2
    sliceValue v (start.getD 0) stop
  | reverse => reverseValue v
  | isIn =>
    let predicate ← optionalFunctionAt isIn args 2
    return .boolean (← isInContainer v (← argument args 1) predicate)
  | difference => differenceOf v (← argument args 1)
  | union => unionOf v (← argument args 1)
  | intersection => intersectionOf v (← argument args 1)
  | asMap =>
    let extractor ← functionAt asMap args 1
    let replacer ← optionalFunctionAt asMap args 2
    indexBy v extractor replacer
  | couplesAsMap => couplesToMap v
  | itemsAsMap => itemsToMap v
  | map =>
    let f ← functionAt map args 1
    mapElements (callVisit f) v
  | filter =>
    let predicate ← functionAt filter args 1
    match (← optionalFunctionAt filter args 2) with
    | some processor => filterWith (callTest predicate) (callVisit processor) v
    | none => filterElements (callTest predicate) v
  | reduce =>
    let f ← functionAt reduce args 1
    reduceByFunction v f (args[2]?.filter Value.isDefined)
  | foldl =>
    let f ← functionAt foldl args 2
    reduceByFunction v f (some (← argument args 1))
  | cmp => return orderingValue (← v.compare (← argument args 1))
  | greater => return .boolean ((← v.compare (← argument args 1)) == .gt)
  | smaller => return .boolean ((← v.compare (← argument args 1)) == .lt)
  | sorted =>
    let comparison ← comparisonOf (optionalAt args 1)
    sortedCopy v comparison (flagAt args 2)

/-- Calls a named operation. Nothing runs when the number of arguments is wrong. -/
def apply [Host] (b : Builtin) (args : List Value) : Eval Value := do
  b.checkCount args
  b.run args

end Builtin

/-! ## Functions -/

/-- Calls a function. Bodies act on nothing; the arguments of a named operation are held
while it runs. -/
def Function.call [Host] (f : Function) (args : List Value) : Eval Value :=
  match f.code with
  | .script body => Host.run body ⟨.undefined, args⟩
  | .builtin b => Eval.holding (.values args) (b.apply args)
  | .bound receiver member appendsReceiver =>
    Eval.holding (.values args) (callBound receiver member appendsReceiver args)

end DynamicObjects
