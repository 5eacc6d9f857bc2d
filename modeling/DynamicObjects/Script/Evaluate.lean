import DynamicObjects.Script.ObjectForms
import DynamicObjects.Script.ValueForms

/-!
# Evaluating scripts

`evaluate` gives the meaning of an expression by recursion on it, for any host that
runs the bodies it calls. `callWithin` and `runWithin` tie the knot: a host of a
fuel runs bodies with a host of one less, so the fuel bounds how deeply calls nest, and
every script has an answer, a failure, or the verdict that its fuel is spent.

Operands are held while the ones after them are evaluated and while the form acts, and
the parts of a sequence are held to its end. What a body acts on and its arguments are held
while it runs.
-/

namespace DynamicObjects.Script

/-- Runs a strict form on its operands, which are held meanwhile. -/
def Form.act [Host] (form : Form) (operands : List Item) : Eval Item :=
  Eval.holding (.items operands) <|
    match form with
    | .value form => actOnValues form operands
    | .session form => actOnSession form operands
    | .registry form => actOnRegistry form operands
    | .cls form => actOnClass form operands
    | .inst form => actOnInstance form operands

/-- How visits ended, as a value. -/
def describeOutcome (outcome : Outcome) : Value :=
  .map [("exhausted", .boolean outcome.isExhausted), ("halted", .boolean (!outcome.isExhausted)),
    ("outcome", .string outcome.label), ("returned", outcome.payload?.getD .undefined)]

def describeFailure (e : Failure) : Value :=
  .map [("error", .string e.kind), ("message", .string e.message)]

/-- The word for a level. -/
def Level.label : Level → String
  | warn => "warn"
  | error => "error"
  | debug => "debug"
  | exception => "exception"

/-- A report as a value. -/
def describeDiagnostic (d : Diagnostic) : Value :=
  .array [.string d.level.label, .string d.message]

/-- A computation with its reports collected apart: its answer or failure, and they. -/
def collectingReports {α : Type} (x : Eval α) : Eval (Except Failure α × List Diagnostic) := do
  let outer ← Eval.reads World.diagnostics
  Eval.modify fun w => { w with diagnostics := #[] }
  let result ← (Eval.within (fun s => { s with recording := true }) x).attempt
  let seen ← Eval.reads World.diagnostics
  Eval.modify fun w => { w with diagnostics := outer }
  return (result, seen.toList)

/-- Declares a class from evaluated parts, or only tells its name. -/
def declareFrom (destination : Destination) (registry : Option Item) (plan : ClassPlan) :
    Eval Item := do
  match destination, registry with
  | .nameOnly, _ => return Item.ofOption Item.ofString plan.name
  | .registry, some r => return Item.ofClass (← declareIn (← r.toRegistry) plan)
  | _, _ => return Item.ofClass (← declareClass plan)

def setVariable (name : String) (item : Item) : Eval Unit :=
  Eval.modify fun w => { w with bindings := Entries.insert name item w.bindings }

mutual

/-- The meaning of an expression. -/
def evaluate [Host] (frame : Frame) : Expr → Eval Item
  | .undefined => return .value .undefined
  | .none => return .value .none
  | .boolean b => return .value (.boolean b)
  | .integer n => return .value (.integer n)
  | .float x => return .value (.float x)
  | .string s => return .value (.string s)
  | .typed items => return .value (.typed items)
  | .iterable label length items lengthFault faults => do
    let items ← evaluateAll frame items
    let lengthFault ← evaluateOption frame lengthFault
    let faults ← evaluateFaults frame faults
    let lengthFault ← match lengthFault with
      | some x => do pure (some (← x.toValue))
      | Option.none => pure Option.none
    return .value (.iterable (← Eval.fresh) label length (← Item.toValues items) lengthFault faults)
  | .function name body => return .value (.function ⟨← Eval.fresh, name, .script body⟩)
  | .builtin b => return .value (.function ⟨← Eval.fresh, b.name, .builtin b⟩)
  | .variable name => do
    return (← Eval.reads fun w => Entries.find? name w.bindings).getD Item.missing
  | .assign name value => do
    let item ← evaluate frame value
    setVariable name item
    return item
  | .discard name => do
    Eval.modify fun w => { w with bindings := Entries.erase name w.bindings }
    return Item.missing
  | .arguments => return .value (.array frame.arguments)
  | .argument position => do
    match (← evaluate frame position) with
    | .value (.integer i) =>
      return .value (if 0 ≤ i.toInt then argumentAt frame.arguments i.toInt.toNat else .undefined)
    | _ => Eval.illFormed
  | .receiver => return .value frame.receiver
  | .choose condition consequent alternative => do
    if (← evaluate frame condition).isTruthy then evaluate frame consequent
    else evaluate frame alternative
  | .sequence parts => return (← evaluateAll frame parts).getLastD Item.missing
  | .attempt body => do
    match (← (evaluate frame body).attempt) with
    | .ok item => return item
    | .error e => return .value (describeFailure e)
  | .visit container body => do
    let container ← (← evaluate frame container).toValue
    let outcome ← Eval.holding (.values [container]) <| visitAll container fun v key => do
      let arguments := [v, key.toValue]
      match (← Eval.holding (.values arguments) (evaluate { frame with arguments } body)) with
      | .flow flow => return flow
      | _ => return .proceed
    return .value (describeOutcome outcome)
  | .fold container body initial => do
    let container ← (← evaluate frame container).toValue
    Eval.holding (.values [container]) do
      let initial ← match (← evaluateOption frame initial) with
        | some x => do pure (some (← x.toValue))
        | Option.none => pure Option.none
      let folded ← reduceWith (fun acc v key ordinal => do
        let arguments := [acc, v, key.toValue, Value.ofNat ordinal]
        match (← Eval.holding (.values arguments) (evaluate { frame with arguments } body)) with
        | .folded left answer => return (left, answer)
        | answer => return (acc, ← answer.toValue)) initial container
      return .value folded
  | .configured settings body =>
    Eval.within (fun s => { s with settings }) (evaluate frame body)
  | .recorded body => do
    let (result, seen) ← collectingReports (evaluate frame body)
    let result ← match result with
      | .ok item => item.toValue
      | .error e => pure (.string e.message)
    return .value (.map [("result", result), ("seen", .array (seen.map describeDiagnostic))])
  | .unrecorded body => Eval.within (fun s => { s with recording := false }) (evaluate frame body)
  | .declare destination registry
      ⟨name, parent, initializer, properties, shared, methods, operations⟩ => do
    let registry ← evaluateOption frame registry
    Eval.holding (.items registry.toList) do
      let parent ← match (← evaluateOption frame parent) with
        | some x => do pure (some (← x.toClass))
        | Option.none => pure Option.none
      Eval.holding (.values (parent.toList.map .cls)) do
        let properties ← evaluateEntries frame properties
        let shared ← Eval.holding (.values (Entries.values properties)) <|
          evaluateEntries frame shared
        declareFrom destination registry
          { name, parent, initializer, properties, shared, methods, operations }
  | .addMember kind cls name body => do
    let cls ← (← evaluate frame cls).toClass
    match kind with
    | .method => cls.addMethod name body
    | .operation => cls.addOperation name body
    return Item.missing
  | .perform form operands => do form.act (← evaluateAll frame operands)

/-- The meanings of several expressions, each held while the later ones are evaluated. -/
def evaluateAll [Host] (frame : Frame) : List Expr → Eval (List Item)
  | [] => return []
  | e :: rest => do
    let item ← evaluate frame e
    return item :: (← Eval.holding (.items [item]) (evaluateAll frame rest))

/-- The meaning of an expression that may be there. -/
def evaluateOption [Host] (frame : Frame) : Option Expr → Eval (Option Item)
  | Option.none => return Option.none
  | some e => do return some (← evaluate frame e)

/-- The meanings of named expressions, as values. -/
def evaluateEntries [Host] (frame : Frame) : List (String × Expr) → Eval (List (String × Value))
  | [] => return []
  | (name, e) :: rest => do
    let v ← (← evaluate frame e).toValue
    return (name, v) :: (← Eval.holding (.values [v]) (evaluateEntries frame rest))

/-- The meanings of expressions at positions, as values. -/
def evaluateFaults [Host] (frame : Frame) : List (Nat × Expr) → Eval (List (Nat × Value))
  | [] => return []
  | (i, e) :: rest => do
    let v ← (← evaluate frame e).toValue
    return (i, v) :: (← evaluateFaults frame rest)

end

/-! ## Hosts -/

/-- Scripts write tables, but no other foreign containers: these are empty for them. -/
def noElements (_ : InstanceRef) : View Value := .ofArray .undefined #[]

mutual

/-- Calls a function, calls nesting no deeper than the fuel. -/
def callWithin : Nat → Function → List Value → Eval Value
  | 0, _, _ => Eval.stuck .exhausted
  | fuel + 1, f, args => @Function.call ⟨fuel, callWithin fuel, runWithin fuel, noElements⟩ f args

/-- Runs a body, calls nesting no deeper than the fuel. -/
def runWithin : Nat → Expr → Frame → Eval Value
  | 0, _, _ => Eval.stuck .exhausted
  | fuel + 1, body, frame =>
    Eval.holding (.values (frame.receiver :: frame.arguments)) do
      (← @evaluate ⟨fuel, callWithin fuel, runWithin fuel, noElements⟩ frame body).toValue

end

@[reducible] def hostWithin (fuel : Nat) : Host :=
  ⟨fuel, callWithin fuel, runWithin fuel, noElements⟩

end DynamicObjects.Script
