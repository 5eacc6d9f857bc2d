import DynamicObjects.Collections.Order
import DynamicObjects.Json.Reader
import DynamicObjects.Value.Equality

/-!
# Inspecting values

`Profile` gathers what can be said of one value, `Contrast` what can be said of two,
and `Rendering` the forms in which the value of a document is shown. Reports made on the
way belong to the comparison proper only: the questions derived from it are asked with
reports thrown away.
-/

namespace DynamicObjects

/-! ## One value -/

/-- What can be said of a value. -/
structure Profile where
  /-- The string that the value is. -/
  asString : Option String
  isContainer : Bool
  isDefined : Bool
  display : String
  hasView : Bool
  json : String
  kind : Kind
  length : Except Failure Nat
  text : String
  isTruthy : Bool
  typeLabel : String
  typeName : String

def Value.string? : Value → Option String
  | .string s => some s
  | _ => Option.none

/-- The document of a value on one line. -/
def Value.compact (v : Value) : Eval String := do
  match (← Eval.reads fun w => w.document? v) with
  | some document => return document.compact
  | Option.none => Eval.stuck .exhausted

def Value.profile [Host] (v : Value) : Eval Profile := do
  let kind ← v.kind
  let view ← v.view?
  let json ← v.compact
  let length ← v.length.attempt
  return {
    asString := v.string?
    isContainer := kind.isContainer
    isDefined := v.isDefined
    display := v.display
    hasView := view.isSome
    json
    kind
    length
    text := v.text
    isTruthy := v.isTruthy
    typeLabel := v.typeLabel
    typeName := v.typeName }

/-! ## Two values -/

/-- What can be said of two values. -/
structure Contrast where
  ordering : Ordering
  /-- The order of the second value and the first. -/
  reversed : Ordering
  same : Bool
  /-- Whether they are equal in the order. -/
  equals : Bool
  greater : Bool
  smaller : Bool

/-- A computation with its reports thrown away. -/
def Eval.quietly {α : Type} (x : Eval α) : Eval α :=
  Eval.within (fun s => { s with recording := false }) x

/-- The contrast of two values. -/
def Value.contrast [Host] (a b : Value) : Eval Contrast := do
  let ordering ← a.compare b
  Eval.quietly do
    return {
      ordering
      reversed := (← b.compare a)
      same := a.same b
      equals := (← a.equals b)
      greater := (← a.compare b) == .gt
      smaller := (← a.compare b) == .lt }

/-! ## Documents -/

/-- The value of a document and the forms in which it is shown. -/
structure Rendering where
  value : Value
  display : String
  compact : String
  pretty : String

/-- The rendering of the document that a text writes, if it writes one. -/
def Rendering.ofText? (text : String) : Option Rendering := do
  let value := Value.ofJson (← Json.parse? text)
  let document ← World.document? {} value
  return { value, display := value.display, compact := document.compact, pretty := document.pretty }

end DynamicObjects
