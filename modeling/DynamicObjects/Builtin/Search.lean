import DynamicObjects.Builtin.Arguments

/-!
# Searching and editing

Searches go through a container in order and stop at the first hit. Edits give new
arrays and maps.
-/

namespace DynamicObjects

open Number

/-! ## Searches -/

/-- Whether a container holds an element that passes a test, by default an element equal
to the value. What is no container holds nothing. -/
def isInContainer [Host] (v container : Value) (predicate : Option Function) : Eval Bool := do
  if (← container.kind).isContainer then
    let outcome ← visitAll container fun item _ => do
      let hit ← match predicate with
        | some f => do pure (← Host.call f [item, v]).isTruthy
        | none => item.equals v
      return if hit then .stop else .proceed
    return !outcome.isExhausted
  else return false

/-- The walk that stops at the first element that passes a test, with its position. -/
def Walk.position (test : Value → Key → Eval Bool) : Walk (Option Key) where
  keeps := fun _ => .values []
  visit := fun _ v key => do
    if ← test v key then return (.stop, some key) else return (.proceed, none)

/-- The position of the first element that passes a test. -/
def findPosition [Host] (test : Value → Key → Eval Bool) (container : Value) :
    Eval (Option Key) := do
  let (_, found) ← (Walk.position test).run none container
  return found

/-- A position as an answer: minus one when there is none. -/
def positionValue : Option Key → Value
  | some key => key.toValue
  | none => .integer (-1)

/-- The position of the first element equal to a value. -/
def findEqual [Host] (container needle : Value) : Eval Value := do
  return positionValue (← findPosition (fun v _ => v.equals needle) container)

/-- The position of the first element that passes a function's test. -/
def findLikeValue [Host] (container : Value) (f : Function) : Eval Value := do
  return positionValue (← findPosition (callTest f) container)

/-- The position of the first element that is among some values. -/
def findOneOfValues [Host] (container values : Value) : Eval Value := do
  return positionValue (← findPosition (fun v _ => isInContainer v values none) container)

/-- Whether an element passes a test that may be left out. -/
def passes [Host] (predicate : Option Function) (v : Value) (key : Key) : Eval Bool :=
  match predicate with
  | some f => callTest f v key
  | none => return true

/-- The first element that passes. -/
def firstOf [Host] (container : Value) (predicate : Option Function) : Eval Value := do
  let outcome ← visitAll container fun v key => do
    if ← passes predicate v key then return .answer v else return .proceed
  return outcome.payload?.getD .none

/-- The walk that keeps the last element that passes a test. -/
def Walk.last (test : Value → Key → Eval Bool) : Walk Value where
  keeps := fun found => .values [found]
  visit := fun found v key => do
    if ← test v key then return (.proceed, v) else return (.proceed, found)

/-- The last element that passes. -/
def lastOf [Host] (container : Value) (predicate : Option Function) : Eval Value := do
  let (_, found) ← (Walk.last (passes predicate)).run .none container
  return found

/-! ## Edits -/

/-- A position in a sequence of a length: counted from the end when negative, and moved
to the nearer end when outside. -/
def clampPosition (length : Nat) (i : Int64) : Nat :=
  let count := Int64.ofNat length
  let place := if i < 0 then count + i else i
  (if place < 0 then 0 else if count < place then count else place).toInt.toNat

/-- The list with a value put in before a position, at most behind its end. -/
def insertAt (items : List Value) (place : Nat) (v : Value) : Eval (List Value) :=
  if place ≤ items.length then return items.take place ++ v :: items.drop place
  else Eval.stuck .outOfRange

/-- The list without the element at a position. -/
def removeAt (items : List Value) (place : Nat) : Eval (List Value) :=
  if place < items.length then return items.eraseIdx place else Eval.stuck .outOfRange

/-- The array with a value put in before a position. -/
def insertValue (list : Value) (i : Int64) (v : Value) : Eval Value := do
  match list with
  | .array items => return .array (← insertAt items (clampPosition items.length i) v)
  | other => reportUnsupported .insert other .none

/-- The array with a value at its end. -/
def addValue (list v : Value) : Eval Value :=
  match list with
  | .array items => return .array (items ++ [v])
  | other => reportUnsupported .add other .none

/-- The place of the first element equal to a value, the first place having a number. -/
def placeOfEqual [Host] (needle : Value) : Nat → List Value → Eval (Option Nat)
  | _, [] => return none
  | i, v :: rest => do
    if ← v.equals needle then return some i else placeOfEqual needle (i + 1) rest

/-- An array without its first element equal to a value, or a map without a key. -/
def removeValue [Host] (container needle : Value) : Eval Value := do
  match container with
  | .array items =>
    match (← placeOfEqual needle 0 items) with
    | some place => return .array (← removeAt items place)
    | none => return .array items
  | .map entries => return .map (Entries.erase needle.text entries)
  | other => return other

/-- An array without the element at a position, if there is one, or a map without a key. -/
def removePosition (container index : Value) : Eval Value := do
  match container, index with
  | .array items, .integer i =>
    if 0 ≤ i.toInt ∧ i.toInt.toNat < items.length then
      return .array (← removeAt items i.toInt.toNat)
    else return container
  | .map entries, key => return .map (Entries.erase key.text entries)
  | other, _ => return other

/-! ## Slices -/

/-- The part of a list from one position up to another, and nothing when they cross. -/
def between {α : Type} (start stop : Nat) (items : List α) : List α :=
  (items.drop start).take (stop - start)

/-- The bounds of a slice of a sequence of a length. They are counted in sixty-four bits with
a sign: a length that does not fit is negative then, and no bound is in range. -/
def sliceBounds (length : Nat) (start : Int64) (stop : Option Int64) : Eval (Nat × Nat) :=
  if length ≤ Int64.maxValue.toInt then
    return (clampPosition length start, (stop.map (clampPosition length)).getD length)
  else Eval.stuck .outOfRange

/-- The characters of a string or the elements of a sequence between two positions. -/
def sliceValue [Host] (v : Value) (start : Int64) (stop : Option Int64) : Eval Value := do
  match v with
  | .string s =>
    let (start, stop) ← sliceBounds s.length start stop
    return .string (String.ofList (between start stop s.toList))
  | v =>
    if (← v.kind).isListLike then
      let (start, stop) ← sliceBounds (← v.length) start stop
      let items := (← elementsOf? v).getD []
      return .array (between start stop items)
    else Eval.fail (.unsupportedType "slice" v.typeName)

/-- A string or a sequence backwards. -/
def reverseValue [Host] (v : Value) : Eval Value := do
  match v with
  | .string s => return .string (String.ofList s.toList.reverse)
  | v =>
    match (← elementsOf? v) with
    | some items => return .array items.reverse
    | none => reportUnsupported .reverse v .none

end DynamicObjects
