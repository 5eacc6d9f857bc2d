import DynamicObjects.Collections.Order
import DynamicObjects.Sorting.Quick

/-!
# Sorting

A container is sorted into an array of its elements. The order is the one of values, or
a comparison by a function, or the order of extracted keys, the first extractor
counting most. All three are stable. Values that are no containers are sorted
already; functions, classes and instances that are no iterables cannot be sorted.

The order of values and the order of keys are sorted by `Sorting.stableSort`. A comparison
by a function may fail and may answer anything; it is sorted by `Sorting.mergeSort`, to which
an inconsistent comparison gives some rearrangement.
-/

namespace DynamicObjects

open Sorting

/-- How elements are compared. -/
inductive Comparison where
  | natural
  | comparator (compare : Value → Value → Eval Ordering)
  | extractors (extract : List (Value → Eval Value))

/-! ## Extracted keys -/

/-- Compares two rows of keys, the first difference deciding. -/
def compareRows [Host] : List Value → List Value → Eval Ordering
  | x :: xs, y :: ys => do
    match (← x.compare y) with
    | .eq => compareRows xs ys
    | decided => return decided
  | _, _ => return .eq

/-- The keys of one element, in the order of the extractors. Each is held while the later
ones are extracted. -/
def extractRow : List (Value → Eval Value) → Value → Eval (List Value)
  | [], _ => return []
  | extract :: rest, v => do
    let key ← extract v
    return key :: (← Eval.holding (.values [key]) (extractRow rest v))

/-- Each element with its keys, element by element. -/
def extractRows (extract : List (Value → Eval Value)) : List Value →
    Eval (List (List Value × Value))
  | [] => return []
  | v :: rest => do
    let row ← extractRow extract v
    return (row, v) :: (← Eval.holding (.values row) (extractRows extract rest))

/-! ## Sorting values -/

/-- Carries out a plan, one element being less than another when a comparison says so. -/
def sortBy {α β : Type} (compare : α → α → Eval Ordering) (plan : Plan α β) : Eval β :=
  plan.run fun x y => do return (← compare x y) == .lt

/-- Sorts elements by a comparison. -/
def sortItems [Host] (comparison : Comparison) (items : List Value) : Eval (List Value) :=
  match comparison with
  | .natural => sortBy Value.compare (stableSort items)
  | .comparator compare => sortBy compare (mergeSort items)
  | .extractors extract => do
    let rows ← extractRows extract items
    let sorted ← Eval.holding (.values (rows.flatMap Prod.fst))
      (sortBy (fun a b => compareRows a.1 b.1) (stableSort rows))
    return sorted.map Prod.snd

/-- A sorted copy of a container. -/
def sortedCopy [Host] (v : Value) (comparison : Comparison) (reverse : Bool) : Eval Value := do
  match (← v.kind) with
  | .sequence | .generic | .associative =>
    let items := (← collect v).map Prod.snd
    let sorted ← Eval.holding (.values items) (sortItems comparison items)
    return .array (if reverse then sorted.reverse else sorted)
  | .scalar | .undefined | .none => return v
  | .function | .instanceKind => Eval.fail (.unsupportedType "sorted" v.typeName)

end DynamicObjects
