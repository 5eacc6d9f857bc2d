import DynamicObjects.Collections.Visit

/-!
# Mapping, filtering, folding

Sequences and generic iterables give arrays, maps give maps with the same keys. Missing
and absent values come back as they are; other values too, with a warning.
-/

namespace DynamicObjects

/-- Warns that an operation does not apply, and gives the value back. -/
def warnUnsupported (operation : String) (v : Value) : Eval Value := do
  Eval.report .warn (Failure.unsupportedType operation v.typeName).message
  return v

/-- The walk that makes a list of what `keep` gives for the elements, the last one
first. -/
def Walk.toList (keep : Value → Key → Eval (Option Value)) : Walk (List Value) where
  keeps := .values
  visit := fun out v key => do
    match (← keep v key) with
    | some kept => return (.proceed, kept :: out)
    | none => return (.proceed, out)

/-- The walk that makes entries of what `keep` gives for the elements. -/
def Walk.toEntries (keep : Value → Key → Eval (Option Value)) : Walk (Draft Value) where
  keeps := .draft
  visit := fun out v key => do
    match (← keep v key) with
    | some kept => return (.proceed, out.insert key.toName kept)
    | none => return (.proceed, out)

/-- Walks a container, keeping for each element what `keep` gives for it, if anything. -/
def rebuild [Host] (operation : String) (keep : Value → Key → Eval (Option Value))
    (container : Value) : Eval Value := do
  match (← container.kind) with
  | .sequence | .generic =>
    let (_, reversed) ← (Walk.toList keep).run [] container
    return .array reversed.reverse
  | .associative =>
    let (_, out) ← (Walk.toEntries keep).run .empty container
    return .map out.entries
  | .undefined | .none => return container
  | _ => warnUnsupported operation container

/-- Replaces every element. -/
def mapElements [Host] (f : Value → Key → Eval Value) (container : Value) : Eval Value :=
  rebuild "map" (fun v key => do return some (← f v key)) container

/-- Keeps the elements that satisfy a predicate. -/
def filterElements [Host] (predicate : Value → Key → Eval Bool) (container : Value) :
    Eval Value :=
  rebuild "filter" (fun v key => do
    if ← predicate v key then return some v else return none) container

/-- Keeps the elements that satisfy a predicate, each replaced. -/
def filterWith [Host] (predicate : Value → Key → Eval Bool)
    (processor : Value → Key → Eval Value) (container : Value) : Eval Value :=
  rebuild "filter" (fun v key => do
    if ← predicate v key then return some (← processor v key) else return none) container

/-- The walk that folds. Its state is the accumulator and the number of elements seen. -/
def Walk.fold (step : Value → Value → Key → Nat → Eval (Value × Value)) : Walk (Value × Nat) where
  keeps := fun (acc, _) => .values [acc]
  visit := fun (acc, ordinal) v key => do
    let (left, answer) ←
      if ordinal == 0 && !acc.isDefined then pure (acc, v) else step acc v key ordinal
    return (.proceed, if answer.isDefined then answer else left, ordinal + 1)

/-- Folds a container. The step sees the accumulator, the element, its position and how
many came before; it gives the accumulator as it left it and an answer. A defined
answer becomes the accumulator. Without a defined start the first element is the start,
and there is no step for it. -/
def reduceWith [Host] (step : Value → Value → Key → Nat → Eval (Value × Value))
    (initial : Option Value) (container : Value) : Eval Value := do
  let (_, acc, _) ← (Walk.fold step).run (initial.getD .undefined, 0) container
  return acc

end DynamicObjects
