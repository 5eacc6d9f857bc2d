import DynamicObjects.Collections.Kind

/-!
# Visiting containers

Every walk over a container goes through `Walk.run`: sequences and generic iterables
by increasing position, maps in the order of their keys. A walk carries a state from
element to element and says after each whether to go on. The length of a generic
iterable is read once, before the first visit, and each element just before its own.

What the state keeps is held while the next element is fetched and visited, and so is
the element itself during its visit.

A failure of a visit, of a length or of an element leaves the walk unchanged, after it
has been reported if the settings say so.

* `Walk.visitEach`, `Walk.visitIndexed`: the two loops.
* `Walk.run`: the walk over any value.
-/

namespace DynamicObjects

/-- The context of reports from walks. -/
def visitContext : String := "iterate"

/-- Reports the failure of a computation before it goes on its way. -/
def reporting {α : Type} (x : Eval α) : Eval α := do
  match (← x.attempt) with
  | .ok a => return a
  | .error e =>
    if (← Eval.scope).settings.reportCallbackErrors then Eval.reportException visitContext e
    Eval.fail e

/-- A walk over a container, carrying a state. -/
structure Walk (σ : Type) where
  keeps : σ → Held
  /-- A visit: what to do next, and the state after it. -/
  visit : σ → Value → Key → Eval (Flow × σ)

/-- Elements with their positions, from a position on. -/
def indexedFrom (i : Nat) : List Value → List (Key × Value)
  | [] => []
  | v :: rest => (.index i, v) :: indexedFrom (i + 1) rest

/-- Entries with their keys as positions. -/
def namedEntries (entries : List (String × Value)) : List (Key × Value) :=
  entries.map fun (name, v) => (.name name, v)

namespace Walk

variable {σ : Type}

/-- The walk whose visits have no state. -/
def stateless (visit : Value → Key → Eval Flow) : Walk Unit where
  keeps := fun () => .values []
  visit := fun () v key => do return (← visit v key, ())

/-- One visit. -/
def step (walk : Walk σ) (s : σ) (v : Value) (key : Key) : Eval (Flow × σ) :=
  Eval.holding (walk.keeps s) (Eval.holding (.values [v]) (reporting (walk.visit s v key)))

/-- Visits elements that are all there. -/
def visitEach (walk : Walk σ) : List (Key × Value) → σ → Eval (Outcome × σ)
  | [], s => return (.exhausted, s)
  | (key, v) :: rest, s => do
    match (← walk.step s v key) with
    | (.proceed, s) => visitEach walk rest s
    | (.stop, s) => return (.broken, s)
    | (.answer payload, s) => return (.returned payload, s)

/-- Visits a number of elements from a position on, fetching each before its visit. -/
def visitIndexed (walk : Walk σ) (element : Nat → Eval Value) :
    Nat → Nat → σ → Eval (Outcome × σ)
  | 0, _, s => return (.exhausted, s)
  | count + 1, i, s => do
    let v ← Eval.holding (walk.keeps s) (reporting (element i))
    match (← walk.step s v (.index i)) with
    | (.proceed, s) => visitIndexed walk element count (i + 1) s
    | (.stop, s) => return (.broken, s)
    | (.answer payload, s) => return (.returned payload, s)

/-- Visits every element of a container. What is no container has no elements, which is
reported unless it is missing or absent. -/
def run [Host] (walk : Walk σ) (start : σ) (container : Value) : Eval (Outcome × σ) := do
  match container with
  | .array items => walk.visitEach (indexedFrom 0 items) start
  | .typed items => walk.visitEach (indexedFrom 0 items.values) start
  | .map entries => walk.visitEach (namedEntries entries) start
  | other =>
    match (← other.view?) with
    | some view =>
      let count ← Eval.holding (walk.keeps start) (reporting view.length)
      walk.visitIndexed view.element count 0 start
    | none =>
      if !other.isAbsent then
        Eval.report .debug (visitContext ++ ": " ++ other.typeName ++
          " is not a container, nothing to visit")
      return (.exhausted, start)

end Walk

/-- Visits every element of a container. -/
def visitAll [Host] (container : Value) (visit : Value → Key → Eval Flow) : Eval Outcome := do
  let (outcome, _) ← (Walk.stateless visit).run () container
  return outcome

/-- The walk that gathers elements with their positions, the last one first. -/
def Walk.gather : Walk (List (Key × Value)) where
  keeps := .elements
  visit := fun found v key => return (.proceed, (key, v) :: found)

/-- The elements of a container with their positions, in order. -/
def collect [Host] (container : Value) : Eval (List (Key × Value)) := do
  let (_, reversed) ← Walk.gather.run [] container
  return reversed.reverse

end DynamicObjects
