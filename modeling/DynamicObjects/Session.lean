import DynamicObjects.Inspection
import DynamicObjects.Script.Evaluate

/-!
# Sessions

A session evaluates expressions one after the other. Classes, instances, registries and
variables last from step to step; reports and traces belong to the step that made them.
A failure ends its own step and keeps what the step changed before it.

* `Session.step`: one step.
* `Session.run`: several steps.
* `Session.run_append`: what later steps see is the world that earlier steps leave.
-/

namespace DynamicObjects

open Script

/-- How a step ended, as an observer sees it. -/
inductive Ending where
  | answer (seen : Snapshot)
  /-- A failure, and the raised value if there is one. -/
  | failure (failure : Failure) (raised : Option Snapshot)
  | stuck (reason : Stuck)

/-- What a step leaves to see. -/
structure Report where
  ending : Ending
  diagnostics : List Diagnostic
  trace : List Snapshot

/-- The value that a failure carries. -/
def Failure.raised? : Failure → Option Value
  | .raised v => some v
  | _ => none

namespace Session

/-- How deeply calls may nest. -/
def nesting : Nat := 100000

/-- The host of a session. -/
@[reducible] def host : Host := hostWithin nesting

/-- What bodies outside of every call see. -/
def topFrame : Frame := ⟨.undefined, []⟩

/-- The world at the start of a step: nothing reported, nothing traced. -/
def opened (w : World) : World := { w with diagnostics := #[], trace := #[] }

/-- The report of a computation that ran from a world, given what is seen of its answer. -/
def reportOf {α : Type} (see : World → α → Snapshot) (w : World) : Reply α → World × Report
  | .done a w => (w, ⟨.answer (see w a), w.diagnostics.toList, w.trace.toList⟩)
  | .failed e w =>
    (w, ⟨.failure e (e.raised?.map w.snapshot), w.diagnostics.toList, w.trace.toList⟩)
  | .stuck reason => (w, ⟨.stuck reason, [], []⟩)

/-- One step: the world after it and its report. -/
def step (w : World) (e : Expr) : World × Report :=
  reportOf World.snapshotItem w (@evaluate host topFrame e {} (opened w))

/-- Several steps: the world after them and their reports. -/
def run (w : World) : List Expr → World × List Report
  | [] => (w, [])
  | e :: rest =>
    let (w, report) := step w e
    let (w, reports) := run w rest
    (w, report :: reports)

theorem run_append (w : World) (first second : List Expr) :
    run w (first ++ second) =
      ((run (run w first).1 second).1, (run w first).2 ++ (run (run w first).1 second).2) := by
  induction first generalizing w with
  | nil => rfl
  | cons e rest ih => simp [run, ih]

/-- The report of a call of a named operation on the values of expressions. -/
def callBuiltin (b : Builtin) (args : List Expr) : Report :=
  (step {} (.perform (.value (.call b)) args)).2

/-- The values of expressions, and a computation on them. Its failure is left out. -/
def inspect {α : Type} (expressions : List Expr) (f : List Value → Eval α) :
    Option (α × List Diagnostic) :=
  let computation : Eval α := do
    let items ← @evaluateAll host topFrame expressions
    Eval.holding (.items items) do f (← Item.toValues items)
  match computation {} {} with
  | .done a w => some (a, w.diagnostics.toList)
  | .failed _ _ | .stuck _ => none

/-- The profile of the value of an expression. -/
def profile (e : Expr) : Option Profile :=
  (inspect [e] fun
    | [v] => @Value.profile host v
    | _ => Eval.illFormed).map Prod.fst

/-- The contrast of the values of two expressions, and what it reported. -/
def contrast (a b : Expr) : Option (Contrast × List Diagnostic) :=
  inspect [a, b] fun
    | [v, w] => @Value.contrast host v w
    | _ => Eval.illFormed

end Session

end DynamicObjects
