import DynamicObjects.World.Eval

/-!
# Running computations

What the first part of a computation does to the world, as equations that rewriting can
go along.
-/

namespace DynamicObjects

/-- The scope in which something more is held. -/
def Scope.holding (scope : Scope) (h : Held) : Scope := { scope with held := h :: scope.held }

/-- The reports that are kept in a scope. -/
def Scope.kept (scope : Scope) (reports : Array Diagnostic) : Array Diagnostic :=
  if scope.recording then reports else #[]

namespace Eval

open Script

variable {α β : Type}

theorem pure_apply (a : α) (scope : Scope) (w : World) :
    (pure a : Eval α) scope w = .done a w := rfl

theorem bind_apply (x : Eval α) (f : α → Eval β) (scope : Scope) (w : World) :
    (x >>= f) scope w =
      match x scope w with
      | .done a w => f a scope w
      | .failed e w => .failed e w
      | .stuck reason => .stuck reason := rfl

theorem bind_of_done {x : Eval α} {scope : Scope} {w w' : World} {a : α}
    (h : x scope w = .done a w') (f : α → Eval β) : (x >>= f) scope w = f a scope w' := by
  rw [bind_apply, h]

theorem reads_apply (f : World → α) (scope : Scope) (w : World) :
    reads f scope w = .done (f w) w := rfl

theorem modify_apply (f : World → World) (scope : Scope) (w : World) :
    modify f scope w = .done () (f w) := rfl

theorem isAlive_apply (target : Node) (scope : Scope) (w : World) :
    isAlive target scope w = .done (w.isAlive scope.held target) w := rfl

theorem holding_apply (h : Held) (x : Eval α) (scope : Scope) (w : World) :
    holding h x scope w = x (scope.holding h) w := rfl

theorem report_apply (level : Level) (message : String) (scope : Scope) (w : World) :
    report level message scope w =
      .done () (if scope.recording then
        { w with diagnostics := w.diagnostics.push ⟨level, message⟩ } else w) := rfl

end Eval

end DynamicObjects
