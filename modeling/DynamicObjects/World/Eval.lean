import DynamicObjects.World.Reach

/-!
# Computations in a session

An `Eval α` reads the scope it runs in (settings, whether reports are kept, what is
held), changes the world, and gives an answer or a failure; a failure keeps the changes
made before it. Apart from both, a computation can be stuck: when it is not well formed,
when its fuel is spent, when it sorts by what is no order, or when it uses a position or a
bound that is out of range.

What a computation holds while it runs is part of the scope, not of the world, so it is
let go when the computation ends, however it ends.
-/

namespace DynamicObjects

open Script

/-- Why a computation has no answer. -/
inductive Stuck where
  /-- The fuel is spent. -/
  | exhausted
  /-- The script is not well formed. -/
  | illFormed
  /-- Comparisons fit no order. -/
  | inconsistent
  /-- A position or a bound is out of range. -/
  | outOfRange
  deriving DecidableEq, Repr

/-- How a computation ends. -/
inductive Reply (α : Type) where
  | done (answer : α) (w : World)
  | failed (failure : Failure) (w : World)
  | stuck (reason : Stuck)

/-- What a computation runs in. -/
structure Scope where
  settings : Settings := {}
  /-- Whether reports are kept. -/
  recording : Bool := true
  /-- What is held by the computations around this one. -/
  held : List Held := []

/-- A computation. -/
def Eval (α : Type) : Type := Scope → World → Reply α

namespace Eval

variable {α β : Type}

/-- The computation that only answers. -/
@[inline] protected def pure (a : α) : Eval α := fun _ w => .done a w

/-- One computation after another. -/
@[inline] protected def bind (x : Eval α) (f : α → Eval β) : Eval β := fun scope w =>
  match x scope w with
  | .done a w => f a scope w
  | .failed e w => .failed e w
  | .stuck reason => .stuck reason

instance : Monad Eval where
  pure := Eval.pure
  bind := Eval.bind

instance : Inhabited (Eval α) := ⟨fun _ _ => .stuck .illFormed⟩

theorem bind_pure (x : Eval α) : Eval.bind x Eval.pure = x := by
  funext scope w
  unfold Eval.bind
  cases x scope w <;> rfl

theorem bind_assoc {γ : Type} (x : Eval α) (f : α → Eval β) (g : β → Eval γ) :
    Eval.bind (Eval.bind x f) g = Eval.bind x fun a => Eval.bind (f a) g := by
  funext scope w
  unfold Eval.bind
  cases x scope w <;> rfl

instance : LawfulMonad Eval :=
  LawfulMonad.mk' Eval (fun x => bind_pure x) (fun _ _ => rfl) (fun x f g => bind_assoc x f g)

/-! ## Ends -/

/-- The computation that fails. -/
def fail (e : Failure) : Eval α := fun _ w => .failed e w

/-- The computation that is stuck. -/
def stuck (reason : Stuck) : Eval α := fun _ _ => .stuck reason

/-- The computation of a script that is not well formed. -/
def illFormed : Eval α := stuck .illFormed

/-- The answer of an option; without one the script is not well formed. -/
def ofOption : Option α → Eval α
  | some a => pure a
  | none => illFormed

/-- A computation with its failure as an answer. -/
@[inline] def attempt (x : Eval α) : Eval (Except Failure α) := fun scope w =>
  match x scope w with
  | .done a w => .done (.ok a) w
  | .failed e w => .done (.error e) w
  | .stuck reason => .stuck reason

/-! ## World and scope -/

def world : Eval World := fun _ w => .done w w

/-- Something read off the world. -/
@[inline] def reads (f : World → α) : Eval α := fun _ w => .done (f w) w

/-- A change of the world. -/
def modify (f : World → World) : Eval Unit := fun _ w => .done () (f w)

def scope : Eval Scope := fun s w => .done s w

/-- A computation in a changed scope. -/
@[inline] def within (f : Scope → Scope) (x : Eval α) : Eval α := fun s w => x (f s) w

/-- A computation that holds something. -/
@[inline] def holding (h : Held) (x : Eval α) : Eval α :=
  within (fun s => { s with held := h :: s.held }) x

/-- A new number. -/
def fresh : Eval Nat := fun _ w => .done w.nextId { w with nextId := w.nextId + 1 }

/-- Whether a class or an instance is held by anything. -/
def isAlive (target : Node) : Eval Bool := fun s w => .done (w.isAlive s.held target) w

/-! ## Reports -/

/-- Reports a message, if reports are kept. -/
def report (level : Level) (message : String) : Eval Unit := fun s w =>
  .done () <|
    if s.recording then { w with diagnostics := w.diagnostics.push ⟨level, message⟩ } else w

/-- Reports a failure that passes through. -/
def reportException (context : String) (e : Failure) : Eval Unit :=
  report .exception (context ++ ": " ++ e.message)

end Eval

/-! ## Running bodies -/

/-- What a body sees: what it acts on, and its arguments. -/
structure Frame where
  receiver : Value
  arguments : List Value

/-- A length and elements by position. -/
structure View (α : Type) where
  length : Eval Nat
  element : Nat → Eval α

/-- The means to run what scripts have written, and to take foreign containers apart.
Operations on values take it as given, so they can be understood for every way in which
callbacks and foreign containers may behave. -/
class Host where
  /-- The nesting of computations that is left. -/
  fuel : Nat
  call : Function → List Value → Eval Value
  /-- Runs the body of a member. -/
  run : Expr → Frame → Eval Value
  /-- What a foreign container tells. It may keep a state and fail in any way. -/
  foreign : InstanceRef → View Value

end DynamicObjects
