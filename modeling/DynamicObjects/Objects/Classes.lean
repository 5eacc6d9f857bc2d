import DynamicObjects.World.Eval

/-!
# Declaring and reopening classes

A class takes over what its parent resolves to at the moment of declaration, then
declares its own members. Members added to the parent later are not seen. A class
that is reopened changes its own tables only; the bound operation handed out under a
replaced name is forgotten, so that the next request gets a new one.

* `World.classState_addClass`, `World.classState_setClass`: what storing a class changes.
* `World.instanceState_addInstance`, `World.instanceState_setInstance`: the same for instances.
-/

namespace DynamicObjects

open Script Number

/-- The name under which the initializer is found among the full names. -/
def initializerName : String := "initialize"

/-- What a class is declared from, its parts evaluated. -/
structure ClassPlan where
  name : Option String := none
  parent : Option ClassRef := none
  initializer : Option Expr := none
  properties : List (String × Value) := []
  shared : List (String × Value) := []
  methods : List (String × Expr) := []
  operations : List (String × Expr) := []

/-! ## Tables -/

namespace ClassState

/-- Declares routines one after the other, each also under its full name when the class
has a name. -/
def declareRoutines (cls : Option String) (routines : List Routine) (table : Members Routine) :
    Members Routine :=
  routines.foldl (fun table routine =>
    (match cls with
      | some cls => table.registerFullname cls routine.name routine
      | none => table).declare routine.name routine) table

/-- Declares values one after the other. -/
def declareValues (entries : List (String × Value)) (table : Members Value) : Members Value :=
  entries.foldl (fun table entry => table.declare entry.1 entry.2) table

/-- The tables of a subclass before it declares anything. -/
def inherit (parent : ClassState) : ClassState where
  initializer := parent.initializer
  properties := parent.properties.inherit
  shared := parent.shared.inherit
  methods := parent.methods.inherit
  operations := parent.operations.inherit

/-- The state of a class from its plan, the state it inherits, and its routines. -/
def build (plan : ClassPlan) (inherited : ClassState) (initializer : Option Routine)
    (methods operations : List Routine) : ClassState :=
  let methods := declareRoutines plan.name methods inherited.methods
  { name := plan.name
    parent := plan.parent
    initializer := initializer <|> inherited.initializer
    properties := declareValues plan.properties inherited.properties
    shared := declareValues plan.shared inherited.shared
    methods := match plan.name, initializer with
      | some cls, some routine => methods.registerFullname cls initializerName routine
      | _, _ => methods
    operations := declareRoutines plan.name operations inherited.operations }

end ClassState

/-! ## Storing states -/

namespace World

/-- Stores the state of a new class. -/
def addClass (w : World) (state : ClassState) : World :=
  { w with classes := w.classes.push state }

/-- Stores the state of a new instance. -/
def addInstance (w : World) (state : InstanceState) : World :=
  { w with instances := w.instances.push state }

/-- Stores a new registry. -/
def addRegistry (w : World) (registry : Registry) : World :=
  { w with registries := w.registries.push registry }

/-- Replaces the state of a class. -/
def setClass (w : World) (c : ClassRef) (state : ClassState) : World :=
  { w with classes := w.classes.setIfInBounds c.index state }

/-- Replaces the state of an instance. -/
def setInstance (w : World) (i : InstanceRef) (state : InstanceState) : World :=
  { w with instances := w.instances.setIfInBounds i.index state }

/-- Replaces the state of a registry. -/
def setRegistry (w : World) (index : Nat) (registry : Registry) : World :=
  { w with registries := w.registries.setIfInBounds index registry }

theorem classState_addClass (w : World) (c : ClassRef) (state : ClassState) :
    (w.addClass state).classState c =
      if c.index = w.classes.size then state else w.classState c := by
  by_cases h : c.index = w.classes.size <;> simp [addClass, classState, Array.getElem?_push, h]

theorem classState_setClass (w : World) (c d : ClassRef) (state : ClassState)
    (h : c.index < w.classes.size) :
    (w.setClass c state).classState d =
      if c.index = d.index then state else w.classState d := by
  by_cases hd : c.index = d.index
  · simp [setClass, classState, ← hd, h]
  · simp [setClass, classState, hd]

theorem instanceState_addInstance (w : World) (i : InstanceRef) (state : InstanceState) :
    (w.addInstance state).instanceState i =
      if i.index = w.instances.size then state else w.instanceState i := by
  by_cases h : i.index = w.instances.size <;>
    simp [addInstance, instanceState, Array.getElem?_push, h]

theorem instanceState_setInstance (w : World) (i j : InstanceRef) (state : InstanceState)
    (h : i.index < w.instances.size) :
    (w.setInstance i state).instanceState j =
      if i.index = j.index then state else w.instanceState j := by
  by_cases hj : i.index = j.index
  · simp [setInstance, instanceState, ← hj, h]
  · simp [setInstance, instanceState, hj]

end World

/-! ## Declaring -/

/-- A new routine. -/
def makeRoutine (name : String) (body : Expr) : Eval Routine := do
  return ⟨← Eval.fresh, name, body⟩

/-- New routines for named bodies. -/
def makeRoutines : List (String × Expr) → Eval (List Routine)
  | [] => pure []
  | (name, body) :: rest => do
    let routine ← makeRoutine name body
    return routine :: (← makeRoutines rest)

def declareClass (plan : ClassPlan) : Eval ClassRef := do
  let initializer ← match plan.initializer with
    | some body => do pure (some (← makeRoutine initializerName body))
    | none => pure none
  let methods ← makeRoutines plan.methods
  let operations ← makeRoutines plan.operations
  let inherited ← match plan.parent with
    | some parent => Eval.reads fun w => (w.classState parent).inherit
    | none => pure {}
  Eval.modify fun w => w.addClass (ClassState.build plan inherited initializer methods operations)
  let c : ClassRef := ⟨← Eval.reads fun w => w.classes.size - 1, plan.name⟩
  Eval.report .debug ("declared class " ++ c.displayName ++ " (#" ++ digitText c.id ++ ")" ++
    (match plan.parent with
      | some parent => " extending " ++ parent.displayName
      | none => ""))
  return c

namespace ClassRef

/-! ## Reopening -/

/-- Changes the state of a class. -/
def update (c : ClassRef) (f : ClassState → ClassState) : Eval Unit :=
  Eval.modify fun w => w.setClass c (f (w.classState c))

/-- Sets a class attribute on this class only. -/
def setShared (c : ClassRef) (name : String) (value : Value) : Eval Unit :=
  c.update fun state => { state with shared := state.shared.declare name value }

/-- A class attribute. -/
def shared (c : ClassRef) (name : String) : Eval Value :=
  Eval.reads fun w => ((w.classState c).shared.get? name).getD .undefined

def addMethod (c : ClassRef) (name : String) (body : Expr) : Eval Unit := do
  let routine ← makeRoutine name body
  c.update fun state =>
    { state with methods := ClassState.declareRoutines state.name [routine] state.methods }

/-- Adds an operation, and forgets the bound operation of its name. -/
def addOperation (c : ClassRef) (name : String) (body : Expr) : Eval Unit := do
  let routine ← makeRoutine name body
  c.update fun state =>
    { state with
      operations := ClassState.declareRoutines state.name [routine] state.operations
      boundOperations := Entries.erase name state.boundOperations }

/-! ## Operations -/

/-- The failure of a request for a member that a class does not have. -/
def unknownMember (c : ClassRef) (name : String) : Failure := .unknownMember c.displayName name

/-- The operation of a name, or a failure. -/
def operation (c : ClassRef) (name : String) : Eval Routine := do
  match (← Eval.reads fun w => (w.classState c).operations.get? name) with
  | some routine => return routine
  | none => Eval.fail (c.unknownMember name)

/-- The bound operation of a name. The same one is handed out until the operation is
replaced. -/
def getOperation (c : ClassRef) (name : String) : Eval BoundOperation := do
  match (← Eval.reads fun w => Entries.find? name (w.classState c).boundOperations) with
  | some bound => return bound
  | none =>
    let routine ← c.operation name
    let bound : BoundOperation := ⟨← Eval.fresh, c, routine⟩
    c.update fun state =>
      { state with boundOperations := Entries.insert name bound state.boundOperations }
    return bound

/-- Runs the operation of a name. -/
def callOperation [Host] (c : ClassRef) (name : String) (args : List Value) : Eval Value := do
  let routine ← c.operation name
  Host.run routine.body ⟨.cls c, args⟩

/-! ## Instances -/

/-- A new instance with the defaults of its properties. -/
def constructBare (c : ClassRef) : Eval InstanceRef := do
  Eval.modify fun w => w.addInstance { properties := (w.classState c).properties.all }
  return ⟨← Eval.reads fun w => w.instances.size - 1, c⟩

/-- A new instance, initialized. When the initializer fails nothing keeps the
half-built instance. -/
def construct [Host] (c : ClassRef) (args : List Value) : Eval InstanceRef := do
  let i ← c.constructBare
  match (← Eval.reads fun w => (w.classState c).initializer) with
  | some routine => do
    let _ ← Host.run routine.body ⟨.inst i, args⟩
    return i
  | none => return i

end ClassRef

/-- Runs a bound operation, if its class is still alive. -/
def BoundOperation.call [Host] (b : BoundOperation) (args : List Value) : Eval Value := do
  if ← Eval.isAlive (.cls b.cls) then Host.run b.operation.body ⟨.cls b.cls, args⟩
  else Eval.fail (.detachedReceiver b.operation.name)

end DynamicObjects
