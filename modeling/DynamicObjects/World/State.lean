import DynamicObjects.Failure
import DynamicObjects.Members
import DynamicObjects.Value.Document
import DynamicObjects.Value.Snapshot

/-!
# The state of a session

A `World` holds the declared classes, the instances, the registries, the variables,
and what has been reported and traced. Classes and instances are never removed: one
that nothing refers to any more simply stays out of reach. The lines about handles
describe what scripts can hold besides values; all of them are fixed once made.
-/

namespace DynamicObjects

open Number Script

/-! ## Members and handles -/

/-- The body of a method, an operation or an initializer. Two routines are the same
when their numbers are. -/
structure Routine where
  id : Nat
  name : String
  body : Expr

/-- A member found by name: it acts on an instance or on a class. -/
inductive Member where
  | method (routine : Routine)
  | operation (routine : Routine)

/-- A member of an instance, found by name when it is called. -/
structure BoundMethod where
  id : Nat
  receiver : InstanceRef
  name : String
  /-- Whether calls get the receiver as a last argument. -/
  appendsReceiver : Bool

def BoundMethod.toFunction (b : BoundMethod) : Function :=
  ⟨b.id, b.name, .bound b.receiver b.name b.appendsReceiver⟩

/-- An operation of the class it was asked of. -/
structure BoundOperation where
  id : Nat
  cls : ClassRef
  operation : Routine

/-- An instance seen through one of its ancestors. -/
structure SuperProxy where
  id : Nat
  receiver : InstanceRef
  cls : ClassRef

/-- What scripts hold besides values. -/
inductive Handle where
  | boundMethod (b : BoundMethod)
  | boundOperation (b : BoundOperation)
  | proxy (p : SuperProxy)
  | method (routine : Routine)
  | operation (routine : Routine)
  | member (m : Member)
  | registry (index : Nat)

/-! ## Visits -/

/-- What a visit asks for next. -/
inductive Flow where
  /-- The next visit. -/
  | proceed
  | stop
  /-- No more visits, and an answer. -/
  | answer (payload : Value)

/-- How a row of visits ended. -/
inductive Outcome where
  | exhausted
  | broken
  | returned (payload : Value)

namespace Outcome

/-- Whether every element was visited. -/
def isExhausted : Outcome → Bool
  | exhausted => true
  | _ => false

/-- The answer, if a visit gave one. -/
def payload? : Outcome → Option Value
  | returned payload => some payload
  | _ => none

/-- The word for an outcome. -/
def label : Outcome → String
  | exhausted => "exhausted"
  | broken => "broken"
  | returned _ => "returned"

end Outcome

/-- What an expression gives. -/
inductive Item where
  | value (v : Value)
  | handle (h : Handle)
  /-- What the body of a visit asks for. -/
  | flow (f : Flow)
  /-- What the step of a fold leaves in the accumulator, and its answer. -/
  | folded (acc answer : Value)

/-! ## Classes, instances, registries -/

/-- A declared class. -/
structure ClassState where
  name : Option String := none
  parent : Option ClassRef := none
  initializer : Option Routine := none
  properties : Members Value := {}
  shared : Members Value := {}
  methods : Members Routine := {}
  operations : Members Routine := {}
  /-- The bound operations handed out, by name. -/
  boundOperations : Entries String BoundOperation := []

structure InstanceState where
  properties : Entries String Value := []
  boundMethods : Entries String BoundMethod := []
  /-- The proxies handed out, by the place of the ancestor. -/
  proxies : Entries Nat SuperProxy := []

/-- Classes by name. -/
structure Registry where
  settings : Settings := {}
  classes : Entries String ClassRef := []

/-- A report. -/
structure Diagnostic where
  level : Level
  message : String
  deriving DecidableEq, Repr

/-- The state of a session. -/
structure World where
  /-- The classes in order of declaration. -/
  classes : Array ClassState := #[]
  instances : Array InstanceState := #[]
  registries : Array Registry := #[]
  /-- The variables. -/
  bindings : Entries String Item := []
  /-- What has been reported and traced, the latest last. -/
  diagnostics : Array Diagnostic := #[]
  trace : Array Snapshot := #[]
  /-- The next free number for functions, routines and handles. -/
  nextId : Nat := 0

namespace World

/-! ## Looking things up -/

def classState (w : World) (c : ClassRef) : ClassState :=
  w.classes[c.index]?.getD {}

def instanceState (w : World) (i : InstanceRef) : InstanceState :=
  w.instances[i.index]?.getD {}

def registryState (w : World) (index : Nat) : Registry := w.registries[index]?.getD {}

/-- The class, its parent, the parent of that, and so on. A parent was declared
before its subclasses, so its place is smaller. -/
def lineage (w : World) (c : ClassRef) : List ClassRef :=
  match (w.classState c).parent with
  | some parent => if parent.index < c.index then c :: w.lineage parent else [c]
  | none => [c]
termination_by c.index

/-- Whether a class is another one or descends from it. -/
def isSubclassOf (w : World) (c ancestor : ClassRef) : Bool :=
  (w.lineage c).any fun a => a.index == ancestor.index

/-- Whether a value is an instance of a class or of a subclass. -/
def hasInstance (w : World) (c : ClassRef) : Value → Bool
  | .inst i => w.isSubclassOf i.cls c
  | _ => false

/-- Whether instances of a class have a member of a name. -/
def respondsTo (w : World) (c : ClassRef) (name : String) : Bool :=
  (w.classState c).methods.contains name || (w.classState c).operations.contains name

/-- The member of a name: a method, or else an operation. -/
def member? (w : World) (c : ClassRef) (name : String) : Option Member :=
  ((w.classState c).methods.get? name).map Member.method <|>
    ((w.classState c).operations.get? name).map Member.operation

def properties (w : World) (i : InstanceRef) : Entries String Value :=
  (w.instanceState i).properties

def property (w : World) (i : InstanceRef) (name : String) : Value :=
  (Entries.find? name (w.properties i)).getD .undefined

/-! ## Views of values -/

/-- An instance opened to its properties. `depth` bounds how far instances are followed;
properties that do not run in circles need no more than there are instances. -/
def openInstance (w : World) : Nat → InstanceRef → Snapshot
  | 0, i => .inst i.cls.displayName []
  | depth + 1, i =>
    .inst i.cls.displayName (Value.snapshotEntries (w.openInstance depth) (w.properties i))

/-- A value as it is seen now. -/
def snapshot (w : World) (v : Value) : Snapshot :=
  v.snapshot (w.openInstance (w.instances.size + 1))

/-- The document of an instance. Properties that run in circles have none, however deep
they are followed. -/
def instanceDocument? (w : World) : Nat → InstanceRef → Option Json
  | 0, _ => none
  | depth + 1, i =>
    (Value.toJsonEntries? (w.instanceDocument? depth) (w.properties i)).map .object

/-- The document of a value as it is now. -/
def document? (w : World) (v : Value) : Option Json :=
  v.toJson? (w.instanceDocument? (w.instances.size + 1))

end World

end DynamicObjects
