import DynamicObjects.Script.Form
import DynamicObjects.Value.Typed

/-!
# Scripts

The expressions that the bodies of functions, methods, operations and initializers
are made of. Literals are expressions too: a literal function or iterable is a new
object each time it is evaluated. Strict forms take a list of operands; the other
constructors decide themselves what is evaluated, and when.
-/

namespace DynamicObjects.Script

open Number

/-- What a class is declared from: bodies are kept, the other parts are evaluated. -/
structure Declaration (ε : Type) where
  /-- The name; a class without one is anonymous. -/
  name : Option String
  /-- The class extended. -/
  parent : Option ε
  /-- The body run on new instances. -/
  initializer : Option ε
  /-- Instance attributes with their defaults. -/
  properties : List (String × ε)
  /-- Class attributes with their first values. -/
  shared : List (String × ε)
  /-- Bodies of instance members. -/
  methods : List (String × ε)
  /-- Bodies of class members. -/
  operations : List (String × ε)

/-- Whether a member belongs to instances or to the class. -/
inductive MemberKind where
  | method
  | operation
  deriving DecidableEq, Repr

/-- Where a declared class goes. -/
inductive Destination where
  /-- Nowhere: it is only declared. -/
  | loose
  /-- Into a registry, the first operand. -/
  | registry
  /-- It is not declared at all; only its name is asked for. -/
  | nameOnly
  deriving DecidableEq, Repr

/-- An expression. -/
inductive Expr where
  | undefined
  | none
  | boolean (b : Bool)
  | integer (n : Int64)
  | float (x : Binary64)
  | string (s : String)
  | typed (items : TypedArray)
  /-- A new iterable of a length, with items, a failing length, and failing positions. -/
  | iterable (label : String) (length : Nat) (items : List Expr) (lengthFault : Option Expr)
      (faults : List (Nat × Expr))
  | function (name : String) (body : Expr)
  /-- A new function that runs a named operation. -/
  | builtin (b : Builtin)
  | variable (name : String)
  | assign (name : String) (value : Expr)
  | discard (name : String)
  /-- All arguments of the running body. -/
  | arguments
  /-- One argument of the running body. -/
  | argument (position : Expr)
  /-- What the running body acts on. -/
  | receiver
  | choose (condition consequent alternative : Expr)
  /-- Several expressions in turn. The last gives the value; the others are held till then. -/
  | sequence (parts : List Expr)
  /-- The value of an expression, or the description of its error. -/
  | attempt (body : Expr)
  /-- Visits a container, running the body for each element. -/
  | visit (container body : Expr)
  | fold (container body : Expr) (initial : Option Expr)
  /-- Runs with other settings. -/
  | configured (settings : Settings) (body : Expr)
  /-- Runs with reports collected apart. -/
  | recorded (body : Expr)
  /-- Runs with reports thrown away. -/
  | unrecorded (body : Expr)
  | declare (destination : Destination) (registry : Option Expr) (declaration : Declaration Expr)
  /-- Adds a member to a class. -/
  | addMember (kind : MemberKind) (cls : Expr) (name : String) (body : Expr)
  | perform (form : Form) (operands : List Expr)

end DynamicObjects.Script
