import DynamicObjects.Builtin.Apply
import DynamicObjects.Objects.Registries

/-!
# Operands of forms

What an expression gives, read as what a form needs. A script whose operands are of the
wrong sort is not well formed.
-/

namespace DynamicObjects.Item

/-- Whether an item counts as true; a bare handle does not. -/
def isTruthy : Item → Bool
  | value v => v.isTruthy
  | _ => false

def toValue : Item → Eval Value
  | value v => return v
  | _ => Eval.illFormed

def toString : Item → Eval String
  | value (.string s) => return s
  | _ => Eval.illFormed

def toClass : Item → Eval ClassRef
  | value (.cls c) => return c
  | _ => Eval.illFormed

def toInstance : Item → Eval InstanceRef
  | value (.inst i) => return i
  | _ => Eval.illFormed

def toRegistry : Item → Eval Nat
  | handle (.registry id) => return id
  | _ => Eval.illFormed

def toProxy : Item → Eval SuperProxy
  | handle (.proxy p) => return p
  | _ => Eval.illFormed

def toValues : List Item → Eval (List Value)
  | [] => return []
  | x :: rest => do
    let v ← x.toValue
    return v :: (← toValues rest)

/-- An option as an item: a missing value when there is nothing. -/
def ofOption {α : Type} (make : α → Item) : Option α → Item
  | some a => make a
  | none => value .undefined

def ofString (s : String) : Item := value (.string s)

/-- The item of a flag. -/
def ofBool (b : Bool) : Item := value (.boolean b)

/-- The item of a count. -/
def ofNat (n : Nat) : Item := value (Value.ofNat n)

def ofClass (c : ClassRef) : Item := value (.cls c)

def ofStrings (strings : List String) : Item := value (.array (strings.map .string))

def missing : Item := value .undefined

end DynamicObjects.Item

namespace DynamicObjects

/-- What an observer sees of an item. -/
def World.snapshotItem (w : World) : Item → Snapshot
  | .value v => w.snapshot v
  | .flow _ => .undefined
  | .folded _ answer => w.snapshot answer
  | .handle (.boundMethod b) => .bound b.name
  | .handle (.boundOperation b) => .boundOperation b.operation.name
  | .handle (.proxy p) => .proxy p.cls.displayName
  | .handle (.method routine) => .method routine.name
  | .handle (.operation routine) => .operation routine.name
  | .handle (.member (.method routine)) => .memberMethod routine.name
  | .handle (.member (.operation routine)) => .memberOperation routine.name
  | .handle (.registry id) => .registry (w.registryState id).classes.length

end DynamicObjects
