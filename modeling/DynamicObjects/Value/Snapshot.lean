import DynamicObjects.Value.Basic

/-!
# Snapshots

A value as an observer sees it at one moment: objects without an inside are named, and
an instance is opened to the properties it has then.
-/

namespace DynamicObjects

open Number

/-- What an observer sees. -/
inductive Snapshot where
  | undefined
  | none
  | boolean (b : Bool)
  | integer (n : Int64)
  | float (x : Binary64)
  | string (s : String)
  | array (items : List Snapshot)
  | typed (items : TypedArray)
  | map (entries : List (String × Snapshot))
  | iterable (label : String)
  | function (name : String)
  | cls (name : String)
  | inst (cls : String) (properties : List (String × Snapshot))
  | bound (name : String)
  | boundOperation (name : String)
  | proxy (cls : String)
  | method (name : String)
  | operation (name : String)
  | memberMethod (name : String)
  | memberOperation (name : String)
  | registry (size : Nat)

namespace Value

variable (expand : InstanceRef → Snapshot)

mutual

/-- The snapshot of a value, given how instances are opened. -/
def snapshot : Value → Snapshot
  | undefined => .undefined
  | none => .none
  | boolean b => .boolean b
  | integer n => .integer n
  | float x => .float x
  | string s => .string s
  | array items => .array (snapshotItems items)
  | typed items => .typed items
  | map entries => .map (snapshotEntries entries)
  | iterable _ label .. => .iterable label
  | foreign i => .iterable i.cls.displayName
  | function f => .function f.name
  | cls c => .cls c.displayName
  | inst i => expand i

def snapshotItems : List Value → List Snapshot
  | [] => []
  | v :: rest => snapshot v :: snapshotItems rest

def snapshotEntries : List (String × Value) → List (String × Snapshot)
  | [] => []
  | (key, v) :: rest => (key, snapshot v) :: snapshotEntries rest

end

end Value

end DynamicObjects
