import DynamicObjects.Entries.Index
import DynamicObjects.Value.Basic

/-!
# Equality of values

Data is equal when its structure is, and only within one kind: a whole number equals
no float, and what is no number equals nothing, itself included. Maps are equal
whatever the order of their keys. Functions, classes, instances and iterables equal
only themselves.
-/

namespace DynamicObjects.Value

mutual

/-- Structural equality, by identity where a value has one. -/
def same : Value → Value → Bool
  | undefined, undefined | none, none => true
  | boolean a, boolean b => a == b
  | integer a, integer b => a == b
  | float a, float b => a.numericallyEqual b
  | string a, string b => a == b
  | array a, array b => sameItems a b
  | typed a, typed b => a.same b
  | map a, map b => a.length == b.length && sameEntries a (Entries.index b)
  | iterable a .., iterable b .. => a == b
  | function a, function b => a.id == b.id
  | cls a, cls b => a.index == b.index
  | inst a, inst b | foreign a, foreign b => a.index == b.index
  | _, _ => false

/-- Equality of two lists of values, place by place. -/
def sameItems : List Value → List Value → Bool
  | [], [] => true
  | v :: vs, w :: ws => same v w && sameItems vs ws
  | _, _ => false

/-- Whether each of the entries has an equal value among others. -/
def sameEntries : List (String × Value) → Index Value → Bool
  | [], _ => true
  | (key, v) :: rest, others =>
    (match others[key]? with
      | some w => same v w
      | Option.none => false) && sameEntries rest others

end

end DynamicObjects.Value
