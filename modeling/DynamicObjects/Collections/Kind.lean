import DynamicObjects.Objects.Instances

/-!
# Kinds of values

A value is classified before it is taken apart: sequences, maps and generic iterables
are containers, everything else is not. An instance is a generic iterable when its class
has members for the length and for single elements; classifying it runs neither.

A `View` is what a generic iterable offers, a length and elements by position, both
of which may fail. Foreign tables tell what is written in them, other foreign containers
what the host has for them; instances run their members.
-/

namespace DynamicObjects

/-- The kinds of values. -/
inductive Kind where
  | sequence
  | associative
  | generic
  | scalar
  | function
  | instanceKind
  | undefined
  | none
  deriving DecidableEq, Repr

namespace Kind

/-- The word for a kind. -/
def label : Kind → String
  | sequence => "sequence"
  | associative => "associative"
  | generic => "iterable"
  | scalar => "scalar"
  | function => "function"
  | instanceKind => "instance"
  | undefined => "undefined"
  | none => "none"

/-- Whether values of a kind hold elements. -/
def isContainer : Kind → Bool
  | sequence | associative | generic => true
  | _ => false

/-- Whether values of a kind hold elements by position. -/
def isListLike : Kind → Bool
  | sequence | generic => true
  | _ => false

end Kind

/-- The member that tells a length. -/
def lengthMember : String := "length"

/-- The member that gives single elements. -/
def elementMember : String := "at"

namespace World

/-- Whether instances of a class are generic iterables. -/
def isGeneric (w : World) (c : ClassRef) : Bool :=
  w.respondsTo c lengthMember && w.respondsTo c elementMember

def kind (w : World) : Value → Kind
  | .undefined => .undefined
  | .none => .none
  | .boolean _ | .integer _ | .float _ | .string _ => .scalar
  | .array _ | .typed _ => .sequence
  | .map _ => .associative
  | .iterable .. | .foreign _ => .generic
  | .function _ | .cls _ => .function
  | .inst i => if w.isGeneric i.cls then .generic else .instanceKind

end World

/-- The kind of a value, now. -/
def Value.kind (v : Value) : Eval Kind := Eval.reads fun w => w.kind v

/-! ## Views -/

namespace View

variable {α β : Type}

/-- The view with something made of every element. -/
def map (f : α → β) (view : View α) : View β where
  length := view.length
  element := fun i => do return f (← view.element i)

/-- The view of elements that are all there, given what there is beyond their end. -/
def ofArray (beyond : α) (items : Array α) : View α where
  length := pure items.size
  element := fun i => pure (items[i]?.getD beyond)

/-- The view of a foreign table, given its items and what there is beyond their end. -/
def ofIterable (beyond : α) (length : Nat) (items : Array α) (lengthFault : Option Value)
    (faults : List (Nat × Value)) : View α where
  length := match lengthFault with
    | some raised => Eval.fail (.raised raised)
    | none => pure length
  element := fun i =>
    match Value.faultAt? faults i with
    | some raised => Eval.fail (.raised raised)
    | none => pure (items[i]?.getD beyond)

/-- The view of an instance whose class has the two members. -/
def ofInstance [Host] (i : InstanceRef) : View Value where
  length := do
    match (← i.invoke lengthMember []) with
    | .integer n =>
      if 0 ≤ n.toInt then return n.toInt.toNat
      else Eval.fail (.badLength i.cls.displayName (Value.integer n).typeName)
    | other => Eval.fail (.badLength i.cls.displayName other.typeName)
  element := fun n => i.invoke elementMember [Value.ofNat n]

end View

/-- The view of a value, if it is a generic iterable. -/
def World.view? [Host] (w : World) (v : Value) : Option (View Value) :=
  match v with
  | .iterable _ _ length _ lengthFault faults =>
    some (View.ofIterable .undefined length v.elements lengthFault faults)
  | .foreign i => some (Host.foreign i)
  | .inst i => if w.isGeneric i.cls then some (View.ofInstance i) else none
  | _ => none

/-- The view of a value, now. -/
def Value.view? [Host] (v : Value) : Eval (Option (View Value)) := Eval.reads fun w => w.view? v

/-- The number of elements, keys or characters; zero where there is no such thing. An
instance that is no iterable counts its properties. -/
def Value.length [Host] (v : Value) : Eval Nat := do
  match v with
  | .string s => return s.length
  | .array _ => return v.elements.size
  | .typed items => return items.length
  | .map entries => return entries.length
  | .iterable .. | .foreign _ | .inst _ =>
    match (← v.view?), v with
    | some view, _ => view.length
    | Option.none, .inst i => Eval.reads fun w => (w.properties i).length
    | Option.none, _ => return 0
  | _ => return 0

end DynamicObjects
