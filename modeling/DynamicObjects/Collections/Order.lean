import DynamicObjects.Collections.Visit
import DynamicObjects.Entries.Index
import Std.Data.TreeSet
import Std.Data.TreeSet.Lemmas

/-!
# The order of values

Values of different ranks are ordered by rank: missing, absent, booleans, numbers,
strings, sequences, maps, functions, classes, instances. Within a rank:

* numbers by their exact value, whole numbers and floats mixed, what is no number last;
* strings by code point;
* sequences place by place, a shorter one before a longer one that it begins;
* maps over the sorted union of their keys, a side without a key first;
* functions by name, classes by place, instances by class and place.

Arrays, typed arrays and generic iterables are all sequences. A length that fails
counts as zero and an element that fails as missing, with a note.

The order goes down the first of the two values. Data is finite, so that needs no bound;
elements that scripts make may be nested without end, so each step into one takes fuel.

* `compareBy`: the order, given the order of elements that scripts make.
* `Value.compare`: the order.
-/

namespace DynamicObjects

open Number

/-- The place of a value among values of other ranks. -/
def World.rank (w : World) : Value → Nat
  | .undefined => 0
  | .none => 1
  | .boolean _ => 2
  | .integer _ | .float _ => 3
  | .string _ => 4
  | .array _ | .typed _ | .iterable .. | .foreign _ => 5
  | .map _ => 6
  | .function _ => 7
  | .cls _ => 8
  | .inst i => if w.isGeneric i.cls then 5 else 9

/-- Compares two values by rank, and in another way when their ranks are the same. -/
def byRank (a b : Value) (further : Eval Ordering) : Eval Ordering := do
  let w ← Eval.world
  if w.rank a ≠ w.rank b then return compare (w.rank a) (w.rank b) else further

/-- Compares a whole number or a float with another. -/
def compareNumbers : Value → Value → Ordering
  | .integer x, .integer y => compare x y
  | .integer x, .float y => y.read.compareWithInteger x
  | .float x, .integer y => (x.read.compareWithInteger y).swap
  | .float x, .float y => x.read.compare y.read
  | _, _ => .eq

/-- Compares two values of one rank that have no elements. -/
def compareAtoms : Value → Value → Ordering
  | .boolean x, .boolean y => compare x y
  | .string x, .string y => compare x y
  | .function x, .function y => (compare x.name y.name).then (compare x.id y.id)
  | .cls x, .cls y => compare x.index y.index
  | .inst x, .inst y => (compare x.cls.index y.cls.index).then (compare x.index y.index)
  | x, y => compareNumbers x y

/-- A value in a place of the first of two containers, and how it compares with others. -/
structure Place where
  value : Value
  compareTo : Value → Eval Ordering

/-- The place of a value that has no elements. -/
def Place.ofAtom (v : Value) : Place := ⟨v, fun other => byRank v other (return compareAtoms v other)⟩

/-- A place with nothing in it. -/
def Place.missing : Place := .ofAtom .undefined

/-! ## Sequences -/

/-- The length and the elements of a sequence. -/
def World.sequence? [Host] (w : World) (v : Value) : Option (View Value) :=
  match v with
  | .array _ => some (View.ofArray .undefined v.elements)
  | .typed items => some (View.ofArray .undefined items.values.toArray)
  | v => w.view? v

/-- The element at a position, or another one with a note where it cannot be had. -/
def View.elementOr {α : Type} (view : View α) (missing : α) (i : Nat) : Eval α := do
  match (← (view.element i).attempt) with
  | .ok v => return v
  | .error e =>
    Eval.report .debug ("cmp: element " ++ digitText i ++ " unavailable: " ++ e.message)
    return missing

/-- The length, zero where it cannot be had. -/
def View.lengthOrZero {α : Type} (view : View α) : Eval Nat := do
  match (← view.length.attempt) with
  | .ok n => return n
  | .error _ => return 0

/-- Compares a number of places of two sequences from a position on, given their
lengths. -/
def comparePlaces (left : View Place) (right : View Value) (leftLength rightLength : Nat) :
    Nat → Nat → Eval Ordering
  | 0, _ => return .eq
  | count + 1, i => do
    if i < leftLength then
      if i < rightLength then
        let x ← left.elementOr Place.missing i
        let y ← Eval.holding (.values [x.value]) (right.elementOr .undefined i)
        match (← Eval.holding (.values [x.value, y]) (x.compareTo y)) with
        | .eq => comparePlaces left right leftLength rightLength count (i + 1)
        | decided => return decided
      else return .gt
    else return .lt

/-- Compares a sequence with a value of its rank. -/
def compareSequence [Host] (left : View Place) (b : Value) : Eval Ordering := do
  match (← Eval.reads fun w => w.sequence? b) with
  | some right =>
    let leftLength ← left.lengthOrZero
    let rightLength ← right.lengthOrZero
    comparePlaces left right leftLength rightLength (max leftLength rightLength) 0
  | none => return .eq

/-! ## Maps -/

/-- The keys of two maps, each once, in order. -/
def sortedKeys {α β : Type} (a : Entries String α) (b : Entries String β) : List String :=
  (Std.TreeSet.ofList (Entries.keys a ++ Entries.keys b)).toList

theorem mem_sortedKeys {α β : Type} {a : Entries String α} {b : Entries String β}
    {key : String} : key ∈ sortedKeys a b ↔ key ∈ Entries.keys a ∨ key ∈ Entries.keys b := by
  simp [sortedKeys]

/-- Compares two maps over some keys. What has no defined value under a key comes first. -/
def compareUnder (a : Index Place) (b : Index Value) : List String → Eval Ordering
  | [] => return .eq
  | key :: rest => do
    let left := a[key]?.filter fun x => x.value.isDefined
    let right := b[key]?.filter Value.isDefined
    let decided ← match left, right with
      | some x, some y => x.compareTo y
      | none, some _ => pure .lt
      | some _, none => pure .gt
      | none, none => pure .eq
    match decided with
    | .eq => compareUnder a b rest
    | decided => return decided

/-- Compares a map with a value of its rank. -/
def compareMap (a : Entries String Place) (b : Value) : Eval Ordering := do
  match b with
  | .map b => compareUnder (Entries.index a) (Entries.index b) (sortedKeys a b)
  | _ => return .eq

/-! ## The order -/

section Order

variable [Host] (deeper : Value → Value → Eval Ordering)

mutual

/-- Compares two values, given how elements compare that scripts make. -/
def compareBy : Value → Value → Eval Ordering
  | .array items, b =>
    byRank (.array items) b
      (compareSequence (View.ofArray .missing (placesOf items).toArray) b)
  | .typed items, b =>
    byRank (.typed items) b
      (compareSequence (View.ofArray .missing (items.values.map Place.ofAtom).toArray) b)
  | .iterable id label length items lengthFault faults, b =>
    byRank (.iterable id label length items lengthFault faults) b
      (compareSequence
        (View.ofIterable .missing length (placesOf items).toArray lengthFault faults) b)
  | .foreign i, b =>
    byRank (.foreign i) b (compareSequence ((Host.foreign i).map fun v => ⟨v, deeper v⟩) b)
  | .map entries, b => byRank (.map entries) b (compareMap (namedPlacesOf entries) b)
  | .inst i, b =>
    byRank (.inst i) b (do
      match (← (Value.inst i).view?) with
      | some view => compareSequence (view.map fun v => ⟨v, deeper v⟩) b
      | none => return compareAtoms (.inst i) b)
  | a, b => byRank a b (return compareAtoms a b)

def placesOf : List Value → List Place
  | [] => []
  | v :: rest => ⟨v, compareBy v⟩ :: placesOf rest

/-- The places of a map, under their keys. -/
def namedPlacesOf : List (String × Value) → Entries String Place
  | [] => []
  | (key, v) :: rest => (key, ⟨v, compareBy v⟩) :: namedPlacesOf rest

end

theorem placesOf_eq_map (items : List Value) :
    placesOf deeper items = items.map fun v => ⟨v, compareBy deeper v⟩ := by
  induction items with
  | nil => rfl
  | cons v rest ih => simp [placesOf, ih]

theorem find?_namedPlacesOf (entries : Entries String Value) (key : String) :
    Entries.find? key (namedPlacesOf deeper entries) =
      (Entries.find? key entries).map fun v => ⟨v, compareBy deeper v⟩ := by
  induction entries with
  | nil => rfl
  | cons entry rest ih =>
    obtain ⟨name, v⟩ := entry
    by_cases h : name = key <;> simp [namedPlacesOf, Entries.find?, h, ih]

end Order

/-- Compares two values, elements made by scripts being nested at most so deep. -/
def compareWithin [Host] : Nat → Value → Value → Eval Ordering
  | 0 => compareBy fun _ _ => Eval.stuck .exhausted
  | fuel + 1 => compareBy (compareWithin fuel)

/-- Compares two values. -/
def Value.compare [Host] (a b : Value) : Eval Ordering := compareWithin Host.fuel a b

/-- Whether two values are equal in the order; a whole number may equal a float. -/
def Value.equals [Host] (a b : Value) : Eval Bool := do return (← a.compare b) == .eq

end DynamicObjects
