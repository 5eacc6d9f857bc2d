import DynamicObjects.Builtin.Arguments

/-!
# Listings, single elements, copies

Keys, values, items and pairs list a container or the properties of an instance. Single
elements are found by position, counted from the end when negative, or by name. Copies
go a number of levels deep and turn generic iterables into arrays.
-/

namespace DynamicObjects

/-! ## Listings -/

/-- One value for each entry. Missing and absent values have none; what has no entries
has no listing. -/
def listing [Host] (shape : Key → Value → Value) (v : Value) : Eval Value := do
  if v.isAbsent then return .array []
  match (← entriesOf? v) with
  | some entries => return .array (entries.map fun (key, v) => shape key v)
  | none => return .none

def keysOf [Host] (v : Value) : Eval Value := do
  if v.isAbsent then return .none
  listing (fun key _ => key.toValue) v

def valuesOf [Host] (v : Value) : Eval Value := listing (fun _ v => v) v

/-- A map of key and value for each entry. -/
def itemsOf [Host] (v : Value) : Eval Value :=
  listing (fun key v => .map [("key", key.toValue), ("value", v)]) v

/-- An array of key and value for each entry. -/
def pairsOf [Host] (v : Value) : Eval Value :=
  listing (fun key v => .array [key.toValue, v]) v

/-! ## Single elements -/

/-- The element at a position, missing where there is none. Maps and instances are asked
for the position's name. -/
def elementAt [Host] (v : Value) (i : Nat) : Eval Value := do
  match v with
  | .string s => return (s.toList[i]?.map fun c => Value.string (String.ofList [c])).getD .undefined
  | .array _ => return v.elements[i]?.getD .undefined
  | .typed items => return (items.get? i).getD .undefined
  | .map entries => return (Entries.find? (Key.index i).toName entries).getD .undefined
  | other =>
    match (← other.view?), other with
    | some view, _ => if i < (← view.length) then view.element i else return .undefined
    | none, .inst object => Eval.reads fun w => w.property object (Key.index i).toName
    | none, _ => return .undefined

/-- A position counted from the end when it is negative, in sixty-four bits. -/
def resolveOffset [Host] (v : Value) (i : Int64) : Eval Int64 := do
  if 0 ≤ i then return i else return Int64.ofNat (← v.length) + i

/-- The element at an index. Only strings, sequences and generic iterables count from
the end; an index that is no whole number is the name of a key or a property. -/
def accessValue [Host] (v index : Value) : Eval Value := do
  match index with
  | .integer i =>
    if 0 ≤ i then elementAt v i.toInt.toNat
    else
      let counted := match v with
        | .string _ => true
        | _ => false
      if counted || (← v.kind).isListLike then
        let resolved ← resolveOffset v i
        if 0 ≤ resolved then elementAt v resolved.toInt.toNat else return .undefined
      else Eval.fail (.unsupportedType "access" v.typeName)
  | key =>
    match v with
    | .map entries => return (Entries.find? key.text entries).getD .undefined
    | .inst object => Eval.reads fun w => w.property object key.text
    | _ => return .undefined

/-! ## Copies -/

section Copying

variable (copyItem : Value → Eval Value)

/-- Copies of several values. Those still to be copied are held, and so are the copies
made. -/
def copyItems : List Value → Eval (List Value)
  | [] => return []
  | v :: rest => do
    let copied ← Eval.holding (.values (v :: rest)) (copyItem v)
    return copied :: (← Eval.holding (.values [copied]) (copyItems rest))

/-- Copies of the values of several entries. -/
def copyEntries : List (Key × Value) → Draft Value → Eval (Entries String Value)
  | [], out => return out.entries
  | (key, v) :: rest, out => do
    let copied ← Eval.holding (.elements ((key, v) :: rest)) <|
      Eval.holding (.draft out) (copyItem v)
    copyEntries rest (out.insert key.toName copied)

end Copying

/-- A copy so many levels deep. Values that are no containers stay as they are, typed
arrays too. -/
def copyValue [Host] : Nat → Value → Eval Value
  | 0, v => return v
  | depth + 1, v => do
    match v with
    | .typed items => return .typed items
    | v =>
      match (← v.kind) with
      | .associative =>
        let entries ← collect v
        return .map (← copyEntries (copyValue depth) entries .empty)
      | .sequence | .generic =>
        let items := (← collect v).map Prod.snd
        return .array (← copyItems (copyValue depth) items)
      | _ => return v

/-! ## Merging -/

/-- Adds to a list the values that equal none of its elements, one after the other. The
list is given and answered last element first. It is held meanwhile, and so are the
values still to be added. -/
def addMissing [Host] : List Value → List Value → Eval (List Value)
  | [], out => return out
  | v :: rest, out => do
    let known ← Eval.holding (.values (v :: rest)) <|
      Eval.holding (.values out) (holdsEqual v out.reverse)
    if known then addMissing rest out else addMissing rest (v :: out)

/-- Whether a map in the making lacks a key or has nothing defined under it. -/
def lacks (key : String) (draft : Draft Value) : Bool :=
  !((draft.find? key).map Value.isDefined).getD false

/-- Adds entries to a map: those that it lacks, or all of them. -/
def mergeEntries (replace : Bool) (extra entries : Entries String Value) : Entries String Value :=
  (extra.foldl (fun out (key, v) =>
    if lacks key out || replace then out.insert key v else out) (Draft.ofList entries)).entries

/-- Merges a second value into a first one: elements that an array does not have yet,
entries that a map lacks. When the kinds do not fit, the first comes back. -/
def mergeValues [Host] (v other : Value) (replace : Bool) : Eval Value := do
  match v with
  | .array items =>
    match (← elementsOf? other) with
    | some extra => return .array (← addMissing extra items.reverse).reverse
    | none => reportUnsupported .merge other v
  | .map entries =>
    match other with
    | .map extra => return .map (mergeEntries replace extra entries)
    | _ => reportUnsupported .merge other v
  | v => if v.isTruthy then reportUnsupported .merge v v else return v

end DynamicObjects
