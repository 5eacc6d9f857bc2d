import DynamicObjects.Builtin.Listing

/-!
# Set operations and regrouping

Lists and maps as sets: lists by equality of elements, maps by keys. Lists can also be
regrouped into maps, by extracted keys or by pairs.
-/

namespace DynamicObjects

/-- Whether a value counts as the empty set. -/
def isEmptySet [Host] (v : Value) : Eval Bool := do
  if !v.isTruthy then return true
  if (← v.kind).isContainer then return (← v.length) == 0
  return false

/-- The members of a set as a list: the values of a map, the elements of a sequence. -/
def membersOf [Host] (v : Value) : Eval (List Value) := do
  match v with
  | .map entries => return Entries.values entries
  | v => return (← elementsOf? v).getD []

/-- The elements that equal one of some values, or those that equal none. The elements
kept are held meanwhile, and so are those still to be looked at. -/
def sift [Host] (wanted : Bool) (values : List Value) : List Value → Eval (List Value)
  | [] => return []
  | v :: rest => do
    let hit ← Eval.holding (.values (v :: rest)) (holdsEqual v values)
    if hit == wanted then return v :: (← Eval.holding (.values [v]) (sift wanted values rest))
    else sift wanted values rest

/-- The entries whose value equals none of some values. -/
def siftEntries [Host] (values : List Value) : Entries String Value →
    Eval (Entries String Value)
  | [] => return []
  | (key, v) :: rest => do
    let hit ← holdsEqual v values
    let kept ← siftEntries values rest
    return if hit then kept else (key, v) :: kept

/-- The members of the first set that are not in the second. A map loses the keys of
another map, or the entries with a value of a list. -/
def differenceOf [Host] (a b : Value) : Eval Value := do
  if ← isEmptySet a then return a
  if ← isEmptySet b then return a
  match (← a.kind), a with
  | .sequence, _ | .generic, _ =>
    let excluded ← membersOf b
    Eval.holding (.values excluded) do
      let items := (← elementsOf? a).getD []
      return .array (← sift false excluded items)
  | .associative, .map entries =>
    match b with
    | .map excluded =>
      let known := Entries.index excluded
      return .map (entries.filter fun entry => !known.contains entry.1)
    | b =>
      let excluded ← membersOf b
      return .map (← Eval.holding (.values excluded) (siftEntries excluded entries))
  | _, _ => reportUnsupported .difference a .none

/-- Fills the places of a list, counted from one on, into a map where it lacks them. -/
def fillPlaces : List Value → Nat → Draft Value → Draft Value
  | [], _, out => out
  | v :: rest, i, out =>
    let key := (Key.index i).toName
    fillPlaces rest (i + 1) (if lacks key out then out.insert key v else out)

/-- The members of the first set, then those of the second that it lacks. A list merged
into a map fills the keys that number its places. -/
def unionOf [Host] (a b : Value) : Eval Value := do
  if ← isEmptySet a then return b
  if ← isEmptySet b then return a
  match (← a.kind), a with
  | .sequence, _ | .generic, _ =>
    let items := (← elementsOf? a).getD []
    let extra ← Eval.holding (.values items) (membersOf b)
    return .array (← addMissing extra items.reverse).reverse
  | .associative, .map entries =>
    match b with
    | .map _ => mergeValues (← copyValue 1 a) b false
    | b => return .map (fillPlaces (← membersOf b) 0 (.ofList entries)).entries
  | _, _ => reportUnsupported .union a .none

/-- The entries of a map under the keys that some values name, where they are defined. -/
def selectEntries (index : Index Value) : List Value → Draft Value → Draft Value
  | [], out => out
  | key :: rest, out =>
    let name := key.text
    match index[name]?.filter Value.isDefined with
    | some v => selectEntries index rest (out.insert name v)
    | none => selectEntries index rest out

/-- The members that both sets have. Of a list and a map, the elements that name a key;
of two maps, the second one's entries; of a map and a list, the entries that the list
names. -/
def intersectionOf [Host] (a b : Value) : Eval Value := do
  if ← isEmptySet a then return .none
  match (← a.kind), a with
  | .sequence, _ | .generic, _ =>
    let items := (← elementsOf? a).getD []
    match b with
    | .map keys =>
      let known := Entries.index keys
      return .array (items.filter fun item => known.contains item.text)
    | b =>
      let other := (← Eval.holding (.values items) (elementsOf? b)).getD []
      return .array (← Eval.holding (.values other) (sift true other items))
  | .associative, .map entries =>
    match b with
    | .map other =>
      let known := Entries.index entries
      return .map (other.filter fun entry => known.contains entry.1)
    | b =>
      let names := (← elementsOf? b).getD []
      return .map (selectEntries (Entries.index entries) names .empty).entries
  | _, _ => reportUnsupported .intersection a .none

/-! ## Regrouping -/

/-- The walk that puts elements into a map by the text of an extracted key. -/
def Walk.indexBy [Host] (extractor : Function) (replacer : Option Function) :
    Walk (Draft Value) where
  keeps := .draft
  visit := fun out v key => do
    let name := (← callVisit extractor v key).text
    let stored ← match out.find? name, replacer with
      | some existing, some f => Host.call f [v, existing, .string name]
      | _, _ => pure v
    return (.proceed, out.insert name stored)

/-- A map of the elements by the text of an extracted key. Of elements with one key the
last is kept, or what the replacer makes of it and the one kept before. -/
def indexBy [Host] (container : Value) (extractor : Function) (replacer : Option Function) :
    Eval Value := do
  let (_, out) ← (Walk.indexBy extractor replacer).run .empty container
  return .map out.entries

/-- Puts pairs into a map; what is no pair with a key is left out. The map is held while a
pair is taken apart, and so are the pairs still to come. -/
def addCouples [Host] : List Value → Draft Value → Eval (Entries String Value)
  | [], out => return out.entries
  | couple :: rest, out => do
    let elements ← Eval.holding (.values (couple :: rest)) <|
      Eval.holding (.draft out) (elementsOf? couple)
    match elements with
    | some (key :: values) =>
      addCouples rest (out.insert key.text (values.head?.getD .undefined))
    | _ => addCouples rest out

/-- A map from pairs of key and value. -/
def couplesToMap [Host] (couples : Value) : Eval Value := do
  match (← elementsOf? couples) with
  | some items => return .map (← addCouples items .empty)
  | none => reportUnsupported .couplesAsMap couples .none

/-- Puts maps with a key and a value into a map; what has no key is left out. -/
def addItems : List Value → Draft Value → Draft Value
  | [], out => out
  | .map entry :: rest, out =>
    match (Entries.find? "key" entry).filter Value.isDefined with
    | some key => addItems rest
        (out.insert key.text ((Entries.find? "value" entry).getD .undefined))
    | none => addItems rest out
  | _ :: rest, out => addItems rest out

/-- A map from maps of key and value. -/
def itemsToMap [Host] (items : Value) : Eval Value := do
  match (← elementsOf? items) with
  | some list => return .map (addItems list .empty).entries
  | none => reportUnsupported .itemsAsMap items .none

end DynamicObjects
