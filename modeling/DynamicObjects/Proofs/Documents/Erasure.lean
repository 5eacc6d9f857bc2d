import DynamicObjects.World.State
import Mathlib.Data.Finset.Card
import Mathlib.Logic.Relation

/-!
# What documents keep

Documents have no missing values, functions, classes, foreign iterables or floats that are not
finite, so these become absent; a typed array becomes an array and an instance the map of its
properties. This is all that is lost: reading back the document of a value gives what is kept of
the value, and a document that values can have in full is the one of the value read from it.

An instance is followed through its properties. A chain of instances that does not come back to
one of its own visits each place in the store once, so following as many as there are is enough.

* `Value.erase`, `World.erase`: what is kept of a value.
* `World.not_chain`: chains of instances are short.
* `document_round_trip`: values, documents, and back.
-/

namespace DynamicObjects

open Number

/-! ## What is kept -/

namespace Value

/-- What is kept of an element of a typed array. -/
def eraseNumber : Value → Value
  | float x => if x.isFinite then float x else none
  | v => v

section Erase

variable (opened : InstanceRef → Value)

mutual

/-- What documents keep of a value, given what they keep of instances. -/
def erase : Value → Value
  | undefined | none | iterable .. | foreign _ | function _ | cls _ => none
  | boolean b => boolean b
  | integer n => integer n
  | float x => eraseNumber (float x)
  | string s => string s
  | array items => array (eraseItems items)
  | typed items => array (items.values.map eraseNumber)
  | map entries => map (eraseEntries entries)
  | inst i => opened i

/-- What is kept of several values. -/
def eraseItems : List Value → List Value
  | [] => []
  | v :: rest => erase v :: eraseItems rest

/-- What is kept of entries. -/
def eraseEntries : List (String × Value) → List (String × Value)
  | [] => []
  | (key, v) :: rest => (key, erase v) :: eraseEntries rest

end

end Erase

/-- An instance is part of the document of a value. -/
inductive Shows : Value → InstanceRef → Prop
  | inst (i : InstanceRef) : Shows (.inst i) i
  | item {items : List Value} {v : Value} {i : InstanceRef} (hv : v ∈ items) (h : Shows v i) :
    Shows (.array items) i
  | entry {entries : List (String × Value)} {entry : String × Value} {i : InstanceRef}
    (hentry : entry ∈ entries) (h : Shows entry.2 i) : Shows (.map entries) i

/-- No map in a value has a key twice. Maps are filled by `Entries.insert`, which keeps keys apart,
so it is only a list of entries written down by hand that fails this. -/
inductive Keyed : Value → Prop
  | array {items : List Value} (h : ∀ v ∈ items, Keyed v) : Keyed (.array items)
  | map {entries : Entries String Value} (hkeys : entries.Distinct)
    (h : ∀ entry ∈ entries, Keyed entry.2) : Keyed (.map entries)
  | leaf {v : Value} (harray : ∀ items, v ≠ .array items) (hmap : ∀ entries, v ≠ .map entries) :
    Keyed v

end Value

/-- A document that values have in full: integers of sixty-four bits, finite floats, and no key
twice in an object. -/
inductive Json.Fits : Json → Prop
  | null : Fits .null
  | boolean (b : Bool) : Fits (.boolean b)
  | integer {n : Int} (h : Int64.minValue.toInt ≤ n ∧ n ≤ Int64.maxValue.toInt) : Fits (.integer n)
  | real {x : Binary64} (h : x.isFinite = true) : Fits (.real x)
  | string (s : String) : Fits (.string s)
  | array {items : List Json} (h : ∀ item ∈ items, Fits item) : Fits (.array items)
  | object {entries : Entries String Json} (hkeys : entries.Distinct)
    (h : ∀ entry ∈ entries, Fits entry.2) : Fits (.object entries)

namespace World

/-- What is kept of an instance, so many instances deep. -/
def erasedInstance (w : World) : Nat → InstanceRef → Value
  | 0, _ => .none
  | depth + 1, i => .map (Value.eraseEntries (w.erasedInstance depth) (w.properties i))

/-- What documents keep of a value. -/
def erase (w : World) (v : Value) : Value := v.erase (w.erasedInstance (w.instances.size + 1))

/-- A property of the one instance shows the other. -/
def LeadsTo (w : World) (i j : InstanceRef) : Prop := (Value.map (w.properties i)).Shows j

/-- There is a chain of so many properties from an instance on. -/
def Chain (w : World) : Nat → InstanceRef → Prop
  | 0, _ => True
  | count + 1, i => ∃ j, w.LeadsTo i j ∧ w.Chain count j

end World

variable {opened opened' : InstanceRef → Value} {expand : InstanceRef → Option Json} {w : World}

namespace Value

theorem eraseItems_eq_map (items : List Value) :
    eraseItems opened items = items.map (erase opened) := by
  induction items with
  | nil => rfl
  | cons v rest ih => rw [eraseItems, ih, List.map_cons]

theorem keys_eraseEntries (entries : Entries String Value) :
    Entries.keys (eraseEntries opened entries) = entries.keys := by
  induction entries with
  | nil => rfl
  | cons entry rest ih => exact congrArg (entry.1 :: ·) ih

/-- Of a typed array is kept what is kept of the array of its widened elements. -/
theorem erase_typed (items : TypedArray) :
    (typed items).erase opened = (array items.values).erase opened := by
  rw [erase, erase, eraseItems_eq_map]
  cases items <;> simp [TypedArray.values, erase, eraseNumber]

mutual

/-- What is kept of a value depends on the instances that it shows only. -/
theorem erase_congr : (v : Value) → (∀ i, v.Shows i → opened i = opened' i) →
    v.erase opened = v.erase opened'
  | undefined, _ | none, _ | iterable .., _ | foreign _, _ | function _, _ | cls _, _
  | boolean _, _ | integer _, _ | float _, _ | string _, _ | typed _, _ => rfl
  | array items, h => congrArg array (eraseItems_congr items fun _ hv i hi => h i (.item hv hi))
  | map entries, h =>
    congrArg map (eraseEntries_congr entries fun _ hentry i hi => h i (.entry hentry hi))
  | inst i, h => h i (.inst i)

theorem eraseItems_congr : (items : List Value) →
    (∀ v ∈ items, ∀ i, v.Shows i → opened i = opened' i) →
    eraseItems opened items = eraseItems opened' items
  | [], _ => rfl
  | v :: rest, h => congrArg₂ List.cons (erase_congr v (h v List.mem_cons_self))
      (eraseItems_congr rest fun u hu => h u (List.mem_cons_of_mem v hu))

theorem eraseEntries_congr : (entries : List (String × Value)) →
    (∀ entry ∈ entries, ∀ i, entry.2.Shows i → opened i = opened' i) →
    eraseEntries opened entries = eraseEntries opened' entries
  | [], _ => rfl
  | (key, v) :: rest, h =>
    congrArg₂ List.cons (congrArg (Prod.mk key) (erase_congr v (h (key, v) List.mem_cons_self)))
      (eraseEntries_congr rest fun entry hentry => h entry (List.mem_cons_of_mem _ hentry))

end

end Value

/-! ## Chains of instances -/

namespace World

variable {i j : InstanceRef}

/-- Only what is in the store leads anywhere. -/
theorem LeadsTo.index_lt (h : w.LeadsTo i j) : i.index < w.instances.size := by
  by_contra hindex
  have hnone : w.properties i = [] := by
    simp [properties, instanceState, Array.getElem?_eq_none (Nat.le_of_not_lt hindex)]
  rw [LeadsTo, hnone] at h
  cases h with
  | entry hentry => cases hentry

/-- Instances at one place lead to the same ones. -/
theorem LeadsTo.of_index {k : InstanceRef} (h : w.LeadsTo i j) (hindex : k.index = i.index) :
    w.LeadsTo k j := by
  have hproperties : w.properties k = w.properties i := by
    rw [properties, properties, instanceState, instanceState, hindex]
  rw [LeadsTo, hproperties]
  exact h

/-- Where no circle can be come to, no chain has more properties than there are instances: a
chain uses up the places that it comes by. -/
theorem not_chain {start : InstanceRef} (hcircles : ∀ i, Relation.ReflTransGen w.LeadsTo start i →
    ¬ Relation.TransGen w.LeadsTo i i) : ¬ w.Chain (w.instances.size + 1) start := by
  suffices ∀ (count : Nat) (visited : Finset Nat) (i : InstanceRef),
      Relation.ReflTransGen w.LeadsTo start i → visited ⊆ Finset.range w.instances.size →
      (∀ k : InstanceRef, k.index ∈ visited → Relation.TransGen w.LeadsTo k i) →
      w.instances.size < visited.card + count → ¬ w.Chain count i from
    this _ ∅ start .refl (by simp) (by simp) (by simp)
  intro count
  induction count with
  | zero =>
    intro visited i _ hvisited _ hcard _
    have hle := Finset.card_le_card hvisited
    rw [Finset.card_range] at hle
    omega
  | succ count ih =>
    rintro visited i hstart hvisited hpaths hcard ⟨j, hij, hchain⟩
    have hfresh : i.index ∉ visited := fun hmem => hcircles i hstart (hpaths i hmem)
    refine ih (insert i.index visited) j (hstart.tail hij) ?_ ?_ ?_ hchain
    · exact Finset.insert_subset (Finset.mem_range.mpr hij.index_lt) hvisited
    · intro k hk
      rcases Finset.mem_insert.mp hk with hk | hk
      · exact .single (hij.of_index hk)
      · exact .tail (hpaths k hk) hij
    · rw [Finset.card_insert_of_notMem hfresh]
      omega

/-- What is kept of an instance is there once all chains from it have come to their end. -/
theorem erasedInstance_succ {depth : Nat} (h : ¬ w.Chain depth i) :
    w.erasedInstance (depth + 1) i = w.erasedInstance depth i := by
  induction depth generalizing i with
  | zero => exact absurd trivial h
  | succ depth ih =>
    change (Value.map (w.properties i)).erase _ = (Value.map (w.properties i)).erase _
    exact Value.erase_congr _ fun j hj => ih fun hchain => h ⟨j, hj, hchain⟩

/-- Of an instance is kept what is kept of the map of its properties. -/
theorem erase_inst (hcircles : ∀ i, ¬ Relation.TransGen w.LeadsTo i i) (i : InstanceRef) :
    w.erase (.inst i) = w.erase (.map (w.properties i)) := by
  change (Value.map (w.properties i)).erase _ = (Value.map (w.properties i)).erase _
  apply Value.erase_congr
  intro j hj
  have hshort : ¬ w.Chain (w.instances.size + 1) i := not_chain fun k _ => hcircles k
  exact (erasedInstance_succ fun hchain => hshort ⟨j, hj, hchain⟩).symm

end World

/-! ## Documents of values -/

namespace Value

/-- A value has a document that says what is kept of the value, in full. -/
def Told (expand : InstanceRef → Option Json) (opened : InstanceRef → Value) (v : Value) : Prop :=
  ∃ j, v.toJson? expand = some j ∧ ofJson j = v.erase opened ∧ j.Fits

theorem ofJson_integer (n : Int64) : ofJson (.integer n.toInt) = integer n := by
  rw [ofJson, if_pos ⟨n.minValue_le_toInt, n.toInt_le⟩, Int64.ofInt_toInt]

theorem ofJsonItems_eq_map (items : List Json) : ofJsonItems items = items.map ofJson := by
  induction items with
  | nil => rfl
  | cons item rest ih => rw [ofJsonItems, ih, List.map_cons]

theorem ofJsonEntries_eq_map (entries : List (String × Json)) :
    ofJsonEntries entries = entries.map fun entry => (entry.1, ofJson entry.2) := by
  induction entries with
  | nil => rfl
  | cons entry rest ih => exact congrArg ((entry.1, ofJson entry.2) :: ·) ih

theorem keys_ofJsonEntries (entries : Entries String Json) :
    Entries.keys (ofJsonEntries entries) = entries.keys := by
  rw [ofJsonEntries_eq_map, Entries.keys, List.map_map]
  rfl

theorem distinct_ofJsonEntries {entries : Entries String Json} (h : entries.Distinct) :
    Entries.Distinct (ofJsonEntries entries) := by
  rw [Entries.Distinct, keys_ofJsonEntries]
  exact h

theorem toJsonItems?_map {α : Type} {f : α → Value} {g : α → Json}
    (h : ∀ a, (f a).toJson? expand = some (g a)) (items : List α) :
    toJsonItems? expand (items.map f) = some (items.map g) := by
  induction items with
  | nil => rfl
  | cons a rest ih => simp [toJsonItems?, h a, ih]

/-- The document of a typed array is the one of the array of its widened elements. -/
theorem toJson?_typed (items : TypedArray) :
    (typed items).toJson? expand = (array items.values).toJson? expand := by
  have hitems : toJsonItems? expand items.values = some (typedToJson items) := by
    cases items with
    | int8 | int16 | int32 => exact toJsonItems?_map (fun n => by simp [toJson?]) _
    | float32 | float64 => exact toJsonItems?_map (fun x => by rw [toJson?]) _
  rw [toJson?, toJson?, hitems, Option.map_some]

theorem told_integer (n : Int64) : (integer n).Told expand opened :=
  ⟨.integer n.toInt, rfl, ofJson_integer n, .integer ⟨n.minValue_le_toInt, n.toInt_le⟩⟩

theorem told_float (x : Binary64) : (float x).Told expand opened := by
  refine ⟨floatToJson x, rfl, ?_⟩
  rw [erase, eraseNumber, floatToJson]
  split
  · rename_i hfinite
    exact ⟨rfl, .real hfinite⟩
  · exact ⟨rfl, .null⟩

theorem told_array {items : List Value} (h : ∀ v ∈ items, v.Told expand opened) :
    (array items).Told expand opened := by
  have hitems : ∃ js, toJsonItems? expand items = some js ∧
      ofJsonItems js = eraseItems opened items ∧ ∀ j ∈ js, j.Fits := by
    induction items with
    | nil => exact ⟨[], rfl, rfl, by simp⟩
    | cons v rest ih =>
      obtain ⟨j, hj, herase, hfits⟩ := h v List.mem_cons_self
      obtain ⟨js, hjs, herases, hall⟩ := ih fun u hu => h u (List.mem_cons_of_mem v hu)
      refine ⟨j :: js, by simp [toJsonItems?, hj, hjs], ?_, List.forall_mem_cons.mpr ⟨hfits, hall⟩⟩
      rw [ofJsonItems, eraseItems, herase, herases]
  obtain ⟨js, hjs, herase, hfits⟩ := hitems
  refine ⟨.array js, by rw [toJson?, hjs, Option.map_some], ?_, .array hfits⟩
  rw [ofJson, erase, herase]

theorem told_map {entries : Entries String Value} (hkeys : entries.Distinct)
    (h : ∀ entry ∈ entries, entry.2.Told expand opened) : (map entries).Told expand opened := by
  have hentries : ∃ js, toJsonEntries? expand entries = some js ∧
      ofJsonEntries js = eraseEntries opened entries ∧ ∀ entry ∈ js, entry.2.Fits := by
    clear hkeys
    induction entries with
    | nil => exact ⟨[], rfl, rfl, by simp⟩
    | cons entry rest ih =>
      obtain ⟨key, v⟩ := entry
      obtain ⟨j, hj, herase, hfits⟩ := h (key, v) List.mem_cons_self
      obtain ⟨js, hjs, herases, hall⟩ := ih fun entry hentry =>
        h entry (List.mem_cons_of_mem _ hentry)
      refine ⟨(key, j) :: js, by simp [toJsonEntries?, hj, hjs], ?_,
        List.forall_mem_cons.mpr ⟨hfits, hall⟩⟩
      rw [ofJsonEntries, eraseEntries, herase, herases]
  obtain ⟨js, hjs, herase, hfits⟩ := hentries
  have hdistinct : Entries.Distinct (eraseEntries opened entries) := by
    rw [Entries.Distinct, keys_eraseEntries]
    exact hkeys
  have hdistinct' : Entries.Distinct js := by
    rw [Entries.Distinct, ← keys_ofJsonEntries, herase]
    exact hdistinct
  refine ⟨.object js, by rw [toJson?, hjs, Option.map_some], ?_, .object hdistinct' hfits⟩
  rw [ofJson, erase, herase, Entries.ofList_of_distinct hdistinct]

/-- The document of a value tells what is kept of it when those of the instances that it shows
do. -/
theorem told_of_shows {v : Value} (hv : v.Keyed)
    (hopened : ∀ i, v.Shows i → (inst i).Told expand opened) : v.Told expand opened := by
  induction hv with
  | array _ ih => exact told_array fun v hv => ih v hv fun i hi => hopened i (.item hv hi)
  | map hkeys _ ih =>
    exact told_map hkeys fun entry hentry => ih entry hentry fun i hi =>
      hopened i (.entry hentry hi)
  | @leaf v harray hmap =>
    cases v with
    | array items => exact absurd rfl (harray items)
    | map entries => exact absurd rfl (hmap entries)
    | undefined | none | iterable | foreign | function | cls => exact ⟨.null, rfl, rfl, .null⟩
    | boolean b => exact ⟨.boolean b, rfl, rfl, .boolean b⟩
    | integer n => exact told_integer n
    | float x => exact told_float x
    | string s => exact ⟨.string s, rfl, rfl, .string s⟩
    | typed items =>
      rw [Told, toJson?_typed, erase_typed]
      refine told_array fun v hv => ?_
      cases items <;> obtain ⟨x, -, rfl⟩ := List.mem_map.mp hv
      case int8 | int16 | int32 => exact told_integer _
      case float32 | float64 => exact told_float _
    | inst i => exact hopened i (.inst i)

theorem toJsonItems?_ofJsonItems {items : List Json}
    (h : ∀ item ∈ items, (ofJson item).toJson? expand = some item) :
    toJsonItems? expand (ofJsonItems items) = some items := by
  induction items with
  | nil => rfl
  | cons item rest ih =>
    have hitem := h item List.mem_cons_self
    have hrest := ih fun other hother => h other (List.mem_cons_of_mem item hother)
    simp [ofJsonItems, toJsonItems?, hitem, hrest]

theorem toJsonEntries?_ofJsonEntries {entries : Entries String Json}
    (h : ∀ entry ∈ entries, (ofJson entry.2).toJson? expand = some entry.2) :
    toJsonEntries? expand (ofJsonEntries entries) = some entries := by
  induction entries with
  | nil => rfl
  | cons entry rest ih =>
    have hentry := h entry List.mem_cons_self
    have hrest := ih fun other hother => h other (List.mem_cons_of_mem entry hother)
    simp [ofJsonEntries, toJsonEntries?, hentry, hrest]

/-- A document that values have in full is the document of the value read from it. -/
theorem toJson?_ofJson {j : Json} (hj : j.Fits) : (ofJson j).toJson? expand = some j := by
  induction hj with
  | null | boolean | string => rfl
  | @integer n h =>
    have hn : (Int64.ofInt n).toInt = n := by
      apply Int64.toInt_ofInt_of_le h.1
      have hmax : Int64.maxValue.toInt = 2 ^ 63 - 1 := by decide
      omega
    rw [ofJson, if_pos h, toJson?, hn]
  | real h => rw [ofJson, toJson?, floatToJson, if_pos h]
  | array _ ih => rw [ofJson, toJson?, toJsonItems?_ofJsonItems ih, Option.map_some]
  | object hkeys _ ih =>
    rw [ofJson, Entries.ofList_of_distinct (distinct_ofJsonEntries hkeys), toJson?,
      toJsonEntries?_ofJsonEntries ih, Option.map_some]

end Value

/-! ## There and back -/

namespace World

/-- The document of an instance tells what is kept of it once all chains from it have come to
their end. -/
theorem told_inst (hkeyed : ∀ i, (Value.map (w.properties i)).Keyed) {depth : Nat}
    {i : InstanceRef} (h : ¬ w.Chain depth i) :
    (Value.inst i).Told (w.instanceDocument? depth) (w.erasedInstance depth) := by
  induction depth generalizing i with
  | zero => exact absurd trivial h
  | succ depth ih =>
    change (Value.map (w.properties i)).Told (w.instanceDocument? depth) (w.erasedInstance depth)
    exact Value.told_of_shows (hkeyed i) fun j hj => ih fun hchain => h ⟨j, hj, hchain⟩

end World

/-- **Documents keep all but what they do not have.** When no instance comes back to itself
through properties, every value has a document, and reading the document gives what is kept of
the value, where of an instance is kept what is kept of the map of its properties. What has been
read has the same document, and so has what is read from any document that values have in full:
it is that document, with its keys in order. -/
theorem document_round_trip (hcircles : ∀ i, ¬ Relation.TransGen w.LeadsTo i i)
    (hkeyed : ∀ i, (Value.map (w.properties i)).Keyed) :
    (∀ i, w.erase (.inst i) = w.erase (.map (w.properties i))) ∧
    (∀ v : Value, v.Keyed → ∃ j, w.document? v = some j ∧ Value.ofJson j = w.erase v ∧
      w.document? (Value.ofJson j) = some j) ∧
    ∀ j : Json, j.Fits → w.document? (Value.ofJson j) = some j := by
  refine ⟨World.erase_inst hcircles, ?_, ?_⟩
  · intro v hv
    obtain ⟨j, hj, herase, hfits⟩ := Value.told_of_shows hv fun i _ =>
      World.told_inst hkeyed (World.not_chain fun k _ => hcircles k)
    exact ⟨j, hj, herase, Value.toJson?_ofJson hfits⟩
  · intro j hj
    exact Value.toJson?_ofJson hj

/-- An instance that leads to another one, which has a typed array and a float that is none. -/
theorem document_round_trip_linked :
    let first : InstanceRef := ⟨0, ⟨0, "Node"⟩⟩
    let second : InstanceRef := ⟨1, ⟨0, "Node"⟩⟩
    let w : World := { instances := #[{ properties := [("next", .array [.inst second])] },
      { properties := [("z", .typed (.int8 [-1])), ("a", .float .nan)] }] }
    let v : Value := .map [("root", .inst first), ("gone", .undefined)]
    let kept : Value := .map [("root", .map [("next", .array [.map [("z", .array [.integer (-1)]),
      ("a", .none)]])]), ("gone", .none)]
    ((∀ i, ¬ Relation.TransGen w.LeadsTo i i) ∧ (∀ i, (Value.map (w.properties i)).Keyed) ∧
      v.Keyed) ∧
    w.erase v = kept ∧
    ∃ j, w.document? v = some j ∧ Value.ofJson j = kept ∧ w.document? kept = some j := by
  intro first second w v kept
  have hproperties (i : InstanceRef) : w.properties i =
      if i.index = 0 then [("next", .array [.inst second])]
      else if i.index = 1 then [("z", .typed (.int8 [-1])), ("a", .float .nan)] else [] := by
    rcases i with ⟨_ | _ | index, c⟩ <;> rfl
  have hleads (i j : InstanceRef) (h : w.LeadsTo i j) : i.index < j.index := by
    rw [World.LeadsTo, hproperties] at h
    split at h
    · rename_i hi
      rcases h with _ | _ | ⟨hentry, h⟩
      obtain rfl := List.mem_singleton.mp hentry
      rcases h with _ | ⟨hv, h⟩
      obtain rfl := List.mem_singleton.mp hv
      cases h
      rw [hi]
      exact Nat.one_pos
    · split at h <;> rcases h with _ | _ | ⟨hentry, h⟩
      · simp only [List.mem_cons, List.not_mem_nil, or_false] at hentry
        rcases hentry with rfl | rfl <;> cases h
      · cases hentry
  have hcircles (i : InstanceRef) : ¬ Relation.TransGen w.LeadsTo i i := by
    intro h
    have hlt (j : InstanceRef) (hij : Relation.TransGen w.LeadsTo i j) : i.index < j.index := by
      induction hij with
      | single hij => exact hleads _ _ hij
      | tail _ hjk ih => exact ih.trans (hleads _ _ hjk)
    exact (hlt i h).false
  have hkeyed (i : InstanceRef) : (Value.map (w.properties i)).Keyed := by
    rw [hproperties]
    split
    · refine .map (show List.Nodup _ by decide) (List.forall_mem_singleton.mpr ?_)
      exact .array (List.forall_mem_singleton.mpr (.leaf nofun nofun))
    · split
      · refine .map (show List.Nodup _ by decide) ?_
        exact List.forall_mem_cons.mpr
          ⟨.leaf nofun nofun, List.forall_mem_singleton.mpr (.leaf nofun nofun)⟩
      · exact .map List.nodup_nil (by simp)
  have hv : v.Keyed := by
    refine .map (show List.Nodup _ by decide) ?_
    exact List.forall_mem_cons.mpr
      ⟨.leaf nofun nofun, List.forall_mem_singleton.mpr (.leaf nofun nofun)⟩
  have herase : w.erase v = kept := rfl
  obtain ⟨-, hround, -⟩ := document_round_trip hcircles hkeyed
  obtain ⟨j, hj, hread, hagain⟩ := hround v hv
  rw [herase] at hread
  rw [hread] at hagain
  exact ⟨⟨hcircles, hkeyed, hv⟩, herase, j, hj, hread, hagain⟩

end DynamicObjects
