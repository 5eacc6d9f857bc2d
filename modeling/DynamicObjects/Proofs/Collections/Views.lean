import DynamicObjects.Proofs.Classes.Inheritance
import DynamicObjects.Proofs.Collections.Searching

/-!
# Views

The keys of a value, its values, its items and its pairs are views of one thing, its entries: of a
container those that it has, of an instance that is no iterable its properties. So all of them are
as long as the value and in the same order, no key comes twice, and a single element is found under
its key. A map counts nothing: a number asks for the entry that the number's digits name.

* `World.Shows`: the entries of a value in a world.
* `Run.distinct_properties`: no property of an instance comes twice.
* `views_agree`: views, length and single elements tell the same entries.
-/

namespace DynamicObjects

open Number

/-- The entries that a value shows in a world: those of a container, or the properties of an
instance that is no iterable. -/
inductive World.Shows (w : World) : Value → List (Key × Value) → Prop
  | container {c : Value} {entries : List (Key × Value)} (h : c.HasEntries entries) :
      Shows w c entries
  | properties {i : InstanceRef} (hplain : w.isGeneric i.cls = false)
      (hdistinct : Entries.Distinct (w.properties i)) :
      Shows w (.inst i) (namedEntries (w.properties i))

variable {w : World} {c : Value} {entries : List (Key × Value)} {entry : Key × Value}

theorem toValue_namedEntries (names : List (String × Value)) :
    ((namedEntries names).map fun entry => entry.1.toValue) =
      (Entries.keys names).map Value.string := by
  rw [namedEntries, List.map_map, Entries.keys, List.map_map]
  rfl

namespace World.Shows

theorem isAbsent_eq (h : w.Shows c entries) : c.isAbsent = false := by
  cases h with
  | container h => exact h.isAbsent_eq
  | properties => rfl

/-- No key comes twice. -/
theorem nodup_keys (h : w.Shows c entries) (hfits : entries.length ≤ Int64.maxValue.toInt) :
    (entries.map fun entry => entry.1.toValue).Nodup := by
  cases h with
  | container h =>
    have hkeys := (h.nodup_toValue hfits).1
    rwa [List.map_map] at hkeys
  | properties _ hdistinct =>
    rw [toValue_namedEntries]
    exact List.Nodup.map (fun _ _ => Value.string.inj) hdistinct

section Reading

variable [Host] (h : w.Shows c entries)
include h

theorem yields_entriesOf? : (entriesOf? c).Yields w (some entries) := by
  cases h with
  | container h =>
    rw [h.entriesOf?_eq]
    exact Eval.yields_pure _
  | @properties i hplain =>
    have hkind : (Value.inst i).kind.Yields w .instanceKind :=
      Eval.yields_reads fun _ => if_neg (Bool.eq_false_iff.mp hplain)
    have hproperties : (Eval.reads fun w => w.properties i).Yields w (w.properties i) :=
      Eval.yields_reads fun _ => rfl
    exact Eval.yields_bind hkind (Eval.yields_bind hproperties (Eval.yields_pure _))

theorem yields_length : c.length.Yields w entries.length := by
  cases h with
  | container h =>
    cases h with
    | @sequence _ items h =>
      rw [h.length_eq, ← List.length_map Prod.snd, map_snd_indexedFrom]
      exact Eval.yields_pure _
    | map =>
      rw [namedEntries, List.length_map]
      exact Eval.yields_pure _
  | @properties i hplain =>
    have hview : (Value.inst i).view?.Yields w none :=
      Eval.yields_reads fun _ => if_neg (Bool.eq_false_iff.mp hplain)
    rw [namedEntries, List.length_map]
    exact Eval.yields_bind hview (Eval.yields_reads fun _ => rfl)

/-- Each view has one value for each entry. -/
theorem yields_listing (shape : Key → Value → Value) :
    (listing shape c).Yields w (.array (entries.map fun entry => shape entry.1 entry.2)) := by
  unfold listing
  rw [h.isAbsent_eq]
  exact Eval.yields_bind h.yields_entriesOf? (Eval.yields_pure _)

/-- A single element is found under its key. -/
theorem yields_accessValue (hfits : entries.length ≤ Int64.maxValue.toInt)
    (hentry : entry ∈ entries) : (accessValue c entry.1.toValue).Yields w entry.2 := by
  cases h with
  | container h =>
    rw [h.accessValue_eq hfits hentry]
    exact Eval.yields_pure _
  | @properties i _ hdistinct =>
    obtain ⟨⟨name, v⟩, hmem, rfl⟩ := List.mem_map.mp hentry
    have hfound : w.property i name = v := by
      rw [World.property, (Entries.find?_eq_some_iff hdistinct).mpr hmem]
      rfl
    exact Eval.yields_reads fun _ => hfound

end Reading

end World.Shows

/-- No property of an instance comes twice: it begins with the properties of its class, which are
distinct, and setting one keeps them so. -/
theorem Run.distinct_properties {history : List Event} (run : Run history w) (i : InstanceRef) :
    Entries.Distinct (w.properties i) := by
  induction run with
  | refl => exact List.nodup_nil
  | @step history event w w' run hstep ih =>
    rw [World.properties] at ih
    rw [World.properties, hstep.instanceState_eq i]
    cases event with
    | constructed j =>
      obtain ⟨htidy, -⟩ := Run.lookups run MemberTable.properties j.cls
      rw [Event.onInstance]
      split
      · exact Members.distinct_collect _ htidy
      · exact ih
    | propertySet j name value =>
      rw [Event.onInstance]
      split
      · exact Entries.nodup_insert ih
      · exact ih
    | memberAsked | ancestorAsked =>
      rw [Event.onInstance]
      split <;> exact ih
    | _ => exact ih

/-! ## The views of a value -/

section Views

variable [Host]

/-- Views, length and single elements of a value tell the same keys and values. -/
structure World.Views (w : World) (c : Value) (keys values : List Value) : Prop where
  length_eq : values.length = keys.length
  nodup : keys.Nodup
  yields_length : (Builtin.len.apply [c]).Yields w (Value.ofNat keys.length)
  yields_keys : (Builtin.keys.apply [c]).Yields w (.array keys)
  yields_values : (Builtin.values.apply [c]).Yields w (.array values)
  yields_items : (Builtin.items.apply [c]).Yields w
    (.array (List.zipWith (fun key v => .map [("key", key), ("value", v)]) keys values))
  yields_pairs : (Builtin.pairs.apply [c]).Yields w
    (.array (List.zipWith (fun key v => .array [key, v]) keys values))
  /-- The value in each place is the one that is found under the key in this place. -/
  yields_access : ∀ (i : Nat) (key v : Value), keys[i]? = some key → values[i]? = some v →
    (Builtin.access.apply [c, key]).Yields w v

theorem World.Shows.yields_view (h : w.Shows c entries) {b : Builtin} (shape : Key → Value → Value)
    (hcount : b.fewest ≤ 1 ∧ 1 ≤ b.most) (hrun : b.run [c] = listing shape c) :
    (b.apply [c]).Yields w (.array (entries.map fun entry => shape entry.1 entry.2)) :=
  yields_apply rfl hcount (hrun ▸ h.yields_listing shape)

theorem World.Shows.views (h : w.Shows c entries)
    (hfits : entries.length ≤ Int64.maxValue.toInt) :
    w.Views c (entries.map fun entry => entry.1.toValue) (entries.map Prod.snd) where
  length_eq := by rw [List.length_map, List.length_map]
  nodup := h.nodup_keys hfits
  yields_length := by
    rw [List.length_map]
    exact yields_apply (n := 1) rfl (by decide) (Eval.yields_bind (Eval.yields_pure _)
      (Eval.yields_bind h.yields_length (Eval.yields_pure _)))
  yields_keys := by
    have hkeys : keysOf c = listing (fun key _ => key.toValue) c := by
      rw [keysOf, h.isAbsent_eq]
      rfl
    exact h.yields_view (fun key _ => key.toValue) (by decide) hkeys
  yields_values := h.yields_view (fun _ v => v) (by decide) rfl
  yields_items := by
    rw [List.zipWith_map, List.zipWith_self]
    exact h.yields_view (fun key v => .map [("key", key.toValue), ("value", v)]) (by decide) rfl
  yields_pairs := by
    rw [List.zipWith_map, List.zipWith_self]
    exact h.yields_view (fun key v => .array [key.toValue, v]) (by decide) rfl
  yields_access i key v hkey hv := by
    rw [List.getElem?_map] at hkey hv
    obtain ⟨entry, hentry, rfl⟩ := Option.map_eq_some_iff.mp hkey
    rw [hentry] at hv
    cases hv
    have hmem : entry ∈ entries := List.mem_of_getElem? hentry
    exact yields_apply (n := 2) rfl (by decide) (Eval.yields_bind (Eval.yields_pure _)
      (Eval.yields_bind (Eval.yields_pure _) (h.yields_accessValue hfits hmem)))

/-- A number asks a map for the entry that its digits name. -/
theorem apply_access_map_integer (names : List (String × Value)) {i : Int64} (hi : 0 ≤ i) :
    Builtin.access.apply [.map names, .integer i] =
      Builtin.access.apply [.map names, .string (toString i.toInt.toNat)] := by
  have hcount : Builtin.access.fewest ≤ 2 ∧ 2 ≤ Builtin.access.most := by decide
  rw [Builtin.apply_eq_run hcount, Builtin.apply_eq_run hcount]
  change (if 0 ≤ i then elementAt (.map names) i.toInt.toNat else _) = _
  rw [if_pos hi]
  rfl

/-- **Views and single elements agree.** Keys, values, items and pairs of a value have one place
for each entry, as many as its length tells, and the same entry in the same place; no key comes
twice, and under each key stands the value in its place, be it a missing one. In every run the
entries of an instance that is no iterable are its properties. A map has under a number what it
has under the number's digits. -/
theorem views_agree :
    (∀ (w : World) (c : Value) (entries : List (Key × Value)), w.Shows c entries →
      entries.length ≤ Int64.maxValue.toInt → ∃ keys values, w.Views c keys values) ∧
    (∀ (history : List Event) (w : World), Run history w → ∀ i : InstanceRef,
      w.isGeneric i.cls = false → w.Shows (.inst i) (namedEntries (w.properties i))) ∧
    ∀ (names : List (String × Value)) (i : Int64), 0 ≤ i →
      Builtin.access.apply [.map names, .integer i] =
        Builtin.access.apply [.map names, .string (toString i.toInt.toNat)] :=
  ⟨fun _ _ _ h hfits => ⟨_, _, h.views hfits⟩,
    fun _ _ run i hplain => .properties hplain (run.distinct_properties i),
    fun names _ hi => apply_access_map_integer names hi⟩

end Views

/-- An iterable has missing values beyond its items, each under its key; a map has a value under
the digits of a number. -/
theorem views_agree_missing :
    let c : Value := .iterable 0 "iterable" 2 [.none] none []
    let entries := indexedFrom 0 [Value.none, .undefined]
    let names := [("7", Value.boolean true)]
    letI := Script.hostWithin 0
    (({} : World).Shows c entries ∧ entries.length ≤ Int64.maxValue.toInt) ∧
    (∃ keys values, ({} : World).Views c keys values ∧ values = [.none, .undefined] ∧
      (Builtin.access.apply [c, .integer 1]).Yields {} .undefined) ∧
    (Builtin.access.apply [.map names, .integer 7]).Yields {} (.boolean true) := by
  intro c entries names
  let _ := Script.hostWithin 0
  have hshows : ({} : World).Shows c entries := .container (.sequence (.iterable fun _ _ => rfl))
  have hfits : entries.length ≤ Int64.maxValue.toInt := by decide
  obtain ⟨hviews, -, hdigits⟩ := views_agree
  obtain ⟨keys, values, hagree⟩ := hviews {} c entries hshows hfits
  have hkeys : (Builtin.keys.apply [c]).Yields {} (.array [.integer 0, .integer 1]) :=
    fun _ _ => ⟨#[], by simp, rfl⟩
  have hvalues : (Builtin.values.apply [c]).Yields {} (.array [.none, .undefined]) :=
    fun _ _ => ⟨#[], by simp, rfl⟩
  have hlast : (Builtin.access.apply [.map names, .string "7"]).Yields {} (.boolean true) :=
    Eval.yields_pure _
  obtain rfl := Value.array.inj (hagree.yields_keys.unique hkeys)
  obtain rfl := Value.array.inj (hagree.yields_values.unique hvalues)
  refine ⟨⟨hshows, hfits⟩, ⟨_, _, hagree, rfl, hagree.yields_access 1 _ _ rfl rfl⟩, ?_⟩
  rw [hdigits names 7 (by decide)]
  exact hlast

end DynamicObjects
