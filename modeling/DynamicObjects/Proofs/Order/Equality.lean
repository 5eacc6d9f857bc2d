import DynamicObjects.Proofs.Documents.Erasure
import DynamicObjects.Proofs.Order.Preorder
import DynamicObjects.Value.Equality

/-!
# Equality and the order

Values are equal by structure, or by identity where they have one (`Value.same`); data ties
in the order when its words are the same. What is equal has one word, since a number stands
for one function, iterable or instance (`Value.Agree`). Ties are looser than equality: a
whole number ties with a float, and what is missing counts for nothing in a map.

Without floats, missing values and identities the two are one: words can be read back
(`joinWords_inj`, `joinNamed_inj`), up to the order of keys.

* `spell_eq_of_same`, `same_of_spell_eq`: the two directions.
* `Value.IsExact.same_iff`: equality is being the same once all keys are in order.
* `equality_compatible`: equality implies a tie, and on exact data is one.
-/

namespace DynamicObjects

open Number

/-! ## Words that can be read back -/

theorem Decides.append_inj {o : Ordering} {u v r s : Word} (h : Decides o u v)
    (heq : u ++ r = v ++ s) : u = v ∧ r = s := by
  have hties : o.then (compare r s) = .eq := by
    rw [← h, heq, Std.ReflOrd.compare_self]
  obtain ⟨ho, hrest⟩ := Ordering.then_eq_eq.mp hties
  have hword : compare u v = .eq := by rw [h.compare_eq, ho]
  exact ⟨Std.LawfulEqCmp.eq_of_compare hword, Std.LawfulEqCmp.eq_of_compare hrest⟩

/-- Words that are told apart can be read back from the word of a sequence. -/
theorem joinWords_inj {us vs : List Word} (h : ∀ u ∈ us, ∀ v ∈ vs, ∃ o, Decides o u v)
    (heq : joinWords us = joinWords vs) : us = vs := by
  induction us generalizing vs with
  | nil =>
    cases vs with
    | nil => rfl
    | cons v vs => simp [joinWords] at heq
  | cons u us ih =>
    cases vs with
    | nil => simp [joinWords] at heq
    | cons v vs =>
      obtain ⟨o, ho⟩ := h u List.mem_cons_self v List.mem_cons_self
      obtain ⟨rfl, hrest⟩ := ho.append_inj (List.cons_injective heq)
      rw [ih (fun u hu v hv => h u (List.mem_cons_of_mem _ hu) v (List.mem_cons_of_mem _ hv)) hrest]

/-- Words that are told apart can be read back, under their keys, from the word of a map. -/
theorem joinNamed_inj {f g : String → Option Word} {keys : List String}
    (hkeys : keys.Pairwise fun a b => compare a b = .lt)
    (h : ∀ key, ∀ u ∈ f key, ∀ v ∈ g key, ∃ o, Decides o u v)
    (heq : joinNamed f keys = joinNamed g keys) : ∀ key ∈ keys, f key = g key := by
  induction keys with
  | nil => exact fun key hkey => absurd hkey List.not_mem_nil
  | cons key rest ih =>
    obtain ⟨hsorted, hrest⟩ := List.pairwise_cons.mp hkeys
    have hties : compare (joinNamed f (key :: rest)) (joinNamed g (key :: rest)) = .eq := by
      rw [heq, Std.ReflOrd.compare_self]
    suffices f key = g key ∧ joinNamed f rest = joinNamed g rest from
      List.forall_mem_cons.mpr ⟨this.1, ih hrest this.2⟩
    cases hf : f key with
    | none =>
      cases hg : g key with
      | none =>
        rw [joinNamed_cons_none hf, joinNamed_cons_none hg] at heq
        exact ⟨rfl, heq⟩
      | some v =>
        rw [(decides_joinNamed_some_none hg hf hsorted).swap.compare_eq] at hties
        cases hties
    | some u =>
      cases hg : g key with
      | none =>
        rw [(decides_joinNamed_some_none hf hg hsorted).compare_eq] at hties
        cases hties
      | some v =>
        rw [joinNamed_cons_some hf, joinNamed_cons_some hg] at heq
        obtain ⟨o, ho⟩ := h key u hf v hg
        obtain ⟨hword, hwords⟩ :=
          ho.append_inj (List.cons_injective (List.cons_injective heq))
        exact ⟨congrArg some hword, hwords⟩

/-! ## Lists and lookups, part by part -/

section Parts

variable {α β : Type} {R : α → α → Prop} {f : α → β}

theorem map_eq_of_forall₂ {xs ys : List α} (h : List.Forall₂ R xs ys)
    (hf : ∀ x ∈ xs, ∀ y ∈ ys, R x y → f x = f y) : xs.map f = ys.map f := by
  obtain ⟨hlength, hzip⟩ := List.forall₂_iff_zip.mp h
  rw [← List.forall₂_eq_eq_eq, List.forall₂_map_left_iff, List.forall₂_map_right_iff,
    List.forall₂_iff_zip]
  refine ⟨hlength, fun {x y} hpair => ?_⟩
  obtain ⟨hx, hy⟩ := List.of_mem_zip hpair
  exact hf x hx y hy (hzip hpair)

theorem forall₂_of_map_eq {xs ys : List α} (h : xs.map f = ys.map f)
    (hf : ∀ x ∈ xs, ∀ y ∈ ys, f x = f y → R x y) : List.Forall₂ R xs ys := by
  rw [← List.forall₂_eq_eq_eq, List.forall₂_map_left_iff, List.forall₂_map_right_iff,
    List.forall₂_iff_zip] at h
  refine List.forall₂_iff_zip.mpr ⟨h.1, fun {x y} hpair => ?_⟩
  obtain ⟨hx, hy⟩ := List.of_mem_zip hpair
  exact hf x hx y hy (h.2 hpair)

theorem map_eq_of_rel {x? y? : Option α} (h : Option.Rel R x? y?)
    (hf : ∀ x ∈ x?, ∀ y ∈ y?, R x y → f x = f y) : x?.map f = y?.map f := by
  cases h with
  | @some x y hxy => exact congrArg some (hf x rfl y rfl hxy)
  | none => rfl

theorem rel_of_map_eq {x? y? : Option α} (h : x?.map f = y?.map f)
    (hf : ∀ x ∈ x?, ∀ y ∈ y?, f x = f y → R x y) : Option.Rel R x? y? := by
  cases x? <;> cases y?
  case none.none => exact .none
  case some.some x y => exact .some (hf x rfl y rfl (Option.some_injective _ h))
  all_goals cases h

end Parts

namespace Value

/-! ## Identity -/

/-- The one value is part of the other, at any depth. -/
inductive Contains : Value → Value → Prop
  | self (v : Value) : Contains v v
  | item {items : List Value} {v part : Value} (hv : v ∈ items) (h : Contains v part) :
    Contains (.array items) part
  | entry {entries : List (String × Value)} {entry : String × Value} {part : Value}
    (hentry : entry ∈ entries) (h : Contains entry.2 part) : Contains (.map entries) part

/-- What a function, a foreign iterable or an instance is recognized by. -/
def identity? : Value → Option (String × Nat)
  | iterable id .. => some ("iterable", id)
  | foreign i => some ("foreign", i.index)
  | function f => some ("function", f.id)
  | inst i => some ("instance", i.index)
  | _ => Option.none

/-- What is recognized by the same number, in two values, is the same thing. Numbers stand
for addresses, so this holds of any two values of one program. -/
def Agree (a b : Value) : Prop :=
  ∀ x y : Value, a.Contains x → b.Contains y → x.identity?.isSome → x.identity? = y.identity? →
    x = y

theorem Agree.item {items others : List Value} (h : (array items).Agree (array others))
    {v w : Value} (hv : v ∈ items) (hw : w ∈ others) : v.Agree w :=
  fun x y hx hy => h x y (.item hv hx) (.item hw hy)

theorem Agree.entry {entries others : List (String × Value)} (h : (map entries).Agree (map others))
    {entry other : String × Value} (hentry : entry ∈ entries) (hother : other ∈ others) :
    entry.2.Agree other.2 :=
  fun x y hx hy => h x y (.entry hentry hx) (.entry hother hy)

/-! ## Equality, part by part -/

theorem sameItems_iff {items others : List Value} :
    sameItems items others = true ↔ List.Forall₂ (fun v w => v.same w = true) items others := by
  induction items generalizing others with
  | nil => cases others <;> simp [sameItems]
  | cons v rest ih => cases others <;> simp [sameItems, ih]

theorem sameEntries_iff {entries others : List (String × Value)} :
    sameEntries entries (Entries.index others) = true ↔
      ∀ entry ∈ entries, ∃ w, Entries.find? entry.1 others = some w ∧ entry.2.same w = true := by
  induction entries with
  | nil => simp [sameEntries]
  | cons entry rest ih =>
    obtain ⟨key, v⟩ := entry
    rw [sameEntries, Bool.and_eq_true, ih, List.forall_mem_cons, Entries.getElem?_index]
    cases Entries.find? key others <;> simp

/-- Maps are equal when they have the same keys and equal values under each. -/
theorem same_map_iff {entries others : Entries String Value} (hentries : entries.Distinct)
    (hothers : others.Distinct) :
    (map entries).same (map others) = true ↔
      ∀ key, Option.Rel (fun v w => v.same w = true) (entries.find? key) (others.find? key) := by
  have hlength {those : Entries String Value} : those.keys.length = those.length :=
    List.length_map _
  rw [same, Bool.and_eq_true, beq_iff_eq, sameEntries_iff]
  constructor
  · rintro ⟨hsize, hfound⟩ key
    have hsubset : entries.keys ⊆ others.keys := by
      intro key hkey
      obtain ⟨entry, hentry, rfl⟩ := List.mem_map.mp hkey
      obtain ⟨w, hw, -⟩ := hfound entry hentry
      exact List.mem_map.mpr ⟨_, Entries.mem_of_find?_eq_some hw, rfl⟩
    -- there are as many distinct keys on both sides
    have hperm : entries.keys.Perm others.keys :=
      (List.subperm_of_subset hentries hsubset).perm_of_length_le (by rw [hlength, hlength, hsize])
    cases hfind : entries.find? key with
    | none =>
      have hfresh : key ∉ others.keys := fun hkey =>
        Entries.find?_eq_none_iff.mp hfind (hperm.mem_iff.mpr hkey)
      rw [Entries.find?_eq_none_iff.mpr hfresh]
      exact .none
    | some v =>
      obtain ⟨w, hw, hsame⟩ := hfound _ (Entries.mem_of_find?_eq_some hfind)
      rw [hw]
      exact .some hsame
  · intro hrel
    have hmem (key : String) : key ∈ entries.keys ↔ key ∈ others.keys := by
      have hkey := hrel key
      rw [← not_iff_not, ← Entries.find?_eq_none_iff, ← Entries.find?_eq_none_iff]
      generalize entries.find? key = left at hkey
      generalize others.find? key = right at hkey
      cases hkey <;> simp
    have hperm : entries.keys.Perm others.keys :=
      (List.perm_ext_iff_of_nodup hentries hothers).mpr hmem
    refine ⟨by rw [← hlength, ← hlength, hperm.length_eq], fun entry hentry => ?_⟩
    have hkey := hrel entry.1
    rw [(Entries.find?_eq_some_iff hentries).mpr hentry] at hkey
    cases hfind : others.find? entry.1 with
    | none => rw [hfind] at hkey; cases hkey
    | some w =>
      rw [hfind] at hkey
      cases hkey with
      | some hsame => exact ⟨w, rfl, hsame⟩

/-! ## What is equal has one word -/

theorem read_eq_of_numericallyEqual {x y : Binary64} (h : x.numericallyEqual y = true) :
    x.read = y.read := by
  rw [Binary64.numericallyEqual] at h
  split at h
  · cases h
  · exact beq_iff_eq.mp h

/-- Doubles that are equal place by place have the same words. -/
theorem map_spellAtom_of_all {α : Type} {widen : α → Binary64} {xs ys : List α}
    (hlength : xs.length = ys.length)
    (h : (xs.zip ys).all (fun (x, y) => (widen x).numericallyEqual (widen y)) = true) :
    (xs.map fun x => Value.float (widen x)).map spellAtom =
      (ys.map fun y => Value.float (widen y)).map spellAtom := by
  refine List.ext_getElem (by simpa using hlength) fun i hx hy => ?_
  rw [List.length_map, List.length_map] at hx hy
  have hpair := List.all_eq_true.mp h (xs[i], ys[i])
    (List.mem_iff_getElem.mpr ⟨i, by simp [hx, hy], List.getElem_zip⟩)
  rw [List.getElem_map, List.getElem_map, List.getElem_map, List.getElem_map, spellAtom,
    spellAtom, read_eq_of_numericallyEqual hpair]

theorem spell_typed_of_same {items others : TypedArray} (h : items.same others = true) :
    (typed items).spell = (typed others).spell := by
  suffices items.values.map spellAtom = others.values.map spellAtom by
    rw [spell, spell, this]
  cases items <;> cases others <;> try cases h
  case int8.int8 xs ys => rw [beq_iff_eq.mp h]
  case int16.int16 xs ys => rw [beq_iff_eq.mp h]
  case int32.int32 xs ys => rw [beq_iff_eq.mp h]
  case float32.float32 xs ys =>
    obtain ⟨hlength, hall⟩ := (Bool.and_eq_true _ _).mp h
    exact map_spellAtom_of_all (beq_iff_eq.mp hlength) hall
  case float64.float64 xs ys =>
    obtain ⟨hlength, hall⟩ := (Bool.and_eq_true _ _).mp h
    exact @map_spellAtom_of_all _ id _ _ (beq_iff_eq.mp hlength) hall

/-- Maps that have the same words under their keys have one word. -/
theorem spell_map_congr {entries others : Entries String Value}
    (h : ∀ key, (entries.find? key).map spell = (others.find? key).map spell) :
    (map entries).spell = (map others).spell := by
  have hwords (key : String) :
      definedWord? (spellEntries entries) key = definedWord? (spellEntries others) key := by
    rw [definedWord?, definedWord?, find?_spellEntries, find?_spellEntries, h]
  rw [spell_map (Or.inl (List.Subset.refl entries.keys)) (b := others),
    spell_map (Or.inr (List.Subset.refl others.keys)) (a := entries), funext hwords]

theorem keyed_items {items : List Value} (h : (array items).Keyed) : ∀ v ∈ items, v.Keyed := by
  cases h with
  | array h => exact h
  | leaf harray _ => exact absurd rfl (harray items)

theorem keyed_entries {entries : Entries String Value} (h : (map entries).Keyed) :
    entries.Distinct ∧ ∀ entry ∈ entries, entry.2.Keyed := by
  cases h with
  | map hkeys h => exact ⟨hkeys, h⟩
  | leaf _ hmap => exact absurd rfl (hmap entries)

/-- What is not an array and not a map is equal to what has its word. -/
theorem spell_leaf_of_same {a b : Value} (harray : ∀ items, a ≠ .array items)
    (hmap : ∀ entries, a ≠ .map entries) (hagree : a.Agree b) (h : a.same b = true) :
    a.spell = b.spell := by
  have hidentity (hknown : a.identity?.isSome) (heq : a.identity? = b.identity?) : a = b :=
    hagree a b (.self a) (.self b) hknown heq
  cases a <;> cases b <;> try cases h
  case undefined.undefined => rfl
  case none.none => rfl
  case boolean.boolean => rw [beq_iff_eq.mp h]
  case integer.integer => rw [beq_iff_eq.mp h]
  case float.float x y =>
    exact congrArg (fun point => [Letter.mark 3, .number point]) (read_eq_of_numericallyEqual h)
  case string.string => rw [beq_iff_eq.mp h]
  case array.array items _ => exact absurd rfl (harray items)
  case typed.typed => exact spell_typed_of_same h
  case map.map entries _ => exact absurd rfl (hmap entries)
  case iterable.iterable id _ _ _ _ _ id' _ _ _ _ _ =>
    rw [hidentity rfl (by rw [identity?, identity?, show id = id' from beq_iff_eq.mp h])]
  case foreign.foreign i j =>
    rw [hidentity rfl (by rw [identity?, identity?, show i.index = j.index from beq_iff_eq.mp h])]
  case function.function f g =>
    rw [hidentity rfl (by rw [identity?, identity?, show f.id = g.id from beq_iff_eq.mp h])]
  case cls.cls c d => exact congrArg (fun place => [Letter.mark 8, .mark place]) (beq_iff_eq.mp h)
  case inst.inst i j =>
    rw [hidentity rfl (by rw [identity?, identity?, show i.index = j.index from beq_iff_eq.mp h])]

/-- **Equal values have one word.** -/
theorem spell_eq_of_same {a b : Value} (ha : a.Keyed) (hb : b.Keyed) (hagree : a.Agree b)
    (h : a.same b = true) : a.spell = b.spell := by
  induction ha generalizing b with
  | @array items _ ih =>
    cases b <;> try cases h
    case array others =>
      rw [spell, spell, spellAll_eq_map, spellAll_eq_map]
      rw [map_eq_of_forall₂ (sameItems_iff.mp h) fun v hv w hw =>
        ih v hv (keyed_items hb w hw) (hagree.item hv hw)]
  | @map entries hkeys _ ih =>
    cases b <;> try cases h
    case map others =>
      obtain ⟨hkeys', hentries⟩ := keyed_entries hb
      refine spell_map_congr fun key => ?_
      refine map_eq_of_rel ((same_map_iff hkeys hkeys').mp h key) fun v hv w hw => ?_
      have hmem := Entries.mem_of_find?_eq_some hv
      have hmem' := Entries.mem_of_find?_eq_some hw
      exact ih _ hmem (hentries _ hmem') (hagree.entry hmem hmem')
  | @leaf a harray hmap => exact spell_leaf_of_same harray hmap hagree h

/-! ## Exact data -/

/-- Data that is built from absence, truth values, whole numbers and strings alone, by
arrays and by maps without a key twice. -/
inductive IsExact : Value → Prop
  | none : IsExact .none
  | boolean (b : Bool) : IsExact (.boolean b)
  | integer (n : Int64) : IsExact (.integer n)
  | string (s : String) : IsExact (.string s)
  | array {items : List Value} (h : ∀ v ∈ items, IsExact v) : IsExact (.array items)
  | map {entries : Entries String Value} (hkeys : entries.Distinct)
    (h : ∀ entry ∈ entries, IsExact entry.2) : IsExact (.map entries)

namespace IsExact

theorem isData {v : Value} (h : v.IsExact) (w : World) : w.IsData v := by
  induction h with
  | none | boolean _ | integer _ | string _ => exact .atom trivial
  | array _ ih => exact .array ih
  | map _ _ ih => exact .map ih

theorem isDefined {v : Value} (h : v.IsExact) : v.isDefined = true := by
  cases h <;> rfl

theorem keyed {v : Value} (h : v.IsExact) : v.Keyed := by
  induction h with
  | none | boolean _ | integer _ | string _ => exact .leaf (by simp) (by simp)
  | array _ ih => exact .array ih
  | map hkeys _ ih => exact .map hkeys ih

/-- Exact data has no parts with an identity. -/
theorem agree {a : Value} (h : a.IsExact) (b : Value) : a.Agree b := by
  intro x y hx _ hidentity
  suffices x.identity? = Option.none by rw [this] at hidentity; cases hidentity
  clear hidentity
  induction hx with
  | self v => cases h <;> rfl
  | item hv _ ih =>
    cases h with
    | array h => exact ih (h _ hv)
  | entry hentry _ ih =>
    cases h with
    | map _ h => exact ih (h _ hentry)

end IsExact

/-- The words of data are told apart. -/
theorem decides_spell {w : World} {a b : Value} (ha : w.IsData a) (hb : w.IsData b) :
    ∃ o, Decides o a.spell b.spell :=
  let _ := Script.hostWithin 0
  let ⟨o, _, ho⟩ := ranks_compare ha b hb
  ⟨o, ho⟩

/-- What is in an exact map is spelled under its key. -/
theorem definedWord?_of_isExact {entries : Entries String Value}
    (h : ∀ entry ∈ entries, entry.2.IsExact) (key : String) :
    definedWord? (spellEntries entries) key = (entries.find? key).map spell := by
  rw [definedWord?_spellEntries]
  cases hfind : entries.find? key with
  | none => rfl
  | some v =>
    rw [Option.filter_some, if_pos (h _ (Entries.mem_of_find?_eq_some hfind)).isDefined]

/-- The words of the entries of an exact map can be read back from its word. -/
theorem find?_spell_of_spell_eq {entries others : Entries String Value}
    (hentries : ∀ entry ∈ entries, entry.2.IsExact) (hothers : ∀ entry ∈ others, entry.2.IsExact)
    (h : (map entries).spell = (map others).spell) (key : String) :
    (entries.find? key).map spell = (others.find? key).map spell := by
  rw [spell_map (Or.inl (List.Subset.refl entries.keys)) (b := others),
    spell_map (Or.inr (List.Subset.refl others.keys)) (a := entries)] at h
  rw [← definedWord?_of_isExact hentries, ← definedWord?_of_isExact hothers]
  by_cases hkey : key ∈ sortedKeys entries others
  · refine joinNamed_inj (pairwise_sortedKeys _ _) (fun key u hu v hv => ?_)
      (List.cons_injective h) key hkey
    rw [definedWord?_of_isExact hentries, Option.mem_map] at hu
    rw [definedWord?_of_isExact hothers, Option.mem_map] at hv
    obtain ⟨a, ha, rfl⟩ := hu
    obtain ⟨b, hb, rfl⟩ := hv
    exact decides_spell ((hentries _ (Entries.mem_of_find?_eq_some ha)).isData {})
      ((hothers _ (Entries.mem_of_find?_eq_some hb)).isData {})
  · rw [mem_sortedKeys, not_or] at hkey
    rw [definedWord?_spellEntries, definedWord?_spellEntries,
      Entries.find?_eq_none_iff.mpr hkey.1, Entries.find?_eq_none_iff.mpr hkey.2]

theorem ofInteger_inj {m n : Int64} (h : Extended.ofInteger m = .ofInteger n) : m = n :=
  Int64.toInt_inj.mp <|
    Int.eq_of_mul_eq_mul_right Extended.grainsPerUnit_pos.ne' (Extended.finite.inj h)

/-- **Exact data with one word is equal.** -/
theorem IsExact.same_of_spell_eq {a b : Value} (ha : a.IsExact) (hb : b.IsExact)
    (h : a.spell = b.spell) : a.same b = true := by
  induction ha generalizing b with
  | none => cases hb <;> first | rfl | cases h
  | boolean x =>
    cases hb with
    | boolean y => cases x <;> cases y <;> first | rfl | cases h
    | _ => cases h
  | integer m =>
    cases hb with
    | integer n =>
      have hletters : [Letter.number (.ofInteger m)] = [.number (.ofInteger n)] :=
        List.cons_injective h
      exact beq_iff_eq.mpr (ofInteger_inj (Letter.number.inj (List.singleton_injective hletters)))
    | _ => cases h
  | string s =>
    cases hb with
    | string t =>
      have hletters : [Letter.text s] = [.text t] := List.cons_injective h
      exact beq_iff_eq.mpr (Letter.text.inj (List.singleton_injective hletters))
    | _ => cases h
  | @array items hitems ih =>
    cases hb with
    | @array others hothers =>
      have hwords : joinWords (spellAll items) = joinWords (spellAll others) :=
        List.cons_injective h
      rw [spellAll_eq_map, spellAll_eq_map] at hwords
      have hmap := joinWords_inj (fun u hu v hv => ?_) hwords
      · exact sameItems_iff.mpr (forall₂_of_map_eq hmap fun v hv w hw => ih v hv (hothers w hw))
      · obtain ⟨a, ha, rfl⟩ := List.mem_map.mp hu
        obtain ⟨b, hb, rfl⟩ := List.mem_map.mp hv
        exact decides_spell ((hitems a ha).isData {}) ((hothers b hb).isData {})
    | _ => cases h
  | @map entries hkeys hentries ih =>
    cases hb with
    | @map others hkeys' hothers =>
      refine (same_map_iff hkeys hkeys').mpr fun key => ?_
      refine rel_of_map_eq (find?_spell_of_spell_eq hentries hothers h key) fun v hv w hw => ?_
      exact ih _ (Entries.mem_of_find?_eq_some hv)
        (hothers _ (Entries.mem_of_find?_eq_some hw))
    | _ => cases h

/-! ## Keys in order -/

/-- Of two keys in order, the smaller first. -/
def keyLE (first second : String × Value) : Bool := first.1 ≤ second.1

mutual

/-- The value with the keys of every map in order. -/
def inKeyOrder : Value → Value
  | array items => array (inKeyOrderItems items)
  | map entries => map ((inKeyOrderEntries entries).mergeSort keyLE)
  | v => v

def inKeyOrderItems : List Value → List Value
  | [] => []
  | v :: rest => inKeyOrder v :: inKeyOrderItems rest

def inKeyOrderEntries : List (String × Value) → List (String × Value)
  | [] => []
  | (key, v) :: rest => (key, inKeyOrder v) :: inKeyOrderEntries rest

end

theorem inKeyOrderItems_eq_map (items : List Value) :
    inKeyOrderItems items = items.map inKeyOrder := by
  induction items with
  | nil => rfl
  | cons v rest ih => rw [inKeyOrderItems, ih, List.map_cons]

theorem keys_inKeyOrderEntries (entries : Entries String Value) :
    Entries.keys (inKeyOrderEntries entries) = entries.keys := by
  induction entries with
  | nil => rfl
  | cons entry rest ih => exact congrArg (entry.1 :: ·) ih

theorem find?_inKeyOrderEntries (entries : Entries String Value) (key : String) :
    Entries.find? key (inKeyOrderEntries entries) = (entries.find? key).map inKeyOrder := by
  induction entries with
  | nil => rfl
  | cons entry rest ih =>
    obtain ⟨name, v⟩ := entry
    by_cases h : name = key <;> simp [inKeyOrderEntries, Entries.find?, h, ih]

/-- Entries without a key twice are the same in order of keys when lookups are the same. -/
theorem mergeSort_keyLE_eq_iff {entries others : Entries String Value} (h : entries.Distinct)
    (h' : others.Distinct) :
    entries.mergeSort keyLE = others.mergeSort keyLE ↔
      ∀ key, entries.find? key = others.find? key := by
  have hsorted (those : Entries String Value) :
      (those.mergeSort keyLE).Pairwise fun a b => keyLE a b = true :=
    List.pairwise_mergeSort (fun a b c hab hbc => by
      simp only [keyLE, decide_eq_true_eq] at hab hbc ⊢
      exact String.le_trans hab hbc) (fun a b => by
      simp only [keyLE, Bool.or_eq_true, decide_eq_true_eq]
      exact String.le_total a.1 b.1) those
  constructor
  · intro heq key
    have hperm : List.Perm entries others :=
      (List.mergeSort_perm entries keyLE).symm.trans (heq ▸ List.mergeSort_perm others keyLE)
    refine Option.ext fun v => ?_
    rw [Entries.find?_eq_some_iff h, Entries.find?_eq_some_iff h', hperm.mem_iff]
  · intro hfind
    have hmem (entry : String × Value) : entry ∈ entries ↔ entry ∈ others := by
      rw [← Entries.find?_eq_some_iff h, ← Entries.find?_eq_some_iff h', hfind]
    have hperm : List.Perm entries others :=
      (List.perm_ext_iff_of_nodup (List.Nodup.of_map _ h) (List.Nodup.of_map _ h')).mpr hmem
    have hpermSorted : (entries.mergeSort keyLE).Perm (others.mergeSort keyLE) :=
      (List.mergeSort_perm entries keyLE).trans
        (hperm.trans (List.mergeSort_perm others keyLE).symm)
    refine hpermSorted.eq_of_pairwise (fun a b ha hb hab hba => ?_) (hsorted _) (hsorted _)
    -- the keys are the same, and what is found under them
    have hkey : a.1 = b.1 :=
      String.le_antisymm (decide_eq_true_eq.mp hab) (decide_eq_true_eq.mp hba)
    have hfindA := (Entries.find?_eq_some_iff h').mpr ((hmem a).mp (List.mem_mergeSort.mp ha))
    have hfindB := (Entries.find?_eq_some_iff h').mpr (List.mem_mergeSort.mp hb)
    rw [hkey, hfindB] at hfindA
    exact Prod.ext hkey (Option.some_injective _ hfindA).symm

/-- **Exact data is equal when it is the same once all keys are in order.** -/
theorem IsExact.same_iff {a b : Value} (ha : a.IsExact) (hb : b.IsExact) :
    a.same b = true ↔ a.inKeyOrder = b.inKeyOrder := by
  induction ha generalizing b with
  | none => cases hb <;> simp [same, inKeyOrder]
  | boolean x => cases hb <;> simp [same, inKeyOrder]
  | integer m => cases hb <;> simp [same, inKeyOrder]
  | string s => cases hb <;> simp [same, inKeyOrder]
  | @array items hitems ih =>
    cases hb with
    | @array others hothers =>
      rw [same, sameItems_iff, inKeyOrder, inKeyOrder, array.injEq, inKeyOrderItems_eq_map,
        inKeyOrderItems_eq_map]
      exact ⟨fun h => map_eq_of_forall₂ h fun v hv w hw => (ih v hv (hothers w hw)).mp,
        fun h => forall₂_of_map_eq h fun v hv w hw => (ih v hv (hothers w hw)).mpr⟩
    | _ => simp [same, inKeyOrder]
  | @map entries hkeys hentries ih =>
    cases hb with
    | @map others hkeys' hothers =>
      have hdistinct : Entries.Distinct (inKeyOrderEntries entries) := by
        rwa [Entries.Distinct, keys_inKeyOrderEntries]
      have hdistinct' : Entries.Distinct (inKeyOrderEntries others) := by
        rwa [Entries.Distinct, keys_inKeyOrderEntries]
      have hsame {key : String} (v : Value) (hv : v ∈ entries.find? key) (w : Value)
          (hw : w ∈ others.find? key) : v.same w = true ↔ v.inKeyOrder = w.inKeyOrder :=
        ih _ (Entries.mem_of_find?_eq_some hv) (hothers _ (Entries.mem_of_find?_eq_some hw))
      rw [same_map_iff hkeys hkeys', inKeyOrder, inKeyOrder, map.injEq,
        mergeSort_keyLE_eq_iff hdistinct hdistinct']
      refine forall_congr' fun key => ?_
      rw [find?_inKeyOrderEntries, find?_inKeyOrderEntries]
      exact ⟨fun h => map_eq_of_rel h fun v hv w hw => (hsame v hv w hw).mp,
        fun h => rel_of_map_eq h fun v hv w hw => (hsame v hv w hw).mpr⟩
    | _ => simp [same, inKeyOrder]

end Value

/-! ## Equality and ties -/

/-- **Equality implies a tie, and on exact data it is one.** Data that is equal by structure
or identity ties in the order, whatever its kinds and nesting. Exact data ties just when it
is equal, which is being the same once all keys are in order; and on exact data the order
is total: it always answers, turns round with its sides, and is transitive. -/
theorem equality_compatible [Host] (w : World) :
    (∀ a b : Value, (w.IsData a ∧ a.Keyed) → (w.IsData b ∧ b.Keyed) → a.Agree b →
      a.same b = true → (a.compare b).Yields w .eq ∧ (a.equals b).Yields w true) ∧
    ∀ a b c : Value, a.IsExact → b.IsExact → c.IsExact →
      ∃ ab bc ac : Ordering,
        ((a.compare b).Yields w ab ∧ (b.compare c).Yields w bc ∧ (a.compare c).Yields w ac) ∧
        ((a.compare a).Yields w .eq ∧ (b.compare a).Yields w ab.swap) ∧
        (ab.isLE → bc.isLE → ac.isLE) ∧
        (ab = .eq ↔ a.same b = true) ∧ (a.same b = true ↔ a.inKeyOrder = b.inKeyOrder) := by
  constructor
  · rintro a b ⟨ha, hkeyed⟩ ⟨hb, hkeyed'⟩ hagree hsame
    have htie : a.order b = .eq :=
      Value.order_eq_iff.mpr (Value.spell_eq_of_same hkeyed hkeyed' hagree hsame)
    have hequals := yields_equals ha hb
    rw [htie] at hequals
    exact ⟨htie ▸ yields_compare ha hb, hequals⟩
  · intro a b c ha hb hc
    have hself := yields_compare (ha.isData w) (ha.isData w)
    have hswap := yields_compare (hb.isData w) (ha.isData w)
    rw [Value.order_self] at hself
    rw [Value.order_swap] at hswap
    refine ⟨a.order b, b.order c, a.order c, ⟨yields_compare (ha.isData w) (hb.isData w),
      yields_compare (hb.isData w) (hc.isData w), yields_compare (ha.isData w) (hc.isData w)⟩,
      ⟨hself, hswap⟩, Value.order_trans, ?_, ha.same_iff hb⟩
    rw [Value.order_eq_iff]
    exact ⟨ha.same_of_spell_eq hb, Value.spell_eq_of_same ha.keyed hb.keyed (ha.agree b)⟩

/-- Two maps with one function, the two zeros and their keys in different orders tie; so
do two arrays of exact maps with their keys in different orders. -/
theorem equality_compatible_reordered :
    let f : Function := ⟨0, "sorted", .builtin .sorted⟩
    let a : Value := .map [("f", .function f), ("x", .float ⟨0⟩)]
    let b : Value := .map [("x", .float ⟨0x8000000000000000⟩), ("f", .function f)]
    let c : Value := .array [.map [("k", .integer 1), ("l", .array [.none])]]
    let d : Value := .array [.map [("l", .array [.none]), ("k", .integer 1)]]
    letI := Script.hostWithin 0
    (a.same b = true ∧ (a.compare b).Yields {} .eq) ∧
      (c.same d = true ∧ (c.compare d).Yields {} .eq) := by
  intro f a b c d
  let _ := Script.hostWithin 0
  obtain ⟨hequal, hexact⟩ := equality_compatible ({} : World)
  constructor
  · have hparts (v : Value) (hv : v = .function f ∨ v = .float ⟨0⟩ ∨
        v = .float ⟨0x8000000000000000⟩) : ({} : World).IsData v ∧ v.Keyed ∧
          ∀ x, v.Contains x → x.identity?.isSome → x = .function f := by
      rcases hv with rfl | rfl | rfl <;>
        refine ⟨.atom trivial, .leaf (by simp) (by simp), fun x hx hidentity => ?_⟩ <;>
        cases hx <;> first | rfl | cases hidentity
    have hmap (entries : List (String × Value)) (hkeys : Entries.Distinct entries)
        (hentries : ∀ entry ∈ entries, entry.2 = .function f ∨ entry.2 = .float ⟨0⟩ ∨
          entry.2 = .float ⟨0x8000000000000000⟩) :
        (({} : World).IsData (.map entries) ∧ (Value.map entries).Keyed) ∧
          ∀ x, (Value.map entries).Contains x → x.identity?.isSome → x = .function f := by
      refine ⟨⟨.map fun entry hentry => (hparts _ (hentries entry hentry)).1,
        .map hkeys fun entry hentry => (hparts _ (hentries entry hentry)).2.1⟩,
        fun x hx hidentity => ?_⟩
      cases hx with
      | self => cases hidentity
      | entry hentry hx => exact (hparts _ (hentries _ hentry)).2.2 x hx hidentity
    obtain ⟨ha, honly⟩ := hmap [("f", .function f), ("x", .float ⟨0⟩)]
      (by simp [Entries.Distinct, Entries.keys]) (by simp)
    obtain ⟨hb, honly'⟩ := hmap [("x", .float ⟨0x8000000000000000⟩), ("f", .function f)]
      (by simp [Entries.Distinct, Entries.keys]) (by simp)
    have hsame : a.same b = true := by decide +kernel
    have hagree : a.Agree b := fun x y hx hy hidentity heq => by
      rw [honly x hx hidentity, honly' y hy (heq ▸ hidentity)]
    exact ⟨hsame, (hequal a b ha hb hagree hsame).1⟩
  · have hnested : (Value.array [.none]).IsExact := .array (by simp [Value.IsExact.none])
    have hc : c.IsExact := .array fun v hv => by
      rw [List.mem_singleton.mp hv]
      exact .map (by simp [Entries.Distinct, Entries.keys])
        (by simp [Value.IsExact.integer, hnested])
    have hd : d.IsExact := .array fun v hv => by
      rw [List.mem_singleton.mp hv]
      exact .map (by simp [Entries.Distinct, Entries.keys])
        (by simp [Value.IsExact.integer, hnested])
    have hsame : c.same d = true := by decide +kernel
    obtain ⟨cd, -, -, ⟨hcompare, -⟩, -, -, htie, -⟩ := hexact c d d hc hd hd
    exact ⟨hsame, htie.mpr hsame ▸ hcompare⟩

end DynamicObjects
