import DynamicObjects.Proofs.Collections.Grouping
import DynamicObjects.Proofs.Collections.Views

/-!
# Maps from pairs and items

Pairs and items of a value are two ways to write its entries down, and a map can be made of either.
Of a list of keys and values both make the same map: the keys become names, a name stays where it
first comes, and its last value wins. So a map comes back from its pairs and from its items as it
was, and an instance as the map of its properties. A sequence comes back as the map of its elements
under the numbers of their places, which are told apart by their digits.

* `couplesToMap_couples`, `itemsToMap_items`: maps of keys and values.
* `rekeying_undoes_views`: what comes back.
-/

namespace DynamicObjects

open Number

/-! ## Maps of keys and values -/

section Making

variable [Host]

/-- A key and a value as a pair. -/
def coupleOf (couple : Value × Value) : Value := .array [couple.1, couple.2]

/-- A key and a value as an item. -/
def itemOf (couple : Value × Value) : Value := .map [("key", couple.1), ("value", couple.2)]

/-- A key and a value as an entry. -/
def entryOf (couple : Value × Value) : String × Value := (couple.1.text, couple.2)

theorem addCouples_eq (couples : List (Value × Value)) (out : Draft Value) :
    addCouples (couples.map coupleOf) out =
      pure ((couples.map entryOf).foldl (fun out entry => out.insert entry.1 entry.2)
        out).entries := by
  induction couples generalizing out with
  | nil => rfl
  | cons couple rest ih =>
    have helements : elementsOf? (coupleOf couple) = pure (some [couple.1, couple.2]) :=
      (Value.Represents.array _).elementsOf?_eq
    rw [List.map_cons, addCouples, helements]
    exact ih _

omit [Host] in
theorem addItems_eq {couples : List (Value × Value)}
    (hdefined : ∀ couple ∈ couples, couple.1.isDefined = true) (out : Draft Value) :
    addItems (couples.map itemOf) out =
      (couples.map entryOf).foldl (fun out entry => out.insert entry.1 entry.2) out := by
  induction couples generalizing out with
  | nil => rfl
  | cons couple rest ih =>
    obtain ⟨hfirst, hrest⟩ := List.forall_mem_cons.mp hdefined
    have hkey : (Entries.find? "key" [("key", couple.1), ("value", couple.2)]).filter
        Value.isDefined = some couple.1 := by
      simp [Entries.find?, hfirst]
    rw [List.map_cons, itemOf, addItems, hkey]
    exact ih hrest _

/-- The map of pairs. -/
theorem couplesToMap_couples (couples : List (Value × Value)) :
    Builtin.couplesAsMap.apply [.array (couples.map coupleOf)] =
      pure (.map (Entries.ofList (couples.map entryOf))) := by
  have hcount : Builtin.couplesAsMap.fewest ≤ 1 ∧ 1 ≤ Builtin.couplesAsMap.most := by decide
  have helements := (Value.Represents.array (couples.map coupleOf)).elementsOf?_eq
  rw [Builtin.apply_eq_run hcount]
  change couplesToMap (.array (couples.map coupleOf)) = _
  simp only [couplesToMap, helements, pure_bind, addCouples_eq]
  rfl

/-- The map of items. -/
theorem itemsToMap_items {couples : List (Value × Value)}
    (hdefined : ∀ couple ∈ couples, couple.1.isDefined = true) :
    Builtin.itemsAsMap.apply [.array (couples.map itemOf)] =
      pure (.map (Entries.ofList (couples.map entryOf))) := by
  have hcount : Builtin.itemsAsMap.fewest ≤ 1 ∧ 1 ≤ Builtin.itemsAsMap.most := by decide
  have helements := (Value.Represents.array (couples.map itemOf)).elementsOf?_eq
  rw [Builtin.apply_eq_run hcount]
  change itemsToMap (.array (couples.map itemOf)) = _
  simp only [itemsToMap, helements, pure_bind, addItems_eq hdefined]
  rfl

end Making

/-! ## Keys as names -/

/-- The entries with the names of their keys. -/
def namesOf (entries : List (Key × Value)) : Entries String Value :=
  entries.map fun entry => (entry.1.toName, entry.2)

theorem namesOf_namedEntries (names : List (String × Value)) :
    namesOf (namedEntries names) = names := by
  rw [namesOf, namedEntries, List.map_map]
  exact List.map_id names

/-- Numbers have different digits: they can be read again. -/
theorem toString_injective {m n : Nat} (h : toString m = toString n) : m = n := by
  have hdigits : Nat.toDigits 10 m = Nat.toDigits 10 n := String.ofList_injective h
  rw [← Nat.ofDigitChars_ten_toDigits (n := m), hdigits, Nat.ofDigitChars_ten_toDigits]

theorem text_toValue_index {i : Nat} (hfits : i ≤ Int64.maxValue.toInt) :
    (Key.index i).toValue.text = (Key.index i).toName := by
  have hnumber : (Int64.ofNat i).toInt = i := toInt_ofNat_of_fits hfits
  change integerText (Int64.ofNat i).toInt = digitText i
  rw [hnumber, integerText, if_neg (by omega), Int.natAbs_natCast]

theorem keys_namesOf_indexedFrom (items : List Value) :
    Entries.keys (namesOf (indexedFrom 0 items)) = (List.range items.length).map toString := by
  have hkeys : Entries.keys (namesOf (indexedFrom 0 items)) =
      ((indexedFrom 0 items).map Prod.fst).map Key.toName := by
    rw [Entries.keys, namesOf, List.map_map, List.map_map]
    rfl
  rw [hkeys, keys_indexedFrom, indexKeys, List.map_map, List.range_eq_range']
  rfl

theorem distinct_namesOf_indexedFrom (items : List Value) :
    Entries.Distinct (namesOf (indexedFrom 0 items)) := by
  rw [Entries.Distinct, keys_namesOf_indexedFrom]
  exact List.nodup_range.map fun _ _ => toString_injective

/-- The keys of a sequence are spelt as its positions are. -/
theorem text_of_mem_indexedFrom {items : List Value} (hfits : items.length ≤ Int64.maxValue.toInt)
    {entry : Key × Value} (h : entry ∈ indexedFrom 0 items) :
    entry.1.toValue.text = entry.1.toName := by
  obtain ⟨i, hi⟩ := List.mem_iff_getElem?.mp h
  rw [getElem?_indexedFrom, Nat.zero_add] at hi
  obtain ⟨v, hv, rfl⟩ := Option.map_eq_some_iff.mp hi
  have hlength : i < items.length := (List.getElem?_eq_some_iff.mp hv).1
  exact text_toValue_index (by omega)

/-- Entries as keys and values. -/
def couplesOf (entries : List (Key × Value)) : List (Value × Value) :=
  entries.map fun entry => (entry.1.toValue, entry.2)

theorem isDefined_of_mem_couplesOf {entries : List (Key × Value)} {couple : Value × Value}
    (h : couple ∈ couplesOf entries) : couple.1.isDefined = true := by
  obtain ⟨⟨key, v⟩, -, rfl⟩ := List.mem_map.mp h
  cases key <;> rfl

/-- Of keys that are spelt as their names, the names are made. -/
theorem ofList_couplesOf {entries : List (Key × Value)}
    (hdistinct : Entries.Distinct (namesOf entries))
    (htexts : ∀ entry ∈ entries, entry.1.toValue.text = entry.1.toName) :
    Entries.ofList ((couplesOf entries).map entryOf) = namesOf entries := by
  have hnames : (couplesOf entries).map entryOf = namesOf entries := by
    rw [couplesOf, List.map_map]
    exact List.map_congr_left fun entry hentry => congrArg (·, entry.2) (htexts entry hentry)
  rw [hnames, Entries.ofList_of_distinct hdistinct]

/-! ## What comes back -/

section ComingBack

variable [Host] {scope : Scope} {w after : World} {c : Value} {entries : List (Key × Value)}

/-- A map is made of the pairs and of the items of a value. -/
structure World.MakesAgain (w : World) (c : Value) (made : Entries String Value) : Prop where
  pairs : (do Builtin.couplesAsMap.apply [← Builtin.pairs.apply [c]] : Eval Value).Yields w
    (.map made)
  items : (do Builtin.itemsAsMap.apply [← Builtin.items.apply [c]] : Eval Value).Yields w
    (.map made)

/-- A map is made of the pairs and of the items of a value that may run bodies on the way. -/
structure Value.MakesAgain (scope : Scope) (w : World) (c : Value) (made : Entries String Value)
    (after : World) : Prop where
  pairs : (do Builtin.couplesAsMap.apply [← Builtin.pairs.apply [c]] : Eval Value) scope w =
    .done (.map made) after
  items : (do Builtin.itemsAsMap.apply [← Builtin.items.apply [c]] : Eval Value) scope w =
    .done (.map made) after

theorem World.Shows.makesAgain (h : w.Shows c entries)
    (hdistinct : Entries.Distinct (namesOf entries))
    (htexts : ∀ entry ∈ entries, entry.1.toValue.text = entry.1.toName) :
    w.MakesAgain c (namesOf entries) := by
  have hpairs : (Builtin.pairs.apply [c]).Yields w (.array ((couplesOf entries).map coupleOf)) := by
    rw [couplesOf, List.map_map]
    exact h.yields_view (fun key v => .array [key.toValue, v]) (by decide) rfl
  have hitems : (Builtin.items.apply [c]).Yields w (.array ((couplesOf entries).map itemOf)) := by
    rw [couplesOf, List.map_map]
    exact h.yields_view (fun key v => .map [("key", key.toValue), ("value", v)]) (by decide) rfl
  constructor
  · refine Eval.yields_bind hpairs ?_
    rw [couplesToMap_couples, ofList_couplesOf hdistinct htexts]
    exact Eval.yields_pure _
  · refine Eval.yields_bind hitems ?_
    rw [itemsToMap_items fun _ => isDefined_of_mem_couplesOf, ofList_couplesOf hdistinct htexts]
    exact Eval.yields_pure _

namespace Value.Tells

/-- A view of what a container tells has one value for each entry. -/
theorem apply_view (h : c.Tells scope w entries after) {b : Builtin}
    (shape : Key → Value → Value) (hcount : b.fewest ≤ 1 ∧ 1 ≤ b.most)
    (hrun : b.run [c] = listing shape c) :
    b.apply [c] scope w =
      .done (.array (entries.map fun entry => shape entry.1 entry.2)) after := by
  rw [Builtin.apply_eq_run hcount, hrun]
  unfold listing
  rw [h.isAbsent_eq]
  exact Eval.bind_of_done h.entriesOf?_eq _

/-- From a sequence the elements that it tells come back under the numbers of their places. -/
theorem makesAgain (h : c.Tells scope w entries after) (hsequence : ∀ names, c ≠ .map names)
    (hfits : entries.length ≤ Int64.maxValue.toInt) :
    c.MakesAgain scope w (namesOf (indexedFrom 0 (entries.map Prod.snd))) after := by
  have hentries : indexedFrom 0 (entries.map Prod.snd) = entries := by
    rcases h.keys_eq with ⟨names, rfl, -⟩ | ⟨-, count, hkeys⟩
    · exact absurd rfl (hsequence names)
    · exact indexedFrom_map_snd hkeys
  have hdistinct := distinct_namesOf_indexedFrom (entries.map Prod.snd)
  have htexts : ∀ entry ∈ entries, entry.1.toValue.text = entry.1.toName := by
    have hitems : (entries.map Prod.snd).length ≤ Int64.maxValue.toInt := by
      rwa [List.length_map]
    intro entry hentry
    rw [← hentries] at hentry
    exact text_of_mem_indexedFrom hitems hentry
  rw [hentries] at hdistinct ⊢
  constructor
  · have hpairs := h.apply_view (b := .pairs) (fun key v => .array [key.toValue, v]) (by decide) rfl
    have hmade := couplesToMap_couples (couplesOf entries)
    rw [ofList_couplesOf hdistinct htexts, couplesOf, List.map_map] at hmade
    rw [Eval.bind_of_done hpairs]
    exact congrFun (congrFun hmade scope) after
  · have hitems := h.apply_view (b := .items)
      (fun key v => .map [("key", key.toValue), ("value", v)]) (by decide) rfl
    have hdefined : ∀ couple ∈ couplesOf entries, couple.1.isDefined = true :=
      fun _ => isDefined_of_mem_couplesOf
    have hmade := itemsToMap_items hdefined
    rw [ofList_couplesOf hdistinct htexts, couplesOf, List.map_map] at hmade
    rw [Eval.bind_of_done hitems]
    exact congrFun (congrFun hmade scope) after

end Value.Tells

/-- From a map and from an instance the names come back as they are. -/
theorem World.Shows.makesAgain_named {names : List (String × Value)}
    (h : w.Shows c (namedEntries names)) (hdistinct : Entries.Distinct names) :
    w.MakesAgain c names := by
  have hnames := namesOf_namedEntries names
  have hmade : w.MakesAgain c (namesOf (namedEntries names)) := by
    refine h.makesAgain (hnames.symm ▸ hdistinct) fun entry hentry => ?_
    obtain ⟨_, -, rfl⟩ := List.mem_map.mp hentry
    rfl
  rwa [hnames] at hmade

/-- From a sequence the elements come back under the numbers of their places. -/
theorem Value.Represents.makesAgain {s : Value} {items : List Value} (h : s.Represents items)
    (hfits : items.length ≤ Int64.maxValue.toInt) (w : World) :
    w.MakesAgain s (namesOf (indexedFrom 0 items)) := by
  have hshows : w.Shows s (indexedFrom 0 items) := .container (.sequence h)
  exact hshows.makesAgain (distinct_namesOf_indexedFrom items)
    fun _ => text_of_mem_indexedFrom hfits

/-- The values of a map of elements under the numbers of their places are the elements. -/
theorem yields_values_namesOf_indexedFrom (w : World) (items : List Value) :
    (Builtin.values.apply [.map (namesOf (indexedFrom 0 items))]).Yields w (.array items) := by
  have hshows : w.Shows (.map (namesOf (indexedFrom 0 items)))
      (namedEntries (namesOf (indexedFrom 0 items))) :=
    .container (.map (distinct_namesOf_indexedFrom items))
  have hitems : (namedEntries (namesOf (indexedFrom 0 items))).map Prod.snd = items := by
    rw [map_snd_namedEntries, namesOf, List.map_map]
    exact map_snd_indexedFrom 0 items
  have hvalues := hshows.yields_view (b := .values) (fun _ v => v) (by decide) rfl
  rwa [hitems] at hvalues

/-- **Maps from views.** A map comes back from its pairs and from its items as it was, and an
instance as the map of its properties; a sequence as the map of its elements under the digits of
their places, which are distinct, be it one of which all is there or one that runs bodies to tell
its elements. Of any keys that are not missing and values both make one map, in which the names
stand in the order in which they first come and each has its last value. -/
theorem rekeying_undoes_views :
    (∀ (w : World) (names : List (String × Value)), Entries.Distinct names →
      w.MakesAgain (.map names) names) ∧
    (∀ (history : List Event) (w : World), Run history w → ∀ i : InstanceRef,
      w.isGeneric i.cls = false → w.MakesAgain (.inst i) (w.properties i)) ∧
    (∀ (w : World) (s : Value) (items : List Value), s.Represents items →
      items.length ≤ Int64.maxValue.toInt → ∃ made : Entries String Value,
        w.MakesAgain s made ∧ Entries.keys made = (List.range items.length).map toString ∧
        Entries.Distinct made ∧ (Builtin.values.apply [.map made]).Yields w (.array items)) ∧
    (∀ (scope : Scope) (w after : World) (s : Value) (entries : List (Key × Value)),
      s.Tells scope w entries after → (∀ names, s ≠ .map names) →
      entries.length ≤ Int64.maxValue.toInt → ∃ made : Entries String Value,
        s.MakesAgain scope w made after ∧
        Entries.keys made = (List.range entries.length).map toString ∧ Entries.Distinct made ∧
        (Builtin.values.apply [.map made]).Yields after (.array (entries.map Prod.snd))) ∧
    ∀ couples : List (Value × Value), (∀ couple ∈ couples, couple.1.isDefined = true) →
      ∃ made : Entries String Value,
        Builtin.couplesAsMap.apply [.array (couples.map coupleOf)] = pure (.map made) ∧
        Builtin.itemsAsMap.apply [.array (couples.map itemOf)] = pure (.map made) ∧
        Entries.keys made = (couples.map fun couple => couple.1.text).eraseDups ∧
        ∀ name, Entries.find? name made = (valuesUnder name (couples.map entryOf)).getLast? := by
  refine ⟨fun w names hdistinct => ?_, fun history w run i hplain => ?_,
    fun w s items h hfits => ?_, fun scope w after s entries h hsequence hfits => ?_,
    fun couples hdefined => ?_⟩
  · have hshows : w.Shows (.map names) (namedEntries names) := .container (.map hdistinct)
    exact hshows.makesAgain_named hdistinct
  · have hdistinct := run.distinct_properties i
    have hshows : w.Shows (.inst i) (namedEntries (w.properties i)) :=
      .properties hplain hdistinct
    exact hshows.makesAgain_named hdistinct
  · exact ⟨_, h.makesAgain hfits w, keys_namesOf_indexedFrom items,
      distinct_namesOf_indexedFrom items, yields_values_namesOf_indexedFrom w items⟩
  · have hkeys := keys_namesOf_indexedFrom (entries.map Prod.snd)
    rw [List.length_map] at hkeys
    exact ⟨_, h.makesAgain hsequence hfits, hkeys, distinct_namesOf_indexedFrom _,
      yields_values_namesOf_indexedFrom after _⟩
  · have hgroups := groups_ofList (couples.map entryOf)
    refine ⟨_, couplesToMap_couples couples, itemsToMap_items hdefined, ?_, fun name => ?_⟩
    · rw [hgroups.keys_eq, List.map_map]
      rfl
    · rw [hgroups.find?_eq, foldFirst_replace]

end ComingBack

/-- A map with an empty name and a missing value, a container that counts its reads, and a number
and its text under one name. -/
theorem rekeying_undoes_views_texts :
    let names : List (String × Value) := [("", .undefined), ("\x7b", .none)]
    let couples : List (Value × Value) :=
      [(.integer 1, .none), (.string "x", .none), (.string "1", .undefined)]
    letI := Script.hostWithin 0
    (Entries.Distinct names ∧ ∀ couple ∈ couples, couple.1.isDefined = true) ∧
    ({} : World).MakesAgain (.map names) names ∧
    (∃ made after, @Value.MakesAgain (Countdown.host 3) {} { instances := #[{}] } (.foreign default)
      made after ∧ Entries.keys made = ["0", "1", "2"] ∧
      after.property default "reads" = .integer 3) ∧
    Builtin.couplesAsMap.apply [.array (couples.map coupleOf)] =
      Builtin.itemsAsMap.apply [.array (couples.map itemOf)] ∧
    ∃ made, Builtin.itemsAsMap.apply [.array (couples.map itemOf)] = pure (.map made) ∧
      Entries.keys made = ["1", "x"] ∧ Entries.find? "1" made = some .undefined := by
  intro names couples
  let _ := Script.hostWithin 0
  have hdistinct : Entries.Distinct names := by
    have hnames : ["", "\x7b"].Nodup := by decide
    exact hnames
  have hdefined : ∀ couple ∈ couples, couple.1.isDefined = true := by
    simp [couples, Value.isDefined]
  obtain ⟨hmaps, -, -, -, hcouples⟩ := rekeying_undoes_views
  obtain ⟨made, hpairs, hitems, hkeys, hlast⟩ := hcouples couples hdefined
  refine ⟨⟨hdistinct, hdefined⟩, hmaps {} names hdistinct, ?_, hpairs.trans hitems.symm, made,
    hitems, hkeys.trans (by decide), ?_⟩
  · let _ := Countdown.host 3
    obtain ⟨-, -, -, htells, -⟩ := rekeying_undoes_views
    obtain ⟨made, hmade, hkeys, -⟩ := htells {} { instances := #[{}] } _ (.foreign default) _
      (Countdown.tells {} _) (by simp) (by decide)
    exact ⟨made, _, hmade, hkeys.trans (by decide), rfl⟩
  · rw [hlast]
    rfl

end DynamicObjects
