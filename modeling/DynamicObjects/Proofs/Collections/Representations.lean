import DynamicObjects.Builtin.Apply
import DynamicObjects.Proofs.Collections.Sorted
import DynamicObjects.Proofs.Collections.Visits

/-!
# Representations of sequences

A sequence of values may come as an array, as a typed array whose numbers widen to them, or as
a foreign table that tells its length and gives them one by one. Each is taken apart in
several ways: a walk goes over it, its length is asked for, single elements are picked, it is
compared. All of these are the same computations for each representation, so callbacks get the
same values and positions in the same order, and what is computed from there on cannot differ.

What is left are operations that give a sequence back as it came, and a report that tells its
type.

* `Value.Represents`: the representations.
* `Builtin.sequencePlaces`: the arguments that operations take apart as sequences.
* `representation_independent`: operations do not tell representations apart.
-/

namespace DynamicObjects

open Number

/-- A value is a representation of a sequence of values. -/
inductive Value.Represents : Value → List Value → Prop
  | array (items : List Value) : Represents (.array items) items
  | typed (items : TypedArray) : Represents (.typed items) items.values
  | iterable {id : Nat} {label : String} {length : Nat} {items : List Value}
      {faults : List (Nat × Value)} (h : ∀ i < length, Value.faultAt? faults i = Option.none) :
      Represents (.iterable id label length items Option.none faults)
        ((List.range length).map fun i => items[i]?.getD .undefined)

variable {σ : Type} {s : Value} {items : List Value}

theorem TypedArray.length_values (items : TypedArray) : items.values.length = items.length := by
  cases items <;> exact List.length_map _

namespace Value.Represents

section Parts

variable [Host] (h : s.Represents items)
include h

/-! ## Taking representations apart -/

theorem length_eq : s.length = pure items.length := by
  cases h with
  | array =>
    rw [Value.length, Value.elements_array, List.size_toArray]
  | typed items => rw [Value.length, TypedArray.length_values]
  | iterable =>
    rw [List.length_map, List.length_range]
    rfl

theorem length_eq_array : s.length = (Value.array items).length := by
  rw [h.length_eq, Value.length, Value.elements_array, List.size_toArray]

/-- A walk visits the same elements under the same keys. -/
theorem run_eq (walk : Walk σ) (start : σ) :
    walk.run start s = walk.visitEach (indexedFrom 0 items) start := by
  cases h with
  | array | typed => rfl
  | iterable hfaults => exact Walk.run_iterable hfaults walk start

/-- The elements are gathered as they are. -/
theorem collect_eq : collect s = pure (indexedFrom 0 items) := collect_of_run (h.run_eq _ _)

theorem entriesOf?_eq : entriesOf? s = pure (some (indexedFrom 0 items)) := by
  have hcollect := h.collect_eq
  cases h <;> exact congrArg (fun x : Eval _ => some <$> x) hcollect

theorem elementsOf?_eq : elementsOf? s = pure (some items) := by
  have hcollect := h.collect_eq
  have helements : (pure (indexedFrom 0 items) >>= fun found =>
      pure (some (found.map Prod.snd)) : Eval (Option (List Value))) = pure (some items) := by
    rw [pure_bind, map_snd_indexedFrom]
  rw [← helements, ← hcollect]
  cases h <;> rfl

theorem elementAt_eq (i : Nat) : elementAt s i = pure (items[i]?.getD .undefined) := by
  cases h with
  | array => rw [elementAt, Value.elements_array, List.getElem?_toArray]
  | typed items => rw [elementAt, TypedArray.get?_eq]
  | @iterable id label length items faults hfaults =>
    have hview : elementAt (.iterable id label length items Option.none faults) i =
        if i < length then
          (View.ofIterable .undefined length items.toArray Option.none faults).element i
        else pure .undefined := by
      funext scope w
      simp only [elementAt, Value.view?, Eval.bind_apply, Eval.reads_apply, World.view?,
        Value.elements_iterable]
      rfl
    rw [hview]
    split
    · rename_i hi
      simp [View.ofIterable, hfaults i hi, hi]
    · rename_i hi
      simp [hi]

theorem membersOf_eq : membersOf s = pure items := by
  have helements := h.elementsOf?_eq
  have hmembers : (pure (some items) >>= fun found => pure (found.getD []) :
      Eval (List Value)) = pure items := rfl
  rw [← hmembers, ← helements]
  cases h <;> rfl

theorem isEmptySet_eq : isEmptySet s = pure (items.length == 0) := by
  have hlength := h.length_eq
  have hempty : (pure items.length >>= fun n => pure (n == 0) : Eval Bool) =
    pure (items.length == 0) := rfl
  rw [← hempty, ← hlength]
  cases h <;> rfl

omit [Host] in
theorem isContainer (w : World) : (w.kind s).isContainer = true := by cases h <;> rfl

omit [Host] in
/-- What does the same with sequences and with generic iterables. -/
theorem kind_bind {α : Type} {f : Kind → Eval α} (hf : f .generic = f .sequence) :
    (s.kind >>= f) = f .sequence := by
  cases h with
  | array | typed => rfl
  | iterable => exact hf

end Parts

end Value.Represents

/-! ## Comparing representations -/

/-- Two views have the same length, which can be had, and the same elements below it. -/
structure View.Same {α : Type} (count : Nat) (view view' : View α) : Prop where
  length_eq : view.length = pure count
  length_eq' : view'.length = pure count
  element_eq : ∀ i < count, view.element i = view'.element i

theorem comparePlaces_congr {left left' : View Place} {right right' : View Value}
    {leftLength rightLength : Nat}
    (hleft : ∀ i < leftLength, left.element i = left'.element i)
    (hright : ∀ i < rightLength, right.element i = right'.element i) (count i : Nat) :
    comparePlaces left right leftLength rightLength count i =
      comparePlaces left' right' leftLength rightLength count i := by
  induction count generalizing i with
  | zero => rfl
  | succ count ih =>
    rw [comparePlaces, comparePlaces]
    split
    · rename_i hi
      split
      · rename_i hi'
        simp only [View.elementOr, hleft i hi, hright i hi', ih]
      · rfl
    · rfl

theorem View.lengthOrZero_eq {α : Type} {view : View α} {count : Nat}
    (h : view.length = pure count) : view.lengthOrZero = pure count := by
  rw [View.lengthOrZero, h]
  rfl

namespace Value.Represents

section Comparing

variable [Host] (h : s.Represents items)
include h

theorem sequence?_eq : ∃ view : View Value, (∀ w : World, w.sequence? s = some view) ∧
    view.Same items.length (View.ofArray .undefined items.toArray) := by
  cases h with
  | array =>
    refine ⟨View.ofArray .undefined items.toArray, fun w => ?_, rfl, rfl, fun _ _ => rfl⟩
    rw [World.sequence?, Value.elements_array]
  | typed items => exact ⟨_, fun _ => rfl, rfl, rfl, fun _ _ => rfl⟩
  | @iterable id label length items faults hfaults =>
    refine ⟨View.ofIterable .undefined length items.toArray Option.none faults, fun w => ?_, ?_,
      rfl, fun i hi => ?_⟩
    · rw [World.sequence?, World.view?, Value.elements_iterable]
      · intro _ hcases
        cases hcases
      · intro _ hcases
        cases hcases
    · rw [List.length_map, List.length_range]
      rfl
    · rw [List.length_map, List.length_range] at hi
      simp [View.ofIterable, View.ofArray, hfaults i hi, hi]

theorem compareSequence_eq (left : View Place) :
    compareSequence left s = compareSequence left (.array items) := by
  obtain ⟨view, hview, hsame⟩ := h.sequence?_eq
  have harray (w : World) : w.sequence? (.array items) =
      some (View.ofArray .undefined items.toArray) := by
    rw [World.sequence?, Value.elements_array]
  have hreads (found : View Value) : (Eval.reads fun _ => some found) = pure (some found) := rfl
  have hplaces (leftLength total i : Nat) :
      comparePlaces left view leftLength items.length total i =
        comparePlaces left (View.ofArray .undefined items.toArray) leftLength items.length total
          i :=
    comparePlaces_congr (fun _ _ => rfl) hsame.element_eq total i
  simp only [compareSequence, hview, harray, hreads, pure_bind,
    View.lengthOrZero_eq hsame.length_eq, View.lengthOrZero_eq hsame.length_eq', hplaces]

omit [Host] in
theorem rank_eq (w : World) : w.rank s = w.rank (.array items) := by cases h <;> rfl

omit [Host] in
theorem compareAtoms_eq (a : Value) : compareAtoms a s = compareAtoms a (.array items) := by
  cases h <;> cases a <;> rfl

/-- The second of two values is compared in the same way. -/
theorem compareBy_right (deeper : Value → Value → Eval Ordering) (a : Value) :
    compareBy deeper a s = compareBy deeper a (.array items) := by
  have hrank {further further' : Eval Ordering} (hfurther : further = further') :
      byRank a s further = byRank a (.array items) further' := by
    simp only [byRank, h.rank_eq, hfurther]
  have hmap (entries : Entries String Place) :
      compareMap entries s = compareMap entries (.array items) := by
    cases h <;> rfl
  cases a with
  | array _ | typed _ | iterable _ _ _ _ _ _ | foreign _ =>
    rw [compareBy, compareBy]
    exact hrank (h.compareSequence_eq _)
  | map _ =>
    rw [compareBy, compareBy]
    exact hrank (hmap _)
  | inst _ =>
    rw [compareBy, compareBy]
    refine hrank ?_
    simp only [h.compareSequence_eq, h.compareAtoms_eq]
  | undefined | none | boolean _ | integer _ | float _ | string _ | function _ | cls _ =>
    rw [compareBy, compareBy]
    refine hrank ?_
    rw [h.compareAtoms_eq]
    all_goals
      intros
      contradiction

end Comparing

end Value.Represents

section Comparing

variable [Host] (deeper : Value → Value → Eval Ordering)

theorem compareSequence_congr {left left' : View Place} {count : Nat}
    (hleft : left.Same count left') (b : Value) :
    compareSequence left b = compareSequence left' b := by
  have hplaces (right : View Value) (rightLength total i : Nat) :
      comparePlaces left right count rightLength total i =
        comparePlaces left' right count rightLength total i :=
    comparePlaces_congr hleft.element_eq (fun _ _ => rfl) total i
  unfold compareSequence
  rw [View.lengthOrZero_eq hleft.length_eq, View.lengthOrZero_eq hleft.length_eq']
  simp only [pure_bind, hplaces]

theorem Place.missing_eq : Place.missing = ⟨.undefined, compareBy deeper .undefined⟩ := by
  have hcompare : compareBy deeper .undefined = (Place.ofAtom .undefined).compareTo := by
    funext b
    rw [compareBy, Place.ofAtom]
    all_goals
      intros
      contradiction
  rw [hcompare]
  rfl

/-- The numbers of a typed array have the places that they have in an array. -/
theorem placesOf_values (items : TypedArray) :
    placesOf deeper items.values = items.values.map Place.ofAtom := by
  rw [placesOf_eq_map]
  refine List.map_congr_left fun v hv => ?_
  have hcompare : compareBy deeper v = (Place.ofAtom v).compareTo := by
    funext b
    cases items <;>
    · obtain ⟨x, -, rfl⟩ := List.mem_map.mp hv
      rw [compareBy, Place.ofAtom]
      all_goals
        intros
        contradiction
  rw [hcompare]
  rfl

/-- The first of two values is compared in the same way. -/
theorem Value.Represents.compareBy_left (h : s.Represents items) (b : Value) :
    compareBy deeper s b = compareBy deeper (.array items) b := by
  cases h with
  | array => rfl
  | typed items =>
    rw [compareBy, compareBy, placesOf_values]
    rfl
  | @iterable id label length items faults hfaults =>
    rw [compareBy, compareBy]
    have hsame : (View.ofIterable .missing length (placesOf deeper items).toArray Option.none
        faults).Same length (View.ofArray .missing (placesOf deeper
          ((List.range length).map fun i => items[i]?.getD .undefined)).toArray) := by
      refine ⟨rfl, ?_, fun i hi => ?_⟩
      · rw [placesOf_eq_map, View.ofArray, List.size_toArray, List.length_map, List.length_map,
          List.length_range]
      · simp only [View.ofIterable, View.ofArray, hfaults i hi, placesOf_eq_map,
          List.getElem?_toArray, List.getElem?_map, List.getElem?_range hi, Option.map_some,
          Option.getD_some]
        cases items[i]? with
        | none => rw [Option.map_none, Option.getD_none, Option.getD_none, Place.missing_eq deeper]
        | some v => rfl
    rw [compareSequence_congr hsame]
    rfl

end Comparing

/-! ## Operations on representations -/

namespace Value.Represents

section Operations

variable [Host] (h : s.Represents items)
include h

theorem compare_left (b : Value) : s.compare b = (Value.array items).compare b := by
  unfold Value.compare
  cases Host.fuel <;> exact h.compareBy_left _ b

theorem compare_right (a : Value) : a.compare s = a.compare (.array items) := by
  unfold Value.compare
  cases Host.fuel <;> exact h.compareBy_right _ a

omit [Host] in
theorem isAbsent_eq : s.isAbsent = false := by cases h <;> rfl

theorem listing_eq (shape : Key → Value → Value) :
    listing shape s = listing shape (.array items) := by
  have harray := (Value.Represents.array items).entriesOf?_eq
  simp only [listing, h.isAbsent_eq, h.entriesOf?_eq, harray]
  rfl

theorem keysOf_eq : keysOf s = keysOf (.array items) := by
  simp only [keysOf, h.isAbsent_eq, h.listing_eq]
  rfl

theorem resolveOffset_eq (i : Int64) : resolveOffset s i = resolveOffset (.array items) i := by
  simp only [resolveOffset, h.length_eq, (Value.Represents.array items).length_eq]

theorem accessValue_eq (index : Value) :
    accessValue s index = accessValue (.array items) index := by
  have helement (i : Nat) : elementAt s i = elementAt (.array items) i := by
    rw [h.elementAt_eq, (Value.Represents.array items).elementAt_eq]
  cases index with
  | integer i =>
    have hinteger {v : Value} (hv : v.Represents items) : accessValue v (.integer i) =
        if 0 ≤ i then elementAt v i.toInt.toNat
        else do
          let resolved ← resolveOffset v i
          if 0 ≤ resolved then elementAt v resolved.toInt.toNat else return .undefined := by
      cases hv <;> rfl
    rw [hinteger h, hinteger (.array items), h.resolveOffset_eq]
    simp only [helement]
  | _ => cases h <;> rfl

theorem sliceValue_eq (start : Int64) (stop : Option Int64) :
    sliceValue s start stop = sliceValue (.array items) start stop := by
  have hslice {v : Value} (hv : v.Represents items) : sliceValue v start stop = do
      let bounds ← sliceBounds (← v.length) start stop
      let items ← elementsOf? v
      return .array (between bounds.1 bounds.2 (items.getD [])) := by
    cases hv <;> rfl
  have harray := Value.Represents.array items
  rw [hslice h, hslice harray, h.length_eq, harray.length_eq, h.elementsOf?_eq,
    harray.elementsOf?_eq]

theorem reverseValue_eq : reverseValue s = reverseValue (.array items) := by
  have helements := h.elementsOf?_eq
  have harray := (Value.Represents.array items).elementsOf?_eq
  cases h <;> simp only [reverseValue, helements, harray, pure_bind]

theorem visitAll_eq (visit : Value → Key → Eval Flow) :
    visitAll s visit = visitAll (.array items) visit := by
  rw [visitAll, visitAll, h.run_eq]
  rfl

theorem isInContainer_eq (v : Value) (predicate : Option Function) :
    isInContainer v s predicate = isInContainer v (.array items) predicate := by
  rw [isInContainer, isInContainer, h.kind_bind, (Value.Represents.array items).kind_bind,
    h.visitAll_eq]
  all_goals rfl

theorem findPosition_eq (test : Value → Key → Eval Bool) :
    findPosition test s = findPosition test (.array items) := by
  rw [findPosition, findPosition, h.run_eq]
  rfl

theorem firstOf_eq (predicate : Option Function) :
    firstOf s predicate = firstOf (.array items) predicate := by
  rw [firstOf, firstOf, h.visitAll_eq]

theorem lastOf_eq (predicate : Option Function) :
    lastOf s predicate = lastOf (.array items) predicate := by
  rw [lastOf, lastOf, h.run_eq]
  rfl

theorem rebuild_eq (operation : String) (keep : Value → Key → Eval (Option Value)) :
    rebuild operation keep s = rebuild operation keep (.array items) := by
  rw [rebuild, rebuild, h.kind_bind, (Value.Represents.array items).kind_bind]
  · dsimp only
    rw [h.run_eq, (Value.Represents.array items).run_eq]
  all_goals rfl

theorem reduceWith_eq (step : Value → Value → Key → Nat → Eval (Value × Value))
    (initial : Option Value) : reduceWith step initial s = reduceWith step initial (.array items) := by
  rw [reduceWith, reduceWith, h.run_eq]
  rfl

theorem indexBy_eq (extractor : Function) (replacer : Option Function) :
    indexBy s extractor replacer = indexBy (.array items) extractor replacer := by
  rw [indexBy, indexBy, h.run_eq]
  rfl

theorem sortedCopy_eq (comparison : Comparison) (reverse : Bool) :
    sortedCopy s comparison reverse = sortedCopy (.array items) comparison reverse := by
  rw [sortedCopy, sortedCopy, h.kind_bind, (Value.Represents.array items).kind_bind]
  · dsimp only
    rw [h.collect_eq, (Value.Represents.array items).collect_eq]
  all_goals rfl

/-! ### Sets -/

theorem couplesToMap_eq : couplesToMap s = couplesToMap (.array items) := by
  simp only [couplesToMap, h.elementsOf?_eq, (Value.Represents.array items).elementsOf?_eq,
    pure_bind]

theorem itemsToMap_eq : itemsToMap s = itemsToMap (.array items) := by
  simp only [itemsToMap, h.elementsOf?_eq, (Value.Represents.array items).elementsOf?_eq,
    pure_bind]

theorem elementsOf?_eq_array : elementsOf? s = elementsOf? (.array items) := by
  rw [h.elementsOf?_eq, (Value.Represents.array items).elementsOf?_eq]

theorem membersOf_eq_array : membersOf s = membersOf (.array items) := by
  rw [h.membersOf_eq, (Value.Represents.array items).membersOf_eq]

theorem isEmptySet_eq_array : isEmptySet s = isEmptySet (.array items) := by
  rw [h.isEmptySet_eq, (Value.Represents.array items).isEmptySet_eq]

theorem intersectionOf_left (b : Value) :
    intersectionOf s b = intersectionOf (.array items) b := by
  unfold intersectionOf
  rw [h.isEmptySet_eq_array]
  refine bind_congr fun empty => ?_
  cases empty with
  | true => rfl
  | false =>
    rw [h.kind_bind, (Value.Represents.array items).kind_bind, h.elementsOf?_eq_array]
    all_goals rfl

theorem intersectionOf_right (a : Value) :
    intersectionOf a s = intersectionOf a (.array items) := by
  have helements := h.elementsOf?_eq_array
  simp only [intersectionOf]
  cases h with
  | array => rfl
  | typed items =>
    simp only [helements]
  | iterable =>
    simp only [helements]

theorem differenceOf_right (a : Value) : differenceOf a s = differenceOf a (.array items) := by
  have hmembers := h.membersOf_eq_array
  simp only [differenceOf, h.isEmptySet_eq_array]
  cases h with
  | array => rfl
  | typed | iterable => simp only [hmembers]

end Operations

end Value.Represents

/-! ## Answers that are alike -/

section Alike

variable [Host] (items : List Value) (s : Value)

/-- An answer with an array and one with another representation in its place: the same, or
the two sequences themselves, as they were given. As data they compare as equal. -/
structure AnswersAlike (r r' : Value) : Prop where
  same_or_given : r = r' ∨ (r = .array items ∧ r' = s)
  equal : ∀ w : World, w.IsData r →
    (r.compare r').Yields w .eq ∧ (r'.compare r).Yields w .eq

/-- Two replies have answers that are alike, or the same failure, in the same world. -/
inductive Reply.Alike : Reply Value → Reply Value → Prop
  | done {r r' : Value} {after : World} (h : AnswersAlike items s r r') :
      Alike (.done r after) (.done r' after)
  | failed (e : Failure) (after : World) : Alike (.failed e after) (.failed e after)
  | stuck (reason : Stuck) : Alike (.stuck reason) (.stuck reason)

/-- Two computations have replies that are alike, in every scope and wherever they start. -/
def Eval.Alike (x y : Eval Value) : Prop :=
  ∀ scope w, (x scope w).Alike items s (y scope w)

variable {items s}

theorem AnswersAlike.refl (r : Value) : AnswersAlike items s r r where
  same_or_given := .inl rfl
  equal w hdata := by
    have hself := yields_compare hdata hdata
    rw [Value.order_self] at hself
    exact ⟨hself, hself⟩

theorem Value.Represents.alike (h : s.Represents items) :
    AnswersAlike items s (.array items) s where
  same_or_given := .inr ⟨rfl, rfl⟩
  equal w hdata := by
    have hself := yields_compare hdata hdata
    rw [Value.order_self] at hself
    rw [h.compare_left, h.compare_right]
    exact ⟨hself, hself⟩

theorem Reply.Alike.refl (reply : Reply Value) : reply.Alike items s reply := by
  cases reply with
  | done r after => exact .done (.refl r)
  | failed e after => exact .failed e after
  | stuck reason => exact .stuck reason

namespace Eval

theorem alike_of_eq {x y : Eval Value} (h : y = x) : x.Alike items s y :=
  fun _ _ => h ▸ .refl _

theorem alike_bind {α : Type} (x : Eval α) {f g : α → Eval Value}
    (h : ∀ a, (f a).Alike items s (g a)) : (x >>= f).Alike items s (x >>= g) := by
  intro scope w
  rw [bind_apply, bind_apply]
  cases x scope w with
  | done a after => exact h a scope after
  | failed e after => exact .failed e after
  | stuck reason => exact .stuck reason

theorem alike_ite {x x' y y' : Eval Value} (c : Prop) [Decidable c]
    (hthen : x.Alike items s y) (helse : x'.Alike items s y') :
    (if c then x else x').Alike items s (if c then y else y') := by
  split
  · exact hthen
  · exact helse

/-- The sequence that was given is given back. -/
theorem alike_pure (h : s.Represents items) :
    (pure (.array items) : Eval Value).Alike items s (pure s) :=
  fun _ _ => .done h.alike

end Eval

end Alike

/-! ## Operations that give a sequence back -/

namespace Value.Represents

section Given

variable [Host] (h : s.Represents items)
include h

omit h in
/-- Copies of numbers are the numbers. -/
theorem copyItems_values (depth : Nat) (numbers : TypedArray) :
    copyItems (copyValue depth) numbers.values = pure numbers.values := by
  have hcopy (v : Value) (hv : v ∈ numbers.values) : copyValue depth v = pure v := by
    cases numbers <;>
    · obtain ⟨x, -, rfl⟩ := List.mem_map.mp hv
      cases depth <;> rfl
  generalize numbers.values = values at hcopy ⊢
  induction values with
  | nil => rfl
  | cons v rest ih =>
    have hrest := ih fun v hv => hcopy v (List.mem_cons_of_mem _ hv)
    rw [copyItems, hcopy v List.mem_cons_self, hrest]
    rfl

/-- Its items are copied one by one. -/
theorem copyValue_eq (htyped : ∀ numbers, s ≠ .typed numbers) (depth : Nat) :
    copyValue (depth + 1) s = (do return .array (← copyItems (copyValue depth) items)) := by
  have hcollected : copyValue (depth + 1) s = (do
      return .array (← copyItems (copyValue depth) ((← collect s).map Prod.snd))) := by
    cases h with
    | array | iterable => rfl
    | typed numbers => exact absurd rfl (htyped numbers)
  rw [hcollected, h.collect_eq, pure_bind, map_snd_indexedFrom]

theorem copyValue_alike (depth : Nat) :
    (copyValue depth (.array items)).Alike items s (copyValue depth s) := by
  cases depth with
  | zero => exact Eval.alike_pure h
  | succ depth =>
    rw [(Value.Represents.array items).copyValue_eq fun _ => nofun]
    by_cases htyped : ∃ numbers, s = .typed numbers
    · obtain ⟨numbers, rfl⟩ := htyped
      cases h
      -- a typed array is copied as it is, an array of its numbers number by number
      rw [copyItems_values]
      exact Eval.alike_pure (.typed numbers)
    · rw [h.copyValue_eq fun numbers heq => htyped ⟨numbers, heq⟩]
      exact Eval.alike_of_eq rfl

theorem differenceOf_left (b : Value) :
    (differenceOf (.array items) b).Alike items s (differenceOf s b) := by
  have hdifference {v : Value} (hv : v.Represents items) : differenceOf v b = (do
      if ← isEmptySet v then return v
      if ← isEmptySet b then return v
      let excluded ← membersOf b
      Eval.holding (.values excluded) do
        let items := (← elementsOf? v).getD []
        return .array (← sift false excluded items)) := by
    cases hv <;> rfl
  rw [hdifference h, hdifference (.array items), h.isEmptySet_eq_array, h.elementsOf?_eq_array]
  refine Eval.alike_bind _ fun empty => Eval.alike_ite _ (Eval.alike_pure h) ?_
  exact Eval.alike_bind _ fun empty => Eval.alike_ite _ (Eval.alike_pure h) (Eval.alike_of_eq rfl)

theorem unionOf_left (b : Value) :
    (unionOf (.array items) b).Alike items s (unionOf s b) := by
  have hunion {v : Value} (hv : v.Represents items) : unionOf v b = do
      if ← isEmptySet v then return b
      if ← isEmptySet b then return v
      let items := (← elementsOf? v).getD []
      let extra ← Eval.holding (.values items) (membersOf b)
      return .array (← addMissing extra items.reverse).reverse := by
    cases hv <;> rfl
  rw [hunion h, hunion (.array items), h.isEmptySet_eq_array, h.elementsOf?_eq_array]
  refine Eval.alike_bind _ fun empty => Eval.alike_ite _ (Eval.alike_of_eq rfl) ?_
  exact Eval.alike_bind _ fun empty => Eval.alike_ite _ (Eval.alike_pure h) (Eval.alike_of_eq rfl)

theorem unionOf_right (a : Value) :
    (unionOf a (.array items)).Alike items s (unionOf a s) := by
  have hmembers := h.membersOf_eq_array
  simp only [unionOf, h.isEmptySet_eq_array]
  refine Eval.alike_bind _ fun empty => Eval.alike_ite _ (Eval.alike_pure h) ?_
  refine Eval.alike_bind _ fun empty => Eval.alike_ite _ (Eval.alike_of_eq rfl) ?_
  refine Eval.alike_of_eq ?_
  cases h with
  | array => rfl
  | typed | iterable => simp only [hmembers]

/-- What is merged into an array may come in any representation; nothing else takes a sequence
in. -/
theorem mergeValues_eq {a : Value} (hmap : ∀ entries, a ≠ .map entries) (replace : Bool) :
    mergeValues a s replace = mergeValues a (.array items) replace := by
  cases a with
  | array _ =>
    simp only [mergeValues, h.elementsOf?_eq, (Value.Represents.array items).elementsOf?_eq,
      pure_bind]
  | map entries => exact absurd rfl (hmap entries)
  | _ => rfl

end Given

end Value.Represents

/-! ## Named operations -/

/-- The arguments that an operation takes apart as sequences, by position. -/
def Builtin.sequencePlaces : Builtin → List Nat
  | .len | .keys | .values | .items | .pairs | .access | .offset | .slice | .reverse | .copy
  | .find | .findLike | .first | .last | .asMap | .couplesAsMap | .itemsAsMap | .map | .filter
  | .reduce | .foldl | .sorted => [0]
  | .findOneOf | .difference | .union | .intersection | .cmp | .greater | .smaller => [0, 1]
  | .isIn | .merge => [1]
  | .typeOf | .kindOf | .isList | .isMap | .isIterable | .isFunction | .isInstance | .isDefined
  | .isUndefined | .isNumber | .isString | .isObject | .insert | .add | .remove | .removeAt => []

namespace Value.Represents

/-- What an operation makes of the answer of another computation. -/
theorem map_eq {α : Type} {x y : Eval α} (hxy : x = y) (f : α → Value) :
    (do return f (← x)) = (do return f (← y) : Eval Value) := by rw [hxy]

section Named

variable [Host] (h : s.Represents items)
include h

/-- An operation that takes its first argument apart and does not give it back does the same
for every representation. -/
theorem run_first_eq {b : Builtin} (hplace : 0 ∈ b.sequencePlaces)
    (hgiven : b ∉ [Builtin.copy, .difference, .union]) (after : List Value) :
    b.run (s :: after) = b.run (.array items :: after) := by
  cases b with
  | len => exact map_eq h.length_eq_array _
  | keys => exact h.keysOf_eq
  | values =>
    change valuesOf s = valuesOf (.array items)
    exact h.listing_eq _
  | items =>
    change itemsOf s = itemsOf (.array items)
    exact h.listing_eq _
  | pairs =>
    change pairsOf s = pairsOf (.array items)
    exact h.listing_eq _
  | access => exact bind_congr fun index => h.accessValue_eq index
  | offset => exact bind_congr fun i => map_eq (h.resolveOffset_eq i) _
  | slice => exact bind_congr fun start => bind_congr fun stop => h.sliceValue_eq _ stop
  | reverse => exact h.reverseValue_eq
  | find | findOneOf => exact bind_congr fun other => map_eq (h.findPosition_eq _) _
  | findLike => exact bind_congr fun f => map_eq (h.findPosition_eq _) _
  | first => exact bind_congr h.firstOf_eq
  | last => exact bind_congr h.lastOf_eq
  | asMap => exact bind_congr fun extractor => bind_congr fun replacer => h.indexBy_eq _ _
  | couplesAsMap => exact h.couplesToMap_eq
  | itemsAsMap => exact h.itemsToMap_eq
  | intersection => exact bind_congr fun other => h.intersectionOf_left other
  | map => exact bind_congr fun f => h.rebuild_eq _ _
  | filter =>
    refine bind_congr (x := functionAt .filter (s :: after) 1) fun predicate =>
      bind_congr (x := optionalFunctionAt .filter (s :: after) 2) fun processor => ?_
    cases processor <;> exact h.rebuild_eq _ _
  | reduce => exact bind_congr fun f => h.reduceWith_eq _ _
  | foldl => exact bind_congr fun f => bind_congr fun seed => h.reduceWith_eq _ _
  | cmp | greater | smaller => exact bind_congr fun other => map_eq (h.compare_left other) _
  | sorted => exact bind_congr fun comparison => h.sortedCopy_eq _ _
  | copy | difference | union => exact absurd (by decide) hgiven
  | isIn | merge | typeOf | kindOf | isList | isMap | isIterable | isFunction | isInstance
  | isDefined | isUndefined | isNumber | isString | isObject | insert | add | remove
  | removeAt => exact absurd hplace (by decide)

theorem run_first {b : Builtin} (hplace : 0 ∈ b.sequencePlaces) (after : List Value) :
    (b.run (.array items :: after)).Alike items s (b.run (s :: after)) := by
  by_cases hgiven : b ∈ [Builtin.copy, .difference, .union]
  · simp only [List.mem_cons, List.not_mem_nil, or_false] at hgiven
    rcases hgiven with rfl | rfl | rfl
    · exact Eval.alike_bind _ fun depth => h.copyValue_alike _
    · exact Eval.alike_bind _ fun other => h.differenceOf_left other
    · exact Eval.alike_bind _ fun other => h.unionOf_left other
  · exact Eval.alike_of_eq (h.run_first_eq hplace hgiven after)

theorem run_second {b : Builtin} (hplace : 1 ∈ b.sequencePlaces) (a : Value)
    (hmerge : b = .merge → ∀ entries, a ≠ .map entries) (after : List Value) :
    (b.run (a :: .array items :: after)).Alike items s (b.run (a :: s :: after)) := by
  cases b with
  | findOneOf =>
    have htest : (fun (v : Value) (_ : Key) => isInContainer v s Option.none) =
        fun v _ => isInContainer v (.array items) Option.none :=
      funext fun v => funext fun _ => h.isInContainer_eq v Option.none
    exact Eval.alike_of_eq (map_eq (congrArg (fun test => findPosition test a) htest) _)
  | difference => exact Eval.alike_of_eq (h.differenceOf_right a)
  | union => exact h.unionOf_right a
  | intersection => exact Eval.alike_of_eq (h.intersectionOf_right a)
  | cmp | greater | smaller => exact Eval.alike_of_eq (map_eq (h.compare_right a) _)
  | isIn =>
    have hin (predicate : Option Function) :
        (do return Value.boolean (← isInContainer a s predicate)) =
          (do return Value.boolean (← isInContainer a (.array items) predicate) : Eval Value) :=
      map_eq (h.isInContainer_eq a predicate) _
    exact Eval.alike_of_eq
      (bind_congr (x := optionalFunctionAt .isIn (a :: .array items :: after) 2) hin)
  | merge => exact Eval.alike_of_eq (h.mergeValues_eq (hmerge rfl) _)
  | _ => exact absurd hplace (by decide)

theorem apply_alike {b : Builtin} {before : List Value}
    (hplace : before.length ∈ b.sequencePlaces)
    (hmerge : b = .merge → ∀ entries, before ≠ [.map entries]) (after : List Value) :
    (b.apply (before ++ .array items :: after)).Alike items s
      (b.apply (before ++ s :: after)) := by
  have hcount : b.checkCount (before ++ s :: after) =
      b.checkCount (before ++ .array items :: after) := by
    simp only [Builtin.checkCount, List.length_append, List.length_cons]
  rw [Builtin.apply, Builtin.apply, hcount]
  refine Eval.alike_bind _ fun _ => ?_
  match before, hplace, hmerge with
  | [], hplace, _ => exact h.run_first hplace after
  | [a], hplace, hmerge =>
    refine h.run_second hplace a (fun hb entries ha => ?_) after
    exact hmerge hb entries (congrArg (fun v => [v]) ha)
  | _ :: _ :: _, hplace, _ => cases b <;> simp [Builtin.sequencePlaces] at hplace

end Named

end Value.Represents

/-! ## What is reported, and what is called -/

/-- A world in which nothing has been reported. -/
def World.unreported (w : World) : World := { w with diagnostics := #[] }

/-- A reply without the reports. -/
def Reply.unreported : Reply Value → Reply Value
  | .done r after => .done r after.unreported
  | .failed e after => .failed e after.unreported
  | .stuck reason => .stuck reason

/-- The calls noted in a variable, each a function with its arguments, the latest first. -/
def World.callsIn (log : String) (w : World) : List Value :=
  match Entries.find? log w.bindings with
  | some (.value (.array calls)) => calls
  | _ => []

/-- A call noted in a variable. -/
def World.noteCall (log : String) (f : Function) (args : List Value) (w : World) : World :=
  let call := .array (.function f :: args)
  { w with bindings := Entries.insert log (.value (.array (call :: w.callsIn log))) w.bindings }

/-- The host that notes every call in a variable, and then makes it. -/
@[reducible] def Host.noting [Host] (log : String) : Host where
  fuel := Host.fuel
  call f args := do
    Eval.modify (World.noteCall log f args)
    Host.call f args
  run := Host.run
  foreign := Host.foreign

/-- The calls noted up to a reply. -/
def Reply.callsIn (log : String) : Reply Value → List Value
  | .done _ after | .failed _ after => after.callsIn log
  | .stuck _ => []

section Reports

variable [Host]

theorem Reply.Alike.unreported {reply reply' : Reply Value} (h : reply.Alike items s reply') :
    reply.unreported.Alike items s reply'.unreported := by
  cases h with
  | done h => exact .done h
  | failed e after => exact .failed e _
  | stuck reason => exact .stuck reason

theorem Reply.Alike.callsIn_eq {reply reply' : Reply Value} (h : reply.Alike items s reply')
    (log : String) : reply.callsIn log = reply'.callsIn log := by
  cases h <;> rfl

omit [Host] in
theorem Reply.callsIn_unreported (reply : Reply Value) (log : String) :
    reply.unreported.callsIn log = reply.callsIn log := by
  cases reply <;> rfl

omit [Host] in
theorem reportUnsupported_unreported (b : Builtin) (v v' fallback : Value) (scope : Scope)
    (w : World) :
    (reportUnsupported b v fallback scope w).unreported =
      (reportUnsupported b v' fallback scope w).unreported := by
  unfold reportUnsupported
  rw [Eval.bind_apply, Eval.bind_apply, Eval.report_apply, Eval.report_apply]
  cases scope.recording <;> rfl

/-- What cannot be merged into a map is reported with its type, so the report alone tells
representations apart. -/
theorem Value.Represents.merge_map_unreported (h : s.Represents items)
    (entries : List (String × Value)) (after : List Value) (scope : Scope) (w : World) :
    (Builtin.merge.apply (.map entries :: .array items :: after) scope w).unreported =
      (Builtin.merge.apply (.map entries :: s :: after) scope w).unreported := by
  have hmerge {v : Value} (hv : v.Represents items) :
      Builtin.merge.apply (.map entries :: v :: after) = (do
        Builtin.merge.checkCount (.map entries :: .array items :: after)
        reportUnsupported .merge v (.map entries)) := by
    cases hv <;> rfl
  rw [hmerge h, hmerge (.array items), Eval.bind_apply, Eval.bind_apply]
  cases Builtin.merge.checkCount (.map entries :: .array items :: after) scope w with
  | done _ after => exact reportUnsupported_unreported _ _ _ _ _ _
  | failed | stuck => rfl

theorem Value.Represents.apply_unreported_alike (h : s.Represents items) {b : Builtin}
    {before : List Value} (hplace : before.length ∈ b.sequencePlaces) (after : List Value)
    (scope : Scope) (w : World) :
    (b.apply (before ++ .array items :: after) scope w).unreported.Alike items s
      (b.apply (before ++ s :: after) scope w).unreported := by
  by_cases hmap : b = .merge ∧ ∃ entries, before = [.map entries]
  · obtain ⟨rfl, entries, rfl⟩ := hmap
    rw [List.singleton_append, List.singleton_append, h.merge_map_unreported]
    exact .refl _
  · have hmerge (hb : b = .merge) (entries : List (String × Value)) :
        before ≠ [.map entries] := fun hbefore => hmap ⟨hb, entries, hbefore⟩
    exact (h.apply_alike hplace hmerge after scope w).unreported

end Reports

/-- The representation of a sequence makes no difference to the operations that take it apart:
in every scope and world, whatever the other arguments are and however callbacks behave, an
operation fails in the same way, or gives answers that are alike, and leaves the same world.
Callbacks are called with the same arguments in the same order. Only a merge into a map, which
takes no sequence in, reports its type. -/
theorem representation_independent [Host] (h : s.Represents items) {b : Builtin}
    {before after : List Value} (hplace : before.length ∈ b.sequencePlaces) (scope : Scope)
    (w : World) :
    (b ≠ .merge → (b.apply (before ++ .array items :: after) scope w).Alike items s
      (b.apply (before ++ s :: after) scope w)) ∧
    (b.apply (before ++ .array items :: after) scope w).unreported.Alike items s
      (b.apply (before ++ s :: after) scope w).unreported ∧
    ∀ log : String,
      (@Builtin.apply (Host.noting log) b (before ++ .array items :: after) scope w).callsIn log =
        (@Builtin.apply (Host.noting log) b (before ++ s :: after) scope w).callsIn log := by
  refine ⟨fun hb => ?_, h.apply_unreported_alike hplace after scope w, fun log => ?_⟩
  · exact h.apply_alike hplace (fun hmerge => absurd hmerge hb) after scope w
  · let := Host.noting log
    have hcalls := (h.apply_unreported_alike hplace after scope w).callsIn_eq log
    rwa [Reply.callsIn_unreported, Reply.callsIn_unreported] at hcalls

/-- An iterable that tells of two elements and has one, mapped by a function that answers the
element. -/
theorem representation_independent_iterable :
    let short := Value.iterable 0 "short" 2 [.integer 1] Option.none []
    let element : Function := ⟨1, "element", .script (.argument (.integer 0))⟩
    let mapped (log : String) (v : Value) : Reply Value :=
      @Builtin.apply (@Host.noting (Script.hostWithin 2) log) .map [v, .function element] {} {}
    (mapped "calls" (.array [.integer 1, .undefined])).callsIn "calls" =
        (mapped "calls" short).callsIn "calls" ∧
      (mapped "calls" short).callsIn "calls" =
        [.array [.function element, .undefined, .integer 1],
          .array [.function element, .integer 1, .integer 0]] :=
  let := Script.hostWithin 2
  have hshort : (Value.iterable 0 "short" 2 [.integer 1] Option.none []).Represents
      [.integer 1, .undefined] := .iterable fun _ _ => rfl
  have hplace : ([] : List Value).length ∈ Builtin.map.sequencePlaces := by decide
  ⟨(representation_independent hshort hplace {} {}).2.2 "calls", rfl⟩

end DynamicObjects
