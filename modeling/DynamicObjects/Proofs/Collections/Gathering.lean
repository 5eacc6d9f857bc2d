import DynamicObjects.Proofs.Collections.Visits

/-!
# Gathering elements

A walk over a foreign table whose length and elements can be had visits them as it would visit
the elements of an array, missing ones beyond its items included. So what is gathered from a
container whose elements are all there, and from such an iterable, are its entries in order.

* `Walk.run_iterable`: walks over foreign tables that do not fail.
* `collect_of_run`: what is gathered.
-/

namespace DynamicObjects

variable {σ : Type}

/-! ## Entries -/

theorem map_snd_indexedFrom (i : Nat) (items : List Value) :
    (indexedFrom i items).map Prod.snd = items := by
  induction items generalizing i with
  | nil => rfl
  | cons v rest ih => rw [indexedFrom, List.map_cons, ih]

theorem map_snd_namedEntries (entries : List (String × Value)) :
    (namedEntries entries).map Prod.snd = entries.map Prod.snd := by
  rw [namedEntries, List.map_map]
  rfl

theorem indexedFrom_map_range' (f : Nat → Value) (i count : Nat) :
    indexedFrom i ((List.range' i count).map f) =
      (List.range' i count).map fun j => (.index j, f j) := by
  induction count generalizing i with
  | zero => rfl
  | succ count ih => rw [List.range'_succ, List.map_cons, indexedFrom, ih, List.map_cons]

/-! ## Iterables that do not fail -/

section Iterables

variable {id : Nat} {label : String} {length : Nat} {items : List Value}
  {faults : List (Nat × Value)} (h : ∀ i < length, Value.faultAt? faults i = none)
include h

/-- The turns of a foreign table that does not fail are those of its elements. -/
theorem Turn.ofView_ofIterable :
    Turn.ofView (View.ofIterable .undefined length items.toArray none faults).element 0 length =
      Turn.ofEntries (indexedFrom 0 ((List.range length).map fun i =>
        items[i]?.getD .undefined)) := by
  rw [List.range_eq_range', indexedFrom_map_range', Turn.ofView, Turn.ofEntries, List.map_map]
  refine List.map_congr_left fun i hi => ?_
  rw [← List.range_eq_range', List.mem_range] at hi
  simp only [View.ofIterable, h i hi, List.getElem?_toArray, Function.comp_apply]

theorem Walk.run_iterable [Host] (walk : Walk σ) (start : σ) :
    walk.run start (.iterable id label length items none faults) =
      walk.visitEach (indexedFrom 0 ((List.range length).map fun i =>
        items[i]?.getD .undefined)) start := by
  have hturns : Turn.ofView (View.ofIterable .undefined length items.toArray none
      faults).element 0 length = Turn.ofEntries _ := Turn.ofView_ofIterable h
  rw [Walk.visitEach_eq, ← hturns, ← Walk.visitIndexed_eq]
  funext scope w
  rw [Walk.run_of_view walk scope start (w := w) rfl, Value.elements_iterable,
    Walk.visitIndexed_eq]
  rfl

end Iterables

/-! ## What is gathered -/

theorem Walk.visitEach_gather (entries found : List (Key × Value)) :
    Walk.gather.visitEach entries found = pure (.exhausted, entries.reverse ++ found) := by
  induction entries generalizing found with
  | nil => rfl
  | cons entry rest ih =>
    obtain ⟨key, v⟩ := entry
    rw [List.reverse_cons, List.append_assoc]
    exact ih ((key, v) :: found)

/-- A container whose elements are visited as they are is gathered as it is. -/
theorem collect_of_run [Host] {container : Value} {entries : List (Key × Value)}
    (h : Walk.gather.run [] container = Walk.gather.visitEach entries []) :
    collect container = pure entries := by
  rw [collect, h, Walk.visitEach_gather, List.append_nil, pure_bind]
  exact congrArg pure (List.reverse_reverse entries)

theorem collect_map [Host] (entries : List (String × Value)) :
    collect (.map entries) = pure (namedEntries entries) :=
  collect_of_run rfl

end DynamicObjects
