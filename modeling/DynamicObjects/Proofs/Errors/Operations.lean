import DynamicObjects.Builtin.Apply
import DynamicObjects.Proofs.Collections.Membership
import DynamicObjects.Proofs.Errors.Circumstances

/-!
# What becomes of operations

A value whose length and elements can be had is walked through without a failure, as long as
the visits do not fail, so all that is built on walks answers: taking values apart, searching,
rebuilding, folding.

* `Circumstances.Offers`, `Circumstances.Opens`: values whose elements can be had.
* `Circumstances.Offers.walkRun`: walks answer.
-/

namespace DynamicObjects

open Sorting

variable {α β σ : Type} {c : Circumstances} {p q : Value → Prop} {v : Value}

/-- The elements of a value can be had, if it has any, and they are of some sort. -/
structure Circumstances.Offers [Host] (c : Circumstances) (v : Value) (p : Value → Prop) :
    Prop where
  array : ∀ items, v = .array items → ∀ u ∈ items, p u
  typed : ∀ items, v = .typed items → ∀ u ∈ items.values, p u
  map : ∀ entries, v = .map entries → ∀ entry ∈ entries, p entry.2
  length : ∀ w ∈ c.worlds, ∀ view, w.view? v = some view → view.length.Succeeds c fun _ => True
  element : ∀ w ∈ c.worlds, ∀ view, w.view? v = some view → ∀ i, (view.element i).Succeeds c p

/-- A value can be taken apart, and so can its elements, however deep they are. -/
def Circumstances.Opens [Host] (c : Circumstances) (v : Value) : Prop :=
  ∃ values : Set Value, v ∈ values ∧ ∀ u ∈ values, c.Offers u (· ∈ values)

/-- A value is data in all worlds. -/
def Circumstances.Data (c : Circumstances) (v : Value) : Prop := ∀ w ∈ c.worlds, w.IsData v

/-- The calls of a function succeed. -/
def Circumstances.Calls [Host] (c : Circumstances) (f : Function) (p : Value → Prop) : Prop :=
  ∀ given, (Host.call f given).Succeeds c p

namespace Circumstances

theorem Offers.imp [Host] (h : c.Offers v p) (hpq : ∀ u, p u → q u) : c.Offers v q where
  array items hv u hu := hpq u (h.array items hv u hu)
  typed items hv u hu := hpq u (h.typed items hv u hu)
  map entries hv entry hentry := hpq _ (h.map entries hv entry hentry)
  length := h.length
  element w hw view hview i := (h.element w hw view hview i).imp hpq

theorem Opens.offers [Host] (h : c.Opens v) : c.Offers v c.Opens := by
  obtain ⟨values, hv, hvalues⟩ := h
  exact (hvalues v hv).imp fun u hu => ⟨values, hu, hvalues⟩

/-- What offers what can be taken apart can be taken apart. -/
theorem opens_of_offers [Host] (h : c.Offers v c.Opens) : c.Opens v := by
  refine ⟨insert v {u | c.Opens u}, .inl rfl, fun u hu => ?_⟩
  rcases hu with rfl | hu
  · exact h.imp fun _ => .inr
  · exact Opens.offers (v := u) hu |>.imp fun _ => .inr

theorem view?_eq_none [Host] {w : World} (h : (w.kind v).isContainer = false) :
    w.view? v = none := by
  cases v with
  | iterable | foreign => cases h
  | inst i =>
    simp only [World.kind] at h
    split at h
    · cases h
    · rename_i hgeneric
      exact if_neg hgeneric
  | _ => rfl

/-- What is no container can be taken apart, for it has no elements. -/
theorem opens_of_no_container [Host] (h : ∀ w : World, (w.kind v).isContainer = false) :
    c.Opens v := by
  refine opens_of_offers ⟨?_, ?_, ?_, fun w _ view hview => ?_, fun w _ view hview => ?_⟩
  · rintro items rfl
    cases h {}
  · rintro items rfl
    cases h {}
  · rintro entries rfl
    cases h {}
  · rw [view?_eq_none (h w)] at hview
    cases hview
  · rw [view?_eq_none (h w)] at hview
    cases hview

/-- A foreign table without faults can be taken apart when its items can. -/
theorem opens_iterable [Host] {id : Nat} {label : String} {length : Nat} {items : List Value}
    (hitems : ∀ u ∈ items, c.Opens u) : c.Opens (.iterable id label length items none []) := by
  refine opens_of_offers ⟨?_, ?_, ?_, fun _ _ view hview => ?_, fun _ _ view hview i => ?_⟩
  · intro _ hv
    cases hv
  · intro _ hv
    cases hv
  · intro _ hv
    cases hv
  · obtain rfl := Option.some.inj hview
    exact Eval.succeeds_pure trivial
  · obtain rfl := Option.some.inj hview
    refine Eval.succeeds_pure ?_
    rw [Value.elements_iterable, List.getElem?_toArray]
    cases hitem : items[i]? with
    | none => exact opens_of_no_container fun _ => rfl
    | some u => exact hitems u (List.mem_of_getElem? hitem)

theorem succeeds_kind (v : Value) : v.kind.Succeeds c fun kind => ∃ w ∈ c.worlds, w.kind v = kind :=
  Eval.succeeds_reads _

/-! ## Callbacks -/

section Callbacks

variable [Host] {f : Function} (hf : c.Calls f p)
include hf

theorem Calls.imp (hpq : ∀ u, p u → q u) : c.Calls f q := fun given => (hf given).imp hpq

theorem Calls.callTest (u : Value) (key : Key) :
    (callTest f u key).Succeeds c fun _ => True :=
  (hf _).map fun _ _ => trivial

end Callbacks

theorem succeeds_passes [Host] {predicate : Option Function} (h : ∀ f ∈ predicate, c.Calls f p)
    (u : Value) (key : Key) : (passes predicate u key).Succeeds c fun _ => True := by
  cases predicate with
  | none => exact Eval.succeeds_pure trivial
  | some f => exact (h f rfl).callTest u key

/-! ## Walks -/

section Walks

variable {walk : Walk σ} {r : σ → Prop}

theorem succeeds_step {s : σ} {key : Key}
    (h : (walk.visit s v key).Succeeds c fun next => r next.2) :
    (walk.step s v key).Succeeds c fun next => r next.2 :=
  .holding _ (.holding _ h.reporting)

theorem succeeds_visitEach {entries : List (Key × Value)}
    (h : ∀ s, r s → ∀ entry ∈ entries,
      (walk.visit s entry.2 entry.1).Succeeds c fun next => r next.2) {s : σ} (hs : r s) :
    (walk.visitEach entries s).Succeeds c fun ending => r ending.2 := by
  induction entries generalizing s with
  | nil => exact Eval.succeeds_pure hs
  | cons entry rest ih =>
    obtain ⟨key, v⟩ := entry
    refine (succeeds_step (h s hs _ List.mem_cons_self)).bind fun (flow, s') hs' => ?_
    cases flow with
    | proceed => exact ih (fun s hs entry hentry => h s hs entry (.tail _ hentry)) hs'
    | stop => exact Eval.succeeds_pure hs'
    | answer payload => exact Eval.succeeds_pure hs'

theorem succeeds_visitIndexed {element : Nat → Eval Value}
    (helement : ∀ i, (element i).Succeeds c p)
    (h : ∀ s, r s → ∀ u, p u → ∀ key, (walk.visit s u key).Succeeds c fun next => r next.2)
    (count i : Nat) {s : σ} (hs : r s) :
    (walk.visitIndexed element count i s).Succeeds c fun ending => r ending.2 := by
  induction count generalizing i s with
  | zero => exact Eval.succeeds_pure hs
  | succ count ih =>
    refine (Eval.Succeeds.holding _ (helement i).reporting).bind fun u hu => ?_
    refine (succeeds_step (h s hs u hu _)).bind fun (flow, s') hs' => ?_
    cases flow with
    | proceed => exact ih _ hs'
    | stop => exact Eval.succeeds_pure hs'
    | answer payload => exact Eval.succeeds_pure hs'

end Walks

theorem mem_of_mem_indexedFrom {items : List Value} {i : Nat} {entry : Key × Value}
    (h : entry ∈ indexedFrom i items) : entry.2 ∈ items := by
  rw [← map_snd_indexedFrom i items]
  exact List.mem_map_of_mem h

theorem mem_of_mem_namedEntries {entries : List (String × Value)} {entry : Key × Value}
    (h : entry ∈ namedEntries entries) : ∃ named ∈ entries, named.2 = entry.2 := by
  obtain ⟨named, hnamed, rfl⟩ := List.mem_map.mp h
  exact ⟨named, hnamed, rfl⟩

namespace Offers

variable [Host] (hv : c.Offers v p)
include hv

theorem view?_bind {terms : Terms β} {f : Option (View Value) → Eval β}
    (hsome : ∀ view : View Value, view.length.Succeeds c (fun _ => True) →
      (∀ i, (view.element i).Succeeds c p) → (f (some view)).KeepsTo c terms)
    (hnone : (f none).KeepsTo c terms) : (v.view? >>= f).KeepsTo c terms := by
  refine (Eval.succeeds_reads _).bind fun view? ⟨w, hw, hview⟩ => ?_
  cases view? with
  | none => exact hnone
  | some view => exact hsome view (hv.length w hw view hview) (hv.element w hw view hview)

/-- A walk answers when its visits do, and it carries on what they keep. -/
theorem walkRun {walk : Walk σ} {r : σ → Prop}
    (h : ∀ s, r s → ∀ u, p u → ∀ key, (walk.visit s u key).Succeeds c fun next => r next.2)
    {s : σ} (hs : r s) : (walk.run s v).Succeeds c fun ending => r ending.2 := by
  unfold Walk.run
  split
  · rename_i items
    refine succeeds_visitEach (fun s hs entry hentry => h s hs _ ?_ _) hs
    exact hv.array items rfl _ (mem_of_mem_indexedFrom hentry)
  · rename_i items
    refine succeeds_visitEach (fun s hs entry hentry => h s hs _ ?_ _) hs
    exact hv.typed items rfl _ (mem_of_mem_indexedFrom hentry)
  · rename_i entries
    refine succeeds_visitEach (fun s hs entry hentry => h s hs _ ?_ _) hs
    obtain ⟨named, hnamed, heq⟩ := mem_of_mem_namedEntries hentry
    exact heq ▸ hv.map entries rfl named hnamed
  · refine hv.view?_bind (fun view hlength helement => ?_) ?_
    · refine (Eval.Succeeds.holding _ hlength.reporting).bind fun count _ => ?_
      exact succeeds_visitIndexed helement h count 0 hs
    · dsimp only
      split
      · exact (Eval.succeeds_note _).bind fun _ _ => Eval.succeeds_pure hs
      · exact Eval.succeeds_pure hs

/-- A walk of which only the ending matters. -/
theorem walkAnswer (walk : Walk σ) {f : Outcome × σ → α}
    (h : ∀ s, ∀ u, p u → ∀ key, (walk.visit s u key).Succeeds c fun _ => True) (s : σ) :
    (do return f (← walk.run s v) : Eval α).Succeeds c fun _ => True :=
  (hv.walkRun (r := fun _ => True) (fun s _ u hu key => h s u hu key) trivial).map
    fun _ _ => trivial

theorem visitAll {visit : Value → Key → Eval Flow}
    (h : ∀ u, p u → ∀ key, (visit u key).Succeeds c fun _ => True) :
    (visitAll v visit).Succeeds c fun _ => True :=
  hv.walkAnswer (Walk.stateless visit) (fun _ u hu key => (h u hu key).map fun _ _ => trivial) ()

theorem collect :
    (collect v).Succeeds c fun entries => ∀ entry ∈ entries, p entry.2 := by
  have hwalk : (Walk.gather.run [] v).Succeeds c fun ending => ∀ entry ∈ ending.2, p entry.2 :=
    hv.walkRun (r := fun found : List (Key × Value) => ∀ entry ∈ found, p entry.2)
      (fun found hfound u hu key => Eval.succeeds_pure fun entry hentry => by
        rcases List.mem_cons.mp hentry with rfl | hentry
        · exact hu
        · exact hfound entry hentry)
      (List.forall_mem_nil _)
  exact hwalk.map fun ending h entry hentry => h entry (List.mem_reverse.mp hentry)

/-! ## Taking values apart -/

theorem valueLength : (v.length).Succeeds c fun _ => True := by
  unfold Value.length
  split
  · exact Eval.succeeds_pure trivial
  · exact Eval.succeeds_pure trivial
  · exact Eval.succeeds_pure trivial
  · exact Eval.succeeds_pure trivial
  · exact hv.view?_bind (fun view hlength _ => hlength) (Eval.succeeds_pure trivial)
  · exact hv.view?_bind (fun view hlength _ => hlength) (Eval.succeeds_pure trivial)
  · exact hv.view?_bind (fun view hlength _ => hlength)
      ((Eval.succeeds_reads _).imp fun _ _ => trivial)
  · exact Eval.succeeds_pure trivial

theorem entriesOf? : (entriesOf? v).Succeeds c fun _ => True := by
  refine (succeeds_kind v).bind fun kind _ => ?_
  split
  · exact hv.collect.map fun _ _ => trivial
  · exact hv.collect.map fun _ _ => trivial
  · exact hv.collect.map fun _ _ => trivial
  · exact (Eval.succeeds_reads _).map fun _ _ => trivial
  · exact Eval.succeeds_pure trivial

theorem elementsOf? :
    (elementsOf? v).Succeeds c fun items? => ∀ u ∈ items?.getD [], p u := by
  refine (succeeds_kind v).bind fun kind _ => ?_
  split
  · refine hv.collect.map fun entries hentries u hu => ?_
    obtain ⟨entry, hentry, rfl⟩ := List.mem_map.mp hu
    exact hentries entry hentry
  · exact Eval.succeeds_pure (List.forall_mem_nil _)

theorem listing (shape : Key → Value → Value) : (listing shape v).Succeeds c fun _ => True := by
  unfold DynamicObjects.listing
  split
  · exact Eval.succeeds_pure trivial
  · refine hv.entriesOf?.bind fun entries? _ => ?_
    cases entries? with
    | none => exact Eval.succeeds_pure trivial
    | some entries => exact Eval.succeeds_pure trivial

theorem keysOf : (keysOf v).Succeeds c fun _ => True := by
  unfold DynamicObjects.keysOf
  split
  · exact Eval.succeeds_pure trivial
  · exact hv.listing _

theorem elementAt (i : Nat) : (elementAt v i).Succeeds c fun _ => True := by
  unfold DynamicObjects.elementAt
  split
  · exact Eval.succeeds_pure trivial
  · exact Eval.succeeds_pure trivial
  · exact Eval.succeeds_pure trivial
  · exact Eval.succeeds_pure trivial
  · refine hv.view?_bind (fun view hlength helement => hlength.bind fun n _ => ?_) ?_
    · split
      · exact (helement i).imp fun _ _ => trivial
      · exact Eval.succeeds_pure trivial
    · split
      · contradiction
      · exact (Eval.succeeds_reads _).imp fun _ _ => trivial
      · exact Eval.succeeds_pure trivial

theorem resolveOffset (i : Int64) : (resolveOffset v i).Succeeds c fun _ => True := by
  unfold DynamicObjects.resolveOffset
  split
  · exact Eval.succeeds_pure trivial
  · exact hv.valueLength.map fun _ _ => trivial

/-! ## Searching -/

theorem findPosition {test : Value → Key → Eval Bool}
    (h : ∀ u, p u → ∀ key, (test u key).Succeeds c fun _ => True) :
    (findPosition test v).Succeeds c fun _ => True := by
  refine hv.walkAnswer (Walk.position test) (fun _ u hu key => ?_) none
  refine (h u hu key).bind fun hit _ => ?_
  split <;> exact Eval.succeeds_pure trivial

theorem firstOf {predicate : Option Function}
    (h : ∀ u, p u → ∀ key, (passes predicate u key).Succeeds c fun _ => True) :
    (firstOf v predicate).Succeeds c fun _ => True := by
  have hvisit : ∀ u, p u → ∀ key, (do
      if ← passes predicate u key then return .answer u else return .proceed :
        Eval Flow).Succeeds c fun _ => True := by
    refine fun u hu key => (h u hu key).bind fun hit _ => ?_
    split <;> exact Eval.succeeds_pure trivial
  exact (hv.visitAll hvisit).map fun _ _ => trivial

theorem lastOf {predicate : Option Function}
    (h : ∀ u, p u → ∀ key, (passes predicate u key).Succeeds c fun _ => True) :
    (lastOf v predicate).Succeeds c fun _ => True := by
  refine hv.walkAnswer (Walk.last (passes predicate)) (fun _ u hu key => ?_) _
  refine (h u hu key).bind fun hit _ => ?_
  split <;> exact Eval.succeeds_pure trivial

theorem isInContainer_some {f : Function} (hf : c.Calls f fun _ => True) (needle : Value) :
    (isInContainer needle v (some f)).Succeeds c fun _ => True := by
  refine (succeeds_kind v).bind fun kind _ => ?_
  split
  · refine Eval.Succeeds.map (p := fun _ => True) (hv.visitAll fun u _ _ => ?_) fun _ _ => trivial
    exact (hf [u, needle]).bind fun _ _ => Eval.succeeds_pure trivial
  · exact Eval.succeeds_pure trivial

theorem isInContainer_none {needle : Value}
    (h : ∀ u, p u → (u.equals needle).Succeeds c fun _ => True) :
    (isInContainer needle v none).Succeeds c fun _ => True := by
  refine (succeeds_kind v).bind fun kind _ => ?_
  split
  · refine Eval.Succeeds.map (p := fun _ => True) (hv.visitAll fun u hu _ => ?_) fun _ _ => trivial
    exact (h u hu).bind fun hit _ => Eval.succeeds_pure trivial
  · exact Eval.succeeds_pure trivial

/-! ## Rebuilding and folding -/

theorem rebuild {terms : Terms Value} (hterms : ∀ a, terms.answers a) {operation : String}
    (hrefuses : terms.refuses =
      some (⟨.warn, operation ++ ": unsupported type " ++ v.typeName⟩, v))
    {keep : Value → Key → Eval (Option Value)}
    (h : ∀ u, p u → ∀ key, (keep u key).Succeeds c fun _ => True) :
    (rebuild operation keep v).KeepsTo c terms := by
  have hlist : ∀ out u, p u → ∀ key,
      ((Walk.toList keep).visit out u key).Succeeds c fun _ => True := by
    refine fun out u hu key => (h u hu key).bind fun kept? _ => ?_
    cases kept? <;> exact Eval.succeeds_pure trivial
  have hentries : ∀ out u, p u → ∀ key,
      ((Walk.toEntries keep).visit out u key).Succeeds c fun _ => True := by
    refine fun out u hu key => (h u hu key).bind fun kept? _ => ?_
    cases kept? <;> exact Eval.succeeds_pure trivial
  refine (succeeds_kind v).bind fun kind _ => ?_
  split
  · exact (hv.walkAnswer (Walk.toList keep) hlist []).keepsTo fun a _ => hterms a
  · exact (hv.walkAnswer (Walk.toList keep) hlist []).keepsTo fun a _ => hterms a
  · exact (hv.walkAnswer (Walk.toEntries keep) hentries .empty).keepsTo fun a _ => hterms a
  · exact Eval.keepsTo_pure (hterms _)
  · exact Eval.keepsTo_pure (hterms _)
  · exact Eval.keepsTo_report hrefuses

theorem reduceWith {step : Value → Value → Key → Nat → Eval (Value × Value)}
    (h : ∀ acc u, p u → ∀ key ordinal, (step acc u key ordinal).Succeeds c fun _ => True)
    (initial : Option Value) : (reduceWith step initial v).Succeeds c fun _ => True := by
  refine hv.walkAnswer (Walk.fold step) (fun (acc, ordinal) u hu key => ?_) _
  dsimp only [Walk.fold]
  split
  · exact Eval.succeeds_pure trivial
  · exact (h acc u hu key ordinal).map fun _ _ => trivial

theorem indexBy {extractor : Function} {replacer : Option Function}
    (hextractor : c.Calls extractor fun _ => True)
    (hreplacer : ∀ f, replacer = some f → c.Calls f fun _ => True) :
    (indexBy v extractor replacer).Succeeds c fun _ => True := by
  refine hv.walkAnswer (Walk.indexBy extractor replacer) (fun out u _ key => ?_) _
  refine (hextractor _).bind fun answer _ => ?_
  dsimp only
  split
  · exact (hreplacer _ rfl _).bind fun _ _ => Eval.succeeds_pure trivial
  · exact Eval.succeeds_pure trivial

end Offers

end Circumstances

end DynamicObjects
