import DynamicObjects.Collections.Sort
import DynamicObjects.Proofs.Closure.Collections
import DynamicObjects.Proofs.Sorting.Elements

/-!
# Closed properties of comparing and sorting

The order of values looks into generic iterables, so comparing may run scripts. A closed
property of the views that are supplied goes through the order of values, and through sorting
by whatever has it.

* `Eval.Supplied.compareBy`: the order, by recursion on the first value.
* `Eval.Supplied.compare`, `Eval.Supplied.sortedCopy`: the order and sorting.
-/

namespace DynamicObjects

open Sorting

variable {P : ∀ {α : Type} [Mentions α], Set Node → Eval α → Prop} {α β : Type} [Mentions α]
  [Mentions β] {s : Set Node}

/-- A comparison has a property for known values. -/
def Compares (P : ∀ {α : Type} [Mentions α], Set Node → Eval α → Prop)
    (compare : α → α → Eval Ordering) : Prop :=
  ∀ {s a b}, Known s a → Known s b → P s (compare a b)

/-! ## Places -/

instance : Mentions Place := ⟨fun x => Mentions.mentions x.value⟩

@[simp] theorem known_place {x : Place} : Known s x ↔ Known s x.value := Iff.rfl

@[simp] theorem known_place_missing : Known s Place.missing := known_undefined

/-- A place whose comparisons have a property. -/
def Place.Has (P : ∀ {α : Type} [Mentions α], Set Node → Eval α → Prop) (x : Place) : Prop :=
  ∀ {s y}, Known s x → Known s y → P s (x.compareTo y)

/-- A view of places whose length, elements and comparisons have a property. -/
structure View.HasPlaces (P : ∀ {α : Type} [Mentions α], Set Node → Eval α → Prop)
    (s : Set Node) (view : View Place) : Prop extends view.Has P s where
  places : ∀ i x, (view.element i).Answers x → x.Has P

namespace Eval

namespace Closed

variable (hP : Closed @P)
include hP

theorem byRank (a b : Value) {further : Eval Ordering} (hfurther : P s further) :
    P s (byRank a b further) := by
  have hreads : P s (Eval.reads (fun w => (w.rank a, w.rank b)) >>= fun ranks =>
      if ranks.1 ≠ ranks.2 then return compare ranks.1 ranks.2 else further) := by
    refine hP.bind (hP.reads _ (fun _ _ => rfl) (by simp)) fun s' ranks hs _ => ?_
    split
    · exact hP.pure (known_nothing _)
    · exact hP.mono hfurther hs
  exact hreads

theorem place_ofAtom (v : Value) : (Place.ofAtom v).Has @P :=
  fun _ _ => hP.byRank _ _ (hP.pure (known_nothing _))

theorem places_ofArray {items : Array Place} (hknown : Known s items)
    (hitems : ∀ x ∈ items, x.Has @P) : (View.ofArray .missing items).HasPlaces @P s where
  toHas := hP.ofArray known_place_missing hknown
  places := by
    rintro i x ⟨scope, w, after, hdone⟩
    cases hdone
    cases hitem : items[i]? with
    | none => exact hP.place_ofAtom _
    | some x => exact hitems x (Array.mem_of_getElem? hitem)

theorem places_ofIterable {items : Array Place} (hknown : Known s items)
    (hitems : ∀ x ∈ items, x.Has @P) (length : Nat) (lengthFault : Option Value)
    (faults : List (Nat × Value)) :
    (View.ofIterable .missing length items lengthFault faults).HasPlaces @P s where
  toHas := hP.ofIterable known_place_missing hknown _ _ _
  places := by
    rintro i x ⟨scope, w, after, hdone⟩
    dsimp only [View.ofIterable] at hdone
    cases hfault : Value.faultAt? faults i with
    | some raised =>
      rw [hfault] at hdone
      cases hdone
    | none =>
      rw [hfault] at hdone
      exact (hP.places_ofArray hknown hitems).places i x ⟨scope, w, after, hdone⟩

theorem elementOr {view : View α} (hview : view.Has @P s) {missing : α}
    (hmissing : Known s missing) (i : Nat) : P s (view.elementOr missing i) := by
  refine hP.bind (hP.attempt (hview.element i)) fun s₁ result hs₁ hresult => ?_
  cases result with
  | ok v => exact hP.pure (known_ok.mp hresult)
  | error e => exact hP.map (hP.report (by decide) _) fun _ _ hs₂ _ => hmissing.mono (hs₁.trans hs₂)

theorem lengthOrZero {view : View α} (hview : view.Has @P s) : P s view.lengthOrZero := by
  refine hP.bind (hP.attempt hview.length) fun s' result _ _ => ?_
  cases result <;> exact hP.pure (known_nothing _)

end Closed

theorem answers_map {α β : Type} {x : Eval α} {f : α → β} {b : β}
    (h : (do return f (← x) : Eval β).Answers b) : ∃ a, b = f a := by
  obtain ⟨scope, w, after, hdone⟩ := h
  rw [bind_apply] at hdone
  cases hx : x scope w with
  | done a middle =>
    rw [hx] at hdone
    cases hdone
    exact ⟨a, rfl⟩
  | failed e middle | stuck reason =>
    rw [hx] at hdone
    cases hdone

theorem answers_elementOr {α : Type} {view : View α} {missing a : α} {i : Nat}
    (h : (view.elementOr missing i).Answers a) : a = missing ∨ (view.element i).Answers a := by
  obtain ⟨scope, w, after, hdone⟩ := h
  rw [View.elementOr, bind_apply, attempt] at hdone
  cases helement : view.element i scope w with
  | done v middle =>
    rw [helement] at hdone
    cases hdone
    exact .inr ⟨scope, w, _, helement⟩
  | failed e middle =>
    rw [helement] at hdone
    cases hdone
    exact .inl rfl
  | stuck reason =>
    rw [helement] at hdone
    cases hdone

theorem Closed.places_mono (hP : Closed @P) {s' : Set Node} {view : View Place}
    (h : view.HasPlaces @P s) (hs : s ⊆ s') : view.HasPlaces @P s' :=
  ⟨hP.view_mono h.toHas hs, h.places⟩

theorem Closed.comparePlaces (hP : Closed @P) {left : View Place} {right : View Value}
    (hleft : left.HasPlaces @P s) (hright : right.Has @P s)
    (leftLength rightLength count i : Nat) :
    P s (comparePlaces left right leftLength rightLength count i) := by
  induction count generalizing s i with
  | zero => exact hP.pure (known_nothing _)
  | succ count ih =>
    unfold DynamicObjects.comparePlaces
    split
    · split
      · refine hP.bind_answers (hP.elementOr hleft.toHas known_place_missing _)
          fun s₁ x hs₁ hknown hanswer => ?_
        have hx : x.Has @P := by
          rcases answers_elementOr hanswer with rfl | hanswer
          · exact hP.place_ofAtom _
          · exact hleft.places i x hanswer
        have hright₁ := hP.view_mono hright hs₁
        refine hP.bind (hP.holding _ (hP.elementOr hright₁ known_undefined _))
          fun s₂ y hs₂ hy => ?_
        refine hP.bind (hP.holding _ (hx (hknown.mono hs₂) hy)) fun s₃ decided hs₃ _ => ?_
        have hs := hs₁.trans (hs₂.trans hs₃)
        cases decided with
        | eq => exact ih (hP.places_mono hleft hs) (hP.view_mono hright hs) (i + 1)
        | lt | gt => exact hP.pure (known_nothing _)
      · exact hP.pure (known_nothing _)
    · exact hP.pure (known_nothing _)

theorem Closed.compareUnder (hP : Closed @P) {a : Index Place} {b : Index Value}
    (ha : ∀ (key : String) (x : Place), a[key]? = some x → x.Has @P ∧ Known s x)
    (hb : ∀ (key : String) (y : Value), b[key]? = some y → Known s y) (keys : List String) :
    P s (compareUnder a b keys) := by
  induction keys generalizing s with
  | nil => exact hP.pure (known_nothing _)
  | cons key rest ih =>
    unfold DynamicObjects.compareUnder
    dsimp only
    have hrest {s' : Set Node} (hs : s ⊆ s') : P s' (DynamicObjects.compareUnder a b rest) :=
      ih (fun key x hx => (ha key x hx).imp_right fun h => h.mono hs)
        fun key y hy => (hb key y hy).mono hs
    split
    · rename_i x y hleft hright
      obtain ⟨hx, -⟩ := Option.filter_eq_some_iff.mp hleft
      obtain ⟨hy, -⟩ := Option.filter_eq_some_iff.mp hright
      obtain ⟨hhas, hknown⟩ := ha key x hx
      refine hP.bind (hhas hknown (hb key y hy)) fun s' decided hs _ => ?_
      cases decided with
      | eq => exact hrest hs
      | lt | gt => exact hP.pure (known_nothing _)
    all_goals
      refine hP.bind (hP.pure (known_nothing _)) fun s' decided hs _ => ?_
      cases decided with
      | eq => exact hrest hs
      | lt | gt => exact hP.pure (known_nothing _)

namespace Supplied

variable [Host] {functions : Set Function} {worlds : Set World}
  (hP : Supplied @P functions worlds)
include hP

theorem sequence?_has {w : World} (hw : w ∈ worlds) {v : Value} (hv : Known s v)
    {view : View Value} (h : w.sequence? v = some view) : view.Has @P s := by
  unfold World.sequence? at h
  split at h
  · cases h
    refine hP.ofArray known_undefined (known_array.mpr fun a ha => ?_)
    rw [Value.elements_array, List.mem_toArray] at ha
    exact known_list.mp (known_array_value.mp hv) a ha
  · cases h
    refine hP.ofArray known_undefined (known_array.mpr fun a ha => ?_)
    exact known_list.mp (known_values _) a (List.mem_toArray.mp ha)
  · exact hP.view?_has hw hv h

theorem compareSequence {left : View Place} (hleft : left.HasPlaces @P s) {b : Value}
    (hb : Known s b) : P s (compareSequence left b) := by
  refine hP.reads_bind (fun _ _ => rfl) fun w hw => ?_
  cases h : w.sequence? b with
  | none => exact hP.pure (known_nothing _)
  | some right =>
    have hright := hP.sequence?_has hw hb h
    refine hP.bind (hP.lengthOrZero hleft.toHas) fun s₁ _ hs₁ _ => ?_
    refine hP.bind (hP.lengthOrZero (hP.view_mono hright hs₁)) fun s₂ _ hs₂ _ => ?_
    have hs := hs₁.trans hs₂
    exact hP.comparePlaces (hP.places_mono hleft hs) (hP.view_mono hright hs) _ _ _ _

end Supplied

theorem Closed.compareMap (hP : Closed @P) {a : Entries String Place}
    (ha : ∀ key x, Entries.find? key a = some x → x.Has @P ∧ Known s x) {b : Value}
    (hb : Known s b) : P s (compareMap a b) := by
  cases b with
  | map entries =>
    refine hP.compareUnder (fun key x hx => ha key x ?_) (fun key y hy => ?_) _
    · rwa [Entries.getElem?_index] at hx
    · rw [Entries.getElem?_index] at hy
      exact known_option.mp ((known_map.mp hb).find? key) y hy
  | _ => exact hP.pure (known_nothing _)

namespace Supplied

variable [Host] {functions : Set Function} {worlds : Set World}
  (hP : Supplied @P functions worlds) {deeper : Value → Value → Eval Ordering}
  (hdeeper : Compares @P deeper)
include hP hdeeper

/-- What a view tells is compared by going deeper. -/
theorem compareView {view : View Value} (hview : view.Has @P s) {b : Value} (hb : Known s b) :
    P s (DynamicObjects.compareSequence (view.map fun v => ⟨v, deeper v⟩) b) := by
  refine hP.compareSequence ⟨⟨hview.length, fun n => ?_⟩, ?_⟩ hb
  · exact hP.map (hview.element n) fun _ _ _ hv => hv
  · intro n x hanswer
    obtain ⟨v, rfl⟩ := answers_map hanswer
    exact fun hv hy => hdeeper hv hy

theorem compareInstance {i : InstanceRef} (hi : Known s i) {b : Value} (hb : Known s b) :
    P s (compareBy deeper (.inst i) b) :=
  hP.byRank _ _ (hP.view?_bind (known_inst.mpr hi) (hP.pure (known_nothing _))
    fun _ hview => hP.compareView hdeeper hview hb)

omit hP hdeeper

/-- The places of known values are known. -/
theorem known_placesOf {items : List Value} (h : Known s items) :
    Known s (placesOf deeper items).toArray := by
  refine known_array.mpr fun x hx => ?_
  rw [List.mem_toArray, placesOf_eq_map] at hx
  obtain ⟨v, hv, rfl⟩ := List.mem_map.mp hx
  exact known_list.mp h v hv

mutual

theorem compareBy (hP : Supplied @P functions worlds) (hdeeper : Compares @P deeper)
    {s : Set Node} {b : Value} (hb : Known s b) :
    ∀ {a : Value}, Known s a → P s (compareBy deeper a b)
  | .array items, ha =>
    hP.byRank _ _ (hP.compareSequence (hP.places_ofArray (known_placesOf (known_array_value.mp ha))
      (by simpa using placesOf hP hdeeper items)) hb)
  | .typed items, _ =>
    hP.byRank _ _ (hP.compareSequence (hP.places_ofArray (by
      refine known_array.mpr fun x hx => ?_
      obtain ⟨v, hv, rfl⟩ := List.mem_map.mp (List.mem_toArray.mp hx)
      exact known_list.mp (known_values items) v hv) (by
      intro x hx
      obtain ⟨v, -, rfl⟩ := List.mem_map.mp (List.mem_toArray.mp hx)
      exact hP.place_ofAtom v)) hb)
  | .iterable _ _ _ items _ _, ha =>
    hP.byRank _ _ (hP.compareSequence
      (hP.places_ofIterable (known_placesOf (known_iterable.mp ha))
        (by simpa using placesOf hP hdeeper items) _ _ _) hb)
  | .map entries, ha =>
    hP.byRank _ _ (hP.compareMap (fun key x hx => by
      refine ⟨namedPlacesOf hP hdeeper entries key x hx, ?_⟩
      rw [find?_namedPlacesOf] at hx
      obtain ⟨v, hv, rfl⟩ := Option.map_eq_some_iff.mp hx
      exact known_option.mp ((known_map.mp ha).find? key) v hv) hb)
  | .foreign i, ha =>
    hP.byRank _ _ (hP.compareView hdeeper (hP.foreign (known_foreign.mp ha)) hb)
  | .inst i, ha => hP.compareInstance hdeeper (known_inst.mp ha) hb
  | .undefined, _ | .none, _ | .boolean _, _ | .integer _, _ | .float _, _ | .string _, _
  | .function _, _ | .cls _, _ => hP.byRank _ _ (hP.pure (known_nothing _))

theorem placesOf (hP : Supplied @P functions worlds) (hdeeper : Compares @P deeper) :
    ∀ items : List Value, ∀ x ∈ placesOf deeper items, x.Has @P
  | [], x, h => nomatch h
  | v :: rest, x, h => by
    rcases List.mem_cons.mp h with rfl | h
    · exact fun hv hy => compareBy hP hdeeper hy hv
    · exact placesOf hP hdeeper rest x h

theorem namedPlacesOf (hP : Supplied @P functions worlds) (hdeeper : Compares @P deeper) :
    ∀ (entries : List (String × Value)) (key : String) (x : Place),
      Entries.find? key (namedPlacesOf deeper entries) = some x → x.Has @P
  | [], key, x, h => nomatch h
  | (name, v) :: rest, key, x, h => by
    rw [DynamicObjects.namedPlacesOf, Entries.find?] at h
    split at h
    · cases h
      exact fun hv hy => compareBy hP hdeeper hy hv
    · exact namedPlacesOf hP hdeeper rest key x h

end

theorem compareWithin (hP : Supplied @P functions worlds) (fuel : Nat) :
    Compares @P (compareWithin fuel) := by
  induction fuel with
  | zero => exact fun ha hb => compareBy hP (fun _ _ => hP.stuck _) hb ha
  | succ fuel ih => exact fun ha hb => compareBy hP ih hb ha

theorem compare (hP : Supplied @P functions worlds) : Compares @P Value.compare :=
  compareWithin hP _

theorem equals (hP : Supplied @P functions worlds) {a b : Value} (ha : Known s a) (hb : Known s b) :
    P s (a.equals b) :=
  hP.map (hP.compare ha hb) (by simp)

end Supplied

end Eval

/-! ## Sorting -/

/-- A function of an element that has a property for known elements. -/
def Extracts (P : ∀ {α : Type} [Mentions α], Set Node → Eval α → Prop) (s : Set Node)
    (extract : Value → Eval Value) : Prop :=
  ∀ s' v, s ⊆ s' → Known s' v → P s' (extract v)

/-- A comparison whose functions have a property. -/
def Comparison.Has (P : ∀ {α : Type} [Mentions α], Set Node → Eval α → Prop) (s : Set Node) :
    Comparison → Prop
  | natural => True
  | comparator compare =>
    ∀ s' a b, s ⊆ s' → Known s' a → Known s' b → P s' (compare a b)
  | extractors extract => ∀ f ∈ extract, Extracts @P s f

theorem Comparison.Has.mono {s' : Set Node} {comparison : Comparison}
    (h : comparison.Has @P s) (hs : s ⊆ s') : comparison.Has @P s' := by
  cases comparison with
  | natural => trivial
  | comparator compare => exact fun s'' a b hs' => h s'' a b (hs.trans hs')
  | extractors extract => exact fun f hf s'' v hs' => h f hf s'' v (hs.trans hs')

namespace Eval

theorem Closed.planRun (hP : Closed @P) {isLess : α → α → Eval Bool}
    (hless : ∀ s' x y, s ⊆ s' → Known s' x → Known s' y → P s' (isLess x y))
    {plan : Plan α β} (hplan : plan.Handles (Known s) (Known s)) : P s (plan.run isLess) := by
  suffices ∀ s', s ⊆ s' → P s' (plan.run isLess) from this s .rfl
  induction plan with
  | done result => exact fun s' hs => hP.pure (Known.mono hplan hs)
  | ask x y next ih =>
    obtain ⟨⟨hx, hy⟩, hnext⟩ := hplan
    exact fun s' hs => hP.bind (hless s' x y hs (hx.mono hs) (hy.mono hs)) fun s'' answer hs' _ =>
      ih answer (hnext answer) s'' (hs.trans hs')
  | contradiction => exact fun _ _ => hP.stuck _

theorem Closed.sortBy (hP : Closed @P) {compare : α → α → Eval Ordering}
    (hcompare : ∀ s' x y, s ⊆ s' → Known s' x → Known s' y → P s' (compare x y))
    {plan : Plan α β} (hplan : plan.Handles (Known s) (Known s)) : P s (sortBy compare plan) :=
  hP.planRun (fun s' x y hs hx hy => hP.map (hcompare s' x y hs hx hy) (by simp)) hplan

theorem Closed.extractRow (hP : Closed @P) {extract : List (Value → Eval Value)}
    (hextract : ∀ f ∈ extract, Extracts @P s f) {v : Value} (hv : Known s v) :
    P s (extractRow extract v) := by
  induction extract generalizing s with
  | nil => exact hP.pure known_nil
  | cons f rest ih =>
    refine hP.bind (hextract f List.mem_cons_self s v .rfl hv) fun s₁ key hs₁ hkey => ?_
    have hrest := ih
      (fun g hg s' v hs => hextract g (List.mem_cons_of_mem f hg) s' v (hs₁.trans hs))
      (hv.mono hs₁)
    exact hP.map (hP.holding _ hrest) fun s₂ row hs₂ hrow => known_cons.mpr ⟨hkey.mono hs₂, hrow⟩

theorem Closed.extractRows (hP : Closed @P) {extract : List (Value → Eval Value)}
    (hextract : ∀ f ∈ extract, Extracts @P s f) {items : List Value} (hitems : Known s items) :
    P s (extractRows extract items) := by
  induction items generalizing s with
  | nil => exact hP.pure known_nil
  | cons v rest ih =>
    obtain ⟨hv, hrest⟩ := known_cons.mp hitems
    refine hP.bind (hP.extractRow hextract hv) fun s₁ row hs₁ hrow => ?_
    have hrows := ih (fun f hf s' v hs => hextract f hf s' v (hs₁.trans hs)) (hrest.mono hs₁)
    refine hP.map (hP.holding _ hrows) fun s₂ rows hs₂ hrows => ?_
    simpa using ⟨⟨hrow.mono hs₂, hv.mono (hs₁.trans hs₂)⟩, hrows⟩

namespace Supplied

variable [Host] {functions : Set Function} {worlds : Set World}
  (hP : Supplied @P functions worlds)
include hP

theorem compareRows {xs ys : List Value} (hxs : Known s xs) (hys : Known s ys) :
    P s (compareRows xs ys) := by
  induction xs generalizing s ys with
  | nil => exact hP.pure (known_nothing _)
  | cons x xs ih =>
    cases ys with
    | nil => exact hP.pure (known_nothing _)
    | cons y ys =>
      obtain ⟨hx, hxs⟩ := known_cons.mp hxs
      obtain ⟨hy, hys⟩ := known_cons.mp hys
      refine hP.bind (hP.compare hx hy) fun s' decided hs _ => ?_
      cases decided with
      | eq => exact ih (hxs.mono hs) (hys.mono hs)
      | lt | gt => exact hP.pure (known_nothing _)

theorem sortItems {comparison : Comparison} (hcomparison : comparison.Has @P s)
    {items : List Value} (hitems : Known s items) : P s (sortItems comparison items) := by
  have hresult {γ : Type} [Mentions γ] {s' : Set Node} {plan : Plan γ (List γ)}
      (h : plan.Handles (Known s') (All (Known s'))) : plan.Handles (Known s') (Known s') :=
    h.imp fun _ => known_list.mpr
  cases comparison with
  | natural =>
    exact hP.sortBy (fun _ _ _ _ => hP.compare)
      (hresult (handles_stableSort (known_list.mp hitems)))
  | comparator compare =>
    exact hP.sortBy hcomparison (hresult (handles_mergeSort (known_list.mp hitems)))
  | extractors extract =>
    refine hP.bind (hP.extractRows hcomparison hitems) fun s' rows hs hrows => ?_
    refine hP.map (hP.holding _ (hP.sortBy (fun _ _ _ _ hx hy => ?_)
      (hresult (handles_stableSort (known_list.mp hrows))))) fun _ _ _ h => h.map_snd
    exact hP.compareRows (known_pair.mp hx).1 (known_pair.mp hy).1

theorem sortedCopy {comparison : Comparison} (hcomparison : comparison.Has @P s) {v : Value}
    (hv : Known s v) (reverse : Bool) : P s (sortedCopy v comparison reverse) := by
  refine hP.bind (hP.kind v) fun s₁ kind hs₁ _ => ?_
  have hv := hv.mono hs₁
  cases kind with
  | sequence | generic | associative =>
    refine hP.bind (hP.collect hv) fun s₂ entries hs₂ hentries => ?_
    have hcomparison := hcomparison.mono (hs₁.trans hs₂)
    refine hP.map (hP.holding _ (hP.sortItems hcomparison hentries.map_snd)) fun _ _ _ h => ?_
    cases reverse <;> simpa using h
  | scalar | undefined | none => exact hP.pure hv
  | function | instanceKind => exact hP.fail _

end Supplied

end Eval

end DynamicObjects
