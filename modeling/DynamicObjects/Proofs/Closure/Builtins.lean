import DynamicObjects.Builtin.Apply
import DynamicObjects.Proofs.Closure.Order

/-!
# Closed properties of named operations

Named operations look at the world, report, and call the functions that they are given.
So they have every closed property that these functions have, and the views of the instances
that they may look into, on all known arguments: what they answer is made of the arguments, of
properties of instances, and of what functions answer.

* `Builtin.callbacks`: the functions that a call may call.
* `Eval.Supplied.apply`: named operations.
* `Eval.Hosted.functionCall`: functions of every sort.
-/

namespace DynamicObjects

variable {P : ∀ {α : Type} [Mentions α], Set Node → Eval α → Prop} {s : Set Node}

/-- Where a class comes from does not depend on reports. -/
theorem World.lineage_of_reports (w : World) (seen : Array Diagnostic) (c : ClassRef) :
    ({ w with diagnostics := seen } : World).lineage c = w.lineage c := by
  have hstate : ({ w with diagnostics := seen } : World).classState c = w.classState c := rfl
  rw [lineage, lineage, hstate]
  cases (w.classState c).parent with
  | none => rfl
  | some parent =>
    dsimp only
    split
    · rw [lineage_of_reports w seen parent]
    · rfl
termination_by c.index

theorem World.isInstance_of_reports (w : World) (seen : Array Diagnostic) (v : Value)
    (c? : Option ClassRef) :
    ({ w with diagnostics := seen } : World).isInstance v c? = w.isInstance v c? := by
  cases c? with
  | none => rfl
  | some c =>
    cases v with
    | inst i =>
      change (World.lineage _ _).any _ = (World.lineage _ _).any _
      rw [World.lineage_of_reports]
    | _ => rfl

/-! ## The functions of a call -/

/-- A function, if the value is one. -/
def Value.function? : Value → Option Function
  | .function f => some f
  | _ => Option.none

/-- The functions that an argument gives. -/
def Value.functions : Value → List Function
  | .array items => items.filterMap function?
  | v => v.function?.toList

namespace Builtin

/-- The places of callbacks. -/
def callbackPlaces : Builtin → List Nat
  | findLike | first | last | map | reduce | sorted => [1]
  | filter | asMap => [1, 2]
  | isIn | foldl => [2]
  | _ => []

/-- The callbacks of an operation. -/
def callbacks (b : Builtin) (args : List Value) : List Function :=
  b.callbackPlaces.flatMap fun i => (argumentAt args i).functions

theorem mem_callbacks {b : Builtin} {args : List Value} {i : Nat} {v : Value} {f : Function}
    (hi : i ∈ b.callbackPlaces) (h : args[i]? = some v) (hf : f ∈ v.functions) :
    f ∈ b.callbacks args :=
  List.mem_flatMap.mpr ⟨i, hi, by rwa [argumentAt, h]⟩

end Builtin

theorem getElem?_of_optionalAt {args : List Value} {i : Nat} {v : Value}
    (h : optionalAt args i = some v) : args[i]? = some v :=
  (Option.filter_eq_some_iff.mp h).1

/-! ## Making values of known ones -/

namespace Known

variable {args : List Value}

theorem argumentAt (h : Known s args) (i : Nat) : Known s (argumentAt args i) :=
  (h.getElem? i).getD known_undefined

theorem optionalAt (h : Known s args) (i : Nat) : Known s (optionalAt args i) :=
  (h.getElem? i).filter _

theorem values {α : Type} [Mentions α] {entries : Entries String α} (h : Known s entries) :
    Known s (Entries.values entries) :=
  h.map_snd

/-- What an index has under a key is in the entries that it was made of. -/
theorem index {entries : Entries String Value} (h : Known s entries) (key : String) :
    Known s (Entries.index entries)[key]? := by
  rw [Entries.getElem?_index]
  exact h.find? key

theorem mergeEntries {extra entries : Entries String Value} (hextra : Known s extra)
    (hentries : Known s entries) (replace : Bool) :
    Known s (mergeEntries replace extra entries) := by
  unfold DynamicObjects.mergeEntries
  refine Known.entries ?_
  generalize hdraft : Draft.ofList entries = draft
  replace hdraft : Known s draft := hdraft ▸ hentries.draft_ofList
  induction extra generalizing draft with
  | nil => exact hdraft
  | cons entry rest ih =>
    obtain ⟨hentry, hrest⟩ := known_cons.mp hextra
    refine ih hrest _ ?_
    dsimp only
    split
    · exact hdraft.draft_insert (known_pair.mp hentry).2 _
    · exact hdraft

theorem fillPlaces {items : List Value} (h : Known s items) (i : Nat) {out : Draft Value}
    (hout : Known s out) : Known s (fillPlaces items i out) := by
  induction items generalizing i out with
  | nil => exact hout
  | cons v rest ih =>
    obtain ⟨hv, hrest⟩ := known_cons.mp h
    refine ih hrest _ ?_
    split
    · exact hout.draft_insert hv _
    · exact hout

theorem selectEntries {entries : Entries String Value} (h : Known s entries)
    (names : List Value) {out : Draft Value} (hout : Known s out) :
    Known s (selectEntries (Entries.index entries) names out) := by
  induction names generalizing out with
  | nil => exact hout
  | cons key rest ih =>
    unfold DynamicObjects.selectEntries
    dsimp only
    split
    · rename_i v hv
      have hknown := (h.index key.text).filter Value.isDefined
      exact ih (hout.draft_insert (known_option.mp hknown v hv) _)
    · exact ih hout

theorem addItems {items : List Value} (h : Known s items) {out : Draft Value}
    (hout : Known s out) : Known s (addItems items out) := by
  fun_induction DynamicObjects.addItems items out with
  | case1 out => exact hout
  | case2 entry rest out key hkey ih =>
    obtain ⟨hentry, hrest⟩ := known_cons.mp h
    have hvalue := ((known_map.mp hentry).find? "value").getD known_undefined
    exact ih hrest (hout.draft_insert hvalue _)
  | case3 entry rest out hkey ih => exact ih (known_cons.mp h).2 hout
  | case4 v rest out hv ih => exact ih (known_cons.mp h).2 hout

theorem between {items : List Value} (h : Known s items) (start stop : Nat) :
    Known s (between start stop items) :=
  h.of_subset fun _ hv => List.mem_of_mem_drop (List.mem_of_mem_take hv)

end Known

theorem known_positionValue (key? : Option Key) : Known s (positionValue key?) := by
  cases key? with
  | none => exact known_integer _
  | some key => exact known_toValue key

namespace Eval

/-! ## Arguments -/

namespace Closed

variable (hP : Closed @P) (b : Builtin) {args : List Value} (i : Nat)
include hP

theorem checkCount (args : List Value) : P s (b.checkCount args) := by
  unfold Builtin.checkCount
  split
  · exact hP.fail _
  · exact hP.pure (known_nothing _)

theorem argument (hargs : Known s args) : P s (argument args i) := by
  have hknown := hargs.getElem? i
  unfold DynamicObjects.argument
  split
  · rename_i v hv
    exact hP.pure (known_option.mp hknown v hv)
  · exact hP.stuck _

theorem integerAt (hargs : Known s args) : P s (integerAt b args i) := by
  refine hP.bind (hP.argument i hargs) fun _ _ _ _ => ?_
  split
  · exact hP.pure (known_nothing _)
  · exact hP.fail _

theorem optionalIntegerAt (hargs : Known s args) : P s (optionalIntegerAt b args i) := by
  unfold DynamicObjects.optionalIntegerAt
  split
  · exact hP.pure (by simp)
  · exact hP.map (hP.integerAt b i hargs) (by simp)

/-! Looking for a callback changes nothing, so no more is known after it. -/

section Callbacks

variable {α : Type} [Mentions α] {functions : Set Function}
  (hfunctions : ∀ f ∈ b.callbacks args, f ∈ functions) (hi : i ∈ b.callbackPlaces)
include hfunctions hi

theorem onFunctionAt (hargs : Known s args) {g : Function → Eval α}
    (hg : ∀ f, Callable functions s f → P s (g f)) : P s (functionAt b args i >>= g) := by
  have hknown := hargs.getElem? i
  unfold DynamicObjects.functionAt DynamicObjects.argument
  cases h : args[i]? with
  | none => exact hP.stuck _
  | some v =>
    rw [h, known_some] at hknown
    cases v with
    | function f =>
      have hmem := Builtin.mem_callbacks hi h (List.mem_singleton_self f)
      exact hg f ⟨hfunctions f hmem, known_function.mp hknown⟩
    | _ => exact hP.fail _

theorem onOptionalFunctionAt (hargs : Known s args) {g : Option Function → Eval α}
    (hg : ∀ f?, (∀ f ∈ f?, Callable functions s f) → P s (g f?)) :
    P s (optionalFunctionAt b args i >>= g) := by
  unfold DynamicObjects.optionalFunctionAt
  cases optionalAt args i with
  | none => exact hg none nofun
  | some v =>
    change P s (Eval.bind (Eval.bind _ _) _)
    rw [Eval.bind_assoc]
    refine hP.onFunctionAt b i hfunctions hi hargs fun f hf => hg (some f) fun f' hf' => ?_
    exact Option.mem_some_iff.mp hf' ▸ hf

end Callbacks

theorem reportUnsupported (v : Value) {fallback : Value} (h : Known s fallback) :
    P s (reportUnsupported b v fallback) :=
  hP.map (hP.report (by decide) _) fun _ _ hs _ => h.mono hs

theorem runIsInstance (v : Value) (args : List Value) : P s (Builtin.runIsInstance v args) := by
  unfold Builtin.runIsInstance
  split
  · exact hP.map (hP.reads _ (fun w seen => w.isInstance_of_reports seen _ _) (by simp)) (by simp)
  · exact hP.map (hP.reads _ (fun w seen => w.isInstance_of_reports seen _ _) (by simp)) (by simp)
  · exact hP.fail _

theorem insertAt {items : List Value} {v : Value} (hitems : Known s items) (hv : Known s v)
    (place : Nat) : P s (insertAt items place v) := by
  unfold DynamicObjects.insertAt
  split
  · refine hP.pure (known_append.mpr ⟨?_, known_cons.mpr ⟨hv, ?_⟩⟩)
    · exact hitems.of_subset (List.take_subset _ _)
    · exact hitems.of_subset (List.drop_subset _ _)
  · exact hP.stuck _

theorem removeAt {items : List Value} (hitems : Known s items) (place : Nat) :
    P s (removeAt items place) := by
  unfold DynamicObjects.removeAt
  split
  · exact hP.pure (hitems.of_subset List.eraseIdx_subset)
  · exact hP.stuck _

theorem insertValue {list v : Value} (hlist : Known s list) (hv : Known s v) (i : Int64) :
    P s (insertValue list i v) := by
  unfold DynamicObjects.insertValue
  split
  · exact hP.map (hP.insertAt (known_array_value.mp hlist) hv _) (by simp)
  · exact hP.reportUnsupported _ _ known_none_value

theorem removePosition {container : Value} (h : Known s container) (index : Value) :
    P s (removePosition container index) := by
  unfold DynamicObjects.removePosition
  split
  · split
    · exact hP.map (hP.removeAt (known_array_value.mp h) _) (by simp)
    · exact hP.pure h
  · exact hP.pure (known_map.mpr ((known_map.mp h).erase _))
  · exact hP.pure h

theorem sliceBounds (length : Nat) (start : Int64) (stop : Option Int64) :
    P s (sliceBounds length start stop) := by
  unfold DynamicObjects.sliceBounds
  split
  · exact hP.pure (known_pair.mpr ⟨known_nothing _, known_nothing _⟩)
  · exact hP.stuck _

theorem addValue {list v : Value} (hlist : Known s list) (hv : Known s v) :
    P s (addValue list v) := by
  unfold DynamicObjects.addValue
  split
  · exact hP.pure (by simpa [hv] using hlist)
  · exact hP.reportUnsupported _ _ known_none_value

end Closed

namespace Supplied

variable [Host] {functions : Set Function} {worlds : Set World}
  (hP : Supplied @P functions worlds) {v : Value}
include hP

theorem callVisit {f : Function} (hf : Callable functions s f) : Visits @P s (callVisit f) :=
  fun _ _ _ hs hv => hP.call (hf.mono hs) (by simp [hv])

theorem callTest {f : Function} (hf : Callable functions s f) : Visits @P s (callTest f) :=
  fun s' v key hs hv => hP.map (hP.callVisit hf s' v key hs hv) (by simp)

theorem entriesOf? (hv : Known s v) : P s (entriesOf? v) := by
  refine hP.bind (hP.kind v) fun s' kind hs _ => ?_
  have hv := hv.mono hs
  split
  · exact hP.map (hP.collect hv) (by simp)
  · exact hP.map (hP.collect hv) (by simp)
  · exact hP.map (hP.collect hv) (by simp)
  · exact hP.map (hP.properties (known_inst.mp hv)) (by simp)
  · exact hP.pure known_none

theorem elementsOf? (hv : Known s v) : P s (elementsOf? v) := by
  refine hP.bind (hP.kind v) fun s' kind hs _ => ?_
  split
  · exact hP.map (hP.collect (hv.mono hs)) fun _ _ _ h => known_some.mpr h.map_snd
  · exact hP.pure known_none

theorem holdsEqual {needle : Value} (hneedle : Known s needle) {values : List Value}
    (hvalues : Known s values) : P s (holdsEqual needle values) := by
  induction values generalizing s with
  | nil => exact hP.pure (known_nothing _)
  | cons v rest ih =>
    obtain ⟨hv, hrest⟩ := known_cons.mp hvalues
    refine hP.bind (hP.equals hv hneedle) fun s' hit hs _ => ?_
    split
    · exact hP.pure (known_nothing _)
    · exact ih (hneedle.mono hs) (hrest.mono hs)

/-! ## Listings, single elements, copies -/

theorem listing {shape : Key → Value → Value}
    (hshape : ∀ {s' : Set Node} (key : Key) {v : Value}, Known s' v → Known s' (shape key v))
    (hv : Known s v) : P s (listing shape v) := by
  unfold DynamicObjects.listing
  split
  · exact hP.pure (by simp)
  · refine hP.bind (hP.entriesOf? hv) fun s' entries? hs h => ?_
    cases entries? with
    | none => exact hP.pure known_none_value
    | some entries =>
      refine hP.pure (known_array_value.mpr (known_list.mpr ?_))
      rw [List.forall_mem_map]
      exact fun entry hentry =>
        hshape _ (known_pair.mp (known_list.mp (known_some.mp h) entry hentry)).2

theorem keysOf (hv : Known s v) : P s (keysOf v) := by
  unfold DynamicObjects.keysOf
  split
  · exact hP.pure known_none_value
  · exact hP.listing (by simp) hv

theorem valuesOf (hv : Known s v) : P s (valuesOf v) := hP.listing (by simp) hv

theorem itemsOf (hv : Known s v) : P s (itemsOf v) := hP.listing (by simp) hv

theorem pairsOf (hv : Known s v) : P s (pairsOf v) := hP.listing (by simp) hv

theorem elementAt (hv : Known s v) (i : Nat) : P s (elementAt v i) := by
  -- what a generic iterable does, whichever value it is
  have hview : ∀ view, View.Has @P s view →
      P s (do if i < (← view.length) then view.element i else return Value.undefined) := by
    intro view hview
    refine hP.bind hview.length fun s' n hs _ => ?_
    split
    · exact hP.mono (hview.element i) hs
    · exact hP.pure known_undefined
  cases v with
  | string text =>
    refine hP.pure (Known.getD (known_option.mpr fun v hv => ?_) known_undefined)
    obtain ⟨c, -, rfl⟩ := Option.map_eq_some_iff.mp hv
    exact known_string _
  | array items =>
    refine hP.pure (Known.getD ?_ known_undefined)
    rw [Value.elements_array, List.getElem?_toArray]
    exact (known_array_value.mp hv).getElem? i
  | typed items =>
    refine hP.pure (Known.getD ?_ known_undefined)
    rw [TypedArray.get?_eq]
    exact (known_values items).getElem? i
  | map entries => exact hP.pure (((known_map.mp hv).find? _).getD known_undefined)
  | inst object =>
    exact hP.view?_bind hv (hP.property (known_inst.mp hv) _) hview
  | _ => exact hP.view?_bind hv (hP.pure known_undefined) hview

theorem resolveOffset (hv : Known s v) (i : Int64) : P s (resolveOffset v i) := by
  unfold DynamicObjects.resolveOffset
  split
  · exact hP.pure (known_nothing _)
  · exact hP.map (hP.length hv) (by simp)

theorem accessValue (hv : Known s v) (index : Value) : P s (accessValue v index) := by
  unfold DynamicObjects.accessValue
  split
  · split
    · exact hP.elementAt hv _
    · refine hP.bind (hP.kind v) fun s₁ kind hs₁ _ => has_ite ?_ (hP.fail _)
      refine hP.bind (hP.resolveOffset (hv.mono hs₁) _) fun s₂ resolved hs₂ _ => ?_
      exact has_ite (hP.elementAt (hv.mono (hs₁.trans hs₂)) _) (hP.pure known_undefined)
  · split
    · exact hP.pure (((known_map.mp hv).find? _).getD known_undefined)
    · exact hP.property (known_inst.mp hv) _
    · exact hP.pure known_undefined

end Supplied

section Copying

variable {copyItem : Value → Eval Value}
  (hcopy : ∀ {s : Set Node} {v}, Known s v → P s (copyItem v))
include hcopy

theorem Closed.copyItems (hP : Closed @P) {items : List Value} (hitems : Known s items) :
    P s (copyItems copyItem items) := by
  induction items generalizing s with
  | nil => exact hP.pure known_nil
  | cons v rest ih =>
    obtain ⟨hv, hrest⟩ := known_cons.mp hitems
    refine hP.bind (hP.holding _ (hcopy hv)) fun s₁ copied hs₁ hcopied => ?_
    refine hP.map (hP.holding _ (ih (hrest.mono hs₁))) fun s₂ copies hs₂ hcopies => ?_
    exact known_cons.mpr ⟨hcopied.mono hs₂, hcopies⟩

theorem Closed.copyEntries (hP : Closed @P) {entries : List (Key × Value)}
    (hentries : Known s entries) {out : Draft Value} (hout : Known s out) :
    P s (copyEntries copyItem entries out) := by
  induction entries generalizing s out with
  | nil => exact hP.pure hout.entries
  | cons entry rest ih =>
    obtain ⟨key, v⟩ := entry
    obtain ⟨hentry, hrest⟩ := known_cons.mp hentries
    have hv := (known_pair.mp hentry).2
    refine hP.bind (hP.holding _ (hP.holding _ (hcopy hv))) fun s' copied hs hcopied => ?_
    exact ih (hrest.mono hs) ((hout.mono hs).draft_insert hcopied _)

end Copying

namespace Supplied

variable [Host] {functions : Set Function} {worlds : Set World}
  (hP : Supplied @P functions worlds) {v container : Value}
include hP

theorem copyValue (depth : Nat) (hv : Known s v) : P s (copyValue depth v) := by
  induction depth generalizing s v with
  | zero => exact hP.pure hv
  | succ depth ih =>
    unfold DynamicObjects.copyValue
    split
    · exact hP.pure (known_typed _)
    · refine hP.bind (hP.kind _) fun s₁ kind hs₁ _ => ?_
      have hv := hv.mono hs₁
      cases kind with
      | associative =>
        refine hP.bind (hP.collect hv) fun s₂ entries _ hentries => ?_
        exact hP.map (hP.copyEntries ih hentries Known.draft_empty) (by simp)
      | sequence | generic =>
        refine hP.bind (hP.collect hv) fun s₂ entries _ hentries => ?_
        exact hP.map (hP.copyItems ih hentries.map_snd) (by simp)
      | _ => exact hP.pure hv

theorem addMissing {extra out : List Value} (hextra : Known s extra) (hout : Known s out) :
    P s (addMissing extra out) := by
  induction extra generalizing s out with
  | nil => exact hP.pure hout
  | cons v rest ih =>
    obtain ⟨hv, hrest⟩ := known_cons.mp hextra
    have hheld := hP.holdsEqual hv (known_reverse.mpr hout)
    refine hP.bind (hP.holding _ (hP.holding _ hheld)) fun s' known hs _ => ?_
    split
    · exact ih (hrest.mono hs) (hout.mono hs)
    · exact ih (hrest.mono hs) (known_cons.mpr ⟨hv.mono hs, hout.mono hs⟩)

theorem mergeValues {other : Value} (hv : Known s v) (hother : Known s other) (replace : Bool) :
    P s (mergeValues v other replace) := by
  unfold DynamicObjects.mergeValues
  split
  · refine hP.bind (hP.elementsOf? hother) fun s' extra? hs h => ?_
    have hv := hv.mono hs
    cases extra? with
    | none => exact hP.reportUnsupported _ _ hv
    | some extra =>
      exact hP.map (hP.addMissing (known_some.mp h) (by simpa using hv)) (by simp)
  · split
    · exact hP.pure (known_map.mpr ((known_map.mp hother).mergeEntries (known_map.mp hv) _))
    · exact hP.reportUnsupported _ _ hv
  · split
    · exact hP.reportUnsupported _ _ hv
    · exact hP.pure hv

/-! ## Searches and edits -/

theorem isInContainer (hv : Known s v) (hcontainer : Known s container)
    {predicate : Option Function} (hpredicate : ∀ f ∈ predicate, Callable functions s f) :
    P s (isInContainer v container predicate) := by
  refine hP.bind (hP.kind container) fun s₁ kind hs₁ _ => ?_
  split
  · refine hP.map (hP.visitAll (hcontainer.mono hs₁) fun s₂ item key hs₂ hitem => ?_) (by simp)
    have hv := hv.mono (hs₁.trans hs₂)
    have hanswer (s' : Set Node) (hit : Bool) : Known s' (if hit then Flow.stop else .proceed) := by
      cases hit <;> simp
    cases predicate with
    | some f =>
      have hf := (hpredicate f rfl).mono (hs₁.trans hs₂)
      refine hP.bind (hP.call hf (by simp [hitem, hv])) fun _ _ _ _ => ?_
      exact hP.map (hP.pure (known_nothing _)) fun s' hit _ _ => hanswer s' hit
    | none => exact hP.map (hP.equals hitem hv) fun s' hit _ _ => hanswer s' hit
  · exact hP.pure (known_nothing _)

theorem findPosition {test : Value → Key → Eval Bool} (htest : Visits @P s test)
    (hcontainer : Known s container) : P s (findPosition test container) := by
  have hwalk : (Walk.position test).Has @P s := fun s₁ _ hs₁ _ s₂ v key hs₂ hv => by
    refine hP.bind (htest s₂ v key (hs₁.trans hs₂) hv) fun s₃ hit _ _ => ?_
    split <;> exact hP.pure (by simp)
  exact hP.map (hP.walkRun hwalk known_none hcontainer) (by simp)

theorem findEqual (hcontainer : Known s container) {needle : Value} (hneedle : Known s needle) :
    P s (findEqual container needle) :=
  hP.map (hP.findPosition (fun _ _ _ hs hv => hP.equals hv (hneedle.mono hs)) hcontainer)
    fun _ _ _ _ => known_positionValue _

theorem findLikeValue (hcontainer : Known s container) {f : Function}
    (hf : Callable functions s f) :
    P s (findLikeValue container f) :=
  hP.map (hP.findPosition (hP.callTest hf) hcontainer) fun _ _ _ _ => known_positionValue _

theorem findOneOfValues (hcontainer : Known s container) {values : Value}
    (hvalues : Known s values) : P s (findOneOfValues container values) := by
  refine hP.map (hP.findPosition (fun s' v key hs hv => ?_) hcontainer)
    fun _ _ _ _ => known_positionValue _
  exact hP.isInContainer hv (hvalues.mono hs) nofun

theorem passes {predicate : Option Function}
    (hpredicate : ∀ f ∈ predicate, Callable functions s f) :
    Visits @P s (passes predicate) := fun s' v key hs hv => by
  cases predicate with
  | some f => exact hP.callTest (hpredicate f rfl) s' v key hs hv
  | none => exact hP.pure (known_nothing _)

theorem firstOf (hcontainer : Known s container) {predicate : Option Function}
    (hpredicate : ∀ f ∈ predicate, Callable functions s f) : P s (firstOf container predicate) := by
  refine hP.map (hP.visitAll hcontainer fun s₁ v key hs₁ hv => ?_)
    fun _ _ _ h => h.payload?.getD known_none_value
  refine hP.bind (hP.passes hpredicate s₁ v key hs₁ hv) fun s₂ passed hs₂ _ => ?_
  split
  · exact hP.pure (known_answer.mpr (hv.mono hs₂))
  · exact hP.pure known_proceed

theorem lastOf (hcontainer : Known s container) {predicate : Option Function}
    (hpredicate : ∀ f ∈ predicate, Callable functions s f) : P s (lastOf container predicate) := by
  have hwalk : (Walk.last (DynamicObjects.passes predicate)).Has @P s := by
    intro s₁ found hs₁ hfound s₂ v key hs₂ hv
    refine hP.bind (hP.passes hpredicate s₂ v key (hs₁.trans hs₂) hv) fun s₃ passed hs₃ _ => ?_
    split
    · exact hP.pure (by simpa using hv.mono hs₃)
    · exact hP.pure (by simpa using hfound.mono (hs₂.trans hs₃))
  exact hP.map (hP.walkRun hwalk known_none_value hcontainer) fun _ _ _ h => (known_pair.mp h).2

theorem placeOfEqual {needle : Value} (hneedle : Known s needle) {values : List Value}
    (hvalues : Known s values) (i : Nat) : P s (placeOfEqual needle i values) := by
  induction values generalizing s i with
  | nil => exact hP.pure known_none
  | cons v rest ih =>
    obtain ⟨hv, hrest⟩ := known_cons.mp hvalues
    refine hP.bind (hP.equals hv hneedle) fun s₁ hit hs₁ _ => ?_
    split
    · exact hP.pure (known_some.mpr (known_nothing _))
    · exact ih (hneedle.mono hs₁) (hrest.mono hs₁) _

theorem removeValue (hcontainer : Known s container) {needle : Value} (hneedle : Known s needle) :
    P s (removeValue container needle) := by
  unfold DynamicObjects.removeValue
  split
  · have hitems := known_array_value.mp hcontainer
    refine hP.bind (hP.placeOfEqual hneedle hitems 0) fun s' place? hs _ => ?_
    split
    · exact hP.map (hP.removeAt (hitems.mono hs) _) (by simp)
    · exact hP.pure (hcontainer.mono hs)
  · exact hP.pure (known_map.mpr ((known_map.mp hcontainer).erase _))
  · exact hP.pure hcontainer

theorem sliceValue (hv : Known s v) (start : Int64) (stop : Option Int64) :
    P s (sliceValue v start stop) := by
  unfold DynamicObjects.sliceValue
  split
  · exact hP.map (hP.sliceBounds _ _ _) (by simp)
  · refine hP.bind (hP.kind _) fun s₁ kind hs₁ _ => ?_
    split
    · refine hP.bind (hP.length (hv.mono hs₁)) fun s₂ length hs₂ _ => ?_
      refine hP.bind (hP.sliceBounds _ _ _) fun s₃ bounds hs₃ _ => ?_
      have hv := hv.mono ((hs₁.trans hs₂).trans hs₃)
      refine hP.map (hP.elementsOf? hv) fun s₄ items? _ h => ?_
      exact known_array_value.mpr ((h.getD known_nil).between _ _)
    · exact hP.fail _

theorem reverseValue (hv : Known s v) : P s (reverseValue v) := by
  unfold DynamicObjects.reverseValue
  split
  · exact hP.pure (known_string _)
  · refine hP.bind (hP.elementsOf? hv) fun s' items? _ h => ?_
    cases items? with
    | some items => exact hP.pure (by simpa using h)
    | none => exact hP.reportUnsupported _ _ known_none_value

/-! ## Sets and regrouping -/

theorem isEmptySet (hv : Known s v) : P s (isEmptySet v) := by
  unfold DynamicObjects.isEmptySet
  split
  · exact hP.pure (known_nothing _)
  · refine hP.bind (hP.kind v) fun s' kind hs _ => ?_
    split
    · exact hP.map (hP.length (hv.mono hs)) (by simp)
    · exact hP.pure (known_nothing _)

theorem membersOf (hv : Known s v) : P s (membersOf v) := by
  unfold DynamicObjects.membersOf
  split
  · exact hP.pure (known_map.mp hv).values
  · exact hP.map (hP.elementsOf? hv) fun _ _ _ h => h.getD known_nil

theorem sift (wanted : Bool) {values items : List Value} (hvalues : Known s values)
    (hitems : Known s items) : P s (sift wanted values items) := by
  induction items generalizing s with
  | nil => exact hP.pure known_nil
  | cons v rest ih =>
    obtain ⟨hv, hrest⟩ := known_cons.mp hitems
    refine hP.bind (hP.holding _ (hP.holdsEqual hv hvalues)) fun s₁ hit hs₁ _ => ?_
    have hsifted := ih (hvalues.mono hs₁) (hrest.mono hs₁)
    split
    · refine hP.map (hP.holding _ hsifted) fun s₂ kept hs₂ hkept => ?_
      exact known_cons.mpr ⟨hv.mono (hs₁.trans hs₂), hkept⟩
    · exact hsifted

theorem siftEntries {values : List Value} (hvalues : Known s values)
    {entries : Entries String Value} (hentries : Known s entries) :
    P s (siftEntries values entries) := by
  induction entries generalizing s with
  | nil => exact hP.pure known_nil
  | cons entry rest ih =>
    obtain ⟨key, v⟩ := entry
    obtain ⟨hentry, hrest⟩ := known_cons.mp hentries
    refine hP.bind (hP.holdsEqual (known_pair.mp hentry).2 hvalues) fun s₁ hit hs₁ _ => ?_
    refine hP.map (ih (hvalues.mono hs₁) (hrest.mono hs₁)) fun s₂ kept hs₂ hkept => ?_
    split
    · exact hkept
    · exact known_cons.mpr ⟨hentry.mono (hs₁.trans hs₂), hkept⟩

section Sets

variable {a b : Value} (ha : Known s a) (hb : Known s b)
include ha hb

theorem differenceOf : P s (differenceOf a b) := by
  refine hP.bind (hP.isEmptySet ha) fun s₁ empty hs₁ _ => ?_
  refine has_ite (hP.pure (ha.mono hs₁)) ?_
  refine hP.bind (hP.isEmptySet (hb.mono hs₁)) fun s₂ empty' hs₂ _ => ?_
  refine has_ite (hP.pure (ha.mono (hs₁.trans hs₂))) ?_
  refine hP.bind (hP.kind a) fun s₃ kind hs₃ _ => ?_
  have ha := ha.mono (hs₁.trans (hs₂.trans hs₃))
  have hb := hb.mono (hs₁.trans (hs₂.trans hs₃))
  cases kind with
  | sequence | generic =>
    refine hP.bind (hP.membersOf hb) fun s₄ excluded hs₄ hexcluded => hP.holding _ ?_
    refine hP.bind (hP.elementsOf? (ha.mono hs₄)) fun s₅ items? hs₅ hitems => ?_
    exact hP.map (hP.sift false (hexcluded.mono hs₅) (hitems.getD known_nil)) (by simp)
  | associative =>
    cases a with
    | map entries =>
      cases b with
      | map excluded => exact hP.pure (known_map.mpr ((known_map.mp ha).filterItems _))
      | _ =>
        refine hP.bind (hP.membersOf hb) fun s₄ excluded hs₄ hexcluded => ?_
        have hsifted := hP.siftEntries hexcluded (known_map.mp (ha.mono hs₄))
        exact hP.map (hP.holding _ hsifted) (by simp)
    | _ => exact hP.reportUnsupported _ _ known_none_value
  | _ => exact hP.reportUnsupported _ _ known_none_value

theorem unionOf : P s (unionOf a b) := by
  refine hP.bind (hP.isEmptySet ha) fun s₁ empty hs₁ _ => ?_
  refine has_ite (hP.pure (hb.mono hs₁)) ?_
  refine hP.bind (hP.isEmptySet (hb.mono hs₁)) fun s₂ empty' hs₂ _ => ?_
  refine has_ite (hP.pure (ha.mono (hs₁.trans hs₂))) ?_
  refine hP.bind (hP.kind a) fun s₃ kind hs₃ _ => ?_
  have ha := ha.mono (hs₁.trans (hs₂.trans hs₃))
  have hb := hb.mono (hs₁.trans (hs₂.trans hs₃))
  cases kind with
  | sequence | generic =>
    refine hP.bind (hP.elementsOf? ha) fun s₄ items? hs₄ h => ?_
    have hitems := h.getD known_nil
    refine hP.bind (hP.holding _ (hP.membersOf (hb.mono hs₄))) fun s₅ extra hs₅ hextra => ?_
    exact hP.map (hP.addMissing hextra (known_reverse.mpr (hitems.mono hs₅))) (by simp)
  | associative =>
    cases a with
    | map entries =>
      cases b with
      | map other =>
        exact hP.bind (hP.copyValue 1 ha) fun s₄ copied hs₄ hcopied =>
          hP.mergeValues hcopied (hb.mono hs₄) _
      | _ =>
        refine hP.map (hP.membersOf hb) fun s₄ items hs₄ hitems => known_map.mpr ?_
        exact (hitems.fillPlaces 0 (known_map.mp (ha.mono hs₄)).draft_ofList).entries
    | _ => exact hP.reportUnsupported _ _ known_none_value
  | _ => exact hP.reportUnsupported _ _ known_none_value

theorem intersectionOf : P s (intersectionOf a b) := by
  refine hP.bind (hP.isEmptySet ha) fun s₁ empty hs₁ _ => ?_
  refine has_ite (hP.pure known_none_value) ?_
  refine hP.bind (hP.kind a) fun s₂ kind hs₂ _ => ?_
  have ha := ha.mono (hs₁.trans hs₂)
  have hb := hb.mono (hs₁.trans hs₂)
  cases kind with
  | sequence | generic =>
    refine hP.bind (hP.elementsOf? ha) fun s₃ items? hs₃ h => ?_
    have hitems := h.getD known_nil
    cases b with
    | map keys => exact hP.pure (known_array_value.mpr (hitems.filterItems _))
    | _ =>
      refine hP.bind (hP.holding _ (hP.elementsOf? (hb.mono hs₃))) fun s₄ other? hs₄ hother => ?_
      have hother := hother.getD known_nil
      exact hP.map (hP.holding _ (hP.sift true hother (hitems.mono hs₄))) (by simp)
  | associative =>
    cases a with
    | map entries =>
      cases b with
      | map other => exact hP.pure (known_map.mpr ((known_map.mp hb).filterItems _))
      | _ =>
        refine hP.map (hP.elementsOf? hb) fun s₃ names? hs₃ _ => known_map.mpr ?_
        exact ((known_map.mp (ha.mono hs₃)).selectEntries _ Known.draft_empty).entries
    | _ => exact hP.reportUnsupported _ _ known_none_value
  | _ => exact hP.reportUnsupported _ _ known_none_value

end Sets

theorem indexBy (hcontainer : Known s container) {extractor : Function}
    (hextractor : Callable functions s extractor) {replacer : Option Function}
    (hreplacer : ∀ f ∈ replacer, Callable functions s f) :
    P s (indexBy container extractor replacer) := by
  have hwalk : (Walk.indexBy extractor replacer).Has @P s := by
    intro s₁ out hs₁ hout s₂ v key hs₂ hv
    refine hP.bind (hP.callVisit hextractor s₂ v key (hs₁.trans hs₂) hv) fun s₃ name hs₃ _ => ?_
    have hout := hout.mono (hs₂.trans hs₃)
    have hv := hv.mono hs₃
    have hanswer (s₄ : Set Node) (stored : Value) (hs₄ : s₃ ⊆ s₄) (h : Known s₄ stored) :
        Known s₄ (Flow.proceed, out.insert name.text stored) := by
      simpa using (hout.mono hs₄).draft_insert h _
    dsimp only
    split
    · rename_i existing f hexisting
      have hf := (hreplacer f rfl).mono (hs₁.trans (hs₂.trans hs₃))
      have hexisting := known_option.mp (hout.draft_find? name.text) existing hexisting
      exact hP.map (hP.call hf (by simp [hv, hexisting])) hanswer
    · exact hP.map (hP.pure hv) hanswer
  exact hP.map (hP.walkRun hwalk Known.draft_empty hcontainer) fun _ _ _ h =>
    known_map.mpr (known_pair.mp h).2.entries

theorem addCouples {couples : List Value} (hcouples : Known s couples) {out : Draft Value}
    (hout : Known s out) : P s (addCouples couples out) := by
  induction couples generalizing s out with
  | nil => exact hP.pure hout.entries
  | cons couple rest ih =>
    obtain ⟨hcouple, hrest⟩ := known_cons.mp hcouples
    refine hP.bind (hP.holding _ (hP.holding _ (hP.elementsOf? hcouple)))
      fun s' elements? hs h => ?_
    have hout := hout.mono hs
    split
    · rename_i key values
      have hvalues := (known_cons.mp (known_some.mp h)).2
      rw [List.head?_eq_getElem?]
      exact ih (hrest.mono hs) (hout.draft_insert ((hvalues.getElem? 0).getD known_undefined) _)
    · exact ih (hrest.mono hs) hout

theorem couplesToMap {couples : Value} (hcouples : Known s couples) :
    P s (couplesToMap couples) := by
  refine hP.bind (hP.elementsOf? hcouples) fun s' items? _ h => ?_
  cases items? with
  | some items => exact hP.map (hP.addCouples (known_some.mp h) Known.draft_empty) (by simp)
  | none => exact hP.reportUnsupported _ _ known_none_value

theorem itemsToMap {items : Value} (hitems : Known s items) : P s (itemsToMap items) := by
  refine hP.bind (hP.elementsOf? hitems) fun s' items? _ h => ?_
  cases items? with
  | some items =>
    exact hP.pure (known_map.mpr ((known_some.mp h).addItems Known.draft_empty).entries)
  | none => exact hP.reportUnsupported _ _ known_none_value

end Supplied

/-! ## Calling -/

theorem Closed.signOf (hP : Closed @P) (answer : Value) : P s (signOf answer) := by
  cases answer with
  | integer n => exact hP.pure (known_nothing _)
  | float x => exact hP.pure (known_nothing _)
  | _ => exact hP.fail _

theorem Closed.extractorsOf (hP : Closed @P) {functions : Set Function} {values : List Value}
    (h : Known s values) (hfunctions : ∀ f ∈ values.filterMap Value.function?, f ∈ functions)
    {α : Type} [Mentions α] {g : List Function → Eval α}
    (hg : ∀ fs, (∀ f ∈ fs, Callable functions s f) → P s (g fs)) :
    P s (extractorsOf values >>= g) := by
  induction values generalizing g with
  | nil => exact hg [] nofun
  | cons v rest ih =>
    obtain ⟨hv, hrest⟩ := known_cons.mp h
    cases v with
    | function f =>
      obtain ⟨hf, hfunctions⟩ := List.forall_mem_cons.mp hfunctions
      change P s (Eval.bind (Eval.bind _ _) _)
      rw [Eval.bind_assoc]
      refine ih hrest hfunctions fun fs hfs => hg (f :: fs) (List.forall_mem_cons.mpr ⟨?_, hfs⟩)
      exact ⟨hf, known_function.mp hv⟩
    | _ => exact hP.fail _

namespace Supplied

variable [Host] {functions : Set Function} {worlds : Set World}
  (hP : Supplied @P functions worlds) {container : Value}
include hP

/-- A comparison that a known argument describes runs nothing but the functions that it gives. -/
theorem comparisonOf_bind {α : Type} [Mentions α] {argument : Option Value}
    (hargument : Known s argument)
    (hfunctions : ∀ v ∈ argument, ∀ f ∈ v.functions, f ∈ functions) {g : Comparison → Eval α}
    (hg : ∀ comparison, comparison.Has @P s → P s (g comparison)) :
    P s (comparisonOf argument >>= g) := by
  rw [known_option] at hargument
  unfold comparisonOf
  split
  · exact hg _ trivial
  · rename_i f
    have hf : Callable functions s f :=
      ⟨hfunctions _ rfl f (List.mem_singleton_self f), known_function.mp (hargument _ rfl)⟩
    refine hg _ fun s' a b hs ha hb => ?_
    exact hP.bind (hP.call (hf.mono hs) (by simp [ha, hb])) fun _ _ _ _ => hP.signOf _
  · have hitems := known_array_value.mp (hargument _ rfl)
    change P s (Eval.bind (Eval.bind _ _) _)
    rw [Eval.bind_assoc]
    refine hP.extractorsOf hitems (hfunctions _ rfl) fun extractors hextractors => ?_
    refine hg _ fun extract hextract s' v hs hv => ?_
    obtain ⟨f, hf, rfl⟩ := List.mem_map.mp hextract
    exact hP.call ((hextractors f hf).mono hs) (by simp [hv])
  · exact hP.fail _

theorem reduceByFunction (hcontainer : Known s container) {f : Function}
    (hf : Callable functions s f) {initial : Option Value} (hinitial : Known s initial) :
    P s (reduceByFunction container f initial) := by
  refine hP.reduceWith (fun s₁ acc v key ordinal hs₁ hacc hv => ?_) hinitial hcontainer
  refine hP.map (hP.call (hf.mono hs₁) (by simp [hacc, hv])) fun s₂ answer hs₂ hanswer => ?_
  exact known_pair.mpr ⟨hacc.mono hs₂, hanswer⟩

theorem builtinRun (b : Builtin) {args : List Value} (hargs : Known s args)
    (hfunctions : ∀ f ∈ b.callbacks args, f ∈ functions) : P s (b.run args) := by
  refine hP.bind (hP.argument 0 hargs) fun s v hs hv => ?_
  replace hargs := hargs.mono hs
  have hnext := hP.argument 1 hargs
  have hother := hargs.argumentAt 1
  cases b with
  | len => exact hP.map (hP.length hv) (by simp)
  | typeOf | isFunction | isDefined | isUndefined | isNumber | isString | isObject =>
    exact hP.pure (by simp)
  | kindOf | isList | isMap | isIterable => exact hP.map (hP.kind _) (by simp)
  | isInstance => exact hP.runIsInstance v args
  | keys => exact hP.keysOf hv
  | values => exact hP.valuesOf hv
  | items => exact hP.itemsOf hv
  | pairs => exact hP.pairsOf hv
  | access => exact hP.bind hnext fun _ _ hs _ => hP.accessValue (hv.mono hs) _
  | offset =>
    exact hP.bind (hP.integerAt _ _ hargs) fun _ _ hs _ =>
      hP.map (hP.resolveOffset (hv.mono hs) _) (by simp)
  | copy =>
    exact hP.bind (hP.optionalIntegerAt _ _ hargs) fun _ _ hs _ => hP.copyValue _ (hv.mono hs)
  | merge => exact hP.mergeValues hv hother _
  | find => exact hP.bind hnext fun _ _ hs hnext => hP.findEqual (hv.mono hs) hnext
  | findLike =>
    exact hP.onFunctionAt _ _ hfunctions (by decide) hargs fun _ hf => hP.findLikeValue hv hf
  | findOneOf => exact hP.bind hnext fun _ _ hs hnext => hP.findOneOfValues (hv.mono hs) hnext
  | first =>
    exact hP.onOptionalFunctionAt _ _ hfunctions (by decide) hargs fun _ hf => hP.firstOf hv hf
  | last =>
    exact hP.onOptionalFunctionAt _ _ hfunctions (by decide) hargs fun _ hf => hP.lastOf hv hf
  | insert =>
    exact hP.bind (hP.integerAt _ _ hargs) fun _ _ hs _ =>
      hP.insertValue (hv.mono hs) ((hargs.argumentAt 2).mono hs) _
  | add => exact hP.addValue hv hother
  | remove => exact hP.removeValue hv hother
  | removeAt => exact hP.removePosition hv _
  | slice =>
    exact hP.bind (hP.optionalIntegerAt _ _ hargs) fun _ _ hs _ =>
      hP.bind (hP.optionalIntegerAt _ _ (hargs.mono hs)) fun _ _ hs' _ =>
        hP.sliceValue (hv.mono (hs.trans hs')) _ _
  | reverse => exact hP.reverseValue hv
  | isIn =>
    refine hP.onOptionalFunctionAt _ _ hfunctions (by decide) hargs fun predicate hpredicate => ?_
    refine hP.bind (hP.argument 1 hargs) fun s' list hs hlist => ?_
    exact hP.map (hP.isInContainer (hv.mono hs) hlist fun f hf => (hpredicate f hf).mono hs)
      (by simp)
  | difference => exact hP.bind hnext fun _ _ hs hnext => hP.differenceOf (hv.mono hs) hnext
  | union => exact hP.bind hnext fun _ _ hs hnext => hP.unionOf (hv.mono hs) hnext
  | intersection => exact hP.bind hnext fun _ _ hs hnext => hP.intersectionOf (hv.mono hs) hnext
  | asMap =>
    exact hP.onFunctionAt _ _ hfunctions (by decide) hargs fun _ hextractor =>
      hP.onOptionalFunctionAt _ _ hfunctions (by decide) hargs fun _ hreplacer =>
        hP.indexBy hv hextractor hreplacer
  | couplesAsMap => exact hP.couplesToMap hv
  | itemsAsMap => exact hP.itemsToMap hv
  | map =>
    exact hP.onFunctionAt _ _ hfunctions (by decide) hargs fun _ hf =>
      hP.mapElements (hP.callVisit hf) hv
  | filter =>
    refine hP.onFunctionAt _ _ hfunctions (by decide) hargs fun predicate hpredicate => ?_
    refine hP.onOptionalFunctionAt _ _ hfunctions (by decide) hargs fun processor? hprocessor => ?_
    replace hpredicate := hP.callTest hpredicate
    cases processor? with
    | some processor => exact hP.filterWith hpredicate (hP.callVisit (hprocessor _ rfl)) hv
    | none => exact hP.filterElements hpredicate hv
  | reduce =>
    exact hP.onFunctionAt _ _ hfunctions (by decide) hargs fun _ hf =>
      hP.reduceByFunction hv hf ((hargs.getElem? 2).filter _)
  | foldl =>
    refine hP.onFunctionAt _ _ hfunctions (by decide) hargs fun f hf => ?_
    refine hP.bind (hP.argument 1 hargs) fun s' seed hs hseed => ?_
    exact hP.reduceByFunction (hv.mono hs) (hf.mono hs) (known_some.mpr hseed)
  | cmp =>
    refine hP.bind hnext fun _ _ hs hnext => hP.map (hP.compare (hv.mono hs) hnext) ?_
    intro _ order _ _
    cases order <;> simp [orderingValue]
  | greater | smaller =>
    exact hP.bind hnext fun _ _ hs hnext => hP.map (hP.compare (hv.mono hs) hnext) (by simp)
  | sorted =>
    refine hP.comparisonOf_bind (hargs.optionalAt 1) (fun u hu f hf => hfunctions f ?_)
      fun _ hcomparison => hP.sortedCopy hcomparison hv _
    exact Builtin.mem_callbacks (by decide) (getElem?_of_optionalAt hu) hf

theorem apply (b : Builtin) {args : List Value} (hargs : Known s args)
    (hfunctions : ∀ f ∈ b.callbacks args, f ∈ functions) : P s (b.apply args) :=
  hP.bind (hP.checkCount b args) fun _ _ hs _ => hP.builtinRun b (hargs.mono hs) hfunctions

end Supplied

namespace Hosted

variable [Host] (hP : Hosted @P)
include hP

theorem apply (b : Builtin) {args : List Value} (hargs : Known s args) : P s (b.apply args) :=
  hP.supplied.apply b hargs fun _ _ => Set.mem_univ _

theorem functionCall {f : Function} (hf : Known s f) {args : List Value} (hargs : Known s args) :
    P s (f.call args) := by
  obtain ⟨id, name, code⟩ := f
  cases code with
  | script body => exact hP.run body (by simpa using hargs)
  | builtin b => exact hP.holding _ (hP.apply b hargs)
  | bound receiver member appendsReceiver =>
    exact hP.holding _ (hP.callBound member appendsReceiver (known_bound.mp hf) hargs)

end Hosted

end Eval

end DynamicObjects
