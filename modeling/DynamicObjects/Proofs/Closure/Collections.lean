import DynamicObjects.Collections.Transform
import DynamicObjects.Proofs.Closure.Calls

/-!
# Closed properties of walks

A closed property of the views that are supplied goes through every walk whose visits have it.
Visits come after one another, so a visit needs the property however much is known by then.

* `Eval.Supplied.view?_has`: generic iterables answer for their length and elements with the
  property.
* `Eval.Supplied.walkRun`: walks have it, and so have mapping, filtering and folding.
-/

namespace DynamicObjects

variable {P : ∀ {α : Type} [Mentions α], Set Node → Eval α → Prop} {α β σ : Type} [Mentions α]
  [Mentions β] [Mentions σ] {s : Set Node}

/-! ## Views -/

/-- A function of an element and its key that has a property. -/
def Visits (P : ∀ {α : Type} [Mentions α], Set Node → Eval α → Prop) (s : Set Node)
    (visit : Value → Key → Eval α) : Prop :=
  ∀ s' v key, s ⊆ s' → Known s' v → P s' (visit v key)

/-- A walk whose visits have a property. -/
def Walk.Has (P : ∀ {α : Type} [Mentions α], Set Node → Eval α → Prop) (s : Set Node)
    (walk : Walk σ) : Prop :=
  ∀ s' state, s ⊆ s' → Known s' state → Visits @P s' (walk.visit state)

theorem Walk.Has.mono {s' : Set Node} {walk : Walk σ} (h : walk.Has @P s) (hs : s ⊆ s') :
    walk.Has @P s' :=
  fun s'' state hs' => h s'' state (hs.trans hs')

namespace Eval

theorem Closed.view_mono (hP : Closed @P) {s' : Set Node} {view : View α} (h : view.Has @P s)
    (hs : s ⊆ s') : view.Has @P s' :=
  ⟨hP.mono h.length hs, fun i => hP.mono (h.element i) hs⟩

theorem Closed.ofArray (hP : Closed @P) {beyond : α} (hbeyond : Known s beyond)
    {items : Array α} (hitems : Known s items) : (View.ofArray beyond items).Has @P s where
  length := hP.pure (known_nothing _)
  element i := by
    refine hP.pure (Known.getD (known_option.mpr fun a ha => ?_) hbeyond)
    exact known_array.mp hitems a (Array.mem_of_getElem? ha)

theorem Closed.ofIterable (hP : Closed @P) {beyond : α} (hbeyond : Known s beyond)
    {items : Array α} (hitems : Known s items) (length : Nat) (lengthFault : Option Value)
    (faults : List (Nat × Value)) :
    (View.ofIterable beyond length items lengthFault faults).Has @P s := by
  constructor
  · cases lengthFault with
    | none => exact hP.pure (known_nothing _)
    | some raised => exact hP.fail _
  · intro i
    dsimp only [View.ofIterable]
    split
    · exact hP.fail _
    · exact (hP.ofArray hbeyond hitems).element i

namespace Supplied

variable [Host] {functions : Set Function} {worlds : Set World}
  (hP : Supplied @P functions worlds)
include hP

theorem view?_has {w : World} (hw : w ∈ worlds) {v : Value} (hv : Known s v)
    {view : View Value} (h : w.view? v = some view) : view.Has @P s := by
  unfold World.view? at h
  split at h
  · cases h
    refine hP.ofIterable known_undefined (known_array.mpr fun a ha => ?_) _ _ _
    rw [Value.elements_iterable, List.mem_toArray] at ha
    exact known_list.mp (known_iterable.mp hv) a ha
  · cases h
    exact hP.foreign (known_foreign.mp hv)
  · split at h
    · rename_i hgeneric
      cases h
      exact hP.opens hw (known_inst.mp hv) hgeneric
    · cases h
  · cases h

theorem kind (v : Value) : P s v.kind := hP.reads _ (fun _ _ => rfl) (by simp)

/-- What is done with the view of a value needs the property for views that have it. -/
theorem view?_bind {v : Value} (hv : Known s v) {f : Option (View Value) → Eval α}
    (hnone : P s (f none)) (hsome : ∀ view, view.Has @P s → P s (f (some view))) :
    P s (v.view? >>= f) := by
  refine hP.reads_bind (fun _ _ => rfl) fun w hw => ?_
  cases h : w.view? v with
  | none => exact hnone
  | some view => exact hsome view (hP.view?_has hw hv h)

theorem length {v : Value} (hv : Known s v) : P s v.length := by
  cases v with
  | iterable id label length items lengthFault faults =>
    exact hP.view?_bind hv (hP.pure (known_nothing _)) fun _ h => h.length
  | foreign i => exact hP.view?_bind hv (hP.pure (known_nothing _)) fun _ h => h.length
  | inst i =>
    exact hP.view?_bind hv (hP.reads _ (fun _ _ => rfl) (by simp)) fun _ h => h.length
  | undefined | none | boolean | integer | float | string | array | typed | map | function | cls =>
    exact hP.pure (known_nothing _)

end Supplied

/-! ## Walks -/

namespace Closed

variable (hP : Closed @P) {walk : Walk σ} {state : σ}
include hP

theorem walkStep (hwalk : walk.Has @P s) (hstate : Known s state) {v : Value} (hv : Known s v)
    (key : Key) : P s (walk.step state v key) :=
  hP.holding _ (hP.holding _ (hP.reporting (hwalk s state .rfl hstate s v key .rfl hv)))

theorem visitEach (hwalk : walk.Has @P s) {entries : List (Key × Value)}
    (hentries : Known s entries) (hstate : Known s state) :
    P s (walk.visitEach entries state) := by
  induction entries generalizing s state with
  | nil => exact hP.pure (by simp [hstate])
  | cons entry rest ih =>
    obtain ⟨hentry, hrest⟩ := known_cons.mp hentries
    refine hP.bind (hP.walkStep hwalk hstate (known_pair.mp hentry).2 _) fun s' answer hs h => ?_
    obtain ⟨flow, state⟩ := answer
    obtain ⟨hflow, hstate⟩ := known_pair.mp h
    cases flow with
    | proceed => exact ih (hwalk.mono hs) (hrest.mono hs) hstate
    | stop => exact hP.pure (by simp [hstate])
    | answer payload => exact hP.pure (by simpa using ⟨hflow, hstate⟩)

theorem visitIndexed (hwalk : walk.Has @P s) {element : Nat → Eval Value}
    (helement : ∀ i, P s (element i)) (count i : Nat) (hstate : Known s state) :
    P s (walk.visitIndexed element count i state) := by
  induction count generalizing s i state with
  | zero => exact hP.pure (by simp [hstate])
  | succ count ih =>
    refine hP.bind (hP.holding _ (hP.reporting (helement i))) fun s₁ v hs₁ hv => ?_
    refine hP.bind (hP.walkStep (hwalk.mono hs₁) (hstate.mono hs₁) hv _) fun s₂ answer hs₂ h => ?_
    obtain ⟨flow, state⟩ := answer
    obtain ⟨hflow, hstate⟩ := known_pair.mp h
    have hs := hs₁.trans hs₂
    cases flow with
    | proceed => exact ih (hwalk.mono hs) (fun i => hP.mono (helement i) hs) (i + 1) hstate
    | stop => exact hP.pure (by simp [hstate])
    | answer payload => exact hP.pure (by simpa using ⟨hflow, hstate⟩)

end Closed

namespace Supplied

variable [Host] {functions : Set Function} {worlds : Set World}
  (hP : Supplied @P functions worlds) {container : Value}
include hP

theorem walkRun {walk : Walk σ} (hwalk : walk.Has @P s) {start : σ} (hstart : Known s start)
    (hcontainer : Known s container) : P s (walk.run start container) := by
  unfold Walk.run
  split
  · exact hP.visitEach hwalk (by simpa using hcontainer) hstart
  · exact hP.visitEach hwalk (by simp) hstart
  · exact hP.visitEach hwalk (by simpa using hcontainer) hstart
  · refine hP.view?_bind hcontainer ?_ fun view hview => ?_
    · have hnothing {s' : Set Node} (hs : s ⊆ s') : Known s' (Outcome.exhausted, start) := by
        simp [hstart.mono hs]
      dsimp only
      split
      · exact hP.bind (hP.report (by decide) _) fun s' _ hs _ => hP.pure (hnothing hs)
      · exact hP.pure (hnothing .rfl)
    · refine hP.bind (hP.holding _ (hP.reporting hview.length)) fun s' count hs _ => ?_
      exact hP.visitIndexed (hwalk.mono hs) (hP.view_mono hview hs).element _ _ (hstart.mono hs)

theorem visitAll (hcontainer : Known s container) {visit : Value → Key → Eval Flow}
    (hvisit : Visits @P s visit) : P s (visitAll container visit) := by
  have hwalk : (Walk.stateless visit).Has @P s := fun s₁ _ hs₁ _ s₂ v key hs₂ hv =>
    hP.map (hvisit s₂ v key (hs₁.trans hs₂) hv) (by simp)
  exact hP.map (hP.walkRun hwalk (known_nothing ()) hcontainer) fun _ _ _ h => (known_pair.mp h).1

theorem collect (hcontainer : Known s container) : P s (collect container) := by
  have hwalk : Walk.gather.Has @P s := fun s₁ found hs₁ hfound s₂ v key hs₂ hv =>
    hP.pure (by simpa [hv] using hfound.mono hs₂)
  exact hP.map (hP.walkRun hwalk known_nil hcontainer) fun _ _ _ h => by
    simpa using (known_pair.mp h).2

theorem rebuild (operation : String) {keep : Value → Key → Eval (Option Value)}
    (hkeep : Visits @P s keep) (hcontainer : Known s container) :
    P s (rebuild operation keep container) := by
  -- both walks go on after every element, whether or not it is kept
  have hlist : (Walk.toList keep).Has @P s := fun s₁ out hs₁ hout s₂ v key hs₂ hv =>
    hP.bind (hkeep s₂ v key (hs₁.trans hs₂) hv) fun s₃ kept? hs₃ hkept => by
      have hout := hout.mono (hs₂.trans hs₃)
      cases kept? with
      | none => exact hP.pure (by simpa using hout)
      | some kept => exact hP.pure (by simpa using ⟨known_some.mp hkept, hout⟩)
  have hentries : (Walk.toEntries keep).Has @P s := fun s₁ out hs₁ hout s₂ v key hs₂ hv =>
    hP.bind (hkeep s₂ v key (hs₁.trans hs₂) hv) fun s₃ kept? hs₃ hkept => by
      have hout := hout.mono (hs₂.trans hs₃)
      cases kept? with
      | none => exact hP.pure (by simpa using hout)
      | some kept => exact hP.pure (by simpa using hout.draft_insert (known_some.mp hkept) _)
  refine hP.bind (hP.kind _) fun s' kind hs _ => ?_
  have hcontainer := hcontainer.mono hs
  cases kind with
  | sequence | generic =>
    exact hP.map (hP.walkRun (hlist.mono hs) known_nil hcontainer) fun _ _ _ h => by
      simpa using (known_pair.mp h).2
  | associative =>
    exact hP.map (hP.walkRun (hentries.mono hs) Known.draft_empty hcontainer) fun _ _ _ h => by
      simpa using (known_pair.mp h).2.entries
  | undefined | none => exact hP.pure hcontainer
  | scalar | function | instanceKind =>
    exact hP.map (hP.report (by decide) _) fun _ _ hs' _ => hcontainer.mono hs'

theorem mapElements {f : Value → Key → Eval Value} (hf : Visits @P s f)
    (hcontainer : Known s container) : P s (mapElements f container) :=
  hP.rebuild _ (fun s' v key hs hv => hP.map (hf s' v key hs hv) (by simp)) hcontainer

theorem filterElements {predicate : Value → Key → Eval Bool} (hpredicate : Visits @P s predicate)
    (hcontainer : Known s container) : P s (filterElements predicate container) := by
  refine hP.rebuild _ (fun s₁ v key hs₁ hv => ?_) hcontainer
  refine hP.bind (hpredicate s₁ v key hs₁ hv) fun s₂ passed hs₂ _ => ?_
  cases passed with
  | false => exact hP.pure known_none
  | true => exact hP.pure (known_some.mpr (hv.mono hs₂))

theorem filterWith {predicate : Value → Key → Eval Bool} {processor : Value → Key → Eval Value}
    (hpredicate : Visits @P s predicate) (hprocessor : Visits @P s processor)
    (hcontainer : Known s container) : P s (filterWith predicate processor container) := by
  refine hP.rebuild _ (fun s₁ v key hs₁ hv => ?_) hcontainer
  refine hP.bind (hpredicate s₁ v key hs₁ hv) fun s₂ passed hs₂ _ => ?_
  cases passed with
  | false => exact hP.pure known_none
  | true => exact hP.map (hprocessor s₂ v key (hs₁.trans hs₂) (hv.mono hs₂)) (by simp)

theorem reduceWith {step : Value → Value → Key → Nat → Eval (Value × Value)}
    (hstep : ∀ s' acc v key ordinal, s ⊆ s' → Known s' acc → Known s' v →
      P s' (step acc v key ordinal))
    {initial : Option Value} (hinitial : Known s initial) (hcontainer : Known s container) :
    P s (reduceWith step initial container) := by
  have hfold : (Walk.fold step).Has @P s := by
    rintro s₁ ⟨acc, ordinal⟩ hs₁ hstate s₂ v key hs₂ hv
    have hacc := (known_pair.mp hstate).1.mono hs₂
    have hanswer {s' : Set Node} {pair : Value × Value} (h : Known s' pair) :
        Known s' (Flow.proceed, if pair.2.isDefined then pair.2 else pair.1, ordinal + 1) := by
      obtain ⟨hleft, hright⟩ := known_pair.mp h
      split <;> simp [hleft, hright]
    dsimp only [Walk.fold]
    split
    · exact hP.map (hP.pure (by simp [hacc, hv])) fun _ _ _ => hanswer
    · exact hP.map (hstep s₂ acc v key ordinal (hs₁.trans hs₂) hacc hv) fun _ _ _ => hanswer
  have hstart : Known s (initial.getD .undefined, 0) := by
    simpa using hinitial.getD known_undefined
  exact hP.map (hP.walkRun hfold hstart hcontainer) fun _ _ _ h =>
    (known_pair.mp (known_pair.mp h).2).1

end Supplied

end Eval

end DynamicObjects
