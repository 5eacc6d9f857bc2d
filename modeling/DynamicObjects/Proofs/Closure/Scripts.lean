import DynamicObjects.Proofs.Closure.Builtins
import DynamicObjects.Script.Evaluate

/-!
# Closed properties of scripts

What scripts do to a session beyond calling and reporting is `Sessional`: they change
variables, registries and traces, and act on classes and instances by the operations of
these. A closed property that all this has goes through every form and every expression,
by recursion on the expression, and so through the hosts of every fuel. Whatever a script
acts on is known: it has it from its operands, from a variable, or from an answer.

* `Eval.Sessional`: properties of what scripts do to a session.
* `Eval.Hosted.evaluate`: expressions have them.
* `Eval.Closed.hostWithin`: hosts of every fuel have them.
-/

namespace DynamicObjects

open Script

/-- A change of the world that leaves classes and instances alone, gives no numbers, and
needs nothing but what is known. -/
structure World.Aside (s : Set Node) (f : World → World) : Prop where
  classes : ∀ w, (f w).classes = w.classes
  instances : ∀ w, (f w).instances = w.instances
  nextId : ∀ w, (f w).nextId = w.nextId
  known : ∀ {s' w}, s ⊆ s' → Known s' w → Known s' (f w)

/-- A property of all that scripts do to a session. -/
structure Eval.Sessional (P : ∀ {α : Type} [Mentions α], Set Node → Eval α → Prop) : Prop where
  within : ∀ {α : Type} [Mentions α] {s : Set Node} {x : Eval α} (f : Scope → Scope), P s x →
    P s (Eval.within f x)
  scope : ∀ {s : Set Node}, P s Eval.scope
  exception : ∀ {s : Set Node} (context : String) (e : Failure),
    P s (Eval.reportException context e)
  reads : ∀ {α : Type} [Mentions α] {s : Set Node} (f : World → α),
    (∀ {s' w}, s ⊆ s' → Known s' w → Known s' (f w)) → P s (Eval.reads f)
  aside : ∀ {s : Set Node} {f : World → World}, World.Aside s f → P s (Eval.modify f)
  fresh : ∀ {s : Set Node}, P s Eval.fresh
  declareClass : ∀ {s : Set Node} {plan : ClassPlan}, Known s plan → P s (declareClass plan)
  addMethod : ∀ {s : Set Node} {c : ClassRef} (name : String) (body : Expr), Known s c →
    P s (c.addMethod name body)
  addOperation : ∀ {s : Set Node} {c : ClassRef} (name : String) (body : Expr), Known s c →
    P s (c.addOperation name body)
  setShared : ∀ {s : Set Node} {c : ClassRef} (name : String) {value : Value}, Known s c →
    Known s value → P s (c.setShared name value)
  getOperation : ∀ {s : Set Node} {c : ClassRef} (name : String), Known s c →
    P s (c.getOperation name)
  constructBare : ∀ {s : Set Node} {c : ClassRef}, Known s c → P s c.constructBare
  set : ∀ {s : Set Node} {i : InstanceRef} (name : String) {value : Value}, Known s i →
    Known s value → P s (i.set name value)
  getSuper : ∀ {s : Set Node} {i : InstanceRef} {ancestor : ClassRef}, Known s i →
    Known s ancestor → P s (i.getSuper ancestor)
  request : ∀ {s : Set Node} {i : InstanceRef} (name : String) (appendsReceiver : Bool),
    Known s i → P s (i.bind name appendsReceiver)

variable {P : ∀ {α : Type} [Mentions α], Set Node → Eval α → Prop} {α : Type} [Mentions α]
  {s : Set Node}

/-- Whether a form looks at nothing but its operands, and calls no functions. -/
def Script.ValueForm.isPlain : ValueForm → Bool
  | .trace | .toJson | .apply => false
  | .call b => b.callbackPlaces.isEmpty
  | _ => true

/-- What only changes reports and traces. -/
theorem World.Aside.of_eq {f : World → World} (hclasses : ∀ w, (f w).classes = w.classes)
    (hinstances : ∀ w, (f w).instances = w.instances)
    (hregistries : ∀ w, (f w).registries = w.registries)
    (hbindings : ∀ w, (f w).bindings = w.bindings) (hnext : ∀ w, (f w).nextId = w.nextId) :
    World.Aside s f where
  classes := hclasses
  instances := hinstances
  nextId := hnext
  known _ h := h.world_congr (hclasses _) (hinstances _) (hregistries _) (hbindings _)

namespace Eval

theorem Sessional.setVariable (hS : Sessional @P) (name : String) {item : Item}
    (hitem : Known s item) : P s (setVariable name item) :=
  hS.aside ⟨fun _ => rfl, fun _ => rfl, fun _ => rfl, fun hs hw =>
    hw.setBindings (hw.bindings.insert (hitem.mono hs))⟩

/-! ## Operands -/

namespace Closed

variable (hP : Closed @P) {x : Item}
include hP

theorem toValue (hx : Known s x) : P s x.toValue := by
  cases x with
  | value v => exact hP.pure hx
  | _ => exact hP.stuck _

theorem toValues {xs : List Item} (hxs : Known s xs) : P s (Item.toValues xs) := by
  induction xs generalizing s with
  | nil => exact hP.pure known_nil
  | cons x rest ih =>
    refine hP.bind (hP.toValue hxs.head) fun s₁ v hs₁ hv => ?_
    exact hP.map (ih (hxs.tail.mono hs₁)) fun s₂ vs hs₂ hvs => known_cons.mpr ⟨hv.mono hs₂, hvs⟩

theorem toString (x : Item) : P s x.toString := by
  unfold Item.toString
  split
  · exact hP.pure (known_nothing _)
  · exact hP.stuck _

theorem toClass (hx : Known s x) : P s x.toClass := by
  unfold Item.toClass
  split
  · exact hP.pure (known_cls.mp hx)
  · exact hP.stuck _

theorem toProxy (hx : Known s x) : P s x.toProxy := by
  unfold Item.toProxy
  split
  · exact hP.pure hx
  · exact hP.stuck _

/-! Reading an operand changes nothing, so no more is known after it. -/

theorem onClass {f : ClassRef → Eval α} (hx : Known s x) (hf : ∀ c, Known s c → P s (f c)) :
    P s (x.toClass >>= f) := by
  unfold Item.toClass
  split
  · exact hf _ (known_cls.mp hx)
  · exact hP.stuck _

theorem onInstance {f : InstanceRef → Eval α} (hx : Known s x)
    (hf : ∀ i, Known s i → P s (f i)) : P s (x.toInstance >>= f) := by
  unfold Item.toInstance
  split
  · exact hf _ (known_inst.mp hx)
  · exact hP.stuck _

theorem onRegistry {f : Nat → Eval α} (hf : ∀ r, P s (f r)) : P s (x.toRegistry >>= f) := by
  unfold Item.toRegistry
  split
  · exact hf _
  · exact hP.stuck _

theorem onProxy {f : SuperProxy → Eval α} (hx : Known s x) (hf : ∀ p, Known s p → P s (f p)) :
    P s (x.toProxy >>= f) := by
  unfold Item.toProxy
  split
  · exact hf _ hx
  · exact hP.stuck _

theorem onString {f : String → Eval α} (hf : ∀ text, P s (f text)) : P s (x.toString >>= f) := by
  unfold Item.toString
  split
  · exact hf _
  · exact hP.stuck _

theorem onValue {f : Value → Eval α} (hx : Known s x) (hf : ∀ v, Known s v → P s (f v)) :
    P s (x.toValue >>= f) := by
  cases x with
  | value v => exact hf v hx
  | _ => exact hP.stuck _

theorem onValues {xs : List Item} {f : List Value → Eval α} (hxs : Known s xs)
    (hf : ∀ vs, Known s vs → P s (f vs)) : P s (Item.toValues xs >>= f) := by
  induction xs generalizing f with
  | nil => exact hf [] known_nil
  | cons x rest ih =>
    cases x with
    | value v =>
      have hrest : Item.toValues (.value v :: rest) >>= f =
          Item.toValues rest >>= fun vs => f (v :: vs) := by
        simp [Item.toValues, Item.toValue]
      rw [hrest]
      exact ih hxs.tail fun vs hvs => hf (v :: vs) (known_cons.mpr ⟨hxs.head, hvs⟩)
    | _ => exact hP.stuck _

end Closed

/-! ## Registries -/

section Registries

variable (hP : Closed @P) (hS : Sessional @P) {c : ClassRef} {plan : ClassPlan}
  {operands : List Item}
include hP hS

theorem Closed.registerClass (registry : Nat) (hc : Known s c) :
    P s (registerClass registry c) := by
  unfold DynamicObjects.registerClass
  split
  · exact hP.pure (known_nothing _)
  · refine hP.bind (hS.reads _ fun _ hw => hw.registered _) fun s' state hs hstate => ?_
    refine hP.bind (hS.aside ⟨fun _ => rfl, fun _ => rfl, fun _ => rfl, fun hs' hw => ?_⟩)
      fun _ _ _ _ => ?_
    · have hc := (hc.mono hs).mono hs'
      exact hw.setRegistry _ (Known.insert (hstate.mono hs') hc)
    · split
      · exact has_ite (hP.report (by decide) _) (hP.pure (known_nothing _))
      · exact hP.pure (known_nothing _)

theorem Closed.declareIn (registry : Nat) (hplan : Known s plan) :
    P s (declareIn registry plan) :=
  hP.bind (hS.declareClass hplan) fun _ _ _ hc =>
    hP.map (hP.registerClass hS registry hc) fun _ _ hs _ => hc.mono hs

theorem Closed.makeRegistry (settings : Settings) : P s (makeRegistry settings) := by
  refine hP.bind (hS.aside ⟨fun _ => rfl, fun _ => rfl, fun _ => rfl, fun _ hw => ?_⟩)
    fun _ _ _ _ => hS.reads _ fun _ _ => known_nothing _
  exact hw.addRegistry known_nil

theorem Closed.actOnRegistry (form : RegistryForm) (h : Known s operands) :
    P s (actOnRegistry form operands) := by
  unfold Script.actOnRegistry
  -- one case for each form, in the order in which they are run
  split
  · exact hP.map (hP.makeRegistry hS _) (by simp)
  · exact hP.onRegistry fun r => hP.onClass h.tail.head fun c hc =>
      hP.map (hP.registerClass hS r hc) (by simp)
  · exact hP.onRegistry fun r => hP.onString fun name =>
      hP.map (hS.reads _ fun _ hw => (hw.registered r).find? name) fun _ _ _ hc =>
        hc.ofOption fun _ => known_ofClass.mpr
  · exact hP.onRegistry fun r =>
      hP.map (hS.reads _ fun _ hw => (hw.registered r).values) (by simp)
  · exact hP.onRegistry fun r => hP.onClass h.tail.head fun c _ =>
      hP.map (hS.reads _ fun _ hw => (hw.registered r).values.filterItems _) (by simp)
  · exact hP.onRegistry fun _ => hP.map (hS.reads _ (by simp)) (by simp)
  · exact hP.onRegistry fun _ => hP.map (hS.reads _ (by simp)) (by simp)
  · exact hP.onRegistry fun _ => hP.map (hS.reads _ (by simp)) (by simp)
  · exact hP.stuck _

end Registries

/-! ## What forms make of known things -/

theorem known_listTable {state : ClassState} (h : Known s state) (table : Table)
    (own inherited : Bool) : Known s (listTable state table own inherited) := by
  obtain ⟨-, hproperties, hshared, -⟩ := known_classState.mp h
  cases table with
  | methods | operations => exact known_ofStrings _
  | shared => exact known_map.mpr (hshared.list own inherited)
  | properties => exact known_map.mpr (hproperties.list own inherited)

theorem known_onIntegers {f : Int64 → Int64 → Value} (hf : ∀ a b, Known s (f a b)) (v w : Value) :
    Known s (onIntegers f v w) := by
  unfold onIntegers
  split
  · exact hf _ _
  · exact known_undefined

theorem known_remainder (a b : Int64) : Known s (remainder a b) := by
  unfold remainder
  split
  · exact known_undefined
  · exact known_integer _

theorem known_describeKey (key : Key) : Known s (describeKey key) := by
  cases key <;> simp [describeKey]

theorem known_pairUp {values : List Value} (h : Known s values) : Known s (pairUp values) := by
  fun_induction pairUp values with
  | case1 => exact known_some.mpr known_nil
  | case2 v => exact known_none
  | case3 key v rest ih =>
    refine known_option.mpr fun pairs hpairs => ?_
    obtain ⟨found, hfound, rfl⟩ := Option.map_eq_some_iff.mp hpairs
    have hrest := known_option.mp (ih h.tail.tail) found hfound
    exact known_cons.mpr ⟨known_pair.mpr ⟨known_nothing _, h.tail.head⟩, hrest⟩

theorem known_describeOutcome {outcome : Outcome} (h : Known s outcome) :
    Known s (describeOutcome outcome) := by
  simpa [describeOutcome] using h.payload?.getD known_undefined

theorem known_describeDiagnostics (seen : List Diagnostic) :
    Known s (Value.array (seen.map describeDiagnostic)) := by
  refine known_array_value.mpr (known_list.mpr ?_)
  rw [List.forall_mem_map]
  intro d _
  simp [describeDiagnostic]

/-! ## Plain forms -/

theorem Supplied.actOnPlain [Host] {functions : Set Function} {worlds : Set World}
    (hP : Supplied @P functions worlds) {form : ValueForm} (hform : form.isPlain = true)
    {operands : List Item} (h : Known s operands) : P s (actOnValues form operands) := by
  unfold Script.actOnValues
  -- one case for each form, in the order in which they are run
  split
  · exact hP.pure (by simp)
  · exact hP.pure (by simp)
  · exact hP.map (hP.toValue h.head) fun _ _ _ hv => hv
  · exact hP.onValue h.head fun _ hacc => hP.map (hP.toValue h.tail.head) fun _ _ hs hanswer =>
      known_folded.mpr ⟨hacc.mono hs, hanswer⟩
  · exact hP.onValue h.head fun _ _ => hP.fail _
  · cases hform
  · exact hP.map (hP.toValues h) fun _ _ _ hvs => known_array_value.mpr hvs
  · refine hP.onValues h fun vs hvs => hP.map (hP.ofOption (known_pairUp hvs)) ?_
    exact fun _ _ _ hpairs => known_map.mpr hpairs.draft_ofList.entries
  · exact hP.onValue h.head fun _ _ => hP.map (hP.toValue h.tail.head) fun _ _ _ _ =>
      known_onIntegers (fun _ _ => known_integer _) _ _
  · exact hP.onValue h.head fun _ _ => hP.map (hP.toValue h.tail.head) fun _ _ _ _ =>
      known_onIntegers (fun _ _ => known_integer _) _ _
  · exact hP.onValue h.head fun _ _ => hP.map (hP.toValue h.tail.head) fun _ _ _ _ =>
      known_onIntegers (fun _ _ => known_integer _) _ _
  · exact hP.onValue h.head fun _ _ => hP.map (hP.toValue h.tail.head) fun _ _ _ _ =>
      known_onIntegers known_remainder _ _
  · exact hP.map (hP.toValues h) (by simp)
  · exact hP.map (hP.toValue h.head) (by simp)
  · exact hP.pure (by simp)
  · cases hform
  · exact hP.onValue h.head fun _ _ => hP.map (hP.toValue h.tail.head) (by simp)
  · exact hP.pure (by simp)
  · rename_i b
    -- an operation without places for callbacks calls none
    have hnone : b.callbacks = fun _ => [] := by
      rw [Script.ValueForm.isPlain, List.isEmpty_iff] at hform
      simp [funext_iff, Builtin.callbacks, hform]
    exact hP.onValues h fun _ hargs => hP.map (hP.apply b hargs (by simp [hnone]))
      fun _ _ _ hv => known_value_item.mpr hv
  · cases hform
  · exact hP.onValue h.head fun _ _ => hP.map (hP.ofOption (by simp)) fun _ _ _ _ =>
      known_value_item.mpr (known_describeKey _)
  · exact hP.map (hP.ofOption (by simp)) (by simp)
  · refine hP.map (hP.toString _) fun _ name _ _ => ?_
    exact (known_option_nothing (Builtin.ofName? name)).ofOption fun _ _ => known_ofString _
  · exact hP.onString fun _ => hP.map (hP.toString _) (by simp)
  · exact hP.stuck _

/-! ## Classes and instances -/

namespace Hosted

variable [Host] (hP : Hosted @P) (hS : Sessional @P) {c : ClassRef} {p : SuperProxy}
  {args : List Value} {operands : List Item}
include hP

theorem boundOperationCall {bound : BoundOperation} (hbound : Known s bound)
    (hargs : Known s args) : P s (bound.call args) := by
  refine hP.bind (hP.isAlive _) fun s' alive hs _ => ?_
  cases alive with
  | false => exact hP.fail _
  | true => exact hP.run _ (known_frame.mpr ⟨known_cls.mpr (hbound.mono hs), hargs.mono hs⟩)

theorem proxyInstance (hp : Known s p) : P s p.instance? := by
  refine hP.bind (hP.isAlive _) fun s' alive hs _ => ?_
  cases alive with
  | false => exact hP.fail _
  | true => exact hP.pure (known_proxy.mp (hp.mono hs)).1

include hS

theorem callOperation (hc : Known s c) (name : String) (hargs : Known s args) :
    P s (c.callOperation name args) := by
  refine hP.bind (hP.bind (hS.reads _ (by simp)) fun _ routine? _ _ => ?_) fun _ _ hs _ =>
    hP.run _ (known_frame.mpr ⟨known_cls.mpr (hc.mono hs), hargs.mono hs⟩)
  cases routine? with
  | none => exact hP.fail _
  | some routine => exact hP.pure (known_nothing _)

theorem construct (hc : Known s c) (hargs : Known s args) : P s (c.construct args) := by
  refine hP.bind (hS.constructBare hc) fun s₁ i hs₁ hi => ?_
  refine hP.bind (hS.reads _ (by simp)) fun s₂ routine? hs₂ _ => ?_
  have hi := hi.mono hs₂
  cases routine? with
  | none => exact hP.pure hi
  | some routine =>
    have hframe : Known s₂ (⟨.inst i, args⟩ : Frame) :=
      known_frame.mpr ⟨known_inst.mpr hi, hargs.mono (hs₁.trans hs₂)⟩
    exact hP.map (hP.run _ hframe) fun _ _ hs₃ _ => hi.mono hs₃

theorem proxyCall (hp : Known s p) (name : String) (hargs : Known s args) :
    P s (p.call name args) := by
  refine hP.bind (hS.reads _ (by simp)) fun s₁ member? hs₁ _ => ?_
  cases member? with
  | none => exact hP.fail _
  | some member =>
    refine hP.bind (hP.proxyInstance (hp.mono hs₁)) fun s₂ i hs₂ hi => hP.holding _ ?_
    have hc := (known_proxy.mp (hp.mono (hs₁.trans hs₂))).2
    exact hP.memberInvoke member hi hc (hargs.mono (hs₁.trans hs₂))

theorem proxyInitializer (hp : Known s p) (hargs : Known s args) : P s (p.runInitializer args) := by
  refine hP.bind (hP.proxyInstance hp) fun s₁ i hs₁ hi => ?_
  refine hP.bind (hS.reads _ (by simp)) fun s₂ routine? hs₂ _ => ?_
  cases routine? with
  | none => exact hP.pure known_undefined
  | some routine =>
    exact hP.run _ (known_frame.mpr ⟨known_inst.mpr (hi.mono hs₂), hargs.mono (hs₁.trans hs₂)⟩)

theorem proxySuper (hp : Known s p) : P s p.getSuper := by
  refine hP.bind (hS.reads _ fun _ hw => hw.parent _) fun s₁ parent? hs₁ hparent => ?_
  cases parent? with
  | none => exact hP.fail _
  | some parent =>
    exact hP.bind (hP.proxyInstance (hp.mono hs₁)) fun s₂ i hs₂ hi =>
      hS.getSuper hi ((known_some.mp hparent).mono hs₂)

theorem actOnClass (form : ClassForm) (h : Known s operands) : P s (actOnClass form operands) := by
  unfold Script.actOnClass
  -- one case for each form, in the order in which they are run
  split
  · exact hP.map (hP.toClass h.head) (by simp)
  · refine hP.map (hP.toClass h.head) fun _ c _ _ => ?_
    exact (known_option_nothing c.name).ofOption fun _ _ => known_ofString _
  · exact hP.map (hP.toClass h.head) (by simp)
  · exact hP.onClass h.head fun _ _ => hP.map (hS.reads _ fun _ hw => hw.parent _) fun _ _ _ hc =>
      hc.ofOption fun _ => known_ofClass.mpr
  · refine hP.onValue h.head fun v _ => ?_
    split
    · exact hP.pure (known_ofBool _)
    · exact hP.pure (known_ofBool _)
    · exact hP.stuck _
  · exact hP.onClass h.head fun _ _ => hP.map (hS.reads _ (by simp)) fun _ _ _ hr =>
      hr.ofOption fun _ _ => known_handle_method _
  · exact hP.onClass h.head fun _ _ => hP.onClass h.tail.head fun _ _ =>
      hP.map (hS.reads _ (by simp)) (by simp)
  · exact hP.onClass h.head fun _ _ => hP.onValue h.tail.head fun _ _ =>
      hP.map (hS.reads _ (by simp)) (by simp)
  · exact hP.onClass h.head fun _ _ => hP.onString fun _ =>
      hP.map (hS.reads _ (by simp)) (by simp)
  · exact hP.onClass h.head fun _ _ => hP.onString fun _ =>
      hP.map (hS.reads _ (by simp)) fun _ _ _ hr => hr.ofOption fun _ _ => known_handle_method _
  · exact hP.onClass h.head fun _ _ => hP.onString fun _ =>
      hP.map (hS.reads _ (by simp)) fun _ _ _ hr => hr.ofOption fun _ _ => known_handle_operation _
  · exact hP.onClass h.head fun _ _ => hP.onString fun _ =>
      hP.map (hS.reads _ (by simp)) fun _ _ _ hr => hr.ofOption fun _ _ => known_handle_member _
  · exact hP.onClass h.head fun _ _ => hP.onString fun _ =>
      hP.map (hS.reads _ (by simp)) fun _ _ _ hr => hr.ofOption fun _ _ => known_handle_method _
  · exact hP.onClass h.head fun _ _ => hP.onString fun _ =>
      hP.map (hS.reads _ (by simp)) fun _ _ _ hr => hr.ofOption fun _ _ => known_handle_operation _
  · exact hP.onClass h.head fun c _ => hP.map (hS.reads _ fun _ hw => hw.classState c)
      fun _ _ _ hstate => known_listTable hstate _ _ _
  · refine hP.onClass h.head fun c _ => hP.onString fun name => hP.map (hS.reads _ fun _ hw => ?_)
      fun _ _ _ hv => known_value_item.mpr hv
    exact ((known_classState.mp (hw.classState c)).2.2.1.get? name).getD known_undefined
  · exact hP.onClass h.head fun _ hc => hP.onString fun name => hP.onValue h.tail.tail.head
      fun _ hv => hP.map (hS.setShared name hc hv) (by simp)
  · exact hP.onClass h.head fun _ hc => hP.onString fun name =>
      hP.map (hS.getOperation name hc) fun _ _ _ hbound => known_handle_boundOperation.mpr hbound
  · exact hP.onClass h.head fun _ hc => hP.onString fun name => hP.onValues h.tail.tail
      fun _ hargs => hP.map (hP.callOperation hS hc name hargs) fun _ _ _ hv =>
        known_value_item.mpr hv
  · exact hP.onClass h.head fun _ hc => hP.onValues h.tail fun _ hargs =>
      hP.map (hP.construct hS hc hargs) fun _ _ _ hi => known_value_item.mpr (known_inst.mpr hi)
  · exact hP.onClass h.head fun _ hc => hP.map (hS.constructBare hc) fun _ _ _ hi =>
      known_value_item.mpr (known_inst.mpr hi)
  · exact hP.onInstance h.tail.head fun _ hi => hP.onValues h.tail.tail fun _ hargs =>
      hP.map (hP.run _ (known_frame.mpr ⟨known_inst.mpr hi, hargs⟩)) fun _ _ _ hv =>
        known_value_item.mpr hv
  · exact hP.onClass h.tail.head fun _ hc => hP.onValues h.tail.tail fun _ hargs =>
      hP.map (hP.run _ (known_frame.mpr ⟨known_cls.mpr hc, hargs⟩)) fun _ _ _ hv =>
        known_value_item.mpr hv
  · exact hP.onInstance h.tail.head fun _ hi => hP.onClass h.tail.tail.head fun _ hc =>
      hP.onValues h.tail.tail.tail fun _ hargs => hP.map (hP.memberInvoke _ hi hc hargs)
        fun _ _ _ hv => known_value_item.mpr hv
  · exact hP.stuck _

theorem actOnInstance (form : InstanceForm) (h : Known s operands) :
    P s (actOnInstance form operands) := by
  unfold Script.actOnInstance
  -- one case for each form, in the order in which they are run
  split
  · exact hP.onInstance h.head fun _ _ => hP.onString fun _ =>
      hP.map (hS.reads _ fun _ hw => hw.property _ _) fun _ _ _ hv => known_value_item.mpr hv
  · exact hP.onInstance h.head fun _ hi => hP.onString fun name => hP.onValue h.tail.tail.head
      fun _ hv => hP.map (hS.set name hi hv) (by simp)
  · exact hP.onInstance h.head fun _ _ => hP.map (hS.reads _ (by simp)) (by simp)
  · refine hP.map (hP.toValue h.head) fun _ v _ hv => ?_
    cases v with
    | inst i => exact known_ofClass.mpr (known_inst.mp hv).classOf
    | cls c => exact known_ofClass.mpr (known_cls.mp hv)
    | _ => exact known_undefined
  · exact hP.onValue h.head fun _ _ => hP.map (hS.reads _ (by simp)) (by simp)
  · exact hP.onValue h.head fun _ _ => hP.onClass h.tail.head fun _ _ =>
      hP.map (hS.reads _ (by simp)) (by simp)
  · exact hP.onInstance h.head fun _ _ => hP.onClass h.tail.head fun _ _ =>
      hP.map (hS.reads _ (by simp)) (by simp)
  · exact hP.onInstance h.head fun _ hi => hP.onString fun name =>
      hP.map (hP.request name false hi) fun _ _ _ hb => known_handle_boundMethod.mpr hb
  · exact hP.onInstance h.head fun _ hi => hP.onString fun name =>
      hP.map (hP.request name true hi) fun _ _ _ hb => known_handle_boundMethod.mpr hb
  · exact hP.onInstance h.head fun _ hi => hP.onString fun name => hP.onValues h.tail.tail
      fun _ hargs => hP.map (hP.invoke name hi hargs) fun _ _ _ hv => known_value_item.mpr hv
  · exact hP.onInstance h.head fun _ hi => hP.onClass h.tail.head fun _ hc =>
      hP.map (hS.getSuper hi hc) fun _ _ _ hp => known_handle_proxy.mpr hp
  · have hbound := known_boundMethod.mp (known_handle_boundMethod.mp h.head)
    exact hP.onValues h.tail fun _ hargs => hP.map (hP.callBound _ _ hbound hargs)
      fun _ _ _ hv => known_value_item.mpr hv
  · have hbound := known_handle_boundOperation.mp h.head
    exact hP.onValues h.tail fun _ hargs => hP.map (hP.boundOperationCall hbound hargs)
      fun _ _ _ hv => known_value_item.mpr hv
  · exact hP.pure (known_value_item.mpr (known_function.mpr (known_toFunction.mpr h.head)))
  · exact hP.onProxy h.head fun _ hp => hP.onString fun name => hP.onValues h.tail.tail
      fun _ hargs => hP.map (hP.proxyCall hS hp name hargs) fun _ _ _ hv => known_value_item.mpr hv
  · exact hP.onProxy h.head fun _ hp => hP.onValues h.tail fun _ hargs =>
      hP.map (hP.proxyInitializer hS hp hargs) fun _ _ _ hv => known_value_item.mpr hv
  · exact hP.onProxy h.head fun _ hp => hP.map (hP.proxySuper hS hp) fun _ _ _ hp =>
      known_handle_proxy.mpr hp
  · exact hP.map (hP.toProxy h.head) fun _ _ _ hp => known_ofClass.mpr (known_proxy.mp hp).2
  · exact hP.onProxy h.head fun _ hp => hP.map (hP.proxyInstance hp) fun _ _ _ hi =>
      known_value_item.mpr (known_inst.mpr hi)
  · exact hP.stuck _

/-! ## Values and the session -/

theorem actOnValues (form : ValueForm) (h : Known s operands) :
    P s (actOnValues form operands) := by
  by_cases hform : form.isPlain = true
  · exact hP.supplied.actOnPlain hform h
  · cases form with
    | trace =>
      match operands, h with
      | [x], h =>
        refine hP.bind (hS.reads _ (by simp)) fun s₁ seen hs₁ _ => ?_
        refine hP.bind (hS.aside (.of_eq ?_ ?_ ?_ ?_ ?_)) fun s₂ _ hs₂ _ =>
          hP.pure (h.head.mono (hs₁.trans hs₂))
        all_goals exact fun _ => rfl
      | [], _ | _ :: _ :: _, _ => exact hP.stuck _
    | toJson =>
      match operands, h with
      | [x], h =>
        refine hP.onValue h.head fun v _ => ?_
        refine hP.map (hP.bind (hS.reads _ (by simp)) fun _ document? _ _ => ?_) (by simp)
        cases document? with
        | some document => exact hP.pure (known_nothing _)
        | none => exact hP.stuck _
      | [], _ | _ :: _ :: _, _ => exact hP.stuck _
    | call b =>
      exact hP.onValues h fun _ hargs => hP.map (hP.apply _ hargs) fun _ _ _ hv =>
        known_value_item.mpr hv
    | apply =>
      match operands, h with
      | [], _ => exact hP.stuck _
      | f :: rest, h =>
        refine hP.onValue h.head fun v hv => ?_
        split
        · exact hP.onValues h.tail fun _ hargs =>
            hP.map (hP.call (known_function.mp hv) hargs) fun _ _ _ hv => known_value_item.mpr hv
        · exact hP.stuck _
    | _ => exact absurd rfl hform

theorem actOnSession (form : SessionForm) (operands : List Item) :
    P s (actOnSession form operands) := by
  unfold Script.actOnSession
  split
  · exact hP.map hS.scope (by simp)
  · refine hP.onString fun text => hP.onString fun level => ?_
    split
    · exact hP.map (hP.report (by decide) _) (by simp)
    · exact hP.map (hP.report (by decide) _) (by simp)
    · exact hP.map (hP.report (by decide) _) (by simp)
    · exact hP.map (hS.exception _ _) (by simp)
  · exact hP.stuck _

theorem act (form : Form) (h : Known s operands) : P s (form.act operands) := by
  cases form with
  | value form => exact hP.holding _ (hP.actOnValues hS form h)
  | session form => exact hP.holding _ (hP.actOnSession hS form operands)
  | registry form => exact hP.holding _ (hP.actOnRegistry hS form h)
  | cls form => exact hP.holding _ (hP.actOnClass hS form h)
  | inst form => exact hP.holding _ (hP.actOnInstance hS form h)

/-! ## Expressions -/

theorem declareFrom (destination : Destination) (registry : Option Item) {plan : ClassPlan}
    (hplan : Known s plan) : P s (declareFrom destination registry plan) := by
  unfold Script.declareFrom
  split
  · exact hP.pure ((known_option_nothing plan.name).ofOption fun _ _ => known_ofString _)
  · exact hP.onRegistry fun r => hP.map (hP.declareIn hS r hplan) fun _ _ _ hc =>
      known_ofClass.mpr hc
  · exact hP.map (hS.declareClass hplan) fun _ _ _ hc => known_ofClass.mpr hc

theorem collectingReports {x : Eval α} (hx : P s x) : P s (collectingReports x) := by
  have haside {s' : Set Node} (seen : Array Diagnostic) :
      P s' (Eval.modify fun w => { w with diagnostics := seen }) :=
    hS.aside (.of_eq (fun _ => rfl) (fun _ => rfl) (fun _ => rfl) (fun _ => rfl) fun _ => rfl)
  refine hP.bind (hS.reads _ (by simp)) fun s₁ outer hs₁ _ => ?_
  refine hP.bind (haside _) fun s₂ _ hs₂ _ => ?_
  have hx := hP.mono hx (hs₁.trans hs₂)
  refine hP.bind (hP.attempt (hS.within _ hx)) fun s₃ result _ hresult => ?_
  refine hP.bind (hS.reads _ (by simp)) fun s₄ seen hs₄ _ => ?_
  refine hP.map (haside _) fun s₅ _ hs₅ _ => ?_
  simpa using hresult.mono (hs₄.trans hs₅)

omit hS

/-- What is done with a part of an item that may be there. -/
theorem optional {β : Type} [Mentions β] {item? : Option Item} {part : Item → Eval β}
    {f : Option β → Eval α} (hitem : Known s item?) (hpart : ∀ x, Known s x → P s (part x))
    (hf : ∀ s' b?, s ⊆ s' → Known s' b? → P s' (f b?)) :
    P s (match item? with
      | some x => do f (← pure (some (← part x)))
      | none => do f (← pure none)) := by
  cases item? with
  | none => exact hf s none .rfl known_none
  | some x =>
    exact hP.bind (hpart x (known_some.mp hitem)) fun s' b hs hb =>
      hf s' (some b) hs (known_some.mpr hb)

omit hP

mutual

theorem evaluate (hP : Hosted @P) (hS : Sessional @P) :
    ∀ (e : Expr) {s : Set Node} {frame : Frame}, Known s frame → P s (evaluate frame e)
  | .undefined, _, _, _ | .none, _, _, _ | .boolean _, _, _, _ | .integer _, _, _, _
  | .float _, _, _, _ | .string _, _, _, _ | .typed _, _, _, _ => hP.pure (by simp)
  | .arguments, _, _, h => hP.pure (by simpa using (known_frame.mp h).2)
  | .receiver, _, _, h => hP.pure (known_frame.mp h).1
  | .iterable _ _ items lengthFault faults, _, _, h => by
    refine hP.bind (evaluateAll hP hS items h) fun s₁ items hs₁ hitems => ?_
    refine hP.bind (evaluateOption hP hS lengthFault (h.mono hs₁)) fun s₂ fault? hs₂ hfault => ?_
    have hs₁₂ := hs₁.trans hs₂
    refine hP.bind (evaluateFaults hP hS faults (h.mono hs₁₂)) fun s₃ faults hs₃ _ => ?_
    refine hP.optional (hfault.mono hs₃) (fun _ => hP.toValue) fun s₄ fault? hs₄ _ => ?_
    refine hP.bind hS.fresh fun s₅ id hs₅ _ => ?_
    have hitems := hitems.mono (hs₂.trans (hs₃.trans (hs₄.trans hs₅)))
    exact hP.map (hP.toValues hitems) (by simp)
  | .function _ _, _, _, _ => hP.map hS.fresh (by simp)
  | .builtin _, _, _, _ => hP.map hS.fresh (by simp)
  | .variable name, _, _, _ =>
    hP.map (hS.reads _ fun _ hw => hw.bindings.find? name) fun _ _ _ hitem =>
      hitem.getD known_missing
  | .assign name value, _, _, h =>
    hP.bind (evaluate hP hS value h) fun s₁ item hs₁ hitem =>
      hP.map (hS.setVariable name hitem) fun _ _ hs₂ _ => hitem.mono hs₂
  | .discard name, _, _, h => by
    refine hP.map (hS.aside ⟨fun _ => rfl, fun _ => rfl, fun _ => rfl, fun _ hw => ?_⟩) (by simp)
    exact hw.setBindings (hw.bindings.erase name)
  | .argument position, _, _, h => by
    refine hP.bind (evaluate hP hS position h) fun s₁ item hs₁ _ => ?_
    split
    · refine hP.pure (known_value_item.mpr ?_)
      split
      · exact (known_frame.mp (h.mono hs₁)).2.argumentAt _
      · exact known_undefined
    · exact hP.stuck _
  | .choose condition consequent alternative, _, _, h =>
    hP.bind (evaluate hP hS condition h) fun _ _ hs _ =>
      has_ite (evaluate hP hS consequent (h.mono hs)) (evaluate hP hS alternative (h.mono hs))
  | .sequence parts, _, _, h =>
    hP.map (evaluateAll hP hS parts h) fun _ _ _ hitems => hitems.getLastD known_missing
  | .attempt body, _, _, h => by
    refine hP.bind (hP.attempt (evaluate hP hS body h)) fun _ result _ hresult => ?_
    cases result with
    | ok item => exact hP.pure (known_ok.mp hresult)
    | error e => exact hP.pure (by simp [describeFailure])
  | .visit container body, _, _, h => by
    refine hP.bind (evaluate hP hS container h) fun s₁ item hs₁ hitem => ?_
    refine hP.onValue hitem fun container hcontainer => ?_
    refine hP.map (hP.holding _ (hP.supplied.visitAll hcontainer fun s₂ v key hs₂ hv => ?_))
      fun _ _ _ houtcome => known_describeOutcome houtcome
    have hreceiver := (known_frame.mp (h.mono (hs₁.trans hs₂))).1
    refine hP.bind (hP.holding _ (evaluate hP hS body ?_)) fun s₃ answer _ hanswer => ?_
    · exact known_frame.mpr ⟨hreceiver, by simp [hv]⟩
    · split
      · exact hP.pure hanswer
      · exact hP.pure known_proceed
  | .fold container body initial, _, _, h => by
    refine hP.bind (evaluate hP hS container h) fun s₁ item hs₁ hitem => ?_
    refine hP.onValue hitem fun container hcontainer => hP.holding _ ?_
    refine hP.bind (evaluateOption hP hS initial (h.mono hs₁)) fun s₂ initial? hs₂ hinitial => ?_
    refine hP.optional hinitial (fun _ => hP.toValue) fun s₃ initial? hs₃ hinitial => ?_
    have hs := hs₁.trans (hs₂.trans hs₃)
    refine hP.map (hP.supplied.reduceWith (fun s₄ acc v key ordinal hs₄ hacc hv => ?_) hinitial
      (hcontainer.mono (hs₂.trans hs₃))) fun _ _ _ hfolded => known_value_item.mpr hfolded
    have hreceiver := (known_frame.mp (h.mono (hs.trans hs₄))).1
    refine hP.bind (hP.holding _ (evaluate hP hS body ?_)) fun s₅ answer hs₅ hanswer => ?_
    · exact known_frame.mpr ⟨hreceiver, by simp [hacc, hv]⟩
    · split
      · exact hP.pure hanswer
      · exact hP.map (hP.toValue hanswer) fun _ _ hs₆ hv =>
          known_pair.mpr ⟨hacc.mono (hs₅.trans hs₆), hv⟩
  | .configured settings body, _, _, h => hS.within _ (evaluate hP hS body h)
  | .recorded body, _, _, h => by
    refine hP.bind (hP.collectingReports hS (evaluate hP hS body h)) fun s₁ answer _ hanswer => ?_
    obtain ⟨result, seen⟩ := answer
    have hdescribed (s₂ : Set Node) (v : Value) (hv : Known s₂ v) :
        Known s₂ (Item.value (.map [("result", v),
          ("seen", .array (seen.map describeDiagnostic))])) := by
      simpa [hv] using known_array_value.mp (known_describeDiagnostics seen)
    cases result with
    | ok item =>
      exact hP.map (hP.toValue (known_ok.mp (known_pair.mp hanswer).1)) fun s₂ v _ =>
        hdescribed s₂ v
    | error e => exact hP.map (hP.pure (known_string _)) fun s₂ v _ => hdescribed s₂ v
  | .unrecorded body, _, _, h => hS.within _ (evaluate hP hS body h)
  | .declare destination registry
      ⟨name, parent, initializer, properties, shared, methods, operations⟩, _, _, h => by
    refine hP.bind (evaluateOption hP hS registry h) fun s₁ registry hs₁ _ => hP.holding _ ?_
    refine hP.bind (evaluateOption hP hS parent (h.mono hs₁)) fun s₂ parent hs₂ hparent => ?_
    refine hP.optional hparent (fun _ => hP.toClass) fun s₃ parent hs₃ hparent => hP.holding _ ?_
    have hs := hs₁.trans (hs₂.trans hs₃)
    refine hP.bind (evaluateEntries hP hS properties (h.mono hs)) fun s₄ properties hs₄ hown => ?_
    refine hP.bind (hP.holding _ (evaluateEntries hP hS shared (h.mono (hs.trans hs₄))))
      fun s₅ shared hs₅ hshared => ?_
    exact hP.declareFrom hS destination registry
      (known_plan.mpr ⟨hparent.mono (hs₄.trans hs₅), hown.mono hs₅, hshared⟩)
  | .addMember kind cls name body, _, _, h => by
    refine hP.bind (evaluate hP hS cls h) fun s₁ item hs₁ hitem => hP.onClass hitem fun c hc => ?_
    cases kind with
    | method => exact hP.map (hS.addMethod name body hc) (by simp)
    | operation => exact hP.map (hS.addOperation name body hc) (by simp)
  | .perform form operands, _, _, h =>
    hP.bind (evaluateAll hP hS operands h) fun _ _ _ hitems => hP.act hS form hitems

theorem evaluateAll (hP : Hosted @P) (hS : Sessional @P) :
    ∀ (expressions : List Expr) {s : Set Node} {frame : Frame}, Known s frame →
      P s (evaluateAll frame expressions)
  | [], _, _, _ => hP.pure known_nil
  | e :: rest, _, _, h =>
    hP.bind (evaluate hP hS e h) fun _ _ hs₁ hitem =>
      hP.map (hP.holding _ (evaluateAll hP hS rest (h.mono hs₁))) fun _ _ hs₂ hitems =>
        known_cons.mpr ⟨hitem.mono hs₂, hitems⟩

theorem evaluateOption (hP : Hosted @P) (hS : Sessional @P) :
    ∀ (e? : Option Expr) {s : Set Node} {frame : Frame}, Known s frame →
      P s (evaluateOption frame e?)
  | .none, _, _, _ => hP.pure known_none
  | some e, _, _, h => hP.map (evaluate hP hS e h) (by simp)

theorem evaluateEntries (hP : Hosted @P) (hS : Sessional @P) :
    ∀ (entries : List (String × Expr)) {s : Set Node} {frame : Frame}, Known s frame →
      P s (evaluateEntries frame entries)
  | [], _, _, _ => hP.pure known_nil
  | (_, e) :: rest, _, _, h =>
    hP.bind (evaluate hP hS e h) fun _ _ hs₁ hitem => hP.onValue hitem fun _ hv =>
      hP.map (hP.holding _ (evaluateEntries hP hS rest (h.mono hs₁))) fun _ _ hs₂ hentries =>
        known_cons.mpr ⟨known_pair.mpr ⟨known_nothing _, hv.mono hs₂⟩, hentries⟩

theorem evaluateFaults (hP : Hosted @P) (hS : Sessional @P) :
    ∀ (faults : List (Nat × Expr)) {s : Set Node} {frame : Frame}, Known s frame →
      P s (evaluateFaults frame faults)
  | [], _, _, _ => hP.pure known_nil
  | (_, e) :: rest, _, _, h =>
    hP.bind (evaluate hP hS e h) fun _ _ hs₁ hitem => hP.onValue hitem fun _ hv =>
      hP.map (evaluateFaults hP hS rest (h.mono hs₁)) fun _ _ hs₂ hfaults =>
        known_cons.mpr ⟨known_pair.mpr ⟨known_nothing _, hv.mono hs₂⟩, hfaults⟩

end

end Hosted

/-- **Hosts of every fuel have what goes through computations.** -/
theorem Closed.hostWithin (hP : Closed @P) (hS : Sessional @P) (fuel : Nat) :
    @Hosted (Script.hostWithin fuel) @P := by
  have hforeign {s : Set Node} (i : InstanceRef) : (Script.noElements i).Has @P s :=
    hP.ofArray known_undefined (known_array.mpr (by simp))
  induction fuel with
  | zero =>
    exact @Hosted.mk (Script.hostWithin 0) _ hP hS.request (fun _ _ => hP.stuck _)
      (fun _ _ _ => hP.stuck _) fun _ => hforeign _
  | succ fuel ih =>
    let _ := Script.hostWithin fuel
    refine @Hosted.mk (Script.hostWithin (fuel + 1)) _ hP hS.request
      (fun hf hargs => ih.functionCall hf hargs) (fun body frame h => ?_) fun _ => hforeign _
    exact hP.holding _ (hP.bind (ih.evaluate hS body h) fun _ _ _ hitem => hP.toValue hitem)

end Eval

end DynamicObjects
