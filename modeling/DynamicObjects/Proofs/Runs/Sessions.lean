import DynamicObjects.Proofs.Closure.Scripts
import DynamicObjects.Proofs.Runs.References
import DynamicObjects.Session

/-!
# Sessions are runs

A computation acts when all that it does to classes and instances is done by steps, also
when it fails. The steps act on what is known when they are done: what was known before, and
what has been handed out since. So where only handed out references were known at first,
no other ones are known later, neither to the world nor from the answer.

The operations on classes and instances act, and acting goes through every way to put
computations together. So every expression acts, whatever the bodies do that it runs, and
what holds of all runs holds before, after and in the middle of every call.

* `Trail`: steps that make no reference up on their way.
* `Eval.Acts`: the computations that act.
* `Eval.closed_acts`, `Eval.sessional_acts`: acting goes through.
* `acts_evaluate`: expressions act.
* `Session.exists_run`: the world that a session leaves is the world of a run, and its
  history makes no reference up.
-/

namespace DynamicObjects

open Eval Script

variable {α β : Type} [Mentions α] [Mentions β] {s : Set Node} {w after : World}
  {history later : List Event} {event : Event}

/-! ## Handing out -/

/-- The references that have been handed out by the end of a history. -/
def handedOut (history : List Event) : Set Node := {n | HandedOut history n}

theorem handedOut_append (later history : List Event) :
    handedOut history ⊆ handedOut (later ++ history) :=
  fun _ hn => HandedOut.append hn later

/-- A history that makes no reference up has handed out all that a world mentions. -/
structure Backs (history : List Event) (w : World) : Prop where
  grounded : Grounded history
  known : Known (handedOut history) w

theorem backs_nil : Backs [] {} := by
  refine ⟨.nil, known_world.mpr ⟨?_, ?_, ?_, known_nil⟩⟩ <;>
    exact known_array.mpr fun _ h => nomatch h

/-- A row of steps that goes on with a history and makes no reference up on its way: the history
so far has handed out all that the world mentions where it begins, and after every step. -/
inductive Trail (history : List Event) (w : World) : List Event → World → Prop
  | refl (backs : Backs history w) : Trail history w [] w
  | step {events : List Event} {event : Event} {middle after : World}
      (trail : Trail history w events middle) (h : Step middle event after)
      (backs : Backs (event :: (events ++ history)) after) : Trail history w (event :: events) after

namespace Trail

variable {events : List Event} {middle : World}

theorem backs (trail : Trail history w events after) : Backs (events ++ history) after := by
  cases trail with
  | refl backs => exact backs
  | step _ _ backs => exact backs

theorem trans (first : Trail history w events middle)
    (second : Trail (events ++ history) middle later after) :
    Trail history w (later ++ events) after := by
  induction second with
  | refl => exact first
  | step _ h backs ih =>
    refine ih.step h ?_
    rw [List.append_assoc]
    exact backs

theorem path (trail : Trail history w events after) : Path w events after := by
  induction trail with
  | refl => exact .refl
  | step _ h _ ih => exact ih.step h

/-- A trail from the start is a run. -/
theorem run (trail : Trail [] {} history w) : Run history w := trail.path

end Trail

/-- A reply whose world steps lead to. If all that is known was handed out at first, the
steps make no reference up, and what is answered has been handed out by then. -/
def Reply.Follows (s : Set Node) (history : List Event) (w : World) : Reply α → Prop
  | .done a after => ∃ later, Path w later after ∧
      (s ⊆ handedOut history → Backs history w →
        Trail history w later after ∧ Known (handedOut (later ++ history)) a)
  | .failed _ after => ∃ later, Path w later after ∧
      (s ⊆ handedOut history → Backs history w → Trail history w later after)
  | .stuck _ => True

namespace Reply

theorem follows_done {a : α} (ha : ∀ {s'}, s ⊆ s' → Known s' w → Known s' a) :
    (Reply.done a w).Follows s history w :=
  ⟨[], .refl, fun hs hback => ⟨.refl hback, ha hs hback.known⟩⟩

theorem follows_failed (e : Failure) : (Reply.failed e w : Reply α).Follows s history w :=
  ⟨[], .refl, fun _ hback => .refl hback⟩

/-- The reply of a computation that does one step. -/
theorem follows_step {a : α} (hstep : Step w event after) (hrefers : ∀ n ∈ event.refersTo, n ∈ s)
    (hknown : ∀ {s'}, s ⊆ s' → (∀ n ∈ event.makes?, n ∈ s') → Known s' w →
      Known s' after ∧ Known s' a) : (Reply.done a after).Follows s history w := by
  refine ⟨[event], Path.refl.step hstep, fun hs hback => ?_⟩
  have hmore : handedOut history ⊆ handedOut (event :: history) := handedOut_append [event] history
  obtain ⟨hafter, ha⟩ := hknown (hs.trans hmore) (fun n hn => handedOut_cons.mpr (.inl hn))
    (hback.known.mono hmore)
  have hgrounded : Grounded (event :: history) :=
    .cons (fun n hn => hs (hrefers n hn)) hback.grounded
  exact ⟨.step (.refl hback) hstep ⟨hgrounded, hafter⟩, ha⟩

/-- What is done to something that is not there leaves classes and instances alone. -/
theorem follows_step_or {a : α} {stored : Prop} (hstep : stored → Step w event after)
    (helsewhere : ¬stored → Step w .elsewhere after) (hrefers : ∀ n ∈ event.refersTo, n ∈ s)
    (hknown : ∀ {s'}, s ⊆ s' → Known s' w → Known s' after ∧ Known s' a) :
    (Reply.done a after).Follows s history w := by
  by_cases h : stored
  · exact follows_step (hstep h) hrefers fun hs _ => hknown hs
  · exact follows_step (helsewhere h) (fun _ hn => nomatch hn) fun hs _ => hknown hs

end Reply

/-- All that a computation does to classes and instances is done by steps that act on what
is known, whatever its scope and wherever it starts, and also when it fails. -/
def Eval.Acts (s : Set Node) (x : Eval α) : Prop :=
  ∀ scope history w, (x scope w).Follows s history w

namespace Eval

theorem acts_mono {s' : Set Node} {x : Eval α} (hx : x.Acts s) (hs : s ⊆ s') : x.Acts s' := by
  intro scope history w
  have hfollows := hx scope history w
  cases hreply : x scope w with
  | stuck reason => trivial
  | failed e after | done a after =>
    rw [hreply] at hfollows
    obtain ⟨later, path, hback⟩ := hfollows
    exact ⟨later, path, fun hs' => hback (hs.trans hs')⟩

theorem acts_bind {x : Eval α} {f : α → Eval β} (hx : x.Acts s)
    (hf : ∀ s' a, s ⊆ s' → Known s' a → (f a).Acts s') : (x >>= f).Acts s := by
  intro scope history w
  have hfirst := hx scope history w
  rw [bind_apply]
  cases hreply : x scope w with
  | stuck reason => trivial
  | failed e after =>
    rw [hreply] at hfirst
    exact hfirst
  | done a middle =>
    rw [hreply] at hfirst
    obtain ⟨events, path, hback⟩ := hfirst
    -- what is known in the middle: all that has been handed out, if it all began so
    let known : Set Node :=
      {n | s ⊆ handedOut history → Backs history w → n ∈ handedOut (events ++ history)}
    have hs : s ⊆ known := fun n hn hs _ => handedOut_append events history (hs hn)
    have ha : Known known a := fun n hn hs hw => (hback hs hw).2 n hn
    have hsecond := hf known a hs ha scope (events ++ history) middle
    dsimp only
    cases hreply' : f a scope middle with
    | stuck reason => trivial
    | failed e after =>
      rw [hreply'] at hsecond
      obtain ⟨later, path', hback'⟩ := hsecond
      refine ⟨later ++ events, path.trans path', fun hs hw => ?_⟩
      have first := (hback hs hw).1
      exact first.trans (hback' (fun n hn => hn hs hw) first.backs)
    | done b after =>
      rw [hreply'] at hsecond
      obtain ⟨later, path', hback'⟩ := hsecond
      refine ⟨later ++ events, path.trans path', fun hs hw => ?_⟩
      have first := (hback hs hw).1
      obtain ⟨second, hb⟩ := hback' (fun n hn => hn hs hw) first.backs
      rw [List.append_assoc]
      exact ⟨first.trans second, hb⟩

theorem acts_attempt {x : Eval α} (hx : x.Acts s) : x.attempt.Acts s := by
  intro scope history w
  have hfollows := hx scope history w
  rw [attempt]
  cases hreply : x scope w with
  | stuck reason => trivial
  | failed e after =>
    rw [hreply] at hfollows
    obtain ⟨later, path, hback⟩ := hfollows
    exact ⟨later, path, fun hs hw => ⟨hback hs hw, known_error e⟩⟩
  | done a after =>
    rw [hreply] at hfollows
    obtain ⟨later, path, hback⟩ := hfollows
    exact ⟨later, path, fun hs hw => (hback hs hw).imp_right known_ok.mpr⟩

theorem acts_pure {a : α} (ha : Known s a) : (pure a : Eval α).Acts s :=
  fun _ _ _ => Reply.follows_done fun hs _ => ha.mono hs

theorem acts_fail (e : Failure) : (fail e : Eval α).Acts s := fun _ _ _ => Reply.follows_failed e

theorem acts_reads {f : World → α} (hf : ∀ {s' w}, s ⊆ s' → Known s' w → Known s' (f w)) :
    (reads f).Acts s :=
  fun _ _ _ => Reply.follows_done hf

/-- What leaves classes and instances alone acts. -/
theorem acts_elsewhere {x : Eval α} (h : ∀ scope w, ∃ a after, x scope w = .done a after ∧
    Step w .elsewhere after ∧ ∀ {s'}, s ⊆ s' → Known s' w → Known s' after ∧ Known s' a) :
    x.Acts s := by
  intro scope history w
  obtain ⟨a, after, hdone, hstep, hknown⟩ := h scope w
  rw [hdone]
  exact Reply.follows_step hstep (fun _ hn => nomatch hn) fun hs _ => hknown hs

end Eval

/-! ## Operations on classes and instances -/

theorem Known.inheritTables {state : ClassState} (h : Known s state) : Known s state.inherit := by
  obtain ⟨-, hproperties, hshared, -⟩ := known_classState.mp h
  exact known_classState.mpr ⟨known_none, hproperties.inherit, hshared.inherit, known_nil⟩

theorem Known.build {plan : ClassPlan} (hplan : Known s plan) {inherited : ClassState}
    (h : Known s inherited) (initializer : Option Routine) (methods operations : List Routine) :
    Known s (ClassState.build plan inherited initializer methods operations) := by
  obtain ⟨hparent, hproperties, hshared⟩ := known_plan.mp hplan
  obtain ⟨-, hproperties', hshared', -⟩ := known_classState.mp h
  exact known_classState.mpr ⟨hparent, hproperties'.declareValues hproperties,
    hshared'.declareValues hshared, known_nil⟩

theorem Known.started (h : Known s w) {plan : ClassPlan} (hplan : Known s plan) :
    Known s (w.started plan) := by
  refine hplan.build ?_ _ _ _
  split
  · exact (h.classState _).inheritTables
  · exact known_classState_empty

theorem acts_declareClass {plan : ClassPlan} (hplan : Known s plan) :
    (declareClass plan).Acts s := by
  intro scope history w
  have hdone := declareClass_apply plan scope w
  rw [hdone]
  refine Reply.follows_step (.declare hdone) (fun n hn => ?_) fun hs hmade hw => ⟨?_, ?_⟩
  · obtain ⟨parent, hparent, rfl⟩ := List.mem_map.mp hn
    have hknown := known_option.mp (known_plan.mp hplan).1 parent (Option.mem_toList.mp hparent)
    exact known_cls_iff.mp hknown
  · exact (hw.addClass (hw.started (hplan.mono hs))).world_congr rfl rfl rfl rfl
  · exact known_cls_iff.mpr (hmade _ rfl)

theorem acts_constructBare {c : ClassRef} (hc : Known s c) : c.constructBare.Acts s := by
  intro scope history w
  rw [constructBare_eq]
  refine Reply.follows_step (.construct (constructBare_eq c scope w)) (fun n hn => ?_)
    fun hs hmade hw => ⟨?_, ?_⟩
  · rw [List.mem_singleton.mp hn]
    exact known_cls_iff.mp hc
  · have hproperties := (known_classState.mp (hw.classState c)).2.1.all
    exact hw.addInstance (known_instanceState.mpr ⟨hproperties, known_nil, known_nil⟩)
  · exact known_inst_iff.mpr ⟨hmade _ rfl, known_cls_iff.mp (hc.mono hs)⟩

/-- What is not there is not changed. -/
theorem World.classes_setClass_of_le (w : World) {c : ClassRef}
    (h : ¬c.index < w.classes.size) (state : ClassState) :
    (w.setClass c state).classes = w.classes := by
  rw [World.setClass, Array.setIfInBounds_eq_of_size_le (Nat.le_of_not_lt h)]

theorem World.instances_setInstance_of_le (w : World) {i : InstanceRef}
    (h : ¬i.index < w.instances.size) (state : InstanceState) :
    (w.setInstance i state).instances = w.instances := by
  rw [World.setInstance, Array.setIfInBounds_eq_of_size_le (Nat.le_of_not_lt h)]

section Classes

variable {c : ClassRef} (name : String) (hc : Known s c)
include hc

theorem mem_of_refersTo_cls : ∀ n ∈ [Node.cls c], n ∈ s := by
  intro n hn
  rw [List.mem_singleton.mp hn]
  exact known_cls_iff.mp hc

theorem acts_addMethod (body : Script.Expr) : (c.addMethod name body).Acts s := by
  intro scope history w
  have hdone : c.addMethod name body scope w = .done () _ := rfl
  refine Reply.follows_step_or (fun hstored => .addMethod hstored hdone)
    (fun hstored => .elsewhere (World.classes_setClass_of_le _ hstored _) rfl (Nat.le_succ _))
    (mem_of_refersTo_cls hc) fun hs hw => ⟨?_, known_nothing _⟩
  have hstate := known_classState.mp (hw.classState c)
  exact (hw.setNextId _).setClass c (known_classState.mpr hstate)

theorem acts_addOperation (body : Script.Expr) : (c.addOperation name body).Acts s := by
  intro scope history w
  have hdone : c.addOperation name body scope w = .done () _ := rfl
  refine Reply.follows_step_or (fun hstored => .addOperation hstored hdone)
    (fun hstored => .elsewhere (World.classes_setClass_of_le _ hstored _) rfl (Nat.le_succ _))
    (mem_of_refersTo_cls hc) fun hs hw => ⟨?_, known_nothing _⟩
  obtain ⟨hparent, hproperties, hshared, hbound⟩ := known_classState.mp (hw.classState c)
  exact (hw.setNextId _).setClass c
    (known_classState.mpr ⟨hparent, hproperties, hshared, hbound.erase name⟩)

theorem acts_setShared {value : Value} (hvalue : Known s value) :
    (c.setShared name value).Acts s := by
  intro scope history w
  have hdone : c.setShared name value scope w = .done () _ := rfl
  refine Reply.follows_step_or (fun hstored => .setShared hstored hdone)
    (fun hstored => .elsewhere (World.classes_setClass_of_le _ hstored _) rfl (Nat.le_refl _))
    (mem_of_refersTo_cls hc) fun hs hw => ⟨?_, known_nothing _⟩
  obtain ⟨hparent, hproperties, hshared, hbound⟩ := known_classState.mp (hw.classState c)
  exact hw.setClass c (known_classState.mpr
    ⟨hparent, hproperties, hshared.declare (hvalue.mono hs) name, hbound⟩)

theorem acts_getOperation : (c.getOperation name).Acts s := by
  intro scope history w
  cases hreply : c.getOperation name scope w with
  | stuck reason => trivial
  | failed e after => exact getOperation_failed hreply ▸ Reply.follows_failed e
  | done bound after =>
    refine Reply.follows_step_or (fun hstored => .getOperation hstored hreply)
      (fun hstored => ?_) (mem_of_refersTo_cls hc) fun hs hw => ?_
    · rcases getOperation_done hreply with ⟨rfl, -⟩ | ⟨routine, -, -, -, rfl⟩
      · exact .elsewhere rfl rfl (Nat.le_refl _)
      · exact .elsewhere (World.classes_setClass_of_le _ hstored _) rfl (Nat.le_succ _)
    · obtain ⟨hparent, hproperties, hshared, hbound⟩ := known_classState.mp (hw.classState c)
      rcases getOperation_done hreply with ⟨rfl, hfind⟩ | ⟨routine, -, -, rfl, rfl⟩
      · exact ⟨hw, known_option.mp (hbound.find? name) bound hfind⟩
      · have hmade : Known _ (⟨w.nextId, c, routine⟩ : BoundOperation) :=
          known_boundOperation.mpr (hc.mono hs)
        exact ⟨(hw.setNextId _).setClass c (known_classState.mpr
          ⟨hparent, hproperties, hshared, hbound.insert hmade⟩), hmade⟩

end Classes

section Instances

variable {i : InstanceRef} (name : String) (hi : Known s i)
include hi

theorem mem_of_refersTo_inst : ∀ n ∈ [Node.inst i], n ∈ s := by
  intro n hn
  rw [List.mem_singleton.mp hn]
  exact (known_inst_iff.mp hi).1

theorem acts_set {value : Value} (hvalue : Known s value) : (i.set name value).Acts s := by
  intro scope history w
  have hdone : i.set name value scope w = .done () _ := rfl
  refine Reply.follows_step_or (fun hstored => .set hstored hdone)
    (fun hstored => .elsewhere rfl (World.instances_setInstance_of_le _ hstored _) (Nat.le_refl _))
    (mem_of_refersTo_inst hi) fun hs hw => ⟨?_, known_nothing _⟩
  obtain ⟨hproperties, hbound, hproxies⟩ := known_instanceState.mp (hw.instanceState i)
  exact hw.setInstance i (known_instanceState.mpr
    ⟨hproperties.insert (hvalue.mono hs), hbound, hproxies⟩)

theorem acts_bindMember (appendsReceiver : Bool) : (i.bind name appendsReceiver).Acts s := by
  intro scope history w
  cases hreply : i.bind name appendsReceiver scope w with
  | stuck reason => trivial
  | failed e after => exact bind_failed hreply ▸ Reply.follows_failed e
  | done bound after =>
    refine Reply.follows_step_or (fun hstored => .bind hstored hreply)
      (fun hstored => ?_) (mem_of_refersTo_inst hi) fun hs hw => ?_
    · rcases bind_done hreply with ⟨rfl, -⟩ | ⟨-, -, -, rfl⟩
      · exact .elsewhere rfl rfl (Nat.le_refl _)
      · exact .elsewhere rfl (World.instances_setInstance_of_le _ hstored _) (Nat.le_succ _)
    · obtain ⟨hproperties, hbound, hproxies⟩ := known_instanceState.mp (hw.instanceState i)
      rcases bind_done hreply with ⟨rfl, hfind⟩ | ⟨-, -, rfl, rfl⟩
      · exact ⟨hw, known_option.mp (hbound.find? _) bound hfind⟩
      · have hmade : Known _ (⟨w.nextId, i, name, appendsReceiver⟩ : BoundMethod) :=
          known_boundMethod.mpr (hi.mono hs)
        exact ⟨(hw.setNextId _).setInstance i (known_instanceState.mpr
          ⟨hproperties, hbound.insert hmade, hproxies⟩), hmade⟩

theorem acts_getSuper {ancestor : ClassRef} (hancestor : Known s ancestor) :
    (i.getSuper ancestor).Acts s := by
  intro scope history w
  cases hreply : i.getSuper ancestor scope w with
  | stuck reason => trivial
  | failed e after => exact getSuper_failed hreply ▸ Reply.follows_failed e
  | done proxy after =>
    refine Reply.follows_step_or (fun hstored => .getSuper hstored hreply)
      (fun hstored => ?_) (fun n hn => ?_) fun hs hw => ?_
    · rcases getSuper_done hreply with ⟨-, ⟨rfl, -⟩ | ⟨-, -, rfl⟩⟩
      · exact .elsewhere rfl rfl (Nat.le_refl _)
      · exact .elsewhere rfl (World.instances_setInstance_of_le _ hstored _) (Nat.le_succ _)
    · rcases List.mem_cons.mp hn with rfl | hn
      · exact (known_inst_iff.mp hi).1
      · exact mem_of_refersTo_cls hancestor n hn
    · obtain ⟨hproperties, hbound, hproxies⟩ := known_instanceState.mp (hw.instanceState i)
      rcases getSuper_done hreply with ⟨-, ⟨rfl, hfind⟩ | ⟨-, rfl, rfl⟩⟩
      · exact ⟨hw, known_option.mp (hproxies.find? _) proxy hfind⟩
      · have hmade : Known _ (⟨w.nextId, i, ancestor⟩ : SuperProxy) :=
          known_proxy.mpr ⟨hi.mono hs, hancestor.mono hs⟩
        exact ⟨(hw.setNextId _).setInstance i (known_instanceState.mpr
          ⟨hproperties, hbound, hproxies.insert hmade⟩), hmade⟩

end Instances

/-! ## Everything that scripts do -/

namespace Eval

theorem acts_report (level : Level) (message : String) : (report level message).Acts s := by
  refine acts_elsewhere fun scope w => ⟨(), _, report_apply level message scope w, ?_⟩
  cases scope.recording with
  | false => exact ⟨.elsewhere rfl rfl (Nat.le_refl _), fun _ hw => ⟨hw, known_nothing _⟩⟩
  | true =>
    exact ⟨.elsewhere rfl rfl (Nat.le_refl _),
      fun _ hw => ⟨hw.world_congr rfl rfl rfl rfl, known_nothing _⟩⟩

theorem acts_reporting {x : Eval α} (hx : x.Acts s) : (reporting x).Acts s := by
  refine acts_bind (acts_attempt hx) fun s' result hs hresult => ?_
  cases result with
  | ok a => exact acts_pure (known_ok.mp hresult)
  | error e =>
    have hscope : Eval.scope.Acts s' := fun _ _ _ => Reply.follows_done fun _ _ => known_nothing _
    refine acts_bind hscope fun s'' scope _ _ => ?_
    dsimp only
    split
    · exact acts_bind (acts_report _ _) fun _ _ _ _ => acts_fail e
    · exact acts_fail e

/-- Acting goes through every way to put computations together. -/
theorem closed_acts : Closed @Acts where
  mono := acts_mono
  pure := acts_pure
  fail := acts_fail
  stuck _ := fun _ _ _ => trivial
  bind := acts_bind
  attempt := acts_attempt
  reporting := acts_reporting
  holding _ hx := fun _ history w => hx _ history w
  reads _ _ hf := acts_reads fun {_ w} hs _ => (hf w).mono hs
  properties _ := acts_reads fun _ hw => hw.properties _
  isAlive _ := fun _ _ _ => Reply.follows_done fun _ _ => known_nothing _
  report _ message := acts_report _ message

/-- All that scripts do to a session is done by steps. -/
theorem sessional_acts : Sessional @Acts where
  within f hx := fun scope history w => hx (f scope) history w
  scope := fun _ _ _ => Reply.follows_done fun _ _ => known_nothing _
  exception _ _ := acts_report _ _
  reads _ hf := acts_reads hf
  aside h := acts_elsewhere fun _ w => ⟨(), _, rfl,
    .elsewhere (h.classes w) (h.instances w) (Nat.le_of_eq (h.nextId w).symm),
    fun hs hw => ⟨h.known hs hw, known_nothing _⟩⟩
  fresh := acts_elsewhere fun _ _ => ⟨_, _, rfl, .elsewhere rfl rfl (Nat.le_succ _),
    fun _ hw => ⟨hw.setNextId _, known_nothing _⟩⟩
  declareClass := acts_declareClass
  addMethod name body hc := acts_addMethod name hc body
  addOperation name body hc := acts_addOperation name hc body
  setShared name _ hc hvalue := acts_setShared name hc hvalue
  getOperation name hc := acts_getOperation name hc
  constructBare := acts_constructBare
  set name _ hi hvalue := acts_set name hi hvalue
  getSuper hi hancestor := acts_getSuper hi hancestor
  request name appendsReceiver hi := acts_bindMember name hi appendsReceiver

end Eval

/-- Expressions act, whatever they call. -/
theorem acts_evaluate (fuel : Nat) {frame : Frame} (hframe : Known s frame) (e : Expr) :
    (@evaluate (hostWithin fuel) frame e).Acts s :=
  @Hosted.evaluate _ (hostWithin fuel) (closed_acts.hostWithin sessional_acts fuel)
    sessional_acts e s frame hframe

namespace Session

/-- A step of a session does steps that make no reference up. -/
theorem step_path (history : List Event) (w : World) (e : Expr) :
    ∃ later, Path w later (step w e).1 ∧
      (Backs history w → Trail history w later (step w e).1) := by
  have hframe : Known (handedOut history) topFrame := by simp [topFrame]
  have hopened : (do modify opened; @evaluate host topFrame e).Acts (handedOut history) := by
    refine acts_bind (sessional_acts.aside (.of_eq ?_ ?_ ?_ ?_ ?_)) fun s' _ hs _ =>
      acts_evaluate nesting (hframe.mono hs) e
    all_goals exact fun _ => rfl
  have hfollows := hopened {} history w
  rw [bind_of_done (modify_apply opened {} w)] at hfollows
  rw [step]
  cases hreply : @evaluate host topFrame e {} (opened w) with
  | stuck reason => exact ⟨[], .refl, .refl⟩
  | failed e after =>
    rw [hreply] at hfollows
    obtain ⟨later, path, hback⟩ := hfollows
    exact ⟨later, path, hback .rfl⟩
  | done a after =>
    rw [hreply] at hfollows
    obtain ⟨later, path, hback⟩ := hfollows
    exact ⟨later, path, fun hw => (hback .rfl hw).1⟩

/-- A step of a session goes on with the run so far. -/
theorem step_run (run : Run history w) (e : Expr) :
    ∃ later, Run (later ++ history) (step w e).1 := by
  obtain ⟨later, path, -⟩ := step_path history w e
  exact ⟨later, run.trans path⟩

theorem run_trail {history : List Event} {w : World} (backs : Backs history w)
    (script : List Expr) : ∃ later, Trail history w later (run w script).1 := by
  induction script generalizing history w with
  | nil => exact ⟨[], .refl backs⟩
  | cons e rest ih =>
    obtain ⟨first, -, htrail⟩ := step_path history w e
    have trail := htrail backs
    obtain ⟨later, trail'⟩ := ih trail.backs
    exact ⟨later ++ first, trail.trans trail'⟩

/-- Sessions make no reference up on their way. -/
theorem exists_trail (script : List Expr) :
    ∃ history, Trail [] {} history (run {} script).1 :=
  run_trail backs_nil script

/-- **Sessions are runs.** Whatever a session evaluates, the world that it leaves is the
world of a run, and all references in it and in its history have been handed out. -/
theorem exists_run (script : List Expr) :
    ∃ history, Run history (run {} script).1 ∧ Backs history (run {} script).1 := by
  obtain ⟨history, trail⟩ := exists_trail script
  have backs := trail.backs
  rw [List.append_nil] at backs
  exact ⟨history, trail.run, backs⟩

end Session

end DynamicObjects
