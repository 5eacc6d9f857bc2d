import DynamicObjects.Proofs.Instances.Requests
import DynamicObjects.Proofs.World.Liveness
import DynamicObjects.Script.Evaluate

/-!
# Receivers that are gone

A handle refuses to be called when its receiver is gone: the call fails before any body
runs, and changes nothing. The receiver is an instance for bound methods, for the functions
made of them and for proxies, and a class for bound operations.

A handle is no reason for its receiver to be alive, and neither is that the receiver keeps
the handle in order to hand it out again. So a call is refused exactly when nothing else
holds the receiver, and a call that is not refused runs the member, with the receiver held
meanwhile.

* `RefusesUnheld`: which calls are refused, handle by handle.
* `RunsHeld`, `HoldsFrames`: what the other calls run, and what is held meanwhile.
* `Step.sameHolders`: asking for a handle keeps nothing alive.
* `handles_refused_iff_unheld`: what calls of handles do in a run.
-/

namespace DynamicObjects

open Script

variable {α : Type} {w w' : World} {scope : Scope} {history : List Event}

/-! ## Calls -/

section Calls

variable [Host]

theorem callBound_eq (receiver : InstanceRef) (name : String) (appendsReceiver : Bool)
    (args : List Value) (scope : Scope) (w : World) :
    callBound receiver name appendsReceiver args scope w =
      if w.isAlive scope.held (.inst receiver) then
        match w.member? receiver.cls name with
        | some member =>
          member.invoke receiver receiver.cls
            (if appendsReceiver then args ++ [.inst receiver] else args)
            (scope.holding (.values [.inst receiver])) w
        | none => .failed (receiver.cls.unknownMember name) w
      else .failed (.detachedReceiver name) w := by
  simp only [callBound, Eval.bind_apply, Eval.isAlive_apply]
  split
  · simp only [Eval.bind_apply, Eval.reads_apply]
    cases w.member? receiver.cls name <;> rfl
  · rfl

theorem BoundOperation.call_eq (b : BoundOperation) (args : List Value) (scope : Scope)
    (w : World) :
    b.call args scope w =
      if w.isAlive scope.held (.cls b.cls) then
        Host.run b.operation.body ⟨.cls b.cls, args⟩ scope w
      else .failed (.detachedReceiver b.operation.name) w := by
  simp only [BoundOperation.call, Eval.bind_apply, Eval.isAlive_apply]
  split <;> rfl

namespace SuperProxy

/-- The name that the failure of a proxy tells. -/
def label (p : SuperProxy) : String := "super(" ++ p.cls.displayName ++ ")"

omit [Host] in
/-- What needs the instance behind a proxy goes on with it, or not at all. -/
theorem instance?_bind (p : SuperProxy) (f : InstanceRef → Eval α) (scope : Scope) (w : World) :
    (p.instance? >>= f) scope w =
      if w.isAlive scope.held (.inst p.receiver) then f p.receiver scope w
      else .failed (.detachedReceiver p.label) w := by
  simp only [instance?, Eval.bind_apply, Eval.isAlive_apply]
  cases w.isAlive scope.held (.inst p.receiver) <;> rfl

theorem call_eq (p : SuperProxy) (name : String) (args : List Value) {member : Member}
    (hmember : w.member? p.cls name = some member) :
    p.call name args scope w =
      if w.isAlive scope.held (.inst p.receiver) then
        member.invoke p.receiver p.cls args
          (scope.holding (.values [.inst p.receiver, .cls p.cls])) w
      else .failed (.detachedReceiver p.label) w := by
  rw [call, Eval.bind_of_done (Eval.reads_apply _ scope w), hmember]
  exact p.instance?_bind _ scope w

theorem runInitializer_eq (p : SuperProxy) (args : List Value) (scope : Scope) (w : World) :
    p.runInitializer args scope w =
      if w.isAlive scope.held (.inst p.receiver) then
        match (w.classState p.cls).initializer with
        | some routine => Host.run routine.body ⟨.inst p.receiver, args⟩ scope w
        | none => .done .undefined w
      else .failed (.detachedReceiver p.label) w := by
  rw [runInitializer, p.instance?_bind, Eval.bind_of_done (Eval.reads_apply _ scope w)]
  cases (w.classState p.cls).initializer <;> rfl

omit [Host] in
theorem getSuper_eq (p : SuperProxy) {parent : ClassRef}
    (hparent : (w.classState p.cls).parent = some parent) :
    p.getSuper scope w =
      if w.isAlive scope.held (.inst p.receiver) then p.receiver.getSuper parent scope w
      else .failed (.detachedReceiver p.label) w := by
  rw [getSuper, Eval.bind_of_done (Eval.reads_apply _ scope w), hparent]
  exact p.instance?_bind _ scope w

end SuperProxy

end Calls

/-! ## Refusals -/

/-- A call is refused for want of a receiver: whatever bodies do, it fails and leaves the
world as it was. -/
def Refused (call : Host → Eval α) (name : String) (scope : Scope) (w : World) : Prop :=
  ∀ host, call host scope w = .failed (.detachedReceiver name) w

/-- A call that looks whether its receiver is alive is refused exactly when it is not,
provided that otherwise it ends in some other way, at least where bodies do not run. -/
theorem refused_iff {call : Host → Eval α} {further : Host → Reply α} {name : String}
    {held : List Held} {target : Node}
    (hcall : ∀ host, call host scope w =
      if w.isAlive held target then further host else .failed (.detachedReceiver name) w)
    (hfurther : further (hostWithin 0) ≠ .failed (.detachedReceiver name) w) :
    Refused call name scope w ↔ ¬w.Alive held target := by
  rw [← World.isAlive_iff]
  constructor
  · intro hrefused halive
    have hreply := hrefused (hostWithin 0)
    rw [hcall, if_pos halive] at hreply
    exact hfurther hreply
  · intro hdead host
    rw [hcall, if_neg hdead]

/-- A member does not run where bodies do not. -/
theorem invoke_stuck (member : Member) (i : InstanceRef) (c : ClassRef) (args : List Value)
    (scope : Scope) (w : World) :
    @Member.invoke (hostWithin 0) member i c args scope w = .stuck .exhausted := by
  cases member <;> rfl

theorem refused_callBound_iff (receiver : InstanceRef) (name : String) (appendsReceiver : Bool)
    (args : List Value) (scope : Scope) (w : World) :
    Refused (fun _ => callBound receiver name appendsReceiver args) name scope w ↔
      ¬w.Alive scope.held (.inst receiver) := by
  refine refused_iff
    (fun host => callBound_eq receiver name appendsReceiver args scope w) fun hreply => ?_
  cases hmember : w.member? receiver.cls name with
  | some member =>
    rw [hmember] at hreply
    exact absurd ((invoke_stuck ..).symm.trans hreply) (by simp)
  | none =>
    rw [hmember] at hreply
    cases hreply

/-- Calls are refused in a world and a scope exactly when the receiver is not alive there.
The call of a function holds its arguments. -/
structure RefusesUnheld (w : World) (scope : Scope) (live : List Held → Node → Prop) : Prop where
  boundMethod : ∀ (b : BoundMethod) (args : List Value),
    Refused (fun _ => b.call args) b.name scope w ↔ ¬live scope.held (.inst b.receiver)
  function : ∀ (b : BoundMethod) (args : List Value),
    Refused (fun _ => b.toFunction.call args) b.name scope w ↔
      ¬live (.values args :: scope.held) (.inst b.receiver)
  proxyMember : ∀ (p : SuperProxy) (name : String) (args : List Value),
    (w.member? p.cls name).isSome →
      (Refused (fun _ => p.call name args) p.label scope w ↔ ¬live scope.held (.inst p.receiver))
  proxyInitializer : ∀ (p : SuperProxy) (args : List Value),
    Refused (fun _ => p.runInitializer args) p.label scope w ↔ ¬live scope.held (.inst p.receiver)
  proxyParent : ∀ p : SuperProxy, (w.classState p.cls).parent.isSome →
    (Refused (fun _ => p.getSuper) p.label scope w ↔ ¬live scope.held (.inst p.receiver))
  boundOperation : ∀ (b : BoundOperation) (args : List Value),
    Refused (fun _ => b.call args) b.operation.name scope w ↔ ¬live scope.held (.cls b.cls)

theorem refusesUnheld_alive (w : World) (scope : Scope) : RefusesUnheld w scope w.Alive where
  boundMethod b args :=
    refused_callBound_iff b.receiver b.name b.appendsReceiver args scope w
  function b args :=
    refused_callBound_iff b.receiver b.name b.appendsReceiver args (scope.holding (.values args)) w
  proxyMember p name args hmember := by
    obtain ⟨member, hmember⟩ := Option.isSome_iff_exists.mp hmember
    refine refused_iff (fun host => p.call_eq name args hmember) fun hreply => ?_
    exact absurd ((invoke_stuck ..).symm.trans hreply) (by simp)
  proxyInitializer p args := by
    refine refused_iff (fun host => p.runInitializer_eq args scope w) fun hreply => ?_
    cases hinitializer : (w.classState p.cls).initializer with
    | some routine | none =>
      rw [hinitializer] at hreply
      cases hreply
  proxyParent p hparent := by
    obtain ⟨parent, hparent⟩ := Option.isSome_iff_exists.mp hparent
    refine refused_iff (fun _ => p.getSuper_eq hparent) fun hreply => ?_
    rw [DynamicObjects.getSuper_eq] at hreply
    split at hreply
    · split at hreply <;> cases hreply
    · cases hreply
  boundOperation b args := by
    refine refused_iff (fun host => b.call_eq args scope w) fun hreply => ?_
    cases hreply

/-! ## Runs of members -/

/-- A bound method that an instance handed out has a member to run, from then on. -/
theorem Run.respondsTo_of_asked (run : Run history w) {i : InstanceRef} {name : String}
    {appendsReceiver : Bool} {bound : BoundMethod}
    (hasked : .memberAsked i name appendsReceiver bound ∈ history) :
    w.respondsTo bound.receiver.cls bound.name = true := by
  induction run with
  | refl => cases hasked
  | @step earlier event middle after path h ih =>
    have hpersists {c : ClassRef} {name : String} (hname : middle.respondsTo c name = true) :
        after.respondsTo c name = true := h.respondsTo hname
    rcases List.mem_cons.mp hasked with rfl | hasked
    · cases h with
      | bind hi h =>
        rcases bind_done h with ⟨-, hfind⟩ | ⟨hresponds, -, rfl, -⟩
        · -- what is handed out again was made for the first request under its key
          have hfirst := Run.boundMethods_eq path i (InstanceRef.bindingKey name appendsReceiver)
          rw [hfind, Option.map_some] at hfirst
          exact hpersists (Run.respondsTo_of_firstRequest path hfirst.symm)
        · exact hpersists hresponds
    · exact hpersists (ih hasked)

/-- Calls of handles with a receiver that is alive run the member, with the receiver held
meanwhile. A bound method that has been handed out always finds one. -/
structure RunsHeld (history : List Event) (w : World) (scope : Scope)
    (live : List Held → Node → Prop) : Prop where
  boundMethod : ∀ {i : InstanceRef} {name : String} {appendsReceiver : Bool} {b : BoundMethod},
    .memberAsked i name appendsReceiver b ∈ history → live scope.held (.inst b.receiver) →
      ∃ member, w.member? b.receiver.cls b.name = some member ∧
        ∀ (_ : Host) (args : List Value), b.call args scope w =
          member.invoke b.receiver b.receiver.cls
            (if b.appendsReceiver then args ++ [.inst b.receiver] else args)
            (scope.holding (.values [.inst b.receiver])) w
  proxy : ∀ (p : SuperProxy) {name : String} {member : Member},
    w.member? p.cls name = some member → live scope.held (.inst p.receiver) →
      ∀ (_ : Host) (args : List Value), p.call name args scope w =
        member.invoke p.receiver p.cls args
          (scope.holding (.values [.inst p.receiver, .cls p.cls])) w
  boundOperation : ∀ b : BoundOperation, live scope.held (.cls b.cls) →
    ∀ (_ : Host) (args : List Value), b.call args scope w =
      Host.run b.operation.body ⟨.cls b.cls, args⟩ scope w

theorem Run.runsHeld_alive (run : Run history w) (scope : Scope) :
    RunsHeld history w scope w.Alive where
  boundMethod {i name appendsReceiver b} hasked halive := by
    have hmember := isSome_member?_iff.mpr (run.respondsTo_of_asked hasked)
    obtain ⟨member, hmember⟩ := Option.isSome_iff_exists.mp hmember
    refine ⟨member, hmember, fun host args => ?_⟩
    rw [BoundMethod.call, callBound_eq, if_pos (World.isAlive_iff.mpr halive), hmember]
  proxy p name member hmember halive host args := by
    rw [p.call_eq name args hmember, if_pos (World.isAlive_iff.mpr halive)]
  boundOperation b halive host args := by
    rw [b.call_eq, if_pos (World.isAlive_iff.mpr halive)]

/-- Bodies that run from a scope and a world run with what they act on and their arguments
held: by every account these are alive as long as the body runs, in every scope inside of its
own, whatever becomes of the world meanwhile. -/
def HoldsFrames (scope : Scope) (w : World) : Prop :=
  ∀ (fuel : Nat) (body : Expr) (frame : Frame), ∃ inner : Scope,
    runWithin (fuel + 1) body frame scope w =
      (@evaluate (hostWithin fuel) frame body >>= Item.toValue) inner w ∧
    ∀ (later : World) (live : List Held → Node → Prop) (held : List Held) (n : Node),
      later.Accounts live → inner.held ⊆ held →
        (∃ v ∈ frame.receiver :: frame.arguments, v.Holds n) → live held n

theorem holdsFrames (scope : Scope) (w : World) : HoldsFrames scope w := by
  intro fuel body frame
  refine ⟨scope.holding (.values (frame.receiver :: frame.arguments)), rfl, ?_⟩
  rintro later live held n hlive hinner ⟨v, hv, hn⟩
  have hrooted : later.Rooted held n :=
    .computation (hinner (List.mem_cons_self ..)) (.value hv hn)
  exact (hlive held n).mpr (.inl hrooted)

/-! ## Requests -/

/-- Whether an event is that a handle was asked for. -/
def Event.asks : Event → Bool
  | operationAsked .. | memberAsked .. | ancestorAsked .. => true
  | _ => false

/-- All that such an event changes of a class is what the class has handed out. -/
theorem Event.onClass_of_asks {event : Event} (hasks : event.asks = true) (w : World)
    (c : ClassRef) :
    ∃ handedOut, event.onClass w c = { w.classState c with boundOperations := handedOut } := by
  cases event with
  | operationAsked d name bound =>
    rw [onClass]
    split
    · exact ⟨_, rfl⟩
    · exact ⟨_, rfl⟩
  | memberAsked _ _ _ _ | ancestorAsked _ _ _ => exact ⟨_, rfl⟩
  | declared _ _ _ | methodAdded _ _ | operationAdded _ _ | sharedSet _ _ _ | constructed _
  | propertySet _ _ _ | elsewhere => cases hasks

/-- It changes no property. -/
theorem Event.properties_of_asks {event : Event} (hasks : event.asks = true) (w : World)
    (i : InstanceRef) : (event.onInstance w i).properties = w.properties i := by
  cases event with
  | operationAsked _ _ _ => rfl
  | memberAsked _ _ _ _ | ancestorAsked _ _ _ =>
    rw [onInstance]
    split <;> rfl
  | declared _ _ _ | methodAdded _ _ | operationAdded _ _ | sharedSet _ _ _ | constructed _
  | propertySet _ _ _ | elsewhere => cases hasks

/-- **Asking for a handle keeps nothing alive**, though the handle is kept in order to be
handed out again. -/
theorem Step.sameHolders {event : Event} (h : Step w event w') (hasks : event.asks = true) :
    w.SameHolders w' := by
  have houtside : w'.bindings = w.bindings ∧ w'.registries = w.registries := by
    cases h with
    | getOperation _ h =>
      rcases getOperation_done h with ⟨rfl, -⟩ | ⟨_, -, -, -, rfl⟩ <;> exact ⟨rfl, rfl⟩
    | bind _ h => rcases bind_done h with ⟨rfl, -⟩ | ⟨-, -, -, rfl⟩ <;> exact ⟨rfl, rfl⟩
    | getSuper _ h =>
      rcases getSuper_done h with ⟨-, ⟨rfl, -⟩ | ⟨-, -, rfl⟩⟩ <;> exact ⟨rfl, rfl⟩
    | declare _ | addMethod _ _ | addOperation _ _ | setShared _ _ | construct _ | set _ _
    | elsewhere _ _ _ => cases hasks
  have hclass (c : ClassRef) :
      ∃ handedOut, w'.classState c = { w.classState c with boundOperations := handedOut } := by
    rw [h.classState_eq]
    exact Event.onClass_of_asks hasks w c
  refine ⟨houtside.1, houtside.2, fun c => ?_, fun c => ?_, fun c => ?_, fun i => ?_⟩
  · obtain ⟨_, hstate⟩ := hclass c
    rw [hstate]
  · obtain ⟨_, hstate⟩ := hclass c
    rw [hstate]
  · obtain ⟨_, hstate⟩ := hclass c
    rw [hstate]
  · rw [World.properties, h.instanceState_eq]
    exact Event.properties_of_asks hasks w i

/-! ## Handles in a run -/

/-- **What calls of handles do in a run.** At any moment of a run, in any scope, and as long
as nothing holds itself: let `live` tell what is alive, that is, what is held by a
variable, by a computation under way, or by something alive. Then a call is refused, before
anything runs and without any change, exactly when its receiver is not alive; when it is,
the member runs, and the receiver and the arguments stay alive meanwhile. Asking for handles
makes no difference to what is alive. -/
theorem handles_refused_iff_unheld (run : Run history w) {live : List Held → Node → Prop}
    (hlive : w.Accounts live) (hacyclic : w.Acyclic) (scope : Scope) :
    RefusesUnheld w scope live ∧ RunsHeld history w scope live ∧ HoldsFrames scope w ∧
      ∀ event w' live', Step w event w' → event.asks = true → w'.Accounts live' →
        ∀ held n, live' held n ↔ live held n := by
  have heq : live = w.Alive :=
    funext fun held => funext fun n => propext (hlive.iff_alive hacyclic)
  refine ⟨?_, ?_, holdsFrames scope w, fun event w' live' hstep hasks hlive' held n => ?_⟩
  · rw [heq]
    exact refusesUnheld_alive w scope
  · rw [heq]
    exact run.runsHeld_alive scope
  · exact (hstep.sameHolders hasks).accounts_iff hacyclic hlive hlive'

/-! ## An instance that was dropped -/

namespace ThreeInstances

/-- The class of the instances, and how it is declared. -/
def cls : ClassRef := ⟨0, none⟩

def plan : ClassPlan := { methods := [("m", .undefined)] }

/-- What the first instance is asked for, and what the second one is asked for. -/
def bound : BoundMethod := ⟨1, ⟨0, cls⟩, "m", false⟩

def callback : BoundMethod := ⟨2, ⟨1, cls⟩, "m", true⟩

/-- The instances in the end. The third one holds the second one by a property. -/
def first : InstanceState := { boundMethods := [("m", bound)] }

def second : InstanceState := { boundMethods := [("m_k", callback)] }

def third : InstanceState := { properties := [("friend", .inst ⟨1, cls⟩)] }

/-- The class has been declared, and instances have been made of it. -/
def stage (instances : List InstanceState) (nextId : Nat) : World :=
  { classes := #[({} : World).started plan], instances := instances.toArray, nextId }

/-- In the end one variable holds the third instance, and another one holds the bound method
of the first. -/
def world : World :=
  { stage [first, second, third] 3 with
    bindings := [("last", .value (.inst ⟨2, cls⟩)), ("bound", .handle (.boundMethod bound))] }

theorem exists_run : ∃ history, Run history world := by
  have hdeclare : declareClass plan { recording := false } {} = .done cls (stage [] 1) := rfl
  have hfirst : cls.constructBare {} (stage [] 1) = .done ⟨0, cls⟩ (stage [{}] 1) := rfl
  have hsecond : cls.constructBare {} (stage [{}] 1) = .done ⟨1, cls⟩ (stage [{}, {}] 1) := rfl
  have hthird : cls.constructBare {} (stage [{}, {}] 1) =
    .done ⟨2, cls⟩ (stage [{}, {}, {}] 1) := rfl
  have hbound : InstanceRef.getMethod ⟨0, cls⟩ "m" {} (stage [{}, {}, {}] 1) =
    .done bound (stage [first, {}, {}] 2) := rfl
  have hcallback : InstanceRef.getCallback ⟨1, cls⟩ "m" {} (stage [first, {}, {}] 2) =
    .done callback (stage [first, second, {}] 3) := rfl
  have hset : InstanceRef.set ⟨2, cls⟩ "friend" (.inst ⟨1, cls⟩) {} (stage [first, second, {}] 3) =
    .done () (stage [first, second, third] 3) := rfl
  have constructed : Run _ _ := ((Path.refl.step (.declare hdeclare)).step
    (.construct hfirst)).step (.construct hsecond) |>.step (.construct hthird)
  have asked := (constructed.step (.bind (by decide) hbound)).step (.bind (by decide) hcallback)
  exact ⟨_, (asked.step (.set (by decide) hset)).step (.elsewhere rfl rfl (Nat.le_refl _))⟩

theorem of_mem_properties {i : InstanceRef} {name : String} {v : Value}
    (hv : (name, v) ∈ world.properties i) : i.index = 2 ∧ v = .inst ⟨1, cls⟩ := by
  obtain ⟨index, d⟩ := i
  match index, hv with
  | 0, hv | 1, hv | index + 3, hv => cases hv
  | 2, hv =>
    cases List.mem_singleton.mp hv
    exact ⟨rfl, rfl⟩

theorem classState_bare (c : ClassRef) : (world.classState c).parent = none ∧
    (world.classState c).properties.slots = [] ∧ (world.classState c).shared.slots = [] := by
  obtain ⟨index, name⟩ := c
  match index with
  | 0 | index + 1 => exact ⟨rfl, rfl, rfl⟩

/-- All that is held by something: the class of each instance, and the second instance. -/
theorem of_keeps {m n : Node} (h : world.Keeps m n) :
    (m.place.isSome ∧ n.place = none) ∨ (m.place = some 2 ∧ n = .inst ⟨1, cls⟩) := by
  cases h with
  | instanceClass i => exact .inl ⟨rfl, rfl⟩
  | property hv h =>
    obtain ⟨hindex, rfl⟩ := of_mem_properties hv
    cases h
    exact .inr ⟨congrArg some hindex, rfl⟩
  | @parent c parent h => cases (classState_bare c).1.symm.trans h
  | @default c v n hv h =>
    obtain ⟨name, slot, hslot, -⟩ := hv
    rw [(classState_bare c).2.1] at hslot
    cases hslot
  | @shared c v n hv h =>
    obtain ⟨name, slot, hslot, -⟩ := hv
    rw [(classState_bare c).2.2] at hslot
    cases hslot

theorem acyclic : world.Acyclic := by
  refine World.acyclic_of_rank (fun n => n.place.elim 0 (· + 1)) fun m n h => ?_
  rcases of_keeps h with ⟨hm, hn⟩ | ⟨hm, rfl⟩
  · obtain ⟨place, hm⟩ := Option.isSome_iff_exists.mp hm
    rw [hm, hn]
    exact Nat.succ_pos _
  · rw [hm]
    exact Nat.lt_succ_self _

theorem not_alive_first {n : Node} (alive : world.Alive [] n) : n.place ≠ some 0 := by
  induction alive with
  | rooted h =>
    cases h with
    | binding hitem h =>
      rcases List.mem_cons.mp hitem with heq | hitem
      · cases heq
        cases h with
        | value h =>
          cases h
          decide
      · cases List.mem_singleton.mp hitem
        cases h
    | computation hpart _ => cases hpart
  | kept _ h =>
    rcases of_keeps h with ⟨-, hn⟩ | ⟨-, rfl⟩
    · rw [hn]
      exact (Option.some_ne_none 0).symm
    · decide

theorem alive_second : world.Alive [] (.inst ⟨1, cls⟩) := by
  have hthird : world.Alive [] (.inst ⟨2, cls⟩) :=
    .rooted (.binding (List.mem_cons_self ..) (.value (.inst _)))
  exact hthird.kept (.property (List.mem_cons_self ..) (.inst _))

end ThreeInstances

open ThreeInstances in
/-- The first of the three instances is gone, though a variable holds a bound method of it.
The second one is still there. -/
theorem handles_refused_iff_unheld_dropped :
    ∃ history, Run history world ∧
      (∀ args, Refused (fun _ => bound.call args) "m" {} world) ∧
      ∀ args, ¬Refused (fun _ => callback.call args) "m" {} world := by
  obtain ⟨history, run⟩ := exists_run
  obtain ⟨hrefuses, -⟩ := handles_refused_iff_unheld run world.accounts_alive acyclic {}
  refine ⟨history, run, fun args => (hrefuses.boundMethod bound args).mpr fun hfirst => ?_,
    fun args hrefused => (hrefuses.boundMethod callback args).mp hrefused alive_second⟩
  exact not_alive_first hfirst rfl

end DynamicObjects
