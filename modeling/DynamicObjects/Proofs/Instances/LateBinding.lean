import DynamicObjects.Builtin.Apply
import DynamicObjects.Proofs.Instances.Receivers
import DynamicObjects.Proofs.Runs.References

/-!
# Late binding

A bound method keeps the name of a member and not the member. It finds the member when it is
called, so what it runs changes with every reopening of the class in between. It always finds
one: the tables of a class only grow, and what a class responds to it keeps responding to.
So the failure of a call for want of a member is never seen.

* `memberIn`: the member of a name as the history tells it.
* `late_binding`: what calls of bound methods do in a run.
-/

namespace DynamicObjects

open Script

variable {w w' : World} {history events : List Event}

/-! ## Members in the history -/

/-- The member that a class has for a name: a method, or else an operation. -/
def memberIn (history : List Event) (c : ClassRef) (name : String) : Option Member :=
  ((MemberTable.methods.resolvedIn history c name).map Member.method).or
    ((MemberTable.operations.resolvedIn history c name).map Member.operation)

theorem Run.member?_eq (run : Run history w) (c : ClassRef) (name : String) :
    w.member? c name = memberIn history c name := by
  rw [memberIn, ← run.get?_eq .methods, ← run.get?_eq .operations]
  exact Option.orElse_eq_or

/-! ## What is handed out -/

/-- A first request under a key of an instance is in the history, to the place of the
instance. -/
theorem mem_of_firstRequest {i : InstanceRef} {key : String} {first : MemberRequest}
    (hfirst : firstRequest i key history = some first) :
    first.receiver.index = i.index ∧
      ∃ bound, .memberAsked first.receiver first.name first.appendsReceiver bound ∈ history := by
  induction history with
  | nil => cases hfirst
  | cons event earlier ih =>
    rw [firstRequest] at hfirst
    rcases Option.or_eq_some_iff.mp hfirst with hearlier | ⟨-, hrequest⟩
    · obtain ⟨hindex, bound, hmem⟩ := ih hearlier
      exact ⟨hindex, bound, List.mem_cons_of_mem _ hmem⟩
    · cases event with
      | memberAsked j name appendsReceiver bound =>
        rw [Event.request?] at hrequest
        split at hrequest
        · rename_i hplace
          cases hrequest
          exact ⟨hplace.1, bound, List.mem_cons_self⟩
        · cases hrequest
      | _ => cases hrequest

/-- An instance hands out bound methods of its own. -/
theorem Run.receiver_of_asked (run : Run history w) (grounded : Grounded history)
    {i : InstanceRef} {name : String} {appendsReceiver : Bool} {bound : BoundMethod}
    (hasked : .memberAsked i name appendsReceiver bound ∈ history) : bound.receiver = i := by
  induction run with
  | refl => cases hasked
  | @step earlier event middle after path h ih =>
    cases grounded with
    | cons hrefers grounded =>
      rcases List.mem_cons.mp hasked with rfl | hasked
      · cases h with
        | bind hi h =>
          rcases bind_done h with ⟨-, hfind⟩ | ⟨-, -, rfl, -⟩
          · -- what is handed out again was made for the first request under its key
            have hfirst := Run.boundMethods_eq path i (InstanceRef.bindingKey name appendsReceiver)
            rw [hfind, Option.map_some] at hfirst
            obtain ⟨hindex, first, hmem⟩ := mem_of_firstRequest hfirst.symm
            have hreceiver := grounded.handedOut hmem (List.mem_singleton_self _)
            exact Run.inst_eq path hreceiver (hrefers _ (List.mem_singleton_self _)) hindex
          · rfl
      · exact ih grounded hasked

/-- What is a generic iterable stays one. -/
theorem Path.kind_generic (path : Path w events w') {i : InstanceRef}
    (h : w.kind (.inst i) = .generic) : w'.kind (.inst i) = .generic := by
  rw [World.kind, World.isGeneric] at h ⊢
  split at h
  · rename_i hgeneric
    rw [Bool.and_eq_true] at hgeneric
    rw [if_pos]
    rw [Bool.and_eq_true]
    exact ⟨path.respondsTo hgeneric.1, path.respondsTo hgeneric.2⟩
  · cases h

/-! ## Calls -/

theorem BoundMethod.toFunction_call [Host] (b : BoundMethod) (args : List Value) (scope : Scope)
    (w : World) :
    b.toFunction.call args scope w = b.call args (scope.holding (.values args)) w := rfl

/-- **Late binding without loss.** At any moment of a run, take a bound method that an instance
has handed out at any time before. Its receiver is that instance, and the class of the instance
has a member for its name now. If the instance is alive, a call runs this member, which is a
method if the class has one and else an operation, on the instance or the class, with the
instance as a last argument exactly if the bound method appends it. A call of the function made
of the bound method does the same with the arguments held. And from any moment on, what a class
responds to it keeps responding to, and a generic iterable stays one. -/
theorem late_binding (run : Run history w) (grounded : Grounded history) :
    (∀ {i : InstanceRef} {name : String} {appendsReceiver : Bool} {b : BoundMethod},
      .memberAsked i name appendsReceiver b ∈ history →
        b.receiver = i ∧ ∃ member, memberIn history i.cls b.name = some member ∧
          ∀ (_ : Host) (args : List Value) (scope : Scope), w.Alive scope.held (.inst i) →
            b.call args scope w =
              member.invoke i i.cls (if b.appendsReceiver then args ++ [.inst i] else args)
                (scope.holding (.values [.inst i])) w ∧
            b.toFunction.call args scope w = b.call args (scope.holding (.values args)) w) ∧
    ∀ {later : List Event} {after : World}, Path w later after →
      (∀ c name, w.respondsTo c name = true → after.respondsTo c name = true) ∧
      ∀ i, w.kind (.inst i) = .generic → after.kind (.inst i) = .generic := by
  refine ⟨fun {i name appendsReceiver b} hasked => ?_, fun path =>
    ⟨fun c name => path.respondsTo, fun i => path.kind_generic⟩⟩
  have hreceiver := run.receiver_of_asked grounded hasked
  have hresponds := run.respondsTo_of_asked hasked
  obtain ⟨member, hmember⟩ := Option.isSome_iff_exists.mp (isSome_member?_iff.mpr hresponds)
  rw [hreceiver] at hmember
  refine ⟨hreceiver, member, run.member?_eq i.cls b.name ▸ hmember, ?_⟩
  intro host args scope halive
  refine ⟨?_, b.toFunction_call args scope w⟩
  rw [BoundMethod.call, callBound_eq, hreceiver, if_pos (World.isAlive_iff.mpr halive), hmember]

/-! ## A class that was reopened -/

namespace ReopenedReceiver

def cls : ClassRef := ⟨0, none⟩

def receiver : InstanceRef := ⟨0, cls⟩

/-- The class has an operation at first. -/
def plan : ClassPlan := { operations := [("m", .undefined)] }

def callback : BoundMethod := ⟨1, receiver, "m", true⟩

/-- A method of the same name is added after the instance was asked for it. -/
def reopening : List Event :=
  [.methodAdded cls ⟨2, "m", .none⟩, .memberAsked receiver "m" true callback,
    .constructed receiver, .declared cls plan 0]

def stage (instances : List InstanceState) (nextId : Nat) : World :=
  { classes := #[({} : World).started plan], instances := instances.toArray, nextId }

theorem exists_run : ∃ w, Run reopening w := by
  have hdeclare : declareClass plan { recording := false } {} = .done cls (stage [] 1) := rfl
  have hconstruct : cls.constructBare {} (stage [] 1) = .done receiver (stage [{}] 1) := rfl
  have hbind : receiver.getCallback "m" {} (stage [{}] 1) =
    .done callback (stage [{ boundMethods := [("m_k", callback)] }] 2) := rfl
  have hadd : cls.addMethod "m" .none {}
    (stage [{ boundMethods := [("m_k", callback)] }] 2) = .done () _ := rfl
  have constructed : Run _ _ := (Path.refl.step (.declare hdeclare)).step (.construct hconstruct)
  exact ⟨_, (constructed.step (.bind (by decide) hbind)).step (.addMethod (by decide) hadd)⟩

theorem grounded : Grounded reopening := by
  have hcls : HandedOut [.declared cls plan 0] (.cls cls) := ⟨_, List.mem_cons_self, rfl⟩
  have hreceiver : HandedOut [.constructed receiver, .declared cls plan 0] (.inst receiver) :=
    ⟨_, List.mem_cons_self, rfl⟩
  refine .cons (fun n hn => ?_) (.cons (fun n hn => ?_) (.cons (fun n hn => ?_)
    (.cons (fun n hn => ?_) .nil)))
  · rw [List.mem_singleton.mp hn]
    exact hcls.append [_, _]
  · rw [List.mem_singleton.mp hn]
    exact hreceiver
  · rw [List.mem_singleton.mp hn]
    exact hcls
  · cases hn

end ReopenedReceiver

open ReopenedReceiver in
/-- The bound method, made for an operation, runs the method that was added later. -/
theorem late_binding_reopened :
    ∃ w, Run reopening w ∧ ∀ (_ : Host) (args : List Value),
      callback.call args (({} : Scope).holding (.values [.inst receiver])) w =
        Host.run .none ⟨.inst receiver, args ++ [.inst receiver]⟩
          ((({} : Scope).holding (.values [.inst receiver])).holding
            (.values [.inst receiver])) w := by
  obtain ⟨w, run⟩ := exists_run
  obtain ⟨hcalls, -⟩ := late_binding run grounded
  have hasked : .memberAsked receiver "m" true callback ∈ reopening :=
    List.mem_cons_of_mem _ List.mem_cons_self
  obtain ⟨-, member, hmember, hcall⟩ := hcalls hasked
  refine ⟨w, run, fun host args => ?_⟩
  have halive : w.Alive [.values [.inst receiver]] (.inst receiver) :=
    .rooted (.computation List.mem_cons_self (.value List.mem_cons_self (.inst _)))
  rw [(hcall host args _ halive).1]
  cases hmember
  rfl

end DynamicObjects
