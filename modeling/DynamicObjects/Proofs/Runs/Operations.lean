import DynamicObjects.Objects.Instances
import DynamicObjects.Proofs.World.Equations

/-!
# What operations do

For each operation on classes and instances that runs no body: what it answers, and the
world after it. The routines that a declaration makes are numbered one after the other
from the next free number on, the initializer first, then methods, then operations. A
request gives what was handed out before under its key, or else something new.

* `declareClass_eq`: a declaration.
* `getOperation_eq`, `bind_eq`, `getSuper_eq`: requests.
-/

namespace DynamicObjects

open Script

/-! ## Declarations -/

/-- Routines for named bodies, numbered from a number on. -/
def numbered : Nat → List (String × Expr) → List Routine
  | _, [] => []
  | id, (name, body) :: rest => ⟨id, name, body⟩ :: numbered (id + 1) rest

theorem makeRoutine_eq (name : String) (body : Expr) (scope : Scope) (w : World) :
    makeRoutine name body scope w =
      .done ⟨w.nextId, name, body⟩ { w with nextId := w.nextId + 1 } := rfl

theorem makeRoutines_eq (named : List (String × Expr)) (scope : Scope) (w : World) :
    makeRoutines named scope w =
      .done (numbered w.nextId named) { w with nextId := w.nextId + named.length } := by
  induction named generalizing w with
  | nil => rfl
  | cons entry rest ih =>
    obtain ⟨name, body⟩ := entry
    rw [makeRoutines, Eval.bind_of_done (makeRoutine_eq name body scope w),
      Eval.bind_of_done (ih _), List.length_cons, Nat.add_comm rest.length, ← Nat.add_assoc]
    rfl

namespace ClassPlan

variable (plan : ClassPlan) (id : Nat)

/-- The initializer of a plan, its routines numbered from a number on. -/
def initializerFrom : Option Routine :=
  plan.initializer.map fun body => ⟨id, initializerName, body⟩

/-- The methods of a plan, its routines numbered from a number on. -/
def methodsFrom : List Routine := numbered (id + plan.initializer.toList.length) plan.methods

/-- The operations of a plan, its routines numbered from a number on. -/
def operationsFrom : List Routine :=
  numbered (id + plan.initializer.toList.length + plan.methods.length) plan.operations

/-- The number of routines of a plan. -/
def routineCount : Nat :=
  plan.initializer.toList.length + plan.methods.length + plan.operations.length

end ClassPlan

/-- The state in which a plan starts a class. -/
def World.started (w : World) (plan : ClassPlan) : ClassState :=
  ClassState.build plan
    (match plan.parent with
      | some parent => (w.classState parent).inherit
      | none => {})
    (plan.initializerFrom w.nextId) (plan.methodsFrom w.nextId) (plan.operationsFrom w.nextId)

/-- The report of a declaration. -/
def ClassPlan.report (plan : ClassPlan) (c : ClassRef) : Diagnostic :=
  ⟨.debug, "declared class " ++ c.displayName ++ " (#" ++ Number.digitText c.id ++ ")" ++
    match plan.parent with
    | some parent => " extending " ++ parent.displayName
    | none => ""⟩

/-- A declaration stores the class, takes numbers for the routines, and is reported where
reports are kept. -/
theorem declareClass_apply (plan : ClassPlan) (scope : Scope) (w : World) :
    declareClass plan scope w =
      .done ⟨w.classes.size, plan.name⟩
        { w with
          classes := w.classes.push (w.started plan)
          nextId := w.nextId + plan.initializer.toList.length + plan.methods.length +
            plan.operations.length
          diagnostics := if scope.recording then
              w.diagnostics.push (plan.report ⟨w.classes.size, plan.name⟩)
            else w.diagnostics } := by
  obtain ⟨name, parent, initializer, properties, shared, methods, operations⟩ := plan
  have hsize (state : ClassState) : (w.classes.push state).size - 1 = w.classes.size := by
    rw [Array.size_push, Nat.add_sub_cancel]
  cases initializer <;> cases parent
  all_goals
    simp only [declareClass, Eval.bind_apply, makeRoutine_eq, makeRoutines_eq, Eval.pure_apply,
      Eval.reads_apply, Eval.modify_apply, Eval.report_apply, World.addClass, hsize]
    cases scope.recording <;> rfl

theorem declareClass_eq (plan : ClassPlan) (scope : Scope) (w : World) :
    ∃ after, declareClass plan scope w = .done ⟨w.classes.size, plan.name⟩ after ∧
      after.classes = w.classes.push (w.started plan) ∧ after.instances = w.instances ∧
      after.nextId = w.nextId + plan.routineCount := by
  refine ⟨_, declareClass_apply plan scope w, rfl, rfl, ?_⟩
  simp only [ClassPlan.routineCount, Nat.add_assoc]

theorem constructBare_eq (c : ClassRef) (scope : Scope) (w : World) :
    c.constructBare scope w =
      .done ⟨w.instances.size, c⟩
        (w.addInstance { properties := (w.classState c).properties.all }) := by
  simp only [ClassRef.constructBare, Eval.bind_apply, Eval.modify_apply, Eval.reads_apply,
    Eval.pure_apply, World.addInstance, Array.size_push, Nat.add_sub_cancel]

/-! ## Requests -/

section Requests

variable {w w' : World} {scope : Scope} {name : String}

/-- A request for an operation gives what was handed out before under its name; else the
class is asked for the operation. -/
theorem getOperation_eq (c : ClassRef) (name : String) (scope : Scope) (w : World) :
    c.getOperation name scope w =
      match Entries.find? name (w.classState c).boundOperations with
      | some bound => .done bound w
      | none =>
        match (w.classState c).operations.get? name with
        | some routine =>
          .done ⟨w.nextId, c, routine⟩
            (World.setClass { w with nextId := w.nextId + 1 } c
              { w.classState c with
                boundOperations := Entries.insert name ⟨w.nextId, c, routine⟩
                  (w.classState c).boundOperations })
        | none => .failed (c.unknownMember name) w := by
  simp only [ClassRef.getOperation, Eval.bind_apply, Eval.reads_apply]
  cases Entries.find? name (w.classState c).boundOperations with
  | some bound => rfl
  | none =>
    simp only [ClassRef.operation, Eval.bind_apply, Eval.reads_apply]
    cases (w.classState c).operations.get? name <;> rfl

theorem getOperation_done {c : ClassRef} {bound : BoundOperation}
    (h : c.getOperation name scope w = .done bound w') :
    (w' = w ∧ Entries.find? name (w.classState c).boundOperations = some bound) ∨
      ∃ routine, (w.classState c).operations.get? name = some routine ∧
        Entries.find? name (w.classState c).boundOperations = none ∧
        bound = ⟨w.nextId, c, routine⟩ ∧
        w' = World.setClass { w with nextId := w.nextId + 1 } c
          { w.classState c with
            boundOperations := Entries.insert name bound (w.classState c).boundOperations } := by
  rw [getOperation_eq] at h
  split at h
  · rename_i found hfind
    cases h
    exact Or.inl ⟨rfl, hfind⟩
  · rename_i hfind
    split at h
    · rename_i routine hget
      cases h
      exact Or.inr ⟨routine, hget, hfind, rfl, rfl⟩
    · cases h

/-- A request for a member gives what was handed out before under its key; else the class
is asked whether it responds to the name. -/
theorem bind_eq (i : InstanceRef) (name : String) (appendsReceiver : Bool) (scope : Scope)
    (w : World) :
    i.bind name appendsReceiver scope w =
      match Entries.find? (InstanceRef.bindingKey name appendsReceiver)
          (w.instanceState i).boundMethods with
      | some bound => .done bound w
      | none =>
        if w.respondsTo i.cls name then
          .done ⟨w.nextId, i, name, appendsReceiver⟩
            (World.setInstance { w with nextId := w.nextId + 1 } i
              { w.instanceState i with
                boundMethods := Entries.insert (InstanceRef.bindingKey name appendsReceiver)
                  ⟨w.nextId, i, name, appendsReceiver⟩ (w.instanceState i).boundMethods })
        else .failed (i.cls.unknownMember name) w := by
  simp only [InstanceRef.bind, Eval.bind_apply, Eval.reads_apply]
  cases Entries.find? (InstanceRef.bindingKey name appendsReceiver)
      (w.instanceState i).boundMethods with
  | some bound => rfl
  | none => cases hresponds : w.respondsTo i.cls name <;> simp only [Eval.bind_apply,
      Eval.reads_apply, hresponds] <;> rfl

theorem bind_done {i : InstanceRef} {appendsReceiver : Bool} {bound : BoundMethod}
    (h : i.bind name appendsReceiver scope w = .done bound w') :
    (w' = w ∧ Entries.find? (InstanceRef.bindingKey name appendsReceiver)
        (w.instanceState i).boundMethods = some bound) ∨
      w.respondsTo i.cls name = true ∧
        Entries.find? (InstanceRef.bindingKey name appendsReceiver)
          (w.instanceState i).boundMethods = none ∧
        bound = ⟨w.nextId, i, name, appendsReceiver⟩ ∧
        w' = World.setInstance { w with nextId := w.nextId + 1 } i
          { w.instanceState i with
            boundMethods := Entries.insert (InstanceRef.bindingKey name appendsReceiver) bound
              (w.instanceState i).boundMethods } := by
  rw [bind_eq] at h
  split at h
  · rename_i found hfind
    cases h
    exact Or.inl ⟨rfl, hfind⟩
  · rename_i hfind
    split at h
    · rename_i hresponds
      cases h
      exact Or.inr ⟨hresponds, hfind, rfl, rfl⟩
    · cases h

/-- A request for an ancestor gives what was handed out before for it. What is no ancestor
is refused. -/
theorem getSuper_eq (i : InstanceRef) (ancestor : ClassRef) (scope : Scope) (w : World) :
    i.getSuper ancestor scope w =
      if w.isSubclassOf i.cls ancestor then
        match Entries.find? ancestor.index (w.instanceState i).proxies with
        | some proxy => .done proxy w
        | none =>
          .done ⟨w.nextId, i, ancestor⟩
            (World.setInstance { w with nextId := w.nextId + 1 } i
              { w.instanceState i with
                proxies := Entries.insert ancestor.index ⟨w.nextId, i, ancestor⟩
                  (w.instanceState i).proxies })
      else .failed (.notAnAncestor i.cls.displayName ancestor.displayName) w := by
  simp only [InstanceRef.getSuper, Eval.bind_apply, Eval.reads_apply]
  cases w.isSubclassOf i.cls ancestor with
  | false => rfl
  | true =>
    simp only [if_true, Eval.bind_apply, Eval.reads_apply]
    cases Entries.find? ancestor.index (w.instanceState i).proxies <;> rfl

theorem getSuper_done {i : InstanceRef} {ancestor : ClassRef} {proxy : SuperProxy}
    (h : i.getSuper ancestor scope w = .done proxy w') :
    w.isSubclassOf i.cls ancestor = true ∧
      ((w' = w ∧ Entries.find? ancestor.index (w.instanceState i).proxies = some proxy) ∨
        Entries.find? ancestor.index (w.instanceState i).proxies = none ∧
          proxy = ⟨w.nextId, i, ancestor⟩ ∧
          w' = World.setInstance { w with nextId := w.nextId + 1 } i
            { w.instanceState i with
              proxies := Entries.insert ancestor.index proxy (w.instanceState i).proxies }) := by
  rw [getSuper_eq] at h
  split at h
  · rename_i hsub
    refine ⟨hsub, ?_⟩
    split at h
    · rename_i found hfind
      cases h
      exact Or.inl ⟨rfl, hfind⟩
    · rename_i hfind
      cases h
      exact Or.inr ⟨hfind, rfl, rfl⟩
  · cases h

/-! A request that fails changes nothing. -/

variable {e : Failure}

theorem getOperation_failed {c : ClassRef} (h : c.getOperation name scope w = .failed e w') :
    w' = w := by
  rw [getOperation_eq] at h
  split at h
  · cases h
  · split at h <;> cases h
    rfl

theorem bind_failed {i : InstanceRef} {appendsReceiver : Bool}
    (h : i.bind name appendsReceiver scope w = .failed e w') : w' = w := by
  rw [bind_eq] at h
  split at h
  · cases h
  · split at h <;> cases h
    rfl

theorem getSuper_failed {i : InstanceRef} {ancestor : ClassRef}
    (h : i.getSuper ancestor scope w = .failed e w') : w' = w := by
  rw [getSuper_eq] at h
  split at h
  · split at h <;> cases h
  · cases h
    rfl

end Requests

end DynamicObjects
