import DynamicObjects.Proofs.Classes.Inheritance

/-!
# Requests for members

An instance hands out bound methods of two forms, one that passes on its arguments and one
that adds the receiver. Both are kept under keys of one kind: the name of the member, with
a suffix for the second form. A name may itself end in the suffix, so the two forms of
different names may share a key (`bindingKey_eq_iff`), and then whichever is asked for
first is what both requests get.

The history of a run tells which one that is: the first request under the key that the
instance answered (`firstRequest`). The bound method kept under a key is always the one of
the first request (`Run.boundMethods_eq`).

* `served_iff`: a request is served as it should be exactly when the first one under its
  key was the same.
-/

namespace DynamicObjects

open InstanceRef (bindingKey)

/-! ## Requests and their keys -/

/-- A request for a member of an instance, and whether calls are to get the receiver. -/
structure MemberRequest where
  receiver : InstanceRef
  name : String
  appendsReceiver : Bool
  deriving DecidableEq

/-- The request that a bound method was made for. -/
def BoundMethod.request (bound : BoundMethod) : MemberRequest :=
  ⟨bound.receiver, bound.name, bound.appendsReceiver⟩

/-- Two requests share a key when they are the same, or when one asks in the second form
for a name that the other one asks for with the suffix. -/
theorem bindingKey_eq_iff (name other : String) (form form' : Bool) :
    bindingKey name form = bindingKey other form' ↔
      (name = other ∧ form = form') ∨ (form = true ∧ form' = false ∧ other = name ++ "_k") ∨
        (form = false ∧ form' = true ∧ name = other ++ "_k") := by
  cases form <;> cases form'
  · simp [bindingKey]
  · simp [bindingKey]
  · simp [bindingKey, eq_comm]
  · simp [bindingKey]

/-- The two forms of one name have different keys. -/
theorem form_eq_of_bindingKey {name : String} {form form' : Bool}
    (h : bindingKey name form = bindingKey name form') : form = form' := by
  have hsuffix : name ≠ name ++ "_k" := fun heq => by
    have hlength := congrArg String.length heq
    have hpositive : 0 < "_k".length := by decide
    rw [String.length_append] at hlength
    omega
  rcases (bindingKey_eq_iff name name form form').mp h with
    ⟨-, hform⟩ | ⟨-, -, heq⟩ | ⟨-, -, heq⟩
  · exact hform
  · exact absurd heq hsuffix
  · exact absurd heq hsuffix

namespace Event

/-- The request that an event is, if it is one under a key at the place of an instance. -/
def request? (i : InstanceRef) (key : String) : Event → Option MemberRequest
  | memberAsked j name appendsReceiver _ =>
    if j.index = i.index ∧ bindingKey name appendsReceiver = key then
      some ⟨j, name, appendsReceiver⟩
    else none
  | _ => none

end Event

/-- The first request under a key that an instance answered. -/
def firstRequest (i : InstanceRef) (key : String) : List Event → Option MemberRequest
  | [] => none
  | event :: earlier => (firstRequest i key earlier).or (event.request? i key)

theorem firstRequest_key {i : InstanceRef} {key : String} {history : List Event}
    {first : MemberRequest} (h : firstRequest i key history = some first) :
    bindingKey first.name first.appendsReceiver = key := by
  induction history with
  | nil => cases h
  | cons event earlier ih =>
    rw [firstRequest] at h
    cases hearlier : firstRequest i key earlier with
    | some request =>
      rw [hearlier] at h
      cases h
      exact ih hearlier
    | none =>
      rw [hearlier, Option.none_or] at h
      cases event with
      | memberAsked j name appendsReceiver bound =>
        rw [Event.request?] at h
        split at h
        · rename_i hkey
          cases h
          exact hkey.2
        · cases h
      | _ => cases h

/-! ## What is kept -/

variable {w w' : World} {event : Event} {history : List Event}

theorem Step.boundMethods_eq (h : Step w event w') (i : InstanceRef) (key : String) :
    (Entries.find? key (w'.instanceState i).boundMethods).map BoundMethod.request =
      ((Entries.find? key (w.instanceState i).boundMethods).map BoundMethod.request).or
        (event.request? i key) := by
  rw [h.instanceState_eq i]
  cases h with
  | @construct _ scope d j h =>
    rw [constructBare_eq] at h
    cases h
    rw [Event.onInstance]
    split
    · rename_i hindex
      rw [World.instanceState, hindex, Array.getElem?_size]
      rfl
    · exact (Option.or_none).symm
  | @bind _ scope j name appendsReceiver bound hj h =>
    rw [Event.onInstance, Event.request?]
    by_cases hindex : j.index = i.index
    · simp only [hindex, if_true, true_and, Entries.find?_keep]
      split
      · rename_i hkey
        rcases bind_done h with ⟨-, hfind⟩ | ⟨-, hfind, rfl, -⟩
        · rw [World.instanceState_congr hindex, hkey] at hfind
          rw [hkey, hfind]
          rfl
        · rw [World.instanceState_congr hindex, hkey] at hfind
          rw [hkey, hfind]
          rfl
      · rw [Option.or_none]
    · simp only [hindex, if_false, false_and, Option.or_none]
  | @set _ scope j name value hj h =>
    refine Eq.trans ?_ (Option.or_none).symm
    rw [Event.onInstance]
    split <;> rfl
  | @getSuper _ scope j ancestor proxy hj h =>
    refine Eq.trans ?_ (Option.or_none).symm
    rw [Event.onInstance]
    split <;> rfl
  | declare _ | addMethod _ _ | addOperation _ _ | setShared _ _ | getOperation _ _
  | elsewhere _ _ _ => exact (Option.or_none).symm

/-- **What is kept under a key was made for the first request under it.** -/
theorem Run.boundMethods_eq (run : Run history w) (i : InstanceRef) (key : String) :
    (Entries.find? key (w.instanceState i).boundMethods).map BoundMethod.request =
      firstRequest i key history := by
  induction run with
  | refl => rfl
  | step _ h ih => rw [h.boundMethods_eq, ih, firstRequest]

/-! ## What a class responds to -/

theorem respondsTo_iff {c : ClassRef} {name : String} :
    w.respondsTo c name = true ↔
      ((MemberTable.methods.of (w.classState c)).get? name).isSome ∨
        ((MemberTable.operations.of (w.classState c)).get? name).isSome := by
  rw [World.respondsTo, Bool.or_eq_true]
  rfl

/-- What a class responds to it keeps responding to. -/
theorem Step.respondsTo (h : Step w event w') {c : ClassRef} {name : String}
    (hname : w.respondsTo c name = true) : w'.respondsTo c name = true := by
  rw [respondsTo_iff] at hname ⊢
  exact hname.imp (h.get?_isSome .methods c) (h.get?_isSome .operations c)

theorem Path.respondsTo {events : List Event} (path : Path w events w') {c : ClassRef}
    {name : String} (hname : w.respondsTo c name = true) : w'.respondsTo c name = true := by
  induction path with
  | refl => exact hname
  | step _ h ih => exact h.respondsTo ih

theorem isSome_member?_iff {c : ClassRef} {name : String} :
    (w.member? c name).isSome ↔ w.respondsTo c name = true := by
  rw [respondsTo_iff, World.member?, MemberTable.of, MemberTable.of]
  cases (w.classState c).methods.get? name <;>
    cases (w.classState c).operations.get? name <;> simp

/-- A request that was answered asked for something that the class responds to. -/
theorem Run.respondsTo_of_firstRequest (run : Run history w) {i : InstanceRef} {key : String}
    {first : MemberRequest} (hfirst : firstRequest i key history = some first) :
    w.respondsTo first.receiver.cls first.name = true := by
  induction run with
  | refl => cases hfirst
  | @step earlier event middle after path h ih =>
    rw [firstRequest] at hfirst
    cases hearlier : firstRequest i key earlier with
    | some request =>
      rw [hearlier] at hfirst
      cases hfirst
      exact h.respondsTo (ih hearlier)
    | none =>
      rw [hearlier, Option.none_or] at hfirst
      have hpersists : _ → after.respondsTo first.receiver.cls first.name = true := h.respondsTo
      cases h with
      | @bind _ scope j name appendsReceiver bound hj h =>
        rw [Event.request?] at hfirst
        split at hfirst
        · rename_i hkey
          cases hfirst
          have hkept := Run.boundMethods_eq path i key
          rw [hearlier, ← World.instanceState_congr hkey.1, ← hkey.2,
            Option.map_eq_none_iff] at hkept
          rcases bind_done h with ⟨-, hfind⟩ | ⟨hresponds, -⟩
          · rw [hkept] at hfind
            cases hfind
          · exact hpersists hresponds
        · cases hfirst
      | _ => cases hfirst

/-! ## How requests are served -/

/-- A bound method that runs the member of a name on an instance whenever the instance is
alive, with the arguments that it is called with and, if it is to, the receiver. -/
structure BoundMethod.Runs (bound : BoundMethod) (i : InstanceRef) (name : String)
    (appendsReceiver : Bool) : Prop where
  receiver_eq : bound.receiver = i
  name_eq : bound.name = name
  call_eq : ∀ (_ : Host) (args : List Value) (scope : Scope) (w : World) (member : Member),
    w.isAlive scope.held (.inst i) = true → w.member? i.cls name = some member →
      bound.call args scope w =
        Eval.holding (.values [.inst i])
          (member.invoke i i.cls (if appendsReceiver then args ++ [.inst i] else args)) scope w

/-- A request is served as it should be: if the class responds to the name, it gives a
bound method that runs the member, which will not go away; otherwise it fails. -/
def Served (w : World) (i : InstanceRef) (name : String) (appendsReceiver : Bool) : Prop :=
  ∀ scope, if w.respondsTo i.cls name then
    ∃ bound after, i.bind name appendsReceiver scope w = .done bound after ∧
      bound.Runs i name appendsReceiver ∧
      ∀ events later, Path after events later → (later.member? i.cls name).isSome
  else i.bind name appendsReceiver scope w = .failed (i.cls.unknownMember name) w

theorem runs_of_request {bound : BoundMethod} {i : InstanceRef} {name : String}
    {appendsReceiver : Bool} (h : bound.request = ⟨i, name, appendsReceiver⟩) :
    bound.Runs i name appendsReceiver := by
  obtain ⟨id, receiver, name', appends⟩ := bound
  cases h
  refine ⟨rfl, rfl, fun host args scope w member halive hmember => ?_⟩
  simp only [BoundMethod.call, callBound, Eval.bind_apply, Eval.isAlive_apply, halive, if_true,
    Eval.reads_apply, hmember]

variable {i : InstanceRef} {name : String} {appendsReceiver : Bool}

/-- After a first request every other one under the key gets what that one got. -/
theorem Run.bind_of_firstRequest (run : Run history w) {first : MemberRequest}
    (hfirst : firstRequest i (bindingKey name appendsReceiver) history = some first)
    (scope : Scope) :
    ∃ bound, i.bind name appendsReceiver scope w = .done bound w ∧ bound.request = first := by
  have hkept := run.boundMethods_eq i (bindingKey name appendsReceiver)
  rw [hfirst, Option.map_eq_some_iff] at hkept
  obtain ⟨bound, hfind, hrequest⟩ := hkept
  refine ⟨bound, ?_, hrequest⟩
  rw [bind_eq, hfind]

/-- Before that a request is served as it should be. -/
theorem Run.served_of_firstRequest_eq_none (run : Run history w)
    (hfirst : firstRequest i (bindingKey name appendsReceiver) history = none) :
    Served w i name appendsReceiver := by
  intro scope
  have hkept := run.boundMethods_eq i (bindingKey name appendsReceiver)
  rw [hfirst, Option.map_eq_none_iff] at hkept
  rw [bind_eq, hkept]
  split
  · rename_i hresponds
    refine ⟨_, _, rfl, runs_of_request rfl, fun events later path => ?_⟩
    exact isSome_member?_iff.mpr (path.respondsTo hresponds)
  · rfl

/-- **How requests are served.** A request is served as it should be exactly when no first
request under its key was another one, that is, one of the other form for the name with
which it shares the key. Otherwise it is answered, whatever the class responds to, with
the bound method of that first request. -/
theorem served_iff (run : Run history w) (i : InstanceRef) (name : String)
    (appendsReceiver : Bool) :
    (Served w i name appendsReceiver ↔
      ∀ first, firstRequest i (bindingKey name appendsReceiver) history = some first →
        first = ⟨i, name, appendsReceiver⟩) ∧
    ∀ first, firstRequest i (bindingKey name appendsReceiver) history = some first →
      ∀ scope, ∃ bound, i.bind name appendsReceiver scope w = .done bound w ∧
        bound.request = first := by
  refine ⟨⟨fun hserved first hfirst => ?_, fun hfirst => ?_⟩,
    fun first hfirst => run.bind_of_firstRequest hfirst⟩
  · obtain ⟨bound, hbind, hrequest⟩ := run.bind_of_firstRequest hfirst {}
    have hbound := hserved {}
    rw [hbind] at hbound
    split at hbound
    · obtain ⟨_, _, hdone, hruns, -⟩ := hbound
      cases hdone
      subst hrequest
      have hkey := firstRequest_key hfirst
      simp only [BoundMethod.request, hruns.name_eq] at hkey
      rw [BoundMethod.request, hruns.receiver_eq, hruns.name_eq, form_eq_of_bindingKey hkey]
    · cases hbound
  · cases hrequest : firstRequest i (bindingKey name appendsReceiver) history with
    | none => exact run.served_of_firstRequest_eq_none hrequest
    | some first =>
      have hsame := hfirst first hrequest
      rw [hsame] at hrequest
      intro scope
      obtain ⟨bound, hbind, hbound⟩ := run.bind_of_firstRequest hrequest scope
      have hresponds := run.respondsTo_of_firstRequest hrequest
      rw [if_pos hresponds]
      refine ⟨bound, w, hbind, runs_of_request hbound, fun events later path => ?_⟩
      exact isSome_member?_iff.mpr (path.respondsTo hresponds)

/-! ## A name that ends in the suffix -/

/-- A class has a method and another one whose name is that of the first with the suffix,
and its instance is asked for the first one in the second form. -/
theorem exists_run_twins :
    ∃ w bound, Run [.memberAsked ⟨0, ⟨0, none⟩⟩ "m" true bound, .constructed ⟨0, ⟨0, none⟩⟩,
        .declared ⟨0, none⟩ { methods := [("m", .undefined), ("m_k", .none)] } 0] w ∧
      w.respondsTo ⟨0, none⟩ "m_k" = true := by
  let plan : ClassPlan := { methods := [("m", .undefined), ("m_k", .none)] }
  obtain ⟨w, hdeclare, hclasses, hinstances, -⟩ := declareClass_eq plan {} {}
  have hempty : w.instances.size = 0 := by
    rw [hinstances]
    rfl
  have hstate : w.classState ⟨0, none⟩ = ({} : World).started plan := by
    rw [World.classState, hclasses]
    rfl
  have hresponds : w.respondsTo ⟨0, none⟩ "m" = true ∧ w.respondsTo ⟨0, none⟩ "m_k" = true := by
    rw [World.respondsTo, World.respondsTo, hstate]
    exact ⟨rfl, rfl⟩
  have hconstruct := constructBare_eq ⟨0, none⟩ {} w
  rw [hempty] at hconstruct
  have run : Run _ _ := (Path.refl.step (.declare hdeclare)).step (.construct hconstruct)
  generalize hbuilt : w.addInstance { properties := (w.classState ⟨0, none⟩).properties.all } =
    built at run
  have hbind := bind_eq ⟨0, ⟨0, none⟩⟩ "m" true {} built
  have hkept : (built.instanceState ⟨0, ⟨0, none⟩⟩).boundMethods = [] := by
    rw [← hbuilt, World.instanceState_addInstance, if_pos hempty.symm]
  have hmember : built.respondsTo ⟨0, none⟩ "m" = true := by
    rw [← hbuilt]
    exact hresponds.1
  rw [hkept, Entries.find?_nil, if_pos hmember] at hbind
  have hindex : 0 < built.instances.size := by
    rw [← hbuilt, World.addInstance, Array.size_push]
    exact Nat.succ_pos _
  refine ⟨_, _, run.step (.bind hindex hbind), ?_⟩
  have hclass : built.respondsTo ⟨0, none⟩ "m_k" = true := by
    rw [← hbuilt]
    exact hresponds.2
  exact hclass

/-- Of the two requests of such an instance the one that was made is served as it should
be, and the other one is not. -/
theorem served_iff_twins :
    ∃ history w, Run history w ∧ Served w ⟨0, ⟨0, none⟩⟩ "m" true ∧
      ¬ Served w ⟨0, ⟨0, none⟩⟩ "m_k" false := by
  obtain ⟨w, bound, run, -⟩ := exists_run_twins
  obtain ⟨hserved, -⟩ := served_iff run ⟨0, ⟨0, none⟩⟩ "m" true
  obtain ⟨hserved', -⟩ := served_iff run ⟨0, ⟨0, none⟩⟩ "m_k" false
  refine ⟨_, w, run, hserved.mpr fun first hfirst => ?_, fun h => ?_⟩
  · cases hfirst
    rfl
  · have hsame := hserved'.mp h ⟨⟨0, ⟨0, none⟩⟩, "m", true⟩ rfl
    exact absurd (congrArg MemberRequest.name hsame) (by decide)

/-- A request for a method that the class has gives another method in the other form,
because of an earlier request. -/
theorem request_shadowed :
    ∃ history w, Run history w ∧ w.respondsTo ⟨0, none⟩ "m_k" = true ∧
      ∀ scope, ∃ bound, InstanceRef.getMethod ⟨0, ⟨0, none⟩⟩ "m_k" scope w = .done bound w ∧
        bound.name = "m" ∧ bound.appendsReceiver = true := by
  obtain ⟨w, bound, run, hresponds⟩ := exists_run_twins
  refine ⟨_, w, run, hresponds, fun scope => ?_⟩
  obtain ⟨found, hdone, hrequest⟩ : ∃ bound,
      InstanceRef.bind ⟨0, ⟨0, none⟩⟩ "m_k" false scope w = .done bound w ∧
        bound.request = ⟨⟨0, ⟨0, none⟩⟩, "m", true⟩ := run.bind_of_firstRequest rfl scope
  refine ⟨found, hdone, ?_, ?_⟩
  · exact congrArg MemberRequest.name hrequest
  · exact congrArg MemberRequest.appendsReceiver hrequest

end DynamicObjects
