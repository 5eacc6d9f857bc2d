import DynamicObjects.Proofs.Instances.Receivers
import DynamicObjects.Proofs.Runs.References

/-!
# Bound operations that are handed out again

A class keeps the bound operations that it has handed out, by name, and gives the same one
when asked again. What it keeps is never stale: adding an operation makes the class forget
the one that it kept under the name, whether the operation that it replaces was the class's
own or a parent's, and nothing else changes what the class answers for the name.

The history of a run tells what is kept under a name, which is what was handed out first
after the latest replacement (`Run.find?_boundOperations`). That it is bound to the class
and to what the class answers is an invariant of steps (`Step.boundOperations_current`).

* `Event.replaces`: the events after which an operation is another one.
* `operation_cache_coherent`: what requests and calls of operations do in a run.
-/

namespace DynamicObjects

open Script

namespace Entries

variable {κ α : Type} [DecidableEq κ] {entries : Entries κ α}

theorem keys_erase_sublist (key : κ) (entries : Entries κ α) :
    (keys (erase key entries)).Sublist (keys entries) := by
  induction entries with
  | nil => exact List.Sublist.slnil
  | cons entry rest ih =>
    rw [erase]
    split
    · exact List.sublist_cons_self _ _
    · exact ih.cons_cons _

theorem Distinct.erase (h : Distinct entries) (key : κ) : Distinct (erase key entries) :=
  List.Nodup.sublist (keys_erase_sublist key entries) h

theorem Distinct.keep (h : Distinct entries) (key : κ) (value : α) :
    Distinct (keep key value entries) := by
  rw [Entries.keep]
  split
  · exact h
  · exact nodup_insert h

/-- A key that occurs once is gone when it is removed. -/
theorem find?_erase (h : Distinct entries) (key other : κ) :
    find? other (erase key entries) = if key = other then none else find? other entries := by
  induction entries with
  | nil => simp [erase]
  | cons entry rest ih =>
    obtain ⟨k, value⟩ := entry
    obtain ⟨hfresh, hrest⟩ := List.nodup_cons.mp h
    have ih := ih hrest
    by_cases hk : k = key
    · rw [erase, if_pos hk, find?]
      split
      · rename_i hother
        rw [← hother, ← hk]
        exact find?_eq_none_iff.mpr hfresh
      · rename_i hother
        rw [if_neg (hk ▸ hother)]
    · rw [erase, if_neg hk, find?, ih, find?]
      split
      · rename_i hother
        rw [if_neg fun hkey => hk (hother.trans hkey.symm)]
      · rfl

end Entries

/-! ## What a class keeps -/

namespace Event

/-- An operation is added to a class under a name. -/
def replaces (c : ClassRef) (name : String) : Event → Prop
  | operationAdded d routine => d.index = c.index ∧ routine.name = name
  | _ => False

/-- What a class hands out under a name by an event. -/
def handsOut? (c : ClassRef) (name : String) : Event → Option BoundOperation
  | operationAsked d key bound => if d.index = c.index ∧ key = name then some bound else none
  | _ => none

instance (c : ClassRef) (name : String) : (event : Event) → Decidable (event.replaces c name)
  | operationAdded _ _ => inferInstanceAs (Decidable (_ ∧ _))
  | declared _ _ _ | methodAdded _ _ | sharedSet _ _ _ | operationAsked _ _ _ | constructed _
  | propertySet _ _ _ | memberAsked _ _ _ _ | ancestorAsked _ _ _ | elsewhere =>
    inferInstanceAs (Decidable False)

end Event

variable {w w' : World} {event : Event} {history events : List Event} {c : ClassRef}
  {name : String}

theorem Step.distinct_boundOperations (h : Step w event w')
    (hdistinct : Entries.Distinct (w.classState c).boundOperations) :
    Entries.Distinct (w'.classState c).boundOperations := by
  rw [h.classState_eq c]
  cases event with
  | declared d plan id =>
    rw [Event.onClass]
    split
    · exact List.nodup_nil
    · exact hdistinct
  | operationAdded d routine =>
    rw [Event.onClass]
    split
    · exact hdistinct.erase _
    · exact hdistinct
  | operationAsked d key bound =>
    rw [Event.onClass]
    split
    · exact hdistinct.keep _ _
    · exact hdistinct
  | methodAdded _ _ | sharedSet _ _ _ =>
    rw [Event.onClass]
    split <;> exact hdistinct
  | constructed _ | propertySet _ _ _ | memberAsked _ _ _ _ | ancestorAsked _ _ _ | elsewhere =>
    exact hdistinct

theorem Run.distinct_boundOperations (run : Run history w) :
    Entries.Distinct (w.classState c).boundOperations := by
  induction run with
  | refl => exact List.nodup_nil
  | step _ h ih => exact h.distinct_boundOperations ih

/-- What a class keeps under a name after a step. -/
theorem Step.find?_boundOperations (h : Step w event w')
    (hdistinct : Entries.Distinct (w.classState c).boundOperations) (name : String) :
    Entries.find? name (w'.classState c).boundOperations =
      if event.replaces c name then none
      else (Entries.find? name (w.classState c).boundOperations).or (event.handsOut? c name) := by
  have hstate := h.classState_eq c
  rw [hstate]
  cases event with
  | declared d plan id =>
    rw [Event.onClass]
    split
    · rename_i hindex
      rw [h.classState_of_origin (if_pos hindex.symm)]
      rfl
    · exact (Option.or_none).symm
  | operationAdded d routine =>
    rw [Event.onClass]
    by_cases hindex : d.index = c.index
    · rw [if_pos hindex, Entries.find?_erase hdistinct]
      simp only [Event.replaces, hindex, true_and, Event.handsOut?, Option.or_none]
    · rw [if_neg hindex, if_neg fun hreplaces => hindex hreplaces.1]
      exact (Option.or_none).symm
  | operationAsked d key bound =>
    have hreplaces : ¬(Event.operationAsked d key bound).replaces c name := not_false
    rw [Event.onClass, if_neg hreplaces, Event.handsOut?]
    by_cases hindex : d.index = c.index
    · rw [if_pos hindex, Entries.find?_keep]
      by_cases hkey : key = name
      · rw [if_pos hkey, if_pos ⟨hindex, hkey⟩, hkey]
        cases Entries.find? name (w.classState c).boundOperations <;> rfl
      · rw [if_neg hkey, if_neg fun hasked => hkey hasked.2, Option.or_none]
    · rw [if_neg hindex, if_neg fun hasked => hindex hasked.1, Option.or_none]
  | methodAdded _ _ | sharedSet _ _ _ =>
    rw [Event.onClass]
    split <;> exact (Option.or_none).symm
  | constructed _ | propertySet _ _ _ | memberAsked _ _ _ _ | ancestorAsked _ _ _ | elsewhere =>
    exact (Option.or_none).symm

/-- What a class answers for a name it answers until an operation is added under the name. -/
theorem Step.get?_operations (h : Step w event w') (hreplaces : ¬event.replaces c name)
    {routine : Routine} (hroutine : (w.classState c).operations.get? name = some routine) :
    (w'.classState c).operations.get? name = some routine := by
  cases horigin : event.origin? c with
  | some origin =>
    rw [h.classState_of_origin horigin] at hroutine
    cases hroutine
  | none =>
    have hslots := h.slots_eq .operations c
    rw [World.tableBefore, horigin] at hslots
    have hdeclares : Entries.find? name (event.declares .operations c).reverse = none := by
      cases event with
      | declared d plan id =>
        rw [Event.origin?] at horigin
        rw [Event.declares, if_neg fun hindex => ?_]
        · rfl
        · rw [if_pos hindex] at horigin
          cases horigin
      | operationAdded d added =>
        rw [Event.declares]
        split
        · rename_i hindex
          exact if_neg fun hname => hreplaces ⟨hindex, hname⟩
        · rfl
      | _ => rfl
    rw [MemberTable.of] at hslots
    rw [Members.get?_eq_or, Members.getOwn?_congr hslots, Members.getOwn?_declareAll, hdeclares,
      Members.getInherited?_congr hslots, Members.getInherited?_declareAll, Option.none_or,
      ← Members.get?_eq_or]
    exact hroutine

/-! ## Coherence -/

/-- A bound operation is what a class should give for a name: it is bound to the class and to
what the class answers for the name now, and its number has been taken. -/
structure BoundOperation.Current (history : List Event) (w : World) (c : ClassRef)
    (name : String) (bound : BoundOperation) : Prop where
  handedOut : HandedOut history (.cls bound.cls)
  index_eq : bound.cls.index = c.index
  operation_eq : (w.classState c).operations.get? name = some bound.operation
  id_lt : bound.id < w.nextId

namespace BoundOperation.Current

variable {bound : BoundOperation}

theorem cls_eq (current : bound.Current history w c name) (run : Run history w)
    (hc : HandedOut history (.cls c)) : bound.cls = c :=
  run.cls_eq current.handedOut hc current.index_eq

theorem step (current : bound.Current history w c name) (h : Step w event w')
    (hreplaces : ¬event.replaces c name) : bound.Current (event :: history) w' c name where
  handedOut := handedOut_cons.mpr (.inr current.handedOut)
  index_eq := current.index_eq
  operation_eq := h.get?_operations hreplaces current.operation_eq
  id_lt := Nat.lt_of_lt_of_le current.id_lt h.nextId_le

end BoundOperation.Current

/-- What a class hands out is current. -/
theorem Step.handsOut_current (h : Step w event w')
    (hrefers : ∀ n ∈ event.refersTo, HandedOut history n)
    (hkept : ∀ bound, Entries.find? name (w.classState c).boundOperations = some bound →
      bound.Current history w c name)
    {bound : BoundOperation} (hasked : event.handsOut? c name = some bound) :
    bound.Current (event :: history) w' c name := by
  cases event with
  | operationAsked d key asked =>
    rw [Event.handsOut?] at hasked
    split at hasked
    · rename_i hplace
      cases hasked
      obtain ⟨hindex, rfl⟩ := hplace
      have hstate : w.classState d = w.classState c := World.classState_congr hindex
      cases h with
      | @getOperation _ scope _ _ _ hd hdone =>
        have hstep := Step.getOperation hd hdone
        rcases getOperation_done hdone with ⟨rfl, hfind⟩ | ⟨routine, hget, -, rfl, hafter⟩
        · rw [hstate] at hfind
          exact (hkept bound hfind).step hstep not_false
        · rw [hstate] at hget
          refine ⟨handedOut_cons.mpr (.inr (hrefers _ (List.mem_singleton_self _))), hindex,
            hstep.get?_operations not_false hget, ?_⟩
          rw [hafter]
          exact Nat.lt_succ_self _
    · cases hasked
  | _ => cases hasked

/-- **What a class keeps is current**, after every step. -/
theorem Run.boundOperations_current (run : Run history w) (grounded : Grounded history)
    {bound : BoundOperation}
    (hbound : Entries.find? name (w.classState c).boundOperations = some bound) :
    bound.Current history w c name := by
  induction run generalizing bound with
  | refl => cases hbound
  | @step earlier event middle after path h ih =>
    cases grounded with
    | cons hrefers grounded =>
      have hkept (bound : BoundOperation) :
          Entries.find? name (middle.classState c).boundOperations = some bound →
            bound.Current earlier middle c name := ih grounded
      rw [h.find?_boundOperations (Run.distinct_boundOperations path)] at hbound
      split at hbound
      · cases hbound
      · rename_i hreplaces
        rcases Option.or_eq_some_iff.mp hbound with hfind | ⟨-, hasked⟩
        · exact (hkept bound hfind).step h hreplaces
        · exact h.handsOut_current hrefers hkept hasked

/-! ## Requests one after the other -/

/-- What is kept stays until an operation is added under the name. -/
theorem Path.boundOperation_kept (run : Run history w) (path : Path w events w')
    {bound : BoundOperation}
    (hbound : Entries.find? name (w.classState c).boundOperations = some bound)
    (hreplaces : ∀ event ∈ events, ¬event.replaces c name) :
    Entries.find? name (w'.classState c).boundOperations = some bound := by
  induction path with
  | refl => exact hbound
  | step path h ih =>
    have hdistinct := Run.distinct_boundOperations (c := c) (run.trans path)
    rw [h.find?_boundOperations hdistinct, if_neg (hreplaces _ List.mem_cons_self),
      ih fun event hevent => hreplaces event (List.mem_cons_of_mem _ hevent)]
    rfl

/-- What is handed out for the first time gets a new number. -/
theorem Step.id_of_handsOut (h : Step w event w')
    (hnone : Entries.find? name (w.classState c).boundOperations = none)
    {bound : BoundOperation} (hasked : event.handsOut? c name = some bound) :
    bound.id = w.nextId := by
  cases h with
  | @getOperation _ scope d key asked hd hdone =>
    rw [Event.handsOut?] at hasked
    split at hasked
    · rename_i hplace
      cases hasked
      obtain ⟨hindex, rfl⟩ := hplace
      rcases getOperation_done hdone with ⟨rfl, hfind⟩ | ⟨_, -, -, rfl, -⟩
      · rw [World.classState_congr hindex, hnone] at hfind
        cases hfind
      · rfl
    · cases hasked
  | _ => cases hasked

/-- What is kept after an operation was added under the name has a number that was not taken
before. -/
theorem Path.boundOperation_fresh (run : Run history w) (path : Path w events w')
    (hreplaced : ∃ event ∈ events, event.replaces c name) {bound : BoundOperation}
    (hbound : Entries.find? name (w'.classState c).boundOperations = some bound) :
    w.nextId ≤ bound.id := by
  induction path generalizing bound with
  | refl =>
    obtain ⟨_, hevent, _⟩ := hreplaced
    cases hevent
  | @step events event middle after path h ih =>
    have hdistinct := Run.distinct_boundOperations (c := c) (run.trans path)
    rw [h.find?_boundOperations hdistinct] at hbound
    split at hbound
    · cases hbound
    · rename_i hreplaces
      have hearlier : ∃ event ∈ events, event.replaces c name := by
        obtain ⟨replacing, hevent, hreplacing⟩ := hreplaced
        rcases List.mem_cons.mp hevent with rfl | hevent
        · exact absurd hreplacing hreplaces
        · exact ⟨replacing, hevent, hreplacing⟩
      rcases Option.or_eq_some_iff.mp hbound with hfind | ⟨hfind, hasked⟩
      · exact ih hearlier hfind
      · rw [h.id_of_handsOut hfind hasked]
        exact path.nextId_le

/-! ## Requests and calls -/

/-- A request or a call fails because a class has no operation of the name: whatever bodies
do, it fails and leaves the world as it was. -/
def Unanswered {α : Type} (request : Host → Eval α) (c : ClassRef) (name : String)
    (scope : Scope) (w : World) : Prop :=
  ∀ host, request host scope w = .failed (c.unknownMember name) w

theorem callOperation_eq [Host] (c : ClassRef) (name : String) (args : List Value)
    (scope : Scope) (w : World) :
    c.callOperation name args scope w =
      match (w.classState c).operations.get? name with
      | some routine => Host.run routine.body ⟨.cls c, args⟩ scope w
      | none => .failed (c.unknownMember name) w := by
  simp only [ClassRef.callOperation, ClassRef.operation, Eval.bind_apply, Eval.reads_apply]
  cases (w.classState c).operations.get? name <;> rfl

theorem unanswered_callOperation_iff {args : List Value} {scope : Scope} :
    Unanswered (fun _ => c.callOperation name args) c name scope w ↔
      (w.classState c).operations.get? name = none := by
  have hcall (host : Host) := @callOperation_eq host c name args scope w
  constructor
  · intro h
    -- where bodies do not run, no call that comes to one fails
    have hreply := (hcall (hostWithin 0)).symm.trans (h (hostWithin 0))
    split at hreply
    · cases hreply
    · assumption
  · intro hnone host
    refine (hcall host).trans ?_
    rw [hnone]

/-- A class that has the operation of a name answers requests for it. -/
theorem exists_getOperation
    (hget : ((w.classState c).operations.get? name).isSome) (scope : Scope) :
    ∃ bound after, c.getOperation name scope w = .done bound after := by
  obtain ⟨routine, hget⟩ := Option.isSome_iff_exists.mp hget
  rw [getOperation_eq]
  split
  · exact ⟨_, _, rfl⟩
  · rw [hget]
    exact ⟨_, _, rfl⟩

theorem Run.unanswered_getOperation_iff (run : Run history w) (grounded : Grounded history)
    {scope : Scope} :
    Unanswered (fun _ => c.getOperation name) c name scope w ↔
      (w.classState c).operations.get? name = none := by
  constructor
  · intro h
    by_contra hsome
    obtain ⟨bound, after, hdone⟩ := exists_getOperation (Option.isSome_iff_ne_none.mpr hsome) scope
    have hreply := hdone.symm.trans (h (hostWithin 0))
    cases hreply
  · intro hnone host
    refine (getOperation_eq c name scope w).trans ?_
    split
    · rename_i bound hbound
      have hcurrent := run.boundOperations_current grounded hbound
      rw [hcurrent.operation_eq] at hnone
      cases hnone
    · rw [hnone]

theorem Path.get?_operations (path : Path w events w')
    (hreplaces : ∀ event ∈ events, ¬event.replaces c name) {routine : Routine}
    (hroutine : (w.classState c).operations.get? name = some routine) :
    (w'.classState c).operations.get? name = some routine := by
  induction path with
  | refl => exact hroutine
  | step _ h ih =>
    have hearlier := ih fun event hevent => hreplaces event (List.mem_cons_of_mem _ hevent)
    exact h.get?_operations (hreplaces _ List.mem_cons_self) hearlier

theorem Path.get?_operations_isSome (path : Path w events w')
    (hget : ((w.classState c).operations.get? name).isSome) :
    ((w'.classState c).operations.get? name).isSome := by
  induction path with
  | refl => exact hget
  | step _ h ih => exact h.get?_isSome .operations c ih

/-- A bound operation that runs an operation of a class from some moment on, whatever becomes
of the class. Until an operation is added under the name, that is what the class itself runs
under the name, and it is what requests get; from then on requests get another one. -/
structure BoundOperation.Serves (bound : BoundOperation) (c : ClassRef) (name : String)
    (routine : Routine) (w : World) : Prop where
  call_eq : ∀ {events : List Event} {later : World}, Path w events later →
    ∀ (_ : Host) (args : List Value) (scope : Scope), later.Alive scope.held (.cls c) →
      bound.call args scope later = Host.run routine.body ⟨.cls c, args⟩ scope later
  call_current : ∀ {events : List Event} {later : World}, Path w events later →
    (∀ event ∈ events, ¬event.replaces c name) →
    ∀ (_ : Host) (args : List Value) (scope : Scope), later.Alive scope.held (.cls c) →
      bound.call args scope later = c.callOperation name args scope later
  same_iff : ∀ {events : List Event} {later : World}, Path w events later →
    ∀ scope, ∃ bound' after, c.getOperation name scope later = .done bound' after ∧
      (bound' = bound ↔ ∀ event ∈ events, ¬event.replaces c name) ∧
      (bound'.id = bound.id → bound' = bound)

/-- What a request gives serves as it should. -/
theorem Run.serves (run : Run history w) (grounded : Grounded history)
    (hc : HandedOut history (.cls c)) {scope : Scope} {bound : BoundOperation} {after : World}
    (h : c.getOperation name scope w = .done bound after) :
    bound.Serves c name bound.operation after := by
  have hstep := Step.getOperation (run.stores hc) h
  have run' : Run _ after := run.step hstep
  have hrefers : ∀ n ∈ (Event.operationAsked c name bound).refersTo, HandedOut history n := by
    intro n hn
    rw [List.mem_singleton.mp hn]
    exact hc
  have hasked : (Event.operationAsked c name bound).handsOut? c name = some bound :=
    if_pos ⟨rfl, rfl⟩
  have hcurrent := hstep.handsOut_current hrefers
    (fun _ => run.boundOperations_current grounded) hasked
  have hkept : Entries.find? name (after.classState c).boundOperations = some bound := by
    have hreplaces : ¬(Event.operationAsked c name bound).replaces c name := not_false
    rw [hstep.find?_boundOperations run.distinct_boundOperations, if_neg hreplaces, hasked]
    rcases getOperation_done h with ⟨-, hfind⟩ | ⟨_, -, hfind, -⟩ <;> rw [hfind] <;> rfl
  have hcls : bound.cls = c := hcurrent.cls_eq run' (handedOut_cons.mpr (.inr hc))
  have hcall {later : World} (host : Host) (args : List Value) (scope : Scope)
      (halive : later.Alive scope.held (.cls c)) :
      bound.call args scope later =
        Host.run bound.operation.body ⟨.cls c, args⟩ scope later := by
    rw [bound.call_eq, hcls, if_pos (World.isAlive_iff.mpr halive)]
  refine ⟨fun _ => hcall, fun path hreplaces host args scope halive => ?_,
    fun {events later} path scope => ?_⟩
  · have hresolved := path.get?_operations hreplaces hcurrent.operation_eq
    rw [hcall host args scope halive, callOperation_eq, hresolved]
  · have hget : ((after.classState c).operations.get? name).isSome := by
      rw [hcurrent.operation_eq]
      rfl
    obtain ⟨bound', after', hdone⟩ :=
      exists_getOperation (path.get?_operations_isSome hget) scope
    have hsame (hreplaces : ∀ event ∈ events, ¬event.replaces c name) : bound' = bound := by
      rw [getOperation_eq, Path.boundOperation_kept run' path hkept hreplaces] at hdone
      cases hdone
      rfl
    have hother (hreplaced : ∃ event ∈ events, event.replaces c name) :
        bound.id < bound'.id := by
      refine Nat.lt_of_lt_of_le hcurrent.id_lt ?_
      rcases getOperation_done hdone with ⟨-, hfind⟩ | ⟨_, -, -, rfl, -⟩
      · exact Path.boundOperation_fresh run' path hreplaced hfind
      · exact path.nextId_le
    refine ⟨bound', after', hdone, ⟨?_, hsame⟩, fun hid => hsame ?_⟩
    · rintro rfl event hevent hreplaces
      exact Nat.lt_irrefl _ (hother ⟨event, hevent, hreplaces⟩)
    · intro event hevent hreplaces
      exact Nat.ne_of_lt (hother ⟨event, hevent, hreplaces⟩) hid.symm

/-- **What a class keeps is coherent.** At every moment of every run, each bound operation
that a class keeps under a name is bound to the class and is what the class resolves the name
to. A request fails for want of an operation exactly when a call does. Otherwise it is
answered, and what it gives runs the operation from then on, as the class does until an
operation is added under the name, and is given again until then and not later. -/
theorem operation_cache_coherent (run : Run history w) (grounded : Grounded history)
    {c : ClassRef} (hc : HandedOut history (.cls c)) :
    (∀ name bound, (name, bound) ∈ (w.classState c).boundOperations →
      bound.cls = c ∧ (w.classState c).operations.get? name = some bound.operation) ∧
    ∀ name scope,
      (∀ args, Unanswered (fun _ => c.getOperation name) c name scope w ↔
        Unanswered (fun _ => c.callOperation name args) c name scope w) ∧
      ∀ routine, (w.classState c).operations.get? name = some routine →
        ∃ bound after, c.getOperation name scope w = .done bound after ∧
          bound.Serves c name routine after := by
  refine ⟨fun name bound hmem => ?_, fun name scope => ⟨fun args => ?_, fun routine hget => ?_⟩⟩
  · rw [← Entries.find?_eq_some_iff run.distinct_boundOperations] at hmem
    have hcurrent := run.boundOperations_current grounded hmem
    exact ⟨hcurrent.cls_eq run hc, hcurrent.operation_eq⟩
  · rw [run.unanswered_getOperation_iff grounded, unanswered_callOperation_iff]
  · have hsome : ((w.classState c).operations.get? name).isSome := by
      rw [hget]
      rfl
    obtain ⟨bound, after, hdone⟩ := exists_getOperation hsome scope
    refine ⟨bound, after, hdone, ?_⟩
    have hoperation : bound.operation = routine := by
      rcases getOperation_done hdone with ⟨-, hfind⟩ | ⟨found, hfound, -, rfl, -⟩
      · have hcurrent := run.boundOperations_current grounded hfind
        exact Option.some.inj (hcurrent.operation_eq.symm.trans hget)
      · exact Option.some.inj (hfound.symm.trans hget)
    rw [← hoperation]
    exact run.serves grounded hc hdone

/-- A class inherits an operation, hands out a bound operation for it, and gets an operation
of its own under the name. The bound operation goes on running the inherited one, and the next
request gives another bound operation. -/
theorem operation_cache_coherent_overridden :
    ∃ w bound after later, (⟨1, none⟩ : ClassRef).getOperation "op" {} w = .done bound after ∧
      Path after [.operationAdded ⟨1, none⟩ ⟨after.nextId, "op", .none⟩] later ∧
      (∀ (_ : Host) (args : List Value) (scope : Scope), later.Alive scope.held (.cls ⟨1, none⟩) →
        bound.call args scope later = Host.run .undefined ⟨.cls ⟨1, none⟩, args⟩ scope later) ∧
      ∃ bound' after', (⟨1, none⟩ : ClassRef).getOperation "op" {} later = .done bound' after' ∧
        bound' ≠ bound := by
  let plan : ClassPlan := { operations := [("op", .undefined)] }
  let subplan : ClassPlan := { parent := some ⟨0, none⟩ }
  obtain ⟨w, hparent, hclasses, -⟩ := declareClass_eq plan {} {}
  obtain ⟨w', hchild, hclasses', -⟩ := declareClass_eq subplan {} w
  have hsize : w.classes.size = 1 := by rw [hclasses, Array.size_push]; rfl
  have hsize' : w'.classes.size = 2 := by rw [hclasses', Array.size_push, hsize]
  rw [hsize] at hchild
  let first : Event := .declared ⟨0, none⟩ plan ({} : World).nextId
  let second : Event := .declared ⟨1, none⟩ subplan w.nextId
  have run : Run [second, first] w' := (Path.refl.step (.declare hparent)).step (.declare hchild)
  have hmade : HandedOut [first] (.cls ⟨0, none⟩) := ⟨first, List.mem_singleton_self _, rfl⟩
  have grounded : Grounded [second, first] := by
    refine .cons (fun n hn => ?_) (.cons (fun n hn => ?_) .nil)
    · rw [List.mem_singleton.mp hn]
      exact hmade
    · cases hn
  have hc : HandedOut [second, first] (.cls ⟨1, none⟩) := ⟨second, List.mem_cons_self, rfl⟩
  obtain ⟨-, hserves⟩ := operation_cache_coherent run grounded hc
  obtain ⟨-, hanswered⟩ := hserves "op" {}
  have hresolved := run.get?_eq .operations ⟨1, none⟩ "op"
  obtain ⟨bound, after, hdone, hbound⟩ := hanswered _ hresolved
  have hstored := (Step.getOperation (run.stores hc) hdone).stores (run.stores hc)
  have hadd : (⟨1, none⟩ : ClassRef).addOperation "op" .none {} after = .done () _ := rfl
  have path : Path after [.operationAdded ⟨1, none⟩ ⟨after.nextId, "op", .none⟩] _ :=
    Path.refl.step (.addOperation hstored hadd)
  obtain ⟨bound', after', hdone', hsame, -⟩ := hbound.same_iff path {}
  refine ⟨w', bound, after, _, hdone, path, hbound.call_eq path, bound', after', hdone', ?_⟩
  intro heq
  exact hsame.mp heq _ List.mem_cons_self ⟨rfl, rfl⟩

end DynamicObjects
