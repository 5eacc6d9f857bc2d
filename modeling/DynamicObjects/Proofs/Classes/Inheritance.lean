import DynamicObjects.Proofs.Members.Lookup
import DynamicObjects.Proofs.Runs.Sessions

/-!
# Inheritance is a snapshot

What a class resolves a name to is told by the history of the run: the latest declaration
that the class made itself, else what its parent resolved the name to when the class was
declared. Going back in the history from there is a walk up the chain of parents, each of
them seen as it was when the next class down was declared.

The tables of a class never go back to its parent. That they answer like the walk is an
invariant of runs (`Run.lookups`): an event changes the tables of one class only, by a row
of declarations on top of what the class had or, if the event declares it, of what its
parent hands down (`Step.slots_eq`). Calls need no case of their own, since all that they
do is done by events (`Session.step_run`).

* `MemberTable.resolvedIn`: the walk.
* `inheritance_snapshot`: the tables, the initializer and new instances follow it.
-/

namespace DynamicObjects

/-! ## The four tables -/

/-- The member tables of a class, by the kind of their entries. -/
inductive MemberTable : Type → Type
  | methods : MemberTable Routine
  | operations : MemberTable Routine
  | shared : MemberTable Value
  | properties : MemberTable Value

/-- The entries of routines, under their names. -/
def Routine.entries (routines : List Routine) : Entries String Routine :=
  routines.map fun routine => (routine.name, routine)

namespace MemberTable

variable {α : Type}

/-- The table in the state of a class. -/
def of : MemberTable α → ClassState → Members α
  | methods, state => state.methods
  | operations, state => state.operations
  | shared, state => state.shared
  | properties, state => state.properties

/-- What a plan declares in the table, in order, its routines numbered from a number on. -/
def planned : MemberTable α → ClassPlan → Nat → Entries String α
  | methods, plan, id => Routine.entries (plan.methodsFrom id)
  | operations, plan, id => Routine.entries (plan.operationsFrom id)
  | shared, plan, _ => plan.shared
  | properties, plan, _ => plan.properties

theorem of_empty (t : MemberTable α) : t.of {} = {} := by cases t <;> rfl

theorem of_inherit (t : MemberTable α) (parent : ClassState) :
    t.of parent.inherit = (t.of parent).inherit := by cases t <;> rfl

end MemberTable

/-! ## Declarations in the history -/

namespace Event

variable {α : Type}

/-- The plan from which a class is declared by an event, and the first number of its
routines. -/
def origin? (c : ClassRef) : Event → Option (ClassPlan × Nat)
  | declared d plan id => if d.index = c.index then some (plan, id) else none
  | _ => none

/-- What a class itself declares in a table by an event, in order. -/
def declares : MemberTable α → ClassRef → Event → Entries String α
  | t, c, declared d plan id => if d.index = c.index then t.planned plan id else []
  | .methods, c, methodAdded d routine =>
    if d.index = c.index then [(routine.name, routine)] else []
  | .operations, c, operationAdded d routine =>
    if d.index = c.index then [(routine.name, routine)] else []
  | .shared, c, sharedSet d name value => if d.index = c.index then [(name, value)] else []
  | _, _, _ => []

/-- The place of the class whose tables an event is directed at. -/
def target? : Event → Option Nat
  | declared c _ _ | methodAdded c _ | operationAdded c _ | sharedSet c _ _ => some c.index
  | _ => none

end Event

namespace MemberTable

variable {α : Type} (t : MemberTable α)

/-- The latest declaration of a name that a class made itself. -/
def declaredIn : List Event → ClassRef → String → Option α
  | [], _, _ => none
  | event :: earlier, c, name =>
    (Entries.find? name (event.declares t c).reverse).or <|
      match event.origin? c with
      | some _ => none
      | none => declaredIn earlier c name

/-- What the parent of a class resolved a name to when the class was declared. -/
def handedDownIn : List Event → ClassRef → String → Option α
  | [], _, _ => none
  | event :: earlier, c, name =>
    match event.origin? c with
    | some (plan, _) =>
      plan.parent.bind fun parent =>
        (t.declaredIn earlier parent name).or (handedDownIn earlier parent name)
    | none => handedDownIn earlier c name

/-- What a class resolves a name to: its own declaration, else what its parent handed
down. -/
def resolvedIn (history : List Event) (c : ClassRef) (name : String) : Option α :=
  (t.declaredIn history c name).or (t.handedDownIn history c name)

end MemberTable

/-- The initializer of a class: its own one, else the one its parent had when the class was
declared. -/
def initializerIn : List Event → ClassRef → Option Routine
  | [], _ => none
  | event :: earlier, c =>
    match event.origin? c with
    | some (plan, id) =>
      (plan.initializerFrom id).or (plan.parent.bind fun parent => initializerIn earlier parent)
    | none => initializerIn earlier c

/-! ## What a step does to the tables -/

namespace Members

variable {α : Type} {members others : Members α}

theorem getOwn?_congr (h : members.slots = others.slots) (name : String) :
    members.getOwn? name = others.getOwn? name := by rw [getOwn?, h, getOwn?]

theorem getInherited?_congr (h : members.slots = others.slots) (name : String) :
    members.getInherited? name = others.getInherited? name := by
  rw [getInherited?, h, getInherited?]

theorem tidy_congr (h : members.slots = others.slots) : members.Tidy ↔ others.Tidy := by
  rw [Tidy, h, Tidy]

theorem slots_declareAll_congr (h : members.slots = others.slots) (entries : Entries String α) :
    (members.declareAll entries).slots = (others.declareAll entries).slots := by
  induction entries generalizing members others with
  | nil => exact h
  | cons entry rest ih =>
    refine ih ?_
    simp only [declare, h]

/-- Full names are beside the slots. -/
theorem slots_declareRoutines (cls : Option String) (routines : List Routine)
    (members : Members Routine) :
    (ClassState.declareRoutines cls routines members).slots =
      (members.declareAll (Routine.entries routines)).slots := by
  induction routines generalizing members with
  | nil => rfl
  | cons routine rest ih =>
    refine (ih _).trans ?_
    refine slots_declareAll_congr ?_ (Routine.entries rest)
    cases cls <;> rfl

end Members

/-- The table that a class of a parent begins with. -/
def World.handsDown {α : Type} (w : World) (t : MemberTable α) : Option ClassRef → Members α
  | some parent => (t.of (w.classState parent)).inherit
  | none => {}

variable {α : Type} {w w' : World} {event : Event} {history : List Event}

theorem World.of_inherited (w : World) (t : MemberTable α) (parent : Option ClassRef) :
    t.of (match parent with
      | some parent => (w.classState parent).inherit
      | none => {}) = w.handsDown t parent := by
  cases parent with
  | none => exact t.of_empty
  | some parent => exact t.of_inherit _

theorem slots_started (w : World) (t : MemberTable α) (plan : ClassPlan) :
    (t.of (w.started plan)).slots =
      ((w.handsDown t plan.parent).declareAll (t.planned plan w.nextId)).slots := by
  rw [← w.of_inherited t]
  cases t with
  | methods =>
    refine Eq.trans ?_ (Members.slots_declareRoutines plan.name _ _)
    simp only [MemberTable.of, World.started, ClassState.build]
    split <;> rfl
  | operations => exact Members.slots_declareRoutines plan.name _ _
  | shared => rfl
  | properties => rfl

/-- The table of a class on which an event builds. -/
def World.tableBefore (w : World) (t : MemberTable α) (c : ClassRef) (event : Event) :
    Members α :=
  match event.origin? c with
  | some (plan, _) => w.handsDown t plan.parent
  | none => t.of (w.classState c)

/-- **What a step does to a table.** It adds a row of declarations. -/
theorem Step.slots_eq (h : Step w event w') (t : MemberTable α) (c : ClassRef) :
    (t.of (w'.classState c)).slots =
      ((w.tableBefore t c event).declareAll (event.declares t c)).slots := by
  rw [h.classState_eq c]
  cases h with
  | @declare _ scope plan d h =>
    by_cases hindex : c.index = d.index
    · rw [Event.onClass, if_pos hindex, slots_started, World.tableBefore, Event.origin?,
        Event.declares, if_pos hindex.symm, if_pos hindex.symm]
    · have hother : ¬d.index = c.index := fun heq => hindex heq.symm
      rw [Event.onClass, if_neg hindex, World.tableBefore, Event.origin?, Event.declares,
        if_neg hother, if_neg hother]
      rfl
  | @addMethod _ scope d name body hd h =>
    cases t with
    | methods =>
      by_cases hindex : d.index = c.index
      · rw [Event.onClass, if_pos hindex, Event.declares, if_pos hindex]
        exact Members.slots_declareRoutines _ [⟨w.nextId, name, body⟩] _
      · rw [Event.onClass, if_neg hindex, Event.declares, if_neg hindex]
        rfl
    | _ =>
      rw [Event.onClass]
      split <;> rfl
  | @addOperation _ scope d name body hd h =>
    cases t with
    | operations =>
      by_cases hindex : d.index = c.index
      · rw [Event.onClass, if_pos hindex, Event.declares, if_pos hindex]
        exact Members.slots_declareRoutines _ [⟨w.nextId, name, body⟩] _
      · rw [Event.onClass, if_neg hindex, Event.declares, if_neg hindex]
        rfl
    | _ =>
      rw [Event.onClass]
      split <;> rfl
  | @setShared _ scope d name value hd h =>
    cases t with
    | shared =>
      by_cases hindex : d.index = c.index
      · rw [Event.onClass, if_pos hindex, Event.declares, if_pos hindex]
        rfl
      · rw [Event.onClass, if_neg hindex, Event.declares, if_neg hindex]
        rfl
    | _ =>
      rw [Event.onClass]
      split <;> rfl
  | @getOperation _ scope d name bound hd h =>
    rw [Event.onClass]
    split <;> cases t <;> rfl
  | construct _ | set _ _ | bind _ _ | getSuper _ _ | elsewhere _ _ _ => cases t <;> rfl

/-- What is not directed at a class leaves its tables and their full names alone. -/
theorem Step.table_frame (h : Step w event w') (c : ClassRef)
    (htarget : event.target? ≠ some c.index) (t : MemberTable α) :
    t.of (w'.classState c) = t.of (w.classState c) := by
  rw [h.classState_eq c]
  cases h with
  | @declare _ scope plan d h =>
    have hother : c.index ≠ d.index := fun heq => htarget (congrArg some heq.symm)
    rw [Event.onClass, if_neg hother]
  | @addMethod _ scope d name body hd h | @addOperation _ scope d name body hd h
  | @setShared _ scope d name value hd h =>
    have hother : d.index ≠ c.index := fun heq => htarget (congrArg some heq)
    rw [Event.onClass, if_neg hother]
  | @getOperation _ scope d name bound hd h =>
    rw [Event.onClass]
    split <;> cases t <;> rfl
  | construct _ | set _ _ | bind _ _ | getSuper _ _ | elsewhere _ _ _ => rfl

theorem Path.table_frame {events : List Event} (path : Path w events w') (c : ClassRef)
    (htarget : ∀ event ∈ events, event.target? ≠ some c.index) (t : MemberTable α) :
    t.of (w'.classState c) = t.of (w.classState c) := by
  induction path with
  | refl => rfl
  | step _ h ih =>
    rw [h.table_frame c (htarget _ List.mem_cons_self) t]
    exact ih fun event hevent => htarget event (List.mem_cons_of_mem _ hevent)

/-! ## Tables follow the history -/

/-- The table on which an event builds, given what the tables were before. -/
theorem lookups_tableBefore {t : MemberTable α}
    (htables : ∀ c : ClassRef, (t.of (w.classState c)).Tidy ∧
      ∀ name, (t.of (w.classState c)).getOwn? name = t.declaredIn history c name ∧
        (t.of (w.classState c)).getInherited? name = t.handedDownIn history c name)
    (c : ClassRef) (event : Event) :
    (w.tableBefore t c event).Tidy ∧
      ∀ name, (Entries.find? name (event.declares t c).reverse).or
          ((w.tableBefore t c event).getOwn? name) = t.declaredIn (event :: history) c name ∧
        (w.tableBefore t c event).getInherited? name =
          t.handedDownIn (event :: history) c name := by
  simp only [World.tableBefore, MemberTable.declaredIn, MemberTable.handedDownIn]
  cases event.origin? c with
  | none =>
    obtain ⟨htidy, hlookups⟩ := htables c
    refine ⟨htidy, fun name => ⟨?_, (hlookups name).2⟩⟩
    rw [(hlookups name).1]
  | some origin =>
    obtain ⟨plan, id⟩ := origin
    cases hparent : plan.parent with
    | none =>
      simp only [hparent, World.handsDown, Option.bind_none]
      exact ⟨Members.tidy_empty, fun name => ⟨rfl, rfl⟩⟩
    | some parent =>
      obtain ⟨htidy, hlookups⟩ := htables parent
      simp only [hparent, World.handsDown, Option.bind_some]
      refine ⟨htidy.inherit, fun name => ⟨?_, ?_⟩⟩
      · rw [Members.getOwn?_inherit name htidy]
      · rw [Members.getInherited?_inherit name htidy, Members.get?_eq_or, (hlookups name).1,
          (hlookups name).2]

/-- **Tables follow the history.** -/
theorem Run.lookups (run : Run history w) (t : MemberTable α) (c : ClassRef) :
    (t.of (w.classState c)).Tidy ∧
      ∀ name, (t.of (w.classState c)).getOwn? name = t.declaredIn history c name ∧
        (t.of (w.classState c)).getInherited? name = t.handedDownIn history c name := by
  induction run generalizing c with
  | refl =>
    have hempty : t.of (({} : World).classState c) = {} := t.of_empty
    rw [hempty]
    exact ⟨Members.tidy_empty, fun name => ⟨rfl, rfl⟩⟩
  | @step earlier event middle after _ h ih =>
    have hslots := h.slots_eq t c
    obtain ⟨htidy, hlookups⟩ := lookups_tableBefore ih c event
    refine ⟨(Members.tidy_congr hslots).mpr (htidy.declareAll _), fun name => ⟨?_, ?_⟩⟩
    · rw [Members.getOwn?_congr hslots, Members.getOwn?_declareAll, (hlookups name).1]
    · rw [Members.getInherited?_congr hslots, Members.getInherited?_declareAll, (hlookups name).2]

theorem Run.get?_eq (run : Run history w) (t : MemberTable α) (c : ClassRef) (name : String) :
    (t.of (w.classState c)).get? name = t.resolvedIn history c name := by
  obtain ⟨-, hlookups⟩ := run.lookups t c
  rw [Members.get?_eq_or, (hlookups name).1, (hlookups name).2, MemberTable.resolvedIn]

/-- A class is declared when there is nothing in its place yet. -/
theorem Step.classState_of_origin (h : Step w event w') {c : ClassRef}
    {origin : ClassPlan × Nat} (horigin : event.origin? c = some origin) :
    w.classState c = {} := by
  cases h with
  | @declare _ scope plan d h =>
    obtain ⟨after, hdone, -⟩ := declareClass_eq plan scope w
    rw [hdone] at h
    cases h
    rw [Event.origin?] at horigin
    split at horigin
    · rename_i hindex
      rw [World.classState, ← hindex, Array.getElem?_size]
      rfl
    · cases horigin
  | _ => cases horigin

/-- What a class has an entry for it keeps having one for. -/
theorem Step.get?_isSome (h : Step w event w') (t : MemberTable α) (c : ClassRef) {name : String}
    (hname : ((t.of (w.classState c)).get? name).isSome) :
    ((t.of (w'.classState c)).get? name).isSome := by
  cases horigin : event.origin? c with
  | some origin =>
    rw [h.classState_of_origin horigin, t.of_empty] at hname
    cases hname
  | none =>
    have hslots := h.slots_eq t c
    rw [World.tableBefore, horigin] at hslots
    rw [Members.get?_eq_or] at hname ⊢
    rw [Members.getOwn?_congr hslots, Members.getOwn?_declareAll,
      Members.getInherited?_congr hslots, Members.getInherited?_declareAll, Option.or_assoc]
    cases Entries.find? name (event.declares t c).reverse with
    | none => exact hname
    | some entry => rfl

/-! ## Initializers -/

theorem Step.initializer_eq (h : Step w event w') (c : ClassRef) :
    (w'.classState c).initializer =
      match event.origin? c with
      | some (plan, id) =>
        (plan.initializerFrom id).or
          (plan.parent.bind fun parent => (w.classState parent).initializer)
      | none => (w.classState c).initializer := by
  rw [h.classState_eq c]
  cases h with
  | @declare _ scope plan d h =>
    by_cases hindex : c.index = d.index
    · rw [Event.onClass, if_pos hindex, Event.origin?, if_pos hindex.symm]
      simp only [World.started, ClassState.build]
      cases plan.initializerFrom w.nextId with
      | some routine => rfl
      | none => cases plan.parent <;> rfl
    · have hother : ¬d.index = c.index := fun heq => hindex heq.symm
      rw [Event.onClass, if_neg hindex, Event.origin?, if_neg hother]
  | addMethod _ _ | addOperation _ _ | setShared _ _ | getOperation _ _ =>
    rw [Event.onClass]
    split <;> rfl
  | construct _ | set _ _ | bind _ _ | getSuper _ _ | elsewhere _ _ _ => rfl

theorem Run.initializer_eq (run : Run history w) (c : ClassRef) :
    (w.classState c).initializer = initializerIn history c := by
  induction run generalizing c with
  | refl => rfl
  | step _ h ih =>
    rw [h.initializer_eq c, initializerIn]
    cases Event.origin? c _ with
    | none => exact ih c
    | some origin => simp only [ih]

/-! ## The snapshot -/

/-- **Inheritance is a snapshot.** At every moment of every run, each table of each class
answers for a name from the latest declaration that the class made itself, else what its
parent resolved the name to when the class was declared; the lists of a table split along
the same line. The initializer is the class's own one, else its parent's. New instances
begin with what the class resolves its properties to. Whatever is directed at other classes
leaves the tables and the full names in them alone. And whatever is evaluated next, calls
of any bodies included, only goes on with the run. -/
theorem inheritance_snapshot (run : Run history w) (c : ClassRef) :
    (∀ {α : Type} (t : MemberTable α) (name : String),
      (t.of (w.classState c)).get? name = t.resolvedIn history c name) ∧
    (∀ {α : Type} (t : MemberTable α) (own inherited : Bool),
      Entries.Distinct ((t.of (w.classState c)).list own inherited) ∧
      ∀ name, Entries.find? name ((t.of (w.classState c)).list own inherited) =
        (if own then t.declaredIn history c name else none).or
          (if inherited then t.handedDownIn history c name else none)) ∧
    (w.classState c).initializer = initializerIn history c ∧
    (∀ scope, ∃ i after, c.constructBare scope w = .done i after ∧
      Entries.Distinct (after.properties i) ∧
      ∀ name, Entries.find? name (after.properties i) =
        MemberTable.properties.resolvedIn history c name) ∧
    (∀ {events : List Event} {after : World}, Path w events after →
      (∀ event ∈ events, event.target? ≠ some c.index) →
      ∀ {α : Type} (t : MemberTable α), t.of (after.classState c) = t.of (w.classState c)) ∧
    (∀ e, ∃ later, Run (later ++ history) (Session.step w e).1) := by
  refine ⟨fun t name => run.get?_eq t c name, fun t own inherited => ?_, run.initializer_eq c,
    fun scope => ?_, fun path htarget _ t => path.table_frame c htarget t, Session.step_run run⟩
  · obtain ⟨htidy, hlookups⟩ := run.lookups t c
    refine ⟨Members.distinct_list own inherited htidy, fun name => ?_⟩
    rw [Members.find?_list own inherited htidy, (hlookups name).1, (hlookups name).2]
  · obtain ⟨htidy, -⟩ := run.lookups MemberTable.properties c
    refine ⟨_, _, constructBare_eq c scope w, ?_, fun name => ?_⟩
    · rw [World.properties, World.instanceState_addInstance, if_pos rfl]
      exact Members.distinct_collect _ htidy
    · rw [World.properties, World.instanceState_addInstance, if_pos rfl, ← run.get?_eq]
      exact Entries.find?_filterMap Slot.effective htidy name

/-- A parent that is reopened does not change what its subclass resolves. -/
theorem inheritance_snapshot_reopened :
    ∃ history w, Run history w ∧
      (w.classState ⟨0, none⟩).methods.get? "m" = some ⟨1, "m", .none⟩ ∧
      (w.classState ⟨1, none⟩).methods.get? "m" = some ⟨0, "m", .undefined⟩ := by
  let plan : ClassPlan := { methods := [("m", .undefined)] }
  let subplan : ClassPlan := { parent := some ⟨0, none⟩ }
  obtain ⟨w, hparent, hclasses, -, hnext⟩ := declareClass_eq plan {} {}
  obtain ⟨w', hchild, hclasses', -, hnext'⟩ := declareClass_eq subplan {} w
  have hadd : (⟨0, none⟩ : ClassRef).addMethod "m" .none {} w' = .done () _ := rfl
  have hsize : w.classes.size = 1 := by rw [hclasses, Array.size_push]; rfl
  have hsize' : w'.classes.size = 2 := by rw [hclasses', Array.size_push, hsize]
  have hid : w.nextId = 1 := hnext
  have hid' : w'.nextId = 1 := hnext'.trans hid
  rw [hsize] at hchild
  have hmem : (⟨0, none⟩ : ClassRef).index < w'.classes.size := by rw [hsize']; decide
  have run : Run _ _ := ((Path.refl.step (.declare hparent)).step (.declare hchild)).step
    (.addMethod hmem hadd)
  obtain ⟨hresolved, -⟩ := inheritance_snapshot run ⟨0, none⟩
  obtain ⟨hresolved', -⟩ := inheritance_snapshot run ⟨1, none⟩
  refine ⟨_, _, run, (hresolved .methods "m").trans ?_, (hresolved' .methods "m").trans ?_⟩
  · rw [hid', hid]
    rfl
  · rw [hid', hid]
    rfl

end DynamicObjects
