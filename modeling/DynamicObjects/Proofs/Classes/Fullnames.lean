import DynamicObjects.Proofs.Classes.Inheritance
import Mathlib.Data.List.Nodup

/-!
# Full names along a lineage

A full name is a class name and a member name with a mark between them. A class with a name
puts every routine that it declares into its index of full names, its initializer too, and a
subclass begins with a copy of the index of its parent. So the index of a class answers for
a key along the lineage of the class, from the class itself upwards, each ancestor seen as it
was when the next class down was declared (`Run.getFullname?_eq`).

Nothing in a key tells where the class name ends. A member is therefore found under its full
name unless a class further down has put in one whose full name is the same text
(`fullname_reaches_iff`). Both names can differ then: what `A` calls `b_c` and what `A_b`
calls `c` have one key.
-/

namespace DynamicObjects

open Script

/-! ## Entries under full names -/

namespace Members

/-- Entries under the full names that they have in a class; without a name there are none. -/
def keyed {α : Type} (cls : Option String) (entries : Entries String α) : Entries String α :=
  match cls with
  | some cls => entries.map fun entry => (fullname cls entry.1, entry.2)
  | none => []

variable {α : Type}

theorem keyed_append (cls : Option String) (entries more : Entries String α) :
    keyed cls (entries ++ more) = keyed cls entries ++ keyed cls more := by
  cases cls with
  | none => rfl
  | some cls => exact List.map_append

/-- In one class, different members have different full names. -/
theorem fullname_inj {cls m m' : String} : fullname cls m = fullname cls m' ↔ m = m' := by
  constructor
  · intro h
    have hchars := congrArg String.toList h
    simp only [fullname, String.toList_append, List.append_assoc,
      List.append_cancel_left_eq] at hchars
    exact String.toList_injective hchars
  · rintro rfl
    rfl

/-- Under one member name, different classes have different full names. -/
theorem fullname_inj_left {cls cls' m : String} :
    fullname cls m = fullname cls' m ↔ cls = cls' := by
  constructor
  · intro h
    have hchars := congrArg String.toList h
    simp only [fullname, String.toList_append, List.append_cancel_right_eq] at hchars
    exact String.toList_injective hchars
  · rintro rfl
    rfl

theorem find?_keyed_fullname (cls m : String) (entries : Entries String α) :
    Entries.find? (fullname cls m) (keyed (some cls) entries) = Entries.find? m entries := by
  induction entries with
  | nil => rfl
  | cons entry rest ih =>
    obtain ⟨k, value⟩ := entry
    rw [keyed, List.map_cons, Entries.find?, Entries.find?]
    exact if_congr fullname_inj rfl ih

theorem getFullname?_registerFullname (cls m key : String) (entry : α) (members : Members α) :
    (members.registerFullname cls m entry).getFullname? key =
      if fullname cls m = key then some entry else members.getFullname? key :=
  Entries.find?_insert _ _ _ _

/-- A row of routines goes into the index one after the other. -/
theorem getFullname?_declareRoutines (cls : Option String) (routines : List Routine)
    (members : Members Routine) (key : String) :
    (ClassState.declareRoutines cls routines members).getFullname? key =
      (Entries.find? key (keyed cls (Routine.entries routines).reverse)).or
        (members.getFullname? key) := by
  induction routines generalizing members with
  | nil => cases cls <;> rfl
  | cons routine rest ih =>
    have hentries : (Routine.entries (routine :: rest)).reverse =
        (Routine.entries rest).reverse ++ [(routine.name, routine)] := List.reverse_cons
    rw [hentries, keyed_append, Entries.find?_append, Option.or_assoc]
    refine (ih _).trans (congrArg (Option.or _) ?_)
    cases cls with
    | none => rfl
    | some cls =>
      refine (getFullname?_registerFullname cls routine.name key routine members).trans ?_
      by_cases hkey : fullname cls routine.name = key <;> simp [keyed, Entries.find?, hkey]

end Members

/-! ## Registrations in the history -/

/-- The name with which a class was declared. -/
def nameIn : List Event → ClassRef → Option String
  | [], _ => none
  | event :: earlier, c =>
    match event.origin? c with
    | some (plan, _) => plan.name
    | none => nameIn earlier c

/-- The table of the members of a kind. -/
def Script.MemberKind.table : MemberKind → MemberTable Routine
  | method => .methods
  | operation => .operations

/-- An initializer goes into the index of methods. -/
def Script.MemberKind.initializing : MemberKind → Option Routine → Entries String Routine
  | method, initializer => initializer.toList.map fun routine => (initializerName, routine)
  | operation, _ => []

/-- The initializer with which a class is declared by an event. -/
def Event.initializer? (c : ClassRef) (event : Event) : Option Routine :=
  (event.origin? c).bind fun (plan, id) => plan.initializerFrom id

/-- What a class itself puts into the index by an event, in order: what it declares, and at
its own declaration its initializer after the methods. -/
def Event.registers (kind : MemberKind) (c : ClassRef) (event : Event) :
    Entries String Routine :=
  event.declares kind.table c ++ kind.initializing (event.initializer? c)

/-- What a class itself has put into the index under member names, the latest first. -/
def registeredIn (kind : MemberKind) : List Event → ClassRef → Entries String Routine
  | [], _ => []
  | event :: earlier, c =>
    (event.registers kind c).reverse ++
      match event.origin? c with
      | some _ => []
      | none => registeredIn kind earlier c

/-- A class as it is at a moment of a run. -/
structure Version where
  cls : ClassRef
  history : List Event

namespace Version

variable (v : Version)

def name? : Option String := nameIn v.history v.cls

/-- What the class itself has put into the index by then. -/
def registered (kind : MemberKind) : Entries String Routine :=
  registeredIn kind v.history v.cls

/-- The latest that the class itself has put into the index under a full name. -/
def find? (kind : MemberKind) (key : String) : Option Routine :=
  Entries.find? key (Members.keyed v.name? (v.registered kind))

end Version

/-- The ancestors of a class, each as it was when the next class down was declared. -/
def ancestorsIn : List Event → ClassRef → List Version
  | [], _ => []
  | event :: earlier, c =>
    match event.origin? c with
    | some (plan, _) =>
      plan.parent.toList.flatMap fun parent => ⟨parent, earlier⟩ :: ancestorsIn earlier parent
    | none => ancestorsIn earlier c

/-- A class as it is now, and its ancestors. -/
def lineageIn (history : List Event) (c : ClassRef) : List Version :=
  ⟨c, history⟩ :: ancestorsIn history c

/-! ## The index follows the lineage -/

variable {w w' : World} {event : Event} {history : List Event}

theorem Step.name_eq (h : Step w event w') (c : ClassRef) :
    (w'.classState c).name =
      match event.origin? c with
      | some (plan, _) => plan.name
      | none => (w.classState c).name := by
  rw [h.classState_eq c]
  cases h with
  | @declare _ scope plan d h =>
    by_cases hindex : c.index = d.index
    · rw [Event.onClass, if_pos hindex, Event.origin?, if_pos hindex.symm]
      rfl
    · have hother : ¬d.index = c.index := fun heq => hindex heq.symm
      rw [Event.onClass, if_neg hindex, Event.origin?, if_neg hother]
  | addMethod _ _ | addOperation _ _ | setShared _ _ | getOperation _ _ =>
    rw [Event.onClass]
    split <;> rfl
  | construct _ | set _ _ | bind _ _ | getSuper _ _ | elsewhere _ _ _ => rfl

theorem Run.name_eq (run : Run history w) (c : ClassRef) :
    (w.classState c).name = nameIn history c := by
  induction run with
  | refl => rfl
  | step _ h ih =>
    rw [h.name_eq c, nameIn]
    cases Event.origin? c _ with
    | none => exact ih
    | some origin => rfl

/-- The index in which a class starts: what it registers on top of what its parent hands
down. -/
theorem getFullname?_started (w : World) (kind : MemberKind) (plan : ClassPlan)
    {c d : ClassRef} (hindex : d.index = c.index) (key : String) :
    (kind.table.of (w.started plan)).getFullname? key =
      (Entries.find? key (Members.keyed plan.name
        ((Event.declared d plan w.nextId).registers kind c).reverse)).or
          ((w.handsDown kind.table plan.parent).getFullname? key) := by
  have hdeclares : (Event.declared d plan w.nextId).declares kind.table c =
      kind.table.planned plan w.nextId := if_pos hindex
  have hinitializer : (Event.declared d plan w.nextId).initializer? c =
      plan.initializerFrom w.nextId := by
    rw [Event.initializer?, Event.origin?, if_pos hindex]
    rfl
  rw [← w.of_inherited, Event.registers, hdeclares, hinitializer, List.reverse_append,
    Members.keyed_append, Entries.find?_append, Option.or_assoc]
  cases kind with
  | method =>
    refine Eq.trans ?_ (congrArg (Option.or _)
      (Members.getFullname?_declareRoutines plan.name (plan.methodsFrom w.nextId) _ key))
    simp only [MemberKind.table, MemberTable.of, World.started, ClassState.build]
    cases plan.name with
    | none => rfl
    | some cls =>
      cases plan.initializerFrom w.nextId with
      | none => rfl
      | some routine =>
        refine (Members.getFullname?_registerFullname cls initializerName key routine _).trans ?_
        have hlatest : Entries.find? key (Members.keyed (some cls)
            (MemberKind.method.initializing (some routine)).reverse) =
              if Members.fullname cls initializerName = key then some routine else none := rfl
        rw [hlatest]
        split <;> rfl
  | operation =>
    refine (Members.getFullname?_declareRoutines plan.name (plan.operationsFrom w.nextId) _
      key).trans ?_
    cases plan.name <;> rfl

/-- What is not directed at a class puts nothing into its index. -/
theorem Event.registers_of_target_ne {c : ClassRef} (h : event.target? ≠ some c.index)
    (kind : MemberKind) : event.registers kind c = [] ∧ event.origin? c = none := by
  have horigin : event.origin? c = none := by
    cases event with
    | declared d plan id => exact if_neg fun heq => h (congrArg some heq)
    | _ => rfl
  have hdeclares : event.declares kind.table c = [] := by
    cases event with
    | declared d plan id => exact if_neg fun heq => h (congrArg some heq)
    | methodAdded d routine | operationAdded d routine =>
      cases kind <;> first | rfl | exact if_neg fun heq => h (congrArg some heq)
    | _ => cases kind <;> rfl
  refine ⟨?_, horigin⟩
  rw [registers, hdeclares, initializer?, horigin]
  cases kind <;> rfl

/-- **What a step does to an index.** It puts a row of routines on top of what was there. -/
theorem Step.getFullname?_eq (h : Step w event w') (kind : MemberKind) (c : ClassRef)
    (key : String) :
    (kind.table.of (w'.classState c)).getFullname? key =
      (Entries.find? key (Members.keyed (w'.classState c).name
        (event.registers kind c).reverse)).or
          ((w.tableBefore kind.table c event).getFullname? key) := by
  by_cases htarget : event.target? = some c.index
  · rw [h.name_eq c, h.classState_eq c]
    cases h with
    | @declare _ scope plan d h =>
      have hindex : d.index = c.index := Option.some.inj htarget
      have horigin : (Event.declared d plan w.nextId).origin? c = some (plan, w.nextId) :=
        if_pos hindex
      rw [Event.onClass, if_pos hindex.symm, World.tableBefore, horigin]
      exact getFullname?_started w kind plan hindex key
    | @addMethod _ scope d name body hd h =>
      have hindex : d.index = c.index := Option.some.inj htarget
      rw [Event.onClass, if_pos hindex, Event.registers]
      cases kind with
      | method =>
        have hdeclares : (Event.methodAdded d ⟨w.nextId, name, body⟩).declares
            MemberKind.method.table c = [(name, ⟨w.nextId, name, body⟩)] := if_pos hindex
        rw [hdeclares]
        exact Members.getFullname?_declareRoutines _ [⟨w.nextId, name, body⟩] _ key
      | operation => cases (w.classState c).name <;> rfl
    | @addOperation _ scope d name body hd h =>
      have hindex : d.index = c.index := Option.some.inj htarget
      rw [Event.onClass, if_pos hindex, Event.registers]
      cases kind with
      | method => cases (w.classState c).name <;> rfl
      | operation =>
        have hdeclares : (Event.operationAdded d ⟨w.nextId, name, body⟩).declares
            MemberKind.operation.table c = [(name, ⟨w.nextId, name, body⟩)] := if_pos hindex
        rw [hdeclares]
        exact Members.getFullname?_declareRoutines _ [⟨w.nextId, name, body⟩] _ key
    | @setShared _ scope d name value hd h =>
      have hindex : d.index = c.index := Option.some.inj htarget
      rw [Event.onClass, if_pos hindex, Event.registers]
      cases kind <;> cases (w.classState c).name <;> rfl
    | _ => cases htarget
  · obtain ⟨hregisters, horigin⟩ := Event.registers_of_target_ne htarget kind
    rw [h.table_frame c htarget, hregisters, World.tableBefore, horigin]
    cases (w'.classState c).name <;> rfl

theorem findSome?_lineageIn {β : Type} (f : Version → Option β) (history : List Event)
    (c : ClassRef) :
    (lineageIn history c).findSome? f =
      (f ⟨c, history⟩).or ((ancestorsIn history c).findSome? f) := by
  rw [lineageIn, List.findSome?_cons]
  cases f ⟨c, history⟩ <;> rfl

/-- **The index follows the lineage.** It answers for a key with the latest routine under it
that the class has put in itself, else with what the parent's index answered when the class
was declared. -/
theorem Run.getFullname?_eq (run : Run history w) (kind : MemberKind) (c : ClassRef)
    (key : String) :
    (kind.table.of (w.classState c)).getFullname? key =
      (lineageIn history c).findSome? fun v => v.find? kind key := by
  induction run generalizing c with
  | refl =>
    have hempty : kind.table.of (({} : World).classState c) = {} := kind.table.of_empty
    rw [hempty]
    rfl
  | @step earlier event middle after path h ih =>
    have hname := Run.name_eq (path.step h) c
    rw [h.getFullname?_eq kind c key, hname, findSome?_lineageIn, Version.find?, Version.name?,
      Version.registered, registeredIn, Members.keyed_append, Entries.find?_append, Option.or_assoc]
    refine congrArg (Option.or _) ?_
    cases horigin : event.origin? c with
    | none =>
      have hnameBefore : nameIn (event :: earlier) c = nameIn earlier c := by
        rw [nameIn, horigin]
      have hancestors : ancestorsIn (event :: earlier) c = ancestorsIn earlier c := by
        rw [ancestorsIn, horigin]
      rw [World.tableBefore, horigin, hnameBefore, hancestors, ih c, findSome?_lineageIn]
      rfl
    | some origin =>
      obtain ⟨plan, id⟩ := origin
      have hancestors : ancestorsIn (event :: earlier) c =
          plan.parent.toList.flatMap (lineageIn earlier) := by
        rw [ancestorsIn, horigin]
        rfl
      have hnothing : Members.keyed (nameIn (event :: earlier) c) ([] : Entries String Routine) =
          [] := by
        cases nameIn (event :: earlier) c <;> rfl
      rw [World.tableBefore, horigin, hancestors, hnothing]
      cases hparent : plan.parent with
      | none => simp only [hparent]; rfl
      | some parent =>
        simp only [hparent]
        refine (ih parent).trans ?_
        simp

/-! ## Members under their full names -/

/-- Apart from initializers, the latest routine in the index is the latest declaration. -/
theorem find?_registeredIn (kind : MemberKind) (history : List Event) (c : ClassRef) {m : String}
    (hm : kind = .method → m ≠ initializerName) :
    Entries.find? m (registeredIn kind history c) = kind.table.declaredIn history c m := by
  have hinitializing (initializer : Option Routine) :
      Entries.find? m (kind.initializing initializer).reverse = none := by
    cases kind with
    | method =>
      cases initializer with
      | none => rfl
      | some routine => exact if_neg fun heq => hm rfl heq.symm
    | operation => rfl
  induction history with
  | nil => rfl
  | cons event earlier ih =>
    rw [registeredIn, MemberTable.declaredIn, Event.registers, List.reverse_append,
      List.append_assoc, Entries.find?_append, hinitializing, Option.none_or,
      Entries.find?_append]
    cases event.origin? c with
    | none => rw [ih]
    | some origin => rfl

theorem Event.declares_eq_entries (event : Event) (kind : MemberKind) (c : ClassRef) :
    ∃ routines, event.declares kind.table c = Routine.entries routines := by
  cases event with
  | declared d plan id =>
    by_cases hindex : d.index = c.index
    · cases kind with
      | method => exact ⟨plan.methodsFrom id, if_pos hindex⟩
      | operation => exact ⟨plan.operationsFrom id, if_pos hindex⟩
    · exact ⟨[], if_neg hindex⟩
  | methodAdded d routine | operationAdded d routine =>
    by_cases hindex : d.index = c.index
    · cases kind <;> first | exact ⟨[], rfl⟩ | exact ⟨[routine], if_pos hindex⟩
    · cases kind <;> first | exact ⟨[], rfl⟩ | exact ⟨[], if_neg hindex⟩
  | _ => exact ⟨[], by cases kind <;> rfl⟩

theorem Event.name_initializer? {event : Event} {c : ClassRef} {routine : Routine}
    (h : event.initializer? c = some routine) : routine.name = initializerName := by
  obtain ⟨⟨plan, id⟩, -, hplan⟩ := Option.bind_eq_some_iff.mp h
  obtain ⟨body, -, rfl⟩ := Option.map_eq_some_iff.mp hplan
  rfl

/-- A routine stands in the index under its own name. -/
theorem name_of_mem_registeredIn {kind : MemberKind} {history : List Event} {c : ClassRef}
    {entry : String × Routine} (h : entry ∈ registeredIn kind history c) :
    entry.2.name = entry.1 := by
  induction history with
  | nil => cases h
  | cons event earlier ih =>
    rcases List.mem_append.mp h with h | h
    · rcases List.mem_append.mp (List.mem_reverse.mp h) with h | h
      · obtain ⟨routines, hroutines⟩ := event.declares_eq_entries kind c
        rw [hroutines] at h
        obtain ⟨routine, -, rfl⟩ := List.mem_map.mp h
        rfl
      · cases kind with
        | method =>
          obtain ⟨routine, hroutine, rfl⟩ := List.mem_map.mp h
          exact Event.name_initializer? (Option.mem_toList.mp hroutine)
        | operation => cases h
    · cases horigin : event.origin? c with
      | none =>
        rw [horigin] at h
        exact ih h
      | some origin =>
        rw [horigin] at h
        cases h

namespace Version

theorem find?_eq_of_name {v : Version} {cls : String} (h : v.name? = some cls)
    (kind : MemberKind) (key : String) :
    v.find? kind key = Entries.find? key (Members.keyed (some cls) (v.registered kind)) := by
  rw [find?, h]

/-- What a class has put into the index under a key it has put in under a member name. -/
theorem exists_of_find? {v : Version} {kind : MemberKind} {key : String} {routine : Routine}
    (h : v.find? kind key = some routine) :
    ∃ cls, v.name? = some cls ∧ Members.fullname cls routine.name = key ∧
      ∃ entry ∈ v.registered kind, entry.1 = routine.name := by
  cases hname : v.name? with
  | none =>
    rw [find?, hname] at h
    cases h
  | some cls =>
    rw [find?_eq_of_name hname] at h
    obtain ⟨entry, hentry, heq⟩ := List.mem_map.mp (Entries.mem_of_find?_eq_some h)
    obtain ⟨hkey, hroutine⟩ := Prod.mk.inj heq
    have hentryName : entry.2.name = entry.1 := name_of_mem_registeredIn hentry
    rw [hroutine] at hentryName
    exact ⟨cls, rfl, by rw [hentryName, hkey], entry, hentry, hentryName.symm⟩

/-- A class that has put in something of a full name answers for it. -/
theorem find?_isSome {v : Version} {kind : MemberKind} {cls : String} (h : v.name? = some cls)
    {entry : String × Routine} (hentry : entry ∈ v.registered kind) :
    (v.find? kind (Members.fullname cls entry.1)).isSome := by
  rw [find?_eq_of_name h, Members.find?_keyed_fullname]
  obtain ⟨found, hfound⟩ := Entries.find?_eq_some_of_mem (List.mem_map_of_mem hentry)
  rw [hfound]
  rfl

end Version

/-- **A member is found under its full name** by a class down the lineage unless a class in
between, or that class itself, has put in a routine under the same key. -/
theorem fullname_reaches_iff (run : Run history w) (kind : MemberKind) {c : ClassRef}
    {below above : List Version} {a : Version} (hlineage : lineageIn history c = below ++ a :: above)
    (hdistinct : ((lineageIn history c).filterMap Version.name?).Nodup) {cls : String}
    (hname : a.name? = some cls) {earlier : World} (hrun : Run a.history earlier) {m : String}
    {routine : Routine}
    (hown : (kind.table.of (earlier.classState a.cls)).getOwn? m = some routine)
    (hm : kind = .method → m ≠ initializerName) :
    (kind.table.of (w.classState c)).getFullname? (Members.fullname cls m) = some routine ↔
      ∀ v ∈ below, ∀ name, v.name? = some name → ∀ entry ∈ v.registered kind,
        Members.fullname name entry.1 ≠ Members.fullname cls m := by
  have hfind : a.find? kind (Members.fullname cls m) = some routine := by
    rw [Version.find?_eq_of_name hname, Members.find?_keyed_fullname, Version.registered,
      find?_registeredIn kind _ _ hm, ← ((hrun.lookups kind.table a.cls).2 m).1, hown]
  have hroutine : routine.name = m := by
    obtain ⟨cls', hname', hkey, -⟩ := Version.exists_of_find? hfind
    obtain rfl := Option.some.inj (hname.symm.trans hname')
    exact Members.fullname_inj.mp hkey
  rw [run.getFullname?_eq, hlineage, List.findSome?_append, List.findSome?_cons, hfind]
  constructor
  · intro hfound v hv name hvname entry hentry heq
    -- Something further down answers, so it is the routine itself, under the same class name.
    have hsome := Version.find?_isSome hvname hentry
    rw [heq] at hsome
    cases hbelow : below.findSome? fun v => v.find? kind (Members.fullname cls m) with
    | none =>
      rw [List.findSome?_eq_none_iff.mp hbelow v hv] at hsome
      cases hsome
    | some other =>
      rw [hbelow] at hfound
      obtain rfl : other = routine := Option.some.inj hfound
      obtain ⟨v', hv', hother⟩ := List.exists_of_findSome?_eq_some hbelow
      obtain ⟨cls', hname', hkey, -⟩ := Version.exists_of_find? hother
      rw [hroutine] at hkey
      obtain rfl := Members.fullname_inj_left.mp hkey
      rw [hlineage, List.filterMap_append, List.filterMap_cons_some hname] at hdistinct
      have hmem : cls' ∈ below.filterMap Version.name? := List.mem_filterMap.mpr ⟨v', hv', hname'⟩
      exact (List.nodup_append.mp hdistinct).2.2 cls' hmem cls' List.mem_cons_self rfl
  · intro hfree
    have hbelow : (below.findSome? fun v => v.find? kind (Members.fullname cls m)) = none := by
      rw [List.findSome?_eq_none_iff]
      intro v hv
      by_contra hsome
      obtain ⟨other, hother⟩ := Option.ne_none_iff_exists'.mp hsome
      obtain ⟨name, hvname, hkey, entry, hentry, hentryName⟩ := Version.exists_of_find? hother
      exact hfree v hv name hvname entry hentry (by rw [hentryName, hkey])
    rw [hbelow]
    rfl

/-- Two classes, declared one after the other. -/
theorem exists_run_pair (plan subplan : ClassPlan) :
    ∃ first second, Run [.declared ⟨0, plan.name⟩ plan 0] first ∧
      Run [.declared ⟨1, subplan.name⟩ subplan plan.routineCount,
        .declared ⟨0, plan.name⟩ plan 0] second := by
  obtain ⟨first, hdeclare, hclasses, -, hnext⟩ := declareClass_eq plan {} {}
  obtain ⟨second, hdeclare', -⟩ := declareClass_eq subplan {} first
  have hsize : first.classes.size = 1 := by
    rw [hclasses, Array.size_push]
    rfl
  have hid : first.nextId = plan.routineCount := hnext.trans (Nat.zero_add _)
  have run : Run [.declared ⟨0, plan.name⟩ plan 0] first := Path.refl.step (.declare hdeclare)
  have run' := run.step (.declare hdeclare')
  rw [hsize, hid] at run'
  exact ⟨first, second, run, run'⟩

/-- A subclass overrides a method, which is still found under its full name. -/
theorem fullname_reaches_iff_overridden :
    ∃ history w, Run history w ∧
      (w.classState ⟨1, some "B"⟩).methods.get? "m" = some ⟨1, "m", .none⟩ ∧
      (w.classState ⟨1, some "B"⟩).methods.getFullname? (Members.fullname "A" "m") =
        some ⟨0, "m", .undefined⟩ := by
  let plan : ClassPlan := { name := some "A", methods := [("m", .undefined)] }
  let subplan : ClassPlan :=
    { name := some "B", parent := some ⟨0, some "A"⟩, methods := [("m", .none)] }
  let earlier : List Event := [.declared ⟨0, some "A"⟩ plan 0]
  let history : List Event := .declared ⟨1, some "B"⟩ subplan 1 :: earlier
  obtain ⟨first, w, hfirst, run⟩ := exists_run_pair plan subplan
  have hlineage : lineageIn history ⟨1, some "B"⟩ =
      [⟨⟨1, some "B"⟩, history⟩] ++ ⟨⟨0, some "A"⟩, earlier⟩ :: [] := rfl
  have hdistinct : ((lineageIn history ⟨1, some "B"⟩).filterMap Version.name?).Nodup := by decide
  have hown : (first.classState ⟨0, some "A"⟩).methods.getOwn? "m" = some ⟨0, "m", .undefined⟩ :=
    ((hfirst.lookups .methods _).2 "m").1
  have hreaches := fullname_reaches_iff run .method hlineage hdistinct rfl hfirst hown
    (fun _ => by decide)
  refine ⟨_, w, run, run.get?_eq .methods _ "m", hreaches.mpr ?_⟩
  intro v hv name hname entry hentry
  obtain rfl := List.mem_singleton.mp hv
  obtain rfl : "B" = name := Option.some.inj hname
  obtain rfl : entry = ("m", ⟨1, "m", .none⟩) := List.mem_singleton.mp hentry
  decide

/-- A subclass is named so that the full name of its initializer is the one of a method of
its parent, and takes the key. -/
theorem fullname_taken :
    ∃ history earlier w before, Run history w ∧ Run earlier before ∧
      lineageIn history ⟨1, some "A_b"⟩ =
        [⟨⟨1, some "A_b"⟩, history⟩, ⟨⟨0, some "A"⟩, earlier⟩] ∧
      (before.classState ⟨0, some "A"⟩).methods.getOwn? "b_initialize" =
        some ⟨0, "b_initialize", .undefined⟩ ∧
      (w.classState ⟨1, some "A_b"⟩).methods.getFullname?
        (Members.fullname "A" "b_initialize") = some ⟨1, "initialize", .none⟩ := by
  obtain ⟨first, w, hfirst, run⟩ := exists_run_pair
    { name := some "A", methods := [("b_initialize", .undefined)] }
    { name := some "A_b", parent := some ⟨0, some "A"⟩, initializer := some .none }
  refine ⟨_, _, w, first, run, hfirst, rfl, ((hfirst.lookups .methods _).2 _).1, ?_⟩
  exact run.getFullname?_eq .method _ _

end DynamicObjects
