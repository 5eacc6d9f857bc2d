import DynamicObjects.Objects.Registries
import DynamicObjects.Proofs.Classes.Operations
import Mathlib.Data.List.Basic

/-!
# Registrations

A registry is what its registrations make it. Of the classes registered under a name the
latest is found, at the place that the first one got. A class without a name leaves the
registry as it was. A registration touches no class, so a class that is replaced stays what
it is, and what descends from it does so still; the registration is warned of when it replaces
another class and the registry's settings ask for it.

In between anything may happen that leaves the registry alone: classes are declared or
reopened, other registries are filled.

* `Enrolled`: the worlds in which a registry has had some registrations.
* `Enrolled.classes_find?`, `Enrolled.classes_keys`: what it holds then.
* `registration`: what it holds, and what the next call does.
-/

namespace DynamicObjects

open Script Number

variable {w after : World} {registry : Nat} {settings : Settings} {history : List ClassRef}
  {scope : Scope} {c previous : ClassRef} {name : String}

/-! ## Entries -/

namespace Entries

variable {κ α : Type} [DecidableEq κ] {entries : Entries κ α}

/-- Looking up the keys in order gives the values in order. -/
theorem values_eq_filterMap (h : Distinct entries) :
    values entries = (keys entries).filterMap fun key => find? key entries := by
  induction entries with
  | nil => rfl
  | cons entry rest ih =>
    obtain ⟨k, v⟩ := entry
    obtain ⟨hk, hrest⟩ := List.nodup_cons.mp h
    have hhead : find? k ((k, v) :: rest) = some v := if_pos rfl
    have htail : ∀ key ∈ keys rest, find? key ((k, v) :: rest) = find? key rest := by
      intro key hkey
      refine if_neg ?_
      rintro rfl
      exact hk hkey
    have hcons : keys ((k, v) :: rest) = k :: keys rest := rfl
    rw [hcons, List.filterMap_cons, hhead]
    dsimp only
    rw [List.filterMap_congr htail, ← ih hrest]
    rfl

end Entries

/-! ## What registrations come to -/

/-- The latest of some registrations under a name. The latest comes first. -/
def latest (history : List ClassRef) (name : String) : Option ClassRef :=
  history.find? fun c => c.name == some name

/-- The names of some registrations, in the order in which they came up. -/
def registeredNames (history : List ClassRef) : List String :=
  (history.reverse.filterMap ClassRef.name).eraseDups

/-- The class that a registration replaces: the latest one of its name, if it is another. -/
def replaced? (history : List ClassRef) (c : ClassRef) : Option ClassRef :=
  (c.name.bind (latest history)).filter fun previous => previous.id != c.id

/-- The warning that a class replaces another. -/
def ClassRef.redeclared (c previous : ClassRef) : Diagnostic :=
  ⟨.warn, "class " ++ c.displayName ++ " redeclared: #" ++ digitText c.id ++ " replaces #" ++
    digitText previous.id⟩

/-- The warnings of a registration. -/
def warningsOf (settings : Settings) (history : List ClassRef) (c : ClassRef) :
    Array Diagnostic :=
  if settings.warnOnRedeclare then ((replaced? history c).map c.redeclared).toArray else #[]

theorem latest_cons :
    latest (c :: history) name = if c.name = some name then some c else latest history name := by
  rw [latest, List.find?_cons]
  by_cases h : c.name = some name
  · rw [if_pos h, h, beq_self_eq_true]
  · rw [if_neg h, beq_eq_false_iff_ne.mpr h]
    rfl

theorem mem_registeredNames : name ∈ registeredNames history ↔ ∃ c ∈ history, c.name = some name := by
  simp [registeredNames]

theorem registeredNames_anonymous (h : c.name = none) :
    registeredNames (c :: history) = registeredNames history := by
  simp [registeredNames, h]

theorem registeredNames_named (h : c.name = some name) :
    registeredNames (c :: history) =
      if name ∈ registeredNames history then registeredNames history
      else registeredNames history ++ [name] := by
  have hone : [c].filterMap ClassRef.name = [name] := by simp [h]
  have hnames : registeredNames (c :: history) =
      (history.reverse.filterMap ClassRef.name ++ [name]).eraseDups := by
    rw [registeredNames, List.reverse_cons, List.filterMap_append, hone]
  rw [hnames, Entries.eraseDups_append_singleton]
  simp only [registeredNames, List.mem_eraseDups]

/-! ## Calls -/

/-- The world after a class has been entered into a registry. -/
def World.enter (w : World) (registry : Nat) (name : String) (c : ClassRef) : World :=
  w.setRegistry registry { w.registryState registry with
    classes := Entries.insert name c (w.registryState registry).classes }

/-- The world after a class has been registered. -/
def World.enrol (w : World) (registry : Nat) (c : ClassRef) : World :=
  match c.name with
  | none => w
  | some name => w.enter registry name c

theorem World.enrol_anonymous (h : c.name = none) : w.enrol registry c = w := by
  rw [World.enrol, h]

theorem World.classes_enrol (w : World) (registry : Nat) (c : ClassRef) :
    (w.enrol registry c).classes = w.classes := by
  rw [World.enrol]
  split <;> rfl

theorem World.registries_enrol_congr (h : after.registries = w.registries) (registry : Nat)
    (c : ClassRef) : (after.enrol registry c).registries = (w.enrol registry c).registries := by
  cases hname : c.name with
  | none => rw [World.enrol_anonymous hname, World.enrol_anonymous hname, h]
  | some name =>
    simp only [World.enrol, hname, World.enter, World.setRegistry, World.registryState, h]

theorem registerClass_anonymous (h : c.name = none) :
    registerClass registry c scope w = .done () w := by
  rw [registerClass, h]
  rfl

theorem registerClass_named (h : c.name = some name) :
    registerClass registry c scope w = .done ()
      { w.enter registry name c with
        diagnostics := w.diagnostics ++ scope.kept
          (match Entries.find? name (w.registryState registry).classes with
          | some previous =>
            if (w.registryState registry).settings.warnOnRedeclare && previous.index != c.index
            then #[c.redeclared previous] else #[]
          | none => #[]) } := by
  simp only [registerClass, h, Eval.bind_apply, Eval.reads_apply, Eval.modify_apply]
  cases Entries.find? name (w.registryState registry).classes with
  | none => simp [Eval.pure_apply, Scope.kept, World.enter, World.setRegistry]
  | some previous =>
    cases hwarns : (w.registryState registry).settings.warnOnRedeclare &&
      previous.index != c.index
    · simp [hwarns, Eval.pure_apply, Scope.kept, World.enter, World.setRegistry]
    · cases hrecording : scope.recording <;>
        simp [hwarns, hrecording, Eval.report_apply, Scope.kept, World.enter, World.setRegistry,
          ClassRef.redeclared, ClassRef.displayName, h]

/-! ## What a registry holds -/

/-- A registry holds what some registrations come to. -/
structure Registry.Holds (r : Registry) (settings : Settings) (history : List ClassRef) :
    Prop where
  settings_eq : r.settings = settings
  distinct : Entries.Distinct r.classes
  find?_eq : ∀ name, Entries.find? name r.classes = latest history name
  keys_eq : Entries.keys r.classes = registeredNames history

namespace Registry.Holds

variable {r : Registry}

theorem nil (settings : Settings) : Registry.Holds { settings } settings [] :=
  ⟨rfl, List.nodup_nil, fun _ => rfl, rfl⟩

theorem anonymous (h : r.Holds settings history) (hname : c.name = none) :
    r.Holds settings (c :: history) := by
  refine ⟨h.settings_eq, h.distinct, fun name => ?_, ?_⟩
  · rw [latest_cons, hname, if_neg (by simp), h.find?_eq]
  · rw [registeredNames_anonymous hname, h.keys_eq]

theorem insert (h : r.Holds settings history) (hname : c.name = some name) :
    ({ r with classes := Entries.insert name c r.classes } : Registry).Holds settings
      (c :: history) := by
  refine ⟨h.settings_eq, Entries.nodup_insert h.distinct, fun other => ?_, ?_⟩
  · rw [Entries.find?_insert, latest_cons, hname, h.find?_eq]
    simp only [Option.some.injEq]
  · rw [Entries.keys_insert, h.keys_eq, registeredNames_named hname]

/-- Every class is under its own name. -/
theorem name_eq (h : r.Holds settings history) (hmem : (name, c) ∈ r.classes) :
    c.name = some name := by
  have hfind := (Entries.find?_eq_some_iff h.distinct).mpr hmem
  rw [h.find?_eq, latest] at hfind
  simpa using List.find?_some hfind

theorem values_eq (h : r.Holds settings history) :
    Entries.values r.classes = (registeredNames history).filterMap (latest history) := by
  rw [Entries.values_eq_filterMap h.distinct, h.keys_eq]
  exact List.filterMap_congr fun name _ => h.find?_eq name

theorem length_eq (h : r.Holds settings history) :
    r.classes.length = (registeredNames history).length := by
  rw [← h.keys_eq, Entries.keys, List.length_map]

theorem nodup_names (h : r.Holds settings history) : (registeredNames history).Nodup :=
  h.keys_eq ▸ h.distinct

end Registry.Holds

/-! ## Rows of registrations -/

/-- A registry has had some registrations, the latest first: it was made, and then classes
were registered, new ones or others, in any scopes. In between anything may happen that leaves
the registry alone. -/
inductive Enrolled (registry : Nat) (settings : Settings) : List ClassRef → World → Prop
  | make {scope : Scope} {w after : World}
      (h : makeRegistry settings scope w = .done registry after) :
      Enrolled registry settings [] after
  | register {history : List ClassRef} {scope : Scope} {c : ClassRef} {w after : World}
      (before : Enrolled registry settings history w)
      (h : registerClass registry c scope w = .done () after) :
      Enrolled registry settings (c :: history) after
  | declare {history : List ClassRef} {scope : Scope} {plan : ClassPlan} {c : ClassRef}
      {w after : World} (before : Enrolled registry settings history w)
      (h : declareIn registry plan scope w = .done c after) :
      Enrolled registry settings (c :: history) after
  | elsewhere {history : List ClassRef} {w after : World}
      (before : Enrolled registry settings history w)
      (h : after.registries[registry]? = w.registries[registry]?) :
      Enrolled registry settings history after

/-- A registration enters the class, and keeps its warnings where reports are kept. -/
theorem registerClass_apply {r : Registry} (hstored : w.registries[registry]? = some r)
    (h : r.Holds settings history) (scope : Scope) (c : ClassRef) :
    registerClass registry c scope w = .done ()
      { w.enrol registry c with
        diagnostics := w.diagnostics ++ scope.kept (warningsOf settings history c) } := by
  have hstate : w.registryState registry = r := by rw [World.registryState, hstored]; rfl
  cases hname : c.name with
  | none =>
    rw [registerClass_anonymous hname]
    simp [World.enrol, hname, warningsOf, replaced?, Scope.kept]
  | some name =>
    rw [registerClass_named hname, hstate, h.find?_eq, h.settings_eq]
    have hsame (previous : ClassRef) : (previous.id != c.id) = (previous.index != c.index) := by
      rw [Bool.eq_iff_iff, bne_iff_ne, bne_iff_ne, Ne, Ne, ClassRef.id_eq_iff]
    cases hlatest : latest history name with
    | none => simp [World.enrol, hname, warningsOf, replaced?, hlatest]
    | some previous =>
      cases hasks : settings.warnOnRedeclare <;> cases hdiffers : previous.index != c.index <;>
        simp [World.enrol, hname, warningsOf, replaced?, hlatest, hsame, hasks,
          Option.filter_some, hdiffers]

/-- A declaration registers the new class. -/
theorem declareIn_apply {r : Registry} (hstored : w.registries[registry]? = some r)
    (h : r.Holds settings history) (scope : Scope) (plan : ClassPlan) :
    ∃ after, declareIn registry plan scope w = .done ⟨w.classes.size, plan.name⟩ after ∧
      after.classes = w.classes.push (w.started plan) ∧
      after.registries = (w.enrol registry ⟨w.classes.size, plan.name⟩).registries ∧
      after.diagnostics = w.diagnostics ++ scope.kept
        (#[plan.report ⟨w.classes.size, plan.name⟩] ++
          warningsOf settings history ⟨w.classes.size, plan.name⟩) := by
  let declared : World := { w with
    classes := w.classes.push (w.started plan)
    nextId := w.nextId + plan.initializer.toList.length + plan.methods.length +
      plan.operations.length
    diagnostics := if scope.recording then
        w.diagnostics.push (plan.report ⟨w.classes.size, plan.name⟩)
      else w.diagnostics }
  let c : ClassRef := ⟨w.classes.size, plan.name⟩
  have hdone : declareIn registry plan scope w = .done c { declared.enrol registry c with
      diagnostics := declared.diagnostics ++ scope.kept (warningsOf settings history c) } := by
    rw [declareIn, Eval.bind_of_done (declareClass_apply plan scope w),
      Eval.bind_of_done (registerClass_apply (w := declared) hstored h scope c)]
    rfl
  refine ⟨_, hdone, World.classes_enrol declared registry c,
    World.registries_enrol_congr (show declared.registries = w.registries from rfl) registry c, ?_⟩
  dsimp only [declared]
  cases hrecording : scope.recording
  · simp [Scope.kept, hrecording]
  · simp only [Scope.kept, hrecording, if_true, c]
    rw [← Array.append_assoc, Array.append_singleton]

theorem Registry.Holds.enrol {r : Registry} (h : r.Holds settings history)
    (hstored : w.registries[registry]? = some r) (c : ClassRef) :
    ∃ r', (w.enrol registry c).registries[registry]? = some r' ∧
      r'.Holds settings (c :: history) := by
  cases hname : c.name with
  | none =>
    rw [World.enrol_anonymous hname]
    exact ⟨r, hstored, h.anonymous hname⟩
  | some name =>
    refine ⟨_, ?_, h.insert hname⟩
    have hstate : w.registryState registry = r := by rw [World.registryState, hstored]; rfl
    have hbound := (Array.getElem?_eq_some_iff.mp hstored).1
    simp only [World.enrol, hname, World.enter, World.setRegistry, hstate]
    exact Array.getElem?_setIfInBounds_self_of_lt hbound

/-- What a registry holds is what its registrations come to. -/
theorem Enrolled.holds (h : Enrolled registry settings history w) :
    ∃ r, w.registries[registry]? = some r ∧ r.Holds settings history := by
  induction h with
  | make h =>
    cases h
    exact ⟨{ settings }, by simp [World.addRegistry], .nil settings⟩
  | register _ h ih =>
    obtain ⟨r, hstored, hholds⟩ := ih
    rw [registerClass_apply hstored hholds] at h
    cases h
    exact hholds.enrol hstored _
  | declare _ h ih =>
    obtain ⟨r, hstored, hholds⟩ := ih
    obtain ⟨after, hdone, -, hregistries, -⟩ := declareIn_apply hstored hholds _ _
    cases hdone.symm.trans h
    rw [hregistries]
    exact hholds.enrol hstored _
  | elsewhere _ h ih =>
    obtain ⟨r, hstored, hholds⟩ := ih
    exact ⟨r, h.trans hstored, hholds⟩

/-! ## The theorem -/

/-- **What registrations come to.** After any row of registrations in a registry, of new
classes and of others, with names and without, the class found under a name is the latest one
registered under it, and every class is found under its own name only. The classes come in the
order in which their names came up, one for each name, and there are as many as names. The next
call of either kind goes through. It leaves every class as it was, with its tables and its
parent, the one that is replaced too. A class without a name leaves the registry as it was. And
it gives a warning exactly when it replaces another class and the settings of the registry ask
for it. -/
theorem registration (h : Enrolled registry settings history w) :
    (∀ name, Entries.find? name (w.registryState registry).classes = latest history name) ∧
    (∀ name c, (name, c) ∈ (w.registryState registry).classes → c.name = some name) ∧
    Entries.values (w.registryState registry).classes =
      (registeredNames history).filterMap (latest history) ∧
    (w.registryState registry).classes.length = (registeredNames history).length ∧
    (registeredNames history).Nodup ∧
    (∀ name, name ∈ registeredNames history ↔ ∃ c ∈ history, c.name = some name) ∧
    (∀ c scope, ∃ after, registerClass registry c scope w = .done () after ∧
      Enrolled registry settings (c :: history) after ∧
      (∀ d, after.classState d = w.classState d) ∧
      (c.name = none → after.registries = w.registries) ∧
      after.diagnostics = w.diagnostics ++ scope.kept (warningsOf settings history c)) ∧
    (∀ plan scope, ∃ c after, declareIn registry plan scope w = .done c after ∧
      Enrolled registry settings (c :: history) after ∧
      c.name = plan.name ∧ ¬w.Stores (.cls c) ∧
      (∀ d, w.Stores (.cls d) → after.classState d = w.classState d) ∧
      (c.name = none → after.registries = w.registries) ∧
      after.diagnostics = w.diagnostics ++
        scope.kept (#[plan.report c] ++ warningsOf settings history c)) := by
  obtain ⟨r, hstored, hholds⟩ := h.holds
  have hstate : w.registryState registry = r := by rw [World.registryState, hstored]; rfl
  rw [hstate]
  refine ⟨hholds.find?_eq, fun name c => hholds.name_eq, hholds.values_eq, hholds.length_eq,
    hholds.nodup_names, fun _ => mem_registeredNames, fun c scope => ?_, fun plan scope => ?_⟩
  · have hdone := registerClass_apply hstored hholds scope c
    refine ⟨_, hdone, h.register hdone, fun d => ?_, fun hname => ?_, rfl⟩
    · exact World.classState_eq_of_classes (World.classes_enrol w registry c) d
    · change (w.enrol registry c).registries = w.registries
      rw [World.enrol_anonymous hname]
  · obtain ⟨after, hdone, hclasses, hregistries, hdiagnostics⟩ :=
      declareIn_apply hstored hholds scope plan
    refine ⟨_, after, hdone, h.declare hdone, rfl, Nat.lt_irrefl _, fun d hd => ?_,
      fun hname => ?_, hdiagnostics⟩
    · rw [World.classState_eq_of_classes (w := w.addClass (w.started plan)) hclasses,
        World.classState_addClass, if_neg (Nat.ne_of_lt hd)]
    · rw [hregistries, World.enrol_anonymous hname]

namespace TwoPoints

/-- Two classes of one name. -/
def older : ClassRef := ⟨0, some "Point"⟩

def newer : ClassRef := ⟨1, some "Point"⟩

def warned : Settings := { warnOnRedeclare := true }

/-- The world in which both are registered, the newer one last. -/
def declared : World where
  classes := #[{ name := some "Point" }, { name := some "Point" }]
  registries := #[{ settings := warned, classes := [("Point", newer)] }]

theorem enrolled : Enrolled 0 warned [newer, older] declared := by
  have hmake : makeRegistry warned {} {} = .done 0 { registries := #[{ settings := warned }] } :=
    rfl
  have holder : declareIn 0 { name := some "Point" } { recording := false }
      { registries := #[{ settings := warned }] } =
    .done older { classes := #[{ name := some "Point" }]
                  registries := #[⟨warned, [("Point", older)]⟩] } := rfl
  have hnewer : declareIn 0 { name := some "Point" } { recording := false }
      { classes := #[{ name := some "Point" }]
        registries := #[⟨warned, [("Point", older)]⟩] } = .done newer declared := rfl
  exact ((Enrolled.make hmake).declare holder).declare hnewer

end TwoPoints

open TwoPoints in
/-- Registering the older one of two classes again replaces the newer one, with a warning. -/
theorem registration_again :
    ∃ after, Enrolled 0 warned [older, newer, older] after ∧
      Entries.values (after.registryState 0).classes = [older] ∧
      after.diagnostics = #[older.redeclared newer] := by
  obtain ⟨-, -, -, -, -, -, hregister, -⟩ := registration enrolled
  obtain ⟨after, -, henrolled, -, -, hreports⟩ := hregister older {}
  obtain ⟨-, -, hvalues, -⟩ := registration henrolled
  exact ⟨after, henrolled, hvalues.trans rfl, hreports.trans rfl⟩

end DynamicObjects
