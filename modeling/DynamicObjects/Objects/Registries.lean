import DynamicObjects.Objects.Classes

/-!
# Registries

A registry finds classes by name. Registering a name again replaces the class in place;
the class replaced goes on as it was. Anonymous classes are not registered.
-/

namespace DynamicObjects

open Number

/-- A new registry. -/
def makeRegistry (settings : Settings) : Eval Nat := do
  Eval.modify fun w => w.addRegistry { settings }
  Eval.reads fun w => w.registries.size - 1

/-- Registers a class under its name, with a warning when it replaces another class and
the registry's settings ask for it. -/
def registerClass (registry : Nat) (c : ClassRef) : Eval Unit := do
  match c.name with
  | none => return ()
  | some name =>
    let state ← Eval.reads fun w => w.registryState registry
    Eval.modify fun w =>
      w.setRegistry registry { state with classes := Entries.insert name c state.classes }
    match Entries.find? name state.classes with
    | some previous =>
      if state.settings.warnOnRedeclare && previous.index != c.index then
        Eval.report .warn ("class " ++ name ++ " redeclared: #" ++ digitText c.id ++
          " replaces #" ++ digitText previous.id)
    | none => return ()

/-- Declares a class and registers it. -/
def declareIn (registry : Nat) (plan : ClassPlan) : Eval ClassRef := do
  let c ← declareClass plan
  registerClass registry c
  return c

/-- The registered classes other than a class that descend from it, in order. -/
def World.childrenOf (w : World) (registry : Nat) (c : ClassRef) : List ClassRef :=
  (Entries.values (w.registryState registry).classes).filter fun candidate =>
    candidate.index != c.index && w.isSubclassOf candidate c

end DynamicObjects
