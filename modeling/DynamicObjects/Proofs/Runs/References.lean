import DynamicObjects.Proofs.Runs.Steps

/-!
# References in a run

A reference tells more than a place: a class goes with its name, an instance with its class.
It is handed out once, when the class is declared or the instance is made, and whoever acts
on a class or an instance later has it from there. Nothing makes a reference up. A history
in which every event acts on what was handed out before is grounded.

What sessions do is runs with such histories, which `Runs.Sessions` shows.

* `HandedOut`, `Grounded`: what has been handed out, and histories that make nothing up.
* `Run.eq_of_samePlace`: a place stands for one class or one instance.
* `Path.nextId_le`: numbers of handles only grow along a run.
-/

namespace DynamicObjects

open Script

/-! ## Handing out -/

namespace Event

/-- The classes and instances that an event acts on. -/
def refersTo : Event → List Node
  | declared _ plan _ => plan.parent.toList.map Node.cls
  | methodAdded c _ | operationAdded c _ | sharedSet c _ _ | operationAsked c _ _ => [.cls c]
  | constructed i => [.cls i.cls]
  | propertySet i _ _ | memberAsked i _ _ _ => [.inst i]
  | ancestorAsked i ancestor _ => [.inst i, .cls ancestor]
  | elsewhere => []

/-- The class or instance that an event makes. -/
def makes? : Event → Option Node
  | declared c _ _ => some (.cls c)
  | constructed i => some (.inst i)
  | _ => none

/-- The number of classes that an event adds, and the number of instances. -/
def adds : Event → Nat × Nat
  | declared _ _ _ => (1, 0)
  | constructed _ => (0, 1)
  | _ => (0, 0)

end Event

/-- A reference has been handed out by the end of a history. -/
def HandedOut (history : List Event) (n : Node) : Prop :=
  ∃ event ∈ history, event.makes? = some n

/-- Every event acts on what was handed out before it. -/
inductive Grounded : List Event → Prop
  | nil : Grounded []
  | cons {event : Event} {earlier : List Event}
      (h : ∀ n ∈ event.refersTo, HandedOut earlier n) (grounded : Grounded earlier) :
      Grounded (event :: earlier)

variable {w w' : World} {event : Event} {history events : List Event} {n m : Node}

theorem handedOut_cons {earlier : List Event} :
    HandedOut (event :: earlier) n ↔ event.makes? = some n ∨ HandedOut earlier n := by
  simp [HandedOut]

theorem HandedOut.append (h : HandedOut history n) (later : List Event) :
    HandedOut (later ++ history) n := by
  obtain ⟨event, hevent, hmakes⟩ := h
  exact ⟨event, List.mem_append_right later hevent, hmakes⟩

/-- What an event in a grounded history acts on has been handed out. -/
theorem Grounded.handedOut (grounded : Grounded history) (hevent : event ∈ history)
    (hn : n ∈ event.refersTo) : HandedOut history n := by
  induction grounded with
  | nil => cases hevent
  | cons h _ ih =>
    rcases List.mem_cons.mp hevent with rfl | hevent
    · exact handedOut_cons.mpr (.inr (h n hn))
    · exact handedOut_cons.mpr (.inr (ih hevent))

/-- The class of an instance has been handed out before the instance. -/
theorem Grounded.handedOut_cls (grounded : Grounded history) {i : InstanceRef}
    (h : HandedOut history (.inst i)) : HandedOut history (.cls i.cls) := by
  obtain ⟨event, hevent, hmakes⟩ := h
  cases event with
  | constructed j =>
    cases hmakes
    exact grounded.handedOut hevent (List.mem_singleton_self _)
  | _ => cases hmakes

/-! ## Places -/

theorem ClassRef.id_eq_iff {c d : ClassRef} : c.id = d.id ↔ c.index = d.index := Nat.succ_inj

/-- Whether two references are to the same place. -/
def Node.SamePlace : Node → Node → Prop
  | .cls c, .cls d => c.index = d.index
  | .inst i, .inst j => i.index = j.index
  | _, _ => False

/-- There is something in the place of a reference. -/
def World.Stores (w : World) : Node → Prop
  | .cls c => c.index < w.classes.size
  | .inst i => i.index < w.instances.size

theorem World.stores_congr (h : n.SamePlace m) : w.Stores n ↔ w.Stores m := by
  cases n <;> cases m
  · simp only [World.Stores, show _ = _ from h]
  · cases h
  · cases h
  · simp only [World.Stores, show _ = _ from h]

@[simp] theorem World.size_classes_setClass (w : World) (c : ClassRef) (state : ClassState) :
    (w.setClass c state).classes.size = w.classes.size := Array.size_setIfInBounds

@[simp] theorem World.size_instances_setInstance (w : World) (i : InstanceRef)
    (state : InstanceState) : (w.setInstance i state).instances.size = w.instances.size :=
  Array.size_setIfInBounds

/-- How many classes and how many instances there are after a step. -/
theorem Step.sizes_eq (h : Step w event w') :
    w'.classes.size = w.classes.size + event.adds.1 ∧
      w'.instances.size = w.instances.size + event.adds.2 := by
  cases h with
  | @declare _ scope plan d h =>
    obtain ⟨after, hdone, hclasses, hinstances, -⟩ := declareClass_eq plan scope w
    rw [hdone] at h
    cases h
    rw [hclasses, hinstances, Array.size_push]
    exact ⟨rfl, rfl⟩
  | construct h =>
    rw [constructBare_eq] at h
    cases h
    exact ⟨rfl, Array.size_push _⟩
  | addMethod _ h | addOperation _ h | setShared _ h =>
    cases h
    exact ⟨World.size_classes_setClass _ _ _, rfl⟩
  | getOperation _ h =>
    rcases getOperation_done h with ⟨rfl, -⟩ | ⟨_, -, -, -, rfl⟩
    · exact ⟨rfl, rfl⟩
    · exact ⟨World.size_classes_setClass _ _ _, rfl⟩
  | set _ h =>
    cases h
    exact ⟨rfl, World.size_instances_setInstance _ _ _⟩
  | bind _ h =>
    rcases bind_done h with ⟨rfl, -⟩ | ⟨-, -, -, rfl⟩
    · exact ⟨rfl, rfl⟩
    · exact ⟨rfl, World.size_instances_setInstance _ _ _⟩
  | getSuper _ h =>
    rcases getSuper_done h with ⟨-, ⟨rfl, -⟩ | ⟨-, -, rfl⟩⟩
    · exact ⟨rfl, rfl⟩
    · exact ⟨rfl, World.size_instances_setInstance _ _ _⟩
  | elsewhere hclasses hinstances _ =>
    rw [hclasses, hinstances]
    exact ⟨rfl, rfl⟩

theorem Step.stores (h : Step w event w') (hn : w.Stores n) : w'.Stores n := by
  obtain ⟨hclasses, hinstances⟩ := h.sizes_eq
  cases n with
  | cls c => exact Nat.lt_of_lt_of_le hn (Nat.le.intro hclasses.symm)
  | inst i => exact Nat.lt_of_lt_of_le hn (Nat.le.intro hinstances.symm)

/-- What is made gets the place after all others. -/
theorem Step.place_of_makes (h : Step w event w') (hmakes : event.makes? = some n) :
    ¬w.Stores n ∧ w'.Stores n := by
  obtain ⟨hclasses, hinstances⟩ := h.sizes_eq
  cases h with
  | @declare _ scope plan d h =>
    obtain ⟨after, hdone, -⟩ := declareClass_eq plan scope w
    rw [hdone] at h
    cases h
    cases hmakes
    exact ⟨Nat.lt_irrefl _, Nat.lt_of_lt_of_eq (Nat.lt_succ_self _) hclasses.symm⟩
  | construct h =>
    rw [constructBare_eq] at h
    cases h
    cases hmakes
    exact ⟨Nat.lt_irrefl _, Nat.lt_of_lt_of_eq (Nat.lt_succ_self _) hinstances.symm⟩
  | _ => cases hmakes

theorem Run.stores (run : Run history w) (h : HandedOut history n) : w.Stores n := by
  induction run with
  | refl =>
    obtain ⟨_, hevent, _⟩ := h
    cases hevent
  | step _ hstep ih =>
    rcases handedOut_cons.mp h with hmakes | h
    · exact (hstep.place_of_makes hmakes).2
    · exact hstep.stores (ih h)

/-- **A place stands for one reference.** -/
theorem Run.eq_of_samePlace (run : Run history w) (hn : HandedOut history n)
    (hm : HandedOut history m) (hplace : n.SamePlace m) : n = m := by
  induction run with
  | refl =>
    obtain ⟨_, hevent, _⟩ := hn
    cases hevent
  | step path hstep ih =>
    rcases handedOut_cons.mp hn with hmakes | hn
    · rcases handedOut_cons.mp hm with hmakes' | hm
      · exact Option.some.inj (hmakes.symm.trans hmakes')
      · have hstored := (World.stores_congr hplace).mpr (Run.stores path hm)
        exact absurd hstored (hstep.place_of_makes hmakes).1
    · rcases handedOut_cons.mp hm with hmakes' | hm
      · have hstored := (World.stores_congr hplace).mp (Run.stores path hn)
        exact absurd hstored (hstep.place_of_makes hmakes').1
      · exact ih hn hm

theorem Run.cls_eq (run : Run history w) {c d : ClassRef} (hc : HandedOut history (.cls c))
    (hd : HandedOut history (.cls d)) (h : c.index = d.index) : c = d :=
  Node.cls.inj (run.eq_of_samePlace hc hd h)

theorem Run.inst_eq (run : Run history w) {i j : InstanceRef}
    (hi : HandedOut history (.inst i)) (hj : HandedOut history (.inst j))
    (h : i.index = j.index) : i = j :=
  Node.inst.inj (run.eq_of_samePlace hi hj h)

/-! ## Numbers -/

theorem Step.nextId_le (h : Step w event w') : w.nextId ≤ w'.nextId := by
  cases h with
  | @declare _ scope plan d h =>
    obtain ⟨after, hdone, -, -, hnext⟩ := declareClass_eq plan scope w
    rw [hdone] at h
    cases h
    exact hnext ▸ Nat.le_add_right _ _
  | construct h =>
    rw [constructBare_eq] at h
    cases h
    exact Nat.le_refl _
  | addMethod _ h | addOperation _ h =>
    cases h
    exact Nat.le_succ _
  | setShared _ h | set _ h =>
    cases h
    exact Nat.le_refl _
  | getOperation _ h =>
    rcases getOperation_done h with ⟨rfl, -⟩ | ⟨_, -, -, -, rfl⟩
    · exact Nat.le_refl _
    · exact Nat.le_succ _
  | bind _ h =>
    rcases bind_done h with ⟨rfl, -⟩ | ⟨-, -, -, rfl⟩
    · exact Nat.le_refl _
    · exact Nat.le_succ _
  | getSuper _ h =>
    rcases getSuper_done h with ⟨-, ⟨rfl, -⟩ | ⟨-, -, rfl⟩⟩
    · exact Nat.le_refl _
    · exact Nat.le_succ _
  | elsewhere _ _ hnext => exact hnext

theorem Path.nextId_le (path : Path w events w') : w.nextId ≤ w'.nextId := by
  induction path with
  | refl => exact Nat.le_refl _
  | step _ h ih => exact Nat.le_trans ih h.nextId_le

end DynamicObjects
