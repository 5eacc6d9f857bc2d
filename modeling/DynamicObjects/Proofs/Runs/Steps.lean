import DynamicObjects.Proofs.Runs.Operations

/-!
# Steps of a run

A run is a row of operations on classes and instances, made by scripts in any order and
from any scope, with anything done in between that leaves classes and instances alone. A
step is one such operation that succeeds; one that fails changes nothing. Every step goes
down as an `Event` in the history of the run, the latest event first.

Operations that run bodies are no steps of their own: a body is a row of steps. So what
sessions do is runs, which `Runs.Sessions` shows.

* `Step`: what counts as a step, each from a call of the operation itself.
* `Run`: the worlds that a row of steps leads to from the empty one, with its history.
* `Step.classState_eq`, `Step.instanceState_eq`: all that a step can change.
-/

namespace DynamicObjects

open Script

/-! ## Handing out again -/

/-- Keeps a value under a key, unless there is one already. -/
def Entries.keep {κ α : Type} [DecidableEq κ] (key : κ) (value : α) (entries : Entries κ α) :
    Entries κ α :=
  match Entries.find? key entries with
  | some _ => entries
  | none => Entries.insert key value entries

theorem Entries.keep_of_some {κ α : Type} [DecidableEq κ] {key : κ} {found : α}
    {entries : Entries κ α} (h : Entries.find? key entries = some found) (value : α) :
    Entries.keep key value entries = entries := by
  rw [Entries.keep, h]

theorem Entries.keep_of_none {κ α : Type} [DecidableEq κ] {key : κ} {entries : Entries κ α}
    (h : Entries.find? key entries = none) (value : α) :
    Entries.keep key value entries = Entries.insert key value entries := by
  rw [Entries.keep, h]

theorem Entries.find?_keep {κ α : Type} [DecidableEq κ] (key other : κ) (value : α)
    (entries : Entries κ α) :
    Entries.find? other (Entries.keep key value entries) =
      if key = other then some ((Entries.find? key entries).getD value)
      else Entries.find? other entries := by
  cases h : Entries.find? key entries with
  | none =>
    rw [Entries.keep_of_none h]
    exact Entries.find?_insert key other value entries
  | some found =>
    rw [Entries.keep_of_some h]
    by_cases hkey : key = other
    · rw [if_pos hkey, ← hkey]
      exact h
    · rw [if_neg hkey]

/-! ## Events -/

/-- What a step leaves in the history of a run. -/
inductive Event where
  /-- A class was declared, its routines numbered from a number on. -/
  | declared (c : ClassRef) (plan : ClassPlan) (id : Nat)
  | methodAdded (c : ClassRef) (routine : Routine)
  | operationAdded (c : ClassRef) (routine : Routine)
  | sharedSet (c : ClassRef) (name : String) (value : Value)
  | operationAsked (c : ClassRef) (name : String) (bound : BoundOperation)
  | constructed (i : InstanceRef)
  | propertySet (i : InstanceRef) (name : String) (value : Value)
  | memberAsked (i : InstanceRef) (name : String) (appendsReceiver : Bool) (bound : BoundMethod)
  | ancestorAsked (i : InstanceRef) (ancestor : ClassRef) (proxy : SuperProxy)
  /-- Something that leaves classes and instances alone. -/
  | elsewhere

/-- One step, and the event that it is. -/
inductive Step : World → Event → World → Prop
  | declare {w w' : World} {scope : Scope} {plan : ClassPlan} {c : ClassRef}
      (h : declareClass plan scope w = .done c w') : Step w (.declared c plan w.nextId) w'
  | addMethod {w w' : World} {scope : Scope} {c : ClassRef} {name : String} {body : Expr}
      (hc : c.index < w.classes.size) (h : c.addMethod name body scope w = .done () w') :
      Step w (.methodAdded c ⟨w.nextId, name, body⟩) w'
  | addOperation {w w' : World} {scope : Scope} {c : ClassRef} {name : String} {body : Expr}
      (hc : c.index < w.classes.size) (h : c.addOperation name body scope w = .done () w') :
      Step w (.operationAdded c ⟨w.nextId, name, body⟩) w'
  | setShared {w w' : World} {scope : Scope} {c : ClassRef} {name : String} {value : Value}
      (hc : c.index < w.classes.size) (h : c.setShared name value scope w = .done () w') :
      Step w (.sharedSet c name value) w'
  | getOperation {w w' : World} {scope : Scope} {c : ClassRef} {name : String}
      {bound : BoundOperation} (hc : c.index < w.classes.size)
      (h : c.getOperation name scope w = .done bound w') : Step w (.operationAsked c name bound) w'
  | construct {w w' : World} {scope : Scope} {c : ClassRef} {i : InstanceRef}
      (h : c.constructBare scope w = .done i w') : Step w (.constructed i) w'
  | set {w w' : World} {scope : Scope} {i : InstanceRef} {name : String} {value : Value}
      (hi : i.index < w.instances.size) (h : i.set name value scope w = .done () w') :
      Step w (.propertySet i name value) w'
  | bind {w w' : World} {scope : Scope} {i : InstanceRef} {name : String}
      {appendsReceiver : Bool} {bound : BoundMethod} (hi : i.index < w.instances.size)
      (h : i.bind name appendsReceiver scope w = .done bound w') :
      Step w (.memberAsked i name appendsReceiver bound) w'
  | getSuper {w w' : World} {scope : Scope} {i : InstanceRef} {ancestor : ClassRef}
      {proxy : SuperProxy} (hi : i.index < w.instances.size)
      (h : i.getSuper ancestor scope w = .done proxy w') :
      Step w (.ancestorAsked i ancestor proxy) w'
  | elsewhere {w w' : World} (hclasses : w'.classes = w.classes)
      (hinstances : w'.instances = w.instances) (hnext : w.nextId ≤ w'.nextId) :
      Step w .elsewhere w'

/-- The world that a row of steps leads to, and the events of the row, the latest first. -/
inductive Path (w : World) : List Event → World → Prop
  | refl : Path w [] w
  | step {events : List Event} {event : Event} {middle after : World}
      (path : Path w events middle) (h : Step middle event after) :
      Path w (event :: events) after

/-- The worlds of runs from the start, with their histories. -/
abbrev Run (history : List Event) (w : World) : Prop := Path {} history w

theorem Path.trans {w middle after : World} {events later : List Event}
    (first : Path w events middle) (second : Path middle later after) :
    Path w (later ++ events) after := by
  induction second with
  | refl => exact first
  | step _ h ih => exact ih.step h

/-! ## What steps change -/

/-- The state of a class after an event. -/
def Event.onClass (w : World) (c : ClassRef) : Event → ClassState
  | declared d plan _ => if c.index = d.index then w.started plan else w.classState c
  | methodAdded d routine =>
    if d.index = c.index then
      { w.classState c with
        methods := ClassState.declareRoutines (w.classState c).name [routine]
          (w.classState c).methods }
    else w.classState c
  | operationAdded d routine =>
    if d.index = c.index then
      { w.classState c with
        operations := ClassState.declareRoutines (w.classState c).name [routine]
          (w.classState c).operations
        boundOperations := Entries.erase routine.name (w.classState c).boundOperations }
    else w.classState c
  | sharedSet d name value =>
    if d.index = c.index then
      { w.classState c with shared := (w.classState c).shared.declare name value }
    else w.classState c
  | operationAsked d name bound =>
    if d.index = c.index then
      { w.classState c with
        boundOperations := Entries.keep name bound (w.classState c).boundOperations }
    else w.classState c
  | _ => w.classState c

/-- The state of an instance after an event. -/
def Event.onInstance (w : World) (i : InstanceRef) : Event → InstanceState
  | constructed j =>
    if i.index = j.index then { properties := (w.classState j.cls).properties.all }
    else w.instanceState i
  | propertySet j name value =>
    if j.index = i.index then
      { w.instanceState i with
        properties := Entries.insert name value (w.instanceState i).properties }
    else w.instanceState i
  | memberAsked j name appendsReceiver bound =>
    if j.index = i.index then
      { w.instanceState i with
        boundMethods := Entries.keep (InstanceRef.bindingKey name appendsReceiver) bound
          (w.instanceState i).boundMethods }
    else w.instanceState i
  | ancestorAsked j ancestor proxy =>
    if j.index = i.index then
      { w.instanceState i with
        proxies := Entries.keep ancestor.index proxy (w.instanceState i).proxies }
    else w.instanceState i
  | _ => w.instanceState i

variable {w w' : World} {event : Event}

theorem World.classState_eq_of_classes {after : World} (h : after.classes = w.classes)
    (c : ClassRef) : after.classState c = w.classState c := by
  rw [World.classState, h, World.classState]

theorem World.instanceState_eq_of_instances {after : World} (h : after.instances = w.instances)
    (i : InstanceRef) : after.instanceState i = w.instanceState i := by
  rw [World.instanceState, h, World.instanceState]

theorem World.classState_congr {c d : ClassRef} (h : c.index = d.index) :
    w.classState c = w.classState d := by
  rw [World.classState, h, World.classState]

theorem World.instanceState_congr {i j : InstanceRef} (h : i.index = j.index) :
    w.instanceState i = w.instanceState j := by
  rw [World.instanceState, h, World.instanceState]

theorem World.classState_update (f : ClassState → ClassState) {d : ClassRef}
    (hd : d.index < w.classes.size) (c : ClassRef) :
    (w.setClass d (f (w.classState d))).classState c =
      if d.index = c.index then f (w.classState c) else w.classState c := by
  rw [World.classState_setClass w d c _ hd]
  split
  · rename_i h
    rw [World.classState_congr h]
  · rfl

theorem World.instanceState_update (f : InstanceState → InstanceState) {j : InstanceRef}
    (hj : j.index < w.instances.size) (i : InstanceRef) :
    (w.setInstance j (f (w.instanceState j))).instanceState i =
      if j.index = i.index then f (w.instanceState i) else w.instanceState i := by
  rw [World.instanceState_setInstance w j i _ hj]
  split
  · rename_i h
    rw [World.instanceState_congr h]
  · rfl

/-- **What a step does to classes.** -/
theorem Step.classState_eq (h : Step w event w') (c : ClassRef) :
    w'.classState c = event.onClass w c := by
  cases h with
  | @declare _ scope plan d h =>
    obtain ⟨after, hdone, hclasses, -⟩ := declareClass_eq plan scope w
    rw [hdone] at h
    cases h
    rw [Event.onClass, ← World.classState_addClass]
    exact World.classState_eq_of_classes hclasses c
  | @addMethod _ scope d name body hd h =>
    cases h
    exact World.classState_update (fun state => { state with
      methods := ClassState.declareRoutines state.name [⟨w.nextId, name, body⟩]
        state.methods }) hd c
  | @addOperation _ scope d name body hd h =>
    cases h
    exact World.classState_update (fun state => { state with
      operations := ClassState.declareRoutines state.name [⟨w.nextId, name, body⟩]
        state.operations
      boundOperations := Entries.erase name state.boundOperations }) hd c
  | @setShared _ scope d name value hd h =>
    cases h
    exact World.classState_update
      (fun state => { state with shared := state.shared.declare name value }) hd c
  | @getOperation _ scope d name bound hd h =>
    rcases getOperation_done h with ⟨rfl, hfind⟩ | ⟨routine, -, hfind, -, rfl⟩
    · rw [Event.onClass]
      split
      · rename_i hindex
        rw [World.classState_congr hindex] at hfind
        rw [Entries.keep_of_some hfind]
      · rfl
    · rw [Event.onClass]
      refine (World.classState_update (fun state => { state with
        boundOperations := Entries.insert name bound state.boundOperations }) hd c).trans ?_
      split
      · rename_i hindex
        rw [World.classState_congr hindex] at hfind
        rw [Entries.keep_of_none hfind]
      · rfl
  | @construct _ scope d i h =>
    cases h
    rfl
  | @set _ scope i name value hi h =>
    cases h
    rfl
  | @bind _ scope i name appendsReceiver bound hi h =>
    rcases bind_done h with ⟨rfl, -⟩ | ⟨-, -, -, rfl⟩ <;> rfl
  | @getSuper _ scope i ancestor proxy hi h =>
    rcases getSuper_done h with ⟨-, ⟨rfl, -⟩ | ⟨-, -, rfl⟩⟩ <;> rfl
  | elsewhere hclasses _ _ => exact World.classState_eq_of_classes hclasses c

/-- **What a step does to instances.** -/
theorem Step.instanceState_eq (h : Step w event w') (i : InstanceRef) :
    w'.instanceState i = event.onInstance w i := by
  cases h with
  | @declare _ scope plan d h =>
    obtain ⟨after, hdone, -, hinstances, -⟩ := declareClass_eq plan scope w
    rw [hdone] at h
    cases h
    exact World.instanceState_eq_of_instances hinstances i
  | @addMethod _ scope d name body hd h =>
    cases h
    rfl
  | @addOperation _ scope d name body hd h =>
    cases h
    rfl
  | @setShared _ scope d name value hd h =>
    cases h
    rfl
  | @getOperation _ scope d name bound hd h =>
    rcases getOperation_done h with ⟨rfl, -⟩ | ⟨routine, -, -, -, rfl⟩ <;> rfl
  | @construct _ scope d j h =>
    rw [constructBare_eq] at h
    cases h
    exact World.instanceState_addInstance w i _
  | @set _ scope j name value hj h =>
    cases h
    exact World.instanceState_update
      (fun state => { state with properties := Entries.insert name value state.properties }) hj i
  | @bind _ scope j name appendsReceiver bound hj h =>
    rcases bind_done h with ⟨rfl, hfind⟩ | ⟨-, hfind, -, rfl⟩
    · rw [Event.onInstance]
      split
      · rename_i hindex
        rw [World.instanceState_congr hindex] at hfind
        rw [Entries.keep_of_some hfind]
      · rfl
    · rw [Event.onInstance]
      refine (World.instanceState_update (fun state => { state with
        boundMethods := Entries.insert (InstanceRef.bindingKey name appendsReceiver) bound
          state.boundMethods }) hj i).trans ?_
      split
      · rename_i hindex
        rw [World.instanceState_congr hindex] at hfind
        rw [Entries.keep_of_none hfind]
      · rfl
  | @getSuper _ scope j ancestor proxy hj h =>
    rcases getSuper_done h with ⟨-, ⟨rfl, hfind⟩ | ⟨hfind, -, rfl⟩⟩
    · rw [Event.onInstance]
      split
      · rename_i hindex
        rw [World.instanceState_congr hindex] at hfind
        rw [Entries.keep_of_some hfind]
      · rfl
    · rw [Event.onInstance]
      refine (World.instanceState_update (fun state => { state with
        proxies := Entries.insert ancestor.index proxy state.proxies }) hj i).trans ?_
      split
      · rename_i hindex
        rw [World.instanceState_congr hindex] at hfind
        rw [Entries.keep_of_none hfind]
      · rfl
  | elsewhere _ hinstances _ => exact World.instanceState_eq_of_instances hinstances i

end DynamicObjects
