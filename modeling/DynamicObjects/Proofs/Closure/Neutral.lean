import DynamicObjects.Proofs.Closure.Scripts

/-!
# Neutral computations

A computation is neutral if it looks neither at the settings nor at reports. What callbacks do
depends on the world, and a host can run bodies that a call never gets hold of. So being neutral
is said of a realm: some worlds that computations do not leave, with the classes and instances
that are got hold of there.

* `Realm`, `Eval.Neutral`: the computations that look at neither settings nor reports, in a realm.
* `Realm.closed_neutral`, `Realm.supplied_neutral`: walks and named operations are made of such
  computations, if callbacks and views are neutral.
* `Realm.tells_of_offers`: views are neutral when the members that they call are.
* `Realm.neutral_evaluate`, `Realm.IsPlain.runsPlain`: scripts that only compute and set variables
  are neutral.
-/

namespace DynamicObjects

open Script

variable {α β : Type}

/-! ## Realms -/

/-- Where computations run: some worlds, and some classes and instances that are got hold of
there. -/
structure Realm where
  worlds : Set World
  nodes : Set Node
  /-- What is got hold of through an instance of the realm. -/
  properties : ∀ w ∈ worlds, ∀ i : InstanceRef, Known nodes i → Known nodes (w.properties i)

namespace Eval

/-! ## Neutral computations -/

/-- A computation that looks neither at the settings nor at reports, nor changes where they
go, and that reports no failures as walks do, except for those of its own walks. It may act on
the worlds of a realm in any other way, as long as it does not leave them. Its answers have a
property. -/
inductive Neutral (R : Realm) : {α : Type} → (α → Prop) → Eval α → Prop
  | pure {α : Type} {p : α → Prop} {a : α} (ha : p a) : Neutral R p (pure a)
  | fail {α : Type} {p : α → Prop} (e : Failure) : Neutral R p (fail e)
  | stuck {α : Type} {p : α → Prop} (reason : Stuck) : Neutral R p (stuck reason)
  | bind {α β : Type} {q : α → Prop} {p : β → Prop} {x : Eval α} {f : α → Eval β}
      (hx : Neutral R q x) (hf : ∀ a, q a → Neutral R p (f a)) : Neutral R p (x >>= f)
  | attempt {α : Type} {q : α → Prop} {p : Except Failure α → Prop} {x : Eval α}
      (hx : Neutral R q x) (hok : ∀ a, q a → p (.ok a)) (herror : ∀ e, p (.error e)) :
      Neutral R p x.attempt
  | holding {α : Type} {p : α → Prop} {x : Eval α} (h : Held) (hx : Neutral R p x) :
      Neutral R p (holding h x)
  | reads {α : Type} {p : α → Prop} (f : World → α)
      (hf : ∀ (w : World) seen, f { w with diagnostics := seen } = f w)
      (hp : ∀ w ∈ R.worlds, p (f w)) : Neutral R p (reads f)
  | modify {p : Unit → Prop} (f : World → World)
      (hf : ∀ (w : World) seen,
        f { w with diagnostics := seen } = { f w with diagnostics := seen })
      (hworlds : ∀ w ∈ R.worlds, f w ∈ R.worlds) (hp : p ()) : Neutral R p (modify f)
  | isAlive {p : Bool → Prop} (target : Node) (hp : ∀ alive, p alive) :
      Neutral R p (isAlive target)
  | report {p : Unit → Prop} {level : Level} (h : level ≠ .exception) (message : String)
      (hp : p ()) : Neutral R p (report level message)
  | exception {p : Unit → Prop} {context : String} (h : context ≠ visitContext) (e : Failure)
      (hp : p ()) : Neutral R p (reportException context e)
  | reporting {α : Type} {p : α → Prop} {x : Eval α} (hx : Neutral R p x) :
      Neutral R p (reporting x)

variable {R : Realm} {p : α → Prop}

theorem Neutral.imp {x : Eval α} (hx : x.Neutral R p) {p' : α → Prop} (h : ∀ a, p a → p' a) :
    x.Neutral R p' := by
  induction hx with
  | pure ha => exact .pure (h _ ha)
  | fail e => exact .fail e
  | stuck reason => exact .stuck reason
  | bind hx _ _ ih => exact .bind hx fun a ha => ih a ha h
  | attempt hx hok herror _ =>
    exact .attempt hx (fun a ha => h _ (hok a ha)) fun e => h _ (herror e)
  | holding held _ ih => exact .holding held (ih h)
  | reads f hf hp => exact .reads f hf fun w hw => h _ (hp w hw)
  | modify f hf hworlds hp => exact .modify f hf hworlds (h _ hp)
  | isAlive target hp => exact .isAlive target fun alive => h _ (hp alive)
  | report hlevel message hp => exact .report hlevel message (h _ hp)
  | exception hcontext e hp => exact .exception hcontext e (h _ hp)
  | reporting _ ih => exact .reporting (ih h)

/-- What is done with something read needs to be neutral only for what can be read. -/
theorem Neutral.reads_bind {f : World → α} {g : α → Eval β} {p : β → Prop}
    (hf : ∀ (w : World) seen, f { w with diagnostics := seen } = f w)
    (hg : ∀ w ∈ R.worlds, (g (f w)).Neutral R p) : (Eval.reads f >>= g).Neutral R p := by
  refine .bind (q := fun a => ∃ w ∈ R.worlds, a = f w) (.reads f hf fun w hw => ⟨w, hw, rfl⟩) ?_
  rintro _ ⟨w, hw, rfl⟩
  exact hg w hw

theorem Neutral.modify_bind {f : World → World} {x : Eval α}
    (hf : ∀ (w : World) seen, f { w with diagnostics := seen } = { f w with diagnostics := seen })
    (hworlds : ∀ w ∈ R.worlds, f w ∈ R.worlds) (hx : x.Neutral R p) :
    (do Eval.modify f; x).Neutral R p :=
  .bind (.modify (p := fun _ => True) f hf hworlds trivial) fun _ _ => hx

end Eval

/-- What runs when a member is called. -/
def Member.routine : Member → Routine
  | .method routine | .operation routine => routine

/-! ## Plain scripts -/

namespace Script

mutual

/-- Whether a script only computes and sets variables: it calls no functions and no members, and
it looks neither at settings nor at reports. -/
def Expr.isPlain : Expr → Bool
  | .undefined | .none | .boolean _ | .integer _ | .float _ | .string _ | .typed _
  | .variable _ | .arguments | .receiver => true
  | .assign _ value => value.isPlain
  | .argument position => position.isPlain
  | .choose condition consequent alternative =>
    condition.isPlain && consequent.isPlain && alternative.isPlain
  | .sequence parts => allPlain parts
  | .attempt body => body.isPlain
  | .perform (.value form) operands => form.isPlain && allPlain operands
  | _ => false

/-- Whether all of several scripts are plain. -/
def allPlain : List Expr → Bool
  | [] => true
  | e :: rest => e.isPlain && allPlain rest

end

end Script

namespace Realm

open Eval

variable (R : Realm)

/-- Being neutral on what is known in a realm. -/
def IsNeutral [Mentions α] (s : Set Node) (x : Eval α) : Prop :=
  s ⊆ R.nodes → x.Neutral R (Known R.nodes)

/-- Being neutral goes through every way to put computations together. -/
theorem closed_neutral : Closed @R.IsNeutral where
  mono hx hs hnodes := hx (hs.trans hnodes)
  pure ha hnodes := .pure (ha.mono hnodes)
  fail e _ := .fail e
  stuck reason _ := .stuck reason
  bind hx hf hnodes := .bind (hx hnodes) fun a ha => hf R.nodes a hnodes ha .rfl
  attempt hx hnodes := .attempt (hx hnodes) (fun _ => known_ok.mpr) known_error
  reporting hx hnodes := .reporting (hx hnodes)
  holding h hx hnodes := .holding h (hx hnodes)
  reads f hf ha hnodes := .reads f hf fun w _ => (ha w).mono hnodes
  properties hi hnodes := .reads _ (fun _ _ => rfl) fun w hw =>
    R.properties w hw _ (hi.mono hnodes)
  isAlive target _ := .isAlive target fun _ => known_nothing _
  report h message _ := .report h message (known_nothing _)

section Hosts

variable [Host]

/-- A function is neutral when it is called with what is in a realm. -/
def Runs (f : Function) : Prop :=
  ∀ args, Known R.nodes args → (Host.call f args).Neutral R (Known R.nodes)

/-- A function of an element and its key is neutral on what is in a realm. -/
def Visits [Mentions α] (visit : Value → Key → Eval α) : Prop :=
  ∀ v key, Known R.nodes v → (visit v key).Neutral R (Known R.nodes)

/-- A view is neutral, and what it tells is in a realm. -/
def Tells (view : View Value) : Prop :=
  view.Has (fun {_} [_] s x => x.Neutral R (Known s)) R.nodes

/-- What is iterable in a realm is neutral when it is taken apart. -/
structure Opens : Prop where
  instances : ∀ w ∈ R.worlds, ∀ i : InstanceRef, Known R.nodes i → w.isGeneric i.cls = true →
    R.Tells (View.ofInstance i)
  foreign : ∀ i : InstanceRef, Known R.nodes i → R.Tells (Host.foreign i)

/-- A realm supplies its functions and what is iterable in it. -/
theorem supplied_neutral {R : Realm} (hopens : R.Opens) :
    Supplied @R.IsNeutral {f | R.Runs f} R.worlds where
  toClosed := R.closed_neutral
  call hf hargs hnodes := hf.mem _ (hargs.mono hnodes)
  opens hw hi hgeneric :=
    ⟨fun hnodes => (hopens.instances _ hw _ (hi.mono hnodes) hgeneric).length,
      fun n hnodes => (hopens.instances _ hw _ (hi.mono hnodes) hgeneric).element n⟩
  foreign hi :=
    ⟨fun hnodes => (hopens.foreign _ (hi.mono hnodes)).length,
      fun n hnodes => (hopens.foreign _ (hi.mono hnodes)).element n⟩
  reads_bind hinsensitive hg hnodes :=
    .reads_bind hinsensitive fun w hw => hg w hw hnodes

/-! ### Members of instances -/

/-- Handles for a member of an instance are handed out within a realm, and those that have been
are handles for that member. -/
structure HandsOut (i : InstanceRef) (name : String) : Prop where
  numbered : ∀ w ∈ R.worlds, { w with nextId := w.nextId + 1 } ∈ R.worlds
  kept : ∀ w ∈ R.worlds, ∀ id, w.setInstance i { w.instanceState i with
    boundMethods := Entries.insert name ⟨id, i, name, false⟩ (w.instanceState i).boundMethods } ∈
      R.worlds
  found : ∀ w ∈ R.worlds, ∀ b, Entries.find? name (w.instanceState i).boundMethods = some b →
    ∃ id, b = ⟨id, i, name, false⟩

/-- The member of a name, whichever it is by then, is neutral. -/
def Offers (i : InstanceRef) (name : String) (args : List Value) (p : Value → Prop) : Prop :=
  ∀ w ∈ R.worlds, ∀ member, w.member? i.cls name = some member →
    (member.invoke i i.cls args).Neutral R p

variable {R : Realm} {i : InstanceRef} {name : String} {args : List Value} {p : Value → Prop}

omit [Host] in
/-- A request changes what the instance has handed out, and looks at nothing else than that
and what instances respond to. -/
theorem HandsOut.getMethod (h : R.HandsOut i name) :
    (i.getMethod name).Neutral R fun b => ∃ id, b = ⟨id, i, name, false⟩ := by
  have hfresh : fresh.Neutral R fun _ => True := by
    have hsteps : fresh = (do
        let id ← Eval.reads World.nextId
        Eval.modify fun w => { w with nextId := w.nextId + 1 }
        return id) := rfl
    rw [hsteps]
    exact Neutral.reads_bind (fun _ _ => rfl) fun _ _ =>
      Neutral.modify_bind (fun _ _ => rfl) h.numbered (.pure trivial)
  refine Neutral.reads_bind (fun _ _ => rfl) fun w hw => ?_
  cases hbound : Entries.find? (InstanceRef.bindingKey name false)
      (w.instanceState i).boundMethods with
  | some bound => exact .pure (h.found w hw bound hbound)
  | none =>
    refine Neutral.reads_bind (fun _ _ => rfl) fun w' _ => ?_
    split
    · exact .bind hfresh fun id _ =>
        Neutral.modify_bind (fun _ _ => rfl) (fun w hw => h.kept w hw id) (.pure ⟨id, rfl⟩)
    · exact .fail _

theorem Offers.invoke (hmember : R.Offers i name args p) (h : R.HandsOut i name) :
    (i.invoke name args).Neutral R p := by
  refine .holding _ (.bind h.getMethod ?_)
  rintro _ ⟨id, rfl⟩
  refine .bind (.isAlive _ fun _ => trivial) fun alive _ => ?_
  cases alive with
  | false => exact .fail _
  | true =>
    refine Neutral.reads_bind (fun _ _ => rfl) fun w hw => ?_
    cases hfound : w.member? i.cls name with
    | none => exact .fail _
    | some member => exact .holding _ (hmember w hw member hfound)

/-- **Iterable instances are taken apart neutrally by neutral members.** -/
theorem tells_of_offers (hlength : R.Offers i lengthMember [] fun _ => True)
    (hhandsLength : R.HandsOut i lengthMember)
    (helement : ∀ n, R.Offers i elementMember [Value.ofNat n] (Known R.nodes))
    (hhandsElement : R.HandsOut i elementMember) : R.Tells (View.ofInstance i) := by
  refine ⟨.bind (hlength.invoke hhandsLength) fun answer _ => ?_,
    fun n => (helement n).invoke hhandsElement⟩
  split
  · split
    · exact .pure (known_nothing _)
    · exact .fail _
  · exact .fail _

/-! ### Scripts -/

/-- What variables stand for is in a realm, where they may be set. -/
structure HoldsVariables (R : Realm) : Prop where
  known : ∀ w ∈ R.worlds, Known R.nodes w.bindings
  assigned : ∀ w ∈ R.worlds, ∀ name item, Known R.nodes item →
    { w with bindings := Entries.insert name item w.bindings } ∈ R.worlds

mutual

/-- **Plain scripts are neutral.** -/
theorem neutral_evaluate (hopens : R.Opens) (hvariables : R.HoldsVariables) :
    ∀ {e : Expr} {frame : Frame}, e.isPlain = true → Known R.nodes frame →
      (evaluate frame e).Neutral R (Known R.nodes)
  | .undefined, _, _, _ | .none, _, _, _ | .boolean _, _, _, _ | .integer _, _, _, _
  | .float _, _, _, _ | .string _, _, _, _ | .typed _, _, _, _ => .pure (by simp)
  | .arguments, _, _, h => .pure (by simpa using (known_frame.mp h).2)
  | .receiver, _, _, h => .pure (known_frame.mp h).1
  | .variable name, _, _, _ =>
    Neutral.reads_bind (fun _ _ => rfl) fun w hw =>
      .pure (((hvariables.known w hw).find? name).getD known_missing)
  | .assign name value, _, he, h => by
    have hvalue : value.isPlain = true := he
    refine .bind (neutral_evaluate hopens hvariables hvalue h) fun item hitem => ?_
    exact Neutral.modify_bind (fun _ _ => rfl)
      (fun w hw => hvariables.assigned w hw name item hitem) (.pure hitem)
  | .argument position, _, he, h => by
    have hposition : position.isPlain = true := he
    refine .bind (neutral_evaluate hopens hvariables hposition h) fun item _ => ?_
    split
    · refine .pure (known_value_item.mpr ?_)
      split
      · exact (known_frame.mp h).2.argumentAt _
      · exact known_undefined
    · exact .stuck _
  | .choose condition consequent alternative, _, he, h => by
    simp only [Expr.isPlain, Bool.and_eq_true] at he
    obtain ⟨⟨hcondition, hconsequent⟩, halternative⟩ := he
    refine .bind (neutral_evaluate hopens hvariables hcondition h) fun item _ => ?_
    split
    · exact neutral_evaluate hopens hvariables hconsequent h
    · exact neutral_evaluate hopens hvariables halternative h
  | .sequence parts, _, he, h => by
    have hparts : allPlain parts = true := he
    exact .bind (neutral_evaluateAll hopens hvariables hparts h) fun items hitems =>
      .pure (hitems.getLastD known_missing)
  | .attempt body, _, he, h => by
    have hbody : body.isPlain = true := he
    refine .bind (.attempt (neutral_evaluate hopens hvariables hbody h)
      (fun _ => known_ok.mpr) known_error) fun result hresult => ?_
    cases result with
    | ok item => exact .pure (known_ok.mp hresult)
    | error e => exact .pure (by simp [describeFailure])
  | .perform (.value form) operands, _, he, h => by
    simp only [Expr.isPlain, Bool.and_eq_true] at he
    refine .bind (neutral_evaluateAll hopens hvariables he.2 h) fun items hitems => ?_
    exact .holding _ ((supplied_neutral hopens).actOnPlain he.1 hitems .rfl)

theorem neutral_evaluateAll (hopens : R.Opens) (hvariables : R.HoldsVariables) :
    ∀ {parts : List Expr} {frame : Frame}, allPlain parts = true → Known R.nodes frame →
      (evaluateAll frame parts).Neutral R (Known R.nodes)
  | [], _, _, _ => .pure known_nil
  | e :: rest, _, he, h => by
    simp only [allPlain, Bool.and_eq_true] at he
    refine .bind (neutral_evaluate hopens hvariables he.1 h) fun item hitem => ?_
    refine .bind (.holding _ (neutral_evaluateAll hopens hvariables he.2 h)) fun items hitems => ?_
    exact .pure (known_cons.mpr ⟨hitem, hitems⟩)

end

end Hosts

/-! ### The hosts of scripts -/

/-- A realm whose iterable instances are taken apart by plain scripts. -/
structure IsPlain (R : Realm) : Prop where
  bindings : R.HoldsVariables
  handsOut : ∀ i : InstanceRef, Known R.nodes i → ∀ name ∈ [lengthMember, elementMember],
    R.HandsOut i name
  plain : ∀ w ∈ R.worlds, ∀ i : InstanceRef, Known R.nodes i →
    ∀ name ∈ [lengthMember, elementMember], ∀ member, w.member? i.cls name = some member →
      member.routine.body.isPlain = true

variable {R : Realm} {fuel : Nat}

/-- A fuel with which plain scripts are neutral. -/
def RunsPlain (R : Realm) (fuel : Nat) : Prop :=
  ∀ {body : Expr} {frame : Frame}, body.isPlain = true → Known R.nodes frame →
    (runWithin fuel body frame).Neutral R (Known R.nodes)

/-- Iterables are taken apart neutrally where plain scripts are neutral. -/
theorem IsPlain.opens (h : R.IsPlain) (hruns : R.RunsPlain fuel) : @R.Opens (hostWithin fuel) := by
  let _ := hostWithin fuel
  have hoffers {i : InstanceRef} (hi : Known R.nodes i) {name : String}
      (hname : name ∈ [lengthMember, elementMember]) {args : List Value}
      (hargs : Known R.nodes args) : R.Offers i name args (Known R.nodes) := by
    intro w hw member hmember
    have hplain := h.plain w hw i hi name hname member hmember
    cases member with
    | method routine => exact hruns hplain (by simp [hi, hargs])
    | operation routine => exact hruns hplain (by simp [hi.classOf, hargs])
  refine ⟨fun _ _ i hi _ => tells_of_offers ?_ (h.handsOut i hi _ (by simp))
    (fun n => hoffers hi (by simp) (by simp)) (h.handsOut i hi _ (by simp)), fun i _ => ?_⟩
  · exact fun w hw member hmember =>
      (hoffers hi (by simp) known_nil w hw member hmember).imp fun _ _ => trivial
  · have hempty : (noElements i).Has @R.IsNeutral R.nodes :=
      R.closed_neutral.ofArray known_undefined (known_array.mpr (by simp))
    exact ⟨hempty.length .rfl, fun n => hempty.element n .rfl⟩

/-- **Plain scripts are neutral with every fuel.** -/
theorem IsPlain.runsPlain (h : R.IsPlain) (fuel : Nat) : R.RunsPlain fuel := by
  induction fuel with
  | zero => exact fun _ _ => .stuck _
  | succ fuel ih =>
    intro body frame hbody hframe
    refine .holding _ (.bind ?_ fun _ hitem => R.closed_neutral.toValue hitem .rfl)
    exact @neutral_evaluate (hostWithin fuel) R (h.opens ih) h.bindings body frame hbody hframe

/-- Plain bodies are neutral when they are called. -/
theorem IsPlain.runs (h : R.IsPlain) (fuel : Nat) {body : Expr} (hbody : body.isPlain = true)
    (id : Nat) (name : String) : @R.Runs (hostWithin fuel) ⟨id, name, .script body⟩ := by
  intro args hargs
  cases fuel with
  | zero => exact .stuck _
  | succ fuel => exact h.runsPlain fuel hbody (by simp [hargs])

end Realm

end DynamicObjects
