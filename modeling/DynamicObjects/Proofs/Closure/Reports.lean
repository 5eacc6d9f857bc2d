import DynamicObjects.Proofs.Closure.Neutral
import DynamicObjects.Proofs.Collections.Turns
import DynamicObjects.Proofs.World.Liveness
import DynamicObjects.Session

/-!
# Reports do not interfere

Whether failures that leave a walk are reported is up to the settings in force, and where
reports go is up to the scope. Neither is looked at by anything but reporting itself. So a
computation comes to the same end in any settings and wherever its reports go, if the callbacks
it runs look at neither: it has one row of reports, and a scope that does not ask for those of
walks keeps the others, in order.

* `Eval.Apart`: computations whose end and whose reports do not depend on settings and scopes.
* `Eval.Neutral.apart`: neutral computations are of that sort.
* `reports_apart`: so are walks and named operations whose callbacks are neutral.
* `reports_apart_map`: a call with a callback and an iterable that count their uses.
-/

namespace DynamicObjects

open Script

variable {α β : Type}

/-! ## Rows of reports -/

/-- A report as it is made. -/
inductive Notice where
  | message (level : Level) (text : String)
  /-- A failure that passes through, with the context it is reported in. -/
  | exception (context : String) (e : Failure)

namespace Notice

/-- A report as it is kept. -/
def diagnostic : Notice → Diagnostic
  | message level text => ⟨level, text⟩
  | exception context e => ⟨.exception, context ++ ": " ++ e.message⟩

/-- Whether a report is of a failure that leaves a walk. -/
def isOfVisit : Notice → Bool
  | message _ _ => false
  | exception context _ => context == visitContext

end Notice

/-- What a scope keeps of a row of reports: all of them, or all but those of failures that
leave walks, or none. -/
def Scope.log (scope : Scope) (reports : List Notice) : Array Diagnostic :=
  scope.kept (((if scope.settings.reportCallbackErrors then reports
    else reports.filter fun r => !r.isOfVisit).map Notice.diagnostic).toArray)

theorem Scope.log_nil (scope : Scope) : scope.log [] = #[] := by
  rw [Scope.log, Scope.kept]
  cases scope.settings.reportCallbackErrors <;> cases scope.recording <;> rfl

theorem Scope.log_append (scope : Scope) (reports more : List Notice) :
    scope.log (reports ++ more) = scope.log reports ++ scope.log more := by
  simp only [Scope.log, Scope.kept]
  cases scope.settings.reportCallbackErrors <;> cases scope.recording <;> simp

/-- A report that is not of a walk is kept wherever reports are kept. -/
theorem Scope.log_of_not_isOfVisit (scope : Scope) {r : Notice} (h : r.isOfVisit = false) :
    scope.log [r] = scope.kept #[r.diagnostic] := by
  simp only [Scope.log]
  cases scope.settings.reportCallbackErrors <;> simp [h]

/-- A report of a walk is kept where it is asked for. -/
theorem Scope.log_visit (scope : Scope) (e : Failure) :
    scope.log [.exception visitContext e] = if scope.asks then #[visitReport e] else #[] := by
  obtain ⟨settings, recording, held⟩ := scope
  cases hasks : settings.reportCallbackErrors <;> cases recording <;>
    simp [Scope.log, Scope.asks, Scope.kept, hasks, Notice.isOfVisit, Notice.diagnostic,
      visitReport]

/-- A reply whose world has other reports. -/
def Reply.withReports (seen : Array Diagnostic) : Reply α → Reply α
  | .done a w => .done a { w with diagnostics := seen }
  | .failed e w => .failed e { w with diagnostics := seen }
  | .stuck reason => .stuck reason

/-- A reply that does not leave a realm, with an answer of some kind. -/
def Reply.StaysIn (R : Realm) (p : α → Prop) : Reply α → Prop
  | .done a w => p a ∧ w ∈ R.worlds
  | .failed _ w => w ∈ R.worlds
  | .stuck _ => True

/-! ## Ends -/

namespace Eval

/-- A computation that runs in a world of a realm comes to one end, apart from reports, and makes
one row of reports, whatever has been reported before, and in whatever settings and with reports
going wherever it runs. It does not leave the realm, and its answer has a property. -/
def Apart (R : Realm) (p : α → Prop) (x : Eval α) : Prop :=
  ∀ (held : List Held), ∀ w ∈ R.worlds, ∃ ending : Reply α, ending.StaysIn R p ∧
    ∃ reports : List Notice, ∀ (scope : Scope) (seen : Array Diagnostic), scope.held = held →
      x scope { w with diagnostics := seen } = ending.withReports (seen ++ scope.log reports)

variable {R : Realm} {p : α → Prop}

namespace Apart

/-- A computation that makes no reports comes to its end. -/
theorem of_silent {x : Eval α}
    (h : ∀ held, ∀ w ∈ R.worlds, ∃ ending : Reply α, ending.StaysIn R p ∧
      ∀ (scope : Scope) (seen : Array Diagnostic), scope.held = held →
        x scope { w with diagnostics := seen } = ending.withReports seen) : x.Apart R p := by
  intro held w hw
  obtain ⟨ending, hstays, hending⟩ := h held w hw
  refine ⟨ending, hstays, [], fun scope seen hheld => ?_⟩
  rw [Scope.log_nil, Array.append_empty]
  exact hending scope seen hheld

theorem bind {q : α → Prop} {p : β → Prop} {x : Eval α} {f : α → Eval β} (hx : x.Apart R q)
    (hf : ∀ a, q a → (f a).Apart R p) : (x >>= f).Apart R p := by
  intro held w hw
  obtain ⟨ending, hstays, reports, hending⟩ := hx held w hw
  cases ending with
  | done a middle =>
    obtain ⟨ha, hmiddle⟩ := hstays
    obtain ⟨ending', hstays', more, hending'⟩ := hf a ha held middle hmiddle
    refine ⟨ending', hstays', reports ++ more, fun scope seen hheld => ?_⟩
    rw [bind_apply, hending scope seen hheld, Scope.log_append, ← Array.append_assoc]
    exact hending' scope _ hheld
  | failed e after =>
    refine ⟨.failed e after, hstays, reports, fun scope seen hheld => ?_⟩
    rw [bind_apply, hending scope seen hheld]
    rfl
  | stuck reason =>
    refine ⟨.stuck reason, trivial, reports, fun scope seen hheld => ?_⟩
    rw [bind_apply, hending scope seen hheld]
    rfl

theorem attempt {q : α → Prop} {p : Except Failure α → Prop} {x : Eval α} (hx : x.Apart R q)
    (hok : ∀ a, q a → p (.ok a)) (herror : ∀ e, p (.error e)) : x.attempt.Apart R p := by
  intro held w hw
  obtain ⟨ending, hstays, reports, hending⟩ := hx held w hw
  cases ending with
  | done a after =>
    refine ⟨.done (.ok a) after, ⟨hok a hstays.1, hstays.2⟩, reports, fun scope seen hheld => ?_⟩
    rw [Eval.attempt, hending scope seen hheld]
    rfl
  | failed e after =>
    refine ⟨.done (.error e) after, ⟨herror e, hstays⟩, reports, fun scope seen hheld => ?_⟩
    rw [Eval.attempt, hending scope seen hheld]
    rfl
  | stuck reason =>
    refine ⟨.stuck reason, trivial, reports, fun scope seen hheld => ?_⟩
    rw [Eval.attempt, hending scope seen hheld]
    rfl

theorem holding {x : Eval α} (h : Held) (hx : x.Apart R p) : (holding h x).Apart R p := by
  intro held w hw
  obtain ⟨ending, hstays, reports, hending⟩ := hx (h :: held) w hw
  refine ⟨ending, hstays, reports, fun scope seen hheld => ?_⟩
  rw [holding_apply, hending (scope.holding h) seen (congrArg _ hheld)]
  rfl

/-- A report of a row of one. -/
theorem of_report {p : Unit → Prop} {r : Notice} (h : r.isOfVisit = false) (hp : p ()) :
    (report r.diagnostic.level r.diagnostic.message).Apart R p := by
  intro held w hw
  refine ⟨.done () w, ⟨hp, hw⟩, [r], fun scope seen _ => ?_⟩
  rw [report_apply, Scope.log_of_not_isOfVisit scope h, Scope.kept]
  cases scope.recording
  · simp [Reply.withReports]
  · simp [Reply.withReports]

/-- What fails in a walk adds one report to the row. -/
theorem reporting {x : Eval α} (hx : x.Apart R p) : (reporting x).Apart R p := by
  intro held w hw
  obtain ⟨ending, hstays, reports, hending⟩ := hx held w hw
  cases ending with
  | done a after =>
    refine ⟨.done a after, hstays, reports, fun scope seen hheld => ?_⟩
    rw [reporting_apply, hending scope seen hheld]
    rfl
  | failed e after =>
    refine ⟨.failed e after, hstays, reports ++ [.exception visitContext e],
      fun scope seen hheld => ?_⟩
    rw [reporting_apply, hending scope seen hheld, Scope.log_append, Scope.log_visit]
    simp only [Reply.withReports, Reply.leaving, Scope.noted]
    split <;> simp
  | stuck reason =>
    refine ⟨.stuck reason, trivial, reports, fun scope seen hheld => ?_⟩
    rw [reporting_apply, hending scope seen hheld]
    rfl

end Apart

/-- What is alive does not depend on reports. -/
theorem isAlive_of_reports (w : World) (seen : Array Diagnostic) (held : List Held)
    (target : Node) :
    ({ w with diagnostics := seen } : World).isAlive held target = w.isAlive held target := by
  have hsame : w.SameHolders { w with diagnostics := seen } :=
    ⟨rfl, rfl, fun _ => rfl, fun _ => rfl, fun _ => rfl, fun _ => rfl⟩
  rw [Bool.eq_iff_iff, World.isAlive_iff, World.isAlive_iff, hsame.alive_iff]

/-- **Reports do not interfere with neutral computations.** -/
theorem Neutral.apart {x : Eval α} (h : x.Neutral R p) : x.Apart R p := by
  induction h with
  | pure ha => exact .of_silent fun _ w hw => ⟨.done _ w, ⟨ha, hw⟩, fun _ _ _ => rfl⟩
  | fail e => exact .of_silent fun _ w hw => ⟨.failed e w, hw, fun _ _ _ => rfl⟩
  | stuck reason => exact .of_silent fun _ _ _ => ⟨.stuck reason, trivial, fun _ _ _ => rfl⟩
  | bind _ _ hx hf => exact hx.bind hf
  | attempt _ hok herror hx => exact hx.attempt hok herror
  | holding h _ hx => exact hx.holding h
  | reads f hf hp =>
    refine .of_silent fun _ w hw => ⟨.done (f w) w, ⟨hp w hw, hw⟩, fun scope seen _ => ?_⟩
    rw [reads_apply, hf]
    rfl
  | modify f hf hworlds hp =>
    refine .of_silent fun _ w hw => ⟨.done () (f w), ⟨hp, hworlds w hw⟩, fun scope seen _ => ?_⟩
    rw [modify_apply, hf]
    rfl
  | isAlive target hp =>
    refine .of_silent fun held w hw =>
      ⟨.done (w.isAlive held target) w, ⟨hp _, hw⟩, fun scope seen hheld => ?_⟩
    rw [isAlive_apply, hheld, isAlive_of_reports]
    rfl
  | @report _ level _ text hp => exact Apart.of_report (r := .message level text) rfl hp
  | @exception _ context h e hp =>
    have hother : (Notice.exception context e).isOfVisit = false := beq_eq_false_iff_ne.mpr h
    exact Apart.of_report hother hp
  | reporting _ hx => exact hx.reporting

end Eval

/-! ## Walks and named operations -/

/-- **Reports do not interfere.** -/
theorem reports_apart [Host] (R : Realm) (hopens : R.Opens) :
    (∀ (b : Builtin) args, Known R.nodes args → (∀ f ∈ b.callbacks args, R.Runs f) →
      (b.apply args).Apart R (Known R.nodes)) ∧
    ∀ container, Known R.nodes container →
      (∀ {σ : Type} [Mentions σ] (walk : Walk σ) start, Known R.nodes start →
        (∀ s, Known R.nodes s → R.Visits (walk.visit s)) →
          (walk.run start container).Apart R (Known R.nodes)) ∧
      (∀ visit, R.Visits visit → (visitAll container visit).Apart R (Known R.nodes)) ∧
      (∀ f, R.Visits f → (mapElements f container).Apart R (Known R.nodes)) ∧
      (∀ predicate, R.Visits predicate →
        (filterElements predicate container).Apart R (Known R.nodes)) ∧
      (∀ predicate processor, R.Visits predicate → R.Visits processor →
        (filterWith predicate processor container).Apart R (Known R.nodes)) ∧
      (∀ step initial, Known R.nodes initial →
        (∀ acc ordinal, Known R.nodes acc → R.Visits fun v key => step acc v key ordinal) →
          (reduceWith step initial container).Apart R (Known R.nodes)) := by
  have hR := R.supplied_neutral hopens
  have hvisits {α : Type} [Mentions α] {visit : Value → Key → Eval α} (h : R.Visits visit) :
      Visits @R.IsNeutral R.nodes visit :=
    fun s v key _ hv hs => h v key (hv.mono hs)
  refine ⟨fun b args hargs hcallbacks => (hR.apply b hargs hcallbacks .rfl).apart,
    fun container hcontainer => ⟨?_, ?_, ?_, ?_, ?_, ?_⟩⟩
  · intro σ _ walk start hstart hwalk
    exact (hR.walkRun (fun s state _ hstate s' v key hs hv hs' =>
      hwalk state (hstate.mono (hs.trans hs')) v key (hv.mono hs')) hstart hcontainer .rfl).apart
  · exact fun visit h => (hR.visitAll hcontainer (hvisits h) .rfl).apart
  · exact fun f h => (hR.mapElements (hvisits h) hcontainer .rfl).apart
  · exact fun predicate h => (hR.filterElements (hvisits h) hcontainer .rfl).apart
  · exact fun predicate processor h h' =>
      (hR.filterWith (hvisits h) (hvisits h') hcontainer .rfl).apart
  · exact fun step initial hinitial hstep => (hR.reduceWith (fun s acc v key ordinal _ hacc hv hs =>
      hstep acc ordinal (hacc.mono hs) v key (hv.mono hs)) hinitial hcontainer .rfl).apart

/-! ### A scripted call

An iterable whose elements are told by a body that counts them, and a callback that counts its
calls and fails at the second one. -/

namespace Teller

/-- Counts in a variable, and answers the count. -/
def counting (name : String) : Expr :=
  .assign name (.perform (.value .add) [.variable name, .integer 1])

/-- Answers its first argument and counts its calls, but fails at the second one. -/
def failing : Expr :=
  .choose (.perform (.value .equal) [counting "calls", .integer 2])
    (.perform (.value .raise) [.string "enough"]) (.argument (.integer 0))

/-- The class of the iterable. -/
def state : ClassState where
  name := some "Teller"
  methods := (Members.declare lengthMember ⟨0, lengthMember, .integer 3⟩ {}).declare
    elementMember ⟨1, elementMember, counting "told"⟩

def iterable : InstanceRef := ⟨0, ⟨0, "Teller"⟩⟩

/-- The worlds of the one instance, which has no properties and has handed out no handles but
its own. -/
def realm : Realm where
  worlds := {w | w.classes = #[state] ∧
    (∃ handles, w.instances = #[{ boundMethods := handles }] ∧
      ∀ name b, Entries.find? name handles = some b → ∃ id, b = ⟨id, iterable, name, false⟩) ∧
    Known {.inst iterable, .cls iterable.cls} w.bindings}
  nodes := {.inst iterable, .cls iterable.cls}
  properties := by
    rintro w ⟨-, ⟨handles, hinstances, -⟩, -⟩ i hi
    have hproperties : w.properties i = [] := by
      rw [World.properties, World.instanceState, hinstances]
      cases i.index <;> rfl
    rw [hproperties]
    exact known_nil

theorem eq_iterable {i : InstanceRef} (hi : Known realm.nodes i) : i = iterable := by
  simpa [realm] using (known_inst_iff.mp hi).1

theorem isPlain_realm : realm.IsPlain where
  bindings := {
    known := fun _ hw => hw.2.2
    assigned := fun _ hw _ _ hitem => ⟨hw.1, hw.2.1, hw.2.2.insert hitem⟩ }
  handsOut i hi name _ := by
    obtain rfl := eq_iterable hi
    refine ⟨fun _ hw => hw, ?_, ?_⟩
    · rintro w ⟨hclasses, ⟨handles, hinstances, hhandles⟩, hbindings⟩ id
      have hstate : w.instanceState iterable = { boundMethods := handles } := by
        rw [World.instanceState, hinstances]
        rfl
      refine ⟨hclasses, ⟨Entries.insert name ⟨id, iterable, name, false⟩ handles, ?_, ?_⟩,
        hbindings⟩
      · rw [World.setInstance, hstate, hinstances]
        rfl
      · intro key b hb
        rw [Entries.find?_insert] at hb
        split at hb
        · cases hb
          exact ⟨id, by simp_all⟩
        · exact hhandles key b hb
    · rintro w ⟨-, ⟨handles, hinstances, hhandles⟩, -⟩ b hb
      rw [World.instanceState, hinstances] at hb
      exact hhandles name b hb
  plain w hw i hi name hname member hmember := by
    obtain rfl := eq_iterable hi
    rw [World.member?, World.classState, hw.1] at hmember
    rcases List.mem_pair.mp hname with rfl | rfl
    · cases hmember
      rfl
    · cases hmember
      rfl

/-- The world before a call. -/
def world : World where
  classes := #[state]
  instances := #[{}]
  bindings := [("calls", .value (.integer 0)), ("told", .value (.integer 0))]
  nextId := 2

theorem world_mem : world ∈ realm.worlds :=
  ⟨rfl, ⟨[], rfl, nofun⟩, by simp [world]⟩

end Teller

open Teller in
/-- The callback fails at the second element of an array and of an iterable. What it has counted
by then is the same whether or not its failure is reported. -/
theorem reports_apart_map :
    letI := Session.host
    let call (container : Value) :=
      Builtin.map.apply [container, .function ⟨2, "failing", .script failing⟩]
    let failure := Failure.raised (.string "enough")
    let after := { world with
      bindings := [("calls", .value (.integer 2)), ("told", .value (.integer 0))] }
    (call (.inst iterable)).Apart realm (Known realm.nodes) ∧
      (call (.array [.integer 7, .integer 8])).Apart realm (Known realm.nodes) ∧
      world ∈ realm.worlds ∧
      call (.array [.integer 7, .integer 8]) {} world =
        .failed failure (after.reported failure 1) ∧
      call (.array [.integer 7, .integer 8]) { settings := { reportCallbackErrors := false } }
        world = .failed failure after := by
  let _ := Session.host
  obtain ⟨happly, -⟩ :=
    reports_apart realm (isPlain_realm.opens (isPlain_realm.runsPlain Session.nesting))
  have hfailing {container : Value} (f : Function)
      (hf : f ∈ Builtin.map.callbacks
        [container, .function ⟨2, "failing", .script failing⟩]) : realm.Runs f := by
    obtain rfl := List.mem_singleton.mp hf
    exact isPlain_realm.runs _ rfl _ _
  exact ⟨happly .map _ (by simp [known_inst_iff, realm]) hfailing, happly .map _ (by simp) hfailing,
    world_mem, rfl, rfl⟩

end DynamicObjects
