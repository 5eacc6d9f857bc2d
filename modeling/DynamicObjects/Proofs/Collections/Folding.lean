import DynamicObjects.Builtin.Apply
import DynamicObjects.Proofs.Collections.Calls
import DynamicObjects.Script.Evaluate

/-!
# Folding

A fold makes a step for every element, and each step gets the accumulator that the one before it
has left: a defined answer, or else what the step has made of the accumulator. A fold without a
defined start takes its first element for that and makes no step for it; it counts on from there,
and from the second element on it makes steps even where nothing is defined (`Reduces`).

Folding by a function starts from a seed. A seed that is missing is no start, though: then the
first element is taken for it. So the function is called for every element just when the seed
is defined or there are no elements.

* `reduction_contract`: what becomes of a fold.
* `foldl_starts_iff`: when folding by a function starts from its seed.
-/

namespace DynamicObjects

open Inquiry (Call)

/-- A step of a fold that was answered. Its state is the accumulator that it got and how many
elements came before; its answer is the accumulator as it left it and what it answered. -/
abbrev FoldCall := Call (Value × Nat) (Value × Value)

namespace FoldCall

/-- The accumulator that a step got. -/
def acc (call : FoldCall) : Value := call.state.1

def ordinal (call : FoldCall) : Nat := call.state.2

/-- The accumulator after a step: a defined answer, or the accumulator as the step left it. -/
def result (call : FoldCall) : Value :=
  if call.answer.2.isDefined then call.answer.2 else call.answer.1

end FoldCall

/-- Calls fold turns from a start on. There is one call for each turn, in order, with its element,
and they are numbered from a first ordinal on. The first call gets the start as its accumulator,
each later one what the call before it results in, and the last one results in the result; without
calls that is the start. -/
structure FoldsFrom (start : Value) (first : Nat) (turns : List Turn) (calls : List FoldCall)
    (result : Value) : Prop where
  keys_eq : calls.map Call.key = turns.map Turn.key
  elements_eq : ∀ entries, turns = Turn.ofEntries entries →
    calls.map (fun call => (call.key, call.element)) = entries
  ordinals_eq : calls.map FoldCall.ordinal = List.range' first turns.length
  accumulators_eq : calls.map FoldCall.acc ++ [result] = start :: calls.map FoldCall.result

namespace FoldsFrom

theorem nil (start : Value) (first : Nat) : FoldsFrom start first [] [] start where
  keys_eq := rfl
  elements_eq := by
    intro entries hentries
    rw [Turn.ofEntries, eq_comm, List.map_eq_nil_iff] at hentries
    rw [hentries, List.map_nil]
  ordinals_eq := rfl
  accumulators_eq := rfl

/-- There are as many calls as turns. -/
theorem length_eq {start result : Value} {first : Nat} {turns : List Turn}
    {calls : List FoldCall} (h : FoldsFrom start first turns calls result) :
    calls.length = turns.length := by
  have hkeys := congrArg List.length h.keys_eq
  rwa [List.length_map, List.length_map] at hkeys

end FoldsFrom

/-- The inquiry that makes steps. -/
def Inquiry.fold (step : Value → Value → Key → Nat → Eval (Value × Value)) :
    Inquiry (Value × Nat) (Value × Value) where
  keeps := fun s => .values [s.1]
  ask := fun s v key => step s.1 v key s.2
  next := fun s _ _ given => (if given.2.isDefined then given.2 else given.1, s.2 + 1)

variable {step : Value → Value → Key → Nat → Eval (Value × Value)} {scope : Scope}
  {initial : Option Value} {container : Value} {turns : List Turn} {w begun : World}
  {calls : List FoldCall} {reply : Reply Value}

/-- What becomes of a fold over turns, after which calls. -/
inductive Reduces (step : Value → Value → Key → Nat → Eval (Value × Value)) (scope : Scope)
    (initial : Option Value) (begun : World) : List Turn → List FoldCall → Reply Value → Prop
  /-- A defined start gets a call for every turn. -/
  | started {start : Value} {turns : List Turn} {calls : List FoldCall} {reply : Reply Value}
      (hstart : initial = some start) (hdefined : start.isDefined = true)
      (hgets : (Inquiry.fold step).Gets scope Prod.fst (start, 0) begun turns calls reply) :
      Reduces step scope initial begun turns calls reply
  /-- Without one the first element is the start, and the other turns get a call. -/
  | seeded {first : Turn} {rest : List Turn} {start : Value} {fetched : World}
      {calls : List FoldCall} {reply : Reply Value}
      (hnone : (initial.getD .undefined).isDefined = false)
      (hfetch : first.fetch (scope.holding (.values [.undefined])) begun = .done start fetched)
      (hgets : (Inquiry.fold step).Gets scope Prod.fst (start, 1) fetched rest calls reply) :
      Reduces step scope initial begun (first :: rest) calls reply
  | empty (hnone : (initial.getD .undefined).isDefined = false) :
      Reduces step scope initial begun [] [] (.done (initial.getD .undefined) begun)
  | unfetched {first : Turn} {rest : List Turn} {e : Failure} {after : World}
      (hnone : (initial.getD .undefined).isDefined = false)
      (hfetch : first.fetch (scope.holding (.values [.undefined])) begun = .failed e after) :
      Reduces step scope initial begun (first :: rest) [] (.failed e (scope.noted e after))
  | stuck {first : Turn} {rest : List Turn} {reason : Stuck}
      (hnone : (initial.getD .undefined).isDefined = false)
      (hfetch : first.fetch (scope.holding (.values [.undefined])) begun = .stuck reason) :
      Reduces step scope initial begun (first :: rest) [] (.stuck reason)

/-! ## The calls of a fold -/

/-- The calls about elements that are all there are about these elements. -/
theorem Inquiry.Asks.elements_eq {τ β : Type} {q : Inquiry τ β} {entries : List (Key × Value)}
    {t t' : τ} {w w' : World} {calls : List (Call τ β)}
    (h : q.Asks scope (Turn.ofEntries entries) t w calls t' w') :
    calls.map (fun call => (call.key, call.element)) = entries := by
  induction entries generalizing t w calls with
  | nil =>
    cases h
    rfl
  | cons entry rest ih =>
    cases h with
    | cons hfetch _ hrest =>
      cases hfetch
      rw [List.map_cons, ih hrest]

theorem Inquiry.Asks.foldsFrom {start : Value} {first : Nat} {s : Value × Nat} {w' : World}
    (h : (Inquiry.fold step).Asks scope turns (start, first) w calls s w') :
    FoldsFrom start first turns calls s.1 where
  keys_eq := h.keys_eq
  elements_eq := by
    rintro entries rfl
    exact h.elements_eq
  ordinals_eq := by
    generalize hs : (start, first) = s at h
    obtain rfl : s.2 = first := by rw [← hs]
    clear hs
    induction h with
    | nil => rfl
    | cons _ _ _ ih =>
      rw [List.map_cons, ih, List.length_cons, List.range'_succ]
      rfl
  accumulators_eq := by
    have hstates := congrArg (List.map Prod.fst) h.states_eq
    simp only [List.map_append, List.map_cons, List.map_map, List.map_nil] at hstates
    exact hstates

/-- A walk that folds makes steps as soon as it has a defined accumulator or has seen an
element. -/
theorem follows_fold (step : Value → Value → Key → Nat → Eval (Value × Value)) :
    (Inquiry.fold step).Follows (Walk.fold step) id fun s => s.1.isDefined = true ∨ s.2 ≠ 0 where
  keeps_eq _ := rfl
  visit_eq := by
    rintro ⟨acc, ordinal⟩ v key hstarted
    have hsteps : (ordinal == 0 && !acc.isDefined) = false := by
      rcases hstarted with hdefined | hseen
      · simp [show acc.isDefined = true from hdefined]
      · simp [show ordinal ≠ 0 from hseen]
    simp only [Walk.fold, Inquiry.fold, hsteps, id_eq, Bool.false_eq_true, if_false]
  among_next _ _ _ _ _ := .inr (Nat.succ_ne_zero _)

/-! ## What becomes of a fold -/

theorem not_isDefined_iff {v : Value} : v.isDefined = false ↔ v = .undefined := by
  cases v <;> simp [Value.isDefined]

/-- Without a defined accumulator the first visit makes no step. -/
theorem visits_seed (v : Value) (key : Key) (w : World) :
    (Walk.fold step).visits scope (.undefined, 0) v key w = .done (.proceed, v, 1) w := by
  cases v <;> rfl

namespace Reduces

variable {result : Value} {after : World}

theorem foldsFrom_start {start : Value}
    (h : Reduces step scope initial begun turns calls (.done result after))
    (hstart : initial = some start) (hdefined : start.isDefined = true) :
    FoldsFrom start 0 turns calls result := by
  subst hstart
  cases h with
  | started hstart _ hgets =>
    cases hstart
    obtain ⟨s, rfl, hasks⟩ := hgets.of_done
    exact hasks.foldsFrom
  | seeded hnone | empty hnone => cases hdefined.symm.trans hnone

theorem foldsFrom_first (h : Reduces step scope initial begun turns calls (.done result after))
    (hnone : (initial.getD .undefined).isDefined = false) :
    (turns = [] → calls = [] ∧ result = initial.getD .undefined) ∧
    ∀ first rest, turns = first :: rest → ∃ start fetched,
      first.fetch (scope.holding (.values [.undefined])) begun = .done start fetched ∧
      FoldsFrom start 1 rest calls result := by
  cases h with
  | started hstart hdefined =>
    rw [hstart] at hnone
    cases hdefined.symm.trans hnone
  | @seeded first rest start fetched _ _ _ hfetch hgets =>
    obtain ⟨s, rfl, hasks⟩ := hgets.of_done
    refine ⟨fun hturns => absurd hturns (List.cons_ne_nil first rest), fun _ _ hturns => ?_⟩
    obtain ⟨rfl, rfl⟩ := List.cons.inj hturns
    exact ⟨start, fetched, hfetch, hasks.foldsFrom⟩
  | empty =>
    exact ⟨fun _ => ⟨rfl, rfl⟩, fun first rest hturns => absurd hturns.symm (List.cons_ne_nil _ _)⟩

theorem done_of_answers (h : Reduces step scope initial begun turns calls reply)
    (hturns : ∀ turn ∈ turns, turn.fetch.AlwaysAnswers)
    (hstep : ∀ acc v key ordinal, (step acc v key ordinal).AlwaysAnswers) :
    ∃ result after, reply = .done result after := by
  have hask (s : Value × Nat) (v : Value) (key : Key) :
      ((Inquiry.fold step).ask s v key).AlwaysAnswers := hstep s.1 v key s.2
  cases h with
  | started _ _ hgets => exact hgets.done_of_answers hturns hask
  | seeded _ _ hgets =>
    exact hgets.done_of_answers (fun turn hturn => hturns turn (List.mem_cons_of_mem _ hturn)) hask
  | empty => exact ⟨_, _, rfl⟩
  | unfetched _ hfetch | stuck _ hfetch =>
    obtain ⟨start, fetched, hfetched⟩ := hturns _ List.mem_cons_self _ _
    cases hfetch.symm.trans hfetched

end Reduces

section Reducing

variable [Host]

theorem reduceWith_apply (hbegins : (Walk.fold step).Begins scope (initial.getD .undefined, 0)
    container w turns begun) :
    reduceWith step initial container scope w =
      (do return (← (Walk.fold step).along turns (initial.getD .undefined, 0)).2.1 : Eval Value)
        scope begun := by
  change (do return (← (Walk.fold step).run (initial.getD .undefined, 0) container).2.1 :
    Eval Value) scope w = _
  rw [Eval.bind_apply, hbegins.run_eq, ← Eval.bind_apply]

theorem reduceWith_seeded {first : Turn} {rest : List Turn}
    (hbegins : (Walk.fold step).Begins scope (initial.getD .undefined, 0) container w
      (first :: rest) begun)
    (hnone : (initial.getD .undefined).isDefined = false) :
    reduceWith step initial container scope w =
      match first.fetch (scope.holding (.values [.undefined])) begun with
      | .done start fetched =>
        (do return (← (Walk.fold step).along rest (start, 1)).2.1 : Eval Value) scope fetched
      | .failed e after => .failed e (scope.noted e after)
      | .stuck reason => .stuck reason := by
  have hfetches : (Walk.fold step).fetches scope first (.undefined, 0) begun =
      first.fetch (scope.holding (.values [.undefined])) begun := rfl
  rw [reduceWith_apply hbegins, not_isDefined_iff.mp hnone, Eval.bind_apply,
    Walk.along_cons_apply, hfetches]
  cases first.fetch (scope.holding (.values [.undefined])) begun with
  | done start fetched =>
    simp only [visits_seed]
    rfl
  | failed e after => rfl
  | stuck reason => rfl

/-- **What becomes of a fold.** -/
theorem reduceWith_iff (hbegins : (Walk.fold step).Begins scope (initial.getD .undefined, 0)
    container w turns begun) :
    reduceWith step initial container scope w = reply ↔
      ∃ calls, Reduces step scope initial begun turns calls reply := by
  have hfollows {s : Value × Nat} (hs : s.1.isDefined = true ∨ s.2 ≠ 0) (turns : List Turn)
      (w : World) : (do return (← (Walk.fold step).along turns s).2.1 : Eval Value) scope w =
        reply ↔ ∃ calls, (Inquiry.fold step).Gets scope Prod.fst s w turns calls reply :=
    (follows_fold step).along_iff hs Prod.fst turns w reply
  cases hdefined : (initial.getD .undefined).isDefined with
  | true =>
    obtain ⟨start, rfl⟩ : ∃ start, initial = some start := by
      cases initial with
      | none => cases hdefined
      | some start => exact ⟨start, rfl⟩
    rw [reduceWith_apply hbegins, hfollows (.inl hdefined)]
    constructor
    · rintro ⟨calls, hgets⟩
      exact ⟨calls, .started rfl hdefined hgets⟩
    · rintro ⟨calls, hreduces⟩
      cases hreduces with
      | started hstart _ hgets =>
        cases hstart
        exact ⟨calls, hgets⟩
      | seeded hnone | empty hnone | unfetched hnone | stuck hnone =>
        cases hdefined.symm.trans hnone
  | false =>
    have hstarted {start : Value} (hstart : initial = some start) : start.isDefined = false := by
      rw [hstart] at hdefined
      exact hdefined
    cases turns with
    | nil =>
      have hempty : reduceWith step initial container scope w =
          .done (initial.getD .undefined) begun := reduceWith_apply hbegins
      rw [hempty]
      constructor
      · rintro rfl
        exact ⟨[], .empty hdefined⟩
      · rintro ⟨calls, hreduces⟩
        cases hreduces with
        | started hstart hdefined => cases hdefined.symm.trans (hstarted hstart)
        | empty => rfl
    | cons first rest =>
      rw [reduceWith_seeded hbegins hdefined]
      constructor
      · cases hfetch : first.fetch (scope.holding (.values [.undefined])) begun with
        | done start fetched =>
          intro hreply
          obtain ⟨calls, hgets⟩ := (hfollows (.inr Nat.one_ne_zero) rest fetched).mp hreply
          exact ⟨calls, .seeded hdefined hfetch hgets⟩
        | failed e after =>
          rintro rfl
          exact ⟨[], .unfetched hdefined hfetch⟩
        | stuck reason =>
          rintro rfl
          exact ⟨[], .stuck hdefined hfetch⟩
      · rintro ⟨calls, hreduces⟩
        cases hreduces with
        | started hstart hdefined => cases hdefined.symm.trans (hstarted hstart)
        | seeded _ hfetch hgets =>
          rw [hfetch]
          exact (hfollows (.inr Nat.one_ne_zero) rest _).mpr ⟨calls, hgets⟩
        | unfetched _ hfetch | stuck _ hfetch => rw [hfetch]

/-- **The contract of folds.** A fold with a defined start makes one step for each turn of its
container, numbered from zero; any other one takes its first element as the start, without a step
for it, defined or not, and makes one step for each other turn, numbered from one; without turns
it gives back the start that it was given, if any. Every step gets the accumulator that the one
before has left, and the fold results in what the last one has left. The first step that fails,
or element that cannot be had, ends the fold as it ends, and no step is made after it; when all
answer, the fold does. -/
theorem reduction_contract (hbegins : (Walk.fold step).Begins scope
    (initial.getD .undefined, 0) container w turns begun) :
    (∀ reply, reduceWith step initial container scope w = reply ↔
      ∃ calls, Reduces step scope initial begun turns calls reply) ∧
    (∀ calls result after, Reduces step scope initial begun turns calls (.done result after) →
      (∀ start, initial = some start → start.isDefined = true →
        FoldsFrom start 0 turns calls result) ∧
      ((initial.getD .undefined).isDefined = false →
        (turns = [] → calls = [] ∧ result = initial.getD .undefined) ∧
        ∀ first rest, turns = first :: rest → ∃ start fetched,
          first.fetch (scope.holding (.values [.undefined])) begun = .done start fetched ∧
          FoldsFrom start 1 rest calls result)) ∧
    ((∀ turn ∈ turns, turn.fetch.AlwaysAnswers) →
      (∀ acc v key ordinal, (step acc v key ordinal).AlwaysAnswers) →
      ∃ result after, reduceWith step initial container scope w = .done result after) := by
  refine ⟨fun reply => reduceWith_iff hbegins, fun calls result after hreduces => ?_,
    fun hturns hstep => ?_⟩
  · exact ⟨fun start hstart hdefined => hreduces.foldsFrom_start hstart hdefined,
      hreduces.foldsFrom_first⟩
  · obtain ⟨calls, hreduces⟩ := (reduceWith_iff hbegins).mp rfl
    exact hreduces.done_of_answers hturns hstep

end Reducing

/-- Without a start a missing element is the start. Every step puts together its accumulator and
its element in place and answers nothing. -/
theorem reduction_contract_in_place :
    let step (acc v : Value) (_ : Key) (ordinal : Nat) : Eval (Value × Value) :=
      return (.array [acc, v, .ofNat ordinal], .undefined)
    let _ := Script.hostWithin 0
    let turns := Turn.ofEntries (indexedFrom 0 [.undefined, .integer 7])
    (Walk.fold step).Begins {} (.undefined, 0) (.array [.undefined, .integer 7]) {} turns {} ∧
      reduceWith step none (.array [.undefined, .integer 7]) {} {} =
        .done (.array [.undefined, .integer 7, .integer 1]) {} := by
  intro step _ turns
  have hbegins : (Walk.fold step).Begins {} ((none : Option Value).getD .undefined, 0)
      (.array [.undefined, .integer 7]) {} turns {} := .entries rfl
  have hnone : ((none : Option Value).getD .undefined).isDefined = false := rfl
  refine ⟨hbegins, ?_⟩
  have hasks : (Inquiry.fold step).Asks {} (Turn.ofEntries [(.index 1, .integer 7)])
      (.undefined, 1) {}
      [⟨(.undefined, 1), .integer 7, .index 1,
        (.array [.undefined, .integer 7, .integer 1], .undefined)⟩]
      (.array [.undefined, .integer 7, .integer 1], 2) {} := .cons rfl rfl .nil
  obtain ⟨hreduces, -, -⟩ := reduction_contract hbegins
  exact (hreduces _).mpr ⟨_, .seeded hnone rfl (.all hasks)⟩

/-! ## Folding from a seed -/

section Seeds

variable [Host] {f : Function} {seed : Value}

/-- The step that calls a function. -/
def Function.foldStep (f : Function) (acc v : Value) (key : Key) (ordinal : Nat) :
    Eval (Value × Value) := do
  return (acc, ← Host.call f [acc, v, key.toValue, Value.ofNat ordinal])

theorem Function.foldStep_answers (h : ∀ args, (Host.call f args).AlwaysAnswers) (acc v : Value)
    (key : Key) (ordinal : Nat) : (f.foldStep acc v key ordinal).AlwaysAnswers := by
  intro scope w
  obtain ⟨answer, after, hcall⟩ := h [acc, v, key.toValue, Value.ofNat ordinal] scope w
  exact ⟨(acc, answer), after, Eval.bind_of_done hcall _⟩

/-- **When folding by a function starts from its seed.** The calls of the function are those of
a fold that is given the seed. They go through all elements, numbered from zero, and the first
one gets the seed, exactly if the seed is defined or there are no elements; a missing seed gives
way to the first element, which then has no call. -/
theorem foldl_starts_iff (hbegins : (Walk.fold f.foldStep).Begins scope (seed, 0) container w
    turns begun) :
    (∀ reply, Builtin.foldl.apply [container, seed, .function f] scope w = reply ↔
      ∃ calls, Reduces f.foldStep scope (some seed) begun turns calls reply) ∧
    (∀ calls result after,
      Reduces f.foldStep scope (some seed) begun turns calls (.done result after) →
      (FoldsFrom seed 0 turns calls result ↔ seed.isDefined = true ∨ turns = [])) ∧
    ((∀ turn ∈ turns, turn.fetch.AlwaysAnswers) → (∀ args, (Host.call f args).AlwaysAnswers) →
      ∃ result after,
        Builtin.foldl.apply [container, seed, .function f] scope w = .done result after) := by
  have hiff (reply : Reply Value) :
      reduceWith f.foldStep (some seed) container scope w = reply ↔
        ∃ calls, Reduces f.foldStep scope (some seed) begun turns calls reply :=
    reduceWith_iff hbegins
  refine ⟨hiff, fun calls result after hreduces => ?_, fun hturns hcall => ?_⟩
  · constructor
    · intro hfolds
      cases hdefined : seed.isDefined with
      | true => exact .inl rfl
      | false =>
        obtain ⟨-, hfirst⟩ := hreduces.foldsFrom_first hdefined
        cases turns with
        | nil => exact .inr rfl
        | cons first rest =>
          -- The first element has no call, so there is one call too few.
          obtain ⟨_, _, -, hrest⟩ := hfirst first rest rfl
          have hlength : (first :: rest).length = rest.length :=
            hfolds.length_eq.symm.trans hrest.length_eq
          exact absurd hlength (Nat.succ_ne_self _)
    · intro hstarts
      cases hdefined : seed.isDefined with
      | true => exact hreduces.foldsFrom_start rfl hdefined
      | false =>
        obtain rfl := hstarts.resolve_left (Bool.eq_false_iff.mp hdefined)
        obtain ⟨hempty, -⟩ := hreduces.foldsFrom_first hdefined
        obtain ⟨hcalls, hresult⟩ := hempty rfl
        rw [hcalls, hresult]
        exact .nil seed 0
  · obtain ⟨calls, hreduces⟩ := (hiff _).mp rfl
    exact hreduces.done_of_answers hturns (Function.foldStep_answers hcall)

end Seeds

/-- From a number the function is called for the first element, too, and the call for the second
one gets what the first call answers. -/
theorem foldl_starts_iff_number :
    let f : Function := ⟨0, "arguments", .script .arguments⟩
    let container := Value.array [.integer 4, .integer 5]
    let turns := Turn.ofEntries (indexedFrom 0 [.integer 4, .integer 5])
    let first := Value.array [.integer 1, .integer 4, .integer 0, .integer 0]
    let result := Value.array [first, .integer 5, .integer 1, .integer 1]
    let _ := Script.hostWithin 2
    (Walk.fold f.foldStep).Begins {} (.integer 1, 0) container {} turns {} ∧
      ∃ calls, Reduces f.foldStep {} (some (.integer 1)) {} turns calls (.done result {}) ∧
        FoldsFrom (.integer 1) 0 turns calls result := by
  intro f container turns first result _
  have hbegins : (Walk.fold f.foldStep).Begins {} (.integer 1, 0) container {} turns {} :=
    .entries rfl
  have hresult : Builtin.foldl.apply [container, .integer 1, .function f] {} {} =
      .done result {} := rfl
  obtain ⟨hreduces, hstarts, -⟩ := foldl_starts_iff hbegins
  obtain ⟨calls, hcalls⟩ := (hreduces _).mp hresult
  exact ⟨hbegins, calls, hcalls, (hstarts calls result {} hcalls).mpr (.inl rfl)⟩

/-- From nothing defined it is not called, although the call would answer. -/
theorem foldl_skips_call :
    let f : Function := ⟨0, "arguments", .script .arguments⟩
    letI := Script.hostWithin 2
    Builtin.foldl.apply [.array [.integer 1], .undefined, .function f] {} {} =
        .done (.integer 1) {} ∧
      Host.call f [.undefined, .integer 1, .integer 0, .integer 0] {} {} =
        .done (.array [.undefined, .integer 1, .integer 0, .integer 0]) {} :=
  ⟨rfl, rfl⟩

end DynamicObjects
