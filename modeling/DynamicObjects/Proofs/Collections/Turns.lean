import DynamicObjects.Collections.Visit
import DynamicObjects.Proofs.World.Equations

/-!
# Walks turn by turn

A container gives a walk one turn for each of its elements: a key, and a way to get the
element. Elements that are all there are simply given, those of a view are fetched. The
loops over both are one loop over turns (`Walk.visitEach_eq`, `Walk.visitIndexed_eq`), so what is to
be said about walks has to be said once.

A turn either lets the walk proceed or ends it. So a walk over turns proceeds through all
of them, or through those before one that ends it, and what comes after that one is not
looked at (`Walk.along_iff`).

* `Walk.Proceeds`, `Walk.Ends`: what a turn can do.
* `Walk.along_iff`: what a walk over turns does.
-/

namespace DynamicObjects

variable {α σ : Type}

/-! ## Failures that leave a walk -/

/-- The report of a failure that leaves a walk. -/
def visitReport (e : Failure) : Diagnostic := ⟨.exception, visitContext ++ ": " ++ e.message⟩

/-- Whether failures that leave a walk in a scope are reported: the settings ask for it, and
reports are kept. -/
def Scope.asks (scope : Scope) : Bool := scope.settings.reportCallbackErrors && scope.recording

/-- The world after a failure has left a walk in a scope. -/
def Scope.noted (scope : Scope) (e : Failure) (w : World) : World :=
  if scope.asks then { w with diagnostics := w.diagnostics.push (visitReport e) } else w

/-- The world with a number of reports of a failure that leaves walks. -/
def World.reported (w : World) (e : Failure) (count : Nat) : World :=
  { w with diagnostics := w.diagnostics ++ Array.replicate count (visitReport e) }

theorem noted_reported (scope : Scope) (e : Failure) (w : World) (count : Nat) :
    scope.noted e (w.reported e count) = w.reported e (count + if scope.asks then 1 else 0) := by
  rw [Scope.noted]
  split
  · rw [World.reported, World.reported, Array.replicate_succ, Array.append_push]
  · rfl

/-- A reply that leaves a walk in a scope. -/
def Reply.leaving (scope : Scope) : Reply α → Reply α
  | .failed e w => .failed e (scope.noted e w)
  | reply => reply

theorem reporting_apply (x : Eval α) (scope : Scope) (w : World) :
    reporting x scope w = (x scope w).leaving scope := by
  simp only [reporting, Eval.bind_apply, Eval.attempt]
  cases x scope w with
  | done a w => rfl
  | stuck reason => rfl
  | failed e w =>
    obtain ⟨settings, recording, held⟩ := scope
    cases hasks : settings.reportCallbackErrors <;> cases recording <;>
      simp [Eval.bind_apply, Eval.scope, Eval.reportException, Eval.report_apply, Eval.fail,
        hasks, Reply.leaving, Scope.noted, Scope.asks, visitReport]

/-! ## Turns -/

/-- An element as a walk meets it: its key, and how it is had. -/
structure Turn where
  key : Key
  fetch : Eval Value

/-- The turns of elements that are all there. -/
def Turn.ofEntries (entries : List (Key × Value)) : List Turn :=
  entries.map fun entry => ⟨entry.1, pure entry.2⟩

/-- The turns of a view from a position on. -/
def Turn.ofView (element : Nat → Eval Value) (i count : Nat) : List Turn :=
  (List.range' i count).map fun i => ⟨.index i, element i⟩

namespace Walk

/-- The walk over some turns. -/
def along (walk : Walk σ) : List Turn → σ → Eval (Outcome × σ)
  | [], s => return (.exhausted, s)
  | turn :: rest, s => do
    let v ← Eval.holding (walk.keeps s) (reporting turn.fetch)
    match (← walk.step s v turn.key) with
    | (.proceed, s) => along walk rest s
    | (.stop, s) => return (.broken, s)
    | (.answer payload, s) => return (.returned payload, s)

theorem visitEach_eq (walk : Walk σ) (entries : List (Key × Value)) (s : σ) :
    walk.visitEach entries s = walk.along (Turn.ofEntries entries) s := by
  induction entries generalizing s with
  | nil => rfl
  | cons entry rest ih =>
    obtain ⟨key, v⟩ := entry
    simp only [visitEach, ih]
    rfl

theorem visitIndexed_eq (walk : Walk σ) (element : Nat → Eval Value) (count i : Nat) (s : σ) :
    walk.visitIndexed element count i s = walk.along (Turn.ofView element i count) s := by
  induction count generalizing i s with
  | zero => rfl
  | succ count ih =>
    simp only [visitIndexed, ih]
    rfl

/-! ## What a turn can do -/

variable (walk : Walk σ) (scope : Scope)

/-- Gets the element of a turn. -/
def fetches (turn : Turn) (s : σ) (w : World) : Reply Value :=
  turn.fetch (scope.holding (walk.keeps s)) w

/-- Visits an element. -/
def visits (s : σ) (v : Value) (key : Key) (w : World) : Reply (Flow × σ) :=
  walk.visit s v key ((scope.holding (walk.keeps s)).holding (.values [v])) w

/-- The walk proceeds through turns, in order: it gets the element of each, visits it once,
and is told to proceed. -/
inductive Proceeds : List Turn → σ → World → σ → World → Prop
  | nil {s : σ} {w : World} : Proceeds [] s w s w
  | cons {turn : Turn} {rest : List Turn} {s s' s'' : σ} {v : Value} {w fetched w' w'' : World}
      (hfetch : walk.fetches scope turn s w = .done v fetched)
      (hvisit : walk.visits scope s v turn.key fetched = .done (.proceed, s') w')
      (hrest : Proceeds rest s' w' s'' w'') : Proceeds (turn :: rest) s w s'' w''

/-- A turn ends the walk: its visit asks for that or fails, or there is no visit because
the element cannot be had. -/
inductive Ends (turn : Turn) (s : σ) (w : World) : Reply (Outcome × σ) → Prop
  | stopped {v : Value} {s' : σ} {fetched after : World}
      (hfetch : walk.fetches scope turn s w = .done v fetched)
      (hvisit : walk.visits scope s v turn.key fetched = .done (.stop, s') after) :
      Ends turn s w (.done (.broken, s') after)
  | answered {v payload : Value} {s' : σ} {fetched after : World}
      (hfetch : walk.fetches scope turn s w = .done v fetched)
      (hvisit : walk.visits scope s v turn.key fetched = .done (.answer payload, s') after) :
      Ends turn s w (.done (.returned payload, s') after)
  | failed {v : Value} {e : Failure} {fetched after : World}
      (hfetch : walk.fetches scope turn s w = .done v fetched)
      (hvisit : walk.visits scope s v turn.key fetched = .failed e after) :
      Ends turn s w (.failed e (scope.noted e after))
  | unfetched {e : Failure} {after : World}
      (hfetch : walk.fetches scope turn s w = .failed e after) :
      Ends turn s w (.failed e (scope.noted e after))
  | stuck {v : Value} {reason : Stuck} {fetched : World}
      (hfetch : walk.fetches scope turn s w = .done v fetched)
      (hvisit : walk.visits scope s v turn.key fetched = .stuck reason) :
      Ends turn s w (.stuck reason)
  | stuckFetching {reason : Stuck} (hfetch : walk.fetches scope turn s w = .stuck reason) :
      Ends turn s w (.stuck reason)

/-- What a walk over turns does: it proceeds through all of them, or through those before
one that ends it. -/
inductive Passes : List Turn → σ → World → Reply (Outcome × σ) → Prop
  | exhausted {turns : List Turn} {s s' : σ} {w w' : World}
      (hall : walk.Proceeds scope turns s w s' w') :
      Passes turns s w (.done (.exhausted, s') w')
  | ended {before : List Turn} {turn : Turn} {after : List Turn} {s s' : σ} {w w' : World}
      {reply : Reply (Outcome × σ)} (hbefore : walk.Proceeds scope before s w s' w')
      (hends : walk.Ends scope turn s' w' reply) : Passes (before ++ turn :: after) s w reply

variable {walk scope}

theorem along_cons_apply (turn : Turn) (rest : List Turn) (s : σ) (w : World) :
    walk.along (turn :: rest) s scope w =
      match walk.fetches scope turn s w with
      | .done v fetched =>
        match walk.visits scope s v turn.key fetched with
        | .done (.proceed, s') w' => walk.along rest s' scope w'
        | .done (.stop, s') w' => .done (.broken, s') w'
        | .done (.answer payload, s') w' => .done (.returned payload, s') w'
        | .failed e w' => .failed e (scope.noted e w')
        | .stuck reason => .stuck reason
      | .failed e w' => .failed e (scope.noted e w')
      | .stuck reason => .stuck reason := by
  have hfetches : Eval.holding (walk.keeps s) (reporting turn.fetch) scope w =
      (walk.fetches scope turn s w).leaving (scope.holding (walk.keeps s)) :=
    reporting_apply _ _ _
  have hvisits (v : Value) (fetched : World) : walk.step s v turn.key scope fetched =
      (walk.visits scope s v turn.key fetched).leaving
        ((scope.holding (walk.keeps s)).holding (.values [v])) := reporting_apply _ _ _
  rw [along, Eval.bind_apply, hfetches]
  cases walk.fetches scope turn s w with
  | failed e w' => rfl
  | stuck reason => rfl
  | done v fetched =>
    simp only [Reply.leaving, Eval.bind_apply, hvisits]
    cases walk.visits scope s v turn.key fetched with
    | failed e w' => rfl
    | stuck reason => rfl
    | done told w' =>
      obtain ⟨flow, s'⟩ := told
      cases flow <;> rfl

/-- A walk proceeds through turns to the ones after them. -/
theorem Proceeds.along_append {before : List Turn} {s s' : σ} {w w' : World}
    (h : walk.Proceeds scope before s w s' w') (turns : List Turn) :
    walk.along (before ++ turns) s scope w = walk.along turns s' scope w' := by
  induction h with
  | nil => rfl
  | cons hfetch hvisit _ ih =>
    rw [List.cons_append, along_cons_apply, hfetch]
    simp only [hvisit, ih]

theorem Ends.along_cons {turn : Turn} {s : σ} {w : World} {reply : Reply (Outcome × σ)}
    (h : walk.Ends scope turn s w reply) (rest : List Turn) :
    walk.along (turn :: rest) s scope w = reply := by
  rw [along_cons_apply]
  cases h with
  | stopped hfetch hvisit | answered hfetch hvisit | failed hfetch hvisit
  | stuck hfetch hvisit => simp only [hfetch, hvisit]
  | unfetched hfetch | stuckFetching hfetch => simp only [hfetch]

theorem Passes.cons {turn : Turn} {rest : List Turn} {s s' : σ} {v : Value}
    {w fetched w' : World} {reply : Reply (Outcome × σ)}
    (hfetch : walk.fetches scope turn s w = .done v fetched)
    (hvisit : walk.visits scope s v turn.key fetched = .done (.proceed, s') w')
    (h : walk.Passes scope rest s' w' reply) : walk.Passes scope (turn :: rest) s w reply := by
  cases h with
  | exhausted hall => exact .exhausted (.cons hfetch hvisit hall)
  | ended hbefore hends => exact .ended (.cons hfetch hvisit hbefore) hends

theorem passes_along (turns : List Turn) (s : σ) (w : World) :
    walk.Passes scope turns s w (walk.along turns s scope w) := by
  induction turns generalizing s w with
  | nil => exact .exhausted .nil
  | cons turn rest ih =>
    have hnone : walk.Proceeds scope [] s w s w := .nil
    rw [along_cons_apply]
    cases hfetch : walk.fetches scope turn s w with
    | failed e w' => exact .ended hnone (.unfetched hfetch)
    | stuck reason => exact .ended hnone (.stuckFetching hfetch)
    | done v fetched =>
      dsimp only
      cases hvisit : walk.visits scope s v turn.key fetched with
      | failed e w' => exact .ended hnone (.failed hfetch hvisit)
      | stuck reason => exact .ended hnone (.stuck hfetch hvisit)
      | done told w' =>
        obtain ⟨flow, s'⟩ := told
        cases flow with
        | proceed => exact (ih s' w').cons hfetch hvisit
        | stop => exact .ended hnone (.stopped hfetch hvisit)
        | answer payload => exact .ended hnone (.answered hfetch hvisit)

/-- **What a walk over turns does.** -/
theorem along_iff (turns : List Turn) (s : σ) (w : World) (reply : Reply (Outcome × σ)) :
    walk.along turns s scope w = reply ↔ walk.Passes scope turns s w reply := by
  constructor
  · rintro rfl
    exact passes_along turns s w
  · intro h
    cases h with
    | exhausted hall =>
      have happend := hall.along_append []
      rw [List.append_nil] at happend
      rw [happend]
      rfl
    | ended hbefore hends =>
      rw [hbefore.along_append]
      exact hends.along_cons _

end Walk

end DynamicObjects
