import DynamicObjects.Proofs.Collections.Visits

/-!
# The calls of a walk

Mapping and folding ask something about every element and go on in a state that depends on the
answer. What is asked, and what becomes of the state, is an `Inquiry`. A walk that follows an
inquiry never asks to stop. It makes one call for each turn, in order, or the calls up to the
first element that cannot be had or the first call that does not answer; that decides how the
walk ends, and nothing is called after it.

* `Inquiry.Asks`, `Inquiry.Gets`: the calls about turns, and what comes of them.
* `Inquiry.Follows.run_iff`: what becomes of a walk that follows an inquiry.
-/

namespace DynamicObjects

variable {α β σ τ : Type}

/-- A computation answers, wherever it runs. -/
def Eval.AlwaysAnswers (x : Eval α) : Prop := ∀ scope w, ∃ a w', x scope w = .done a w'

/-- What a walk asks about elements. -/
structure Inquiry (τ β : Type) where
  /-- What is held in a state. -/
  keeps : τ → Held
  /-- The question about an element under its key. -/
  ask : τ → Value → Key → Eval β
  /-- The state that an answer leads to. -/
  next : τ → Value → Key → β → τ

/-- A call that was answered. -/
structure Inquiry.Call (τ β : Type) where
  /-- The state in which the call was made. -/
  state : τ
  element : Value
  key : Key
  answer : β

namespace Inquiry

variable (q : Inquiry τ β) (scope : Scope)

/-- The state after a call. -/
def after (call : Call τ β) : τ := q.next call.state call.element call.key call.answer

/-- Gets the element of a turn. -/
def fetches (turn : Turn) (t : τ) (w : World) : Reply Value :=
  turn.fetch (scope.holding (q.keeps t)) w

/-- Asks about an element. -/
def calls (t : τ) (v : Value) (key : Key) (w : World) : Reply β :=
  q.ask t v key ((scope.holding (q.keeps t)).holding (.values [v])) w

/-- There is one call for each turn, in order: the element is had, asked about once, and the
next call is made in the state that the answer leads to. -/
inductive Asks : List Turn → τ → World → List (Call τ β) → τ → World → Prop
  | nil {t : τ} {w : World} : Asks [] t w [] t w
  | cons {turn : Turn} {rest : List Turn} {t t' : τ} {v : Value} {answer : β}
      {w fetched called w' : World} {calls : List (Call τ β)}
      (hfetch : q.fetches scope turn t w = .done v fetched)
      (hcall : q.calls scope t v turn.key fetched = .done answer called)
      (hrest : Asks rest (q.next t v turn.key answer) called calls t' w') :
      Asks (turn :: rest) t w (⟨t, v, turn.key, answer⟩ :: calls) t' w'

/-- The element of a turn cannot be had, or the call about it does not answer. -/
inductive BreaksAt (turn : Turn) (t : τ) (w : World) : Reply α → Prop
  | failed {v : Value} {e : Failure} {fetched w' : World}
      (hfetch : q.fetches scope turn t w = .done v fetched)
      (hcall : q.calls scope t v turn.key fetched = .failed e w') :
      BreaksAt turn t w (.failed e (scope.noted e w'))
  | stuck {v : Value} {reason : Stuck} {fetched : World}
      (hfetch : q.fetches scope turn t w = .done v fetched)
      (hcall : q.calls scope t v turn.key fetched = .stuck reason) :
      BreaksAt turn t w (.stuck reason)
  | unfetched {e : Failure} {w' : World}
      (hfetch : q.fetches scope turn t w = .failed e w') :
      BreaksAt turn t w (.failed e (scope.noted e w'))
  | stuckFetching {reason : Stuck} (hfetch : q.fetches scope turn t w = .stuck reason) :
      BreaksAt turn t w (.stuck reason)

/-- What comes of asking about turns, after which calls: a result from the last state, or what
the first turn without a call that answers makes of it. -/
inductive Gets (result : τ → α) (t : τ) (w : World) :
    List Turn → List (Call τ β) → Reply α → Prop
  | all {turns : List Turn} {calls : List (Call τ β)} {t' : τ} {w' : World}
      (hall : q.Asks scope turns t w calls t' w') :
      Gets result t w turns calls (.done (result t') w')
  | broken {before after : List Turn} {turn : Turn} {calls : List (Call τ β)} {t' : τ}
      {w' : World} {reply : Reply α} (hbefore : q.Asks scope before t w calls t' w')
      (hbreaks : q.BreaksAt scope turn t' w' reply) :
      Gets result t w (before ++ turn :: after) calls reply

variable {q scope}

/-! ## What the calls are -/

namespace Asks

variable {turns : List Turn} {t t' : τ} {w w' : World} {calls : List (Call τ β)}

theorem keys_eq (h : q.Asks scope turns t w calls t' w') :
    calls.map Call.key = turns.map Turn.key := by
  induction h with
  | nil => rfl
  | cons _ _ _ ih => rw [List.map_cons, List.map_cons, ih]

/-- Each call is made in the state that the one before it leads to. -/
theorem states_eq (h : q.Asks scope turns t w calls t' w') :
    calls.map Call.state ++ [t'] = t :: calls.map q.after := by
  induction h with
  | nil => rfl
  | cons _ _ _ ih =>
    rw [List.map_cons, List.cons_append, ih, List.map_cons]
    rfl

end Asks

theorem Gets.of_done {result : τ → α} {turns : List Turn} {t : τ} {w w' : World}
    {calls : List (Call τ β)} {a : α} (h : q.Gets scope result t w turns calls (.done a w')) :
    ∃ t', a = result t' ∧ q.Asks scope turns t w calls t' w' := by
  cases h with
  | all hall => exact ⟨_, rfl, hall⟩
  | broken _ hbreaks => cases hbreaks

/-- When every element can be had and every call answers, there is a result. -/
theorem Gets.done_of_answers {result : τ → α} {turns : List Turn} {t : τ} {w : World}
    {calls : List (Call τ β)} {reply : Reply α} (h : q.Gets scope result t w turns calls reply)
    (hturns : ∀ turn ∈ turns, turn.fetch.AlwaysAnswers)
    (hask : ∀ t v key, (q.ask t v key).AlwaysAnswers) : ∃ a w', reply = .done a w' := by
  cases h with
  | all _ => exact ⟨_, _, rfl⟩
  | @broken before after turn _ t' w' _ _ hbreaks =>
    have hturn : turn ∈ before ++ turn :: after :=
      List.mem_append_right before List.mem_cons_self
    obtain ⟨u, fetched, hfetched⟩ := hturns turn hturn (scope.holding (q.keeps t')) w'
    cases hbreaks with
    | failed _ hcall | stuck _ hcall =>
      obtain ⟨answer, called, hcalled⟩ := hask _ _ _ _ _
      cases hcall.symm.trans hcalled
    | unfetched hfetch | stuckFetching hfetch => cases hfetch.symm.trans hfetched

/-! ## Walks that follow an inquiry -/

/-- The walk that makes the calls of an inquiry. -/
def walk (q : Inquiry τ β) : Walk τ where
  keeps := q.keeps
  visit := fun t v key => do return (.proceed, q.next t v key (← q.ask t v key))

/-- A walk follows an inquiry from certain states on: there each of its visits asks, and then
proceeds to where the answer leads. -/
structure Follows (q : Inquiry τ β) (walk : Walk σ) (rep : τ → σ) (among : τ → Prop) : Prop where
  keeps_eq : ∀ t, walk.keeps (rep t) = q.keeps t
  visit_eq : ∀ t v key, among t → walk.visit (rep t) v key =
    (do return (.proceed, rep (q.next t v key (← q.ask t v key))))
  among_next : ∀ t v key answer, among t → among (q.next t v key answer)

namespace Follows

variable {walk : Walk σ} {rep : τ → σ} {among : τ → Prop} (h : q.Follows walk rep among)
include h

/-- It begins with the turns that the inquiry begins with. -/
theorem begins [Host] {t : τ} {container : Value} {turns : List Turn} {w begun : World}
    (hbegins : q.walk.Begins scope t container w turns begun) :
    walk.Begins scope (rep t) container w turns begun := by
  cases hbegins with
  | entries hentries => exact .entries hentries
  | view hview hlength =>
    refine .view hview ?_
    rw [Walk.measures, h.keeps_eq]
    exact hlength

theorem fetches_eq (turn : Turn) (t : τ) (w : World) :
    walk.fetches scope turn (rep t) w = q.fetches scope turn t w := by
  rw [Walk.fetches, h.keeps_eq, fetches]

theorem visits_eq {t : τ} (ht : among t) (v : Value) (key : Key) (w : World) :
    walk.visits scope (rep t) v key w =
      match q.calls scope t v key w with
      | .done answer w' => .done (.proceed, rep (q.next t v key answer)) w'
      | .failed e w' => .failed e w'
      | .stuck reason => .stuck reason := by
  rw [Walk.visits, h.keeps_eq, h.visit_eq t v key ht, Eval.bind_apply]
  rfl

/-- The walk proceeds along the calls. -/
theorem proceeds {turns : List Turn} {t t' : τ} {w w' : World} {calls : List (Call τ β)}
    (ht : among t) (hasks : q.Asks scope turns t w calls t' w') :
    walk.Proceeds scope turns (rep t) w (rep t') w' ∧ among t' := by
  induction hasks with
  | nil => exact ⟨.nil, ht⟩
  | @cons turn _ t _ v answer _ _ _ _ _ hfetch hcall _ ih =>
    obtain ⟨hrest, ht'⟩ := ih (h.among_next t v turn.key answer ht)
    refine ⟨.cons ((h.fetches_eq turn t _).trans hfetch) ?_ hrest, ht'⟩
    rw [h.visits_eq ht, hcall]

theorem ends {turn : Turn} {t : τ} {w : World} (ht : among t) (result : σ → α) {reply : Reply α}
    (hbreaks : q.BreaksAt scope turn t w reply) (rest : List Turn) :
    (do return result (← walk.along (turn :: rest) (rep t)).2 : Eval α) scope w = reply := by
  rw [Eval.bind_apply, Walk.along_cons_apply, h.fetches_eq]
  cases hbreaks with
  | failed hfetch hcall | stuck hfetch hcall => simp only [hfetch, h.visits_eq ht, hcall]
  | unfetched hfetch | stuckFetching hfetch => simp only [hfetch]

/-- **A walk over turns that follows an inquiry makes its calls.** -/
theorem gets_along {t : τ} (ht : among t) (result : σ → α) (turns : List Turn) (w : World) :
    ∃ calls, q.Gets scope (fun t => result (rep t)) t w turns calls
      ((do return result (← walk.along turns (rep t)).2 : Eval α) scope w) := by
  induction turns generalizing t w with
  | nil => exact ⟨[], .all .nil⟩
  | cons turn rest ih =>
    have hbroken {reply : Reply α} (hbreaks : q.BreaksAt scope turn t w reply) :
        ∃ calls, q.Gets scope (fun t => result (rep t)) t w (turn :: rest) calls
          ((do return result (← walk.along (turn :: rest) (rep t)).2 : Eval α) scope w) := by
      rw [h.ends ht result hbreaks]
      exact ⟨[], .broken .nil hbreaks⟩
    cases hfetch : q.fetches scope turn t w with
    | failed e w' => exact hbroken (.unfetched hfetch)
    | stuck reason => exact hbroken (.stuckFetching hfetch)
    | done v fetched =>
      cases hcall : q.calls scope t v turn.key fetched with
      | failed e w' => exact hbroken (.failed hfetch hcall)
      | stuck reason => exact hbroken (.stuck hfetch hcall)
      | done answer called =>
        obtain ⟨calls, hcalls⟩ := ih (h.among_next t v turn.key answer ht) called
        have hrun : (do return result (← walk.along (turn :: rest) (rep t)).2 : Eval α) scope w =
            (do return result (← walk.along rest (rep (q.next t v turn.key answer))).2 : Eval α)
              scope called := by
          rw [Eval.bind_apply, Eval.bind_apply, Walk.along_cons_apply, h.fetches_eq, hfetch]
          simp only [h.visits_eq ht, hcall]
        rw [hrun]
        refine ⟨⟨t, v, turn.key, answer⟩ :: calls, ?_⟩
        generalize (do return result (← walk.along rest (rep (q.next t v turn.key answer))).2 :
          Eval α) scope called = reply at hcalls
        cases hcalls with
        | all hall => exact .all (.cons hfetch hcall hall)
        | broken hbefore hbreaks => exact .broken (.cons hfetch hcall hbefore) hbreaks

theorem along_iff {t : τ} (ht : among t) (result : σ → α) (turns : List Turn) (w : World)
    (reply : Reply α) :
    (do return result (← walk.along turns (rep t)).2 : Eval α) scope w = reply ↔
      ∃ calls, q.Gets scope (fun t => result (rep t)) t w turns calls reply := by
  constructor
  · rintro rfl
    exact h.gets_along ht result turns w
  · rintro ⟨calls, hgets⟩
    cases hgets with
    | all hall =>
      have hrun := (h.proceeds ht hall).1.along_append []
      rw [List.append_nil] at hrun
      rw [Eval.bind_apply, hrun]
      rfl
    | @broken before after turn _ t' w' _ hbefore hbreaks =>
      obtain ⟨hproceeds, ht'⟩ := h.proceeds ht hbefore
      rw [Eval.bind_apply, hproceeds.along_append, ← Eval.bind_apply]
      exact h.ends ht' result hbreaks after

/-- **What becomes of a walk that follows an inquiry.** -/
theorem run_iff [Host] {t : τ} (ht : among t) (result : σ → α) {container : Value}
    {turns : List Turn} {w begun : World}
    (hbegins : q.walk.Begins scope t container w turns begun) (reply : Reply α) :
    (do return result (← walk.run (rep t) container).2 : Eval α) scope w = reply ↔
      ∃ calls, q.Gets scope (fun t => result (rep t)) t begun turns calls reply := by
  rw [Eval.bind_apply, (h.begins hbegins).run_eq, ← Eval.bind_apply]
  exact h.along_iff ht result turns begun reply

end Follows

end Inquiry

end DynamicObjects
