import DynamicObjects.Proofs.Collections.Turns
import DynamicObjects.Script.Evaluate

/-!
# The contract of visits

A walk over an array, a typed array or a map takes the turns of its entries in order; a
walk over a generic iterable asks for the length once, before everything else, and takes
the turns of so many positions. So a walk visits the entries of a beginning of the
container, each once, and ends at the first one that does not let it proceed
(`Walk.Goes`). Whatever fails leaves the walk as it is, after it has been reported if the
settings in force around the walk ask for that.

A failure may come from a walk inside a walk, at any depth and from any part of the outer
one: a visit, an element or the length. On its way out it leaves walk after walk
(`Leaves`), and every one whose settings ask for it adds one report.

* `visits_contract`: what a walk does, and what a failure reports on its way out.
-/

namespace DynamicObjects

variable {α σ : Type}

/-- The entries of a container whose elements are all there. -/
def Value.entries? : Value → Option (List (Key × Value))
  | .array items => some (indexedFrom 0 items)
  | .typed items => some (indexedFrom 0 items.values)
  | .map entries => some (namedEntries entries)
  | _ => Option.none

section Walks

variable [Host] (walk : Walk σ) (scope : Scope) (start : σ) (container : Value) (w : World)

namespace Walk

/-- Asks for the length of a view. -/
def measures (view : View Value) : Reply Nat := view.length (scope.holding (walk.keeps start)) w

/-- The turns that a walk over a container takes, and the world in which it begins with
them: a view has been asked for its length then. -/
inductive Begins : List Turn → World → Prop
  | entries {entries : List (Key × Value)} (hentries : container.entries? = some entries) :
      Begins (Turn.ofEntries entries) w
  | view {view : View Value} {count : Nat} {begun : World}
      (hview : w.view? container = some view)
      (hlength : walk.measures scope start w view = .done count begun) :
      Begins (Turn.ofView view.element 0 count) begun

/-- What a walk over a container does: it takes the turns of its entries or positions,
unless there is no length to be had. -/
inductive Goes : Reply (Outcome × σ) → Prop
  | turns {turns : List Turn} {begun : World} {reply : Reply (Outcome × σ)}
      (hbegins : Begins walk scope start container w turns begun)
      (hpasses : walk.Passes scope turns start begun reply) : Goes reply
  | unmeasured {view : View Value} {e : Failure} {after : World}
      (hview : w.view? container = some view)
      (hlength : walk.measures scope start w view = .failed e after) :
      Goes (.failed e (scope.noted e after))
  | stuck {view : View Value} {reason : Stuck} (hview : w.view? container = some view)
      (hlength : walk.measures scope start w view = .stuck reason) : Goes (.stuck reason)

variable {container w}

theorem run_of_entries {entries : List (Key × Value)}
    (h : container.entries? = some entries) :
    walk.run start container = walk.along (Turn.ofEntries entries) start := by
  cases container <;> cases h <;> exact visitEach_eq walk _ start

theorem run_of_view {view : View Value} (h : w.view? container = some view) :
    walk.run start container scope w =
      match walk.measures scope start w view with
      | .done count measured =>
        walk.along (Turn.ofView view.element 0 count) start scope measured
      | .failed e after => .failed e (scope.noted e after)
      | .stuck reason => .stuck reason := by
  have hmeasures : Eval.holding (walk.keeps start) (reporting view.length) scope w =
      (walk.measures scope start w view).leaving (scope.holding (walk.keeps start)) :=
    reporting_apply _ _ _
  have hrun : walk.run start container scope w =
      (do
        let count ← Eval.holding (walk.keeps start) (reporting view.length)
        walk.visitIndexed view.element count 0 start : Eval (Outcome × σ)) scope w := by
    cases container with
    | iterable _ _ _ _ _ _ | foreign _ | inst _ =>
      simp only [run, Value.view?, Eval.bind_apply, Eval.reads_apply, h]
    | _ => cases h
  rw [hrun, Eval.bind_apply, hmeasures]
  cases walk.measures scope start w view with
  | done count measured => simp only [Reply.leaving, visitIndexed_eq]
  | failed e after => rfl
  | stuck reason => rfl

/-- A container has its entries, or it is a view. -/
theorem entries_or_view (h : (w.kind container).isContainer = true) :
    (∃ entries, container.entries? = some entries) ∨ ∃ view, w.view? container = some view := by
  cases container with
  | array _ | typed _ | map _ => exact Or.inl ⟨_, rfl⟩
  | iterable _ _ _ _ _ _ | foreign _ => exact Or.inr ⟨_, rfl⟩
  | inst i =>
    rw [World.kind] at h
    split at h
    · rename_i hgeneric
      exact Or.inr ⟨View.ofInstance i, by rw [World.view?, if_pos hgeneric]⟩
    · cases h
  | _ => cases h

variable {walk scope start}

theorem Begins.run_eq {turns : List Turn} {begun : World}
    (h : walk.Begins scope start container w turns begun) :
    walk.run start container scope w = walk.along turns start scope begun := by
  cases h with
  | entries hentries => rw [run_of_entries walk start hentries]
  | view hview hlength => rw [run_of_view walk scope start hview, hlength]

/-- **What a walk over a container does.** -/
theorem run_iff (hcontainer : (w.kind container).isContainer = true)
    (reply : Reply (Outcome × σ)) :
    walk.run start container scope w = reply ↔ walk.Goes scope start container w reply := by
  constructor
  · rintro rfl
    rcases entries_or_view hcontainer with ⟨entries, hentries⟩ | ⟨view, hview⟩
    · have hbegins : walk.Begins scope start container w _ w := .entries hentries
      rw [hbegins.run_eq]
      exact .turns hbegins (passes_along _ _ _)
    · cases hlength : walk.measures scope start w view with
      | done count begun =>
        have hbegins : walk.Begins scope start container w _ begun := .view hview hlength
        rw [hbegins.run_eq]
        exact .turns hbegins (passes_along _ _ _)
      | failed e after =>
        rw [run_of_view walk scope start hview, hlength]
        exact .unmeasured hview hlength
      | stuck reason =>
        rw [run_of_view walk scope start hview, hlength]
        exact .stuck hview hlength
  · intro h
    cases h with
    | turns hbegins hpasses =>
      rw [hbegins.run_eq]
      exact (along_iff _ _ _ _).mpr hpasses
    | unmeasured hview hlength | stuck hview hlength =>
      rw [run_of_view walk scope start hview, hlength]

end Walk

end Walks

/-! ## Failures on their way out -/

section Leaving

variable [Host]

/-- What a walk runs, and where: the length of a view, the element of a turn that it comes
to, or the visit of that element. -/
inductive Walk.Part (walk : Walk σ) (scope : Scope) (start : σ) (container : Value) (w : World) :
    {β : Type} → Eval β → Scope → World → Prop
  | length {view : View Value} (hview : w.view? container = some view) :
      Part walk scope start container w view.length (scope.holding (walk.keeps start)) w
  | element {before after : List Turn} {turn : Turn} {s : σ} {begun reached : World}
      (hbegins : walk.Begins scope start container w (before ++ turn :: after) begun)
      (hbefore : walk.Proceeds scope before start begun s reached) :
      Part walk scope start container w turn.fetch (scope.holding (walk.keeps s)) reached
  | visit {before after : List Turn} {turn : Turn} {s : σ} {v : Value}
      {begun reached fetched : World}
      (hbegins : walk.Begins scope start container w (before ++ turn :: after) begun)
      (hbefore : walk.Proceeds scope before start begun s reached)
      (hfetch : walk.fetches scope turn s reached = .done v fetched) :
      Part walk scope start container w (walk.visit s v turn.key)
        ((scope.holding (walk.keeps s)).holding (.values [v])) fetched

/-- What fails in a part of a walk leaves the walk. -/
theorem Walk.Part.run_eq {walk : Walk σ} {scope scope' : Scope} {start : σ} {container : Value}
    {w w' after : World} {y : Eval α} {e : Failure}
    (hpart : walk.Part scope start container w y scope' w') (h : y scope' w' = .failed e after) :
    walk.run start container scope w = .failed e (scope.noted e after) := by
  cases hpart with
  | length hview =>
    have hlength : walk.measures scope start w _ = .failed e after := h
    rw [run_of_view walk scope start hview, hlength]
  | element hbegins hbefore =>
    rw [hbegins.run_eq]
    exact (along_iff _ _ _ _).mpr (.ended hbefore (.unfetched h))
  | visit hbegins hbefore hfetch =>
    rw [hbegins.run_eq]
    exact (along_iff _ _ _ _).mpr (.ended hbefore (.failed hfetch h))

/-- A failure that was raised in a world leaves a computation on its way out, and with it
walks in certain scopes, the outermost first. It may be passed on by anything in between. -/
inductive Leaves (e : Failure) (raised : World) :
    {α : Type} → Eval α → Scope → World → List Scope → Prop
  | raised {α : Type} {x : Eval α} {scope : Scope} {w : World}
      (h : x scope w = .failed e raised) : Leaves e raised x scope w []
  | passed {α β : Type} {x : Eval α} {y : Eval β} {scope scope' : Scope} {w w' : World}
      {frames : List Scope} (inner : Leaves e raised y scope' w' frames)
      (h : ∀ after, y scope' w' = .failed e after → x scope w = .failed e after) :
      Leaves e raised x scope w frames
  | walked {β σ : Type} {walk : Walk σ} {start : σ} {container : Value} {y : Eval β}
      {scope scope' : Scope} {w w' : World} {frames : List Scope}
      (inner : Leaves e raised y scope' w' frames)
      (hpart : walk.Part scope start container w y scope' w') :
      Leaves e raised (walk.run start container) scope w (scope :: frames)

/-- **A failure is reported once for every walk that it leaves** and that asks for it. -/
theorem Leaves.eq_failed {e : Failure} {raised w : World} {x : Eval α} {scope : Scope}
    {frames : List Scope} (h : Leaves e raised x scope w frames) :
    x scope w = .failed e (raised.reported e (frames.countP Scope.asks)) := by
  induction h with
  | raised h =>
    rw [h, World.reported, List.countP_nil, Array.replicate_zero, Array.append_empty]
  | passed _ h ih => exact h _ ih
  | walked _ hpart ih => rw [hpart.run_eq ih, noted_reported, List.countP_cons]

/-- Visits without a state are a walk. -/
theorem visitAll_eq_map (container : Value) (visit : Value → Key → Eval Flow) :
    visitAll container visit = Prod.fst <$> (Walk.stateless visit).run () container := by
  rw [visitAll, map_eq_pure_bind]

/-- **The contract of visits.** A walk over a container takes the turns of its entries, or
asks a generic iterable for its length once and takes the turns of so many positions. It
proceeds through all turns and is exhausted, or through those before the first one that
ends it, and the answer, the failure and the world are what that turn left; of the turns
after it nothing is run. A failure from any part of the walk, a visit, an element or the
length, comes out as it is, and on its whole way out it is reported once for every walk it
leaves whose settings ask for that, this one included. -/
theorem visits_contract (walk : Walk σ) (scope : Scope) (start : σ) (container : Value)
    (w : World) (hcontainer : (w.kind container).isContainer = true) :
    (∀ reply, walk.run start container scope w = reply ↔
      walk.Goes scope start container w reply) ∧
    ∀ {β : Type} {y : Eval β} {scope' : Scope} {w' raised : World} {e : Failure}
      {frames : List Scope}, walk.Part scope start container w y scope' w' →
      Leaves e raised y scope' w' frames →
      walk.run start container scope w =
        .failed e (raised.reported e ((scope :: frames).countP Scope.asks)) :=
  ⟨Walk.run_iff hcontainer, fun hpart hleaves => (hleaves.walked hpart).eq_failed⟩

end Leaving

/-- A visit fails at the second of two elements. -/
theorem visits_contract_failing :
    letI := Script.hostWithin 0
    (({} : World).kind (.array [.none, .undefined])).isContainer = true ∧
    (Walk.stateless fun v _ => if v.isDefined then return .proceed else Eval.fail (.raised v)).run
      () (.array [.none, .undefined]) {} {} =
        .failed (.raised .undefined) (({} : World).reported (.raised .undefined) 1) := by
  let _ := Script.hostWithin 0
  let walk : Walk Unit :=
    .stateless fun v _ => if v.isDefined then return .proceed else Eval.fail (.raised v)
  have hcontainer : (({} : World).kind (.array [.none, .undefined])).isContainer = true := rfl
  obtain ⟨-, hfails⟩ := visits_contract walk {} () _ {} hcontainer
  have hbegins : walk.Begins {} () (.array [.none, .undefined]) {} _ {} := .entries rfl
  have hbefore : walk.Proceeds {} [⟨.index 0, pure .none⟩] () {} () {} := .cons rfl rfl .nil
  refine ⟨hcontainer, hfails (.visit (v := .undefined) hbegins hbefore rfl) (.raised rfl)⟩

end DynamicObjects
