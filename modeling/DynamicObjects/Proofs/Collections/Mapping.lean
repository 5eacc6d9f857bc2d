import DynamicObjects.Proofs.Collections.Calls
import DynamicObjects.Proofs.Collections.Telling
import Mathlib.Data.List.Perm.Basic

/-!
# Mapping and filtering

Mapping makes one call for each turn of a container and puts the answers in the places of the
elements, so keys stay where they are, whatever the calls do. By callbacks that compute (they
answer, and do nothing else), mapping and filtering are what they are on lists of entries: mapping
twice is mapping once, a filter and its complement split the entries between them, and a filter
that replaces what it keeps asks for replacements of nothing else.

A sequence that is filtered counts its elements anew. What is split are the entries of the
container, each under the key that it has there.

* `mapElements_gets`: the calls that mapping makes.
* `rebuild_eq`: what is made of the entries that a container tells.
* `map_filter_laws`: the laws of mapping and filtering.
-/

namespace DynamicObjects

variable {β : Type} {scope : Scope} {w after : World} {entries : List (Key × Value)}
  {container : Value}

/-! ## The calls of a mapping -/

namespace Value

/-- What a walk that rebuilds a container holds of the entries made so far, the last one first. -/
def holdsMade (container : Value) (made : List (Key × Value)) : Held :=
  match container with
  | .map _ => .draft (Draft.ofList (made.reverse.map fun entry => (entry.1.toName, entry.2)))
  | _ => .values (made.map Prod.snd)

/-- The container rebuilt from the entries made, the last one first. -/
def rebuilt (container : Value) (made : List (Key × Value)) : Value :=
  match container with
  | .map _ => .map (Entries.ofList (made.reverse.map fun entry => (entry.1.toName, entry.2)))
  | _ => .array (made.map Prod.snd).reverse

theorem rebuilt_eq_refill {made : List (Key × Value)}
    (h : ∀ names, container = .map names →
      Entries.Distinct (made.reverse.map fun entry => (entry.1.toName, entry.2))) :
    container.rebuilt made = container.refill made.reverse := by
  cases container with
  | map names => exact congrArg Value.map (Entries.ofList_of_distinct (h names rfl))
  | _ => exact congrArg Value.array List.map_reverse.symm

end Value

/-- The inquiry that calls a function and keeps its answers under the keys. -/
def Inquiry.mapping (container : Value) (f : Value → Key → Eval Value) :
    Inquiry (List (Key × Value)) Value where
  keeps := container.holdsMade
  ask := fun _ v key => f v key
  next := fun made _ key answer => (key, answer) :: made

theorem Inquiry.Asks.made_eq {f : Value → Key → Eval Value} {turns : List Turn}
    {made made' : List (Key × Value)} {calls : List (Call (List (Key × Value)) Value)}
    (h : (mapping container f).Asks scope turns made w calls made' after) :
    made'.reverse = made.reverse ++ calls.map fun call => (call.key, call.answer) := by
  induction h with
  | nil => rw [List.map_nil, List.append_nil]
  | cons _ _ _ ih =>
    rw [ih]
    simp [mapping]

theorem follows_toList (hsequence : ∀ names, container ≠ .map names)
    (f : Value → Key → Eval Value) :
    (Inquiry.mapping container f).Follows
      (Walk.toList fun v key => do return some (← f v key)) (List.map Prod.snd) fun _ => True where
  keeps_eq made := by
    cases container with
    | map names => exact absurd rfl (hsequence names)
    | _ => rfl
  visit_eq made v key _ := by
    funext scope w
    simp only [Walk.toList, Inquiry.mapping, Eval.bind_apply]
    cases f v key scope w <;> rfl
  among_next _ _ _ _ _ := trivial

theorem follows_toEntries (names : List (String × Value)) (f : Value → Key → Eval Value) :
    (Inquiry.mapping (.map names) f).Follows
      (Walk.toEntries fun v key => do return some (← f v key))
      (fun made => Draft.ofList (made.reverse.map fun entry => (entry.1.toName, entry.2)))
      fun _ => True where
  keeps_eq _ := rfl
  visit_eq made v key _ := by
    funext scope w
    simp only [Walk.toEntries, Inquiry.mapping, Eval.bind_apply, Draft.ofList, List.reverse_cons,
      List.map_append, List.foldl_append]
    cases f v key scope w <;> rfl
  among_next _ _ _ _ _ := trivial

section Rebuilding

variable [Host] {keep : Value → Key → Eval (Option Value)} {operation : String}

theorem rebuild_of_isListLike (h : (w.kind container).isListLike = true) :
    rebuild operation keep container scope w =
      (do return .array (← (Walk.toList keep).run [] container).2.reverse : Eval Value)
        scope w := by
  have hkind : container.kind scope w = .done (w.kind container) w := Eval.reads_apply _ _ _
  rw [rebuild, Eval.bind_of_done hkind]
  generalize w.kind container = kind at h ⊢
  cases kind with
  | sequence | generic => rfl
  | _ => cases h

theorem rebuild_map (names : List (String × Value)) :
    rebuild operation keep (.map names) =
      do return .map (← (Walk.toEntries keep).run .empty (.map names)).2.entries := rfl

variable {f : Value → Key → Eval Value} {turns : List Turn} {begun : World}

/-- Mapping makes calls about the turns of a container, in order, and rebuilds it from their
answers. -/
theorem mapElements_gets
    (hbegins : (Inquiry.mapping container f).walk.Begins scope [] container w turns begun) :
    ∃ calls, (Inquiry.mapping container f).Gets scope container.rebuilt [] begun turns calls
      (mapElements f container scope w) := by
  by_cases hmap : ∃ names, container = .map names
  · obtain ⟨names, rfl⟩ := hmap
    exact ((follows_toEntries names f).run_iff trivial (fun draft => Value.map draft.entries)
      hbegins _).mp rfl
  · have hsequence (names : List (String × Value)) : container ≠ .map names :=
      fun hmap' => hmap ⟨names, hmap'⟩
    have hlist : (w.kind container).isListLike = true := by
      cases hbegins with
      | entries hentries => exact Value.isListLike_of_entries? hentries hsequence w
      | view hview _ => exact Value.isListLike_of_view? hview
    have hrebuilt : container.rebuilt = fun made => .array (made.map Prod.snd).reverse := by
      cases container with
      | map names => exact absurd rfl (hsequence names)
      | _ => rfl
    rw [mapElements, rebuild_of_isListLike hlist, hrebuilt]
    exact ((follows_toList hsequence f).run_iff trivial (fun out => Value.array out.reverse)
      hbegins _).mp rfl

/-- Mapping that answers has made one call for each turn, and the answers are under the keys. -/
theorem mapElements_calls {r : Value} (hnamed : container.Named)
    (hbegins : (Inquiry.mapping container f).walk.Begins scope [] container w turns begun)
    (hdone : mapElements f container scope w = .done r after) :
    ∃ calls made, (Inquiry.mapping container f).Asks scope turns [] begun calls made after ∧
      r = container.refill (calls.map fun call => (call.key, call.answer)) := by
  obtain ⟨calls, hgets⟩ := mapElements_gets hbegins
  rw [hdone] at hgets
  obtain ⟨made, rfl, hasks⟩ := hgets.of_done
  have hmade : made.reverse = calls.map fun call => (call.key, call.answer) := by
    rw [hasks.made_eq, List.reverse_nil, List.nil_append]
  refine ⟨calls, made, hasks, ?_⟩
  rw [← hmade]
  apply Value.rebuilt_eq_refill
  rintro names rfl
  have htells : (Value.map names).Tells scope w (namedEntries names) w := .entries rfl
  apply htells.distinct_toName (hnamed names rfl)
  have hturns : turns.map Turn.key = (namedEntries names).map Prod.fst := by
    cases hbegins with
    | entries hentries =>
      cases hentries
      exact Turn.keys_ofEntries _
    | view hview _ => cases hview
  rw [hmade, List.map_map, ← hturns, ← hasks.keys_eq]
  exact List.Sublist.refl _

end Rebuilding

/-! ## Callbacks that compute -/

/-- A callback computes: about these entries it answers, and does nothing else. -/
def Computes (callback : Value → Key → Eval β) (f : Key × Value → β)
    (entries : List (Key × Value)) : Prop :=
  ∀ entry ∈ entries, callback entry.2 entry.1 = pure (f entry)

/-- Entries with other values under the same keys. -/
def replaced (f : Key × Value → Value) (entries : List (Key × Value)) : List (Key × Value) :=
  entries.map fun entry => (entry.1, f entry)

theorem keys_replaced (f : Key × Value → Value) (entries : List (Key × Value)) :
    (replaced f entries).map Prod.fst = entries.map Prod.fst := by
  rw [replaced, List.map_map]
  rfl

/-- Two lists split a third one: its members are in exactly one of them, as often and in the same
order. -/
structure Splits {α : Type} (all kept dropped : List α) : Prop where
  kept_sublist : kept.Sublist all
  dropped_sublist : dropped.Sublist all
  perm : (kept ++ dropped).Perm all
  disjoint : kept.Disjoint dropped

theorem splits_filter {α : Type} (p : α → Bool) (all : List α) :
    Splits all (all.filter p) (all.filter fun a => !p a) where
  kept_sublist := List.filter_sublist
  dropped_sublist := List.filter_sublist
  perm := List.filter_append_perm p all
  disjoint := by
    intro a hkept hdropped
    rw [List.mem_filter] at hkept hdropped
    simp [hkept.2] at hdropped

theorem Splits.length_eq {α : Type} {all kept dropped : List α} (h : Splits all kept dropped) :
    kept.length + dropped.length = all.length := by
  rw [← List.length_append, h.perm.length_eq]

/-- The entries that a choice keeps, with the values that it gives, each under its own key. -/
def chosen (k : Key × Value → Option Value) (entries : List (Key × Value)) : List (Key × Value) :=
  entries.filterMap fun entry => (k entry).map (Prod.mk entry.1)

theorem keys_chosen_sublist (k : Key × Value → Option Value) (entries : List (Key × Value)) :
    ((chosen k entries).map Prod.fst).Sublist (entries.map Prod.fst) := by
  induction entries with
  | nil => exact .refl _
  | cons entry rest ih =>
    cases hk : k entry with
    | none =>
      rw [chosen, List.filterMap_cons, hk]
      exact ih.cons _
    | some kept =>
      rw [chosen, List.filterMap_cons, hk]
      exact ih.cons_cons _

theorem foldl_chosen {σ : Type} (k : Key × Value → Option Value) (add : σ → Key × Value → σ)
    (entries : List (Key × Value)) (start : σ) :
    entries.foldl (fun out entry =>
      match k entry with
      | some kept => add out (entry.1, kept)
      | none => out) start = (chosen k entries).foldl add start := by
  rw [chosen, List.foldl_filterMap]
  congr 1
  funext out entry
  cases k entry <;> rfl

theorem chosen_if (p : Key × Value → Bool) (f : Key × Value → Value)
    (entries : List (Key × Value)) :
    chosen (fun entry => if p entry then some (f entry) else none) entries =
      replaced f (entries.filter p) := by
  rw [replaced, ← List.filterMap_eq_filter, List.map_filterMap, chosen]
  congr 1
  funext entry
  cases hp : p entry <;> simp [hp]

/-- What a container tells is told by the turns that walks over it begin with. -/
theorem Value.Tells.begins [Host] {τ : Type} (htells : container.Tells scope w entries after)
    (q : Inquiry τ β) (t : τ) :
    ∃ turns begun, q.walk.Begins scope t container w turns begun ∧
      Turn.Tell scope turns begun entries after := by
  cases htells with
  | entries hentries => exact ⟨_, w, .entries hentries, Turn.tell_ofEntries entries⟩
  | view hview hlength htell => exact ⟨_, _, .view hview (hlength [q.keeps t]), htell⟩

/-- By a callback that computes there is one call about each entry that turns tell, in order. -/
theorem asks_of_tell {callback : Value → Key → Eval Value} {f : Key × Value → Value}
    {turns : List Turn} (container : Value) (htell : Turn.Tell scope turns w entries after)
    (hcallback : Computes callback f entries) (made : List (Key × Value)) :
    ∃ calls made', (Inquiry.mapping container callback).Asks scope turns made w calls made' after ∧
      calls.map (fun call => ((call.key, call.element), call.answer)) =
        entries.map fun entry => (entry, f entry) := by
  induction htell generalizing made with
  | nil => exact ⟨[], made, .nil, rfl⟩
  | @cons turn rest v w fetched after entries hfetch _ ih =>
    obtain ⟨hfirst, hrest⟩ := List.forall_mem_cons.mp hcallback
    obtain ⟨calls, made', hasks, hcalls⟩ := ih hrest ((turn.key, f (turn.key, v)) :: made)
    have hfetched : (Inquiry.mapping container callback).fetches scope turn made w =
        .done v fetched := hfetch [container.holdsMade made]
    have hcalled : (Inquiry.mapping container callback).calls scope made v turn.key fetched =
        .done (f (turn.key, v)) fetched := congrFun (congrFun hfirst _) fetched
    exact ⟨_, made', .cons hfetched hcalled hasks, congrArg (List.cons _) hcalls⟩

section Laws

variable [Host] {keep : Value → Key → Eval (Option Value)} {k : Key × Value → Option Value}

theorem rebuild_map_eq (operation : String) {names : List (String × Value)}
    (hnamed : Entries.Distinct names) (htells : (Value.map names).Tells scope w entries after)
    (hkeep : Computes keep k entries) :
    rebuild operation keep (.map names) scope w =
      .done ((Value.map names).refill (chosen k entries)) after := by
  have hvisit (entry : Key × Value) (hentry : entry ∈ entries) (out : Draft Value) :
      (Walk.toEntries keep).visit out entry.2 entry.1 = pure (.proceed,
        match k entry with
        | some kept => out.insert entry.1.toName kept
        | none => out) := by
    simp only [Walk.toEntries, hkeep entry hentry, pure_bind]
    cases k entry <;> rfl
  have hrun := htells.run_eq hvisit .empty
  rw [foldl_chosen k fun (out : Draft Value) entry => out.insert entry.1.toName entry.2] at hrun
  have hmade : (chosen k entries).foldl
      (fun (out : Draft Value) entry => out.insert entry.1.toName entry.2) .empty =
        Draft.ofList ((chosen k entries).map fun entry => (entry.1.toName, entry.2)) := by
    rw [Draft.ofList, List.foldl_map]
  have hdistinct := htells.distinct_toName hnamed (keys_chosen_sublist k entries)
  rw [rebuild_map, Eval.bind_of_done hrun, hmade]
  exact congrArg (fun made => Reply.done (Value.map made) after)
    (Entries.ofList_of_distinct hdistinct)

theorem rebuild_sequence_eq (operation : String)
    (hsequence : ∀ names, container ≠ .map names)
    (htells : container.Tells scope w entries after) (hkeep : Computes keep k entries) :
    rebuild operation keep container scope w =
      .done (container.refill (chosen k entries)) after := by
  have hvisit (entry : Key × Value) (hentry : entry ∈ entries) (out : List Value) :
      (Walk.toList keep).visit out entry.2 entry.1 = pure (.proceed,
        match k entry with
        | some kept => kept :: out
        | none => out) := by
    simp only [Walk.toList, hkeep entry hentry, pure_bind]
    cases k entry <;> rfl
  have hrun := htells.run_eq hvisit []
  rw [foldl_chosen k fun (out : List Value) entry => entry.2 :: out] at hrun
  have hmade : ((chosen k entries).foldl (fun (out : List Value) entry => entry.2 :: out)
      []).reverse = (chosen k entries).map Prod.snd := by simp
  rw [rebuild_of_isListLike (htells.isListLike hsequence), Eval.bind_of_done hrun, hmade,
    Value.refill_of_sequence hsequence]
  rfl

/-- What is made of the entries that a container tells. -/
theorem rebuild_eq (operation : String) (hnamed : container.Named)
    (htells : container.Tells scope w entries after) (hkeep : Computes keep k entries) :
    rebuild operation keep container scope w =
      .done (container.refill (chosen k entries)) after := by
  by_cases hmap : ∃ names, container = .map names
  · obtain ⟨names, rfl⟩ := hmap
    exact rebuild_map_eq operation (hnamed names rfl) htells hkeep
  · exact rebuild_sequence_eq operation (fun names h => hmap ⟨names, h⟩) htells hkeep

/-! ## The laws -/

section Mapping

variable {callback : Value → Key → Eval Value} {f : Key × Value → Value}

theorem mapElements_eq (hnamed : container.Named) (htells : container.Tells scope w entries after)
    (hcallback : Computes callback f entries) :
    mapElements callback container scope w =
      .done (container.refill (replaced f entries)) after := by
  have hkeep : Computes (fun v key => do return some (← callback v key))
      (fun entry => some (f entry)) entries := by
    intro entry hentry
    simp only [hcallback entry hentry, pure_bind]
  have hchosen : chosen (fun entry => some (f entry)) entries = replaced f entries := by
    rw [replaced, ← List.filterMap_eq_map]
    rfl
  rw [mapElements, rebuild_eq "map" hnamed htells hkeep, hchosen]

theorem asks_of_tells (htells : container.Tells scope w entries after)
    (hcallback : Computes callback f entries) :
    ∃ turns begun calls made,
      (Inquiry.mapping container callback).walk.Begins scope [] container w turns begun ∧
      (Inquiry.mapping container callback).Asks scope turns [] begun calls made after ∧
      calls.map (fun call => ((call.key, call.element), call.answer)) =
        entries.map fun entry => (entry, f entry) := by
  obtain ⟨turns, begun, hbegins, htell⟩ := htells.begins (Inquiry.mapping container callback) []
  obtain ⟨calls, made, hasks⟩ := asks_of_tell container htell hcallback []
  exact ⟨turns, begun, calls, made, hbegins, hasks⟩

theorem named_refill (hnamed : container.Named) (htells : container.Tells scope w entries after)
    {entries' : List (Key × Value)} (hsame : entries'.map Prod.fst = entries.map Prod.fst) :
    (container.refill entries').Named := by
  intro names hrefilled
  cases container with
  | map _ =>
    cases hrefilled
    exact htells.distinct_toName (hnamed _ rfl) (hsame ▸ List.Sublist.refl _)
  | _ => cases hrefilled

/-- Mapping twice is mapping once, by what the two callbacks do one after the other. -/
theorem mapElements_mapElements {callback' : Value → Key → Eval Value} {g : Key × Value → Value}
    (hnamed : container.Named) (htells : container.Tells scope w entries after)
    (hcallback : Computes callback f entries)
    (hcallback' : Computes callback' g (replaced f entries)) :
    (do mapElements callback' (← mapElements callback container) : Eval Value) scope w =
      mapElements (fun v key => do callback' (← callback v key) key) container scope w := by
  have hsame := keys_replaced f entries
  have htwice : mapElements callback' (container.refill (replaced f entries)) scope after =
      .done (container.refill (replaced g (replaced f entries))) after := by
    rw [mapElements_eq (named_refill hnamed htells hsame) (htells.refill hsame scope after)
      hcallback', Value.refill_refill]
  have hboth : Computes (fun v key => do callback' (← callback v key) key)
      (fun entry => g (entry.1, f entry)) entries := by
    intro entry hentry
    have hreplaced : (entry.1, f entry) ∈ replaced f entries :=
      List.mem_map.mpr ⟨entry, hentry, rfl⟩
    simp only [hcallback entry hentry, pure_bind]
    exact hcallback' _ hreplaced
  have honce : replaced g (replaced f entries) =
      replaced (fun entry => g (entry.1, f entry)) entries := List.map_map
  rw [Eval.bind_of_done (mapElements_eq hnamed htells hcallback), htwice,
    mapElements_eq hnamed htells hboth, honce]

end Mapping

section Filtering

variable {predicate : Value → Key → Eval Bool} {p : Key × Value → Bool}

theorem filterWith_eq {processor : Value → Key → Eval Value} {f : Key × Value → Value}
    (hnamed : container.Named) (htells : container.Tells scope w entries after)
    (hpredicate : Computes predicate p entries)
    (hprocessor : Computes processor f (entries.filter p)) :
    filterWith predicate processor container scope w =
      .done (container.refill (replaced f (entries.filter p))) after := by
  have hkeep : Computes (fun v key => do
      if ← predicate v key then return some (← processor v key) else return none)
      (fun entry => if p entry then some (f entry) else none) entries := by
    intro entry hentry
    simp only [hpredicate entry hentry, pure_bind]
    cases hp : p entry with
    | false => rfl
    | true =>
      have hkept : entry ∈ entries.filter p := List.mem_filter.mpr ⟨hentry, hp⟩
      simp only [hprocessor entry hkept, pure_bind, if_true]
  rw [filterWith, rebuild_eq "filter" hnamed htells hkeep, chosen_if]

theorem filterElements_eq (hnamed : container.Named)
    (htells : container.Tells scope w entries after) (hpredicate : Computes predicate p entries) :
    filterElements predicate container scope w =
      .done (container.refill (entries.filter p)) after := by
  have hprocessor : Computes (fun v _ => pure v) Prod.snd (entries.filter p) := fun _ _ => rfl
  have hkept : replaced Prod.snd (entries.filter p) = entries.filter p := List.map_id _
  have hfilter := filterWith_eq hnamed htells hpredicate hprocessor
  rw [hkept] at hfilter
  exact hfilter

end Filtering

end Laws

section Contracts

variable [Host] (container : Value) (scope : Scope) (w : World) (entries : List (Key × Value))
  (after : World)

/-- What mapping by a callback that computes does to the entries that a container tells. -/
structure MapsBy (callback : Value → Key → Eval Value) (f : Key × Value → Value) : Prop where
  result_eq : mapElements callback container scope w =
    .done (container.refill (replaced f entries)) after
  /-- The result has the new values under the old keys, in the old order. -/
  tells : (container.refill (replaced f entries)).Tells scope after (replaced f entries) after
  keys_eq : (replaced f entries).map Prod.fst = entries.map Prod.fst
  /-- There is one call about each entry, in order. -/
  calls : ∃ turns begun calls made,
    (Inquiry.mapping container callback).walk.Begins scope [] container w turns begun ∧
    (Inquiry.mapping container callback).Asks scope turns [] begun calls made after ∧
    calls.map (fun call => ((call.key, call.element), call.answer)) =
      entries.map fun entry => (entry, f entry)
  /-- Mapping the result by another callback is mapping by the two one after the other. -/
  fused : ∀ callback' g, Computes callback' g (replaced f entries) →
    (do mapElements callback' (← mapElements callback container) : Eval Value) scope w =
      mapElements (fun v key => do callback' (← callback v key) key) container scope w

/-- What filters by a predicate that computes, and by its complement, do to the entries that a
container tells. -/
structure FiltersBy (predicate : Value → Key → Eval Bool) (p : Key × Value → Bool) : Prop where
  kept_eq : filterElements predicate container scope w =
    .done (container.refill (entries.filter p)) after
  dropped_eq : filterElements (fun v key => do return !(← predicate v key)) container scope w =
    .done (container.refill (entries.filter fun entry => !p entry)) after
  splits : Splits entries (entries.filter p) (entries.filter fun entry => !p entry)
  nodup_keys : (entries.map Prod.fst).Nodup
  length_eq : ∃ kept dropped measured,
    (container.refill (entries.filter p)).length = pure kept ∧
    (container.refill (entries.filter fun entry => !p entry)).length = pure dropped ∧
    container.length scope w = .done (kept + dropped) measured
  /-- What is kept can be replaced, by a callback that need not answer for anything else. -/
  replaced_eq : ∀ processor f, Computes processor f (entries.filter p) →
    filterWith predicate processor container scope w =
      .done (container.refill (replaced f (entries.filter p))) after

variable {container}

/-- **The laws of mapping and filtering.** Mapping makes one call for each turn of a container, in
order, and puts the answers under the keys; when all answer, so does the mapping. By callbacks
that compute, mappings fuse, a filter and its complement split the entries, and a filter that
replaces what it keeps selects the same. -/
theorem map_filter_laws (hnamed : container.Named) :
    (∀ callback turns begun,
      (Inquiry.mapping container callback).walk.Begins scope [] container w turns begun →
      (∀ r after, mapElements callback container scope w = .done r after → ∃ calls made,
        (Inquiry.mapping container callback).Asks scope turns [] begun calls made after ∧
        calls.map Inquiry.Call.key = turns.map Turn.key ∧
        r = container.refill (calls.map fun call => (call.key, call.answer))) ∧
      ((∀ turn ∈ turns, turn.fetch.AlwaysAnswers) →
        (∀ v key, (callback v key).AlwaysAnswers) →
        ∃ r after, mapElements callback container scope w = .done r after)) ∧
    ∀ entries after, container.Tells scope w entries after →
      (∀ callback f, Computes callback f entries →
        MapsBy container scope w entries after callback f) ∧
      ∀ predicate p, Computes predicate p entries →
        FiltersBy container scope w entries after predicate p := by
  refine ⟨fun callback turns begun hbegins => ⟨fun r after hdone => ?_, fun hturns hcalls => ?_⟩,
    fun entries after htells => ⟨fun callback f hcallback => ?_, fun predicate p hpredicate => ?_⟩⟩
  · obtain ⟨calls, made, hasks, hr⟩ := mapElements_calls hnamed hbegins hdone
    exact ⟨calls, made, hasks, hasks.keys_eq, hr⟩
  · obtain ⟨calls, hgets⟩ := mapElements_gets hbegins
    exact hgets.done_of_answers hturns fun _ v key => hcalls v key
  · have hkeys := keys_replaced f entries
    exact {
      result_eq := mapElements_eq hnamed htells hcallback
      tells := htells.refill hkeys scope after
      keys_eq := hkeys
      calls := asks_of_tells htells hcallback
      fused := fun _ _ => mapElements_mapElements hnamed htells hcallback }
  · have hcomplement : Computes (fun v key => do return !(← predicate v key))
        (fun entry => !p entry) entries := by
      intro entry hentry
      simp only [hpredicate entry hentry, pure_bind]
    have hsplits := splits_filter p entries
    obtain ⟨measured, hlength⟩ := htells.length_eq
    rw [← hsplits.length_eq] at hlength
    exact {
      kept_eq := filterElements_eq hnamed htells hpredicate
      dropped_eq := filterElements_eq hnamed htells hcomplement
      splits := hsplits
      nodup_keys := htells.nodup_keys hnamed
      length_eq := ⟨_, _, measured, Value.length_refill _ _, Value.length_refill _ _, hlength⟩
      replaced_eq := fun _ _ => filterWith_eq hnamed htells hpredicate }

end Contracts

/-- A map is mapped to its entries with their names, and split by names. -/
theorem map_filter_laws_names :
    let names := [("a", Value.integer 1), ("b", Value.integer 2)]
    let _ := Script.hostWithin 0
    let pairs (v : Value) (key : Key) : Eval Value := return .array [key.toValue, v]
    let isFirst (_ : Value) (key : Key) : Eval Bool := return key.toName == "a"
    Value.Named (.map names) ∧
      mapElements pairs (.map names) {} {} =
        .done (.map [("a", .array [.string "a", .integer 1]),
          ("b", .array [.string "b", .integer 2])]) {} ∧
      filterElements isFirst (.map names) {} {} = .done (.map [("a", .integer 1)]) {} ∧
      filterWith isFirst pairs (.map names) {} {} =
        .done (.map [("a", .array [.string "a", .integer 1])]) {} := by
  intro names _ pairs isFirst
  have hnamed : Value.Named (.map names) := by
    rintro _ ⟨⟩
    have hdistinct : ["a", "b"].Nodup := by decide
    exact hdistinct
  obtain ⟨-, hlaws⟩ := map_filter_laws {} {} hnamed
  obtain ⟨hmap, hfilter⟩ := hlaws (namedEntries names) {} (.entries rfl)
  have hmaps := hmap pairs (fun entry => .array [entry.1.toValue, entry.2]) fun _ _ => rfl
  have hfilters := hfilter isFirst (fun entry => entry.1.toName == "a") fun _ _ => rfl
  exact ⟨hnamed, hmaps.result_eq, hfilters.kept_eq, hfilters.replaced_eq pairs
    (fun entry => .array [entry.1.toValue, entry.2]) fun _ _ => rfl⟩

end DynamicObjects
