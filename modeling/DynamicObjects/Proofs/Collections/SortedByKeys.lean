import DynamicObjects.Proofs.Collections.Sorted
import DynamicObjects.Proofs.Sorting.Lexicographic

/-!
# Sorting by keys

A list of functions sorts a container by the keys that they give its elements. The first key by
which two elements do not tie decides, so the elements come out in the order of a dictionary, and
it is as if they had been sorted by one function after the other, by the last one first.

Before anything is compared, each function is called once about each element: element by element,
and about one element in the order of the functions. The first call that does not answer ends the
sort. What has been extracted is held, each key while the later ones are extracted, and each row
of keys while later elements are asked about.

* `Value.lexicographic`: the order by several keys.
* `AsksKeys`, `AsksRows`, `SortsByKeys`: the calls, and what comes of them.
* `sorted_by_keys`: what a container sorted by a list of functions is.
-/

namespace DynamicObjects

open Sorting

/-! ## The order by several keys -/

namespace Value

/-- How two values compare by their keys: the first key by which they do not tie decides. -/
def lexicographic : List (Value → Value) → Value → Value → Ordering
  | [] => fun _ _ => .eq
  | key :: rest => compareLex (fun a b => (key a).order (key b)) (lexicographic rest)

instance transCmp_orderOn (key : Value → Value) :
    Std.TransCmp fun a b => (key a).order (key b) :=
  inferInstanceAs (Std.TransCmp (compareOn fun a => (key a).spell))

instance transCmp_lexicographic (keys : List (Value → Value)) :
    Std.TransCmp (lexicographic keys) := by
  induction keys with
  | nil => exact { eq_swap := rfl, isLE_trans := fun _ _ => rfl }
  | cons key rest ih => exact inferInstanceAs (Std.TransCmp (compareLex _ (lexicographic rest)))

theorem lexicographic_singleton (key : Value → Value) :
    lexicographic [key] = fun a b => (key a).order (key b) := by
  funext a b
  exact Ordering.then_eq

end Value

/-! ## Functions that give keys -/

section Keys

variable [Host] {w : World} {elements : List Value} {fs : List Function}
  {keys : List (Value → Value)}

/-- Functions give keys to the elements of a list: called about any of these they answer, do
nothing else, and the keys are data. -/
def GivesKeys (w : World) (elements : List Value) : List Function → List (Value → Value) → Prop :=
  List.Forall₂ fun f key => ∀ a ∈ elements, (Host.call f [a]).Yields w (key a) ∧ w.IsData (key a)

/-- What is called about an element to get a key. -/
def Function.extract (f : Function) (v : Value) : Eval Value := Host.call f [v]

theorem GivesKeys.of_perm {elements' : List Value} (h : GivesKeys w elements fs keys)
    (hperm : elements'.Perm elements) : GivesKeys w elements' fs keys :=
  h.imp fun _ _ hkeys a ha => hkeys a (hperm.mem_iff.mp ha)

theorem GivesKeys.isData (h : GivesKeys w elements fs keys) {key : Value → Value}
    (hkey : key ∈ keys) {a : Value} (ha : a ∈ elements) : w.IsData (key a) := by
  induction h with
  | nil => cases hkey
  | cons hfirst _ ih =>
    rcases List.mem_cons.mp hkey with rfl | hkey
    · exact (hfirst a ha).2
    · exact ih hkey

theorem GivesKeys.yields_extractRow (h : GivesKeys w elements fs keys) {a : Value}
    (ha : a ∈ elements) :
    (extractRow (fs.map Function.extract) a).Yields w (keys.map fun key => key a) := by
  induction h with
  | nil => exact Eval.yields_pure _
  | cons hfirst _ ih =>
    exact Eval.yields_bind (hfirst a ha).1 (Eval.yields_bind (Eval.yields_holding _ ih)
      (Eval.yields_pure _))

theorem GivesKeys.yields_compareRows (h : GivesKeys w elements fs keys) {a b : Value}
    (ha : a ∈ elements) (hb : b ∈ elements) :
    (compareRows (keys.map fun key => key a) (keys.map fun key => key b)).Yields w
      (Value.lexicographic keys a b) := by
  induction h with
  | nil => exact Eval.yields_pure _
  | @cons f key fs keys hfirst _ ih =>
    refine Eval.yields_bind (yields_compare (hfirst a ha).2 (hfirst b hb).2) ?_
    rw [Value.lexicographic, compareLex]
    cases (key a).order (key b) with
    | eq => exact ih
    | lt | gt => exact Eval.yields_pure _

/-- The elements come out sorted by their keys. -/
theorem GivesKeys.yields_sortItems (h : GivesKeys w elements fs keys) :
    ∃ out, StableBy (Value.lexicographic keys) elements out ∧
      (sortItems (.extractors (fs.map Function.extract)) elements).Yields w out := by
  let cmp := Value.lexicographic keys
  let row (a : Value) : List Value × Value := (keys.map fun key => key a, a)
  have hcmp : PreordersOn cmp elements := preordersOn_of_transCmp elements
  have hplan : (stableSort (elements.map row)).Gives
      (fun r => (below cmp elements r.2).length) (fun r => ∃ a ∈ elements, r = row a)
      (Arranges (fun r => (below cmp elements r.2).length) (elements.map row)) :=
    gives_stableSort fun r hr => by
      obtain ⟨a, ha, rfl⟩ := List.mem_map.mp hr
      exact ⟨a, ha, rfl⟩
  have hcompare : ∀ r r', (∃ a ∈ elements, r = row a) → (∃ a ∈ elements, r' = row a) →
      (compareRows r.1 r'.1).Yields w (cmp r.2 r'.2) := by
    rintro _ _ ⟨a, ha, rfl⟩ ⟨b, hb, rfl⟩
    exact h.yields_compareRows ha hb
  have hrank : ∀ r r', (∃ a ∈ elements, r = row a) → (∃ a ∈ elements, r' = row a) →
      ((below cmp elements r.2).length < (below cmp elements r'.2).length ↔
        cmp r.2 r'.2 = .lt) := by
    rintro _ _ ⟨a, ha, rfl⟩ ⟨b, hb, rfl⟩
    exact hcmp.rank_lt_iff ha hb
  obtain ⟨rows, hrows, hyields⟩ := hplan.yields_sortBy hcompare hrank
  have hout : Arranges (fun a => (below cmp elements a).length) ((elements.map row).map Prod.snd)
      (rows.map Prod.snd) :=
    hrows.map Prod.snd fun _ => rfl
  have helements : (elements.map row).map Prod.snd = elements := by
    rw [List.map_map]
    exact List.map_id elements
  rw [helements] at hout
  exact ⟨rows.map Prod.snd, hcmp.arranges_iff.mp hout,
    Eval.yields_bind (yields_extractRows fun _ => h.yields_extractRow) (Eval.yields_bind
      (Eval.yields_holding _ hyields) (Eval.yields_pure _))⟩

end Keys

/-! ## Sorting by a list of functions -/

section Applying

variable [Host] {w : World} {v : Value} {elements : List Value} {fs : List Function}
  {keys : List (Value → Value)}

omit [Host] in
theorem extractorsOf_map (fs : List Function) :
    extractorsOf (fs.map Value.function) = pure fs := by
  induction fs with
  | nil => rfl
  | cons f rest ih => rw [List.map_cons, extractorsOf, ih, pure_bind]

/-- A container is sorted by functions after its elements are taken out, which are held
meanwhile. -/
theorem apply_sorted_extractors (h : v.Lists elements) (fs : List Function) :
    Builtin.sorted.apply [v, .array (fs.map .function)] = (do
      let sorted ← Eval.holding (.values elements)
        (sortItems (.extractors (fs.map Function.extract)) elements)
      return .array sorted) := by
  obtain ⟨gathered, hvalues, hcollect⟩ := h.collect_eq
  have hcount : Builtin.sorted.fewest ≤ 2 ∧ 2 ≤ Builtin.sorted.most := by decide
  have hcomparison : comparisonOf (some (.array (fs.map .function))) =
      pure (.extractors (fs.map Function.extract)) := by
    rw [comparisonOf, extractorsOf_map]
    rfl
  have hcopy : sortedCopy v (.extractors (fs.map Function.extract)) false = (do
      let items := (← collect v).map Prod.snd
      let sorted ← Eval.holding (.values items)
        (sortItems (.extractors (fs.map Function.extract)) items)
      return .array sorted) := by
    cases h <;> rfl
  rw [Builtin.apply_eq_run hcount]
  change (comparisonOf (some (.array (fs.map .function))) >>= fun comparison =>
    sortedCopy v comparison false) = _
  rw [hcomparison, pure_bind, hcopy, hcollect, pure_bind, hvalues]

/-- A stable arrangement by the keys comes out. -/
theorem GivesKeys.yields_apply_sorted (h : GivesKeys w elements fs keys)
    (hlists : v.Lists elements) : ∃ out, StableBy (Value.lexicographic keys) elements out ∧
      (Builtin.sorted.apply [v, .array (fs.map .function)]).Yields w (.array out) := by
  obtain ⟨out, hout, hsorted⟩ := h.yields_sortItems
  refine ⟨out, hout, ?_⟩
  rw [apply_sorted_extractors hlists]
  exact Eval.yields_bind (Eval.yields_holding _ hsorted) (Eval.yields_pure _)

/-- Sorts by one function after the other, by the last one first. -/
def sortedInTurn (fs : List Function) (v : Value) : Eval Value :=
  fs.foldrM (fun f sorted => Builtin.sorted.apply [sorted, .array [.function f]]) v

/-- Each sort keeps what the earlier ones have done among the elements that tie. -/
theorem GivesKeys.yields_sortedInTurn (h : GivesKeys w elements fs keys)
    (hlists : v.Lists elements) :
    ∃ sorted out, (sortedInTurn fs v).Yields w sorted ∧ sorted.Lists out ∧
      StableBy (Value.lexicographic keys) elements out ∧ (fs ≠ [] → sorted = .array out) := by
  induction h with
  | nil => exact ⟨v, elements, Eval.yields_pure v, hlists, stableBy_ties elements, nofun⟩
  | @cons f key fs keys hkey _ ih =>
    obtain ⟨sorted, mid, hsorted, hmid, hkeys, -⟩ := ih
    have hlast : GivesKeys w mid [f] [key] :=
      GivesKeys.of_perm (.cons hkey .nil) hkeys.perm
    obtain ⟨out, hout, happly⟩ := hlast.yields_apply_sorted hmid
    rw [Value.lexicographic_singleton] at hout
    have hpreorder : PreordersOn (fun a b => (key a).order (key b)) elements :=
      preordersOn_of_transCmp elements
    refine ⟨.array out, out, ?_, .array out, hkeys.thenBy hpreorder hout, fun _ => rfl⟩
    rw [sortedInTurn, List.foldrM_cons]
    exact Eval.yields_bind hsorted happly

end Applying

/-! ## The calls -/

theorem Eval.done_or_breaksOff {α : Type} (x : Eval α) (scope : Scope) (w : World) :
    (∃ a after, x scope w = .done a after) ∨ (x scope w).BreaksOff (x scope w) := by
  cases x scope w with
  | done a after => exact .inl ⟨a, after, rfl⟩
  | failed e after => exact .inr (.failed e after)
  | stuck reason => exact .inr (.stuck reason)

theorem Reply.BreaksOff.bind {α β γ : Type} {reply : Reply α} {x : Eval β} {scope : Scope}
    {w : World} (h : reply.BreaksOff (x scope w)) (f : β → Eval γ) :
    reply.BreaksOff ((x >>= f) scope w) := by
  rw [Eval.bind_apply]
  generalize x scope w = reply' at h ⊢
  cases h with
  | failed e after => exact .failed e after
  | stuck reason => exact .stuck reason

section Asking

variable [Host] {α β : Type}

/-- About one element each function is called once, in order, in the world that the call before
leaves; each key is held from then on. -/
inductive AsksKeys (a : Value) :
    List Function → Scope → World → List Value → Scope → World → Prop
  | nil {scope : Scope} {w : World} : AsksKeys a [] scope w [] scope w
  | cons {f : Function} {rest : List Function} {key : Value} {row : List Value}
      {scope inner : Scope} {w called after : World}
      (hcall : Host.call f [a] scope w = .done key called)
      (hrest : AsksKeys a rest (scope.holding (.values [key])) called row inner after) :
      AsksKeys a (f :: rest) scope w (key :: row) inner after

/-- Some function is the first one whose call about an element does not answer. -/
inductive KeysBreak (a : Value) : List Function → Scope → World → Reply α → Prop
  | intro {asked skipped : List Function} {f : Function} {row : List Value} {scope inner : Scope}
      {w w' : World} {reply : Reply α} (hasked : AsksKeys a asked scope w row inner w')
      (hcall : (Host.call f [a] inner w').BreaksOff reply) :
      KeysBreak a (asked ++ f :: skipped) scope w reply

/-- The elements are asked about one after the other; each row of keys is held from then on. -/
inductive AsksRows (fs : List Function) :
    List Value → Scope → World → List (List Value × Value) → Scope → World → Prop
  | nil {scope : Scope} {w : World} : AsksRows fs [] scope w [] scope w
  | cons {a : Value} {rest row : List Value} {rows : List (List Value × Value)}
      {scope asking inner : Scope} {w asked after : World}
      (hkeys : AsksKeys a fs scope w row asking asked)
      (hrest : AsksRows fs rest (scope.holding (.values row)) asked rows inner after) :
      AsksRows fs (a :: rest) scope w ((row, a) :: rows) inner after

/-- Some element is the first one about which a call does not answer. -/
inductive RowsBreak (fs : List Function) : List Value → Scope → World → Reply α → Prop
  | intro {before later : List Value} {a : Value} {rows : List (List Value × Value)}
      {scope inner : Scope} {w w' : World} {reply : Reply α}
      (hbefore : AsksRows fs before scope w rows inner w')
      (hbreaks : KeysBreak a fs inner w' reply) :
      RowsBreak fs (before ++ a :: later) scope w reply

variable {a key : Value} {f : Function} {fs : List Function} {elements row : List Value}
  {scope inner : Scope} {w w' : World} {reply : Reply α}

theorem KeysBreak.first (hcall : (Host.call f [a] scope w).BreaksOff reply) :
    KeysBreak a (f :: fs) scope w reply := by
  have hnone : AsksKeys a [] scope w [] scope w := .nil
  exact .intro hnone hcall

theorem KeysBreak.cons (hcall : Host.call f [a] scope w = .done key w')
    (h : KeysBreak a fs (scope.holding (.values [key])) w' reply) :
    KeysBreak a (f :: fs) scope w reply := by
  cases h with
  | intro hasked hbroken => exact .intro (.cons hcall hasked) hbroken

theorem RowsBreak.first (hbreaks : KeysBreak a fs scope w reply) :
    RowsBreak fs (a :: elements) scope w reply := by
  have hnone : AsksRows fs [] scope w [] scope w := .nil
  exact .intro hnone hbreaks

theorem RowsBreak.cons (hkeys : AsksKeys a fs scope w row inner w')
    (h : RowsBreak fs elements (scope.holding (.values row)) w' reply) :
    RowsBreak fs (a :: elements) scope w reply := by
  cases h with
  | intro hbefore hbreaks => exact .intro (.cons hkeys hbefore) hbreaks

/-- What is done with the keys does not matter when there are none. -/
theorem KeysBreak.bind {x : Eval α} {at' : Scope} (h : KeysBreak a fs scope w (x at' w'))
    (f : α → Eval β) : KeysBreak a fs scope w ((x >>= f) at' w') := by
  generalize hreply : x at' w' = reply at h
  cases h with
  | intro hasked hcall => exact .intro hasked ((hreply ▸ hcall).bind f)

theorem RowsBreak.bind {x : Eval α} {at' : Scope} (h : RowsBreak fs elements scope w (x at' w'))
    (f : α → Eval β) : RowsBreak fs elements scope w ((x >>= f) at' w') := by
  generalize hreply : x at' w' = reply at h
  cases h with
  | intro hbefore hbreaks => exact .intro hbefore ((hreply ▸ hbreaks).bind f)

/-- The keys of an element are got by calls, unless one of them does not answer. -/
theorem extractRow_cases (a : Value) (fs : List Function) (scope : Scope) (w : World) :
    (∃ row inner after, AsksKeys a fs scope w row inner after ∧
      extractRow (fs.map Function.extract) a scope w = .done row after) ∨
    KeysBreak a fs scope w (extractRow (fs.map Function.extract) a scope w) := by
  induction fs generalizing scope w with
  | nil => exact .inl ⟨[], scope, w, .nil, rfl⟩
  | cons f rest ih =>
    rcases (f.extract a).done_or_breaksOff scope w with ⟨key, called, hcall⟩ | hbreaks
    · have hrow : extractRow ((f :: rest).map Function.extract) a scope w =
          (do return key :: (← extractRow (rest.map Function.extract) a))
            (scope.holding (.values [key])) called :=
        (Eval.bind_of_done hcall _).trans rfl
      rw [hrow]
      rcases ih (scope.holding (.values [key])) called with
        ⟨row, inner, after, hasks, hdone⟩ | hlater
      · exact .inl ⟨key :: row, inner, after, .cons hcall hasks, Eval.bind_of_done hdone _⟩
      · exact .inr (.cons hcall (hlater.bind _))
    · exact .inr (.first (hbreaks.bind _))

/-- The rows of keys are got element by element, unless some call does not answer. -/
theorem extractRows_cases (fs : List Function) (elements : List Value) (scope : Scope)
    (w : World) :
    (∃ rows inner after, AsksRows fs elements scope w rows inner after ∧
      extractRows (fs.map Function.extract) elements scope w = .done rows after) ∨
    RowsBreak fs elements scope w
      (extractRows (fs.map Function.extract) elements scope w) := by
  induction elements generalizing scope w with
  | nil => exact .inl ⟨[], scope, w, .nil, rfl⟩
  | cons a rest ih =>
    rcases extractRow_cases a fs scope w with ⟨row, asking, asked, hkeys, hrow⟩ | hbreaks
    · have hrows : extractRows (fs.map Function.extract) (a :: rest) scope w =
          (do return (row, a) :: (← extractRows (fs.map Function.extract) rest))
            (scope.holding (.values row)) asked :=
        (Eval.bind_of_done hrow _).trans rfl
      rw [hrows]
      rcases ih (scope.holding (.values row)) asked with
        ⟨rows, inner, after, hasks, hdone⟩ | hlater
      · exact .inl ⟨(row, a) :: rows, inner, after, .cons hkeys hasks,
          Eval.bind_of_done hdone _⟩
      · exact .inr (.cons hkeys (hlater.bind _))
    · exact .inr (.first (hbreaks.bind _))

/-- Sorts rows by their keys and gives the elements that the keys belong to. The keys are held
meanwhile. -/
def sortRows (rows : List (List Value × Value)) : Eval (List Value) := do
  let sorted ← Eval.holding (.values (rows.flatMap Prod.fst))
    (sortBy (fun r r' => compareRows r.1 r'.1) (stableSort rows))
  return sorted.map Prod.snd

/-- What comes of sorting by functions: when all calls have answered, what comes of sorting the
rows of keys; else what the first call makes of it that does not answer, and nothing is compared. -/
inductive SortsByKeys (fs : List Function) (elements : List Value) (scope : Scope) (w : World) :
    Reply Value → Prop
  | sorted {rows : List (List Value × Value)} {inner : Scope} {after : World}
      (hall : AsksRows fs elements scope w rows inner after) :
      SortsByKeys fs elements scope w
        ((do return .array (← sortRows rows) : Eval Value) scope after)
  | broken {reply : Reply Value} (hbreaks : RowsBreak fs elements scope w reply) :
      SortsByKeys fs elements scope w reply

theorem sortsByKeys_apply {v : Value} (hlists : v.Lists elements) (fs : List Function)
    (scope : Scope) (w : World) :
    SortsByKeys fs elements (scope.holding (.values elements)) w
      (Builtin.sorted.apply [v, .array (fs.map .function)] scope w) := by
  have hrun : Builtin.sorted.apply [v, .array (fs.map .function)] scope w =
      (extractRows (fs.map Function.extract) elements >>= fun rows => do
        return .array (← sortRows rows)) (scope.holding (.values elements)) w := by
    have hitems : sortItems (.extractors (fs.map Function.extract)) elements =
        extractRows (fs.map Function.extract) elements >>= sortRows := rfl
    rw [apply_sorted_extractors hlists, ← bind_assoc, ← hitems, Eval.bind_apply, Eval.bind_apply]
    rfl
  rw [hrun]
  rcases extractRows_cases fs elements (scope.holding (.values elements)) w with
    ⟨rows, inner, after, hasks, hdone⟩ | hbreaks
  · rw [Eval.bind_of_done hdone]
    exact .sorted hasks
  · exact .broken (hbreaks.bind _)

/-- **Sorting by a list of functions.** Functions that give keys sort a container into the one
stable arrangement of its elements by their keys, where the first key by which two of them do not
tie decides, and sorting by one function after the other, by the last one first, gives the same;
by no function at all the elements come out as they are listed. Whatever the functions do, each of
them is called once about each element, about one element after the other, before anything is
compared, and the first call that does not answer decides. -/
theorem sorted_by_keys {v : Value} (hlists : v.Lists elements) :
    (∀ (w : World) (fs : List Function) (keys : List (Value → Value)),
      GivesKeys w elements fs keys →
      (∀ key ∈ keys, ∀ a ∈ elements, ∀ b ∈ elements,
        ((key a).compare (key b)).Yields w ((key a).order (key b))) ∧
      ∃ out, (∀ other, StableBy (Value.lexicographic keys) elements other ↔ other = out) ∧
        (Builtin.sorted.apply [v, .array (fs.map .function)]).Yields w (.array out) ∧
        (fs ≠ [] → (sortedInTurn fs v).Yields w (.array out))) ∧
    (∀ w, (Builtin.sorted.apply [v, .array []]).Yields w (.array elements)) ∧
    ∀ (fs : List Function) (scope : Scope) (w : World),
      SortsByKeys fs elements (scope.holding (.values elements)) w
        (Builtin.sorted.apply [v, .array (fs.map .function)] scope w) := by
  refine ⟨fun w fs keys hkeys => ⟨?_, ?_⟩, fun w => ?_, sortsByKeys_apply hlists⟩
  · intro key hkey a ha b hb
    exact yields_compare (hkeys.isData hkey ha) (hkeys.isData hkey hb)
  · have hpreorder : PreordersOn (Value.lexicographic keys) elements :=
      preordersOn_of_transCmp elements
    obtain ⟨out, hout, happly⟩ := hkeys.yields_apply_sorted hlists
    obtain ⟨sorted, out', hturns, -, hout', harray⟩ := hkeys.yields_sortedInTurn hlists
    obtain rfl := hout.unique hpreorder hout'
    refine ⟨out, fun other => ⟨fun h => h.unique hpreorder hout, fun h => h ▸ hout⟩, happly,
      fun hfs => ?_⟩
    rwa [harray hfs] at hturns
  · have hnone : GivesKeys w elements [] [] := .nil
    obtain ⟨out, hout, happly⟩ := hnone.yields_apply_sorted hlists
    have hpreorder : PreordersOn (Value.lexicographic []) elements :=
      preordersOn_of_transCmp elements
    obtain rfl := hout.unique hpreorder (stableBy_ties elements)
    exact happly

end Asking

/-- The values of a map by the words for their types, and those of one type by themselves. -/
theorem sorted_by_keys_types :
    let elements : List Value := [.string "b", .boolean true, .string "a"]
    let v : Value := .map [("x", .string "b"), ("y", .boolean true), ("z", .string "a")]
    let fs : List Function :=
      [⟨0, "typeOf", .builtin .typeOf⟩, ⟨1, "identity", .script (.argument (.integer 0))⟩]
    let typeKey : Value → Value := fun a => .string a.typeLabel
    letI := Script.hostWithin 2
    (v.Lists elements ∧ GivesKeys {} elements fs [typeKey, id]) ∧
    let out : List Value := [.boolean true, .string "a", .string "b"]
    (Builtin.sorted.apply [v, .array (fs.map .function)]).Yields {} (.array out) ∧
      (sortedInTurn fs v).Yields {} (.array out) ∧
      (Builtin.sorted.apply [v, .array []]).Yields {} (.array elements) := by
  intro elements v fs typeKey
  let _ := Script.hostWithin 2
  have hlists : v.Lists elements := .map _
  have hkeys : GivesKeys {} elements fs [typeKey, id] := by
    refine .cons (fun a _ => ⟨fun _ _ => ⟨#[], by simp, rfl⟩, .atom trivial⟩)
      (.cons (fun a ha => ⟨fun _ _ => ⟨#[], by simp, rfl⟩, ?_⟩) .nil)
    simp only [elements, List.mem_cons, List.not_mem_nil, or_false] at ha
    rcases ha with rfl | rfl | rfl <;> exact .atom trivial
  obtain ⟨hsorted, hnone, -⟩ := sorted_by_keys hlists
  obtain ⟨-, out, hunique, happly, hturns⟩ := hsorted {} fs [typeKey, id] hkeys
  have hout : [Value.boolean true, .string "a", .string "b"] = out := by
    refine (hunique _).mp ⟨?_, ?_, ?_⟩
    · exact (List.Perm.swap ..).trans ((List.Perm.swap ..).symm.cons _) |>.symm
    · decide
    · intro a ha
      simp only [elements, List.mem_cons, List.not_mem_nil, or_false] at ha
      rcases ha with rfl | rfl | rfl <;> rfl
  rw [← hout] at happly hturns
  exact ⟨⟨hlists, hkeys⟩, happly, hturns (List.cons_ne_nil _ _), hnone {}⟩

end DynamicObjects
