import DynamicObjects.Proofs.Errors.Operations
import DynamicObjects.Proofs.Sorting.Elements

/-!
# What becomes of sorts

Sorting by a function comes to a result whatever the function answers, as long as it answers
numbers; the first answer that is no number is a failure. Sorting data, or sorting by keys that
are data, answers: what is compared is ranked by words, rows of keys by the words of their keys
one after the other.

* `resultFailure`: the failure of a comparison by a function.
* `Circumstances.Offers.onTerms_sortedCopy`: what becomes of sorted copies.
-/

namespace DynamicObjects

open Sorting

variable {α β : Type} {c : Circumstances} {p : Value → Prop} {v : Value} {items : List Value}

/-- The failure of a comparison that answers what is no number. -/
def resultFailure (answer : Value) : Failure :=
  .type Builtin.sorted.name "comparator result" "Int or Float" answer.typeName
    "comparator(a, b) -> number"

/-- How a comparison by a function may fail, given what the function may answer. -/
def FailsByResult (p : Value → Prop) (e : Failure) : Prop :=
  ∃ answer, p answer ∧ answer.isNumber = false ∧ e = resultFailure answer

namespace Circumstances

/-! ## Plans -/

/-- A plan that settles is carried out, unless comparing fails. -/
theorem keepsTo_run {plan : Plan α β} (hplan : plan.Settles) {fails : Failure → Prop}
    {isLess : α → α → Eval Bool}
    (h : ∀ x y, (isLess x y).KeepsTo c { answers := fun _ => True, fails }) :
    (plan.run isLess).KeepsTo c { answers := fun _ => True, fails } := by
  induction plan with
  | done result => exact Eval.keepsTo_pure trivial
  | ask x y next ih => exact Eval.KeepsTo.bind (h x y) fun answer _ => ih answer (hplan answer)
  | contradiction => exact hplan.elim

theorem keepsTo_sortBy {plan : Plan α β} (hplan : plan.Settles) {fails : Failure → Prop}
    {compare : α → α → Eval Ordering}
    (h : ∀ x y, (compare x y).KeepsTo c { answers := fun _ => True, fails }) :
    (sortBy compare plan).KeepsTo c { answers := fun _ => True, fails } :=
  keepsTo_run hplan fun x y => Eval.KeepsTo.bind (h x y) fun _ _ => Eval.keepsTo_pure trivial

theorem keepsTo_signOf {answer : Value} (h : p answer) :
    (signOf answer).KeepsTo c { answers := fun _ => True, fails := FailsByResult p } := by
  cases answer with
  | integer n => exact Eval.keepsTo_pure trivial
  | float x => exact Eval.keepsTo_pure trivial
  | _ => exact Eval.keepsTo_fail ⟨_, h, rfl, rfl⟩

section Comparisons

variable [Host]

theorem keepsTo_sortItems_comparator {f : Function} (hf : c.Calls f p) :
    (sortItems (.comparator fun a b => do signOf (← Host.call f [a, b])) items).KeepsTo c
      { answers := fun _ => True, fails := FailsByResult p } :=
  keepsTo_sortBy (settles_mergeSort items) fun a b =>
    (hf [a, b]).bind fun _ hanswer => keepsTo_signOf hanswer

theorem succeeds_sortItems_natural (h : ∀ u ∈ items, c.Data u) :
    (sortItems .natural items).Succeeds c fun _ => True := by
  refine Eval.succeeds_of_yields fun w hw => ?_
  obtain ⟨out, -, hyields⟩ := sorts_natural fun u hu => h u hu w hw
  exact ⟨out, trivial, hyields⟩

/-! ## Rows of keys -/

/-- There is a key for each extractor. -/
structure Row (c : Circumstances) (count : Nat) (row : List Value) : Prop where
  length : row.length = count
  data : ∀ key ∈ row, c.Data key

variable {extract : List (Value → Eval Value)}

omit [Host] in
theorem succeeds_extractRow (h : ∀ key ∈ extract, (key v).Succeeds c c.Data) :
    (extractRow extract v).Succeeds c (c.Row extract.length) := by
  induction extract with
  | nil => exact Eval.succeeds_pure ⟨rfl, List.forall_mem_nil _⟩
  | cons key rest ih =>
    refine (h key List.mem_cons_self).bind fun a ha => ?_
    have hrest := ih fun key hkey => h key (.tail _ hkey)
    refine (Eval.Succeeds.holding _ hrest).map fun row hrow => ?_
    exact ⟨congrArg (· + 1) hrow.length, List.forall_mem_cons.mpr ⟨ha, hrow.data⟩⟩

omit [Host] in
theorem succeeds_extractRows (h : ∀ key ∈ extract, ∀ v, (key v).Succeeds c c.Data)
    (items : List Value) : (extractRows extract items).Succeeds c fun rows =>
      ∀ row ∈ rows, c.Row extract.length row.1 := by
  induction items with
  | nil => exact Eval.succeeds_pure (List.forall_mem_nil _)
  | cons v rest ih =>
    refine (succeeds_extractRow fun key hkey => h key hkey v).bind fun row hrow => ?_
    exact (Eval.Succeeds.holding _ ih).map fun rows hrows =>
      List.forall_mem_cons.mpr ⟨hrow, hrows⟩

/-- The word of a row of keys. -/
def rowWord (row : List Value) : Word := joinWords (row.map Value.spell)

/-- Rows of data compare as their words do, when there are as many keys in both. -/
theorem decides_compareRows {w : World} {xs ys : List Value} (hlength : xs.length = ys.length)
    (hxs : ∀ x ∈ xs, w.IsData x) (hys : ∀ y ∈ ys, w.IsData y) :
    ∃ o, (compareRows xs ys).Yields w o ∧ Decides o (rowWord xs) (rowWord ys) := by
  induction xs generalizing ys with
  | nil =>
    obtain rfl := List.length_eq_zero_iff.mp hlength.symm
    exact ⟨.eq, Eval.yields_pure _, decides_nil.cons_self _⟩
  | cons x xs ih =>
    obtain ⟨y, ys, rfl⟩ := List.exists_cons_of_length_eq_add_one hlength.symm
    obtain ⟨hx, hxs⟩ := List.forall_mem_cons.mp hxs
    obtain ⟨hy, hys⟩ := List.forall_mem_cons.mp hys
    obtain ⟨o, ho, hword⟩ := ranks_compare hx y hy
    obtain ⟨o', ho', hwords⟩ := ih (Nat.succ.inj hlength) hxs hys
    refine ⟨o.then o', Eval.yields_bind ho ?_, decides_joinWords_cons_cons hword hwords⟩
    cases o with
    | eq => exact ho'
    | lt => exact Eval.yields_pure _
    | gt => exact Eval.yields_pure _

theorem succeeds_sortRows {count : Nat} {rows : List (List Value × Value)}
    (hrows : ∀ row ∈ rows, c.Row count row.1) :
    (sortBy (fun a b => compareRows a.1 b.1) (stableSort rows)).Succeeds c fun _ => True := by
  refine Eval.succeeds_of_yields fun w hw => ?_
  have hplan : (stableSort rows).Gives (fun row => rowWord row.1)
      (fun row => c.Row count row.1) (Arranges (fun row => rowWord row.1) rows) :=
    gives_stableSort hrows
  have hcompare (a b : List Value × Value) (ha : c.Row count a.1) (hb : c.Row count b.1) :
      (compareRows a.1 b.1).Yields w (Ord.compare (rowWord a.1) (rowWord b.1)) := by
    obtain ⟨o, ho, hdecides⟩ := decides_compareRows (ha.length.trans hb.length.symm)
      (fun x hx => ha.data x hx w hw) fun y hy => hb.data y hy w hw
    rwa [hdecides.compare_eq]
  obtain ⟨sorted, -, hyields⟩ := yields_sortBy hcompare hplan
  exact ⟨sorted, trivial, hyields⟩

theorem succeeds_sortItems_extractors (h : ∀ key ∈ extract, ∀ v, (key v).Succeeds c c.Data) :
    (sortItems (.extractors extract) items).Succeeds c fun _ => True := by
  refine (succeeds_extractRows h items).bind fun rows hrows => ?_
  exact (Eval.Succeeds.holding _ (succeeds_sortRows hrows)).map fun _ _ => trivial

/-! ## Sorted copies -/

/-- A sorted copy in a world in which the value can be sorted. -/
theorem Offers.onTerms_sortedCopy (hv : c.Offers v p) {comparison : Comparison}
    {fails : Failure → Prop}
    (hcomparison : ∀ items, (∀ u ∈ items, p u) →
      (sortItems comparison items).KeepsTo c { answers := fun _ => True, fails })
    (reverse : Bool) {scope : Scope} (hscope : scope ∈ c.scopes) {w : World} (hw : w ∈ c.worlds)
    (hkind : w.kind v ≠ .function ∧ w.kind v ≠ .instanceKind) :
    (sortedCopy v comparison reverse scope w).OnTerms c { answers := fun _ => True, fails }
      scope w := by
  have hsorted : (do
      let items := (← DynamicObjects.collect v).map Prod.snd
      let sorted ← Eval.holding (.values items) (sortItems comparison items)
      return Value.array (if reverse then sorted.reverse else sorted)).KeepsTo c
        { answers := fun _ => True, fails } := by
    refine hv.collect.bind fun entries hentries => ?_
    have hitems : ∀ u ∈ entries.map Prod.snd, p u := by
      intro u hu
      obtain ⟨entry, hentry, rfl⟩ := List.mem_map.mp hu
      exact hentries entry hentry
    exact Eval.KeepsTo.bind (.holding _ (hcomparison _ hitems)) fun _ _ =>
      Eval.keepsTo_pure trivial
  rw [sortedCopy, Value.kind, Eval.bind_of_done (Eval.reads_apply _ _ _)]
  generalize w.kind v = kind at hkind ⊢
  cases kind with
  | sequence => exact hsorted scope hscope w hw
  | generic => exact hsorted scope hscope w hw
  | associative => exact hsorted scope hscope w hw
  | scalar => exact .done (.refl hw) trivial
  | undefined => exact .done (.refl hw) trivial
  | none => exact .done (.refl hw) trivial
  | function => exact absurd rfl hkind.1
  | instanceKind => exact absurd rfl hkind.2

end Comparisons

end Circumstances

end DynamicObjects
