import DynamicObjects.Proofs.Collections.Gathering
import DynamicObjects.Proofs.Order.Preorder
import DynamicObjects.Proofs.Sorting.Quick
import Mathlib.Order.Std

/-!
# Sorted copies

Data is ranked by its words, so comparing it answers by ranks, and whatever a plan for
sorting gives comes out. A sorted copy of a container of data is therefore the one stable
arrangement of its elements: no rearrangement but this one is in order and keeps those that
tie in the order in which the container lists them.

That the order is asked for in another way changes nothing: the order of values as a
function, through numbers and their signs, and the order of keys that are the elements
themselves answer alike, and the three sorts all give stable arrangements.

* `sorted_copy_contract`: what a sorted copy is.
* `sorted_forms_agree`: the three ways to ask for the order.
-/

namespace DynamicObjects

open Sorting

/-! ## What a container lists -/

/-- The elements of a container in the order in which it is visited. A foreign table is
one whose length and elements can be had; beyond the end of its items it has missing
values. -/
inductive Value.Lists : Value → List Value → Prop
  | array (items : List Value) : Lists (.array items) items
  | typed (items : TypedArray) : Lists (.typed items) items.values
  | map (entries : List (String × Value)) : Lists (.map entries) (entries.map Prod.snd)
  | iterable {id : Nat} {label : String} {length : Nat} {items : List Value}
      {faults : List (Nat × Value)} (h : ∀ i < length, Value.faultAt? faults i = Option.none) :
      Lists (.iterable id label length items Option.none faults)
        ((List.range length).map fun i => items[i]?.getD .undefined)

/-! ## Collecting -/

section Collecting

variable {w : World}

theorem yields_reporting {α : Type} {x : Eval α} {a : α} (hx : x.Yields w a) :
    (reporting x).Yields w a :=
  Eval.yields_bind (Eval.yields_attempt hx) (Eval.yields_pure a)

variable [Host] {v : Value} {elements : List Value}

/-- What a container lists is collected. -/
theorem Value.Lists.collect_eq (h : v.Lists elements) :
    ∃ gathered : List (Key × Value), gathered.map Prod.snd = elements ∧
      collect v = pure gathered := by
  cases h with
  | array | typed => exact ⟨_, map_snd_indexedFrom 0 _, collect_of_run rfl⟩
  | map entries => exact ⟨_, map_snd_namedEntries entries, collect_map entries⟩
  | iterable hfaults =>
    exact ⟨_, map_snd_indexedFrom 0 _, collect_of_run (Walk.run_iterable hfaults _ _)⟩

theorem yields_collect (h : v.Lists elements) :
    ∃ gathered : List (Key × Value), gathered.map Prod.snd = elements ∧
      (collect v).Yields w gathered := by
  obtain ⟨gathered, hvalues, hcollect⟩ := h.collect_eq
  exact ⟨gathered, hvalues, hcollect ▸ Eval.yields_pure gathered⟩

/-- The values of a container are an array of what it lists. -/
theorem yields_valuesOf (h : v.Lists elements) : (valuesOf v).Yields w (.array elements) := by
  obtain ⟨gathered, hvalues, hgathered⟩ := yields_collect (w := w) h
  have hentries : (entriesOf? v).Yields w (some gathered) := by
    cases h <;> exact Eval.yields_bind (Eval.yields_reads fun _ => rfl)
      (Eval.yields_bind hgathered (Eval.yields_pure _))
  have habsent : v.isAbsent = false := by cases h <;> rfl
  unfold valuesOf listing
  rw [habsent, ← hvalues]
  exact Eval.yields_bind hentries (Eval.yields_pure _)

end Collecting

/-! ## The stable arrangement of values -/

/-- A list is a rearrangement of values that is in order and keeps values that tie in the
order in which they stood. -/
structure Value.StablySorted (elements out : List Value) : Prop where
  perm : out.Perm elements
  ordered : out.Pairwise fun a b => a.order b ≠ .gt
  ties : ∀ a : Value,
    out.filter (fun b => a.order b = .eq) = elements.filter (fun b => a.order b = .eq)

/-- The linear order of words. -/
instance : LinearOrder Word := .ofStd Word

theorem Value.stablySorted_iff {elements out : List Value} :
    StablySorted elements out ↔ Arranges Value.spell elements out := by
  have htie (a : Value) (values : List Value) :
      values.filter (fun b => a.order b = .eq) = values.filter (fun b => b.spell = a.spell) := by
    refine List.filter_congr fun b _ => ?_
    rw [decide_eq_decide, order_eq_iff, eq_comm]
  constructor
  · rintro ⟨hperm, hordered, hties⟩
    refine ⟨fun r => ?_, hordered.imp compare_le_iff_le.mp⟩
    by_cases hr : ∃ a ∈ elements, a.spell = r
    · obtain ⟨a, -, rfl⟩ := hr
      rw [← htie a elements, ← htie a out, hties]
    · have hnone (values : List Value) (h : values.Perm elements) :
          values.filter (fun b => b.spell = r) = [] := by
        refine List.filter_eq_nil_iff.mpr fun b hb htied => hr ⟨b, h.mem_iff.mp hb, ?_⟩
        exact of_decide_eq_true htied
      rw [hnone elements (.refl _), hnone out hperm]
  · intro h
    refine ⟨h.alike.perm.symm, h.ordered.imp compare_le_iff_le.mpr, fun a => ?_⟩
    rw [htie a out, htie a elements]
    exact (h.alike a.spell).symm

theorem Value.StablySorted.unique {elements out out' : List Value}
    (h : StablySorted elements out)
    (h' : StablySorted elements out') : out = out' :=
  (stablySorted_iff.mp h).unique (stablySorted_iff.mp h')

/-! ## Sorting data -/

section Sorting

variable {w : World}

/-- What a plan gives comes out when a comparison answers as ranks compare. -/
theorem Sorting.Plan.Gives.yields_sortBy {α β γ : Type} [LinearOrder γ] {rank : α → γ}
    {among : α → Prop} {compare : α → α → Eval Ordering} {cmp : α → α → Ordering}
    {plan : Plan α β} {post : β → Prop} (hplan : plan.Gives rank among post)
    (hcompare : ∀ x y, among x → among y → (compare x y).Yields w (cmp x y))
    (hrank : ∀ x y, among x → among y → (rank x < rank y ↔ cmp x y = .lt)) :
    ∃ b, post b ∧ (sortBy compare plan).Yields w b := by
  refine hplan.run fun x y hx hy => ?_
  have hless : (cmp x y == .lt) = decide (rank x < rank y) := by
    rw [Bool.eq_iff_iff, beq_iff_eq, decide_eq_true_eq, hrank x y hx hy]
  rw [← hless]
  exact Eval.yields_bind (hcompare x y hx hy) (Eval.yields_pure _)

/-- Elements that a comparison ranks by words are sorted as a plan gives. -/
theorem yields_sortBy {α β : Type} {rank : α → Word} {among : α → Prop}
    {compare : α → α → Eval Ordering} {plan : Plan α β} {post : β → Prop}
    (hcompare : ∀ x y, among x → among y →
      (compare x y).Yields w (Ord.compare (rank x) (rank y)))
    (hplan : plan.Gives rank among post) :
    ∃ b, post b ∧ (sortBy compare plan).Yields w b :=
  hplan.yields_sortBy hcompare fun _ _ _ _ => compare_lt_iff_lt.symm

/-- Elements with their keys. -/
theorem yields_extractRows {elements : List Value} {extract : List (Value → Eval Value)}
    {row : Value → List Value} (h : ∀ a ∈ elements, (extractRow extract a).Yields w (row a)) :
    (extractRows extract elements).Yields w (elements.map fun a => (row a, a)) := by
  induction elements with
  | nil => exact Eval.yields_pure _
  | cons a rest ih =>
    obtain ⟨hfirst, hrest⟩ := List.forall_mem_cons.mp h
    exact Eval.yields_bind hfirst (Eval.yields_bind (Eval.yields_holding _ (ih hrest))
      (Eval.yields_pure _))

variable [Host] {v : Value} {elements : List Value}

/-- A comparison sorts values into the stable arrangement. -/
def Comparison.Sorts (comparison : Comparison) (w : World) (elements : List Value) : Prop :=
  ∃ out, Value.StablySorted elements out ∧ (sortItems comparison elements).Yields w out

theorem sorts_natural (h : ∀ a ∈ elements, w.IsData a) :
    Comparison.natural.Sorts w elements := by
  have hplan : (stableSort elements).Gives Value.spell w.IsData (Arranges Value.spell elements) :=
    gives_stableSort h
  have hcompare (a b : Value) (ha : w.IsData a) (hb : w.IsData b) :
      (a.compare b).Yields w (Ord.compare a.spell b.spell) :=
    yields_compare ha hb
  obtain ⟨out, hout, hyields⟩ := yields_sortBy hcompare hplan
  exact ⟨out, Value.stablySorted_iff.mpr hout, hyields⟩

theorem sorts_comparator {compare : Value → Value → Eval Ordering}
    (h : ∀ a ∈ elements, ∀ b ∈ elements, (compare a b).Yields w (a.order b)) :
    (Comparison.comparator compare).Sorts w elements := by
  have hplan : (mergeSort elements).Gives Value.spell (· ∈ elements)
      (Arranges Value.spell elements) :=
    gives_mergeSort fun _ ha => ha
  have hcompare (a b : Value) (ha : a ∈ elements) (hb : b ∈ elements) :
      (compare a b).Yields w (Ord.compare a.spell b.spell) :=
    h a ha b hb
  obtain ⟨out, hout, hyields⟩ := yields_sortBy hcompare hplan
  exact ⟨out, Value.stablySorted_iff.mpr hout, hyields⟩

theorem yields_compareRows {a b : Value} (ha : w.IsData a) (hb : w.IsData b) :
    (compareRows [a] [b]).Yields w (a.order b) := by
  refine Eval.yields_bind (yields_compare ha hb) ?_
  cases a.order b <;> exact Eval.yields_pure _

theorem sorts_extractors {extract : Value → Eval Value} (hdata : ∀ a ∈ elements, w.IsData a)
    (h : ∀ a ∈ elements, (extract a).Yields w a) :
    (Comparison.extractors [extract]).Sorts w elements := by
  let rank : List Value × Value → Word := fun row => row.2.spell
  have hplan : (stableSort (elements.map fun a => ([a], a))).Gives rank
      (fun row => w.IsData row.2 ∧ row.1 = [row.2])
      (Arranges rank (elements.map fun a => ([a], a))) :=
    gives_stableSort (by simpa using hdata)
  have hcompare (a b : List Value × Value) (ha : w.IsData a.2 ∧ a.1 = [a.2])
      (hb : w.IsData b.2 ∧ b.1 = [b.2]) :
      (compareRows a.1 b.1).Yields w (Ord.compare (rank a) (rank b)) := by
    rw [ha.2, hb.2]
    exact yields_compareRows ha.1 hb.1
  have hrow : ∀ a ∈ elements, (extractRow [extract] a).Yields w [a] := fun a ha =>
    Eval.yields_bind (h a ha) (Eval.yields_bind (Eval.yields_holding _ (Eval.yields_pure _))
      (Eval.yields_pure _))
  obtain ⟨rows, hrows, hyields⟩ := yields_sortBy hcompare hplan
  have hout : Arranges Value.spell elements (rows.map Prod.snd) := by
    have helements : (elements.map fun a : Value => ([a], a)).map Prod.snd = elements := by
      rw [List.map_map]
      exact List.map_id elements
    have hvalues : Arranges Value.spell _ (rows.map Prod.snd) := hrows.map Prod.snd fun _ => rfl
    rwa [helements] at hvalues
  exact ⟨rows.map Prod.snd, Value.stablySorted_iff.mpr hout,
    Eval.yields_bind (yields_extractRows hrow) (Eval.yields_bind
      (Eval.yields_holding _ hyields) (Eval.yields_pure _))⟩

/-- What a comparison sorts makes a sorted copy, from either end. -/
theorem Comparison.Sorts.yields_sortedCopy {comparison : Comparison}
    (hsorts : comparison.Sorts w elements) (hlists : v.Lists elements) :
    ∃ out, Value.StablySorted elements out ∧ ∀ reverse : Bool,
      (sortedCopy v comparison reverse).Yields w
        (.array (if reverse then out.reverse else out)) := by
  obtain ⟨out, hout, hsorted⟩ := hsorts
  obtain ⟨gathered, hvalues, hgathered⟩ := yields_collect (w := w) hlists
  rw [← hvalues] at hsorted
  refine ⟨out, hout, fun reverse => ?_⟩
  cases hlists <;> exact Eval.yields_bind (Eval.yields_reads fun _ => rfl)
    (Eval.yields_bind hgathered (Eval.yields_bind (Eval.yields_holding _ hsorted)
      (Eval.yields_pure _)))

/-- **A sorted copy of a container of data is the stable arrangement of its elements.** The
elements compare by one order. Among all lists there is exactly one that rearranges them in
order and keeps those that tie as they stood; that is the sorted copy, the sorted copy in
reverse is its reverse, and the values of the container have the same sorted copies. -/
theorem sorted_copy_contract (hlists : v.Lists elements) (hdata : ∀ a ∈ elements, w.IsData a) :
    (∀ a ∈ elements, ∀ b ∈ elements, (a.compare b).Yields w (a.order b)) ∧
    ∃ out : List Value, (∀ other, Value.StablySorted elements other ↔ other = out) ∧
      (sortedCopy v .natural false).Yields w (.array out) ∧
      (sortedCopy v .natural true).Yields w (.array out.reverse) ∧
      (valuesOf v >>= fun values => sortedCopy values .natural false).Yields w (.array out) ∧
      (valuesOf v >>= fun values => sortedCopy values .natural true).Yields w
        (.array out.reverse) := by
  refine ⟨fun a ha b hb => yields_compare (hdata a ha) (hdata b hb), ?_⟩
  have hsorts := sorts_natural hdata
  obtain ⟨out, hout, hcopy⟩ := hsorts.yields_sortedCopy hlists
  obtain ⟨out', hout', hvalues⟩ := hsorts.yields_sortedCopy (.array elements)
  obtain rfl := hout.unique hout'
  refine ⟨out, fun other => ⟨fun h => h.unique hout, fun h => h ▸ hout⟩, hcopy false, hcopy true,
    ?_, ?_⟩
  · exact Eval.yields_bind (yields_valuesOf hlists) (hvalues false)
  · exact Eval.yields_bind (yields_valuesOf hlists) (hvalues true)

end Sorting

/-- A map of a typed array, an array that ties with it, and a value that goes before both. -/
theorem sorted_copy_contract_ties :
    let elements : List Value := [.typed (.int8 [1]), .array [.integer 1], .none]
    let v : Value := .map [("b", .typed (.int8 [1])), ("a", .array [.integer 1]), ("c", .none)]
    letI := Script.hostWithin 0
    (v.Lists elements ∧ ∀ a ∈ elements, ({} : World).IsData a) ∧
    ∃ out : List Value, Value.StablySorted elements out ∧
      (sortedCopy v .natural false).Yields {} (.array out) ∧
      (sortedCopy v .natural true).Yields {} (.array out.reverse) := by
  intro elements v
  have hlists : v.Lists elements := .map _
  have hone : ({} : World).IsData (.integer 1) := .atom trivial
  have hdata : ∀ a ∈ elements, ({} : World).IsData a := by
    intro a ha
    simp only [elements, List.mem_cons, List.not_mem_nil, or_false] at ha
    rcases ha with rfl | rfl | rfl
    · exact .typed _
    · exact .array fun b hb => by rwa [List.mem_singleton.mp hb]
    · exact .atom trivial
  let _ := Script.hostWithin 0
  obtain ⟨-, out, hunique, hcopy, hcopy', -⟩ := sorted_copy_contract hlists hdata
  exact ⟨⟨hlists, hdata⟩, out, (hunique out).mpr rfl, hcopy, hcopy'⟩

/-! ## Ways to ask for the order -/

section Forms

variable {w : World} {v : Value} {elements : List Value}

/-- The sign of the number for an ordering. -/
theorem yields_signOf (o : Ordering) : (signOf (orderingValue o)).Yields w o := by
  cases o <;> exact Eval.yields_pure _

/-- The order of values as a function, read back from its number. -/
theorem yields_call_cmp [Host] {order : Function} (horder : order.code = .builtin .cmp)
    {a b : Value} (ha : w.IsData a) (hb : w.IsData b) :
    (order.call [a, b] >>= signOf).Yields w (a.order b) := by
  have hcall : (order.call [a, b]).Yields w (orderingValue (a.order b)) := by
    unfold Function.call
    rw [horder]
    have hrun : (Builtin.cmp.run [a, b]).Yields w (orderingValue (a.order b)) :=
      Eval.yields_bind (Eval.yields_pure a) (Eval.yields_bind (Eval.yields_pure b)
        (Eval.yields_bind (yields_compare ha hb) (Eval.yields_pure _)))
    exact Eval.yields_holding _ (Eval.yields_bind (Eval.yields_pure ()) hrun)
  exact Eval.yields_bind hcall (yields_signOf _)

/-- What is missing or absent is no flag that is set. -/
theorem flagAt_eq_isTruthy (args : List Value) (i : Nat) :
    flagAt args i = (argumentAt args i).isTruthy := by
  unfold flagAt optionalAt argumentAt
  cases args[i]? with
  | none => rfl
  | some flag => cases flag <;> rfl

/-- A named operation that is given as many arguments as it takes runs. -/
theorem Builtin.apply_eq_run [Host] {b : Builtin} {args : List Value}
    (hcount : b.fewest ≤ args.length ∧ args.length ≤ b.most) : b.apply args = b.run args := by
  have hchecked : b.checkCount args = pure () := by
    unfold Builtin.checkCount
    exact if_neg (by omega)
  change (b.checkCount args >>= fun _ => b.run args) = b.run args
  rw [hchecked, pure_bind]

theorem yields_apply [Host] {b : Builtin} {args : List Value} {n : Nat} {r : Value}
    (hlength : args.length = n) (hcount : b.fewest ≤ n ∧ n ≤ b.most)
    (hrun : (b.run args).Yields w r) : (b.apply args).Yields w r := by
  rwa [Builtin.apply_eq_run (hlength ▸ hcount)]

/-- The named operation makes a sorted copy by the comparison that its arguments describe. -/
theorem yields_apply_sorted [Host] {args : List Value} {comparison : Comparison}
    (hlists : v.Lists elements) (hsorts : comparison.Sorts w elements)
    (hcount : args.length ≤ 2) (hcomparison : (comparisonOf (optionalAt (v :: args) 1)).Yields w
      comparison) {out : List Value} (hout : Value.StablySorted elements out) :
    (Builtin.sorted.apply (v :: args)).Yields w
      (.array (if (argumentAt (v :: args) 2).isTruthy then out.reverse else out)) := by
  rw [← flagAt_eq_isTruthy]
  obtain ⟨out', hout', hcopy⟩ := hsorts.yields_sortedCopy hlists
  obtain rfl := hout.unique hout'
  have hfewest : Builtin.sorted.fewest = 1 := rfl
  have hmost : Builtin.sorted.most = 3 := rfl
  refine yields_apply (List.length_cons ..) ?_ (Eval.yields_bind (Eval.yields_pure v)
    (Eval.yields_bind hcomparison (hcopy _)))
  omega

/-- **The ways to ask for the order agree.** The named operation sorts data into the same
array, in the order of values or turned round by the flag, whether it is given nothing to
compare by, the order of values as a function, or a list of one key that is the element
itself. -/
theorem sorted_forms_agree (fuel : Nat) (hlists : v.Lists elements)
    (hdata : ∀ a ∈ elements, w.IsData a) {order identity : Function}
    (horder : order.code = .builtin .cmp)
    (hidentity : ∀ a ∈ elements, (Script.callWithin (fuel + 1) identity [a]).Yields w a)
    {missing : Value} (hmissing : missing.isAbsent = true) {flags : List Value}
    (hflags : flags.length ≤ 1) :
    let _ := Script.hostWithin (fuel + 1)
    ∃ out, Value.StablySorted elements out ∧
      let answer := Value.array (if (argumentAt flags 0).isTruthy then out.reverse else out)
      (Builtin.sorted.apply (v :: missing :: flags)).Yields w answer ∧
      (Builtin.sorted.apply (v :: .function order :: flags)).Yields w answer ∧
      (Builtin.sorted.apply (v :: .array [.function identity] :: flags)).Yields w answer ∧
      (flags = [] → (Builtin.sorted.apply [v]).Yields w answer) := by
  intro host
  have hnatural : Comparison.natural.Sorts w elements := sorts_natural hdata
  have ⟨out, hout, _⟩ := hnatural
  have hcmp : (Comparison.comparator fun a b => do signOf (← Host.call order [a, b])).Sorts
      w elements :=
    sorts_comparator fun a ha b hb =>
      @yields_call_cmp w (Script.hostWithin fuel) order horder a b (hdata a ha) (hdata b hb)
  have hkeys : (Comparison.extractors [fun a => Host.call identity [a]]).Sorts w elements :=
    sorts_extractors hdata hidentity
  have hmissing' : optionalAt (v :: missing :: flags) 1 = none := by
    simp [optionalAt, hmissing]
  refine ⟨out, hout, ?_, ?_, ?_, ?_⟩
  · refine yields_apply_sorted hlists hnatural (by simpa using hflags) ?_ hout
    rw [hmissing']
    exact Eval.yields_pure _
  · exact yields_apply_sorted hlists hcmp (by simpa using hflags) (Eval.yields_pure _) hout
  · refine yields_apply_sorted hlists hkeys (by simpa using hflags) ?_ hout
    exact Eval.yields_bind (Eval.yields_bind (Eval.yields_pure _) (Eval.yields_pure _))
      (Eval.yields_pure _)
  · rintro rfl
    exact yields_apply_sorted hlists hnatural (by simp) (Eval.yields_pure _) hout

end Forms

/-- An iterable with a missing element beyond its items, sorted in reverse; the key is the
argument of a body. -/
theorem sorted_forms_agree_iterable :
    let order : Function := ⟨0, "cmp", .builtin .cmp⟩
    let identity : Function := ⟨1, "identity", .script (.argument (.integer 0))⟩
    let elements : List Value := [.integer 2, .float .nan, .undefined]
    let v : Value := .iterable 0 "iterable" 3 [.integer 2, .float .nan] none []
    (v.Lists elements ∧ (∀ a ∈ elements, ({} : World).IsData a) ∧
      ∀ a ∈ elements, (Script.callWithin 2 identity [a]).Yields {} a) ∧
    letI := Script.hostWithin 2
    ∃ out, Value.StablySorted elements out ∧
      (Builtin.sorted.apply [v, .none, .boolean true]).Yields {} (.array out.reverse) ∧
      (Builtin.sorted.apply [v, .function order, .boolean true]).Yields {}
        (.array out.reverse) ∧
      (Builtin.sorted.apply [v, .array [.function identity], .boolean true]).Yields {}
        (.array out.reverse) := by
  intro order identity elements v
  have hlists : v.Lists elements := .iterable fun _ _ => rfl
  have hdata : ∀ a ∈ elements, ({} : World).IsData a := by
    intro a ha
    simp only [elements, List.mem_cons, List.not_mem_nil, or_false] at ha
    rcases ha with rfl | rfl | rfl <;> exact .atom trivial
  have hidentity : ∀ a ∈ elements, (Script.callWithin 2 identity [a]).Yields {} a := by
    intro a _ scope seen
    exact ⟨#[], by simp, rfl⟩
  have horder : order.code = .builtin .cmp := rfl
  have hmissing : Value.none.isAbsent = true := rfl
  have hflags : [Value.boolean true].length ≤ 1 := le_rfl
  obtain ⟨out, hout, hnatural, hcmp, hkeys, -⟩ :=
    sorted_forms_agree 1 hlists hdata horder hidentity hmissing hflags
  exact ⟨⟨hlists, hdata, hidentity⟩, out, hout, hnatural, hcmp, hkeys⟩

end DynamicObjects
