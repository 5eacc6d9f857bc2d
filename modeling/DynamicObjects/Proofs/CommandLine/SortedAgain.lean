import DynamicObjects.CommandLine
import DynamicObjects.Proofs.Collections.Sorted
import DynamicObjects.Proofs.Documents.Reading

/-!
# Sorting the output of a sort

The command line reads a document, sorts it and writes the result, so its output can be sorted
again. What has been sorted is in order already and stays as it is. In reverse the sorted
elements are turned round, those that tie with each other too: each run turns them round once
more, and the output stays as it is only where they read the same from either end.

* `Value.StablySorted.reverse_iff`: when values turned round are sorted back.
* `Json.SortsInto`: what a document is sorted into.
* `sorted_again_iff`: when the output of a sort is sorted into itself.
-/

namespace DynamicObjects

/-! ## Arrangements of what is arranged -/

namespace Value

variable {elements out : List Value}

/-- The values that tie with one of them read the same from either end. -/
def Mirrored (values : List Value) : Prop :=
  ∀ a ∈ values, (values.filter fun b => a.order b = .eq).reverse =
    values.filter fun b => a.order b = .eq

theorem StablySorted.again (h : StablySorted elements out) : StablySorted out out where
  perm := .refl out
  ordered := h.ordered
  ties _ := rfl

/-- What has been sorted and turned round is sorted back when ties read the same from either
end. -/
theorem StablySorted.reverse_iff (h : StablySorted elements out) :
    StablySorted out.reverse out ↔ Mirrored elements := by
  constructor
  · intro hreverse a _
    rw [← h.ties a, ← List.filter_reverse]
    exact (hreverse.ties a).symm
  · intro hmirrored
    refine ⟨out.reverse_perm.symm, h.ordered, fun a => ?_⟩
    rw [List.filter_reverse, h.ties a]
    by_cases ha : ∃ b ∈ elements, a.order b = .eq
    · obtain ⟨b, hb, hab⟩ := ha
      simp only [order_congr_left hab]
      exact (hmirrored b hb).symm
    · have hnone : elements.filter (fun b => a.order b = .eq) = [] := by
        apply List.filter_eq_nil_iff.mpr
        intro b hb htie
        exact ha ⟨b, hb, of_decide_eq_true htie⟩
      rw [hnone, List.reverse_nil]

end Value

/-! ## Sorted documents -/

namespace Json

open Value (ofJson)

variable {reverse : Bool} {j k k' : Json} {items : List Json}

/-- The items of an array, or the values of an object. -/
def elements : Json → List Json
  | array items => items
  | object entries => entries.map Prod.snd
  | _ => []

/-- The documents that tie with one of them read the same from either end. -/
def Mirrored (items : List Json) : Prop :=
  ∀ item ∈ items, (items.filter fun other => (ofJson item).order (ofJson other) = .eq).reverse =
    items.filter fun other => (ofJson item).order (ofJson other) = .eq

/-- What a document is sorted into: itself, or an array of its elements. -/
inductive SortsInto (reverse : Bool) : Json → Json → Prop
  | flat {j : Json} (harray : ∀ items, j ≠ .array items)
    (hobject : ∀ entries, j ≠ .object entries) : SortsInto reverse j j
  | container {j : Json} {out : List Json} (hlists : (ofJson j).Lists (j.elements.map ofJson))
    (hperm : out.Perm j.elements)
    (hsorted : Value.StablySorted (j.elements.map ofJson) (out.map ofJson)) :
    SortsInto reverse j (.array (if reverse then out.reverse else out))

theorem elements_of_flat (harray : ∀ items, j ≠ .array items)
    (hobject : ∀ entries, j ≠ .object entries) : j.elements = [] := by
  cases j with
  | array items => exact absurd rfl (harray items)
  | object entries => exact absurd rfl (hobject entries)
  | _ => rfl

theorem Fits.of_mem_elements (h : j.Fits) : ∀ item ∈ j.elements, item.Fits := by
  cases h with
  | array h => exact h
  | object _ h => exact List.forall_mem_map.mpr h
  | _ => simp [Json.elements]

theorem Whole.of_mem_elements (h : j.Whole) : ∀ item ∈ j.elements, item.Whole := by
  cases h with
  | array h => exact h
  | object h => exact List.forall_mem_map.mpr h
  | _ => simp [Json.elements]

theorem Nests.of_mem_elements {levels : Nat} (h : j.Nests levels) :
    ∀ item ∈ j.elements, item.Nests (levels - 1) := by
  cases h with
  | array h => exact h
  | object _ h => exact List.forall_mem_map.mpr h
  | flat harray hobject =>
    rw [elements_of_flat harray hobject]
    simp

/-- Documents that values have in full are told apart by their values. -/
theorem map_ofJson_inj {others : List Json} (hitems : ∀ item ∈ items, item.Fits)
    (hothers : ∀ item ∈ others, item.Fits) :
    items.map ofJson = others.map ofJson ↔ items = others := by
  constructor
  · intro heq
    have hdocuments {items : List Json} (h : ∀ item ∈ items, item.Fits) :
        Value.toJsonItems? (fun _ => none) (items.map ofJson) = some items := by
      rw [← Value.ofJsonItems_eq_map]
      exact Value.toJsonItems?_ofJsonItems fun item hitem => Value.toJson?_ofJson (h item hitem)
    exact Option.some.inj ((hdocuments hitems).symm.trans ((congrArg _ heq).trans
      (hdocuments hothers)))
  · rintro rfl
    rfl

theorem mirrored_map_ofJson (h : ∀ item ∈ items, item.Fits) :
    Value.Mirrored (items.map ofJson) ↔ Mirrored items := by
  have hfits (item : Json) : ∀ other ∈ items.filter fun other =>
      (ofJson item).order (ofJson other) = .eq, other.Fits :=
    fun other hother => h other (List.mem_of_mem_filter hother)
  unfold Value.Mirrored Mirrored
  rw [List.forall_mem_map]
  refine forall₂_congr fun item _ => ?_
  rw [List.filter_map, ← List.map_reverse, map_ofJson_inj]
  · rfl
  · exact fun other hother => hfits item other (List.mem_reverse.mp hother)
  · exact hfits item

/-! ## Sorting a document -/

theorem isData_ofJson {w : World} (h : j.Fits) : w.IsData (ofJson j) := by
  induction h with
  | null | boolean | real | string => exact .atom trivial
  | integer h =>
    rw [ofJson, if_pos h]
    exact .atom trivial
  | array _ ih =>
    rw [ofJson, Value.ofJsonItems_eq_map]
    exact .array (List.forall_mem_map.mpr ih)
  | object hkeys _ ih =>
    rw [ofJson, Entries.ofList_of_distinct (Value.distinct_ofJsonEntries hkeys),
      Value.ofJsonEntries_eq_map]
    exact .map (List.forall_mem_map.mpr ih)

/-- A document without elements is the one that is sorted, and the elements of any other one are
listed. -/
theorem flat_or_lists (h : j.Fits) :
    ((∀ items, j ≠ .array items) ∧ ∀ entries, j ≠ .object entries) ∨
      (ofJson j).Lists (j.elements.map ofJson) := by
  cases h with
  | @array items _ =>
    right
    rw [ofJson, Value.ofJsonItems_eq_map]
    exact .array (items.map ofJson)
  | @object entries hkeys _ =>
    right
    have hvalues : (elements (.object entries)).map ofJson =
        (entries.map fun entry => (entry.1, ofJson entry.2)).map Prod.snd := by
      rw [Json.elements, List.map_map, List.map_map]
      rfl
    rw [hvalues, ofJson, Entries.ofList_of_distinct (Value.distinct_ofJsonEntries hkeys),
      Value.ofJsonEntries_eq_map]
    exact .map _
  | _ =>
    left
    constructor <;> intro _ h <;> cases h

theorem not_lists {values : List Value} (harray : ∀ items, j ≠ .array items)
    (hobject : ∀ entries, j ≠ .object entries) : ¬ (ofJson j).Lists values := by
  intro hlists
  cases j with
  | array items => exact harray items rfl
  | object entries => exact hobject entries rfl
  | integer n =>
    rw [ofJson] at hlists
    split at hlists <;> cases hlists
  | _ => cases hlists

/-- A rearrangement of the values of documents is one of the documents. -/
theorem exists_perm_map_ofJson {values : List Value} (h : values.Perm (items.map ofJson)) :
    ∃ out : List Json, out.Perm items ∧ values = out.map ofJson := by
  have hsame : List.Forall₂ (fun v item => v = ofJson item) (items.map ofJson) items := by
    rw [List.forall₂_map_left_iff]
    exact List.forall₂_same.mpr fun _ _ => rfl
  obtain ⟨out, hout, hperm⟩ := List.perm_comp_forall₂ h hsame
  refine ⟨out, hperm, ?_⟩
  rw [← List.forall₂_eq_eq_eq, List.forall₂_map_right_iff]
  exact hout

/-- Sorting gives what a document is sorted into. -/
theorem exists_sortsInto [Host] {w : World} (hj : j.Fits) (reverse : Bool) :
    ∃ k, j.SortsInto reverse k ∧
      (Builtin.sorted.apply [ofJson j, .none, .boolean reverse]).Yields w (ofJson k) := by
  rcases flat_or_lists hj with ⟨harray, hobject⟩ | hlists
  · refine ⟨j, .flat harray hobject, ?_⟩
    apply yields_apply (n := 3) rfl (by decide)
    refine Eval.yields_bind (Eval.yields_pure _) ?_
    cases hj with
    | array => exact absurd rfl (harray _)
    | object => exact absurd rfl (hobject _)
    | integer h =>
      rw [ofJson, if_pos h]
      exact Eval.yields_bind (Eval.yields_reads fun _ => rfl) (Eval.yields_pure _)
    | _ => exact Eval.yields_bind (Eval.yields_reads fun _ => rfl) (Eval.yields_pure _)
  · have hdata : ∀ v ∈ j.elements.map ofJson, w.IsData v :=
      List.forall_mem_map.mpr fun item hitem => isData_ofJson (hj.of_mem_elements item hitem)
    obtain ⟨values, hsorted, -⟩ := sorts_natural hdata
    obtain ⟨out, hperm, rfl⟩ := exists_perm_map_ofJson hsorted.perm
    refine ⟨_, .container hlists hperm hsorted, ?_⟩
    have happly : (Builtin.sorted.apply [ofJson j, .none, .boolean reverse]).Yields w
        (.array (if reverse then (out.map ofJson).reverse else out.map ofJson)) :=
      yields_apply_sorted hlists (sorts_natural hdata) (by simp) (Eval.yields_pure _) hsorted
    have hvalue : ofJson (.array (if reverse then out.reverse else out)) =
        .array (if reverse then (out.map ofJson).reverse else out.map ofJson) := by
      rw [ofJson, Value.ofJsonItems_eq_map]
      cases reverse <;> simp
    rw [hvalue]
    exact happly

namespace SortsInto

theorem mem_iff {out : List Json} (hperm : out.Perm items) (item : Json) :
    item ∈ (if reverse then out.reverse else out) ↔ item ∈ items := by
  split
  · rw [List.mem_reverse, hperm.mem_iff]
  · exact hperm.mem_iff

theorem whole (h : j.SortsInto reverse k) (hj : j.Whole) : k.Whole := by
  cases h with
  | flat => exact hj
  | container _ hperm =>
    exact .array fun item hitem => hj.of_mem_elements item ((mem_iff hperm item).mp hitem)

theorem nests {levels : Nat} (h : j.SortsInto reverse k) (hj : j.Nests levels) :
    k.Nests levels := by
  cases h with
  | flat => exact hj
  | container hlists hperm =>
    have hlevels : levels = levels - 1 + 1 := by
      cases hj with
      | flat harray hobject =>
        exact absurd hlists (not_lists harray hobject)
      | array => rfl
      | object => rfl
    rw [hlevels]
    exact .array fun item hitem => hj.of_mem_elements item ((mem_iff hperm item).mp hitem)

/-- **When sorting again changes nothing.** In order it never does; in reverse it does unless
the elements that tie read the same from either end. -/
theorem again_iff (hj : j.Fits) (h : j.SortsInto reverse k) (h' : k.SortsInto reverse k') :
    k' = k ↔ reverse = false ∨ Mirrored j.elements := by
  cases h with
  | flat harray hobject =>
    obtain rfl : k' = j := by
      cases h' with
      | flat => rfl
      | container hlists => exact absurd hlists (not_lists harray hobject)
    simp [elements_of_flat harray hobject, Mirrored]
  | @container out hlists hperm hsorted =>
    have hfits : ∀ item ∈ out, item.Fits := fun item hitem =>
      hj.of_mem_elements item (hperm.mem_iff.mp hitem)
    cases h' with
    | flat harray => exact absurd rfl (harray _)
    | @container out' _ hperm' hsorted' =>
      have hfits' : ∀ item ∈ out', item.Fits := fun item hitem =>
        hfits item ((mem_iff (.refl out) item).mp (hperm'.mem_iff.mp hitem))
      cases reverse with
      | false =>
        have hsame := hsorted'.unique hsorted.again
        rw [map_ofJson_inj hfits' hfits] at hsame
        simp [hsame]
      | true =>
        have hturned : Value.StablySorted (out.map ofJson).reverse (out'.map ofJson) := by
          rw [← List.map_reverse]
          exact hsorted'
        have hsame : out' = out ↔
            Value.StablySorted (out.map ofJson).reverse (out.map ofJson) := by
          constructor
          · rintro rfl
            exact hturned
          · intro h
            exact (map_ofJson_inj hfits' hfits).mp (hturned.unique h)
        rw [← mirrored_map_ofJson hj.of_mem_elements, ← hsorted.reverse_iff, ← hsame]
        simp

end SortsInto

end Json

/-! ## Runs -/

namespace CommandLine

variable {reverse : Bool} {text : String} {j : Json}

/-- The arguments of a sort: a path if there is one, and the flag for descending order. -/
def sortArguments (path : Option String) (reverse : Bool) : List String :=
  Operation.sorted.name :: (path.toList ++ if reverse then [reverseFlag] else [])

/-- Whatever the surroundings are, a sort of a text leaves an output. The text comes from the file
at a path, or from the standard input. -/
def SortLeaves (reverse : Bool) (text : String) (output : Output) : Prop :=
  ∀ (m : Type → Type) [Monad m] [LawfulMonad m] (surroundings : Surroundings m)
    (path : Option String), (∀ p ∈ path, p ≠ reverseFlag ∧ p ≠ configFlag) →
    (match path with
      | some p => surroundings.fileText p
      | none => surroundings.inputText) = pure (.ok text) →
    run surroundings (sortArguments path reverse) = pure output

/-- A text that is read and sorted is printed as the document it is sorted into. -/
theorem exists_applyToText (hparse : Json.parse? text = some j) (hwhole : j.Whole)
    (reverse : Bool) :
    ∃ k, j.SortsInto reverse k ∧ ∀ settings,
      applyToText .sorted settings reverse text = .ok (k.pretty ++ "\n") := by
  have hnests := Json.nests_of_parse? hparse
  have hfits := Json.fits_of_whole hwhole hnests
  let _ := Session.host
  obtain ⟨k, hk, hsorted⟩ := Json.exists_sortsInto (w := {}) hfits reverse
  refine ⟨k, hk, fun settings => ?_⟩
  obtain ⟨notes, -, hdone⟩ := hsorted { settings, recording := false } #[]
  have hdocument (w : World) : w.document? (Value.ofJson k) = some k :=
    Value.toJson?_ofJson (Json.fits_of_whole (hk.whole hwhole) (hk.nests hnests))
  have hempty : { ({} : World) with diagnostics := #[] } = {} := rfl
  rw [hempty] at hdone
  rw [applyToText, hparse]
  simp only [applyOperation, Operation.builtin, Operation.arguments, hdone, hdocument]

/-- A run of a sort prints what the sort of its text prints. -/
theorem sortLeaves_of_applyToText {printed : String}
    (h : ∀ settings, applyToText .sorted settings reverse text = .ok printed) :
    SortLeaves reverse text ⟨0, printed, ""⟩ := by
  intro m _ _ surroundings path hpath hinput
  have hname : Operation.sorted.name ≠ reverseFlag ∧ Operation.sorted.name ≠ configFlag := by decide
  have hpath' : ∀ arg ∈ Operation.sorted.name :: path.toList,
      arg ≠ reverseFlag ∧ arg ≠ configFlag :=
    List.forall_mem_cons.mpr ⟨hname, fun p hp => hpath p (Option.mem_toList.mp hp)⟩
  have hcontains : (sortArguments path reverse).contains reverseFlag = reverse := by
    have hnot : reverseFlag ∉ Operation.sorted.name :: path.toList := fun h => (hpath' _ h).1 rfl
    rw [sortArguments, ← List.cons_append, List.contains_eq_mem]
    cases reverse <;> simp only [List.mem_append, hnot] <;> simp
  have hfilter : (sortArguments path reverse).filter (fun arg => arg != reverseFlag) =
      Operation.sorted.name :: path.toList := by
    have hkept : (Operation.sorted.name :: path.toList).filter (fun arg => arg != reverseFlag) =
        Operation.sorted.name :: path.toList :=
      List.filter_eq_self.mpr fun arg harg => bne_iff_ne.mpr (hpath' arg harg).1
    rw [sortArguments, ← List.cons_append, List.filter_append, hkept]
    cases reverse <;> simp
  have hsplit : splitConfig (Operation.sorted.name :: path.toList) =
      (.environment, Operation.sorted.name :: path.toList) :=
    splitConfig_of_not_mem fun h => (hpath' _ h).2 rfl
  have hrequest : Request.ofArguments (Operation.sorted.name :: path.toList) =
      .apply .sorted path := by
    cases path <;> rfl
  rw [run, hcontains, hfilter, hsplit]
  simp only [settingsFrom, hrequest, answer, pure_bind]
  cases path <;> simp only [hinput, pure_bind, h] <;> rfl

/-- A text that is read is sorted, and the document it is sorted into is printed. -/
theorem exists_sortLeaves (hparse : Json.parse? text = some j) (hwhole : j.Whole) (reverse : Bool) :
    ∃ k, j.SortsInto reverse k ∧ SortLeaves reverse text ⟨0, k.pretty ++ "\n", ""⟩ := by
  obtain ⟨k, hk, hprinted⟩ := exists_applyToText hparse hwhole reverse
  exact ⟨k, hk, sortLeaves_of_applyToText hprinted⟩

/-- **Sorting the output of a sort.** A text of whole numbers is sorted without trouble, and so is
what is printed for it. In order the second output is the first one; in reverse it is exactly
when the elements that tie, of an array or among the values of an object, read the same from
either end. -/
theorem sorted_again_iff (hparse : Json.parse? text = some j) (hwhole : j.Whole) (reverse : Bool) :
    ∃ once twice : String,
      SortLeaves reverse text ⟨0, once, ""⟩ ∧ SortLeaves reverse once ⟨0, twice, ""⟩ ∧
      (twice = once ↔ reverse = false ∨ Json.Mirrored j.elements) := by
  have hnests := Json.nests_of_parse? hparse
  obtain ⟨k, hk, honce⟩ := exists_sortLeaves hparse hwhole reverse
  have hkwhole := hk.whole hwhole
  have hknests := hk.nests hnests
  have hprinted := Json.parse?_pretty hkwhole hknests
  obtain ⟨k', hk', htwice⟩ := exists_sortLeaves hprinted hkwhole reverse
  have hagain := Json.parse?_pretty (hk'.whole hkwhole) (hk'.nests hknests)
  refine ⟨_, _, honce, htwice, ?_⟩
  rw [← hk.again_iff (Json.fits_of_whole hwhole hnests) hk']
  constructor
  · intro heq
    rw [heq, hprinted] at hagain
    exact (Option.some.inj hagain).symm
  · rintro rfl
    rfl

/-- Arrays of a number twice and a smaller one, in reverse. -/
theorem sorted_again_iff_repeated :
    let text := "[\n  2,\n  1,\n  2\n]\n"
    let j : Json := .array [.integer 2, .integer 1, .integer 2]
    (Json.parse? text = some j ∧ j.Whole) ∧
    ∃ once, SortLeaves true text ⟨0, once, ""⟩ ∧ SortLeaves true once ⟨0, once, ""⟩ := by
  intro text j
  have hwhole : j.Whole := by
    refine .array fun item hitem => ?_
    simp only [List.mem_cons, List.not_mem_nil, or_false] at hitem
    rcases hitem with rfl | rfl | rfl <;> exact .integer (by decide)
  have hnests : j.Nests Json.Reader.nestingLimit := by
    refine .array fun item hitem => ?_
    simp only [List.mem_cons, List.not_mem_nil, or_false] at hitem
    rcases hitem with rfl | rfl | rfl <;> exact .flat nofun nofun
  have hparse : Json.parse? text = some j := by
    have htext : text = j.pretty ++ "\n" := by decide +kernel
    rw [htext]
    exact Json.parse?_pretty hwhole hnests
  obtain ⟨once, twice, honce, htwice, hsame⟩ := sorted_again_iff hparse hwhole true
  have hmirrored : Json.Mirrored j.elements := by
    let one := Value.ofJson (.integer 1)
    let two := Value.ofJson (.integer 2)
    have horder : (one.order two ≠ .eq ∧ two.order one ≠ .eq) ∧ one.order one = .eq ∧
        two.order two = .eq := by decide +kernel
    intro item hitem
    simp only [j, Json.elements, List.mem_cons, List.not_mem_nil, or_false] at hitem
    rcases hitem with rfl | rfl | rfl <;> simp [j, Json.elements, horder, one, two] at *
  obtain rfl := hsame.mpr (.inr hmirrored)
  exact ⟨⟨hparse, hwhole⟩, twice, honce, htwice⟩

/-- Two documents that tie are turned round by a sort in reverse. -/
theorem sortLeaves_pair {a b : Json} (ha : a.Whole ∧ a.Nests 126) (hb : b.Whole ∧ b.Nests 126)
    (htie : (Value.ofJson a).order (Value.ofJson b) = .eq) :
    Json.parse? ((Json.array [a, b]).pretty ++ "\n") = some (.array [a, b]) ∧
      SortLeaves true ((Json.array [a, b]).pretty ++ "\n")
        ⟨0, (Json.array [b, a]).pretty ++ "\n", ""⟩ := by
  have hwhole : (Json.array [a, b]).Whole :=
    .array (List.forall_mem_cons.mpr ⟨ha.1, List.forall_mem_singleton.mpr hb.1⟩)
  have hnests : (Json.array [a, b]).Nests Json.Reader.nestingLimit :=
    .array (List.forall_mem_cons.mpr ⟨ha.2, List.forall_mem_singleton.mpr hb.2⟩)
  have hfits : ∀ item ∈ [a, b], item.Fits := (Json.fits_of_whole hwhole hnests).of_mem_elements
  have hparse := Json.parse?_pretty hwhole hnests
  refine ⟨hparse, ?_⟩
  obtain ⟨k, hk, hsorted⟩ := exists_sortLeaves hparse hwhole true
  have hstays : Value.StablySorted ([a, b].map Value.ofJson) ([a, b].map Value.ofJson) := by
    refine ⟨.refl _, ?_, fun _ => rfl⟩
    simp [htie]
  cases hk with
  | flat harray => exact absurd rfl (harray _)
  | container _ hperm hout =>
    have hsame := (Json.map_ofJson_inj (fun item hitem => hfits item (hperm.mem_iff.mp hitem))
      hfits).mp (hout.unique hstays)
    rw [hsame] at hsorted
    exact hsorted

/-- Two maps that differ in the order of their keys tie, so each sort in reverse turns them
round. -/
theorem sorted_again_turned :
    let text := "[\n  \x7b\n    \"a\": 1,\n    \"b\": 2\n  \x7d,\n  \x7b\n    \"b\": 2,\n    \"a\": 1\n  \x7d\n]\n"
    let once := "[\n  \x7b\n    \"b\": 2,\n    \"a\": 1\n  \x7d,\n  \x7b\n    \"a\": 1,\n    \"b\": 2\n  \x7d\n]\n"
    (∃ j, Json.parse? text = some j ∧ j.Whole) ∧ SortLeaves true text ⟨0, once, ""⟩ ∧
      SortLeaves true once ⟨0, text, ""⟩ ∧ once ≠ text := by
  intro text once
  let first : Json := .object [("a", .integer 1), ("b", .integer 2)]
  let second : Json := .object [("b", .integer 2), ("a", .integer 1)]
  have hentries {key key' : String} (n n' : Nat) (hkeys : key ≠ key') (hn : n < 3 ∧ n' < 3) :
      (Json.object [(key, .integer n), (key', .integer n')]).Whole ∧
      (Json.object [(key, .integer n), (key', .integer n')]).Nests 126 := by
    have hinteger (n : Nat) (hn : n < 3) : (Json.integer n).Whole := by
      apply Json.Whole.integer
      have hmin : Int64.minValue.toInt = -2 ^ 63 := by decide
      have hmax : Int64.maxValue.toInt = 2 ^ 63 - 1 := by decide
      omega
    constructor
    · exact .object (List.forall_mem_cons.mpr
        ⟨hinteger n hn.1, List.forall_mem_singleton.mpr (hinteger n' hn.2)⟩)
    · refine .object (show List.Nodup [key, key'] by simp [hkeys]) ?_
      exact List.forall_mem_cons.mpr
        ⟨.flat nofun nofun, List.forall_mem_singleton.mpr (.flat nofun nofun)⟩
  have hfirst : first.Whole ∧ first.Nests 126 := hentries 1 2 (by decide) (by decide)
  have hsecond : second.Whole ∧ second.Nests 126 := hentries 2 1 (by decide) (by decide)
  have htie : (Value.ofJson first).order (Value.ofJson second) = .eq := by decide +kernel
  have htie' : (Value.ofJson second).order (Value.ofJson first) = .eq := by decide +kernel
  have htext : text = (Json.array [first, second]).pretty ++ "\n" := by decide +kernel
  have honce : once = (Json.array [second, first]).pretty ++ "\n" := by decide +kernel
  obtain ⟨hparse, hsorted⟩ := sortLeaves_pair hfirst hsecond htie
  obtain ⟨-, hagain⟩ := sortLeaves_pair hsecond hfirst htie'
  have hne : once ≠ text := by decide +kernel
  rw [← htext] at hparse hsorted hagain
  rw [← honce] at hsorted hagain
  have hwhole : (Json.array [first, second]).Whole :=
    .array (List.forall_mem_cons.mpr ⟨hfirst.1, List.forall_mem_singleton.mpr hsecond.1⟩)
  exact ⟨⟨_, hparse, hwhole⟩, hsorted, hagain, hne⟩

end CommandLine

end DynamicObjects
