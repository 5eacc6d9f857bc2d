import DynamicObjects.Proofs.Collections.Mapping
import DynamicObjects.Proofs.Collections.Merging

/-!
# Difference and intersection

What is in one set and not in another, and what is in both, split the first set. Difference and
intersection of lists keep the elements of the first list, so together they are that list. The
intersection of two maps has entries of the second one, so it is the other intersection that
makes up for what the difference leaves out.

* `Entries.lacked`, `Entries.shared`: the entries that another map lacks, and those whose keys it
  has.
* `difference_intersection_split`: what the two operations give, together.
-/

namespace DynamicObjects

namespace Entries

/-! ## Entries by the keys of another map -/

section Keys

variable {α : Type} {first second : Entries String α}

/-- The entries under keys that another map lacks. -/
def lacked (first second : Entries String α) : Entries String α :=
  first.filter fun entry => !contains entry.1 second

/-- The entries under keys that another map has. -/
def shared (first second : Entries String α) : Entries String α :=
  first.filter fun entry => contains entry.1 second

theorem mem_keys_shared {key : String} :
    key ∈ keys (shared first second) ↔ key ∈ keys first ∧ key ∈ keys second := by
  constructor
  · intro h
    obtain ⟨entry, hentry, rfl⟩ := List.mem_map.mp h
    obtain ⟨hmem, hkey⟩ := List.mem_filter.mp hentry
    rw [contains_eq_decide, decide_eq_true_iff] at hkey
    exact ⟨List.mem_map_of_mem hmem, hkey⟩
  · rintro ⟨h, hkey⟩
    obtain ⟨entry, hmem, rfl⟩ := List.mem_map.mp h
    refine List.mem_map_of_mem (List.mem_filter.mpr ⟨hmem, ?_⟩)
    rw [contains_eq_decide, decide_eq_true_iff]
    exact hkey

theorem Distinct.filter (h : Distinct first) (p : String × α → Bool) :
    Distinct (List.filter p first) :=
  (List.filter_sublist.map Prod.fst).nodup h

theorem lacked_append_shared_perm (first second : Entries String α) :
    (lacked first second ++ shared first second).Perm first :=
  List.perm_append_comm.trans (List.filter_append_perm _ first)

/-- Two maps share the same keys from either side. -/
theorem keys_shared_perm (hfirst : Distinct first) (hsecond : Distinct second) :
    (keys (shared second first)).Perm (keys (shared first second)) := by
  have hsame (key : String) :
      key ∈ keys (shared second first) ↔ key ∈ keys (shared first second) := by
    rw [mem_keys_shared, mem_keys_shared, and_comm]
  exact (List.perm_ext_iff_of_nodup (hsecond.filter _) (hfirst.filter _)).mpr hsame

/-- Each key of a map is lacked by another one or shared with it. -/
theorem keys_lacked_append_shared_perm (hfirst : Distinct first) (hsecond : Distinct second) :
    (keys (lacked first second) ++ keys (shared second first)).Perm (keys first) := by
  have hparts := (lacked_append_shared_perm first second).map Prod.fst
  rw [List.map_append] at hparts
  exact ((keys_shared_perm hfirst hsecond).append_left _).trans hparts

end Keys

/-- Maps that share no keys merge into the one followed by the other. -/
theorem isMerge_append {replace : Bool} {first second : Entries String Value}
    (h : Distinct (first ++ second)) : IsMerge replace first second (first ++ second) := by
  unfold Distinct at h
  rw [keys, List.map_append, List.nodup_append] at h
  obtain ⟨-, -, happart⟩ := h
  have hfresh : ∀ key ∈ keys second, key ∉ keys first :=
    fun key hkey hmem => happart key hmem key hkey rfl
  constructor
  · have hall : (keys second).filter (· ∉ keys first) = keys second :=
      List.filter_eq_self.mpr fun key hkey => decide_eq_true (hfresh key hkey)
    rw [hall, keys, List.map_append]
    rfl
  · intro key
    rw [find?_append]
    cases hfind : find? key second with
    | none => rw [settle_none_right, Option.or_none]
    | some v =>
      have hkey : key ∈ keys second := List.mem_map_of_mem (mem_of_find?_eq_some hfind)
      rw [find?_eq_none_iff.mpr (hfresh key hkey)]
      simp [settle]

end Entries

open Entries (Distinct lacked shared)

/-! ## Difference and intersection of maps -/

/-- The difference of two values, joined with their intersection the other way round. -/
def rejoined [Host] (a b : Value) : Eval Value := do
  Builtin.union.apply [← Builtin.difference.apply [a, b], ← Builtin.intersection.apply [b, a]]

section Splitting

variable [Host] {w : World} {first second : Entries String Value}

theorem yields_differenceOf_map (first second : Entries String Value) :
    (differenceOf (.map first) (.map second)).Yields w (.map (lacked first second)) := by
  have hempty := yields_isEmptySet_map (w := w)
  have hlacked : (first.filter fun entry => !(Entries.index second).contains entry.1) =
      lacked first second := by
    simp only [Entries.contains_index, lacked]
  cases first with
  | nil => exact Eval.yields_bind (hempty []) (Eval.yields_pure _)
  | cons entry rest =>
    cases second with
    | nil =>
      have hall : lacked (entry :: rest) [] = entry :: rest :=
        List.filter_eq_self.mpr fun _ _ => rfl
      rw [hall]
      exact Eval.yields_bind (hempty (entry :: rest)) (Eval.yields_bind (hempty [])
        (Eval.yields_pure _))
    | cons entry' rest' =>
      rw [← hlacked]
      exact Eval.yields_bind (hempty (entry :: rest)) (Eval.yields_bind (hempty (entry' :: rest'))
        (Eval.yields_bind (yields_kind _) (Eval.yields_pure _)))

theorem yields_intersectionOf_map (hfilled : first ≠ []) (second : Entries String Value) :
    (intersectionOf (.map first) (.map second)).Yields w (.map (shared second first)) := by
  have hshared : (second.filter fun entry => (Entries.index first).contains entry.1) =
      shared second first := by
    simp only [Entries.contains_index, shared]
  rw [← hshared]
  exact Eval.yields_bind (yields_isEmptySet_map_filled hfilled)
    (Eval.yields_bind (yields_kind _) (Eval.yields_pure _))

/-- The entries that another map lacks and those that it shares, joined again, are those of the
map. -/
theorem yields_rejoined (hfirst : Distinct first) (hfilled : first ≠ [])
    (second : Entries String Value) :
    ∃ out, (rejoined (.map first) (.map second)).Yields w (.map out) ∧ out.Perm first := by
  have hdifference : (Builtin.difference.apply [.map first, .map second]).Yields w
      (.map (lacked first second)) :=
    yields_apply (n := 2) rfl (by decide) (yields_differenceOf_map first second)
  cases second with
  | nil =>
    -- The intersection with an empty map is no map, and the union passes over it.
    have hall : lacked first [] = first := List.filter_eq_self.mpr fun _ _ => rfl
    have hintersection : (intersectionOf (.map []) (.map first)).Yields w .none :=
      Eval.yields_bind (yields_isEmptySet_map []) (Eval.yields_pure _)
    have hnone : (isEmptySet .none).Yields w true := Eval.yields_pure true
    have hunion : (unionOf (.map first) .none).Yields w (.map first) :=
      Eval.yields_bind (yields_isEmptySet_map_filled hfilled)
        (Eval.yields_bind hnone (Eval.yields_pure _))
    rw [hall] at hdifference
    exact ⟨first, Eval.yields_bind hdifference <|
      Eval.yields_bind (yields_apply (n := 2) rfl (by decide) hintersection) <|
        yields_apply (n := 2) rfl (by decide) hunion, .refl _⟩
  | cons entry rest =>
    have hintersection : (Builtin.intersection.apply [.map (entry :: rest), .map first]).Yields w
        (.map (shared first (entry :: rest))) :=
      yields_apply (n := 2) rfl (by decide)
        (yields_intersectionOf_map (List.cons_ne_nil entry rest) first)
    have hparts := Entries.lacked_append_shared_perm first (entry :: rest)
    have hdistinct : Distinct (lacked first (entry :: rest) ++ shared first (entry :: rest)) :=
      (hparts.map Prod.fst).nodup_iff.mpr hfirst
    have hunion : (Builtin.union.apply [.map (lacked first (entry :: rest)),
        .map (shared first (entry :: rest))]).Yields w (.map _) :=
      yields_apply (n := 2) rfl (by decide) (yields_unionOf_map (hfirst.filter _) (hfirst.filter _)
        (Entries.isMerge_append hdistinct))
    exact ⟨_, Eval.yields_bind hdifference (Eval.yields_bind hintersection hunion), hparts⟩

variable {a b : Value} {as bs : List Value}

/-- **Difference and intersection split what they are given.** Of a sequence that is not empty,
each position goes to exactly one of them, and none of the elements of the difference equals one
of the other value's, where each element of the intersection does. Of a map that is not empty, each
key goes to exactly one of them, and joined with the intersection the other way round, the
difference is the map again. -/
theorem difference_intersection_split (ha : a.Represents as) (hb : w.HasMembers b bs)
    (hmap : ∀ entries, b ≠ .map entries) (hnonempty : as ≠ [])
    (hdata : ∀ v ∈ as ++ bs, w.IsData v) (hfirst : Distinct first) (hsecond : Distinct second)
    (hfilled : first ≠ []) :
    (∃ r rest common, (Builtin.difference.apply [a, b]).Yields w r ∧ r.Represents rest ∧
      (Builtin.intersection.apply [a, b]).Yields w (.array common) ∧ Splits as rest common ∧
      (∀ v ∈ rest, ∀ u ∈ bs, (v.equals u).Yields w false) ∧
      ∀ v ∈ common, ∃ u ∈ bs, (v.equals u).Yields w true) ∧
    (∃ rest common, (Builtin.difference.apply [.map first, .map second]).Yields w (.map rest) ∧
      (Builtin.intersection.apply [.map first, .map second]).Yields w (.map common) ∧
      (Entries.keys rest ++ Entries.keys common).Perm (Entries.keys first)) ∧
    ∃ out, (rejoined (.map first) (.map second)).Yields w (.map out) ∧ out.Perm first := by
  have has (v : Value) (hv : v ∈ as) : w.IsData v := hdata v (List.mem_append_left bs hv)
  have hbs (v : Value) (hv : v ∈ bs) : w.IsData v := hdata v (List.mem_append_right as hv)
  refine ⟨?_, ⟨lacked first second, shared second first, ?_, ?_, ?_⟩,
    yields_rejoined hfirst hfilled second⟩
  · obtain ⟨r, hdifference, hr⟩ := yields_differenceOf ha hb has hbs
    have hintersection := yields_intersectionOf_array ha hb hmap has hbs hnonempty
    have hsplits := splits_filter (fun v => !v.isAmong bs) as
    simp only [Bool.not_not] at hsplits
    refine ⟨r, _, _, yields_apply (n := 2) rfl (by decide) hdifference, hr,
      yields_apply (n := 2) rfl (by decide) hintersection, hsplits, ?_, ?_⟩
    · intro v hv
      obtain ⟨hmem, hapart⟩ := List.mem_filter.mp hv
      exact yields_equals_of_not_isAmong (has v hmem) hbs (by simpa using hapart)
    · intro v hv
      obtain ⟨hmem, hamong⟩ := List.mem_filter.mp hv
      exact exists_yields_equals_of_isAmong (has v hmem) hbs hamong
  · exact yields_apply (n := 2) rfl (by decide) (yields_differenceOf_map first second)
  · exact yields_apply (n := 2) rfl (by decide) (yields_intersectionOf_map hfilled second)
  · exact Entries.keys_lacked_append_shared_perm hfirst hsecond

end Splitting

/-- A typed array against an array that has one of its numbers as a float, and maps that share a
key. -/
theorem difference_intersection_split_numbers :
    let as : List Value := [.integer 1, .integer 2, .integer 2]
    let bs : List Value := [.string "two", .float ⟨0x4000000000000000⟩]
    let a : Value := .typed (.int8 [1, 2, 2])
    let b : Value := .array bs
    let first : Entries String Value := [("a", .integer 1), ("b", .undefined), ("c", .integer 3)]
    let second : Entries String Value := [("d", .integer 4), ("b", .integer 2)]
    letI := Script.hostWithin 0
    (a.Represents as ∧ ({} : World).HasMembers b bs ∧ (∀ v ∈ as ++ bs, ({} : World).IsData v) ∧
      Distinct first ∧ Distinct second) ∧
    (∃ r rest common, (Builtin.difference.apply [a, b]).Yields {} r ∧ r.Represents rest ∧
      (Builtin.intersection.apply [a, b]).Yields {} (.array common) ∧ Splits as rest common) ∧
    ∃ out, (rejoined (.map first) (.map second)).Yields {} (.map out) ∧ out.Perm first := by
  intro as bs a b first second
  let _ := Script.hostWithin 0
  have ha : a.Represents as := .typed (.int8 [1, 2, 2])
  have hb : ({} : World).HasMembers b bs := .sequence (.array bs)
  have hdata : ∀ v ∈ as ++ bs, ({} : World).IsData v := by
    intro v hv
    simp only [as, bs, List.cons_append, List.nil_append, List.mem_cons, List.not_mem_nil,
      or_false] at hv
    rcases hv with rfl | rfl | rfl | rfl | rfl <;> exact .atom trivial
  have hfirst : Distinct first := show (Entries.keys first).Nodup by decide
  have hsecond : Distinct second := show (Entries.keys second).Nodup by decide
  obtain ⟨⟨r, rest, common, hdifference, hr, hintersection, hsplits, -⟩, -, hunion⟩ :=
    difference_intersection_split ha hb (fun _ => nofun) (List.cons_ne_nil _ _) hdata hfirst
      hsecond (List.cons_ne_nil _ _)
  exact ⟨⟨ha, hb, hdata, hfirst, hsecond⟩, ⟨r, rest, common, hdifference, hr, hintersection,
    hsplits⟩, hunion⟩

end DynamicObjects
