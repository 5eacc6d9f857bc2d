import DynamicObjects.Proofs.Collections.Copies

/-!
# Merging

Two maps merge key by key: the keys of the first stay where they are, those that only the second
has follow, and a key that both have keeps the first map's value unless it is undefined. Union
and merge are computed apart from each other and give this same map. On arrays they do the same
up to one case: the union of an empty array and another one is that other array as it is, with
its repetitions, where merging leaves them out.

* `Entries.IsMerge`: what two maps merge into.
* `Entries.isMerge_mergeEntries`: merging one entry after the other comes to that.
* `union_merge_agree_iff`: when union and merge agree.
-/

namespace DynamicObjects

namespace Entries

variable {α : Type} {first second out : Entries String α}

/-! ## Entries by their keys and lookups -/

/-- Entries with distinct keys are known by the order of the keys and by what is found. -/
theorem ext_find? {other : Entries String α} (h : Distinct out) (hkeys : keys out = keys other)
    (hfind : ∀ key, find? key out = find? key other) : out = other := by
  induction out generalizing other with
  | nil => exact (List.map_eq_nil_iff.mp hkeys.symm).symm
  | cons entry rest ih =>
    obtain ⟨key, v⟩ := entry
    cases other with
    | nil => cases hkeys
    | cons entry' rest' =>
      obtain ⟨key', v'⟩ := entry'
      obtain ⟨hfresh, hrest⟩ := List.nodup_cons.mp h
      obtain ⟨hkey, htail⟩ : key = key' ∧ keys rest = keys rest' := List.cons.inj hkeys
      subst hkey
      have hvalue : v = v' := by simpa [find?] using hfind key
      rw [hvalue, ih hrest htail]
      intro k
      by_cases hk : key = k
      · have hfresh' : key ∉ keys rest' := htail ▸ hfresh
        rw [← hk, find?_eq_none_iff.mpr hfresh, find?_eq_none_iff.mpr hfresh']
      · simpa [find?, hk] using hfind k

end Entries

/-! ## Merged maps -/

namespace Entries

variable {first second out : Entries String Value}

/-- What stands under a key of merged maps, given what the two of them have there. -/
def settle (replace : Bool) (mine theirs : Option Value) : Option Value :=
  if !replace && mine.any Value.isDefined then mine else theirs.or mine

/-- What a second map merges into a first one to: the keys of the first, then those that only
the second has. -/
structure IsMerge (replace : Bool) (first second out : Entries String Value) : Prop where
  keys_eq : keys out = keys first ++ (keys second).filter (· ∉ keys first)
  find?_eq (key : String) : find? key out = settle replace (find? key first) (find? key second)

variable {replace : Bool}

theorem settle_none_right (mine : Option Value) : settle replace mine none = mine := by
  unfold settle
  split <;> rfl

/-- Puts an entry where its key has nothing defined, or in any case. -/
def supply (replace : Bool) (entries : Entries String Value) (entry : String × Value) :
    Entries String Value :=
  if !replace && (find? entry.1 entries).any Value.isDefined then entries
  else insert entry.1 entry.2 entries

theorem mergeEntries_eq_foldl (replace : Bool) (extra entries : Entries String Value) :
    mergeEntries replace extra entries = extra.foldl (supply replace) (ofList entries) := by
  suffices ∀ draft : Draft Value, (extra.foldl (fun out entry =>
      if lacks entry.1 out || replace then out.insert entry.1 entry.2 else out) draft).entries =
      extra.foldl (supply replace) draft.entries from this _
  induction extra with
  | nil => exact fun _ => rfl
  | cons entry rest ih =>
    intro draft
    obtain ⟨key, v⟩ := entry
    rw [List.foldl_cons, ih, List.foldl_cons, supply, Draft.find?_entries]
    congr 1
    have hlacks : lacks key draft = !(draft.find? key).any Value.isDefined := by
      unfold lacks
      cases draft.find? key <;> rfl
    rw [hlacks]
    cases (draft.find? key).any Value.isDefined <;> cases replace <;> simp

theorem keys_supply (entries : Entries String Value) (key : String) (v : Value) :
    keys (supply replace entries (key, v)) =
      if key ∈ keys entries then keys entries else keys entries ++ [key] := by
  unfold supply
  split
  · rename_i hdefined
    have hmem : key ∈ keys entries := by
      by_contra hfresh
      simp [find?_eq_none_iff.mpr hfresh] at hdefined
    rw [if_pos hmem]
  · exact keys_insert key v entries

theorem find?_supply (entries : Entries String Value) (key other : String) (v : Value) :
    find? other (supply replace entries (key, v)) =
      settle replace (find? other entries) (if key = other then some v else none) := by
  by_cases hkey : key = other
  · subst hkey
    unfold supply settle
    split
    · rfl
    · rw [if_pos rfl, find?_insert_self, Option.some_or]
  · rw [if_neg hkey, settle_none_right]
    unfold supply
    split
    · rfl
    · rw [find?_insert, if_neg hkey]

/-- Entries supplied one after the other merge into those that are there. -/
theorem isMerge_foldl_supply (hsecond : Distinct second) (first : Entries String Value) :
    IsMerge replace first second (second.foldl (supply replace) first) := by
  induction second generalizing first with
  | nil =>
    constructor
    · rw [List.foldl_nil, keys, keys, List.map_nil, List.filter_nil, List.append_nil]
    · intro key
      rw [List.foldl_nil, find?_nil, settle_none_right]
  | cons entry rest ih =>
    obtain ⟨key, v⟩ := entry
    obtain ⟨hfresh, hrest⟩ := List.nodup_cons.mp hsecond
    obtain ⟨hkeys, hfind⟩ := ih hrest (supply replace first (key, v))
    rw [List.foldl_cons]
    constructor
    · rw [hkeys, keys_supply]
      have hcons : keys ((key, v) :: rest) = key :: keys rest := rfl
      rw [hcons, List.filter_cons]
      by_cases hkey : key ∈ keys first
      · simp only [hkey, if_true, not_true_eq_false, decide_false, Bool.false_eq_true, if_false]
      · -- The key is put at the end, and it does not come again.
        have hrest' : (keys rest).filter (· ∉ keys first ++ [key]) =
            (keys rest).filter (· ∉ keys first) := by
          apply List.filter_congr
          intro other hother
          have hne : other ≠ key := fun heq => hfresh (heq ▸ hother)
          simp [hne]
        simp only [hkey, if_false, not_false_eq_true, decide_true, if_true, hrest',
          List.append_assoc, List.singleton_append]
    · intro other
      rw [hfind, find?_supply, find?]
      by_cases hkey : key = other
      · subst hkey
        rw [find?_eq_none_iff.mpr hfresh, settle_none_right, if_pos rfl]
      · rw [if_neg hkey, if_neg hkey, settle_none_right]

theorem isMerge_mergeEntries (hfirst : Distinct first) (hsecond : Distinct second) :
    IsMerge replace first second (mergeEntries replace second first) := by
  rw [mergeEntries_eq_foldl, ofList_of_distinct hfirst]
  exact isMerge_foldl_supply hsecond first

theorem IsMerge.distinct (h : IsMerge replace first second out) (hfirst : Distinct first)
    (hsecond : Distinct second) : Distinct out := by
  unfold Distinct
  rw [h.keys_eq]
  refine List.nodup_append.mpr ⟨hfirst, List.Nodup.filter _ hsecond, ?_⟩
  rintro key hkey _ hother rfl
  simp [hkey] at hother

/-- Two maps merge into one map only. -/
theorem IsMerge.unique {other : Entries String Value} (hfirst : Distinct first)
    (hsecond : Distinct second) (hout : IsMerge replace first second out)
    (hother : IsMerge replace first second other) : out = other := by
  apply ext_find? (hout.distinct hfirst hsecond)
  · rw [hout.keys_eq, hother.keys_eq]
  · intro key
    rw [hout.find?_eq, hother.find?_eq]

theorem isMerge_nil_left (second : Entries String Value) : IsMerge replace [] second second where
  keys_eq := by simp [keys]
  find?_eq key := by simp [settle]

theorem isMerge_nil_right (first : Entries String Value) : IsMerge replace first [] first where
  keys_eq := by simp [keys]
  find?_eq key := by rw [find?_nil, settle_none_right]

end Entries

open Entries (Distinct IsMerge)

/-! ## Union and merge -/

section Merging

variable [Host] {w : World} {as bs : List Value} {first second : Entries String Value}

/-- A copy that is one level deep has the same entries. -/
theorem yields_copyValue_map (h : Distinct first) :
    (copyValue 1 (.map first)).Yields w (.map first) := by
  have hentries : Copied w (copyValue 0) (namedEntries first) (namedEntries first) :=
    List.forall₂_same.mpr fun _ _ => ⟨rfl, Eval.yields_pure _⟩
  have hcopy := (Value.HasEntries.map h).yields_copyValue (fun _ => nofun) hentries
  have hrefilled : (Value.map first).refill (namedEntries first) = .map first := by
    rw [Value.refill, namedEntries, List.map_map]
    exact congrArg Value.map (List.map_id first)
  rwa [hrefilled] at hcopy

/-- Merging arrays adds the first occurrences of what the first one lacks. -/
theorem yields_mergeValues_array (has : ∀ v ∈ as, w.IsData v) (hbs : ∀ v ∈ bs, w.IsData v)
    (replace : Bool) : (mergeValues (.array as) (.array bs) replace).Yields w
      (.array (as ++ Value.firstOccurrences as bs)) := by
  have hadded := yields_addMissing hbs (fun v hv => has v (List.mem_reverse.mp hv))
    fun v => Value.isAmong_reverse v as
  have helements : (elementsOf? (.array bs)).Yields w (some bs) := by
    rw [(Value.Represents.array bs).elementsOf?_eq]
    exact Eval.yields_pure _
  have hout : as ++ Value.firstOccurrences as bs =
      ((Value.firstOccurrences as bs).reverse ++ as.reverse).reverse := by
    rw [← List.reverse_append, List.reverse_reverse]
  rw [hout]
  exact Eval.yields_bind helements (Eval.yields_bind hadded (Eval.yields_pure _))

/-- The union of maps is what they merge into without replacing, also where it is one of them as
it came. -/
theorem yields_unionOf_map {out : Entries String Value} (hfirst : Distinct first)
    (hsecond : Distinct second) (hout : IsMerge false first second out) :
    (unionOf (.map first) (.map second)).Yields w (.map out) := by
  have hempty := yields_isEmptySet_map (w := w)
  cases first with
  | nil =>
    obtain rfl := hout.unique hfirst hsecond (Entries.isMerge_nil_left second)
    exact Eval.yields_bind (hempty []) (Eval.yields_pure _)
  | cons entry rest =>
    cases second with
    | nil =>
      obtain rfl := hout.unique hfirst hsecond (Entries.isMerge_nil_right (entry :: rest))
      exact Eval.yields_bind (hempty (entry :: rest)) (Eval.yields_bind (hempty [])
        (Eval.yields_pure _))
    | cons entry' rest' =>
      obtain rfl := hout.unique hfirst hsecond (Entries.isMerge_mergeEntries hfirst hsecond)
      exact Eval.yields_bind (hempty (entry :: rest)) (Eval.yields_bind (hempty (entry' :: rest'))
        (Eval.yields_bind (yields_kind _) (Eval.yields_bind (yields_copyValue_map hfirst)
          (Eval.yields_pure _))))

/-! ## Where they agree -/

theorem yields_unionOf_array (has : ∀ v ∈ as, w.IsData v) (hbs : ∀ v ∈ bs, w.IsData v) :
    (unionOf (.array as) (.array bs)).Yields w (.array (Value.unite as bs)) := by
  obtain ⟨r, hr, hunion, hmembers⟩ :=
    yields_unionOf (.array as) (.sequence (.array bs)) has hbs
  obtain ⟨items, rfl⟩ : ∃ items, r = .array items := by
    simp only [List.mem_cons, List.not_mem_nil, or_false] at hr
    rcases hr with rfl | rfl | rfl <;> exact ⟨_, rfl⟩
  rw [hmembers.eq_of_array]
  exact hunion

/-- **Union and merge agree but for repetitions after an empty array.** On maps both give what
the two merge into without replacing. On arrays merging adds to the first one, in order, what it
lacks and what does not come earlier in the second one; so does the union, unless the first array
is empty and the second one has elements that tie, for then it is the second one. -/
theorem union_merge_agree_iff (hdata : ∀ v ∈ as ++ bs, w.IsData v) (hfirst : Distinct first)
    (hsecond : Distinct second) :
    let merged : Value := .array (as ++ Value.firstOccurrences as bs)
    ((Builtin.merge.apply [.array as, .array bs, .boolean false]).Yields w merged ∧
      ((Builtin.union.apply [.array as, .array bs]).Yields w merged ↔
        (as = [] → bs.Pairwise fun u v => u.order v ≠ .eq)) ∧
      (as = [] → (Builtin.union.apply [.array as, .array bs]).Yields w (.array bs))) ∧
    ∃ out, IsMerge false first second out ∧
      (Builtin.merge.apply [.map first, .map second, .boolean false]).Yields w (.map out) ∧
      (Builtin.union.apply [.map first, .map second]).Yields w (.map out) := by
  intro merged
  have has (v : Value) (hv : v ∈ as) : w.IsData v := hdata v (List.mem_append_left bs hv)
  have hbs (v : Value) (hv : v ∈ bs) : w.IsData v := hdata v (List.mem_append_right as hv)
  have hunion : (Builtin.union.apply [.array as, .array bs]).Yields w
      (.array (Value.unite as bs)) :=
    yields_apply (n := 2) rfl (by decide) (yields_unionOf_array has hbs)
  refine ⟨⟨?_, ?_, ?_⟩, ?_⟩
  · exact yields_apply (n := 3) rfl (by decide) (yields_mergeValues_array has hbs false)
  · rw [← Value.unite_eq_append_iff]
    constructor
    · intro hmerged
      exact Value.array.inj (hunion.unique hmerged)
    · intro heq
      rw [heq] at hunion
      exact hunion
  · rintro rfl
    exact hunion
  · have hmerge : IsMerge false first second (mergeEntries false second first) :=
      Entries.isMerge_mergeEntries hfirst hsecond
    refine ⟨_, hmerge, ?_, ?_⟩
    · exact yields_apply (n := 3) rfl (by decide) (Eval.yields_pure _)
    · exact yields_apply (n := 2) rfl (by decide) (yields_unionOf_map hfirst hsecond hmerge)

end Merging

/-- Arrays that share a number, and maps where the first one has something undefined. -/
theorem union_merge_agree_iff_filled :
    let as : List Value := [.integer 1]
    let bs : List Value := [.integer 1, .string "two", .string "two"]
    let first : Entries String Value := [("a", .undefined), ("b", .integer 1)]
    let second : Entries String Value := [("b", .integer 2), ("c", .integer 3), ("a", .integer 4)]
    let merged : Entries String Value := [("a", .integer 4), ("b", .integer 1), ("c", .integer 3)]
    letI := Script.hostWithin 0
    ((∀ v ∈ as ++ bs, ({} : World).IsData v) ∧ Distinct first ∧ Distinct second) ∧
    (Builtin.merge.apply [.array as, .array bs, .boolean false]).Yields {}
      (.array [.integer 1, .string "two"]) ∧
    (Builtin.union.apply [.array as, .array bs]).Yields {} (.array [.integer 1, .string "two"]) ∧
    (Builtin.merge.apply [.map first, .map second, .boolean false]).Yields {} (.map merged) ∧
    (Builtin.union.apply [.map first, .map second]).Yields {} (.map merged) := by
  intro as bs first second merged
  let _ := Script.hostWithin 0
  have hdata : ∀ v ∈ as ++ bs, ({} : World).IsData v := by
    intro v hv
    simp only [as, bs, List.cons_append, List.nil_append, List.mem_cons, List.not_mem_nil,
      or_false] at hv
    rcases hv with rfl | rfl | rfl | rfl <;> exact .atom trivial
  have hfirst : Distinct first := show (Entries.keys first).Nodup by decide
  have hsecond : Distinct second := show (Entries.keys second).Nodup by decide
  obtain ⟨⟨hmerge, hunion, -⟩, out, hout, hmergeMap, hunionMap⟩ :=
    union_merge_agree_iff hdata hfirst hsecond
  have hadded : as ++ Value.firstOccurrences as bs = [.integer 1, .string "two"] := by
    have hamong : (Value.integer 1).isAmong [.integer 1] = true ∧
        (Value.string "two").isAmong [.integer 1, .integer 1] = false ∧
        (Value.string "two").isAmong [.string "two", .integer 1, .integer 1] = true := by
      decide +kernel
    simp [as, bs, Value.firstOccurrences, hamong]
  have hmerged : out = merged := by
    refine hout.unique hfirst hsecond ⟨by decide, fun key => ?_⟩
    by_cases ha : "a" = key
    · subst ha
      rfl
    · by_cases hb : "b" = key
      · subst hb
        rfl
      · by_cases hc : "c" = key
        · subst hc
          rfl
        · simp [first, second, merged, Entries.find?, Entries.settle, ha, hb, hc]
  have hnonempty : as = [] → bs.Pairwise fun u v => u.order v ≠ .eq :=
    fun h => absurd h (List.cons_ne_nil _ _)
  rw [hadded] at hmerge hunion
  rw [hmerged] at hmergeMap hunionMap
  exact ⟨⟨hdata, hfirst, hsecond⟩, hmerge, hunion.mpr hnonempty, hmergeMap, hunionMap⟩

/-- A number that comes twice stays twice after nothing, where merging has it once. -/
theorem union_keeps_repetitions :
    let twice : Value := .array [.integer 1, .integer 1]
    letI := Script.hostWithin 0
    (Builtin.union.apply [.array [], twice]).Yields {} twice ∧
    (Builtin.merge.apply [.array [], twice, .boolean false]).Yields {} (.array [.integer 1]) := by
  intro twice
  let _ := Script.hostWithin 0
  have hones : ∀ v ∈ [Value.integer 1, .integer 1], ({} : World).IsData v := by
    intro v hv
    simp only [List.mem_cons, List.not_mem_nil, or_false, or_self] at hv
    exact hv ▸ .atom trivial
  have hnone : ∀ v ∈ ([] : List Value), ({} : World).IsData v := by simp
  have hadded : Value.firstOccurrences [] [.integer 1, .integer 1] = [.integer 1] := by
    have hamong : (Value.integer 1).isAmong [.integer 1] = true := by decide +kernel
    simp [Value.firstOccurrences, hamong]
  constructor
  · exact yields_apply (n := 2) rfl (by decide) (yields_unionOf_array hnone hones)
  · have hmerge := yields_mergeValues_array hnone hones false
    rw [hadded] at hmerge
    exact yields_apply (n := 3) rfl (by decide) hmerge

end DynamicObjects
