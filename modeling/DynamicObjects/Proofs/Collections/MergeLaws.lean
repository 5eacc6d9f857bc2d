import DynamicObjects.Proofs.Collections.Merging

/-!
# Laws of union and merge

Union is associative and merging is idempotent, on lists and on maps. On lists both come from
what first occurrences do: of two lists in a row, those of the second are counted against both,
and what has been counted once adds nothing the second time. On maps both come from what settles
at a single key. The keys of a merge do not depend on what is defined, only its values do.

* `Value.unite_assoc`, `Entries.IsMerge.assoc`: the two laws of union on lists and entries.
* `union_associative`: three operands join to the same value from either side.
* `merge_laws`: what merging gives, and that merging again gives it again.
-/

namespace DynamicObjects

/-! ## First occurrences -/

namespace Value

variable {v : Value} {seen known values others : List Value}

theorem isAmong_of_mem (h : v ∈ values) : v.isAmong values = true :=
  isAmong_iff.mpr (List.mem_map_of_mem h)

/-- What counts as seen is only what ties with it. -/
theorem firstOccurrences_congr (h : ∀ v : Value, v.isAmong seen = v.isAmong known)
    (values : List Value) : firstOccurrences seen values = firstOccurrences known values := by
  induction values generalizing seen known with
  | nil => rfl
  | cons v rest ih =>
    have hrest : firstOccurrences (v :: seen) rest = firstOccurrences (v :: known) rest :=
      ih fun u => by rw [isAmong_cons, isAmong_cons, h u]
    rw [firstOccurrences, firstOccurrences, h v, hrest]

/-- Of two lists in a row, the second one is counted after the first. -/
theorem firstOccurrences_append (seen values others : List Value) :
    firstOccurrences seen (values ++ others) =
      firstOccurrences seen values ++ firstOccurrences (seen ++ values) others := by
  induction values generalizing seen with
  | nil => rw [List.append_nil]; rfl
  | cons v rest ih =>
    have hseen : firstOccurrences (v :: seen ++ rest) others =
        firstOccurrences (seen ++ v :: rest) others := by
      apply firstOccurrences_congr
      intro u
      simp only [List.cons_append, isAmong_cons, isAmong_append]
      rw [← Bool.or_assoc, ← Bool.or_assoc, Bool.or_comm (v.order u == .eq)]
    rw [List.cons_append, firstOccurrences, firstOccurrences, ih, hseen]
    split
    · rfl
    · rfl

/-- What has been left out as seen would be left out again. -/
theorem firstOccurrences_firstOccurrences
    (h : ∀ v : Value, v.isAmong known = true → v.isAmong seen = true) :
    firstOccurrences seen (firstOccurrences known values) = firstOccurrences seen values := by
  induction values generalizing seen known with
  | nil => rfl
  | cons v rest ih =>
    have hcons : ∀ u : Value, u.isAmong (v :: known) = true → u.isAmong (v :: seen) = true := by
      intro u hu
      rw [isAmong_cons, Bool.or_eq_true] at hu ⊢
      exact hu.imp_right (h u)
    rw [firstOccurrences]
    split
    · -- The first pass has left the value out, and it is no news to the second one.
      rename_i hknown
      have hseen := h v hknown
      have hsame : firstOccurrences (v :: seen) rest = firstOccurrences seen rest :=
        firstOccurrences_congr (isAmong_cons_of_isAmong hseen) rest
      rw [firstOccurrences, if_pos hseen, hsame]
      refine ih fun u hu => ?_
      rw [isAmong_cons_of_isAmong hknown] at hu
      exact h u hu
    · rw [firstOccurrences, firstOccurrences, ih hcons]

theorem firstOccurrences_eq_nil (h : ∀ v ∈ values, v.isAmong seen = true) :
    firstOccurrences seen values = [] := by
  induction values generalizing seen with
  | nil => rfl
  | cons v rest ih =>
    obtain ⟨hv, hrest⟩ := List.forall_mem_cons.mp h
    rw [firstOccurrences, if_pos hv]
    refine ih fun u hu => ?_
    rw [isAmong_cons, hrest u hu, Bool.or_true]

/-- A first occurrence ties with nothing seen and with none of those before it. -/
theorem isAmong_of_firstOccurrences_eq {before after : List Value}
    (h : firstOccurrences seen values = before ++ v :: after) :
    v.isAmong (seen ++ before) = false := by
  induction values generalizing seen before with
  | nil => simp [firstOccurrences] at h
  | cons u rest ih =>
    rw [firstOccurrences] at h
    split at h
    · have hrest := ih h
      rw [List.cons_append, isAmong_cons, Bool.or_eq_false_iff] at hrest
      exact hrest.2
    · rename_i hfresh
      cases before with
      | nil =>
        obtain ⟨rfl, -⟩ := List.cons.inj h
        rw [List.append_nil]
        exact Bool.eq_false_iff.mpr hfresh
      | cons first before =>
        obtain ⟨rfl, htail⟩ := List.cons.inj h
        have hrest := ih htail
        simp only [List.cons_append, isAmong_cons, isAmong_append, Bool.or_eq_false_iff] at hrest ⊢
        exact ⟨hrest.2.1, hrest.1, hrest.2.2⟩

theorem unite_assoc (as bs cs : List Value) :
    unite (unite as bs) cs = unite as (unite bs cs) := by
  cases as with
  | nil => rfl
  | cons a as =>
    cases bs with
    | nil =>
      -- An empty list in the middle leaves the third one whole, and the first one thins it out.
      simp [unite, firstOccurrences]
    | cons b bs =>
      have hjoined : firstOccurrences (a :: as ++ firstOccurrences (a :: as) (b :: bs)) cs =
          firstOccurrences (a :: as ++ b :: bs) cs := by
        apply firstOccurrences_congr
        intro v
        rw [isAmong_append_firstOccurrences, isAmong_append]
      have hlater : firstOccurrences (a :: as ++ b :: bs) (firstOccurrences (b :: bs) cs) =
          firstOccurrences (a :: as ++ b :: bs) cs := by
        apply firstOccurrences_firstOccurrences
        intro v hv
        rw [isAmong_append, hv, Bool.or_true]
      calc unite (unite (a :: as) (b :: bs)) cs
          = a :: as ++ firstOccurrences (a :: as) (b :: bs) ++
              firstOccurrences (a :: as ++ firstOccurrences (a :: as) (b :: bs)) cs := rfl
        _ = a :: as ++ (firstOccurrences (a :: as) (b :: bs) ++
              firstOccurrences (a :: as ++ b :: bs) (firstOccurrences (b :: bs) cs)) := by
            rw [hjoined, hlater, List.append_assoc]
        _ = unite (a :: as) (unite (b :: bs) cs) := by
            rw [← firstOccurrences_append]
            rfl

/-- Nothing is added twice. -/
theorem firstOccurrences_again (as bs : List Value) :
    firstOccurrences (as ++ firstOccurrences as bs) bs = [] := by
  apply firstOccurrences_eq_nil
  intro v hv
  rw [isAmong_append_firstOccurrences, isAmong_of_mem hv, Bool.or_true]

end Value

/-! ## Merged maps -/

namespace Entries

variable {replace : Bool} {first second third out : Entries String Value}

theorem settle_of_defined {x : Option Value} (h : x.any Value.isDefined = true)
    (y : Option Value) : settle false x y = x := by
  simp [settle, h]

theorem settle_of_undefined {x : Option Value} (h : x.any Value.isDefined = false)
    (y : Option Value) : settle replace x y = y.or x := by
  simp [settle, h]

theorem settle_true (x y : Option Value) : settle true x y = y.or x := rfl

/-- Where anything is there, something is there afterwards. -/
theorem settle_some_or (v : Value) (y z : Option Value) :
    (settle replace (some v) y).or z = settle replace (some v) y := by
  unfold settle
  split
  · rfl
  · cases y <;> rfl

theorem settle_assoc (x y z : Option Value) :
    settle replace (settle replace x y) z = settle replace x (settle replace y z) := by
  cases replace with
  | true => rw [settle_true, settle_true, settle_true, settle_true, Option.or_assoc]
  | false =>
    cases hx : x.any Value.isDefined with
    | true => rw [settle_of_defined hx, settle_of_defined hx, settle_of_defined hx]
    | false =>
      rw [settle_of_undefined hx, settle_of_undefined hx]
      -- Nothing defined is kept on the left, so what is settled on the right goes first.
      cases y with
      | none =>
        have hnone : (none : Option Value).any Value.isDefined = false := rfl
        rw [settle_of_undefined hnone, Option.none_or, Option.or_none, settle_of_undefined hx]
      | some v => rw [Option.some_or, settle_some_or]

theorem settle_again (x y : Option Value) :
    settle replace (settle replace x y) y = settle replace x y := by
  have hself : settle replace y y = y := by
    unfold settle
    split
    · rfl
    · exact Option.or_self
  rw [settle_assoc, hself]

/-- What a third map merges into two merged ones to is what two merged ones merge into the first
one to. -/
theorem IsMerge.assoc {front back : Entries String Value}
    (hfront : IsMerge replace first second front) (hback : IsMerge replace second third back)
    (hout : IsMerge replace front third out) : IsMerge replace first back out where
  keys_eq := by
    have hthird : (keys third).filter (· ∉ keys front) =
        ((keys third).filter (· ∉ keys second)).filter (· ∉ keys first) := by
      rw [List.filter_filter]
      apply List.filter_congr
      intro key _
      rw [hfront.keys_eq]
      by_cases hkey : key ∈ keys first <;> simp [hkey]
    rw [hout.keys_eq, hthird, hfront.keys_eq, hback.keys_eq, List.filter_append, List.append_assoc]
  find?_eq key := by
    rw [hout.find?_eq, hfront.find?_eq, hback.find?_eq, settle_assoc]

/-- What has been merged in is merged in again without a change. -/
theorem IsMerge.again (h : IsMerge replace first second out) : IsMerge replace out second out where
  keys_eq := by
    have hnone : (keys second).filter (· ∉ keys out) = [] := by
      apply List.filter_eq_nil_iff.mpr
      intro key hkey
      rw [h.keys_eq]
      by_cases hmem : key ∈ keys first <;> simp [hkey, hmem]
    rw [hnone, List.append_nil]
  find?_eq key := by
    rw [h.find?_eq, settle_again]

end Entries

open Entries (Distinct IsMerge)

/-! ## Kinds that do not fit -/

section Mismatches

variable {w : World}

/-- Kinds that do not merge: an array and no list, a map and no map, or a first value that is
neither of them. -/
inductive Mismatched (w : World) : Value → Value → Prop
  | array {items : List Value} {b : Value} (h : (w.kind b).isListLike = false) :
      Mismatched w (.array items) b
  | map {entries : List (String × Value)} {b : Value} (h : ∀ other, b ≠ .map other) :
      Mismatched w (.map entries) b
  | other {a b : Value} (harray : ∀ items, a ≠ .array items) (hmap : ∀ entries, a ≠ .map entries) :
      Mismatched w a b

/-- A value comes back at once, after nothing but reports of errors. -/
def ComesBack (x : Eval Value) (scope : Scope) (w : World) (v : Value) : Prop :=
  ∃ reports : Array Diagnostic, (∀ note ∈ reports, note.level = .error) ∧
    x scope w = .done v { w with diagnostics := w.diagnostics ++ reports }

theorem comesBack_pure (v : Value) (scope : Scope) : ComesBack (pure v) scope w v :=
  ⟨#[], by simp, by rw [Array.append_empty]; rfl⟩

theorem comesBack_reportUnsupported (operation : Builtin) (v fallback : Value) (scope : Scope) :
    ComesBack (reportUnsupported operation v fallback) scope w fallback := by
  unfold ComesBack reportUnsupported
  rw [Eval.bind_apply, Eval.report_apply]
  cases scope.recording with
  | false => exact comesBack_pure fallback scope
  | true => exact ⟨#[⟨.error, _⟩], by simp, by rw [Array.append_singleton]; rfl⟩

end Mismatches

/-! ## Union is associative -/

section Laws

variable [Host] {w : World} {as bs cs : List Value} {first second third : Entries String Value}

/-- Three values joined, the first two of them first. -/
def joinFront (a b c : Value) : Eval Value := do
  Builtin.union.apply [← Builtin.union.apply [a, b], c]

/-- Three values joined, the last two of them first. -/
def joinBack (a b c : Value) : Eval Value := do
  Builtin.union.apply [a, ← Builtin.union.apply [b, c]]

theorem yields_join_array (has : ∀ v ∈ as, w.IsData v) (hbs : ∀ v ∈ bs, w.IsData v)
    (hcs : ∀ v ∈ cs, w.IsData v) :
    ∃ out, (joinFront (.array as) (.array bs) (.array cs)).Yields w (.array out) ∧
      (joinBack (.array as) (.array bs) (.array cs)).Yields w (.array out) := by
  have hfront : ∀ v ∈ Value.unite as bs, w.IsData v :=
    fun v hv => (Value.mem_of_mem_unite hv).elim (has v) (hbs v)
  have hback : ∀ v ∈ Value.unite bs cs, w.IsData v :=
    fun v hv => (Value.mem_of_mem_unite hv).elim (hbs v) (hcs v)
  have hunion {us vs : List Value} (hus : ∀ v ∈ us, w.IsData v) (hvs : ∀ v ∈ vs, w.IsData v) :
      (Builtin.union.apply [.array us, .array vs]).Yields w (.array (Value.unite us vs)) :=
    yields_apply (n := 2) rfl (by decide) (yields_unionOf_array hus hvs)
  have hbackward : (joinBack (.array as) (.array bs) (.array cs)).Yields w
      (.array (Value.unite as (Value.unite bs cs))) :=
    Eval.yields_bind (hunion hbs hcs) (hunion has hback)
  rw [← Value.unite_assoc] at hbackward
  exact ⟨_, Eval.yields_bind (hunion has hbs) (hunion hfront hcs), hbackward⟩

theorem yields_join_map (hfirst : Distinct first) (hsecond : Distinct second)
    (hthird : Distinct third) :
    ∃ out, (joinFront (.map first) (.map second) (.map third)).Yields w (.map out) ∧
      (joinBack (.map first) (.map second) (.map third)).Yields w (.map out) := by
  have hmerge {front back : Entries String Value} (hfront : Distinct front)
      (hback : Distinct back) : ∃ out, IsMerge false front back out :=
    ⟨_, Entries.isMerge_mergeEntries hfront hback⟩
  have hunion {front back out : Entries String Value} (hfront : Distinct front)
      (hback : Distinct back) (hout : IsMerge false front back out) :
      (Builtin.union.apply [.map front, .map back]).Yields w (.map out) :=
    yields_apply (n := 2) rfl (by decide) (yields_unionOf_map hfront hback hout)
  obtain ⟨front, hfront⟩ := hmerge hfirst hsecond
  obtain ⟨back, hback⟩ := hmerge hsecond hthird
  have hdistinct : Distinct front := hfront.distinct hfirst hsecond
  obtain ⟨out, hout⟩ := hmerge hdistinct hthird
  exact ⟨out, Eval.yields_bind (hunion hfirst hsecond hfront) (hunion hdistinct hthird hout),
    Eval.yields_bind (hunion hsecond hthird hback)
      (hunion hfirst (hback.distinct hsecond hthird) (hfront.assoc hback hout))⟩

/-- **Union is associative.** Three arrays join to one array, element by element, and three maps
to one map, entry by entry, whichever two of them are joined first. -/
theorem union_associative (hdata : ∀ v ∈ as ++ bs ++ cs, w.IsData v) (hfirst : Distinct first)
    (hsecond : Distinct second) (hthird : Distinct third) :
    (∃ out, (joinFront (.array as) (.array bs) (.array cs)).Yields w (.array out) ∧
      (joinBack (.array as) (.array bs) (.array cs)).Yields w (.array out)) ∧
    ∃ out, (joinFront (.map first) (.map second) (.map third)).Yields w (.map out) ∧
      (joinBack (.map first) (.map second) (.map third)).Yields w (.map out) := by
  rw [List.forall_mem_append, List.forall_mem_append] at hdata
  obtain ⟨⟨has, hbs⟩, hcs⟩ := hdata
  exact ⟨yields_join_array has hbs hcs, yields_join_map hfirst hsecond hthird⟩

end Laws

/-- Repeated numbers after nothing, a float that ties with them, and an undefined entry that is
filled from the third map. -/
theorem union_associative_filled :
    let as : List Value := []
    let bs : List Value := [.integer 1, .integer 1]
    let cs : List Value := [.float ⟨0x3FF0000000000000⟩, .string "a"]
    let first : Entries String Value := [("a", .undefined), ("b", .integer 1)]
    let second : Entries String Value := []
    let third : Entries String Value := [("c", .integer 3), ("a", .integer 4)]
    letI := Script.hostWithin 0
    ((∀ v ∈ as ++ bs ++ cs, ({} : World).IsData v) ∧ Distinct first ∧ Distinct second ∧
      Distinct third) ∧
    (∃ out, (joinFront (.array as) (.array bs) (.array cs)).Yields {} (.array out) ∧
      (joinBack (.array as) (.array bs) (.array cs)).Yields {} (.array out)) ∧
    ∃ out, (joinFront (.map first) (.map second) (.map third)).Yields {} (.map out) ∧
      (joinBack (.map first) (.map second) (.map third)).Yields {} (.map out) := by
  intro as bs cs first second third
  let _ := Script.hostWithin 0
  have hdata : ∀ v ∈ as ++ bs ++ cs, ({} : World).IsData v := by
    intro v hv
    simp only [as, bs, cs, List.cons_append, List.nil_append, List.mem_cons, List.not_mem_nil,
      or_false] at hv
    rcases hv with rfl | rfl | rfl | rfl <;> exact .atom trivial
  have hfirst : Distinct first := show (Entries.keys first).Nodup by decide
  have hsecond : Distinct second := List.nodup_nil
  have hthird : Distinct third := show (Entries.keys third).Nodup by decide
  exact ⟨⟨hdata, hfirst, hsecond, hthird⟩, union_associative hdata hfirst hsecond hthird⟩

/-! ## What merging gives -/

section Merging

variable [Host] {w : World} {a b : Value} {as bs : List Value}
  {first second : Entries String Value}

theorem apply_merge (a b : Value) {flags : List Value} (hflags : flags.length ≤ 1) :
    Builtin.merge.apply (a :: b :: flags) = mergeValues a b (argumentAt flags 0).isTruthy := by
  have hfewest : Builtin.merge.fewest = 2 := rfl
  have hmost : Builtin.merge.most = 3 := rfl
  have hreplace : (argumentAt flags 0).isTruthy = flagAt (a :: b :: flags) 2 := by
    rw [flagAt_eq_isTruthy]
    rfl
  rw [hreplace, Builtin.apply_eq_run]
  · rfl
  · rw [List.length_cons, List.length_cons]
    omega

/-- What a second list has to add to a first one: a part of it, in its order, where nothing equals
what comes before it, and without which something would be lacking. -/
structure Supplies (w : World) (as bs added : List Value) : Prop where
  sublist : added.Sublist bs
  fresh : ∀ before v after, added = before ++ v :: after →
    ∀ u ∈ as ++ before, (v.equals u).Yields w false
  covers : ∀ v ∈ bs, ∃ u ∈ as ++ added, (v.equals u).Yields w true

section Arrays

variable (has : ∀ v ∈ as, w.IsData v) (hbs : ∀ v ∈ bs, w.IsData v)
include has hbs

omit [Host] in
theorem isData_append_firstOccurrences :
    ∀ v ∈ as ++ Value.firstOccurrences as bs, w.IsData v := by
  intro v hv
  rcases List.mem_append.mp hv with hv | hv
  · exact has v hv
  · exact hbs v ((Value.firstOccurrences_sublist as bs).subset hv)

theorem supplies_firstOccurrences : Supplies w as bs (Value.firstOccurrences as bs) where
  sublist := Value.firstOccurrences_sublist as bs
  fresh := by
    intro before v after hadded
    have hall := isData_append_firstOccurrences has hbs
    rw [hadded, ← List.append_assoc, List.forall_mem_append, List.forall_mem_cons] at hall
    obtain ⟨hbefore, hv, -⟩ := hall
    exact yields_equals_of_not_isAmong hv hbefore (Value.isAmong_of_firstOccurrences_eq hadded)
  covers := by
    intro v hv
    refine exists_yields_equals_of_isAmong (hbs v hv) (isData_append_firstOccurrences has hbs) ?_
    rw [Value.isAmong_append_firstOccurrences, Value.isAmong_of_mem hv, Bool.or_true]

theorem yields_mergeValues_array_again (hb : b.Represents bs) (replace : Bool) :
    ∃ added, Supplies w as bs added ∧
      (mergeValues (.array as) b replace).Yields w (.array (as ++ added)) ∧
      (do mergeValues (← mergeValues (.array as) b replace) b replace).Yields w
        (.array (as ++ added)) := by
  have hmerged {items : List Value} (hitems : ∀ v ∈ items, w.IsData v) :
      (mergeValues (.array items) b replace).Yields w
        (.array (items ++ Value.firstOccurrences items bs)) := by
    have hmap : ∀ entries, Value.array items ≠ .map entries := fun _ => nofun
    rw [hb.mergeValues_eq hmap]
    exact yields_mergeValues_array hitems hbs replace
  have hagain := hmerged (isData_append_firstOccurrences has hbs)
  rw [Value.firstOccurrences_again, List.append_nil] at hagain
  exact ⟨_, supplies_firstOccurrences has hbs, hmerged has, Eval.yields_bind (hmerged has) hagain⟩

end Arrays

theorem yields_mergeValues_map_again (hfirst : Distinct first) (hsecond : Distinct second)
    (replace : Bool) :
    ∃ out, IsMerge replace first second out ∧
      (mergeValues (.map first) (.map second) replace).Yields w (.map out) ∧
      (do
        let merged ← mergeValues (.map first) (.map second) replace
        mergeValues merged (.map second) replace).Yields w (.map out) := by
  have hmerged (entries : Entries String Value) :
      (mergeValues (.map entries) (.map second) replace).Yields w
        (.map (mergeEntries replace second entries)) := Eval.yields_pure _
  have hout : IsMerge replace first second (mergeEntries replace second first) :=
    Entries.isMerge_mergeEntries hfirst hsecond
  have hdistinct := hout.distinct hfirst hsecond
  have hsame := (Entries.isMerge_mergeEntries hdistinct hsecond).unique hdistinct hsecond hout.again
  have hagain := hmerged (mergeEntries replace second first)
  rw [hsame] at hagain
  exact ⟨_, hout, hmerged first, Eval.yields_bind (hmerged first) hagain⟩

theorem comesBack_mergeValues (h : Mismatched w a b) (replace : Bool) (scope : Scope) :
    ComesBack (mergeValues a b replace) scope w a := by
  cases h with
  | @array items _ hlist =>
    have hnone : elementsOf? b scope w = .done none w := by
      have hkind : b.kind scope w = .done (w.kind b) w := Eval.reads_apply _ _ _
      rw [elementsOf?, Eval.bind_of_done hkind, hlist]
      rfl
    have hreports : mergeValues (.array items) b replace scope w =
        reportUnsupported .merge b (.array items) scope w := by
      change (elementsOf? b >>= _) scope w = _
      rw [Eval.bind_of_done hnone]
    rw [ComesBack, hreports]
    exact comesBack_reportUnsupported .merge b (.array items) scope
  | @map entries _ hmap =>
    have hreports : mergeValues (.map entries) b replace =
        reportUnsupported .merge b (.map entries) := by
      cases b with
      | map other => exact absurd rfl (hmap other)
      | _ => rfl
    rw [hreports]
    exact comesBack_reportUnsupported .merge b (.map entries) scope
  | other harray hmap =>
    have hreports : mergeValues a b replace =
        if a.isTruthy then reportUnsupported .merge a a else pure a := by
      cases a with
      | array items => exact absurd rfl (harray items)
      | map entries => exact absurd rfl (hmap entries)
      | _ => rfl
    rw [hreports]
    split
    · exact comesBack_reportUnsupported .merge a a scope
    · exact comesBack_pure a scope

/-- **Merging.** Maps merge key by key, as the flag says; an array is followed by what a sequence
has to add to it; and what has been merged in is merged in again without a change. Kinds that do
not fit are reported, and the first value comes back. -/
theorem merge_laws {flags : List Value} (hflags : flags.length ≤ 1) (hfirst : Distinct first)
    (hsecond : Distinct second) (hb : b.Represents bs) (hdata : ∀ v ∈ as ++ bs, w.IsData v) :
    let merge (x y : Value) := Builtin.merge.apply (x :: y :: flags)
    (∃ out, IsMerge (argumentAt flags 0).isTruthy first second out ∧
      (merge (.map first) (.map second)).Yields w (.map out) ∧
      (do merge (← merge (.map first) (.map second)) (.map second)).Yields w (.map out)) ∧
    (∃ added, Supplies w as bs added ∧
      (merge (.array as) b).Yields w (.array (as ++ added)) ∧
      (do merge (← merge (.array as) b) b).Yields w (.array (as ++ added))) ∧
    ∀ x y, Mismatched w x y → ∀ scope, ComesBack (merge x y) scope w x := by
  intro merge
  have hmerge (x y : Value) : merge x y = mergeValues x y (argumentAt flags 0).isTruthy :=
    apply_merge x y hflags
  simp only [hmerge]
  rw [List.forall_mem_append] at hdata
  exact ⟨yields_mergeValues_map_again hfirst hsecond _,
    yields_mergeValues_array_again hdata.1 hdata.2 hb _,
    fun x y h scope => comesBack_mergeValues h _ scope⟩

end Merging

/-- Maps where the second one replaces what the first has defined, a typed array with repetitions
after an array, and a map after an array. -/
theorem merge_laws_replacing :
    let as : List Value := [.integer 1]
    let bs : List Value := [.integer 2, .integer 2, .integer 1]
    let b : Value := .typed (.int8 [2, 2, 1])
    let first : Entries String Value := [("a", .undefined), ("b", .integer 1)]
    let second : Entries String Value := [("b", .integer 2), ("c", .integer 3), ("a", .integer 4)]
    letI := Script.hostWithin 0
    let merge (x y : Value) := Builtin.merge.apply [x, y, .boolean true]
    (b.Represents bs ∧ (∀ v ∈ as ++ bs, ({} : World).IsData v) ∧ Distinct first ∧
      Distinct second ∧ Mismatched {} (.array as) (.map first)) ∧
    (∃ out, IsMerge true first second out ∧
      (merge (.map first) (.map second)).Yields {} (.map out) ∧
      (do merge (← merge (.map first) (.map second)) (.map second)).Yields {} (.map out)) ∧
    (∃ added, Supplies {} as bs added ∧
      (do merge (← merge (.array as) b) b).Yields {} (.array (as ++ added))) ∧
    ComesBack (merge (.array as) (.map first)) {} {} (.array as) := by
  intro as bs b first second
  let _ := Script.hostWithin 0
  intro merge
  have hb : b.Represents bs := .typed (.int8 [2, 2, 1])
  have hdata : ∀ v ∈ as ++ bs, ({} : World).IsData v := by
    intro v hv
    simp only [as, bs, List.cons_append, List.nil_append, List.mem_cons, List.not_mem_nil,
      or_false] at hv
    rcases hv with rfl | rfl | rfl | rfl <;> exact .atom trivial
  have hfirst : Distinct first := show (Entries.keys first).Nodup by decide
  have hsecond : Distinct second := show (Entries.keys second).Nodup by decide
  have hmismatched : Mismatched {} (.array as) (.map first) := .array rfl
  have hflags : [Value.boolean true].length ≤ 1 := le_rfl
  obtain ⟨hmaps, ⟨added, hadded, -, hagain⟩, hback⟩ :=
    merge_laws hflags hfirst hsecond hb hdata
  exact ⟨⟨hb, hdata, hfirst, hsecond, hmismatched⟩, hmaps, ⟨added, hadded, hagain⟩,
    hback _ _ hmismatched {}⟩

end DynamicObjects
