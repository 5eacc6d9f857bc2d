import DynamicObjects.Proofs.Collections.Representations

/-!
# Membership

Being equal in the order is an equivalence, so a value is among some values when its word is
one of theirs. Whether a list holds a value, which elements of one list another one has, and
whether a container holds a value are all questions of this kind. On data, union, difference
and intersection of lists are therefore what they are on sets of words, also where they give
back one of their operands as it came.

* `Value.isAmong`: being equal to one of some values.
* `set_membership`: what is in a union, a difference and an intersection.
-/

namespace DynamicObjects

/-! ## Among values -/

/-- Whether a value ties with one of some values. -/
def Value.isAmong (v : Value) (values : List Value) : Bool := values.any fun u => u.order v == .eq

namespace Value

variable {u v : Value} {values others : List Value}

theorem isAmong_iff : v.isAmong values = true ↔ v.spell ∈ values.map spell := by
  simp only [isAmong, List.any_eq_true, beq_iff_eq, order_eq_iff, List.mem_map]

@[simp] theorem isAmong_nil (v : Value) : v.isAmong [] = false := rfl

/-- Being equal in the order is the same from either side. -/
theorem order_beq_comm (u v : Value) : (u.order v == .eq) = (v.order u == .eq) := by
  rw [order_swap]
  cases v.order u <;> rfl

theorem isAmong_cons (v u : Value) (values : List Value) :
    v.isAmong (u :: values) = ((u.order v == .eq) || v.isAmong values) := rfl

@[simp] theorem isAmong_append (v : Value) (values others : List Value) :
    v.isAmong (values ++ others) = (v.isAmong values || v.isAmong others) := List.any_append

@[simp] theorem isAmong_reverse (v : Value) (values : List Value) :
    v.isAmong values.reverse = v.isAmong values := List.any_reverse

/-- Whether an entry has a value that ties. -/
def tiesAt (v : Value) (entry : Key × Value) : Bool := entry.2.order v == .eq

theorem isAmong_map_snd (v : Value) (entries : List (Key × Value)) :
    v.isAmong (entries.map Prod.snd) = (entries.find? v.tiesAt).isSome := by
  rw [isAmong, List.any_map, List.isSome_find?]
  rfl

/-- Being among values is tying with one of them, from the other side. -/
theorem isAmong_eq_any_tiesAt (values : List Value) (entry : Key × Value) :
    entry.2.isAmong values = values.any fun v => v.tiesAt entry := by
  simp only [isAmong, tiesAt, entry.2.order_beq_comm]

theorem isAmong_singleton (v : Value) (entry : Key × Value) :
    entry.2.isAmong [v] = v.tiesAt entry := by
  rw [isAmong_eq_any_tiesAt, List.any_cons, List.any_nil, Bool.or_false]

/-- Values that tie are among the same values. -/
theorem isAmong_congr (h : u.order v = .eq) (values : List Value) :
    u.isAmong values = v.isAmong values := by
  rw [Bool.eq_iff_iff, isAmong_iff, isAmong_iff, order_eq_iff.mp h]

/-- A question that values answer alike when they tie can be asked before looking among them. -/
theorem isAmong_filter {q : Value → Bool} (hq : ∀ u v : Value, u.order v = .eq → q u = q v)
    (v : Value) (values : List Value) :
    v.isAmong (values.filter q) = (v.isAmong values && q v) := by
  induction values with
  | nil => rfl
  | cons u rest ih =>
    by_cases htie : u.order v = .eq
    · have huv : q u = q v := hq u v htie
      cases hv : q v with
      | true => simp [huv, hv, isAmong_cons, htie]
      | false => simp [huv, hv, ih]
    · have htie' : (u.order v == .eq) = false := beq_eq_false_iff_ne.mpr htie
      cases hu : q u with
      | true => simp [hu, isAmong_cons, htie', ih]
      | false => simp [hu, isAmong_cons, htie', ih]

/-! ## First occurrences -/

/-- The values of a list that tie with none seen before and with none earlier in the list. -/
def firstOccurrences (seen : List Value) : List Value → List Value
  | [] => []
  | v :: rest =>
    if v.isAmong seen then firstOccurrences (v :: seen) rest
    else v :: firstOccurrences (v :: seen) rest

theorem firstOccurrences_sublist (seen values : List Value) :
    (firstOccurrences seen values).Sublist values := by
  induction values generalizing seen with
  | nil => exact .refl _
  | cons v rest ih =>
    rw [firstOccurrences]
    split
    · exact (ih _).cons v
    · exact (ih _).cons_cons v

/-- Nothing is left out exactly where no value ties with one seen or with one before it. -/
theorem firstOccurrences_eq_self_iff {seen : List Value} : firstOccurrences seen values = values ↔
    (∀ v ∈ values, v.isAmong seen = false) ∧ values.Pairwise fun u v => u.order v ≠ .eq := by
  induction values generalizing seen with
  | nil => simp [firstOccurrences]
  | cons v rest ih =>
    rw [firstOccurrences]
    split
    · rename_i hseen
      refine iff_of_false (fun heq => ?_) fun h => by simp [h.1 v List.mem_cons_self] at hseen
      have hlength := (firstOccurrences_sublist (v :: seen) rest).length_le
      rw [heq, List.length_cons] at hlength
      omega
    · rename_i hseen
      rw [List.cons_inj_right, ih, List.pairwise_cons, List.forall_mem_cons]
      simp only [isAmong_cons, Bool.or_eq_false_iff, beq_eq_false_iff_ne, forall_and, hseen]
      tauto

/-- What has been seen already adds nothing to what is seen. -/
theorem isAmong_cons_of_isAmong (h : u.isAmong values = true) (v : Value) :
    v.isAmong (u :: values) = v.isAmong values := by
  rw [isAmong_cons]
  by_cases htie : u.order v = .eq
  · rw [← isAmong_congr htie, h, Bool.or_true]
  · rw [beq_eq_false_iff_ne.mpr htie, Bool.false_or]

/-- The first occurrences make up for what was lacking. -/
theorem isAmong_append_firstOccurrences (x : Value) (seen values : List Value) :
    x.isAmong (seen ++ firstOccurrences seen values) = (x.isAmong seen || x.isAmong values) := by
  suffices ∀ seen : List Value, (x.isAmong seen || x.isAmong (firstOccurrences seen values)) =
      (x.isAmong seen || x.isAmong values) by rw [isAmong_append, this]
  induction values with
  | nil => exact fun _ => rfl
  | cons v rest ih =>
    intro seen
    have hrest := ih (v :: seen)
    rw [firstOccurrences]
    split
    · rename_i hseen
      rw [isAmong_cons_of_isAmong hseen] at hrest
      have hv : (x.isAmong seen || (v.order x == .eq)) = x.isAmong seen := by
        rw [Bool.or_comm, ← isAmong_cons, isAmong_cons_of_isAmong hseen]
      rw [hrest, isAmong_cons, ← Bool.or_assoc, hv]
    · rw [isAmong_cons] at hrest ⊢
      rw [isAmong_cons, ← Bool.or_assoc, ← Bool.or_assoc,
        Bool.or_comm (x.isAmong seen) (v.order x == .eq)]
      exact hrest

/-- The members of a union of lists as it is computed: an empty first list gives the second as
it is, any other one is followed by the first occurrences of what it lacks. -/
def unite : List Value → List Value → List Value
  | [], others => others
  | v :: rest, others => v :: rest ++ firstOccurrences (v :: rest) others

theorem isAmong_unite (x : Value) (values others : List Value) :
    x.isAmong (unite values others) = (x.isAmong values || x.isAmong others) := by
  cases values with
  | nil => rfl
  | cons v rest => exact isAmong_append_firstOccurrences x _ _

/-- A union is the first list with what it lacks unless it is a second list with repetitions as
it is. -/
theorem unite_eq_append_iff : unite values others = values ++ firstOccurrences values others ↔
    (values = [] → others.Pairwise fun u v => u.order v ≠ .eq) := by
  cases values with
  | nil =>
    have hself : firstOccurrences [] others = others ↔ _ := firstOccurrences_eq_self_iff
    simp only [isAmong_nil, implies_true, true_and] at hself
    rw [unite, List.nil_append, eq_comm, hself]
    simp
  | cons v rest => simp [unite]

theorem mem_of_mem_unite (h : v ∈ unite values others) : v ∈ values ∨ v ∈ others := by
  cases values with
  | nil => exact .inr h
  | cons u rest =>
    rcases List.mem_append.mp h with h | h
    · exact .inl h
    · exact .inr ((firstOccurrences_sublist _ _).subset h)

end Value

/-! ## Looking for equal values -/

section Looking

variable [Host] {w : World} {x : Value} {values items : List Value}

theorem yields_holdsEqual (hx : w.IsData x) (hvalues : ∀ v ∈ values, w.IsData v) :
    (holdsEqual x values).Yields w (x.isAmong values) := by
  induction values with
  | nil => exact Eval.yields_pure _
  | cons v rest ih =>
    have hrest := ih fun u hu => hvalues u (List.mem_cons_of_mem v hu)
    refine Eval.yields_bind (yields_equals (hvalues v List.mem_cons_self) hx) ?_
    rw [Value.isAmong_cons]
    cases v.order x == .eq with
    | true => exact Eval.yields_pure true
    | false => exact hrest

theorem yields_equals_of_not_isAmong (hx : w.IsData x) (hvalues : ∀ v ∈ values, w.IsData v)
    (h : x.isAmong values = false) : ∀ v ∈ values, (x.equals v).Yields w false := by
  intro v hv
  have hapart := Bool.eq_false_iff.mpr (List.any_eq_false.mp h v hv)
  rw [Value.order_beq_comm] at hapart
  rw [← hapart]
  exact yields_equals hx (hvalues v hv)

theorem exists_yields_equals_of_isAmong (hx : w.IsData x) (hvalues : ∀ v ∈ values, w.IsData v)
    (h : x.isAmong values = true) : ∃ v ∈ values, (x.equals v).Yields w true := by
  obtain ⟨v, hv, htie⟩ := List.any_eq_true.mp h
  rw [Value.order_beq_comm] at htie
  rw [← htie]
  exact ⟨v, hv, yields_equals hx (hvalues v hv)⟩

theorem yields_sift (wanted : Bool) (hvalues : ∀ v ∈ values, w.IsData v)
    (hitems : ∀ v ∈ items, w.IsData v) :
    (sift wanted values items).Yields w (items.filter fun v => v.isAmong values == wanted) := by
  induction items with
  | nil => exact Eval.yields_pure _
  | cons v rest ih =>
    have hrest := ih fun u hu => hitems u (List.mem_cons_of_mem v hu)
    have hv := yields_holdsEqual (hitems v List.mem_cons_self) hvalues
    refine Eval.yields_bind (Eval.yields_holding _ hv) ?_
    rw [List.filter_cons]
    split
    · exact Eval.yields_bind (Eval.yields_holding _ hrest) (Eval.yields_pure _)
    · exact hrest

/-- The first occurrences among the values to be added are added, the last one in front. -/
theorem yields_addMissing (hitems : ∀ v ∈ items, w.IsData v) {seen out : List Value}
    (hout : ∀ v ∈ out, w.IsData v) (hseen : ∀ v : Value, v.isAmong out = v.isAmong seen) :
    (addMissing items out).Yields w ((Value.firstOccurrences seen items).reverse ++ out) := by
  induction items generalizing seen out with
  | nil => exact Eval.yields_pure _
  | cons v rest ih =>
    have hv := hitems v List.mem_cons_self
    have hrest : ∀ u ∈ rest, w.IsData u := fun u hu => hitems u (List.mem_cons_of_mem v hu)
    have hknown : (holdsEqual v out.reverse).Yields w (v.isAmong seen) := by
      rw [← hseen v, ← Value.isAmong_reverse]
      exact yields_holdsEqual hv fun u hu => hout u (List.mem_reverse.mp hu)
    refine Eval.yields_bind (Eval.yields_holding _ (Eval.yields_holding _ hknown)) ?_
    rw [Value.firstOccurrences]
    split
    · rename_i hamong
      refine ih hrest hout fun u => ?_
      rw [hseen u, Value.isAmong_cons_of_isAmong hamong]
    · rw [List.reverse_cons, List.append_assoc]
      refine ih hrest ?_ fun u => ?_
      · intro u hu
        rcases List.mem_cons.mp hu with rfl | hu
        · exact hv
        · exact hout u hu
      · rw [Value.isAmong_cons, Value.isAmong_cons, hseen u]

/-- How a row of visits ends that ends with a flow. -/
def Flow.outcome : Flow → Outcome
  | .proceed => .exhausted
  | .stop => .broken
  | .answer payload => .returned payload

omit [Host] in
/-- A walk that passes over entries as it is, up to the first one of a kind, ends as it does
there. -/
theorem yields_visitEach_first {σ : Type} {walk : Walk σ} {start : σ} {entries : List (Key × Value)}
    {p : Key × Value → Bool} (ending : Key × Value → Flow × σ)
    (hends : ∀ entry, (ending entry).1 ≠ .proceed)
    (hvisit : ∀ entry ∈ entries, (walk.visit start entry.2 entry.1).Yields w
      (if p entry then ending entry else (.proceed, start))) :
    (walk.visitEach entries start).Yields w
      (((entries.find? p).map fun entry => ((ending entry).1.outcome, (ending entry).2)).getD
        (.exhausted, start)) := by
  induction entries with
  | nil => exact Eval.yields_pure _
  | cons entry rest ih =>
    obtain ⟨hfirst, hrest⟩ := List.forall_mem_cons.mp hvisit
    have hstep : (walk.step start entry.2 entry.1).Yields w
        (if p entry then ending entry else (.proceed, start)) :=
      Eval.yields_holding _ (Eval.yields_holding _ (yields_reporting hfirst))
    cases hp : p entry with
    | false =>
      rw [hp, if_neg Bool.false_ne_true] at hstep
      rw [List.find?_cons_of_neg (Bool.eq_false_iff.mp hp)]
      exact Eval.yields_bind hstep (ih hrest)
    | true =>
      have hends := hends entry
      rw [hp, if_pos rfl] at hstep
      rw [List.find?_cons_of_pos hp, Option.map_some, Option.getD_some]
      refine Eval.yields_bind hstep ?_
      generalize ending entry = ended at hends ⊢
      obtain ⟨flow, s⟩ := ended
      cases flow with
      | proceed => exact absurd rfl hends
      | stop | answer => exact Eval.yields_pure _

/-- A search goes through the entries up to the first value that ties. -/
theorem yields_visitEach_equals (hx : w.IsData x) {entries : List (Key × Value)}
    (hentries : ∀ entry ∈ entries, w.IsData entry.2) :
    ∃ outcome : Outcome, outcome.isExhausted = !x.isAmong (entries.map Prod.snd) ∧
      ((Walk.stateless fun item _ => do
        return if (← item.equals x) then .stop else .proceed).visitEach entries ()).Yields w
          (outcome, ()) := by
  have hvisit : ∀ entry ∈ entries, ((Walk.stateless fun item _ => do
      return if (← item.equals x) then .stop else .proceed).visit () entry.2 entry.1).Yields w
        (if x.tiesAt entry then (.stop, ()) else (.proceed, ())) := by
    intro entry hentry
    have hequals := yields_equals (hentries entry hentry) hx
    rw [← Value.tiesAt] at hequals
    cases htie : x.tiesAt entry with
    | true | false =>
      rw [htie] at hequals
      exact Eval.yields_bind (Eval.yields_bind hequals (Eval.yields_pure _)) (Eval.yields_pure _)
  have hsearch := yields_visitEach_first (fun _ => (Flow.stop, ())) (fun _ => nofun) hvisit
  rw [Value.isAmong_map_snd]
  cases hfound : entries.find? x.tiesAt with
  | none | some =>
    rw [hfound] at hsearch
    exact ⟨_, rfl, hsearch⟩

end Looking

/-! ## Members -/

/-- The members that a value has when it is taken as a set: the elements of a sequence, the
values of a map, and none when it is no container. -/
inductive World.HasMembers (w : World) : Value → List Value → Prop
  | sequence {v : Value} {members : List Value} (h : v.Represents members) : HasMembers w v members
  | map (entries : List (String × Value)) : HasMembers w (.map entries) (entries.map Prod.snd)
  | none {v : Value} (h : (w.kind v).isContainer = false) : HasMembers w v []

section Members

variable {w : World} {x a b : Value} {as bs members : List Value}

theorem World.HasMembers.eq_of_array {items : List Value}
    (h : w.HasMembers (.array items) members) : members = items := by
  cases h with
  | sequence h =>
    cases h
    rfl
  | none h => cases h

theorem yields_kind (v : Value) : v.kind.Yields w (w.kind v) :=
  Eval.yields_reads fun _ => by cases v <;> rfl

variable [Host]

/-- A container that is visited entry by entry holds what is among the values of the entries. -/
theorem yields_isInContainer_entries (hx : w.IsData x) {entries : List (Key × Value)}
    (hentries : ∀ v ∈ entries.map Prod.snd, w.IsData v)
    (hcontainer : (w.kind b).isContainer = true)
    (hrun : ∀ walk : Walk Unit, walk.run () b = walk.visitEach entries ()) :
    (isInContainer x b none).Yields w (x.isAmong (entries.map Prod.snd)) := by
  obtain ⟨outcome, houtcome, hvisit⟩ :=
    yields_visitEach_equals hx fun entry hentry => hentries entry.2 (List.mem_map_of_mem hentry)
  have hfound : x.isAmong (entries.map Prod.snd) = !outcome.isExhausted := by
    rw [houtcome, Bool.not_not]
  rw [← hrun] at hvisit
  refine Eval.yields_bind (yields_kind b) ?_
  rw [hcontainer, hfound]
  exact Eval.yields_bind (Eval.yields_bind hvisit (Eval.yields_pure _)) (Eval.yields_pure _)

/-- A container holds what is among its members, and nothing else holds anything. -/
theorem yields_isInContainer (hx : w.IsData x) (hb : w.HasMembers b members)
    (hmembers : ∀ v ∈ members, w.IsData v) :
    (isInContainer x b none).Yields w (x.isAmong members) := by
  cases hb with
  | sequence h =>
    have hvalues := map_snd_indexedFrom 0 members
    rw [← hvalues] at hmembers ⊢
    exact yields_isInContainer_entries hx hmembers (h.isContainer w) fun walk => h.run_eq walk ()
  | map entries =>
    rw [← map_snd_namedEntries] at hmembers ⊢
    exact yields_isInContainer_entries hx hmembers rfl fun _ => rfl
  | none h =>
    refine Eval.yields_bind (yields_kind b) ?_
    rw [h]
    exact Eval.yields_pure _

/-! ## Taking sets apart -/

theorem yields_isEmptySet_map (entries : List (String × Value)) :
    (isEmptySet (.map entries)).Yields w (entries.length == 0) :=
  Eval.yields_bind (yields_kind _) (Eval.yields_bind (Eval.yields_pure _) (Eval.yields_pure _))

theorem yields_isEmptySet_map_filled {entries : List (String × Value)} (h : entries ≠ []) :
    (isEmptySet (.map entries)).Yields w false := by
  have hempty := yields_isEmptySet_map (w := w) entries
  rwa [beq_eq_false_iff_ne.mpr fun hlength => h (List.length_eq_zero_iff.mp hlength)] at hempty

/-- What counts as the empty set has no members, and a sequence without members counts as
that. -/
theorem yields_isEmptySet (hb : w.HasMembers b members) :
    ∃ empty : Bool, (empty = true → members = []) ∧ (isEmptySet b).Yields w empty := by
  cases hb with
  | sequence h =>
    refine ⟨members.length == 0, fun hempty => List.length_eq_zero_iff.mp (by simpa using hempty),
      ?_⟩
    rw [h.isEmptySet_eq]
    exact Eval.yields_pure _
  | map entries =>
    refine ⟨entries.length == 0, fun hempty => ?_, ?_⟩
    · have hnil : entries = [] := List.length_eq_zero_iff.mp (by simpa using hempty)
      rw [hnil, List.map_nil]
    · exact yields_isEmptySet_map entries
  | none h =>
    refine ⟨!b.isTruthy, fun _ => rfl, ?_⟩
    cases htruthy : b.isTruthy with
    | false =>
      unfold isEmptySet
      rw [htruthy]
      exact Eval.yields_pure true
    | true =>
      unfold isEmptySet
      rw [htruthy]
      refine Eval.yields_bind (yields_kind b) ?_
      rw [h]
      exact Eval.yields_pure false

theorem yields_elementsOf?_none (h : (w.kind b).isContainer = false) :
    (elementsOf? b).Yields w none := by
  have hlist : (w.kind b).isListLike = false := by
    cases hkind : w.kind b <;> simp_all [Kind.isContainer, Kind.isListLike]
  refine Eval.yields_bind (yields_kind b) ?_
  rw [hlist]
  exact Eval.yields_pure none

theorem yields_membersOf (hb : w.HasMembers b members) : (membersOf b).Yields w members := by
  cases hb with
  | sequence h =>
    rw [h.membersOf_eq]
    exact Eval.yields_pure members
  | map entries => exact Eval.yields_pure _
  | none h =>
    have hnone := yields_elementsOf?_none h
    cases b with
    | map entries => cases h
    | _ => exact Eval.yields_bind hnone (Eval.yields_pure _)

/-! ## Difference, union and intersection of lists -/

theorem yields_differenceOf (ha : a.Represents as) (hb : w.HasMembers b bs)
    (has : ∀ v ∈ as, w.IsData v) (hbs : ∀ v ∈ bs, w.IsData v) :
    ∃ r, (differenceOf a b).Yields w r ∧ r.Represents (as.filter fun v => !v.isAmong bs) := by
  have hdifference : differenceOf a b = (do
      if ← isEmptySet a then return a
      if ← isEmptySet b then return a
      let excluded ← membersOf b
      Eval.holding (.values excluded) do
        let items := (← elementsOf? a).getD []
        return .array (← sift false excluded items)) := by
    cases ha <;> rfl
  rw [hdifference, ha.isEmptySet_eq, ha.elementsOf?_eq]
  simp only [pure_bind]
  cases as with
  | nil => exact ⟨a, Eval.yields_pure a, ha⟩
  | cons first rest =>
    obtain ⟨empty, hempty, hisEmpty⟩ := yields_isEmptySet hb
    cases empty with
    | true =>
      obtain rfl := hempty rfl
      refine ⟨a, Eval.yields_bind hisEmpty (Eval.yields_pure a), ?_⟩
      simpa using ha
    | false =>
      refine ⟨_, Eval.yields_bind hisEmpty (Eval.yields_bind (yields_membersOf hb)
        (Eval.yields_holding _ (Eval.yields_bind (yields_sift false hbs has)
          (Eval.yields_pure _)))), ?_⟩
      simpa only [beq_false] using .array _

/-- A union gives back one of its operands, or an array. -/
theorem yields_unionOf (ha : a.Represents as) (hb : w.HasMembers b bs)
    (has : ∀ v ∈ as, w.IsData v) (hbs : ∀ v ∈ bs, w.IsData v) :
    ∃ r, r ∈ [a, b, .array (Value.unite as bs)] ∧ (unionOf a b).Yields w r ∧
      w.HasMembers r (Value.unite as bs) := by
  have hunion : unionOf a b = (do
      if ← isEmptySet a then return b
      if ← isEmptySet b then return a
      let items := (← elementsOf? a).getD []
      let extra ← Eval.holding (.values items) (membersOf b)
      return .array (← addMissing extra items.reverse).reverse) := by
    cases ha <;> rfl
  rw [hunion, ha.isEmptySet_eq, ha.elementsOf?_eq]
  simp only [pure_bind]
  cases as with
  | nil => exact ⟨b, by simp, Eval.yields_pure b, hb⟩
  | cons first rest =>
    obtain ⟨empty, hempty, hisEmpty⟩ := yields_isEmptySet hb
    cases empty with
    | true =>
      obtain rfl := hempty rfl
      refine ⟨a, by simp, Eval.yields_bind hisEmpty (Eval.yields_pure a), ?_⟩
      rw [Value.unite, Value.firstOccurrences, List.append_nil]
      exact .sequence ha
    | false =>
      have hadded := yields_addMissing hbs (fun v hv => has v (List.mem_reverse.mp hv))
        fun v => Value.isAmong_reverse v (first :: rest)
      refine ⟨.array (Value.unite (first :: rest) bs), by simp, ?_, .sequence (.array _)⟩
      have harray : Value.unite (first :: rest) bs =
          ((Value.firstOccurrences (first :: rest) bs).reverse ++
            (first :: rest).reverse).reverse := by
        rw [← List.reverse_append, List.reverse_reverse, Value.unite]
      rw [harray]
      exact Eval.yields_bind hisEmpty (Eval.yields_bind
        (Eval.yields_holding _ (yields_membersOf hb)) (Eval.yields_bind hadded
          (Eval.yields_pure _)))

section Intersection

variable (ha : a.Represents as) (hb : w.HasMembers b bs) (hmap : ∀ entries, b ≠ .map entries)
  (has : ∀ v ∈ as, w.IsData v) (hbs : ∀ v ∈ bs, w.IsData v)
include ha hb hmap has hbs

/-- A list that is not empty and what has no keys have in common the elements of the list that are
members of the other. -/
theorem yields_intersectionOf_array (hfilled : as ≠ []) :
    (intersectionOf a b).Yields w (.array (as.filter fun v => v.isAmong bs)) := by
  have helements : ∃ found, (elementsOf? b).Yields w found ∧ found.getD [] = bs := by
    cases hb with
    | sequence h =>
      refine ⟨some bs, ?_, rfl⟩
      rw [h.elementsOf?_eq]
      exact Eval.yields_pure _
    | map entries => exact absurd rfl (hmap entries)
    | none h => exact ⟨none, yields_elementsOf?_none h, rfl⟩
  obtain ⟨found, hfound, rfl⟩ := helements
  have hintersection : intersectionOf a b = do
      if ← isEmptySet a then return .none
      let items := (← elementsOf? a).getD []
      let other := (← Eval.holding (.values items) (elementsOf? b)).getD []
      return .array (← Eval.holding (.values other) (sift true other items)) := by
    cases b with
    | map entries => exact absurd rfl (hmap entries)
    | _ => cases ha <;> rfl
  have hempty : (as.length == 0) = false := by simpa using hfilled
  rw [hintersection, ha.isEmptySet_eq, ha.elementsOf?_eq, hempty]
  simp only [pure_bind]
  have hsift := yields_sift true hbs has
  simp only [beq_true] at hsift
  exact Eval.yields_bind (Eval.yields_holding _ hfound) (Eval.yields_bind
    (Eval.yields_holding _ hsift) (Eval.yields_pure _))

theorem yields_intersectionOf :
    ∃ r, (intersectionOf a b).Yields w r ∧ w.HasMembers r (as.filter fun v => v.isAmong bs) := by
  cases as with
  | nil =>
    have hnone : intersectionOf a b = pure .none := by
      rw [intersectionOf, ha.isEmptySet_eq]
      rfl
    rw [hnone]
    exact ⟨.none, Eval.yields_pure _, .none rfl⟩
  | cons first rest =>
    have hfilled : first :: rest ≠ [] := List.cons_ne_nil first rest
    exact ⟨_, yields_intersectionOf_array ha hb hmap has hbs hfilled, .sequence (.array _)⟩

end Intersection

/-! ## Membership as an algebra -/

theorem yields_apply_isIn (hx : w.IsData x) (hb : w.HasMembers b members)
    (hmembers : ∀ v ∈ members, w.IsData v) :
    (Builtin.isIn.apply [x, b]).Yields w (.boolean (x.isAmong members)) :=
  yields_apply (n := 2) rfl (by decide) <| Eval.yields_bind (Eval.yields_pure x) <|
    Eval.yields_bind (Eval.yields_pure none) <| Eval.yields_bind (Eval.yields_pure b) <|
      Eval.yields_bind (yields_isInContainer hx hb hmembers) (Eval.yields_pure _)

/-- **Membership in sets of data is computed as with sets.** What is in the union of a sequence
and any container or non-container is in one of them, what is in their difference is in the
first and not in the second, and what is in their intersection is in both; only a map is
intersected with by its keys. The answers about the operands are whether the value ties with
one of their members, so they are no matter of representation. -/
theorem set_membership (ha : a.Represents as) (hb : w.HasMembers b bs) (hx : w.IsData x)
    (hdata : ∀ v ∈ as ++ bs, w.IsData v) :
    ((Builtin.isIn.apply [x, a]).Yields w (.boolean (x.isAmong as)) ∧
      (Builtin.isIn.apply [x, b]).Yields w (.boolean (x.isAmong bs))) ∧
    (do Builtin.isIn.apply [x, ← Builtin.union.apply [a, b]]).Yields w
      (.boolean (x.isAmong as || x.isAmong bs)) ∧
    (do Builtin.isIn.apply [x, ← Builtin.difference.apply [a, b]]).Yields w
      (.boolean (x.isAmong as && !x.isAmong bs)) ∧
    ((∀ entries, b ≠ .map entries) →
      (do Builtin.isIn.apply [x, ← Builtin.intersection.apply [a, b]]).Yields w
        (.boolean (x.isAmong as && x.isAmong bs))) := by
  have has (v : Value) (hv : v ∈ as) : w.IsData v := hdata v (List.mem_append_left bs hv)
  have hbs (v : Value) (hv : v ∈ bs) : w.IsData v := hdata v (List.mem_append_right as hv)
  have hties (u v : Value) (htie : u.order v = .eq) : u.isAmong bs = v.isAmong bs :=
    Value.isAmong_congr htie bs
  refine ⟨⟨yields_apply_isIn hx (.sequence ha) has, yields_apply_isIn hx hb hbs⟩, ?_, ?_, ?_⟩
  · obtain ⟨r, -, hr, hmembers⟩ := yields_unionOf ha hb has hbs
    have hunite (v : Value) (hv : v ∈ Value.unite as bs) : w.IsData v :=
      (Value.mem_of_mem_unite hv).elim (has v) (hbs v)
    rw [← Value.isAmong_unite]
    exact Eval.yields_bind (yields_apply (n := 2) rfl (by decide) hr)
      (yields_apply_isIn hx hmembers hunite)
  · obtain ⟨r, hr, hrepresents⟩ := yields_differenceOf ha hb has hbs
    rw [← Value.isAmong_filter (q := fun v => !v.isAmong bs) fun u v htie => by rw [hties u v htie]]
    exact Eval.yields_bind (yields_apply (n := 2) rfl (by decide) hr)
      (yields_apply_isIn hx (.sequence hrepresents) fun v hv => has v (List.mem_of_mem_filter hv))
  · intro hmap
    obtain ⟨r, hr, hmembers⟩ := yields_intersectionOf ha hb hmap has hbs
    rw [← Value.isAmong_filter hties]
    exact Eval.yields_bind (yields_apply (n := 2) rfl (by decide) hr)
      (yields_apply_isIn hx hmembers fun v hv => has v (List.mem_of_mem_filter hv))

end Members

/-- A typed array and an array that has one of its numbers as a float. -/
theorem set_membership_numbers :
    let as : List Value := [.integer 1, .integer 2]
    let bs : List Value := [.string "two", .float ⟨0x4000000000000000⟩]
    let a : Value := .typed (.int8 [1, 2])
    let b : Value := .array bs
    let x : Value := .integer 2
    letI := Script.hostWithin 0
    (a.Represents as ∧ ({} : World).HasMembers b bs ∧ ({} : World).IsData x ∧
      ∀ v ∈ as ++ bs, ({} : World).IsData v) ∧
    (do Builtin.isIn.apply [x, ← Builtin.union.apply [a, b]]).Yields {} (.boolean true) ∧
    (do Builtin.isIn.apply [x, ← Builtin.difference.apply [a, b]]).Yields {} (.boolean false) ∧
    (do Builtin.isIn.apply [x, ← Builtin.intersection.apply [a, b]]).Yields {} (.boolean true) := by
  intro as bs a b x
  let _ := Script.hostWithin 0
  have ha : a.Represents as := .typed (.int8 [1, 2])
  have hb : ({} : World).HasMembers b bs := .sequence (.array bs)
  have hx : ({} : World).IsData x := .atom trivial
  have hdata : ∀ v ∈ as ++ bs, ({} : World).IsData v := by
    intro v hv
    simp only [as, bs, List.cons_append, List.nil_append, List.mem_cons, List.not_mem_nil,
      or_false] at hv
    rcases hv with rfl | rfl | rfl | rfl <;> exact .atom trivial
  obtain ⟨-, hunion, hdifference, hintersection⟩ := set_membership ha hb hx hdata
  have hfirst : x.isAmong as = true := by decide +kernel
  have hsecond : x.isAmong bs = true := by decide +kernel
  rw [hfirst, hsecond] at hunion hdifference hintersection
  exact ⟨⟨ha, hb, hx, hdata⟩, hunion, hdifference, hintersection fun entries heq => nomatch heq⟩

end DynamicObjects
