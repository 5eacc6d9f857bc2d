import DynamicObjects.Proofs.Errors.Demands

/-!
# What becomes of each named operation

Given as many arguments as it takes, an operation fails at once, with an argument that is not what
is wanted or with a value that it does not support, or it keeps to its terms. Which of the two
happens is told before anything runs. There is one lemma for each operation that checks arguments,
compares or calls back; the others are made of computations that succeed.

* `Eval.Follows`: failing at once or keeping to terms.
* `Builtin.Follows`: what becomes of an operation.
* `Builtin.Serves.follows_run`: what becomes of each.
-/

namespace DynamicObjects

variable {α β : Type} {c : Circumstances} {p : Value → Prop} {v : Value} {b : Builtin}
  {args : List Value} {answers : Function → Value → Prop}

/-- A reply is a failure with nothing run, or it is on some terms. -/
def Reply.GoesBy (c : Circumstances) (terms : Terms α) (scope : Scope) (w : World)
    (reply : Reply α) : Option Failure → Prop
  | some e => reply = .failed e w
  | none => scope ∈ c.scopes → w ∈ c.worlds → reply.OnTerms c terms scope w

/-- A computation fails at once, or it keeps to some terms. -/
def Eval.Follows (x : Eval α) (c : Circumstances) (terms : Terms α)
    (failure? : World → Option Failure) : Prop :=
  ∀ scope w, (x scope w).GoesBy c terms scope w (failure? w)

theorem Eval.KeepsTo.follows {terms : Terms α} {x : Eval α} (h : x.KeepsTo c terms) :
    x.Follows c terms fun _ => none :=
  fun scope w hscope hw => h scope hscope w hw

/-- What follows a check. -/
theorem Eval.Checks.follows {terms : Terms β} {x : Eval α} {gives : α → Prop}
    {check : ArgumentCheck} {rest : List ArgumentCheck} {f : α → Eval β}
    {further? : World → Option Failure} (hx : x.Checks gives (check.fault? b args))
    (hf : ∀ a, gives a → (f a).Follows c terms fun w =>
      (rest.findSome? (ArgumentCheck.fault? b args)).or (further? w)) :
    (x >>= f).Follows c terms fun w =>
      ((check :: rest).findSome? (ArgumentCheck.fault? b args)).or (further? w) := by
  simp only [List.findSome?_cons]
  generalize check.fault? b args = fault at hx
  cases fault with
  | none =>
    obtain ⟨a, ha, rfl⟩ := hx
    exact hf a ha
  | some e =>
    obtain rfl : x = Eval.fail e := hx
    exact fun _ _ => rfl

/-- What keeps to the terms of an operation without failing. -/
theorem Eval.KeepsTo.terms {x : Eval Value}
    (h : x.KeepsTo c { answers := fun _ => True, refuses := b.refusal? args }) :
    x.KeepsTo c (b.terms args answers) :=
  h.mono (fun _ h => h) (fun _ he => he.elim) fun _ hr => hr

theorem Eval.Succeeds.terms {x : Eval Value} (h : x.Succeeds c fun _ => True) :
    x.KeepsTo c (b.terms args answers) :=
  h.keepsTo fun _ h => h

namespace Circumstances

/-! ## Positions and slices -/

theorem succeeds_sliceBounds {length : Nat} (h : length ≤ Int64.maxValue.toInt) (start : Int64)
    (stop : Option Int64) : (sliceBounds length start stop).Succeeds c fun _ => True := by
  rw [sliceBounds, if_pos h]
  exact Eval.succeeds_pure trivial

section Places

variable [Host]

/-- The length of an iterable instance is a whole number that is not negative. -/
theorem ofInstance_length_le {i : InstanceRef} {scope : Scope} {w w' : World} {n : Nat}
    (h : (View.ofInstance i).length scope w = .done n w') : n ≤ Int64.maxValue.toInt := by
  have hfits (m : Int64) : m.toInt ≤ Int64.maxValue.toInt := Int64.toInt_le m
  simp only [View.ofInstance, Eval.bind_apply] at h
  split at h
  · split at h
    · split at h
      · rename_i m _ _
        obtain ⟨rfl, -⟩ := Reply.done.inj h
        have := hfits m
        omega
      · cases h
    · cases h
  · cases h
  · cases h

/-- What is counted has a length that fits into sixty-four bits, if what it tells does. -/
theorem Offers.onTerms_length (hv : c.Offers v p) (hcounts : c.Counts v)
    (hfits : v.extent ≤ Int64.maxValue.toInt) {scope : Scope} (hscope : scope ∈ c.scopes)
    {w : World} (hw : w ∈ c.worlds) (hcounted : (w.kind v).isListLike = true) :
    (v.length scope w).OnTerms c { answers := fun n : Nat => n ≤ Int64.maxValue.toInt }
      scope w := by
  cases v with
  | array items =>
    have hlength : (Value.array items).length scope w = .done items.length w := by
      simp [Value.length, Eval.pure_apply]
    rw [hlength]
    exact .done (.refl hw) hfits
  | typed items => exact .done (.refl hw) hfits
  | iterable id label length items lengthFault faults =>
    cases lengthFault with
    | none => exact .done (.refl hw) hfits
    | some raised =>
      obtain ⟨_, _, hdone, -⟩ := (hv.length w hw _ rfl).done hscope hw
      cases hdone
  | foreign i =>
    have hlength : (Host.foreign i).length.KeepsTo c
        { answers := fun n : Nat => n ≤ Int64.maxValue.toInt } :=
      (hcounts i rfl).keepsTo fun _ h => h
    exact hlength scope hscope w hw
  | inst i =>
    have hgeneric : w.isGeneric i.cls = true := by
      simp only [World.kind] at hcounted
      split at hcounted
      · assumption
      · cases hcounted
    have hview : w.view? (.inst i) = some (View.ofInstance i) := if_pos hgeneric
    obtain ⟨n, w', hdone, hbecomes, -⟩ := (hv.length w hw _ hview).done hscope hw
    have hlength : (Value.inst i).length scope w = (View.ofInstance i).length scope w := by
      rw [Value.length, Value.view?, Eval.bind_of_done (Eval.reads_apply _ _ _), hview]
    rw [hlength, hdone]
    exact .done hbecomes (ofInstance_length_le hdone)
  | _ => cases hcounted

omit [Host] in
theorem isCounted_of_ne_string {w : World} (h : ∀ s, v = .string s → False) :
    w.isCounted v = (w.kind v).isListLike := by
  cases v with
  | string s => exact (h s rfl).elim
  | _ => rfl

theorem Offers.follows_sliceValue (hv : c.Offers v p) (hcounts : c.Counts v)
    (hfits : ∀ w ∈ c.worlds, v.extent ≤ Int64.maxValue.toInt) (start : Int64)
    (stop : Option Int64) (rest : List Value) :
    (sliceValue v start stop).Follows c (Builtin.slice.terms args answers)
      fun w => w.unsupported? .slice (v :: rest) := by
  have hunsupported (w : World) : w.unsupported? .slice (v :: rest) =
      if w.isCounted v then none else some (.unsupportedType "slice" v.typeName) := rfl
  simp only [hunsupported]
  unfold sliceValue
  split
  · rename_i s
    refine Eval.KeepsTo.follows fun scope hscope w hw => ?_
    have hbounds := succeeds_sliceBounds (c := c) (hfits w hw) start stop
    exact hbounds.bind (fun bounds _ => Eval.keepsTo_pure trivial) scope hscope w hw
  · rename_i hstring
    intro scope w
    rw [Value.kind, Eval.bind_of_done (Eval.reads_apply _ _ _)]
    dsimp only
    rw [isCounted_of_ne_string hstring]
    cases hcounted : (w.kind v).isListLike with
    | false => exact rfl
    | true =>
      intro hscope hw
      have hlength := hv.onTerms_length hcounts (hfits w hw) hscope hw hcounted
      refine Eval.onTerms_bind hscope (hlength.mono (fun _ hn => hn) (fun _ he => he.elim)
        fun _ hr => hr) fun n hn => ?_
      refine (succeeds_sliceBounds hn start stop).bind fun bounds _ => ?_
      exact (hv.elementsOf?.map fun _ _ => trivial).terms

/-- An index that is no whole number is the name of a key or a property. -/
theorem succeeds_accessValue {index : Value} (h : ∀ i, index ≠ .integer i) :
    (accessValue v index).Succeeds c fun _ => True := by
  unfold accessValue
  split
  · exact absurd rfl (h _)
  · split
    · exact Eval.succeeds_pure trivial
    · exact (Eval.succeeds_reads _).imp fun _ _ => trivial
    · exact Eval.succeeds_pure trivial

/-- A negative index counts from the end of what is counted. -/
theorem accessValue_negative {i : Int64} (hi : ¬ 0 ≤ i) (scope : Scope) (w : World) :
    accessValue v (.integer i) scope w =
      (if w.isCounted v then do
        let resolved ← resolveOffset v i
        if 0 ≤ resolved then elementAt v resolved.toInt.toNat else return .undefined
      else Eval.fail (.unsupportedType "access" v.typeName)) scope w := by
  unfold accessValue
  simp only [hi, if_false]
  rw [Value.kind, Eval.bind_of_done (Eval.reads_apply _ _ _)]
  cases v <;> rfl

theorem Offers.follows_accessValue (hv : c.Offers v p) (index : Value) (rest : List Value) :
    (accessValue v index).Follows c (Builtin.access.terms args answers)
      fun w => w.unsupported? .access (v :: index :: rest) := by
  cases index with
  | integer i =>
    unfold World.unsupported?
    by_cases hi : 0 ≤ i
    · simp only [accessValue, hi, true_or, if_true]
      exact (hv.elementAt _).terms.follows
    · intro scope w
      simp only [hi, false_or, accessValue_negative hi]
      cases w.isCounted v with
      | false => exact rfl
      | true =>
        intro hscope hw
        refine ((hv.resolveOffset i).bind fun resolved _ => ?_) scope hscope w hw
        split
        · exact (hv.elementAt _).terms
        · exact Eval.keepsTo_pure trivial
  | _ => exact (succeeds_accessValue (by simp)).terms.follows

/-! ## Classes of instances and sorted copies -/

omit [Host] in
theorem follows_runIsInstance (v : Value) (args : List Value) :
    (Builtin.runIsInstance v args).Follows c (Builtin.isInstance.terms args answers)
      fun _ => (Builtin.isInstance.fault? args).or none := by
  have hfault : Builtin.isInstance.fault? args =
      (optionalAt args 1).bind (Wanted.cls.mismatch? .isInstance 1) := by
    rw [← fault?_optional]
    exact List.findSome?_singleton ..
  rw [hfault, Option.or_none, Builtin.runIsInstance]
  cases optionalAt args 1 with
  | none => exact ((Eval.succeeds_reads _).map fun _ _ => trivial).terms.follows
  | some other =>
    cases other with
    | cls d =>
      exact ((Eval.succeeds_reads _).map fun _ _ => trivial).terms.follows
    | _ => exact fun _ _ => rfl

/-- Elements are sorted by the comparison that arguments describe, if the elements or the keys
are data where they are compared. -/
theorem keepsTo_sortItems {rest : List Value} {comparison : Comparison}
    (h : Builtin.sorted.Serves (v :: rest) c answers)
    (hcomparison : DescribesComparison (optionalAt (v :: rest) 1) comparison) :
    ∃ p, c.Offers v p ∧ ∀ items, (∀ u ∈ items, p u) → (sortItems comparison items).KeepsTo c
      { answers := fun _ => True, fails := (Builtin.sorted.terms (v :: rest) answers).fails } := by
  have hv : c.Offers v c.Opens := (h.opens v List.mem_cons_self).offers
  generalize hdescription : optionalAt (v :: rest) 1 = description at hcomparison
  cases hcomparison with
  | natural =>
    have hdata : c.Offers v c.Data := h.containers v (by simp [Builtin.compared, hdescription])
    exact ⟨_, hdata, fun items hitems =>
      (succeeds_sortItems_natural hitems).keepsTo fun _ h => h⟩
  | comparator f =>
    have hf : (v :: rest)[1]? = some (.function f) := getElem?_of_optionalAt hdescription
    have hcalls : c.Calls f (answers f) :=
      h.calls f (Builtin.mem_callbacks (by decide) hf (List.mem_singleton_self f))
    exact ⟨_, hv, fun items _ => (keepsTo_sortItems_comparator hcalls).mono (fun _ h => h)
      (fun e he => ⟨f, rfl, hf, he⟩) fun _ hr => hr⟩
  | extractors extractors =>
    have hextract : ∀ key ∈ extractors.map (fun f v => Host.call f [v]), ∀ v,
        (key v).Succeeds c c.Data := by
      intro key hkey u
      obtain ⟨f, hf, rfl⟩ := List.mem_map.mp hkey
      have hlist := getElem?_of_optionalAt hdescription
      have hmem : f ∈ (Value.array (extractors.map .function)).functions := by
        rwa [functions_array]
      have hcalls : c.Calls f (answers f) :=
        h.calls f (Builtin.mem_callbacks (by decide) hlist hmem)
      have hcompared : f ∈ (Builtin.sorted.compared (v :: rest)).callbacks := by
        simpa only [Builtin.compared, hdescription] using hmem
      exact hcalls.imp (h.answers f hcompared) [u]
    exact ⟨_, hv, fun items _ => (succeeds_sortItems_extractors hextract).keepsTo fun _ h => h⟩

/-- A sorted copy as arguments describe it. -/
theorem follows_sortedCopy {rest : List Value} {comparison : Comparison}
    (h : Builtin.sorted.Serves (v :: rest) c answers)
    (hcomparison : DescribesComparison (optionalAt (v :: rest) 1) comparison) (reverse : Bool) :
    (sortedCopy v comparison reverse).Follows c (Builtin.sorted.terms (v :: rest) answers)
      fun w => w.unsupported? .sorted (v :: rest) := by
  unfold World.unsupported?
  intro scope w
  dsimp only
  by_cases hkind : w.kind v = .function ∨ w.kind v = .instanceKind
  · rw [if_pos hkind, sortedCopy, Value.kind, Eval.bind_of_done (Eval.reads_apply _ _ _)]
    rcases hkind with hkind | hkind
    · rw [hkind]
      rfl
    · rw [hkind]
      rfl
  · rw [if_neg hkind]
    intro hscope hw
    obtain ⟨p, hv, hsorted⟩ := keepsTo_sortItems h hcomparison
    exact hv.onTerms_sortedCopy hsorted reverse hscope hw (not_or.mp hkind)

/-! ## Callbacks -/

section Callbacks

variable {f : Function} (hf : c.Calls f fun _ => True) (hv : c.Offers v p)
include hf hv

theorem keepsTo_mapElements :
    (mapElements (callVisit f) v).KeepsTo c (.refusing .map .warn v v) :=
  hv.rebuild (fun _ => trivial) rfl fun _ _ _ => (hf _).map fun _ _ => trivial

theorem keepsTo_filterElements :
    (filterElements (callTest f) v).KeepsTo c (.refusing .filter .warn v v) := by
  refine hv.rebuild (fun _ => trivial) rfl fun u _ key => ?_
  refine (hf.callTest u key).bind fun hit _ => ?_
  split <;> exact Eval.succeeds_pure trivial

theorem keepsTo_filterWith {processor : Function} (hprocessor : c.Calls processor fun _ => True) :
    (filterWith (callTest f) (callVisit processor) v).KeepsTo c
      (.refusing .filter .warn v v) := by
  refine hv.rebuild (fun _ => trivial) rfl fun u _ key => ?_
  refine (hf.callTest u key).bind fun hit _ => ?_
  split
  · exact (hprocessor _).map fun _ _ => trivial
  · exact Eval.succeeds_pure trivial

theorem succeeds_reduceByFunction (initial : Option Value) :
    (reduceByFunction v f initial).Succeeds c fun _ => True :=
  hv.reduceWith (fun _ _ _ _ _ => (hf _).map fun _ _ => trivial) initial

end Callbacks

end Places

end Circumstances

/-! ## The named operations -/

namespace Builtin

variable [Host]

/-- **What becomes of an operation**: it fails at once, or it keeps to its terms. -/
def Follows (b : Builtin) (args : List Value) (c : Circumstances)
    (answers : Function → Value → Prop) : Prop :=
  (b.run args).Follows c (b.terms args answers)
    fun w => (b.fault? args).or (w.unsupported? b args)

omit [Host] in
theorem argument_zero (rest : List Value) : argument (v :: rest) 0 = pure v := rfl

namespace Serves

theorem callback (h : b.Serves args c answers) {i : Nat} (hi : i ∈ b.callbackPlaces)
    {f : Function} (hf : args[i]? = some (.function f)) : c.Calls f fun _ => True :=
  (h.calls f (mem_callbacks hi hf (List.mem_singleton_self f))).imp fun _ _ => trivial

theorem optionalCallback (h : b.Serves args c answers) {i : Nat} (hi : i ∈ b.callbackPlaces)
    {f? : Option Function} (hf : optionalAt args i = f?.map .function) {f : Function}
    (hmem : f ∈ f?) : c.Calls f fun _ => True :=
  h.callback hi (getElem?_of_optionalAt (by rw [hf, hmem]; rfl))

theorem offers (h : b.Serves args c answers) (hv : v ∈ args) : c.Offers v c.Opens :=
  (h.opens v hv).offers

variable {rest more : List Value} {other : Value}

/-- Both operands tell data where their elements are compared. -/
theorem offersData (h : b.Serves args c answers)
    (hcompared : (b.compared args).containers = [v, other]) :
    c.Offers v c.Data ∧ c.Offers other c.Data := by
  have hdata : ∀ u ∈ [v, other], c.Offers u c.Data := hcompared ▸ h.containers
  exact ⟨hdata v List.mem_cons_self, hdata other (.tail _ List.mem_cons_self)⟩

/-! ### Positions and copies -/

theorem follows_offset (h : offset.Serves (v :: rest) c answers)
    (hcount : offset.fewest ≤ (v :: rest).length) : offset.Follows (v :: rest) c answers := by
  refine (checks_integerAt hcount).follows fun i _ => ?_
  exact (((h.offers List.mem_cons_self).resolveOffset i).map fun _ _ => trivial).terms.follows

theorem follows_copy (h : copy.Serves (v :: rest) c answers) :
    copy.Follows (v :: rest) c answers := by
  refine checks_optionalIntegerAt.follows fun depth? _ => ?_
  exact ((h.opens v List.mem_cons_self).copyValue _).terms.follows

theorem follows_insert (hcount : insert.fewest ≤ (v :: rest).length) :
    insert.Follows (v :: rest) c answers := by
  refine (checks_integerAt (Nat.lt_of_lt_of_le (by decide) hcount)).follows fun i _ => ?_
  exact (Circumstances.keepsTo_insertValue v i _).terms.follows

theorem follows_slice (h : slice.Serves (v :: rest) c answers)
    (hfits : ∀ w ∈ c.worlds, slice.overflows (v :: rest) = false) :
    slice.Follows (v :: rest) c answers := by
  refine checks_optionalIntegerAt.follows fun start _ => ?_
  refine checks_optionalIntegerAt.follows fun stop _ => ?_
  have hextent (w : World) (hw : w ∈ c.worlds) : v.extent ≤ Int64.maxValue.toInt := by
    simpa [overflows] using hfits w hw
  exact (h.offers List.mem_cons_self).follows_sliceValue (h.counts rfl v rfl) hextent _ _ rest

/-! ### Searches -/

theorem follows_find (h : find.Serves (v :: other :: more) c answers) :
    find.Follows (v :: other :: more) c answers := by
  have hneedle : c.Data other := h.themselves other List.mem_cons_self
  have hdata : c.Offers v c.Data := h.containers v List.mem_cons_self
  have hfound := hdata.findPosition fun u hu _ => hu.equals hneedle
  exact (hfound.map fun _ _ => trivial).terms.follows

theorem follows_findLike (h : findLike.Serves (v :: rest) c answers)
    (hcount : findLike.fewest ≤ (v :: rest).length) : findLike.Follows (v :: rest) c answers := by
  refine (checks_functionAt hcount).follows fun f hf => ?_
  have hfound := (h.offers List.mem_cons_self).findPosition fun u _ key =>
    (h.callback (by decide) hf).callTest u key
  exact (hfound.map fun _ _ => trivial).terms.follows

theorem follows_findOneOf (h : findOneOf.Serves (v :: other :: more) c answers) :
    findOneOf.Follows (v :: other :: more) c answers := by
  obtain ⟨hv, hother⟩ := h.offersData rfl
  have hfound := hv.findPosition fun u hu _ =>
    hother.isInContainer_none fun x hx => hx.equals hu
  exact (hfound.map fun _ _ => trivial).terms.follows

theorem follows_first (h : first.Serves (v :: rest) c answers) :
    first.Follows (v :: rest) c answers := by
  refine checks_optionalFunctionAt.follows fun predicate hpredicate => ?_
  exact ((h.offers List.mem_cons_self).firstOf fun u _ key => Circumstances.succeeds_passes
    (fun f hf => h.optionalCallback (by decide) hpredicate hf) u key).terms.follows

theorem follows_last (h : last.Serves (v :: rest) c answers) :
    last.Follows (v :: rest) c answers := by
  refine checks_optionalFunctionAt.follows fun predicate hpredicate => ?_
  exact ((h.offers List.mem_cons_self).lastOf fun u _ key => Circumstances.succeeds_passes
    (fun f hf => h.optionalCallback (by decide) hpredicate hf) u key).terms.follows

theorem follows_remove (h : remove.Serves (v :: other :: more) c answers) :
    remove.Follows (v :: other :: more) c answers := by
  refine (Circumstances.succeeds_removeValue fun items hitems => ?_).terms.follows
  subst hitems
  have hneedle : c.Data other := h.themselves other List.mem_cons_self
  have hdata : c.Offers (.array items) c.Data := h.containers _ List.mem_cons_self
  exact ⟨hneedle, hdata.array items rfl⟩

theorem follows_isIn (h : isIn.Serves (v :: other :: more) c answers) :
    isIn.Follows (v :: other :: more) c answers := by
  refine checks_optionalFunctionAt.follows fun predicate hpredicate => ?_
  cases predicate with
  | some f =>
    have hcontainer : c.Offers other c.Opens := h.offers (by simp)
    have hf := h.optionalCallback (by decide) hpredicate rfl
    exact ((hcontainer.isInContainer_some hf v).map fun _ _ => trivial).terms.follows
  | none =>
    have hneedle : c.Data v := h.themselves v (by simp [compared, hpredicate])
    have hdata : c.Offers other c.Data := h.containers other (by simp [compared, hpredicate])
    exact ((hdata.isInContainer_none fun u hu => hu.equals hneedle).map
      fun _ _ => trivial).terms.follows

/-! ### Merging and sets -/

theorem follows_merge (h : merge.Serves (v :: other :: more) c answers) :
    merge.Follows (v :: other :: more) c answers := by
  simp only [Builtin.Follows, run, argument_zero, pure_bind]
  cases v with
  | array items =>
    obtain ⟨hv, hother⟩ := h.offersData rfl
    exact (hother.keepsTo_mergeValues _ fun list hlist =>
      ⟨hv.array list hlist, fun _ hu => hu⟩).terms.follows
  | _ =>
    have hother : c.Offers other c.Opens := h.offers (by simp)
    exact (hother.keepsTo_mergeValues _ (by simp)).terms.follows

theorem follows_difference (h : difference.Serves (v :: other :: more) c answers) :
    difference.Follows (v :: other :: more) c answers := by
  by_cases hmaps : v.isMap ∧ other.isMap
  · have hother : c.Offers other c.Opens := h.offers (by simp)
    exact (Circumstances.keepsTo_differenceOf (h.offers List.mem_cons_self) hother
      (.inl hmaps)).terms.follows
  · have hcompared : (difference.compared (v :: other :: more)).containers = [v, other] := by
      simp [compared, hmaps]
    obtain ⟨hv, hother⟩ := h.offersData hcompared
    exact (Circumstances.keepsTo_differenceOf hv hother
      (.inr ⟨fun _ hu => hu, fun _ hu => hu⟩)).terms.follows

theorem follows_union (h : union.Serves (v :: other :: more) c answers) :
    union.Follows (v :: other :: more) c answers := by
  by_cases hmap : v.isMap
  · have hother : c.Offers other c.Opens := h.offers (by simp)
    exact ((h.offers List.mem_cons_self).keepsTo_unionOf hother (.inl hmap)).terms.follows
  · have hcompared : (union.compared (v :: other :: more)).containers = [v, other] := by
      simp [compared, hmap]
    obtain ⟨hv, hother⟩ := h.offersData hcompared
    exact (hv.keepsTo_unionOf hother (.inr ⟨fun _ hu => hu, fun _ hu => hu⟩)).terms.follows

theorem follows_intersection (h : intersection.Serves (v :: other :: more) c answers) :
    intersection.Follows (v :: other :: more) c answers := by
  by_cases hmaps : v.isMap ∨ other.isMap
  · have hother : c.Offers other c.Opens := h.offers (by simp)
    exact (Circumstances.keepsTo_intersectionOf (h.offers List.mem_cons_self) hother
      (hmaps.imp_right .inl)).terms.follows
  · have hcompared : (intersection.compared (v :: other :: more)).containers = [v, other] := by
      simp [compared, hmaps]
    obtain ⟨hv, hother⟩ := h.offersData hcompared
    exact (Circumstances.keepsTo_intersectionOf hv hother
      (.inr (.inr ⟨fun _ hu => hu, fun _ hu => hu⟩))).terms.follows

/-! ### Callbacks about all elements -/

theorem follows_asMap (h : asMap.Serves (v :: rest) c answers)
    (hcount : asMap.fewest ≤ (v :: rest).length) : asMap.Follows (v :: rest) c answers := by
  refine (checks_functionAt hcount).follows fun extractor hextractor => ?_
  refine checks_optionalFunctionAt.follows fun replacer hreplacer => ?_
  exact ((h.offers List.mem_cons_self).indexBy (h.callback (by decide) hextractor)
    fun f hf => h.optionalCallback (by decide) hreplacer hf).terms.follows

theorem follows_map (h : map.Serves (v :: rest) c answers)
    (hcount : map.fewest ≤ (v :: rest).length) : map.Follows (v :: rest) c answers := by
  refine (checks_functionAt hcount).follows fun f hf => ?_
  exact (Circumstances.keepsTo_mapElements (h.callback (by decide) hf)
    (h.offers List.mem_cons_self)).terms.follows

theorem follows_filter (h : filter.Serves (v :: rest) c answers)
    (hcount : filter.fewest ≤ (v :: rest).length) : filter.Follows (v :: rest) c answers := by
  refine (checks_functionAt hcount).follows fun f hf => ?_
  refine checks_optionalFunctionAt.follows fun processor hprocessor => ?_
  have hv : c.Offers v c.Opens := h.offers List.mem_cons_self
  have hcalls := h.callback (by decide) hf
  cases processor with
  | none => exact (Circumstances.keepsTo_filterElements hcalls hv).terms.follows
  | some g =>
    have hg := h.optionalCallback (by decide) hprocessor rfl
    exact (Circumstances.keepsTo_filterWith hcalls hv hg).terms.follows

theorem follows_reduce (h : reduce.Serves (v :: rest) c answers)
    (hcount : reduce.fewest ≤ (v :: rest).length) : reduce.Follows (v :: rest) c answers := by
  refine (checks_functionAt hcount).follows fun f hf => ?_
  exact (Circumstances.succeeds_reduceByFunction (h.callback (by decide) hf)
    (h.offers List.mem_cons_self) _).terms.follows

theorem follows_foldl (h : foldl.Serves (v :: other :: more) c answers)
    (hcount : foldl.fewest ≤ (v :: other :: more).length) :
    foldl.Follows (v :: other :: more) c answers := by
  refine (checks_functionAt hcount).follows fun f hf => ?_
  exact (Circumstances.succeeds_reduceByFunction (h.callback (by decide) hf)
    (h.offers List.mem_cons_self) _).terms.follows

/-! ### The order -/

theorem succeeds_compare (h : b.Serves (v :: other :: more) c answers)
    (hcompared : (b.compared (v :: other :: more)).themselves = [v, other]) :
    (v.compare other).Succeeds c fun _ => True := by
  have hdata : ∀ u ∈ [v, other], c.Data u := hcompared ▸ h.themselves
  exact (hdata v (by simp)).compare (hdata other (by simp))

theorem follows_sorted (h : sorted.Serves (v :: rest) c answers) :
    sorted.Follows (v :: rest) c answers := by
  refine checks_comparisonOf.follows fun comparison hcomparison => ?_
  exact Circumstances.follows_sortedCopy h hcomparison _

/-- **What becomes of each operation**, given as many arguments as it takes. -/
theorem follows_run (h : b.Serves args c answers) (hcount : b.fewest ≤ args.length)
    (hfits : ∀ w ∈ c.worlds, b.overflows args = false) : b.Follows args c answers := by
  have hone : 1 ≤ b.fewest := by cases b <;> decide
  obtain ⟨v, rest, rfl⟩ := List.exists_cons_of_length_pos (Nat.lt_of_lt_of_le hone hcount)
  have hv : c.Offers v c.Opens := h.offers List.mem_cons_self
  have hsecond (htwo : 2 ≤ b.fewest) : ∃ other more, rest = other :: more :=
    List.exists_cons_of_length_pos (by rw [List.length_cons] at hcount; omega)
  cases b
  case len => exact (hv.valueLength.map fun _ _ => trivial).terms.follows
  case typeOf | isFunction | isDefined | isUndefined | isNumber | isString | isObject =>
    exact Eval.KeepsTo.follows (Eval.keepsTo_pure trivial)
  case kindOf | isList | isMap | isIterable =>
    simp only [Builtin.Follows, run, argument_zero, pure_bind]
    exact ((Circumstances.succeeds_kind v).map fun _ _ => trivial).terms.follows
  case isInstance => exact Circumstances.follows_runIsInstance v (v :: rest)
  case keys => exact hv.keysOf.terms.follows
  case values | items | pairs =>
    simp only [Builtin.Follows, run, argument_zero, pure_bind]
    exact (hv.listing _).terms.follows
  case access =>
    obtain ⟨index, more, rfl⟩ := hsecond (by decide)
    exact hv.follows_accessValue index more
  case add => exact (Circumstances.keepsTo_addValue v _).terms.follows
  case removeAt => exact (Circumstances.succeeds_removePosition v _).terms.follows
  case reverse => exact hv.keepsTo_reverseValue.terms.follows
  case couplesAsMap => exact (h.opens v List.mem_cons_self).keepsTo_couplesToMap.terms.follows
  case itemsAsMap => exact hv.keepsTo_itemsToMap.terms.follows
  case offset => exact h.follows_offset hcount
  case copy => exact h.follows_copy
  case insert => exact follows_insert hcount
  case slice => exact h.follows_slice hfits
  case findLike => exact h.follows_findLike hcount
  case first => exact h.follows_first
  case last => exact h.follows_last
  case asMap => exact h.follows_asMap hcount
  case map => exact h.follows_map hcount
  case filter => exact h.follows_filter hcount
  case reduce => exact h.follows_reduce hcount
  case sorted => exact h.follows_sorted
  all_goals obtain ⟨other, more, rfl⟩ := hsecond (by decide)
  case merge => exact h.follows_merge
  case find => exact h.follows_find
  case findOneOf => exact h.follows_findOneOf
  case remove => exact h.follows_remove
  case isIn => exact h.follows_isIn
  case difference => exact h.follows_difference
  case union => exact h.follows_union
  case intersection => exact h.follows_intersection
  case foldl => exact h.follows_foldl hcount
  case cmp | greater | smaller =>
    simp only [Builtin.Follows, run, argument_zero, pure_bind]
    exact ((h.succeeds_compare rfl).map fun _ _ => trivial).terms.follows

end Serves

end Builtin

end DynamicObjects
