import DynamicObjects.Proofs.Errors.Operations

/-!
# What becomes of comparisons

Comparing data answers, so everything that looks for equal values among data answers too: sets,
merging, removing. Places at which something is put in or taken out are in range. What an
operation refuses it reports, and answers something else.

* `Terms.refusing`: what may become of an operation that refuses what it does not support.
* `Circumstances.Data.compare`: comparing data answers.
-/

namespace DynamicObjects

open Script Sorting

variable {α β : Type} {c : Circumstances} {p q : Value → Prop} {a b v needle : Value}

/-- Whether a value is a map. -/
def Value.isMap : Value → Bool
  | .map _ => true
  | _ => false

theorem Value.isMap_iff : v.isMap ↔ ∃ entries, v = .map entries := by
  cases v <;> simp [isMap]

/-- The report of an operation that does not support a value. -/
def Builtin.unsupportedReport (b : Builtin) (level : Level) (v : Value) : Diagnostic :=
  ⟨level, b.name ++ ": unsupported type " ++ v.typeName⟩

/-- The terms of an operation that may refuse its arguments: it reports a value that it does not
support and answers something else. -/
def Terms.refusing (b : Builtin) (level : Level) (v answer : Value) : Terms Value where
  answers := fun _ => True
  refuses := some (b.unsupportedReport level v, answer)

namespace Circumstances

theorem keepsTo_refusing {b : Builtin} {level : Level} {answer : Value} {x : Eval Value}
    (hx : x.Succeeds c fun _ => True) : x.KeepsTo c (.refusing b level v answer) :=
  hx.keepsTo fun _ h => h

theorem keepsTo_reportUnsupported (b : Builtin) (v answer : Value) :
    (reportUnsupported b v answer).KeepsTo c (.refusing b .error v answer) :=
  Eval.keepsTo_report rfl

/-! ## Comparing -/

section Comparing

variable [Host] {items values out : List Value}

theorem Data.compare (ha : c.Data a) (hb : c.Data b) : (a.compare b).Succeeds c fun _ => True :=
  Eval.succeeds_of_yields fun w hw => ⟨_, trivial, yields_compare (ha w hw) (hb w hw)⟩

theorem Data.equals (ha : c.Data a) (hb : c.Data b) : (a.equals b).Succeeds c fun _ => True :=
  (ha.compare hb).map fun _ _ => trivial

theorem Data.holdsEqual (hneedle : c.Data needle) (hvalues : ∀ v ∈ values, c.Data v) :
    (holdsEqual needle values).Succeeds c fun _ => True :=
  Eval.succeeds_of_yields fun w hw =>
    ⟨_, trivial, yields_holdsEqual (hneedle w hw) fun v hv => hvalues v hv w hw⟩

theorem succeeds_sift (wanted : Bool) (hvalues : ∀ v ∈ values, c.Data v)
    (hitems : ∀ v ∈ items, c.Data v) : (sift wanted values items).Succeeds c fun _ => True :=
  Eval.succeeds_of_yields fun w hw =>
    ⟨_, trivial, yields_sift wanted (fun v hv => hvalues v hv w hw) fun v hv => hitems v hv w hw⟩

theorem succeeds_siftEntries (hvalues : ∀ v ∈ values, c.Data v)
    {entries : Entries String Value} (hentries : ∀ entry ∈ entries, c.Data entry.2) :
    (siftEntries values entries).Succeeds c fun _ => True := by
  induction entries with
  | nil => exact Eval.succeeds_pure trivial
  | cons entry rest ih =>
    obtain ⟨key, v⟩ := entry
    have hv : c.Data v := hentries _ List.mem_cons_self
    refine (hv.holdsEqual hvalues).bind fun hit _ => ?_
    exact (ih fun entry hentry => hentries entry (.tail _ hentry)).map fun _ _ => trivial

theorem succeeds_addMissing (hitems : ∀ v ∈ items, c.Data v) (hout : ∀ v ∈ out, c.Data v) :
    (addMissing items out).Succeeds c fun _ => True :=
  Eval.succeeds_of_yields fun w hw => ⟨_, trivial,
    yields_addMissing (fun v hv => hitems v hv w hw) (fun v hv => hout v hv w hw) fun _ => rfl⟩

/-- The place of an equal element is the place of an element. -/
theorem Data.placeOfEqual (hneedle : c.Data needle) (hitems : ∀ v ∈ items, c.Data v) (i : Nat) :
    (placeOfEqual needle i items).Succeeds c fun place? =>
      ∀ place, place? = some place → place < i + items.length := by
  induction items generalizing i with
  | nil => exact Eval.succeeds_pure fun _ h => nomatch h
  | cons v rest ih =>
    have hv : c.Data v := hitems v List.mem_cons_self
    refine (hv.equals hneedle).bind fun hit _ => ?_
    rw [List.length_cons]
    split
    · refine Eval.succeeds_pure fun place hplace => ?_
      obtain rfl := Option.some.inj hplace
      omega
    · refine (ih (fun v hv => hitems v (.tail _ hv)) (i + 1)).imp fun place? h place hplace => ?_
      have := h place hplace
      omega

end Comparing

/-! ## Editing -/

section Editing

variable {items : List Value}

theorem succeeds_insertAt {place : Nat} (h : place ≤ items.length) (v : Value) :
    (insertAt items place v).Succeeds c fun _ => True := by
  rw [insertAt, if_pos h]
  exact Eval.succeeds_pure trivial

theorem succeeds_removeAt {place : Nat} (h : place < items.length) :
    (removeAt items place).Succeeds c fun _ => True := by
  rw [removeAt, if_pos h]
  exact Eval.succeeds_pure trivial

theorem clampPosition_le (length : Nat) (i : Int64) : clampPosition length i ≤ length := by
  -- also where the length does not fit into a machine number, which is the smaller one then
  have hcount : (Int64.ofNat length).toInt ≤ length := by
    have hsize : ((Int64.size : Nat) : Int) = 18446744073709551616 := rfl
    rw [Int64.toInt_ofNat', Int.bmod_def, hsize]
    omega
  unfold clampPosition
  dsimp only
  generalize (if i < 0 then Int64.ofNat length + i else i) = place
  split
  · exact Nat.zero_le length
  · split
    · omega
    · rename_i h
      rw [Int64.lt_iff_toInt_lt] at h
      omega

/-- A place at which a value is put in is in range. -/
theorem keepsTo_insertValue (list : Value) (i : Int64) (v : Value) :
    (insertValue list i v).KeepsTo c (.refusing .insert .error list .none) := by
  unfold insertValue
  split
  · rename_i items
    have hplace := clampPosition_le items.length i
    exact keepsTo_refusing ((succeeds_insertAt hplace v).map fun _ _ => trivial)
  · exact keepsTo_reportUnsupported _ _ _

theorem keepsTo_addValue (list v : Value) :
    (addValue list v).KeepsTo c (.refusing .add .error list .none) := by
  unfold addValue
  split
  · exact Eval.keepsTo_pure trivial
  · exact keepsTo_reportUnsupported _ _ _

theorem succeeds_removePosition (container index : Value) :
    (removePosition container index).Succeeds c fun _ => True := by
  unfold removePosition
  split
  · split
    · rename_i h
      exact (succeeds_removeAt h.2).map fun _ _ => trivial
    · exact Eval.succeeds_pure trivial
  · exact Eval.succeeds_pure trivial
  · exact Eval.succeeds_pure trivial

/-- Values are compared when the container is an array. -/
theorem succeeds_removeValue [Host] {container : Value}
    (hdata : ∀ items, container = .array items → c.Data needle ∧ ∀ v ∈ items, c.Data v) :
    (removeValue container needle).Succeeds c fun _ => True := by
  unfold removeValue
  split
  · rename_i items
    obtain ⟨hneedle, hitems⟩ := hdata items rfl
    refine (hneedle.placeOfEqual hitems 0).bind fun place? hplace => ?_
    split
    · rename_i place
      have hlt : place < items.length := by
        have := hplace place rfl
        omega
      exact (succeeds_removeAt hlt).map fun _ _ => trivial
    · exact Eval.succeeds_pure trivial
  · exact Eval.succeeds_pure trivial
  · exact Eval.succeeds_pure trivial

end Editing

/-! ## Sets -/

section Sets

variable [Host]

theorem Offers.isEmptySet (hv : c.Offers v p) : (isEmptySet v).Succeeds c fun _ => True := by
  unfold DynamicObjects.isEmptySet
  split
  · exact Eval.succeeds_pure trivial
  · refine (succeeds_kind v).bind fun kind _ => ?_
    split
    · exact hv.valueLength.map fun _ _ => trivial
    · exact Eval.succeeds_pure trivial

theorem Offers.membersOf (hv : c.Offers v p) :
    (membersOf v).Succeeds c fun members => ∀ u ∈ members, p u := by
  unfold DynamicObjects.membersOf
  split
  · refine Eval.succeeds_pure fun u hu => ?_
    obtain ⟨entry, hentry, rfl⟩ := List.mem_map.mp hu
    exact hv.map _ rfl entry hentry
  · exact hv.elementsOf?.map fun _ h => h

variable (ha : c.Offers a p) (hb : c.Offers b q)
include ha hb

/-- Values are compared unless both sets are maps. -/
theorem keepsTo_differenceOf
    (hdata : a.isMap ∧ b.isMap ∨ (∀ u, p u → c.Data u) ∧ ∀ u, q u → c.Data u) :
    (differenceOf a b).KeepsTo c (.refusing .difference .error a .none) := by
  refine ha.isEmptySet.bind fun empty _ => ?_
  split
  · exact Eval.keepsTo_pure trivial
  refine hb.isEmptySet.bind fun empty _ => ?_
  split
  · exact Eval.keepsTo_pure trivial
  refine (succeeds_kind a).bind fun kind ⟨w, _, hkind⟩ => ?_
  rcases hdata with ⟨hamap, hbmap⟩ | ⟨hp, hq⟩
  · obtain ⟨entries, rfl⟩ := Value.isMap_iff.mp hamap
    obtain ⟨excluded, rfl⟩ := Value.isMap_iff.mp hbmap
    subst hkind
    exact Eval.keepsTo_pure trivial
  have hlist : (do
      let excluded ← membersOf b
      Eval.holding (.values excluded) do
        let items := (← elementsOf? a).getD []
        return Value.array (← sift false excluded items)).Succeeds c fun _ => True := by
    refine hb.membersOf.bind fun excluded hexcluded => Eval.Succeeds.holding _ ?_
    refine ha.elementsOf?.bind fun items? hitems => ?_
    exact (succeeds_sift false (fun u hu => hq u (hexcluded u hu)) fun u hu =>
      hp u (hitems u hu)).map fun _ _ => trivial
  split
  · exact keepsTo_refusing hlist
  · exact keepsTo_refusing hlist
  · have hentries := ha.map _ rfl
    split
    · exact Eval.keepsTo_pure trivial
    · refine hb.membersOf.bind fun excluded hexcluded => ?_
      have hsifted := succeeds_siftEntries (fun u hu => hq u (hexcluded u hu))
        fun entry hentry => hp _ (hentries entry hentry)
      exact keepsTo_refusing ((Eval.Succeeds.holding _ hsifted).map fun _ _ => trivial)
  · exact keepsTo_reportUnsupported _ _ _

/-- Values are compared unless one of the sets is a map. -/
theorem keepsTo_intersectionOf
    (hdata : a.isMap ∨ b.isMap ∨ (∀ u, p u → c.Data u) ∧ ∀ u, q u → c.Data u) :
    (intersectionOf a b).KeepsTo c (.refusing .intersection .error a .none) := by
  refine ha.isEmptySet.bind fun empty _ => ?_
  split
  · exact Eval.keepsTo_pure trivial
  refine (succeeds_kind a).bind fun kind ⟨w, _, hkind⟩ => ?_
  have hlist (hnotmap : a.isMap = false) : (do
      let items := (← elementsOf? a).getD []
      match b with
      | .map keys =>
        let known := Entries.index keys
        return Value.array (items.filter fun item => known.contains item.text)
      | b =>
        let other := (← Eval.holding (.values items) (elementsOf? b)).getD []
        return Value.array (← Eval.holding (.values other) (sift true other items))).Succeeds c
          fun _ => True := by
    refine ha.elementsOf?.bind fun items? hitems => ?_
    split
    · exact Eval.succeeds_pure trivial
    · rename_i hb'
      refine (Eval.Succeeds.holding _ hb.elementsOf?).bind fun other? hother => ?_
      rcases hdata with hmap | hmap | ⟨hp, hq⟩
      · rw [hmap] at hnotmap
        cases hnotmap
      · obtain ⟨entries, rfl⟩ := Value.isMap_iff.mp hmap
        exact absurd rfl (hb' entries)
      · have hsift := succeeds_sift true (fun u hu => hq u (hother u hu))
          fun u hu => hp u (hitems u hu)
        exact (Eval.Succeeds.holding _ hsift).map fun _ _ => trivial
  have hnotmap : kind.isListLike = true → a.isMap = false := by
    subst hkind
    cases a <;> simp [Value.isMap, World.kind, Kind.isListLike]
  split
  · exact keepsTo_refusing (hlist (hnotmap rfl))
  · exact keepsTo_refusing (hlist (hnotmap rfl))
  · split
    · exact Eval.keepsTo_pure trivial
    · exact keepsTo_refusing (hb.elementsOf?.map fun _ _ => trivial)
  · exact keepsTo_reportUnsupported _ _ _

end Sets

/-! ## Copying and merging -/

section Copying

theorem succeeds_copyItems {copyItem : Value → Eval Value} {items : List Value}
    (h : ∀ u ∈ items, (copyItem u).Succeeds c fun _ => True) :
    (copyItems copyItem items).Succeeds c fun _ => True := by
  induction items with
  | nil => exact Eval.succeeds_pure trivial
  | cons v rest ih =>
    have hrest := ih fun u hu => h u (.tail _ hu)
    refine (Eval.Succeeds.holding _ (h v List.mem_cons_self)).bind fun copied _ => ?_
    exact (Eval.Succeeds.holding _ hrest).map fun _ _ => trivial

theorem succeeds_copyEntries {copyItem : Value → Eval Value} {entries : List (Key × Value)}
    (h : ∀ entry ∈ entries, (copyItem entry.2).Succeeds c fun _ => True) (out : Draft Value) :
    (copyEntries copyItem entries out).Succeeds c fun _ => True := by
  induction entries generalizing out with
  | nil => exact Eval.succeeds_pure trivial
  | cons entry rest ih =>
    obtain ⟨key, v⟩ := entry
    have hcopied := Eval.Succeeds.holding (.draft out) (h (key, v) List.mem_cons_self)
    refine (Eval.Succeeds.holding _ hcopied).bind fun copied _ => ?_
    exact ih (fun entry hentry => h entry (.tail _ hentry)) _

variable [Host]

/-- A copy of a map is a map. -/
theorem Offers.copyValue_succ {depth : Nat} (hv : c.Offers v p)
    (h : ∀ u, p u → (DynamicObjects.copyValue depth u).Succeeds c fun _ => True) :
    (DynamicObjects.copyValue (depth + 1) v).Succeeds c fun copied => v.isMap → copied.isMap := by
  unfold DynamicObjects.copyValue
  split
  · exact Eval.succeeds_pure fun h => h
  · refine (succeeds_kind v).bind fun kind ⟨w, _, hkind⟩ => ?_
    have hitems : (do
        let items := (← DynamicObjects.collect v).map Prod.snd
        return Value.array (← copyItems (DynamicObjects.copyValue depth) items)).Succeeds c
          fun _ => True := by
      refine hv.collect.bind fun entries hentries => ?_
      refine (succeeds_copyItems fun u hu => ?_).map fun _ _ => trivial
      obtain ⟨entry, hentry, rfl⟩ := List.mem_map.mp hu
      exact h _ (hentries entry hentry)
    have hother (hlabel : kind ≠ .associative) (x : Eval Value) (hx : x.Succeeds c fun _ => True) :
        x.Succeeds c fun copied => v.isMap → copied.isMap := by
      refine hx.imp fun copied _ hmap => ?_
      obtain ⟨entries, rfl⟩ := Value.isMap_iff.mp hmap
      exact absurd hkind.symm hlabel
    split
    · refine hv.collect.bind fun entries hentries => ?_
      exact (succeeds_copyEntries (fun entry hentry => h _ (hentries entry hentry)) _).map
        fun _ _ _ => rfl
    · exact hother (by decide) _ hitems
    · exact hother (by decide) _ hitems
    · exact Eval.succeeds_pure fun h => h

theorem Opens.copyValue (hv : c.Opens v) (depth : Nat) :
    (DynamicObjects.copyValue depth v).Succeeds c fun _ => True := by
  induction depth generalizing v with
  | zero => exact Eval.succeeds_pure trivial
  | succ depth ih => exact (hv.offers.copyValue_succ fun u hu => ih hu).imp fun _ _ => trivial

/-- The value that is not supported when two values cannot be merged. -/
def unmerged (v other : Value) : Value :=
  match v with
  | .array _ | .map _ => other
  | _ => v

/-- Values are compared when the first one is an array. -/
theorem Offers.keepsTo_mergeValues {other : Value} (hother : c.Offers other q) (replace : Bool)
    (hdata : ∀ items, v = .array items → (∀ u ∈ items, c.Data u) ∧ ∀ u, q u → c.Data u) :
    (mergeValues v other replace).KeepsTo c (.refusing .merge .error (unmerged v other) v) := by
  unfold mergeValues
  split
  · rename_i items
    obtain ⟨hitems, hq⟩ := hdata items rfl
    refine hother.elementsOf?.bind fun extra? hextra => ?_
    split
    · have hout : ∀ u ∈ items.reverse, c.Data u := fun u hu => hitems u (List.mem_reverse.mp hu)
      have hadded := succeeds_addMissing (fun u hu => hq u (hextra u hu)) hout
      exact keepsTo_refusing (hadded.map fun _ _ => trivial)
    · exact keepsTo_reportUnsupported _ _ _
  · split
    · exact Eval.keepsTo_pure trivial
    · exact keepsTo_reportUnsupported _ _ _
  · rename_i harray hmap
    have hunmerged : unmerged v other = v := by
      unfold unmerged
      split
      · exact absurd rfl (harray _)
      · exact absurd rfl (hmap _)
      · rfl
    rw [hunmerged]
    split
    · exact keepsTo_reportUnsupported _ _ _
    · exact Eval.keepsTo_pure trivial

/-- Values are compared unless the first set is a map. -/
theorem Offers.keepsTo_unionOf (ha : c.Offers a p) (hb : c.Offers b q)
    (hdata : a.isMap ∨ (∀ u, p u → c.Data u) ∧ ∀ u, q u → c.Data u) :
    (unionOf a b).KeepsTo c (.refusing .union .error a .none) := by
  refine ha.isEmptySet.bind fun empty _ => ?_
  split
  · exact Eval.keepsTo_pure trivial
  refine hb.isEmptySet.bind fun empty _ => ?_
  split
  · exact Eval.keepsTo_pure trivial
  refine (succeeds_kind a).bind fun kind ⟨w, _, hkind⟩ => ?_
  have hlist (hlistlike : kind.isListLike = true) : (do
      let items := (← DynamicObjects.elementsOf? a).getD []
      let extra ← Eval.holding (.values items) (DynamicObjects.membersOf b)
      return Value.array (← addMissing extra items.reverse).reverse).Succeeds c fun _ => True := by
    refine ha.elementsOf?.bind fun items? hitems => ?_
    refine (Eval.Succeeds.holding _ hb.membersOf).bind fun extra hextra => ?_
    rcases hdata with hmap | ⟨hp, hq⟩
    · obtain ⟨entries, rfl⟩ := Value.isMap_iff.mp hmap
      subst hkind
      cases hlistlike
    · exact (succeeds_addMissing (fun u hu => hq u (hextra u hu)) fun u hu =>
        hp u (hitems u (List.mem_reverse.mp hu))).map fun _ _ => trivial
  split
  · exact keepsTo_refusing (hlist rfl)
  · exact keepsTo_refusing (hlist rfl)
  · split
    · have hcopy : (DynamicObjects.copyValue 1 _).Succeeds c _ :=
        ha.copyValue_succ fun u _ => Eval.succeeds_pure trivial
      refine hcopy.bind fun copied hcopied => ?_
      obtain ⟨entries, rfl⟩ := Value.isMap_iff.mp (hcopied rfl)
      exact Eval.keepsTo_pure trivial
    · exact keepsTo_refusing (hb.membersOf.map fun _ _ => trivial)
  · exact keepsTo_reportUnsupported _ _ _

end Copying

/-! ## Turning round and regrouping -/

section Regrouping

variable [Host]

theorem Offers.keepsTo_reverseValue (hv : c.Offers v p) :
    (reverseValue v).KeepsTo c (.refusing .reverse .error v .none) := by
  unfold reverseValue
  split
  · exact Eval.keepsTo_pure trivial
  · refine hv.elementsOf?.bind fun items? _ => ?_
    split
    · exact Eval.keepsTo_pure trivial
    · exact keepsTo_reportUnsupported _ _ _

theorem succeeds_addCouples {items : List Value} (h : ∀ u ∈ items, c.Opens u) (out : Draft Value) :
    (addCouples items out).Succeeds c fun _ => True := by
  induction items generalizing out with
  | nil => exact Eval.succeeds_pure trivial
  | cons couple rest ih =>
    have hrest := fun u hu => h u (.tail _ hu)
    have hcouple := (h couple List.mem_cons_self).offers.elementsOf?
    refine (Eval.Succeeds.holding _ (Eval.Succeeds.holding _ hcouple)).bind fun elements? _ => ?_
    split
    · exact ih hrest _
    · exact ih hrest _

theorem Opens.keepsTo_couplesToMap (hv : c.Opens v) :
    (couplesToMap v).KeepsTo c (.refusing .couplesAsMap .error v .none) := by
  refine hv.offers.elementsOf?.bind fun items? hitems => ?_
  split
  · exact keepsTo_refusing ((succeeds_addCouples hitems _).map fun _ _ => trivial)
  · exact keepsTo_reportUnsupported _ _ _

theorem Offers.keepsTo_itemsToMap (hv : c.Offers v p) :
    (itemsToMap v).KeepsTo c (.refusing .itemsAsMap .error v .none) := by
  refine hv.elementsOf?.bind fun items? _ => ?_
  split
  · exact Eval.keepsTo_pure trivial
  · exact keepsTo_reportUnsupported _ _ _

end Regrouping

end Circumstances

end DynamicObjects
