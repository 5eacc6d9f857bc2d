import DynamicObjects.Proofs.Collections.Membership
import DynamicObjects.Proofs.Collections.Positions
import DynamicObjects.Proofs.Collections.Telling

/-!
# Searches

Searches go over a container until they come to the first element that passes, and say so in
several ways: by its key, by the element itself, by the mere fact. They ask for equality from
different sides and loop each in their own way, but what they find is one thing, the first entry
whose value ties with the one looked for.

A position is told as a machine number, so the entries of a container have to be counted by such
numbers for a position to lead back to its element.

* `Value.HasEntries`: the entries of a container of data, each under its key.
* `IsFirst`, `Earliest`: the first key of its kind, and the earliest of several answers.
* `searches_agree`: what searches say about a container.
-/

namespace DynamicObjects

/-! ## Entries under their keys -/

/-- A container has entries: a sequence has its elements under their positions, a map its values
under their names. -/
inductive Value.HasEntries : Value → List (Key × Value) → Prop
  | sequence {c : Value} {items : List Value} (h : c.Represents items) :
      HasEntries c (indexedFrom 0 items)
  | map {entries : List (String × Value)} (h : Entries.Distinct entries) :
      HasEntries (.map entries) (namedEntries entries)

theorem getElem?_indexedFrom (i : Nat) (items : List Value) (j : Nat) :
    (indexedFrom i items)[j]? = items[j]?.map fun v => (.index (i + j), v) := by
  induction items generalizing i j with
  | nil => rfl
  | cons v rest ih =>
    rw [indexedFrom]
    cases j with
    | zero => rfl
    | succ j =>
      rw [List.getElem?_cons_succ, List.getElem?_cons_succ, ih, Nat.add_right_comm, Nat.add_assoc]

/-- Positions that are machine numbers are told apart, and none of them is minus one. -/
theorem nodup_toValue_indexKeys {count : Nat} (hfits : count ≤ Int64.maxValue.toInt) :
    ((indexKeys 0 count).map Key.toValue).Nodup ∧
      .integer (-1) ∉ (indexKeys 0 count).map Key.toValue := by
  have hvalue {i : Nat} (hi : i < count) : (Int64.ofNat i).toInt = i :=
    toInt_ofNat_of_fits (by omega)
  have hkeys : (indexKeys 0 count).map Key.toValue = (List.range count).map Value.ofNat := by
    rw [indexKeys, List.map_map, List.range_eq_range']
    rfl
  rw [hkeys]
  constructor
  · refine List.Nodup.map_on ?_ List.nodup_range
    intro i hi j hj heq
    have hnumber : (Int64.ofNat i).toInt = (Int64.ofNat j).toInt := by
      rw [Value.integer.inj heq]
    rw [hvalue (List.mem_range.mp hi), hvalue (List.mem_range.mp hj)] at hnumber
    exact Int.ofNat_inj.mp hnumber
  · intro hmem
    obtain ⟨i, hi, heq⟩ := List.mem_map.mp hmem
    have hnumber : (Int64.ofNat i).toInt = (-1 : Int64).toInt := by
      rw [Value.integer.inj heq]
    rw [hvalue (List.mem_range.mp hi)] at hnumber
    have hminus : (-1 : Int64).toInt = -1 := by decide
    omega

namespace Value.HasEntries

variable {σ : Type} {c : Value} {entries : List (Key × Value)} {entry : Key × Value}

theorem nodup_toValue (h : c.HasEntries entries)
    (hfits : entries.length ≤ Int64.maxValue.toInt) :
    ((entries.map Prod.fst).map Key.toValue).Nodup ∧
      .integer (-1) ∉ (entries.map Prod.fst).map Key.toValue := by
  cases h with
  | sequence h =>
    rw [← List.length_map Prod.snd, map_snd_indexedFrom] at hfits
    rw [keys_indexedFrom]
    exact nodup_toValue_indexKeys hfits
  | @map entries h =>
    have hkeys : ((namedEntries entries).map Prod.fst).map Key.toValue =
        (Entries.keys entries).map Value.string := by
      rw [namedEntries, List.map_map, List.map_map, Entries.keys, List.map_map]
      rfl
    rw [hkeys]
    refine ⟨List.Nodup.map (fun _ _ => Value.string.inj) h, ?_⟩
    intro hmem
    obtain ⟨_, _, heq⟩ := List.mem_map.mp hmem
    cases heq

theorem eq_of_array {items : List Value} (h : (Value.array items).HasEntries entries) :
    entries = indexedFrom 0 items := by
  cases h with
  | sequence h =>
    cases h
    rfl

theorem isAbsent_eq (h : c.HasEntries entries) : c.isAbsent = false := by
  cases h with
  | sequence h => exact h.isAbsent_eq
  | map => rfl

theorem hasMembers (h : c.HasEntries entries) (w : World) :
    w.HasMembers c (entries.map Prod.snd) := by
  cases h with
  | @sequence _ items h =>
    rw [map_snd_indexedFrom]
    exact .sequence h
  | @map entries h =>
    rw [map_snd_namedEntries]
    exact .map entries

section Access

variable [Host] (h : c.HasEntries entries)
include h

theorem run_eq (walk : Walk σ) (start : σ) :
    walk.run start c = walk.visitEach entries start := by
  cases h with
  | sequence h => exact h.run_eq walk start
  | map => rfl

theorem collect_eq : collect c = pure entries := by
  cases h with
  | sequence h => exact h.collect_eq
  | map => exact collect_map _

theorem entriesOf?_eq : entriesOf? c = pure (some entries) := by
  have hentries : entriesOf? c = some <$> collect c := by
    cases h with
    | sequence h => cases h <;> rfl
    | map => rfl
  rw [hentries, h.collect_eq, map_pure]

theorem keysOf_eq : keysOf c = pure (.array ((entries.map Prod.fst).map Key.toValue)) := by
  simp only [keysOf, listing, h.isAbsent_eq, h.entriesOf?_eq, pure_bind, List.map_map]
  rfl

/-- An element is found under its key. -/
theorem accessValue_eq (hfits : entries.length ≤ Int64.maxValue.toInt)
    (hentry : entry ∈ entries) : accessValue c entry.1.toValue = pure entry.2 := by
  cases h with
  | @sequence _ items h =>
    obtain ⟨i, hi⟩ := List.mem_iff_getElem?.mp hentry
    rw [getElem?_indexedFrom, Nat.zero_add] at hi
    obtain ⟨v, hv, rfl⟩ := Option.map_eq_some_iff.mp hi
    rw [← List.length_map Prod.snd, map_snd_indexedFrom] at hfits
    have hlength : i < items.length := (List.getElem?_eq_some_iff.mp hv).1
    have hnumber : (Int64.ofNat i).toInt = i := toInt_ofNat_of_fits (by omega)
    have hcounted : countedPosition items.length (Int64.ofNat i) = i := by
      rw [countedPosition, hnumber, if_pos (Int.natCast_nonneg i)]
    have hlaid : c.LaidOut .elements items := .sequence h
    have haccess : accessValue c (Key.index i).toValue =
        accessValue c (.integer (Int64.ofNat i)) := rfl
    rw [haccess, hlaid.accessValue_eq hfits, hcounted, if_pos (Int.natCast_nonneg i),
      Int.toNat_natCast, hlaid.elementAt_eq, hv]
    rfl
  | @map entries h =>
    obtain ⟨⟨name, v⟩, hmem, rfl⟩ := List.mem_map.mp hentry
    have hfind : Entries.find? name entries = some v := (Entries.find?_eq_some_iff h).mpr hmem
    have haccess : accessValue (.map entries) (Key.name name).toValue =
        pure ((Entries.find? name entries).getD .undefined) := rfl
    rw [haccess, hfind]
    rfl

end Access

end Value.HasEntries

/-! ## What searches find -/

section Searching

variable [Host] {w : World} {c x v : Value} {entries : List (Key × Value)} {items : List Value}
  {p : Key × Value → Bool}

theorem yields_findPosition (hc : c.HasEntries entries) (test : Value → Key → Eval Bool)
    (htest : ∀ entry ∈ entries, (test entry.2 entry.1).Yields w (p entry)) :
    (findPosition test c).Yields w ((entries.find? p).map Prod.fst) := by
  have hvisit : ∀ entry ∈ entries, ((Walk.position test).visit none entry.2 entry.1).Yields w
      (if p entry then (.stop, some entry.1) else (.proceed, none)) := by
    intro entry hentry
    have hanswer := htest entry hentry
    cases hp : p entry with
    | true | false =>
      rw [hp] at hanswer
      exact Eval.yields_bind hanswer (Eval.yields_pure _)
  have hsearch := yields_visitEach_first (fun entry => (Flow.stop, some entry.1))
    (fun _ => nofun) hvisit
  rw [← hc.run_eq] at hsearch
  cases hfound : entries.find? p with
  | none | some =>
    rw [hfound] at hsearch
    exact Eval.yields_bind hsearch (Eval.yields_pure _)

theorem yields_firstOf (hc : c.HasEntries entries) {f : Function}
    (htest : ∀ entry ∈ entries, (callTest f entry.2 entry.1).Yields w (p entry)) :
    (firstOf c (some f)).Yields w (((entries.find? p).map Prod.snd).getD .none) := by
  have hvisit : ∀ entry ∈ entries, ((Walk.stateless fun v key => do
      if ← passes (some f) v key then return .answer v else return .proceed).visit () entry.2
        entry.1).Yields w (if p entry then (.answer entry.2, ()) else (.proceed, ())) := by
    intro entry hentry
    have hanswer := htest entry hentry
    cases hp : p entry with
    | true | false =>
      rw [hp] at hanswer
      exact Eval.yields_bind (Eval.yields_bind hanswer (Eval.yields_pure _)) (Eval.yields_pure _)
  have hsearch := yields_visitEach_first (fun entry => (Flow.answer entry.2, ()))
    (fun _ => nofun) hvisit
  rw [← hc.run_eq] at hsearch
  cases hfound : entries.find? p with
  | none | some =>
    rw [hfound] at hsearch
    exact Eval.yields_bind (Eval.yields_bind hsearch (Eval.yields_pure _)) (Eval.yields_pure _)

theorem yields_placeOfEqual (hx : w.IsData x) (hitems : ∀ v ∈ items, w.IsData v) (i : Nat) :
    (placeOfEqual x i items).Yields w
      ((items.findIdx? fun v => v.order x == .eq).map (i + ·)) := by
  induction items generalizing i with
  | nil => exact Eval.yields_pure _
  | cons v rest ih =>
    obtain ⟨hv, hrest⟩ := List.forall_mem_cons.mp hitems
    refine Eval.yields_bind (yields_equals hv hx) ?_
    rw [List.findIdx?_cons]
    split
    · exact Eval.yields_pure _
    · have hlater := ih hrest (i + 1)
      have hshift (j : Nat) : i + 1 + j = i + (j + 1) := by omega
      simpa only [Option.map_map, Function.comp_def, hshift] using hlater

omit [Host] in
/-- The place of the first value that ties is where it is found among the entries. -/
theorem find?_indexedFrom (x : Value) (i : Nat) (items : List Value) :
    ((indexedFrom i items).find? x.tiesAt).map Prod.fst =
      (items.findIdx? fun v => v.order x == .eq).map fun j => .index (i + j) := by
  induction items generalizing i with
  | nil => rfl
  | cons v rest ih =>
    rw [indexedFrom, List.findIdx?_cons]
    cases htie : v.order x == .eq with
    | true =>
      have hfirst : x.tiesAt (.index i, v) = true := htie
      rw [List.find?_cons_of_pos hfirst, if_pos rfl]
      rfl
    | false =>
      have hfirst : ¬ x.tiesAt (.index i, v) = true := Bool.eq_false_iff.mp htie
      have hshift (j : Nat) : i + 1 + j = i + (j + 1) := by omega
      rw [List.find?_cons_of_neg hfirst, ih, if_neg Bool.false_ne_true, Option.map_map]
      simp only [Function.comp_def, hshift]

/-- An array without the first value that ties is what removing by value and by position give. -/
theorem yields_apply_remove (hx : w.IsData x) (hitems : ∀ v ∈ items, w.IsData v) :
    (Builtin.remove.apply [.array items, x]).Yields w
      (.array (items.eraseP fun v => v.order x == .eq)) := by
  have hplace := yields_placeOfEqual hx hitems 0
  rw [List.eraseP_eq_eraseIdx]
  refine yields_apply (n := 2) rfl (by decide) <| Eval.yields_bind (Eval.yields_pure _) ?_
  refine Eval.yields_bind hplace ?_
  cases hfound : items.findIdx? fun v => v.order x == .eq with
  | none => exact Eval.yields_pure _
  | some i =>
    have hi : i < items.length := (List.findIdx?_eq_some_iff_findIdx_eq.mp hfound).1
    have hremove : removeAt items (0 + i) = pure (items.eraseIdx i) := by
      rw [Nat.zero_add]
      exact if_pos hi
    refine Eval.yields_bind ?_ (Eval.yields_pure _)
    rw [hremove]
    exact Eval.yields_pure _

theorem yields_apply_removeAt (hfits : items.length ≤ Int64.maxValue.toInt) {place : Option Nat}
    (hplace : ∀ i, place = some i → i < items.length) :
    (Builtin.removeAt.apply [.array items, positionValue (place.map .index)]).Yields w
      (.array (place.elim items items.eraseIdx)) := by
  refine yields_apply (n := 2) rfl (by decide) <| Eval.yields_bind (Eval.yields_pure _) ?_
  cases place with
  | none => exact Eval.yields_pure _
  | some i =>
    have hi := hplace i rfl
    have hnumber : (Int64.ofNat i).toInt = i := toInt_ofNat_of_fits (by omega)
    have hposition : removePosition (.array items) (.integer (Int64.ofNat i)) =
        pure (.array (items.eraseIdx i)) := by
      rw [removePosition, hnumber, Int.toNat_natCast, if_pos ⟨Int.natCast_nonneg i, hi⟩, removeAt,
        if_pos hi]
      rfl
    change (removePosition (.array items) (.integer (Int64.ofNat i))).Yields w _
    rw [hposition]
    exact Eval.yields_pure _

end Searching

/-! ## The first of a kind -/

/-- A value is the first one that is hit, and those before it are missed. -/
inductive IsFirst {α : Type} (hit miss : α → Prop) : List α → α → Prop
  | here {a : α} {rest : List α} (hhit : hit a) : IsFirst hit miss (a :: rest) a
  | later {a b : α} {rest : List α} (hmiss : miss b) (hrest : IsFirst hit miss rest a) :
      IsFirst hit miss (b :: rest) a

/-- The earliest of several answers of searches by the order of keys, if any of them is a key. -/
inductive Earliest (keys answers : List Value) : Value → Prop
  | key {key : Value} (h : IsFirst (· ∈ answers) (· ∉ answers) keys key) :
      Earliest keys answers key
  | none (h : ∀ answer ∈ answers, answer = .integer (-1)) : Earliest keys answers (.integer (-1))

theorem isFirst_of_find? {α β : Type} {p : α → Bool} {f : α → β} {hit miss : β → Prop}
    {all : List α} {found : α} (h : all.find? p = some found) (hhit : hit (f found))
    (hmiss : ∀ a ∈ all, p a = false → miss (f a)) : IsFirst hit miss (all.map f) (f found) := by
  induction all with
  | nil => cases h
  | cons a rest ih =>
    obtain ⟨hfirst, hrest⟩ := List.forall_mem_cons.mp hmiss
    cases hp : p a with
    | true =>
      rw [List.find?_cons_of_pos hp] at h
      cases h
      exact .here hhit
    | false =>
      rw [List.find?_cons_of_neg (Bool.eq_false_iff.mp hp)] at h
      exact .later (hfirst hp) (ih h hrest)

/-- What is found by a wider search is found first by one of those that it is made of. -/
theorem find?_eq_of_any {α ι : Type} {p : α → Bool} {q : ι → α → Bool} {parts : List ι}
    {all : List α} {found : α} (hpq : ∀ a, p a = parts.any fun i => q i a)
    (h : all.find? p = some found) : ∃ i ∈ parts, all.find? (q i) = some found := by
  obtain ⟨hfound, before, after, rfl, hbefore⟩ := List.find?_eq_some_iff_append.mp h
  rw [hpq, List.any_eq_true] at hfound
  obtain ⟨i, hi, hqi⟩ := hfound
  refine ⟨i, hi, List.find?_eq_some_iff_append.mpr ⟨hqi, before, after, rfl, fun a ha => ?_⟩⟩
  have hmissed := hbefore a ha
  rw [hpq, Bool.not_eq_true', List.any_eq_false] at hmissed
  simpa using hmissed i hi

/-! ## Answers of searches -/

/-- The answer of a search for entries that pass a test. -/
def answerOf (p : Key × Value → Bool) (entries : List (Key × Value)) : Value :=
  positionValue ((entries.find? p).map Prod.fst)

section Answers

variable {c : Value} {entries : List (Key × Value)} {entry : Key × Value}
  (hc : c.HasEntries entries) (hfits : entries.length ≤ Int64.maxValue.toInt)
include hc hfits

theorem answerOf_eq_key_iff (p : Key × Value → Bool) (hentry : entry ∈ entries) :
    answerOf p entries = entry.1.toValue ↔ entries.find? p = some entry := by
  obtain ⟨hnodup, hminus⟩ := hc.nodup_toValue hfits
  rw [List.map_map] at hnodup hminus
  unfold answerOf
  cases hfound : entries.find? p with
  | none =>
    -- The answer that nothing is found is no key.
    refine iff_of_false (fun heq => ?_) nofun
    have hkey : Value.integer (-1) = entry.1.toValue := heq
    rw [hkey] at hminus
    exact hminus (List.mem_map_of_mem hentry)
  | some found =>
    have hmem := List.mem_of_find?_eq_some hfound
    constructor
    · intro heq
      rw [List.inj_on_of_nodup_map hnodup hmem hentry heq]
    · rintro ⟨⟩
      rfl

theorem answerOf_eq_minus_one_iff (p : Key × Value → Bool) :
    answerOf p entries = .integer (-1) ↔ entries.find? p = none := by
  obtain ⟨-, hminus⟩ := hc.nodup_toValue hfits
  rw [List.map_map] at hminus
  unfold answerOf
  cases hfound : entries.find? p with
  | none => exact iff_of_true rfl rfl
  | some found =>
    refine iff_of_false (fun heq => ?_) nofun
    have hkey : found.1.toValue = Value.integer (-1) := heq
    rw [← hkey] at hminus
    exact hminus (List.mem_map_of_mem (List.mem_of_find?_eq_some hfound))

/-- Among the answers for several values, the earliest one is that for all of them. -/
theorem earliest_answerOf (ys : List Value) :
    Earliest ((entries.map Prod.fst).map Key.toValue) (ys.map fun y => answerOf y.tiesAt entries)
      (answerOf (fun entry => entry.2.isAmong ys) entries) := by
  cases hfound : entries.find? fun entry => entry.2.isAmong ys with
  | none =>
    rw [(answerOf_eq_minus_one_iff hc hfits _).mpr hfound]
    refine .none fun answer hanswer => ?_
    obtain ⟨y, hy, rfl⟩ := List.mem_map.mp hanswer
    refine (answerOf_eq_minus_one_iff hc hfits _).mpr (List.find?_eq_none.mpr ?_)
    intro entry hentry hties
    refine List.find?_eq_none.mp hfound entry hentry ?_
    rw [Value.isAmong_eq_any_tiesAt]
    exact List.any_eq_true.mpr ⟨y, hy, hties⟩
  | some found =>
    have hmem := List.mem_of_find?_eq_some hfound
    obtain ⟨y, hy, hfirst⟩ := find?_eq_of_any (Value.isAmong_eq_any_tiesAt ys) hfound
    rw [(answerOf_eq_key_iff hc hfits _ hmem).mpr hfound, List.map_map]
    refine .key (isFirst_of_find? hfound ?_ ?_)
    · exact List.mem_map.mpr ⟨y, hy, (answerOf_eq_key_iff hc hfits _ hmem).mpr hfirst⟩
    · intro entry hentry hmissed hanswer
      obtain ⟨z, hz, hkey⟩ := List.mem_map.mp hanswer
      have hties := List.find?_some ((answerOf_eq_key_iff hc hfits _ hentry).mp hkey)
      rw [Value.isAmong_eq_any_tiesAt, List.any_eq_false] at hmissed
      exact hmissed z hz hties

end Answers

/-! ## Agreement -/

section Agreement

variable [Host] {w : World} {c x : Value} {entries : List (Key × Value)}

/-- Whether the element under a key equals a value. -/
def equalsUnder (c key x : Value) : Eval Bool := do (← Builtin.access.apply [c, key]).equals x

/-- A function tells which entries have a value that equals another one. -/
def Function.TellsEqual (f : Function) (w : World) (x : Value) (entries : List (Key × Value)) :
    Prop :=
  ∀ entry ∈ entries, ∃ answer, (callVisit f entry.2 entry.1).Yields w answer ∧
    (entry.2.equals x).Yields w answer.isTruthy

/-- What searches for a value answer: whether it is present, and the key of the first element
that equals it. -/
structure Sought (w : World) (c x : Value) (f : Function) (keys : List Value) (present : Bool)
    (key : Value) : Prop where
  isIn_yields : (Builtin.isIn.apply [x, c]).Yields w (.boolean present)
  find_yields : (Builtin.find.apply [c, x]).Yields w key
  absent_iff : key = .integer (-1) ↔ present = false
  isFirst : present = true → IsFirst (fun k => (equalsUnder c k x).Yields w true)
    (fun k => (equalsUnder c k x).Yields w false) keys key
  findOneOf_yields : (Builtin.findOneOf.apply [c, .array [x]]).Yields w key
  findLike_yields : (Builtin.findLike.apply [c, .function f]).Yields w key
  first_yields : present = true → ∃ v, (Builtin.access.apply [c, key]).Yields w v ∧
    (Builtin.first.apply [c, .function f]).Yields w v

variable {xs : Value} {ys keys : List Value} {f : Function} {entry : Key × Value}

theorem yields_apply_access (hc : c.HasEntries entries)
    (hfits : entries.length ≤ Int64.maxValue.toInt) (hentry : entry ∈ entries) :
    (Builtin.access.apply [c, entry.1.toValue]).Yields w entry.2 := by
  refine yields_apply (n := 2) rfl (by decide) <| Eval.yields_bind (Eval.yields_pure c) <|
    Eval.yields_bind (Eval.yields_pure entry.1.toValue) ?_
  rw [hc.accessValue_eq hfits hentry]
  exact Eval.yields_pure _

theorem yields_equalsUnder (hc : c.HasEntries entries)
    (hfits : entries.length ≤ Int64.maxValue.toInt) (hdata : ∀ entry ∈ entries, w.IsData entry.2)
    (hx : w.IsData x) (hentry : entry ∈ entries) :
    (equalsUnder c entry.1.toValue x).Yields w (x.tiesAt entry) :=
  Eval.yields_bind (yields_apply_access hc hfits hentry) (yields_equals (hdata entry hentry) hx)

theorem Function.TellsEqual.yields_callTest (hf : f.TellsEqual w x entries)
    (hdata : ∀ entry ∈ entries, w.IsData entry.2) (hx : w.IsData x) (hentry : entry ∈ entries) :
    (callTest f entry.2 entry.1).Yields w (x.tiesAt entry) := by
  obtain ⟨answer, hanswer, hequals⟩ := hf entry hentry
  have hties : answer.isTruthy = x.tiesAt entry :=
    hequals.unique (yields_equals (hdata entry hentry) hx)
  rw [← hties]
  exact Eval.yields_bind hanswer (Eval.yields_pure _)

theorem yields_apply_find (hc : c.HasEntries entries) (hdata : ∀ entry ∈ entries, w.IsData entry.2)
    (hx : w.IsData x) : (Builtin.find.apply [c, x]).Yields w (answerOf x.tiesAt entries) := by
  have hfound := yields_findPosition hc (fun v _ => v.equals x)
    fun entry hentry => yields_equals (hdata entry hentry) hx
  exact yields_apply (n := 2) rfl (by decide) <| Eval.yields_bind (Eval.yields_pure c) <|
    Eval.yields_bind (Eval.yields_pure x) <| Eval.yields_bind hfound (Eval.yields_pure _)

theorem yields_apply_findOneOf (hc : c.HasEntries entries)
    (hdata : ∀ entry ∈ entries, w.IsData entry.2) (hxs : w.HasMembers xs ys)
    (hys : ∀ y ∈ ys, w.IsData y) : (Builtin.findOneOf.apply [c, xs]).Yields w
      (answerOf (fun entry => entry.2.isAmong ys) entries) := by
  have hfound := yields_findPosition hc (fun v _ => isInContainer v xs none)
    fun entry hentry => yields_isInContainer (hdata entry hentry) hxs hys
  exact yields_apply (n := 2) rfl (by decide) <| Eval.yields_bind (Eval.yields_pure c) <|
    Eval.yields_bind (Eval.yields_pure xs) <| Eval.yields_bind hfound (Eval.yields_pure _)

section Sought

variable (hc : c.HasEntries entries) (hfits : entries.length ≤ Int64.maxValue.toInt)
  (hdata : ∀ entry ∈ entries, w.IsData entry.2) (hx : w.IsData x)
include hc hdata hx

theorem yields_apply_isIn_entries :
    (Builtin.isIn.apply [x, c]).Yields w (.boolean (entries.find? x.tiesAt).isSome) := by
  rw [← Value.isAmong_map_snd]
  refine yields_apply_isIn hx (hc.hasMembers w) fun v hv => ?_
  obtain ⟨entry, hentry, rfl⟩ := List.mem_map.mp hv
  exact hdata entry hentry

theorem yields_apply_findOneOf_singleton :
    (Builtin.findOneOf.apply [c, .array [x]]).Yields w (answerOf x.tiesAt entries) := by
  have hone : (fun entry : Key × Value => entry.2.isAmong [x]) = x.tiesAt := by
    funext entry
    exact Value.isAmong_singleton x entry
  rw [← hone]
  exact yields_apply_findOneOf hc hdata (.sequence (.array [x])) (List.forall_mem_singleton.mpr hx)

include hfits

theorem sought (hf : f.TellsEqual w x entries) :
    Sought w c x f ((entries.map Prod.fst).map Key.toValue) (entries.find? x.tiesAt).isSome
      (answerOf x.tiesAt entries) := by
  have htest : ∀ entry ∈ entries, (callTest f entry.2 entry.1).Yields w (x.tiesAt entry) :=
    fun entry hentry => hf.yields_callTest hdata hx hentry
  have hequals {entry : Key × Value} (hentry : entry ∈ entries) :
      (equalsUnder c entry.1.toValue x).Yields w (x.tiesAt entry) :=
    yields_equalsUnder hc hfits hdata hx hentry
  have hfirst : (Builtin.first.apply [c, .function f]).Yields w
      (((entries.find? x.tiesAt).map Prod.snd).getD .none) :=
    yields_apply (n := 2) rfl (by decide) <| Eval.yields_bind (Eval.yields_pure c) <|
      Eval.yields_bind (Eval.yields_pure (some f)) (yields_firstOf hc htest)
  exact {
    isIn_yields := yields_apply_isIn_entries hc hdata hx
    find_yields := yields_apply_find hc hdata hx
    absent_iff := by
      rw [answerOf_eq_minus_one_iff hc hfits, Option.isSome_eq_false_iff, Option.isNone_iff_eq_none]
    isFirst := by
      intro hpresent
      obtain ⟨found, hfound⟩ := Option.isSome_iff_exists.mp hpresent
      have hmem := List.mem_of_find?_eq_some hfound
      rw [(answerOf_eq_key_iff hc hfits _ hmem).mpr hfound, List.map_map]
      refine isFirst_of_find? hfound ?_ fun entry hentry hmissed => ?_
      · have hhit := hequals hmem
        rwa [List.find?_some hfound] at hhit
      · have hmiss := hequals hentry
        rwa [hmissed] at hmiss
    findOneOf_yields := yields_apply_findOneOf_singleton hc hdata hx
    findLike_yields := yields_apply (n := 2) rfl (by decide) <|
      Eval.yields_bind (Eval.yields_pure c) <| Eval.yields_bind (Eval.yields_pure f) <|
        Eval.yields_bind (yields_findPosition hc _ htest) (Eval.yields_pure _)
    first_yields := by
      intro hpresent
      obtain ⟨found, hfound⟩ := Option.isSome_iff_exists.mp hpresent
      have hmem := List.mem_of_find?_eq_some hfound
      rw [hfound] at hfirst
      rw [(answerOf_eq_key_iff hc hfits _ hmem).mpr hfound]
      exact ⟨found.2, yields_apply_access hc hfits hmem, hfirst⟩ }

end Sought

/-- An array without the first element that ties: by the value, and by the answer of a search for
it. -/
theorem yields_apply_removeAt_find {items : List Value}
    (hc : (Value.array items).HasEntries entries) (hfits : entries.length ≤ Int64.maxValue.toInt)
    (hdata : ∀ entry ∈ entries, w.IsData entry.2) (hx : w.IsData x) :
    (do Builtin.removeAt.apply [.array items, ← Builtin.find.apply [.array items, x]]
      : Eval Value).Yields w (.array (items.eraseP fun v => v.order x == .eq)) := by
  have hfind := yields_apply_find hc hdata hx
  obtain rfl := hc.eq_of_array
  have hanswer : answerOf x.tiesAt (indexedFrom 0 items) =
      positionValue ((items.findIdx? fun v => v.order x == .eq).map .index) := by
    simp only [answerOf, find?_indexedFrom, Nat.zero_add]
  rw [← List.length_map Prod.snd, map_snd_indexedFrom] at hfits
  have hkept : items.eraseP (fun v => v.order x == .eq) =
      (items.findIdx? fun v => v.order x == .eq).elim items items.eraseIdx := by
    rw [List.eraseP_eq_eraseIdx]
    cases items.findIdx? fun v => v.order x == .eq <;> rfl
  rw [hanswer] at hfind
  rw [hkept]
  refine Eval.yields_bind hfind (yields_apply_removeAt hfits fun i hplace => ?_)
  exact (List.findIdx?_eq_some_iff_findIdx_eq.mp hplace).1

/-- **Searches agree.** A value is found exactly where it is present; its key, by every search
that tells one, is the first key under which the container has an element equal to it, and the
first element that passes a test for equality is that element. The answer of a search for several
values is the earliest of the answers for each of them. Removing a value from an array removes
what is at the position that is found. -/
theorem searches_agree {xs : Value} {ys : List Value} {f : Function} (hc : c.HasEntries entries)
    (hfits : entries.length ≤ Int64.maxValue.toInt) (hdata : ∀ entry ∈ entries, w.IsData entry.2)
    (hx : w.IsData x) (hf : f.TellsEqual w x entries) (hxs : w.HasMembers xs ys)
    (hys : ∀ y ∈ ys, w.IsData y) :
    ∃ keys, (Builtin.keys.apply [c]).Yields w (.array keys) ∧
      (∃ present key, Sought w c x f keys present key) ∧
      (∃ answers answer, List.Forall₂ (fun y answer => (Builtin.find.apply [c, y]).Yields w answer)
          ys answers ∧
        (Builtin.findOneOf.apply [c, xs]).Yields w answer ∧ Earliest keys answers answer) ∧
      ∀ items, c = .array items → ∃ kept, (Builtin.remove.apply [c, x]).Yields w (.array kept) ∧
        (do Builtin.removeAt.apply [c, ← Builtin.find.apply [c, x]]).Yields w (.array kept) := by
  refine ⟨(entries.map Prod.fst).map Key.toValue, ?_, ⟨_, _, sought hc hfits hdata hx hf⟩,
    ⟨ys.map fun y => answerOf y.tiesAt entries, _, ?_, yields_apply_findOneOf hc hdata hxs hys,
      earliest_answerOf hc hfits ys⟩, ?_⟩
  · refine yields_apply (n := 1) rfl (by decide) <| Eval.yields_bind (Eval.yields_pure c) ?_
    change (keysOf c).Yields w _
    rw [hc.keysOf_eq]
    exact Eval.yields_pure _
  · rw [List.forall₂_map_right_iff]
    exact List.forall₂_same.mpr fun y hy => yields_apply_find hc hdata (hys y hy)
  · rintro items rfl
    have hitems : ∀ v ∈ items, w.IsData v := by
      intro v hv
      rw [← map_snd_indexedFrom 0 items, ← hc.eq_of_array] at hv
      obtain ⟨entry, hentry, rfl⟩ := List.mem_map.mp hv
      exact hdata entry hentry
    exact ⟨_, yields_apply_remove hx hitems, yields_apply_removeAt_find hc hfits hdata hx⟩

end Agreement

/-- Of a float and an integer that are one number, the one that comes first is found. -/
theorem searches_agree_numbers :
    let body : Script.Expr := .perform (.value (.call .isIn))
      [.argument (.integer 0), .perform (.value .makeArray) [.integer 2]]
    let isTwo : Function := ⟨0, "isTwo", .script body⟩
    let items : List Value := [.string "b", .float ⟨0x4000000000000000⟩, .integer 2]
    let c : Value := .array items
    let x : Value := .integer 2
    let xs : Value := .map [("number", .integer 2), ("letter", .string "b")]
    let _ := Script.hostWithin 2
    (c.HasEntries (indexedFrom 0 items) ∧ isTwo.TellsEqual {} x (indexedFrom 0 items) ∧
      ({} : World).HasMembers xs [.integer 2, .string "b"]) ∧
    (∃ keys, (Builtin.keys.apply [c]).Yields {} (.array keys) ∧
      Sought {} c x isTwo keys true (.integer 1)) ∧
    ∃ kept, (Builtin.remove.apply [c, x]).Yields {} (.array kept) ∧
      (do Builtin.removeAt.apply [c, ← Builtin.find.apply [c, x]]).Yields {} (.array kept) := by
  intro body isTwo items c x xs _
  have hc : c.HasEntries (indexedFrom 0 items) := .sequence (.array items)
  have hfits : (indexedFrom 0 items).length ≤ Int64.maxValue.toInt := by decide
  have hdata : ∀ entry ∈ indexedFrom 0 items, ({} : World).IsData entry.2 := by
    intro entry hentry
    simp only [items, indexedFrom, List.mem_cons, List.not_mem_nil, or_false] at hentry
    rcases hentry with rfl | rfl | rfl <;> exact .atom trivial
  have hx : ({} : World).IsData x := .atom trivial
  have hf : isTwo.TellsEqual {} x (indexedFrom 0 items) := by
    intro entry hentry
    have hv := hdata entry hentry
    have hbody : (@Script.evaluate (Script.hostWithin 0)
        ⟨.undefined, [entry.2, entry.1.toValue]⟩ body).Yields {}
        (.value (.boolean (entry.2.isAmong [x]))) := by
      let _ := Script.hostWithin 0
      have hoperands : (Script.evaluateAll ⟨.undefined, [entry.2, entry.1.toValue]⟩
          [.argument (.integer 0), .perform (.value .makeArray) [.integer 2]]).Yields {}
          [.value entry.2, .value (.array [x])] := fun _ _ => ⟨#[], by simp, rfl⟩
      have hisIn := yields_apply_isIn hv (.sequence (.array [x])) (List.forall_mem_singleton.mpr hx)
      exact Eval.yields_bind hoperands <| Eval.yields_holding _ <|
        Eval.yields_bind (Eval.yields_pure [entry.2, .array [x]]) <|
          Eval.yields_bind hisIn (Eval.yields_pure _)
    have hcall : (callVisit isTwo entry.2 entry.1).Yields {} (.boolean (entry.2.isAmong [x])) :=
      Eval.yields_holding (.values [.undefined, entry.2, entry.1.toValue])
        (Eval.yields_bind (f := Item.toValue) hbody (Eval.yields_pure _))
    refine ⟨_, hcall, ?_⟩
    have hequals : (entry.2.equals x).Yields {} (x.tiesAt entry) := yields_equals hv hx
    rwa [← Value.isAmong_singleton] at hequals
  have hxs : ({} : World).HasMembers xs [.integer 2, .string "b"] := .map _
  have hys : ∀ y ∈ [Value.integer 2, .string "b"], ({} : World).IsData y := by
    intro y hy
    simp only [List.mem_cons, List.not_mem_nil, or_false] at hy
    rcases hy with rfl | rfl <;> exact .atom trivial
  obtain ⟨keys, hkeys, ⟨present, key, hsought⟩, -, hremove⟩ :=
    searches_agree hc hfits hdata hx hf hxs hys
  have hpresent : present = true := by
    have hfound : ((indexedFrom 0 items).find? x.tiesAt).isSome = true := by decide +kernel
    have hanswer := hsought.isIn_yields.unique (yields_apply_isIn_entries hc hdata hx)
    rwa [hfound, Value.boolean.injEq] at hanswer
  have hkey : key = .integer 1 := by
    have hfound : ((indexedFrom 0 items).find? x.tiesAt).map Prod.fst = some (.index 1) := by
      decide +kernel
    have hanswer := hsought.find_yields.unique (yields_apply_find hc hdata hx)
    rwa [answerOf, hfound] at hanswer
  rw [hpresent, hkey] at hsought
  exact ⟨⟨hc, hf, hxs⟩, ⟨keys, hkeys, hsought⟩, hremove items rfl⟩

end DynamicObjects
