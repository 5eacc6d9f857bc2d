import DynamicObjects.Proofs.Collections.Searching
import DynamicObjects.Proofs.Order.Equality

/-!
# Copies

A copy opens the containers of a value down to a number of levels: each is filled again with the
copies of its elements, under the same keys, and a foreign table becomes an array on the way.
Atoms and typed arrays stay what they are, and so does everything deeper.

Nothing can be in the way of this but a foreign table that fails. All elements of a container
are had before any of them is copied, so of the iterables that fail within the levels it is the
first one met whose failure comes out.

A copy ties with what it is a copy of, since both have one word, and it is its own copy.

* `Value.Within`, `Value.FailsWith`: the parts of a value down to a level, and iterables that fail.
* `World.CopiesTo`: what a copy is.
* `World.IsData.copiesTo_or_fails`: data has a copy, or copying it fails.
* `copy_opens_iterables`: what copying gives.
-/

namespace DynamicObjects

/-! ## Computations that fail -/

namespace Eval

open Script

variable {α β : Type} {w : World} {e : Failure}

/-- The computation fails in a world, whatever its scope and whatever has been reported. -/
def Fails (x : Eval α) (w : World) (e : Failure) : Prop :=
  ∀ scope seen, ∃ after, x scope { w with diagnostics := seen } = .failed e after

theorem fails_fail (e : Failure) : (fail e : Eval α).Fails w e := fun _ _ => ⟨_, rfl⟩

theorem fails_bind {x : Eval α} (hx : x.Fails w e) (f : α → Eval β) : (x >>= f).Fails w e := by
  intro scope seen
  obtain ⟨after, hfailed⟩ := hx scope seen
  exact ⟨after, by rw [bind_apply, hfailed]⟩

theorem fails_bind_of_yields {x : Eval α} {f : α → Eval β} {a : α} (hx : x.Yields w a)
    (hf : (f a).Fails w e) : (x >>= f).Fails w e := by
  intro scope seen
  obtain ⟨notes, -, hdone⟩ := hx scope seen
  obtain ⟨after, hfailed⟩ := hf scope (seen ++ notes)
  exact ⟨after, (bind_of_done hdone f).trans hfailed⟩

theorem fails_holding {x : Eval α} (h : Held) (hx : x.Fails w e) : (holding h x).Fails w e :=
  fun scope seen => hx (scope.holding h) seen

theorem fails_reporting {x : Eval α} (hx : x.Fails w e) : (reporting x).Fails w e := by
  intro scope seen
  obtain ⟨after, hfailed⟩ := hx scope seen
  exact ⟨scope.noted e after, by rw [reporting_apply, hfailed]; rfl⟩

end Eval

/-! ## Parts of values -/

/-- A foreign table fails, in its length or in an element below its length, with a raised
value. -/
inductive Value.FailsWith : Value → Value → Prop
  | length {id : Nat} {label : String} {length : Nat} {items : List Value} {raised : Value}
      {faults : List (Nat × Value)} :
      FailsWith (.iterable id label length items (some raised) faults) raised
  | element {id : Nat} {label : String} {length i : Nat} {items : List Value} {raised : Value}
      {faults : List (Nat × Value)} (hi : i < length)
      (h : Value.faultAt? faults i = some raised) :
      FailsWith (.iterable id label length items Option.none faults) raised

/-- A part is found within so many levels of a value: it is the value itself, or found within the
levels that are left of one of the elements. -/
inductive Value.Within : Nat → Value → Value → Prop
  | self {depth : Nat} (v : Value) : Within (depth + 1) v v
  | inside {depth : Nat} {c part : Value} {entries : List (Key × Value)} {entry : Key × Value}
      (h : c.HasEntries entries) (hentry : entry ∈ entries)
      (hpart : Within depth entry.2 part) : Within (depth + 1) c part

/-- An entry is copied under its key. -/
def CopiesEntry (inner : Value → Value → Prop) (entry copy : Key × Value) : Prop :=
  entry.1 = copy.1 ∧ inner entry.2 copy.2

theorem map_fst_eq_of_copies {inner : Value → Value → Prop} {entries copies : List (Key × Value)}
    (h : List.Forall₂ (CopiesEntry inner) entries copies) :
    entries.map Prod.fst = copies.map Prod.fst :=
  map_eq_of_forall₂ h fun _ _ _ _ hcopy => hcopy.1

namespace World

/-- Values that are the same in every copy: atoms and typed arrays. -/
def Stays (w : World) (v : Value) : Prop := w.IsAtom v ∨ ∃ items, v = .typed items

/-- One level of a copy, given what copies of the level below are. A container is filled again under
the same keys: a map is a map, an array or a foreign table an array. -/
inductive CopiesLevel (w : World) (inner : Value → Value → Prop) : Value → Value → Prop
  | same {v : Value} (h : w.Stays v) : CopiesLevel w inner v v
  | container {c : Value} {entries copies : List (Key × Value)} (h : c.HasEntries entries)
      (htyped : ∀ items, c ≠ .typed items)
      (hcopies : List.Forall₂ (CopiesEntry inner) entries copies) :
      CopiesLevel w inner c (c.refill copies)

/-- A value is the copy of another one, so many levels deep: below the levels it is the same. -/
def CopiesTo (w : World) : Nat → Value → Value → Prop
  | 0 => fun v c => c = v
  | depth + 1 => w.CopiesLevel (w.CopiesTo depth)

end World

/-! ## Entries of data -/

section Entries

variable {w : World} {v c : Value} {entries others copies : List (Key × Value)} {raised : Value}

theorem Value.Represents.unique {s : Value} {items others : List Value} (h : s.Represents items)
    (h' : s.Represents others) : items = others := by
  cases h <;> cases h' <;> rfl

namespace Value.HasEntries

theorem unique (h : c.HasEntries entries) (h' : c.HasEntries others) : entries = others := by
  cases h with
  | sequence h =>
    cases h' with
    | sequence h' => rw [h.unique h']
    | map => cases h
  | map =>
    cases h' with
    | sequence h' => cases h'
    | map => rfl

theorem distinct {names : List (String × Value)} (h : (Value.map names).HasEntries entries) :
    Entries.Distinct names := by
  cases h with
  | sequence h => cases h
  | map h => exact h

theorem not_failsWith (h : c.HasEntries entries) : ¬ c.FailsWith raised := by
  rintro (_ | ⟨hi, hfault⟩)
  · rcases h with ⟨⟨⟩⟩
  · rcases h with ⟨_ | _ | hfaults⟩
    rw [hfaults _ hi] at hfault
    cases hfault

/-- What is within a container is the container or within one of its entries. -/
theorem within_iff {depth : Nat} {part : Value} (h : c.HasEntries entries) :
    c.Within (depth + 1) part ↔ part = c ∨ ∃ entry ∈ entries, entry.2.Within depth part := by
  constructor
  · rintro (_ | ⟨h', hentry, hpart⟩)
    · exact .inl rfl
    · exact .inr ⟨_, h.unique h' ▸ hentry, hpart⟩
  · rintro (rfl | ⟨entry, hentry, hpart⟩)
    · exact .self part
    · exact .inside h hentry hpart

/-- A container can be filled again with other values under the same keys. -/
theorem refill (h : c.HasEntries entries) (hkeys : entries.map Prod.fst = copies.map Prod.fst) :
    (c.refill copies).HasEntries copies := by
  cases h with
  | @sequence _ items h =>
    have hplain : ∀ names, c ≠ .map names := by
      rintro names rfl
      cases h
    rw [keys_indexedFrom] at hkeys
    have hcopies : indexedFrom 0 (copies.map Prod.snd) = copies := indexedFrom_map_snd hkeys.symm
    have harray := HasEntries.sequence (.array (copies.map Prod.snd))
    rwa [hcopies, ← refill_of_sequence hplain copies] at harray
  | @map names hdistinct =>
    have hnames : copies.map Prod.fst = (Entries.keys names).map Key.name := by
      rw [← hkeys, namedEntries, Entries.keys, List.map_map, List.map_map]
      rfl
    have hmap : Entries.Distinct (copies.map fun copy => (copy.1.toName, copy.2)) := by
      have hsame : Entries.keys (copies.map fun copy => (copy.1.toName, copy.2)) =
          (copies.map Prod.fst).map Key.toName := by
        rw [Entries.keys, List.map_map, List.map_map]
        rfl
      rw [Entries.Distinct, hsame, hnames, List.map_map]
      exact (List.map_id (Entries.keys names)).symm ▸ hdistinct
    have hentries := HasEntries.map hmap
    rwa [namedEntries_map_toName hnames] at hentries

end Value.HasEntries

theorem World.not_isAtom_of_hasEntries (h : c.HasEntries entries) : ¬ w.IsAtom c := by
  rintro hatom
  rcases h with ⟨⟨⟩⟩ | _ <;> exact hatom

theorem World.IsData.of_represents {s : Value} {items : List Value} (hdata : w.IsData s)
    (h : s.Represents items) : ∀ v ∈ items, w.IsData v := by
  cases h with
  | array =>
    cases hdata with
    | atom h => exact h.elim
    | array h => exact h
  | typed items => exact fun v hv => .atom (World.isAtom_of_mem_values hv)
  | @iterable id label length items faults hfaults =>
    cases hdata with
    | atom h => exact h.elim
    | iterable h =>
      intro v hv
      obtain ⟨i, -, rfl⟩ := List.mem_map.mp hv
      cases hitem : items[i]? with
      | none => exact .atom trivial
      | some item => exact h item (List.mem_of_getElem? hitem)

theorem World.IsData.of_hasEntries (hdata : w.IsData c) (h : c.HasEntries entries) :
    ∀ entry ∈ entries, w.IsData entry.2 := by
  cases h with
  | @sequence _ items h =>
    intro entry hentry
    have hmem : entry.2 ∈ items := by
      rw [← map_snd_indexedFrom 0 items]
      exact List.mem_map_of_mem hentry
    exact hdata.of_represents h entry.2 hmem
  | map =>
    cases hdata with
    | atom h => exact h.elim
    | map h =>
      intro entry hentry
      obtain ⟨named, hnamed, rfl⟩ := List.mem_map.mp hentry
      exact h named hnamed

/-- A container of data is data. -/
theorem World.isData_refill (hdata : ∀ copy ∈ copies, w.IsData copy.2) (c : Value) :
    w.IsData (c.refill copies) := by
  have harray : w.IsData (.array (copies.map Prod.snd)) := .array fun v hv => by
    obtain ⟨copy, hcopy, rfl⟩ := List.mem_map.mp hv
    exact hdata copy hcopy
  have hmap : w.IsData (.map (copies.map fun copy => (copy.1.toName, copy.2))) :=
    .map fun entry hentry => by
      obtain ⟨copy, hcopy, rfl⟩ := List.mem_map.mp hentry
      exact hdata copy hcopy
  cases c with
  | map names => exact hmap
  | _ => exact harray

/-- What data can be for a copy. -/
inductive World.CanBe (w : World) (v : Value) : Prop
  | same (h : w.Stays v)
  | failing {raised : Value} (h : v.FailsWith raised)
  | container {entries : List (Key × Value)} (h : v.HasEntries entries)
      (htyped : ∀ items, v ≠ .typed items)

theorem World.IsData.canBe (hdata : w.IsData v) (hnamed : v.Named) : w.CanBe v := by
  cases hdata with
  | atom h => exact .same (.inl h)
  | typed items => exact .same (.inr ⟨items, rfl⟩)
  | @array items => exact .container (.sequence (.array items)) fun _ => nofun
  | map => exact .container (.map (hnamed _ rfl)) fun _ => nofun
  | @iterable id label length items lengthFault faults =>
    cases lengthFault with
    | some raised => exact .failing .length
    | none =>
      by_cases hfaults : ∀ i < length, Value.faultAt? faults i = none
      · exact .container (.sequence (.iterable hfaults)) fun _ => nofun
      · push Not at hfaults
        obtain ⟨i, hi, hfault⟩ := hfaults
        obtain ⟨raised, hraised⟩ := Option.ne_none_iff_exists'.mp hfault
        exact .failing (.element hi hraised)

/-! ## Words -/

theorem Value.Represents.spell_eq {s : Value} {items : List Value} (h : s.Represents items) :
    s.spell = .mark 5 :: joinWords (items.map Value.spell) := by
  cases h with
  | array => rw [Value.spell, Value.spellAll_eq_map]
  | typed items =>
    have hatoms : items.values.map Value.spell = items.values.map Value.spellAtom :=
      List.map_congr_left fun v hv =>
        Value.spell_of_isAtom (w := ({} : World)) (World.isAtom_of_mem_values hv)
    rw [Value.spell, hatoms]
  | @iterable id label length items faults hfaults =>
    rw [Value.spell, Value.spellAll_eq_map, seenWords, List.map_map]
    congr 2
    refine List.map_congr_left fun i hi => ?_
    have hfault : Value.faultAt? faults i = Option.none := hfaults i (List.mem_range.mp hi)
    rw [hfault, Option.isSome_none, if_neg Bool.false_ne_true, List.getElem?_map]
    cases hitem : items[i]? <;> simp [hitem, Value.spell, Value.spellAtom]

theorem Value.spellEntries_eq_map (names : List (String × Value)) :
    Value.spellEntries names = names.map fun entry => (entry.1, entry.2.spell) := by
  induction names with
  | nil => rfl
  | cons entry rest ih =>
    obtain ⟨name, v⟩ := entry
    rw [Value.spellEntries, ih, List.map_cons]

/-- A container that is filled again with values of the same words has the same word. -/
theorem Value.HasEntries.spell_refill (h : c.HasEntries entries)
    (hwords : (entries.map fun entry => (entry.1, entry.2.spell)) =
      copies.map fun copy => (copy.1, copy.2.spell)) :
    (c.refill copies).spell = c.spell := by
  cases h with
  | @sequence _ items h =>
    have hplain : ∀ names, c ≠ .map names := by
      rintro names rfl
      cases h
    have hspelled := congrArg (List.map Prod.snd) hwords
    rw [List.map_map, List.map_map] at hspelled
    rw [refill_of_sequence hplain, h.spell_eq, (Represents.array _).spell_eq, List.map_map,
      ← map_snd_indexedFrom 0 items, List.map_map]
    exact congrArg (fun words => .mark 5 :: joinWords words) hspelled.symm
  | @map names =>
    have hspelled := congrArg (List.map fun entry => (entry.1.toName, entry.2)) hwords
    rw [List.map_map, List.map_map, namedEntries, List.map_map] at hspelled
    have hentries : Value.spellEntries names =
        Value.spellEntries (copies.map fun copy => (copy.1.toName, copy.2)) := by
      rw [spellEntries_eq_map, spellEntries_eq_map, List.map_map]
      exact hspelled
    rw [Value.refill, spell, spell, hentries]

end Entries

/-! ## One level -/

section Levels

variable {w : World} {e : Failure} {copyItem : Value → Eval Value}
  {before after copies : List (Key × Value)} {entry : Key × Value}

/-- Copies of entries, each had by itself. -/
abbrev Copied (w : World) (copyItem : Value → Eval Value) :
    List (Key × Value) → List (Key × Value) → Prop :=
  List.Forall₂ (CopiesEntry fun v c => (copyItem v).Yields w c)

theorem yields_copyItems (h : Copied w copyItem before copies) :
    (copyItems copyItem (before.map Prod.snd)).Yields w (copies.map Prod.snd) := by
  induction h with
  | nil => exact Eval.yields_pure _
  | cons hcopy _ ih =>
    exact Eval.yields_bind (Eval.yields_holding _ hcopy.2)
      (Eval.yields_bind (Eval.yields_holding _ ih) (Eval.yields_pure _))

theorem fails_copyItems (h : Copied w copyItem before copies)
    (hentry : (copyItem entry.2).Fails w e) :
    (copyItems copyItem ((before ++ entry :: after).map Prod.snd)).Fails w e := by
  induction h with
  | nil => exact Eval.fails_bind (Eval.fails_holding _ hentry) _
  | cons hcopy _ ih =>
    exact Eval.fails_bind_of_yields (Eval.yields_holding _ hcopy.2)
      (Eval.fails_bind (Eval.fails_holding _ ih) _)

theorem yields_copyEntries (h : Copied w copyItem before copies) (out : Draft Value) :
    (copyEntries copyItem before out).Yields w
      ((copies.map fun copy => (copy.1.toName, copy.2)).foldl
        (fun draft pair => draft.insert pair.1 pair.2) out).entries := by
  induction h generalizing out with
  | nil => exact Eval.yields_pure _
  | @cons entry copy before copies hcopy _ ih =>
    obtain ⟨hkey, hcopied⟩ := hcopy
    refine Eval.yields_bind (Eval.yields_holding _ (Eval.yields_holding _ hcopied)) ?_
    rw [hkey]
    exact ih _

theorem fails_copyEntries (h : Copied w copyItem before copies)
    (hentry : (copyItem entry.2).Fails w e) (out : Draft Value) :
    (copyEntries copyItem (before ++ entry :: after) out).Fails w e := by
  induction h generalizing out with
  | nil => exact Eval.fails_bind (Eval.fails_holding _ (Eval.fails_holding _ hentry)) _
  | cons hcopy _ ih =>
    exact Eval.fails_bind_of_yields (Eval.yields_holding _ (Eval.yields_holding _ hcopy.2)) (ih _)

variable [Host] {c : Value} {entries : List (Key × Value)} {depth : Nat}

theorem copyValue_map (depth : Nat) (names : List (String × Value)) :
    copyValue (depth + 1) (.map names) = (do
      return .map (← copyEntries (copyValue depth) (namedEntries names) .empty)) := by
  have hmap : copyValue (depth + 1) (.map names) = (do
      return .map (← copyEntries (copyValue depth) (← collect (.map names)) .empty)) := rfl
  rw [hmap, collect_map, pure_bind]

namespace Value.HasEntries

/-- A container is copied when its entries are. -/
theorem yields_copyValue (h : c.HasEntries entries) (htyped : ∀ items, c ≠ .typed items)
    (hcopies : Copied w (copyValue depth) entries copies) :
    (copyValue (depth + 1) c).Yields w (c.refill copies) := by
  have hfilled := h.refill (map_fst_eq_of_copies hcopies)
  cases h with
  | @sequence _ items h =>
    have hplain : ∀ names, c ≠ .map names := by
      rintro names rfl
      cases h
    have hitems := yields_copyItems hcopies
    rw [map_snd_indexedFrom] at hitems
    rw [h.copyValue_eq htyped, refill_of_sequence hplain]
    exact Eval.yields_bind hitems (Eval.yields_pure _)
  | map =>
    have hdraft := yields_copyEntries hcopies .empty
    rw [copyValue_map, Value.refill, ← Entries.ofList_of_distinct hfilled.distinct]
    exact Eval.yields_bind hdraft (Eval.yields_pure _)

/-- A container is not copied where the copy of an entry fails. -/
theorem fails_copyValue (h : c.HasEntries (before ++ entry :: after))
    (htyped : ∀ items, c ≠ .typed items) (hcopies : Copied w (copyValue depth) before copies)
    (hentry : (copyValue depth entry.2).Fails w e) : (copyValue (depth + 1) c).Fails w e := by
  generalize hentries : before ++ entry :: after = entries at h
  cases h with
  | @sequence _ items h =>
    have hitems :
        (copyItems (copyValue depth) ((before ++ entry :: after).map Prod.snd)).Fails w e :=
      fails_copyItems hcopies hentry
    rw [hentries, map_snd_indexedFrom] at hitems
    rw [h.copyValue_eq htyped]
    exact Eval.fails_bind hitems _
  | map =>
    rw [copyValue_map, ← hentries]
    exact Eval.fails_bind (fails_copyEntries hcopies hentry _) _

end Value.HasEntries

theorem World.Stays.yields_copyValue {v : Value} (h : w.Stays v) (depth : Nat) :
    (copyValue depth v).Yields w v := by
  cases depth with
  | zero => exact Eval.yields_pure v
  | succ depth =>
    obtain hatom | ⟨items, rfl⟩ := h
    · cases v with
      | array | typed | map | iterable | foreign => exact hatom.elim
      | inst i =>
        have hkind : w.kind (.inst i) = .instanceKind := by
          rw [World.kind, if_neg (Bool.eq_false_iff.mp hatom)]
        refine Eval.yields_bind (yields_kind _) ?_
        rw [hkind]
        exact Eval.yields_pure _
      | _ => exact Eval.yields_bind (yields_kind _) (Eval.yields_pure _)
    · exact Eval.yields_pure _

end Levels

/-! ## Iterables that fail -/

section Failing

variable {w : World} {v raised : Value} {length : Nat} {items : List Value}
  {faults : List (Nat × Value)}

theorem fails_element {i : Nat} (h : Value.faultAt? faults i = some raised) :
    ((View.ofIterable .undefined length items.toArray none faults).element i).Fails w
      (.raised raised) := by
  simp only [View.ofIterable, h]
  exact Eval.fails_fail _

theorem yields_element {i : Nat} (h : Value.faultAt? faults i = none) :
    ((View.ofIterable .undefined length items.toArray none faults).element i).Yields w
      (items[i]?.getD .undefined) := by
  simp only [View.ofIterable, h, List.getElem?_toArray]
  exact Eval.yields_pure _

/-- Elements are gathered up to the first one that cannot be had. -/
theorem fails_visitIndexed {i j count : Nat} (hj : j < count)
    (hfault : Value.faultAt? faults (i + j) = some raised) (found : List (Key × Value)) :
    ∃ k < count, ∃ raised, Value.faultAt? faults (i + k) = some raised ∧
      (Walk.gather.visitIndexed
        (View.ofIterable .undefined length items.toArray none faults).element count i found).Fails w
          (.raised raised) := by
  induction count generalizing i j found with
  | zero => exact absurd hj (Nat.not_lt_zero j)
  | succ count ih =>
    cases hhere : Value.faultAt? faults i with
    | some raised =>
      exact ⟨0, Nat.succ_pos count, raised, hhere, Eval.fails_bind
        (Eval.fails_holding _ (Eval.fails_reporting (fails_element hhere))) _⟩
    | none =>
      cases j with
      | zero =>
        rw [Nat.add_zero, hhere] at hfault
        cases hfault
      | succ j =>
        rw [← Nat.succ_add_eq_add_succ] at hfault
        obtain ⟨k, hk, raised, hraised, hfails⟩ := ih (Nat.lt_of_succ_lt_succ hj) hfault
          ((.index i, items[i]?.getD .undefined) :: found)
        rw [Nat.succ_add_eq_add_succ] at hraised
        refine ⟨k + 1, Nat.succ_lt_succ hk, raised, hraised, ?_⟩
        refine Eval.fails_bind_of_yields
          (Eval.yields_holding _ (yields_reporting (yields_element hhere))) ?_
        exact Eval.fails_bind_of_yields (Eval.yields_holding _ (Eval.yields_holding _
          (yields_reporting (Eval.yields_pure _)))) hfails

variable [Host]

/-- Gathering the elements of an iterable that fails does so as well, at the first place where it
can. -/
theorem Value.FailsWith.fails_gather (h : v.FailsWith raised) :
    ∃ raised, v.FailsWith raised ∧ (Walk.gather.run [] v).Fails w (.raised raised) := by
  cases h with
  | length =>
    refine ⟨raised, .length, Eval.fails_bind_of_yields (Eval.yields_reads fun _ => rfl) ?_⟩
    exact Eval.fails_bind (Eval.fails_holding _ (Eval.fails_reporting (Eval.fails_fail _))) _
  | @element id label length i items raised faults hi hfault =>
    rw [← Nat.zero_add i] at hfault
    obtain ⟨k, hk, raised, hraised, hfails⟩ :=
      @fails_visitIndexed w raised length items faults 0 i length hi hfault []
    rw [Nat.zero_add] at hraised
    refine ⟨raised, .element hk hraised, ?_⟩
    refine Eval.fails_bind_of_yields (Eval.yields_reads fun _ => rfl) ?_
    rw [Value.elements_iterable]
    exact Eval.fails_bind_of_yields
      (Eval.yields_holding _ (yields_reporting (Eval.yields_pure _))) hfails

theorem Value.FailsWith.fails_copyValue (h : v.FailsWith raised) (depth : Nat) :
    ∃ raised, v.FailsWith raised ∧ (copyValue (depth + 1) v).Fails w (.raised raised) := by
  obtain ⟨raised, hraised, hfails⟩ := h.fails_gather (w := w)
  refine ⟨raised, hraised, ?_⟩
  have hiterable : (copyValue (depth + 1) v) = (do
      return .array (← copyItems (copyValue depth) ((← collect v).map Prod.snd))) := by
    cases h <;> rfl
  rw [hiterable]
  exact Eval.fails_bind (Eval.fails_bind hfails _) _

end Failing

/-! ## Copies, level by level -/

section Copies

variable {w : World} {v c part raised : Value} {depth : Nat}

/-- Every element goes with something, or there is a first one of another kind. -/
theorem forall₂_or_first {α β : Type} {R : α → β → Prop} {p : α → Prop} {all : List α}
    (h : ∀ a ∈ all, (∃ b, R a b) ∨ p a) : (∃ bs, List.Forall₂ R all bs) ∨
      ∃ before bs a after, all = before ++ a :: after ∧ List.Forall₂ R before bs ∧ p a := by
  induction all with
  | nil => exact .inl ⟨[], .nil⟩
  | cons a rest ih =>
    obtain ⟨hfirst, hrest⟩ := List.forall_mem_cons.mp h
    obtain ⟨b, hb⟩ | ha := hfirst
    · obtain ⟨bs, hbs⟩ | ⟨before, bs, a', after, rfl, hbefore, ha'⟩ := ih hrest
      · exact .inl ⟨b :: bs, .cons hb hbs⟩
      · exact .inr ⟨a :: before, b :: bs, a', after, rfl, .cons hb hbefore, ha'⟩
    · exact .inr ⟨[], [], a, rest, rfl, .nil, ha⟩

theorem exists_of_mem_right {α β : Type} {R : α → β → Prop} {as : List α} {bs : List β} {b : β}
    (h : List.Forall₂ R as bs) (hb : b ∈ bs) : ∃ a ∈ as, R a b := by
  induction h with
  | nil => cases hb
  | @cons a b as bs hab _ ih =>
    cases hb with
    | head => exact ⟨a, List.mem_cons_self, hab⟩
    | tail _ hb =>
      obtain ⟨a', ha', hab'⟩ := ih hb
      exact ⟨a', List.mem_cons_of_mem a ha', hab'⟩

namespace World

theorem Stays.not_failsWith (h : w.Stays v) : ¬ v.FailsWith raised := by
  rintro (_ | _) <;> obtain hatom | ⟨_, ⟨⟩⟩ := h <;> exact hatom

theorem Stays.kind_ne_generic (h : w.Stays v) : w.kind v ≠ .generic := by
  intro hkind
  obtain hatom | ⟨items, rfl⟩ := h
  · cases v with
    | array | typed | map | iterable | foreign => exact hatom
    | inst i =>
      have hgeneric : ¬ w.isGeneric i.cls = true := Bool.eq_false_iff.mp hatom
      rw [World.kind, if_neg hgeneric] at hkind
      cases hkind
    | _ => cases hkind
  · cases hkind

/-- Only typed arrays among what stays have elements, which are atoms. -/
theorem Stays.of_hasEntries {entries : List (Key × Value)} {entry : Key × Value} (h : w.Stays v)
    (hentries : v.HasEntries entries) (hentry : entry ∈ entries) : w.Stays entry.2 := by
  obtain hatom | ⟨items, rfl⟩ := h
  · exact absurd hatom (not_isAtom_of_hasEntries hentries)
  · obtain rfl := hentries.unique (.sequence (.typed items))
    have hmem : entry.2 ∈ items.values := by
      rw [← map_snd_indexedFrom 0 items.values]
      exact List.mem_map_of_mem hentry
    exact .inl (isAtom_of_mem_values hmem)

theorem Stays.within (h : w.Stays v) (hpart : v.Within depth part) : w.Stays part := by
  induction hpart with
  | self => exact h
  | inside hentries hentry _ ih => exact ih (h.of_hasEntries hentries hentry)

theorem CopiesTo.yields [Host] (h : w.CopiesTo depth v c) : (copyValue depth v).Yields w c := by
  induction depth generalizing v c with
  | zero =>
    obtain rfl : c = v := h
    exact Eval.yields_pure c
  | succ depth ih =>
    cases h with
    | same h => exact h.yields_copyValue (depth + 1)
    | container h htyped hcopies =>
      exact h.yields_copyValue htyped (hcopies.imp fun _ _ hcopy => ⟨hcopy.1, ih hcopy.2⟩)

/-- A copy is its own copy. -/
theorem CopiesTo.self (h : w.CopiesTo depth v c) : w.CopiesTo depth c c := by
  induction depth generalizing v c with
  | zero => rfl
  | succ depth ih =>
    cases h with
    | same h => exact .same h
    | @container entries copies h htyped hcopies =>
      have hself : List.Forall₂ (CopiesEntry (w.CopiesTo depth)) copies copies :=
        List.forall₂_same.mpr fun copy hcopy =>
          let ⟨_, _, _, hcopied⟩ := exists_of_mem_right hcopies hcopy
          ⟨rfl, ih hcopied⟩
      have hplain : ∀ items, v.refill copies ≠ .typed items := by
        intro items
        cases v <;> nofun
      have hrefilled := h.refill (map_fst_eq_of_copies hcopies)
      have hagain := CopiesLevel.container (w := w) hrefilled hplain hself
      rwa [Value.refill_refill] at hagain

theorem CopiesTo.spell_eq (h : w.CopiesTo depth v c) : c.spell = v.spell := by
  induction depth generalizing v c with
  | zero => exact congrArg Value.spell h
  | succ depth ih =>
    cases h with
    | same h => rfl
    | container h htyped hcopies =>
      refine h.spell_refill (map_eq_of_forall₂ hcopies fun entry _ copy _ hcopy => ?_)
      rw [hcopy.1, ih hcopy.2]

theorem CopiesTo.isData (h : w.CopiesTo depth v c) (hdata : w.IsData v) : w.IsData c := by
  induction depth generalizing v c with
  | zero =>
    obtain rfl : c = v := h
    exact hdata
  | succ depth ih =>
    cases h with
    | same h => exact hdata
    | container h htyped hcopies =>
      refine isData_refill (fun copy hcopy => ?_) v
      obtain ⟨entry, hentry, -, hcopied⟩ := exists_of_mem_right hcopies hcopy
      exact ih hcopied (hdata.of_hasEntries h entry hentry)

/-- What fails within the levels of a value is in the way of a copy. -/
theorem CopiesTo.not_failsWith (h : w.CopiesTo depth v c) (hpart : v.Within depth part) :
    ¬ part.FailsWith raised := by
  induction depth generalizing v c with
  | zero => cases hpart
  | succ depth ih =>
    cases h with
    | same h => exact (h.within hpart).not_failsWith
    | container h htyped hcopies =>
      obtain rfl | ⟨entry, hentry, hpart⟩ := h.within_iff.mp hpart
      · exact h.not_failsWith
      · obtain ⟨copy, -, -, hcopied⟩ := exists_of_mem_right hcopies.flip hentry
        exact ih hcopied hpart

/-- No iterable is left within the levels of a copy. -/
theorem CopiesTo.kind_ne_generic (h : w.CopiesTo depth v c) (hpart : c.Within depth part) :
    w.kind part ≠ .generic := by
  induction depth generalizing v c with
  | zero => cases hpart
  | succ depth ih =>
    cases h with
    | same h => exact (h.within hpart).kind_ne_generic
    | container h htyped hcopies =>
      have hrefilled := h.refill (map_fst_eq_of_copies hcopies)
      obtain rfl | ⟨copy, hcopy, hpart⟩ := hrefilled.within_iff.mp hpart
      · cases v <;> nofun
      · obtain ⟨entry, -, -, hcopied⟩ := exists_of_mem_right hcopies hcopy
        exact ih hcopied hpart

/-- Data has a copy, or copying it fails as one of its iterables does. -/
theorem IsData.copiesTo_or_fails [Host] (hdata : w.IsData v) (depth : Nat)
    (hnamed : ∀ part, v.Within depth part → part.Named) :
    (∃ c, w.CopiesTo depth v c) ∨ ∃ part raised, v.Within depth part ∧ part.FailsWith raised ∧
      (copyValue depth v).Fails w (.raised raised) := by
  induction depth generalizing v with
  | zero => exact .inl ⟨v, rfl⟩
  | succ depth ih =>
    cases hdata.canBe (hnamed v (.self v)) with
    | same h => exact .inl ⟨v, .same h⟩
    | failing h =>
      obtain ⟨raised, hraised, hfails⟩ := h.fails_copyValue depth
      exact .inr ⟨v, raised, .self v, hraised, hfails⟩
    | @container entries h htyped =>
      have hentries : ∀ entry ∈ entries,
          (∃ copy, CopiesEntry (w.CopiesTo depth) entry copy) ∨
            ∃ part raised, entry.2.Within depth part ∧ part.FailsWith raised ∧
              (copyValue depth entry.2).Fails w (.raised raised) := by
        intro entry hentry
        have hparts : ∀ part, entry.2.Within depth part → part.Named :=
          fun part hpart => hnamed part (.inside h hentry hpart)
        exact (ih (hdata.of_hasEntries h entry hentry) hparts).imp_left
          fun ⟨copied, hcopied⟩ => ⟨(entry.1, copied), rfl, hcopied⟩
      obtain ⟨copies, hcopies⟩ | ⟨before, copies, entry, after, rfl, hcopies, part, raised, hpart,
        hraised, hfails⟩ := forall₂_or_first hentries
      · exact .inl ⟨v.refill copies, .container h htyped hcopies⟩
      · refine .inr ⟨part, raised, .inside h (by simp) hpart, hraised, ?_⟩
        exact h.fails_copyValue htyped
          (hcopies.imp fun _ _ hcopy => ⟨hcopy.1, hcopy.2.yields⟩) hfails

end World

theorem apply_copy [Host] (v : Value) (depth : Int64) :
    Builtin.copy.apply [v, .integer depth] = copyValue depth.toInt.toNat v :=
  have hcount : Builtin.copy.fewest ≤ 2 ∧ 2 ≤ Builtin.copy.most := by decide
  Builtin.apply_eq_run hcount

end Copies

/-- **A copy opens the iterables within its levels and changes nothing else.** Where no iterable
within the levels fails, data is copied: no iterable is left within the levels, the copy is its own
copy, and it ties with the data. Where one fails, copying fails as one of those within the levels
does. -/
theorem copy_opens_iterables [Host] {w : World} {v : Value} (hdata : w.IsData v) (depth : Int64)
    (hnamed : ∀ part, v.Within depth.toInt.toNat part → part.Named) :
    let copy (v : Value) := Builtin.copy.apply [v, .integer depth]
    let levels := depth.toInt.toNat
    ((∀ part raised, v.Within levels part → ¬ part.FailsWith raised) →
      ∃ c, (w.CopiesTo levels v c ∧ ∀ part, c.Within levels part → w.kind part ≠ .generic) ∧
        ((copy v).Yields w c ∧ (copy c).Yields w c) ∧ (c.compare v).Yields w .eq) ∧
      ((∃ part raised, v.Within levels part ∧ part.FailsWith raised) →
        ∃ part raised, v.Within levels part ∧ part.FailsWith raised ∧
          (copy v).Fails w (.raised raised)) := by
  intro copy levels
  have hcopy (v : Value) : copy v = copyValue levels v := apply_copy v depth
  constructor
  · intro hnone
    obtain ⟨c, hcopied⟩ | ⟨part, raised, hpart, hraised, -⟩ :=
      hdata.copiesTo_or_fails levels hnamed
    · have htie : c.order v = .eq := Value.order_eq_iff.mpr hcopied.spell_eq
      refine ⟨c, ⟨hcopied, fun part hpart => hcopied.kind_ne_generic hpart⟩, ?_,
        htie ▸ yields_compare (hcopied.isData hdata) hdata⟩
      rw [hcopy, hcopy]
      exact ⟨hcopied.yields, hcopied.self.yields⟩
    · exact absurd hraised (hnone part raised hpart)
  · rintro ⟨part, raised, hpart, hraised⟩
    obtain ⟨c, hcopied⟩ | hfails := hdata.copiesTo_or_fails levels hnamed
    · exact absurd hraised (hcopied.not_failsWith hpart)
    · rw [hcopy]
      exact hfails

/-- An iterable with a missing value after a map in which an iterable that fails is the third level:
two levels are copied, three are not. -/
theorem copy_opens_iterables_nested :
    let broken : Value := .iterable 1 "broken" 1 [] Option.none [(0, .string "gone")]
    let v : Value := .iterable 0 "outer" 2 [.map [("k", broken)]] Option.none []
    letI := Script.hostWithin 0
    (Builtin.copy.apply [v, .integer 2]).Yields {} (.array [.map [("k", broken)], .undefined]) ∧
      (Builtin.copy.apply [v, .integer 3]).Fails {} (.raised (.string "gone")) := by
  intro broken v
  let _ := Script.hostWithin 0
  have hbroken : broken.FailsWith (.string "gone") := .element Nat.zero_lt_one rfl
  have hdata : ({} : World).IsData v := .iterable <| by
    simp [World.IsData.map, World.IsData.iterable, broken]
  have hv : v.HasEntries [(.index 0, .map [("k", broken)]), (.index 1, .undefined)] :=
    .sequence (.iterable fun _ _ => rfl)
  have hmap : (Value.map [("k", broken)]).HasEntries [(.name "k", broken)] :=
    .map (by simp [Entries.Distinct, Entries.keys])
  have halone {a part : Value} {depth : Nat} (ha : a = broken ∨ a = .undefined)
      (hpart : a.Within depth part) : part = a := by
    rcases hpart with _ | ⟨hentries, -, -⟩
    · rfl
    · obtain rfl | rfl := ha
      · exact absurd hbroken hentries.not_failsWith
      · rcases hentries with ⟨⟨⟩⟩
  have hwithin {depth : Nat} {part : Value} (hpart : v.Within (depth + 2) part) :
      (part = v ∨ part = .map [("k", broken)] ∨ part = .undefined) ∨
        broken.Within depth part := by
    obtain rfl | ⟨entry, hentry, hpart⟩ := hv.within_iff.mp hpart
    · exact .inl (.inl rfl)
    · obtain rfl | hentry := List.mem_cons.mp hentry
      · obtain rfl | ⟨entry, hentry, hpart⟩ := hmap.within_iff.mp hpart
        · exact .inl (.inr (.inl rfl))
        · obtain rfl := List.mem_singleton.mp hentry
          exact .inr hpart
      · obtain rfl := List.mem_singleton.mp hentry
        exact .inl (.inr (.inr (halone (.inr rfl) hpart)))
  have hnamed {depth : Nat} (part : Value) (hpart : v.Within (depth + 2) part) : part.Named := by
    intro names heq
    subst heq
    obtain (heq | heq | heq) | hpart := hwithin hpart
    · simp [v] at heq
    · exact Value.map.inj heq ▸ hmap.distinct
    · simp at heq
    · simpa [broken] using halone (.inl rfl) hpart
  constructor
  · have hnone (part raised : Value) (hpart : v.Within 2 part) : ¬ part.FailsWith raised := by
      obtain (rfl | rfl | rfl) | hpart := @hwithin 0 part hpart
      · exact hv.not_failsWith
      · exact hmap.not_failsWith
      · rintro ⟨⟩
      · cases hpart
    obtain ⟨c, -, ⟨hcopy, -⟩, -⟩ := (copy_opens_iterables hdata 2 (@hnamed 0)).1 hnone
    obtain ⟨_, -, hdone⟩ := hcopy {} #[]
    have hrun : Builtin.copy.apply [v, .integer 2] {} {} =
      .done (.array [.map [("k", broken)], .undefined]) {} := rfl
    obtain rfl := (Reply.done.inj (hrun.symm.trans hdone)).1
    exact hcopy
  · have hpart : v.Within 3 broken :=
      .inside hv List.mem_cons_self (.inside hmap List.mem_cons_self (.self broken))
    obtain ⟨_, raised, -, -, hfails⟩ :=
      (copy_opens_iterables hdata 3 (@hnamed 1)).2 ⟨broken, .string "gone", hpart, hbroken⟩
    obtain ⟨_, hfailed⟩ := hfails {} #[]
    have hrun : ∃ after, Builtin.copy.apply [v, .integer 3] {} {} =
      .failed (.raised (.string "gone")) after := ⟨_, rfl⟩
    obtain ⟨_, hrun⟩ := hrun
    obtain rfl := Failure.raised.inj (Reply.failed.inj (hrun.symm.trans hfailed)).1
    exact hfails

end DynamicObjects
