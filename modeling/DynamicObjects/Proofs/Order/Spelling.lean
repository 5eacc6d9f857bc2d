import DynamicObjects.Proofs.Order.Letter
import DynamicObjects.Proofs.World.Yields

/-!
# The order spells

Data is what has only finitely many parts and runs nothing when it is compared: values of
every kind and nesting, foreign tables among them, but no instances that are iterables by
their class and no foreign containers that the host takes apart. Every value has a word
(`Value.spell`), and two pieces of data compare as their words do (`ranks_compareBy`),
whatever else runs and however the elements compare that scripts make.

The proof follows the first of the two values. What is needed of a place in it is that it
compares with any data as its word does (`World.Ranks`); a view offers the places of a
sequence one by one (`View.Offers`), whether it is an array, a typed array or a foreign
table some of whose elements cannot be had.

* `World.IsData`: what is data.
* `ranks_compareBy`: the order of data is the order of words.
-/

namespace DynamicObjects

open Number

/-! ## Words of values -/

/-- The words of what the order sees of a foreign table: nothing where its length fails,
a missing value where an element fails or is beyond the end. -/
def seenWords (length : Nat) (items : List Word) (lengthFault : Option Value)
    (faults : List (Nat × Value)) : List Word :=
  if lengthFault.isSome then []
  else (List.range length).map fun i =>
    if (Value.faultAt? faults i).isSome then [.mark 0] else items[i]?.getD [.mark 0]

/-- The word under a key, unless it is the one of a missing value. -/
def definedWord? (words : Entries String Word) (key : String) : Option Word :=
  (Entries.find? key words).filter fun u => u ≠ [.mark 0]

namespace Value

/-- The word of a value that has no elements. -/
def spellAtom : Value → Word
  | undefined => [.mark 0]
  | none => [.mark 1]
  | boolean b => [.mark 2, .mark b.toNat]
  | integer n => [.mark 3, .number (.ofInteger n)]
  | float x => [.mark 3, .number x.read]
  | string s => [.mark 4, .text s]
  | function f => [.mark 7, .text f.name, .mark f.id]
  | cls c => [.mark 8, .mark c.index]
  | inst i => [.mark 9, .mark i.cls.index, .mark i.index]
  | _ => []

mutual

def spell : Value → Word
  | array items => .mark 5 :: joinWords (spellAll items)
  | typed items => .mark 5 :: joinWords (items.values.map spellAtom)
  | iterable _ _ length items lengthFault faults =>
    .mark 5 :: joinWords (seenWords length (spellAll items) lengthFault faults)
  | map entries =>
    .mark 6 :: joinNamed (definedWord? (spellEntries entries))
      (sortedKeys (spellEntries entries) ([] : Entries String Word))
  | v => spellAtom v

def spellAll : List Value → List Word
  | [] => []
  | v :: rest => spell v :: spellAll rest

/-- The words of a map, under their keys. -/
def spellEntries : List (String × Value) → Entries String Word
  | [] => []
  | (key, v) :: rest => (key, spell v) :: spellEntries rest

end

theorem spellAll_eq_map (items : List Value) : spellAll items = items.map spell := by
  induction items with
  | nil => rfl
  | cons v rest ih => simp [spellAll, ih]

theorem find?_spellEntries (entries : Entries String Value) (key : String) :
    Entries.find? key (spellEntries entries) = (Entries.find? key entries).map spell := by
  induction entries with
  | nil => rfl
  | cons entry rest ih =>
    obtain ⟨name, v⟩ := entry
    by_cases h : name = key <;> simp [spellEntries, Entries.find?, h, ih]

theorem keys_spellEntries (entries : Entries String Value) :
    Entries.keys (spellEntries entries) = Entries.keys entries := by
  induction entries with
  | nil => rfl
  | cons entry rest ih => simpa [spellEntries, Entries.keys] using ih

/-- Only a missing value is spelled as one. -/
theorem spell_eq_missing_iff (v : Value) : v.spell = [.mark 0] ↔ v.isDefined = false := by
  cases v <;> simp [spell, spellAtom, isDefined]

theorem definedWord?_spellEntries (entries : Entries String Value) (key : String) :
    definedWord? (spellEntries entries) key =
      ((Entries.find? key entries).filter isDefined).map spell := by
  rw [definedWord?, find?_spellEntries]
  cases Entries.find? key entries with
  | none => rfl
  | some v =>
    cases h : v.isDefined with
    | false => simp [Option.filter, h, (spell_eq_missing_iff v).mpr h]
    | true =>
      have hne : v.spell ≠ [.mark 0] := fun heq => by
        rw [(spell_eq_missing_iff v).mp heq] at h
        cases h
      simp [Option.filter, h, hne]

end Value

/-! ## Data -/

/-- Whether a value has no elements. An instance has none when its class does not make it
an iterable. -/
def World.IsAtom (w : World) : Value → Prop
  | .array _ | .typed _ | .map _ | .iterable .. | .foreign _ => False
  | .inst i => w.isGeneric i.cls = false
  | _ => True

/-- What is data: values without elements, and finite containers of data. -/
inductive World.IsData (w : World) : Value → Prop
  | atom {v : Value} (h : w.IsAtom v) : w.IsData v
  | array {items : List Value} (h : ∀ v ∈ items, w.IsData v) : w.IsData (.array items)
  | typed (items : TypedArray) : w.IsData (.typed items)
  | iterable {id : Nat} {label : String} {length : Nat} {items : List Value}
      {lengthFault : Option Value} {faults : List (Nat × Value)} (h : ∀ v ∈ items, w.IsData v) :
      w.IsData (.iterable id label length items lengthFault faults)
  | map {entries : List (String × Value)} (h : ∀ entry ∈ entries, w.IsData entry.2) :
      w.IsData (.map entries)

variable {w : World}

theorem World.isAtom_of_mem_values {items : TypedArray} {v : Value} (h : v ∈ items.values) :
    w.IsAtom v := by
  cases items <;> simp only [TypedArray.values, List.mem_map] at h <;>
    obtain ⟨_, _, rfl⟩ := h <;> trivial

theorem Value.spell_of_isAtom {v : Value} (h : w.IsAtom v) : v.spell = v.spellAtom := by
  cases v <;> first | rfl | exact h.elim

/-- The word of data begins with its rank. -/
theorem Value.spell_eq_rank {v : Value} (h : w.IsData v) :
    ∃ rest, v.spell = .mark (w.rank v) :: rest := by
  cases h with
  | atom h =>
    cases v <;> first
      | exact h.elim
      | exact ⟨_, rfl⟩
      | exact ⟨_, by simp only [World.IsAtom] at h; simp [spell, spellAtom, World.rank, h]; rfl⟩
  | array _ => exact ⟨_, rfl⟩
  | typed _ => exact ⟨_, rfl⟩
  | iterable _ => exact ⟨_, rfl⟩
  | map _ => exact ⟨_, rfl⟩

/-! ## Ranks and atoms -/

/-- Comparing with data gives what comparing words gives. -/
def World.Ranks (w : World) (compareTo : Value → Eval Ordering) (u : Word) : Prop :=
  ∀ b, w.IsData b → ∃ o, (compareTo b).Yields w o ∧ Decides o u b.spell

/-- Ranks decide, and on a tie the words do. -/
theorem ranks_byRank {a : Value} {u : Word} {further : Value → Eval Ordering}
    (hu : ∃ rest, u = .mark (w.rank a) :: rest)
    (h : ∀ b, w.IsData b → w.rank a = w.rank b →
      ∃ o, (further b).Yields w o ∧ Decides o u b.spell) :
    w.Ranks (fun b => byRank a b (further b)) u := by
  intro b hb
  have hworld (seen : Array Diagnostic) (v : Value) :
      ({ w with diagnostics := seen } : World).rank v = w.rank v := by
    cases v <;> rfl
  by_cases hrank : w.rank a = w.rank b
  · obtain ⟨o, ho, hdecides⟩ := h b hb hrank
    refine ⟨o, Eval.yields_world_bind fun seen => ?_, hdecides⟩
    rw [hworld seen a, hworld seen b, if_neg (not_not.mpr hrank)]
    exact ho
  · obtain ⟨rest, rfl⟩ := hu
    obtain ⟨rest', hrest'⟩ := Value.spell_eq_rank hb
    refine ⟨compare (w.rank a) (w.rank b), Eval.yields_world_bind fun seen => ?_, ?_⟩
    · rw [hworld seen a, hworld seen b, if_pos hrank]
      exact Eval.yields_pure _
    · rw [hrest']
      refine decides_of_ne_eq (Letter.compare_mark _ _) ?_ _ _
      exact fun heq => hrank (Std.LawfulEqCmp.eq_of_compare heq)

/-- Numbers compare as the points they stand for. -/
theorem decides_numbers {o : Ordering} {x y : Extended} (h : o = x.compare y) :
    Decides o [.mark 3, .number x] [.mark 3, .number y] := by
  rw [h, ← Letter.compare_number]
  exact (decides_singleton _ _).cons_self _

theorem decides_atoms {a b : Value} (ha : w.IsAtom a) (hb : w.IsAtom b)
    (hrank : w.rank a = w.rank b) : Decides (compareAtoms a b) a.spellAtom b.spellAtom := by
  cases a <;> cases b <;>
    first
      | exact ha.elim
      | exact hb.elim
      | (simp only [World.IsAtom] at ha hb; simp [World.rank, ha, hb] at hrank; done)
      | skip
  case undefined.undefined => exact decides_singleton _ _
  case none.none => exact decides_singleton _ _
  case boolean.boolean x y =>
    have hcompare : compareAtoms (.boolean x) (.boolean y) =
        compare (Letter.mark x.toNat) (Letter.mark y.toNat) := by
      cases x <;> cases y <;> rfl
    rw [hcompare]
    exact (decides_singleton _ _).cons_self _
  case integer.integer m n => exact decides_numbers (Extended.compare_ofInteger m n).symm
  case integer.float n x => exact decides_numbers (Extended.compareWithInteger_eq n x.read)
  case float.integer x n =>
    have hswap : x.read.compare (.ofInteger n) = ((Extended.ofInteger n).compare x.read).swap :=
      Std.OrientedCmp.eq_swap
    refine decides_numbers ?_
    rw [hswap, ← Extended.compareWithInteger_eq]
    rfl
  case float.float x y => exact decides_numbers rfl
  case string.string s t =>
    have hpair := (decides_singleton (.text s) (.text t)).cons_self (.mark 4)
    rwa [Letter.compare_text] at hpair
  case function.function f g =>
    have hpair := ((decides_singleton (.mark f.id) (.mark g.id)).cons (.text f.name)
      (.text g.name)).cons_self (.mark 7)
    rwa [Letter.compare_text, Letter.compare_mark] at hpair
  case cls.cls c d =>
    have hpair := (decides_singleton (.mark c.index) (.mark d.index)).cons_self (.mark 8)
    rwa [Letter.compare_mark] at hpair
  case inst.inst i j =>
    have hpair := ((decides_singleton (.mark i.index) (.mark j.index)).cons (.mark i.cls.index)
      (.mark j.cls.index)).cons_self (.mark 9)
    rwa [Letter.compare_mark, Letter.compare_mark] at hpair

theorem rank_of_isAtom {a : Value} (ha : w.IsAtom a) : w.rank a ≠ 5 ∧ w.rank a ≠ 6 := by
  cases a <;> first
    | exact ha.elim
    | (simp only [World.IsAtom] at ha; simp [World.rank, ha])

/-- What has no elements compares as its word does. -/
theorem ranks_of_isAtom {a : Value} (ha : w.IsAtom a) {further : Value → Eval Ordering}
    (hfurther : ∀ b, (further b).Yields w (compareAtoms a b)) :
    w.Ranks (fun b => byRank a b (further b)) a.spellAtom := by
  obtain ⟨hfive, hsix⟩ := rank_of_isAtom ha
  refine ranks_byRank ?_ fun b hb hrank => ?_
  · rw [← Value.spell_of_isAtom ha]
    exact Value.spell_eq_rank (.atom ha)
  cases hb with
  | atom hb =>
    rw [Value.spell_of_isAtom hb]
    exact ⟨_, hfurther b, decides_atoms ha hb hrank⟩
  | array _ => exact absurd hrank hfive
  | typed _ => exact absurd hrank hfive
  | iterable _ => exact absurd hrank hfive
  | map _ => exact absurd hrank hsix

theorem ranks_atom {a : Value} (ha : w.IsAtom a) :
    w.Ranks (fun b => byRank a b (return compareAtoms a b)) a.spellAtom :=
  ranks_of_isAtom ha fun _ => Eval.yields_pure _

theorem ranks_missing : w.Ranks Place.missing.compareTo [.mark 0] :=
  ranks_atom (a := .undefined) trivial

/-! ## Sequences -/

/-- A view offers things that go with words: it has as many of them, and each can be had,
if need be by a substitute. -/
structure View.Offers {α : Type} (w : World) (goesWith : α → Word → Prop) (view : View α)
    (missing : α) (words : List Word) : Prop where
  length : view.lengthOrZero.Yields w words.length
  element : ∀ i (h : i < words.length),
    ∃ x, (view.elementOr missing i).Yields w x ∧ goesWith x words[i]

variable {α : Type} {goesWith : α → Word → Prop}

theorem offers_ofArray {items : List α} {words : List Word} (missing : α)
    (h : List.Forall₂ goesWith items words) :
    (View.ofArray missing items.toArray).Offers w goesWith missing words where
  length := by
    refine Eval.yields_bind (Eval.yields_attempt (Eval.yields_pure _)) ?_
    have hlength := h.length_eq
    simp only [List.size_toArray, hlength]
    exact Eval.yields_pure _
  element i hi := by
    have hi' : i < items.length := h.length_eq ▸ hi
    refine ⟨items[i], ?_, h.get hi' hi⟩
    refine Eval.yields_bind (Eval.yields_attempt (Eval.yields_pure _)) ?_
    simp only [List.getElem?_toArray, List.getElem?_eq_getElem hi', Option.getD_some]
    exact Eval.yields_pure _

theorem offers_ofIterable {items : List α} {words : List Word} {missing : α}
    (h : List.Forall₂ goesWith items words) (hmissing : goesWith missing [.mark 0])
    (length : Nat) (lengthFault : Option Value) (faults : List (Nat × Value)) :
    (View.ofIterable missing length items.toArray lengthFault faults).Offers w goesWith missing
      (seenWords length words lengthFault faults) where
  length := by
    cases lengthFault with
    | some raised =>
      exact Eval.yields_bind (Eval.yields_attempt_fail _) (Eval.yields_pure _)
    | none =>
      refine Eval.yields_bind (Eval.yields_attempt (Eval.yields_pure _)) ?_
      simp only [seenWords, Option.isSome_none, Bool.false_eq_true, if_false, List.length_map,
        List.length_range]
      exact Eval.yields_pure _
  element i hi := by
    cases lengthFault with
    | some raised => exact absurd hi (Nat.not_lt_zero i)
    | none =>
      simp only [seenWords, Option.isSome_none, Bool.false_eq_true, if_false, List.getElem_map,
        List.getElem_range]
      cases hfault : Value.faultAt? faults i with
      | some raised =>
        refine ⟨missing, ?_, by simpa using hmissing⟩
        simp only [View.elementOr, View.ofIterable, hfault]
        refine Eval.yields_bind (Eval.yields_attempt_fail _) ?_
        exact Eval.yields_bind (Eval.yields_report_debug _) (Eval.yields_pure _)
      | none =>
        refine ⟨items[i]?.getD missing, ?_, ?_⟩
        · simp only [View.elementOr, View.ofIterable, hfault, List.getElem?_toArray]
          exact Eval.yields_bind (Eval.yields_attempt (Eval.yields_pure _)) (Eval.yields_pure _)
        · rw [Option.isSome_none, if_neg Bool.false_ne_true]
          by_cases hi' : i < items.length
          · have hi'' : i < words.length := h.length_eq ▸ hi'
            rw [List.getElem?_eq_getElem hi', List.getElem?_eq_getElem hi'']
            exact h.get hi' hi''
          · have hi'' : ¬ i < words.length := h.length_eq ▸ hi'
            rw [List.getElem?_eq_none (Nat.le_of_not_lt hi'),
              List.getElem?_eq_none (Nat.le_of_not_lt hi'')]
            exact hmissing

theorem yields_comparePlaces {left : View Place} {right : View Value} {us vs : List Word}
    (hleft : left.Offers w (fun p u => w.Ranks p.compareTo u) .missing us)
    (hright : right.Offers w (fun v u => w.IsData v ∧ v.spell = u) .undefined vs)
    (count i : Nat) (hcount : i + count = max us.length vs.length) :
    ∃ o, (comparePlaces left right us.length vs.length count i).Yields w o ∧
      Decides o (joinWords (us.drop i)) (joinWords (vs.drop i)) := by
  induction count generalizing i with
  | zero =>
    rw [List.drop_eq_nil_of_le (by omega), List.drop_eq_nil_of_le (by omega)]
    exact ⟨.eq, Eval.yields_pure _, decides_nil.cons_self _⟩
  | succ count ih =>
    rw [comparePlaces]
    by_cases hl : i < us.length
    · rw [if_pos hl, List.drop_eq_getElem_cons hl]
      by_cases hr : i < vs.length
      · rw [if_pos hr, List.drop_eq_getElem_cons hr]
        obtain ⟨x, hx, hranks⟩ := hleft.element i hl
        obtain ⟨y, hy, hdata, hspell⟩ := hright.element i hr
        obtain ⟨o, ho, hdecides⟩ := hranks y hdata
        obtain ⟨p, hp, hrest⟩ := ih (i + 1) (by omega)
        rw [hspell] at hdecides
        refine ⟨o.then p, ?_, decides_joinWords_cons_cons hdecides hrest⟩
        refine Eval.yields_bind hx (Eval.yields_bind (Eval.yields_holding _ hy)
          (Eval.yields_bind (Eval.yields_holding _ ho) ?_))
        cases o with
        | eq => exact hp
        | lt => exact Eval.yields_pure _
        | gt => exact Eval.yields_pure _
      · rw [if_neg hr, List.drop_eq_nil_of_le (Nat.le_of_not_lt hr)]
        exact ⟨.gt, Eval.yields_pure _, decides_joinWords_cons_nil _ _⟩
    · have hr : i < vs.length := by omega
      rw [if_neg hl, List.drop_eq_nil_of_le (Nat.le_of_not_lt hl), List.drop_eq_getElem_cons hr]
      exact ⟨.lt, Eval.yields_pure _, decides_joinWords_nil_cons _ _⟩

theorem forall₂_spellAll {items : List Value} (h : ∀ v ∈ items, w.IsData v) :
    List.Forall₂ (fun v u => w.IsData v ∧ v.spell = u) items (Value.spellAll items) := by
  rw [Value.spellAll_eq_map, List.forall₂_map_right_iff]
  exact List.forall₂_same.mpr fun v hv => ⟨h v hv, rfl⟩

theorem forall₂_spellAtom (items : TypedArray) :
    List.Forall₂ (fun v u => w.IsData v ∧ v.spell = u) items.values
      (items.values.map Value.spellAtom) := by
  rw [List.forall₂_map_right_iff]
  refine List.forall₂_same.mpr fun v hv => ?_
  have hatom : w.IsAtom v := World.isAtom_of_mem_values hv
  exact ⟨.atom hatom, Value.spell_of_isAtom hatom⟩

/-! ## Maps -/

theorem yields_compareUnder {a : Index Place} {b : Index Value} {f g : String → Option Word}
    (ha : ∀ key, Option.Rel (fun p u => w.Ranks p.compareTo u)
      (a[key]?.filter fun x => x.value.isDefined) (f key))
    (hb : ∀ key, Option.Rel (fun v u => w.IsData v ∧ v.spell = u)
      (b[key]?.filter Value.isDefined) (g key))
    {keys : List String} (hkeys : keys.Pairwise fun a b => compare a b = .lt) :
    ∃ o, (compareUnder a b keys).Yields w o ∧ Decides o (joinNamed f keys) (joinNamed g keys) := by
  induction keys with
  | nil => exact ⟨.eq, Eval.yields_pure _, decides_nil.cons_self _⟩
  | cons key rest ih =>
    obtain ⟨hsorted, hrest⟩ := List.pairwise_cons.mp hkeys
    obtain ⟨p, hp, hdecides⟩ := ih hrest
    rw [compareUnder]
    have hleft := ha key
    have hright := hb key
    generalize (a[key]?.filter fun x => x.value.isDefined) = left at hleft ⊢
    generalize b[key]?.filter Value.isDefined = right at hright ⊢
    cases hf : f key with
    | none =>
      rw [hf] at hleft
      cases hleft
      cases hg : g key with
      | none =>
        rw [hg] at hright
        cases hright
        refine ⟨p, Eval.yields_bind (Eval.yields_pure _) hp, ?_⟩
        rwa [joinNamed_cons_none hf, joinNamed_cons_none hg]
      | some v =>
        rw [hg] at hright
        cases hright
        exact ⟨.lt, Eval.yields_bind (Eval.yields_pure _) (Eval.yields_pure _),
          (decides_joinNamed_some_none hg hf hsorted).swap⟩
    | some u =>
      rw [hf] at hleft
      obtain @⟨x, _, hranks⟩ := hleft
      cases hg : g key with
      | none =>
        rw [hg] at hright
        cases hright
        exact ⟨.gt, Eval.yields_bind (Eval.yields_pure _) (Eval.yields_pure _),
          decides_joinNamed_some_none hf hg hsorted⟩
      | some v =>
        rw [hg] at hright
        obtain @⟨y, _, hdata, hspell⟩ := hright
        obtain ⟨o, ho, hword⟩ := hranks y hdata
        rw [hspell] at hword
        refine ⟨o.then p, Eval.yields_bind ho ?_,
          decides_joinNamed_some_some hf hg hword hdecides⟩
        cases o with
        | eq => exact hp
        | lt => exact Eval.yields_pure _
        | gt => exact Eval.yields_pure _

theorem pairwise_sortedKeys {α β : Type} (a : Entries String α) (b : Entries String β) :
    (sortedKeys a b).Pairwise fun a b => compare a b = .lt :=
  Std.TreeSet.ordered_toList

theorem mem_keys_of_definedWord? {words : Entries String Word} {key : String}
    (h : (definedWord? words key).isSome) : key ∈ Entries.keys words := by
  by_contra hmem
  rw [definedWord?, Entries.find?_eq_none_iff.mpr hmem] at h
  cases h

/-- The word of a map may be spelled over more keys than its own. -/
theorem spell_map {α β : Type} {entries : Entries String Value} {a : Entries String α}
    {b : Entries String β}
    (hkeys : Entries.keys entries ⊆ Entries.keys a ∨ Entries.keys entries ⊆ Entries.keys b) :
    (Value.map entries).spell =
      .mark 6 :: joinNamed (definedWord? (Value.spellEntries entries)) (sortedKeys a b) := by
  rw [Value.spell]
  congr 1
  refine joinNamed_eq_of_mem (pairwise_sortedKeys _ _) (pairwise_sortedKeys _ _) ?_
  intro key hkey
  have hmem := mem_keys_of_definedWord? hkey
  rw [mem_sortedKeys, mem_sortedKeys]
  constructor
  · intro _
    rw [Value.keys_spellEntries] at hmem
    rcases hkeys with hkeys | hkeys
    · exact Or.inl (hkeys hmem)
    · exact Or.inr (hkeys hmem)
  · exact fun _ => Or.inl hmem

/-! ## The order -/

variable [Host]

/-- Data of the rank of sequences offers its elements, and they make up its word. -/
theorem exists_sequence {b : Value} (hb : w.IsData b) (hrank : w.rank b = 5) :
    ∃ (right : View Value) (vs : List Word), (Eval.reads fun w => w.sequence? b).Yields w right ∧
      right.Offers w (fun v u => w.IsData v ∧ v.spell = u) .undefined vs ∧
      b.spell = .mark 5 :: joinWords vs := by
  have hmissing : w.IsData .undefined ∧ Value.undefined.spell = [.mark 0] :=
    ⟨.atom trivial, rfl⟩
  cases hb with
  | atom h => exact absurd hrank (rank_of_isAtom h).1
  | @array items h =>
    refine ⟨View.ofArray .undefined items.toArray, _, Eval.yields_reads fun seen => ?_,
      offers_ofArray _ (forall₂_spellAll h), rfl⟩
    simp only [World.sequence?, Value.elements_array]
  | typed items =>
    exact ⟨_, _, Eval.yields_reads fun seen => rfl, offers_ofArray _ (forall₂_spellAtom items),
      rfl⟩
  | @iterable id label length items lengthFault faults h =>
    refine ⟨View.ofIterable .undefined length items.toArray lengthFault faults, _,
      Eval.yields_reads fun seen => ?_,
      offers_ofIterable (forall₂_spellAll h) hmissing length lengthFault faults, rfl⟩
    simp only [World.sequence?, World.view?, Value.elements_iterable]
  | map _ => cases hrank

theorem yields_compareSequence {left : View Place} {us : List Word}
    (hleft : left.Offers w (fun p u => w.Ranks p.compareTo u) .missing us) {b : Value}
    (hb : w.IsData b) (hrank : w.rank b = 5) :
    ∃ o, (compareSequence left b).Yields w o ∧ Decides o (.mark 5 :: joinWords us) b.spell := by
  obtain ⟨right, vs, hreads, hright, hspell⟩ := exists_sequence hb hrank
  obtain ⟨o, ho, hdecides⟩ := yields_comparePlaces hleft hright (max us.length vs.length) 0
    (Nat.zero_add _)
  refine ⟨o, ?_, hspell ▸ hdecides.cons_self _⟩
  exact Eval.yields_bind hreads (Eval.yields_bind hleft.length
    (Eval.yields_bind hright.length ho))

omit [Host] in
theorem yields_compareMap {entries : List (String × Value)} {a : Entries String Place}
    (hfind : ∀ key, Option.Rel (fun p v => p.value = v ∧ w.Ranks p.compareTo v.spell)
      (Entries.find? key a) (Entries.find? key entries))
    (hkeys : Entries.keys entries = Entries.keys a) {b : Value} (hb : w.IsData b)
    (hrank : w.rank b = 6) :
    ∃ o, (compareMap a b).Yields w o ∧ Decides o (Value.map entries).spell b.spell := by
  cases hb with
  | atom h => exact absurd hrank (rank_of_isAtom h).2
  | array _ => cases hrank
  | typed _ => cases hrank
  | iterable _ => cases hrank
  | @map others h =>
    have hleft (key : String) : Option.Rel (fun p u => w.Ranks p.compareTo u)
        ((Entries.index a)[key]?.filter fun x => x.value.isDefined)
        (definedWord? (Value.spellEntries entries) key) := by
      rw [Entries.getElem?_index, Value.definedWord?_spellEntries]
      have hplace := hfind key
      generalize Entries.find? key a = place? at hplace ⊢
      generalize Entries.find? key entries = v? at hplace ⊢
      obtain @⟨p, v, hv, hranks⟩ | _ := hplace
      · rw [Option.filter_some, Option.filter_some, hv]
        cases v.isDefined with
        | false => exact .none
        | true => exact .some hranks
      · exact .none
    have hright (key : String) : Option.Rel (fun v u => w.IsData v ∧ v.spell = u)
        ((Entries.index others)[key]?.filter Value.isDefined)
        (definedWord? (Value.spellEntries others) key) := by
      rw [Entries.getElem?_index, Value.definedWord?_spellEntries]
      cases hother : Entries.find? key others with
      | none => exact .none
      | some v =>
        rw [Option.filter_some]
        cases v.isDefined with
        | false => exact .none
        | true => exact .some ⟨h _ (Entries.mem_of_find?_eq_some hother), rfl⟩
    obtain ⟨o, ho, hdecides⟩ := yields_compareUnder hleft hright (pairwise_sortedKeys a others)
    refine ⟨o, ho, ?_⟩
    have hsubset : Entries.keys entries ⊆ Entries.keys a := fun _ hkey => hkeys ▸ hkey
    rw [spell_map (Or.inl hsubset), spell_map (Or.inr (List.Subset.refl _))]
    exact hdecides.cons_self _

theorem keys_namedPlacesOf (deeper : Value → Value → Eval Ordering)
    (entries : List (String × Value)) :
    Entries.keys (namedPlacesOf deeper entries) = Entries.keys entries := by
  induction entries with
  | nil => rfl
  | cons entry rest ih => simpa [namedPlacesOf, Entries.keys] using ih

/-- **The order spells.** Data compares with data as their words do, in every world and
whatever it takes to compare elements that scripts make. -/
theorem ranks_compareBy (deeper : Value → Value → Eval Ordering) {a : Value}
    (ha : w.IsData a) : w.Ranks (compareBy deeper a) a.spell := by
  induction ha with
  | @atom a h =>
    cases a with
    | array _ | typed _ | map _ | iterable _ _ _ _ _ _ | foreign _ => exact h.elim
    | inst i =>
      have hopaque : w.isGeneric i.cls = false := h
      refine ranks_of_isAtom h fun b => Eval.yields_bind (a := none) ?_ (Eval.yields_pure _)
      refine Eval.yields_reads fun seen => ?_
      have hseen : ({ w with diagnostics := seen } : World).isGeneric i.cls = false := hopaque
      rw [World.view?, hseen, if_neg Bool.false_ne_true]
    | _ => exact ranks_atom h
  | @array items h ih =>
    have hplaces : List.Forall₂ (fun p u => w.Ranks p.compareTo u) (placesOf deeper items)
        (Value.spellAll items) := by
      rw [placesOf_eq_map, Value.spellAll_eq_map, List.forall₂_map_left_iff,
        List.forall₂_map_right_iff]
      exact List.forall₂_same.mpr ih
    refine ranks_byRank (Value.spell_eq_rank (.array h)) fun b hb hrank => ?_
    exact yields_compareSequence (offers_ofArray _ hplaces) hb hrank.symm
  | typed items =>
    have hplaces : List.Forall₂ (fun p u => w.Ranks p.compareTo u)
        (items.values.map Place.ofAtom) (items.values.map Value.spellAtom) := by
      rw [List.forall₂_map_left_iff, List.forall₂_map_right_iff]
      exact List.forall₂_same.mpr fun v hv => ranks_atom (World.isAtom_of_mem_values hv)
    refine ranks_byRank (Value.spell_eq_rank (.typed items)) fun b hb hrank => ?_
    exact yields_compareSequence (offers_ofArray _ hplaces) hb hrank.symm
  | @iterable id label length items lengthFault faults h ih =>
    have hplaces : List.Forall₂ (fun p u => w.Ranks p.compareTo u) (placesOf deeper items)
        (Value.spellAll items) := by
      rw [placesOf_eq_map, Value.spellAll_eq_map, List.forall₂_map_left_iff,
        List.forall₂_map_right_iff]
      exact List.forall₂_same.mpr ih
    refine ranks_byRank (Value.spell_eq_rank (.iterable h)) fun b hb hrank => ?_
    exact yields_compareSequence
      (offers_ofIterable hplaces ranks_missing length lengthFault faults) hb hrank.symm
  | @map entries h ih =>
    refine ranks_byRank (Value.spell_eq_rank (.map h)) fun b hb hrank => ?_
    refine yields_compareMap (fun key => ?_) ?_ hb hrank.symm
    · rw [find?_namedPlacesOf]
      cases hfind : Entries.find? key entries with
      | none => exact .none
      | some v => exact .some ⟨rfl, ih _ (Entries.mem_of_find?_eq_some hfind)⟩
    · exact (keys_namedPlacesOf deeper entries).symm

end DynamicObjects
