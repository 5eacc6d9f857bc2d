import DynamicObjects.Builtin.Apply
import DynamicObjects.Proofs.Collections.Representations
import DynamicObjects.Script.Evaluate

/-!
# Positions

Offsets, slices, single elements and insertions take indexes of sixty-four bits with a sign, and
each finds its position in machine numbers in its own way, by element or by character. They agree
on what an index means, which is said in whole numbers here. A negative one counts from the end;
offsets and single elements go by the position as it is counted, slices and insertions by the
nearest position that there is.

Lengths are machine numbers, too. No count leaves sixty-four bits then: a negative index is
added to a length that is not (`toInt_add_of_fits`), so the machine finds the position that is
meant (`clampPosition_eq`).

* `countedPosition`, `nearestPosition`: the positions that an index stands for.
* `Value.LaidOut`: what has positions, and how its parts are values.
* `index_convention`: the operations go by these positions.
-/

namespace DynamicObjects

open Number

/-! ## Positions of an index -/

/-- The position of an index in a sequence of a length, counted from the end if the index is
negative. -/
def countedPosition (length : Nat) (i : Int64) : Int :=
  if 0 ≤ i.toInt then i.toInt else length + i.toInt

/-- The counted position, or the end of the sequence that is nearer to it. -/
def nearestPosition (length : Nat) (i : Int64) : Nat :=
  (min (max 0 (countedPosition length i)) length).toNat

section Positions

variable {length : Nat} {i : Int64}

theorem nearestPosition_le (length : Nat) (i : Int64) : nearestPosition length i ≤ length := by
  unfold nearestPosition
  omega

theorem nearestPosition_zero (length : Nat) : nearestPosition length 0 = 0 := by
  simp [nearestPosition, countedPosition]

theorem zero_le_iff : 0 ≤ i ↔ 0 ≤ i.toInt := by
  rw [Int64.le_iff_toInt_le, Int64.toInt_zero]

variable (hfits : length ≤ Int64.maxValue.toInt)
include hfits

theorem toInt_ofNat_of_fits : (Int64.ofNat length).toInt = length := by
  rw [Int64.toInt_maxValue] at hfits
  exact Int64.toInt_ofNat_of_lt (by omega)

/-- Counting from the end does not leave the machine numbers. -/
theorem toInt_add_of_fits (hi : ¬ 0 ≤ i.toInt) :
    (Int64.ofNat length + i).toInt = length + i.toInt := by
  have hlow := i.le_toInt
  rw [Int64.toInt_add, toInt_ofNat_of_fits hfits]
  rw [Int64.toInt_maxValue] at hfits
  exact Int.bmod_eq_of_le (by omega) (by omega)

/-- The position found in machine numbers is the one nearest to the counted position. -/
theorem clampPosition_eq (i : Int64) : clampPosition length i = nearestPosition length i := by
  have hcount := toInt_ofNat_of_fits hfits
  have hplace : (if i < 0 then Int64.ofNat length + i else i).toInt = countedPosition length i := by
    rw [countedPosition]
    by_cases hi : 0 ≤ i.toInt
    · rw [if_pos hi, if_neg (Int64.not_lt.mpr (zero_le_iff.mpr hi))]
    · rw [if_neg hi, if_pos (Int64.not_le.mp fun h => hi (zero_le_iff.mp h)),
        toInt_add_of_fits hfits hi]
  unfold clampPosition nearestPosition
  dsimp only
  generalize (if i < 0 then Int64.ofNat length + i else i) = place at hplace ⊢
  rw [← hplace]
  simp only [Int64.lt_iff_toInt_lt, hcount, Int64.toInt_zero]
  split
  · rw [Int64.toInt_zero]
    omega
  · split <;> omega

end Positions

/-! ## Parts -/

/-- How parts are values, one by one and together. -/
structure Layout (α : Type) where
  one : α → Value
  many : List α → Value

def Layout.characters : Layout Char where
  one c := .string (String.ofList [c])
  many characters := .string (String.ofList characters)

def Layout.elements : Layout Value where
  one v := v
  many := .array

variable {α : Type} {layout : Layout α} {v : Value} {parts : List α} {items : List Value}

/-- A string has its characters at its positions, a sequence its elements. -/
inductive Value.LaidOut : {α : Type} → Layout α → Value → List α → Prop
  | string (s : String) : LaidOut .characters (.string s) s.toList
  | sequence {v : Value} {items : List Value} (h : v.Represents items) : LaidOut .elements v items

/-- A list has what another one has from a position up to another, and nothing when they cross. -/
structure Picks (parts : List α) (start stop : Nat) (picked : List α) : Prop where
  length_eq : picked.length = stop - start
  getElem?_eq : ∀ j < picked.length, picked[j]? = parts[start + j]?

theorem picks_between {stop : Nat} (hstop : stop ≤ parts.length) (start : Nat) :
    Picks parts start stop (between start stop parts) where
  length_eq := by
    rw [between, List.length_take, List.length_drop]
    omega
  getElem?_eq j hj := by
    rw [between, List.length_take] at hj
    rw [between, List.getElem?_take_of_lt (by omega), List.getElem?_drop]

theorem between_length (start : Nat) (parts : List α) :
    between start parts.length parts = parts.drop start := by
  rw [between, List.take_of_length_le]
  rw [List.length_drop]

theorem getElem?_take_append_drop {place : Nat} (hplace : place ≤ items.length) (item : Value) :
    (items.take place ++ item :: items.drop place)[place]? = some item := by
  have htaken : (items.take place).length = place := List.length_take_of_le hplace
  rw [List.getElem?_append_right htaken.le, htaken, Nat.sub_self]
  rfl

theorem eraseIdx_take_append_drop {place : Nat} (hplace : place ≤ items.length) (item : Value) :
    (items.take place ++ item :: items.drop place).eraseIdx place = items := by
  have htaken : (items.take place).length = place := List.length_take_of_le hplace
  rw [List.eraseIdx_append_of_length_le htaken.le, htaken, Nat.sub_self]
  exact List.take_append_drop place items

theorem sliceBounds_eq {length : Nat} (hfits : length ≤ Int64.maxValue.toInt) (start : Int64)
    (stop : Option Int64) : sliceBounds length start stop =
      pure (nearestPosition length start, (stop.map (nearestPosition length)).getD length) := by
  have hclamp : clampPosition length = nearestPosition length := funext (clampPosition_eq hfits)
  rw [sliceBounds, if_pos hfits, hclamp]

namespace Value.LaidOut

variable [Host] (h : v.LaidOut layout parts)
include h

theorem length_eq : v.length = pure parts.length := by
  cases h with
  | string s => rw [Value.length, String.length_toList]
  | sequence h => exact h.length_eq

/-- An offset is the counted position, as a machine number. -/
theorem resolveOffset_eq (hfits : parts.length ≤ Int64.maxValue.toInt) (i : Int64) :
    ∃ r : Int64, resolveOffset v i = pure r ∧ r.toInt = countedPosition parts.length i := by
  by_cases hi : 0 ≤ i
  · refine ⟨i, if_pos hi, ?_⟩
    rw [countedPosition, if_pos (zero_le_iff.mp hi)]
  · have hnegative : ¬ 0 ≤ i.toInt := fun h => hi (zero_le_iff.mpr h)
    refine ⟨Int64.ofNat parts.length + i, ?_, ?_⟩
    · rw [resolveOffset, if_neg hi, h.length_eq]
      rfl
    · rw [toInt_add_of_fits hfits hnegative, countedPosition, if_neg hnegative]

theorem elementAt_eq (i : Nat) :
    elementAt v i = pure ((parts[i]?.map layout.one).getD .undefined) := by
  cases h with
  | string s => rfl
  | @sequence _ items h =>
    have hone : items[i]?.map Layout.elements.one = items[i]? := Option.map_id'
    rw [h.elementAt_eq, hone]

theorem sliceValue_eq (hfits : parts.length ≤ Int64.maxValue.toInt) (start : Int64)
    (stop : Option Int64) :
    sliceValue v start stop = pure (layout.many (between (nearestPosition parts.length start)
      ((stop.map (nearestPosition parts.length)).getD parts.length) parts)) := by
  cases h with
  | string s =>
    rw [sliceValue, ← String.length_toList, sliceBounds_eq hfits]
    rfl
  | @sequence _ items h =>
    have harray := Value.Represents.array items
    have hslice : sliceValue (.array items) start stop = do
        let bounds ← sliceBounds (← (Value.array items).length) start stop
        let items ← elementsOf? (.array items)
        return .array (between bounds.1 bounds.2 (items.getD [])) := rfl
    rw [h.sliceValue_eq, hslice, harray.length_eq, harray.elementsOf?_eq, pure_bind,
      sliceBounds_eq hfits]
    rfl

/-- The element at an index is the one at its counted position. -/
theorem accessValue_eq (hfits : parts.length ≤ Int64.maxValue.toInt) (i : Int64) :
    accessValue v (.integer i) =
      if 0 ≤ countedPosition parts.length i
      then elementAt v (countedPosition parts.length i).toNat else pure .undefined := by
  have hinteger : accessValue v (.integer i) =
      if 0 ≤ i then elementAt v i.toInt.toNat
      else do
        let resolved ← resolveOffset v i
        if 0 ≤ resolved then elementAt v resolved.toInt.toNat else return .undefined := by
    cases h with
    | string s => rfl
    | sequence h => cases h <;> rfl
  obtain ⟨r, hresolved, hr⟩ := h.resolveOffset_eq hfits i
  rw [hinteger]
  split
  · rename_i hi
    have hcounted : countedPosition parts.length i = i.toInt := if_pos (zero_le_iff.mp hi)
    rw [hcounted, if_pos (zero_le_iff.mp hi)]
  · rw [hresolved, pure_bind, ← hr]
    simp only [zero_le_iff]

omit [Host] in
theorem whole_eq (hwhole : (∃ s, v = .string s) ∨ ∃ items, v = .array items) :
    layout.many parts = v := by
  cases h with
  | string s => exact congrArg Value.string String.ofList_toList
  | sequence h =>
    cases h with
    | array => rfl
    | _ => simp at hwhole

end Value.LaidOut

/-! ## The convention -/

/-- What indexes stand for in a value with parts. -/
structure Value.Indexed [Host] (layout : Layout α) (v : Value) (parts : List α) : Prop where
  /-- The counted position is a machine number. -/
  offset_eq : ∀ i, ∃ r : Int64, Builtin.offset.apply [v, .integer i] = pure (.integer r) ∧
    r.toInt = countedPosition parts.length i
  slice_eq : ∀ start stop, ∃ picked,
    Builtin.slice.apply [v, .integer start, .integer stop] = pure (layout.many picked) ∧
    Picks parts (nearestPosition parts.length start) (nearestPosition parts.length stop) picked
  /-- The slices up to an index and from there on are all parts, in order. -/
  slices_append : ∀ i, ∃ front back,
    Builtin.slice.apply [v, .integer 0, .integer i] = pure (layout.many front) ∧
    Builtin.slice.apply [v, .integer i] = pure (layout.many back) ∧
    front ++ back = parts
  /-- All parts make up a string or an array. -/
  whole_eq : ((∃ s, v = .string s) ∨ ∃ items, v = .array items) → layout.many parts = v
  access_within : ∀ i, 0 ≤ countedPosition parts.length i →
    countedPosition parts.length i < parts.length →
    ∃ part, parts[(countedPosition parts.length i).toNat]? = some part ∧
      Builtin.access.apply [v, .integer i] = pure (layout.one part)
  access_beyond : ∀ i,
    countedPosition parts.length i < 0 ∨ parts.length ≤ countedPosition parts.length i →
    Builtin.access.apply [v, .integer i] = pure .undefined

/-- What putting an item into an array at an index does, when it comes to stand at a position. -/
structure Inserts [Host] (items : List Value) (i : Int64) (item : Value) (position : Int64)
    (inserted : Value) : Prop where
  position_eq : position.toInt = nearestPosition items.length i
  insert_eq : Builtin.insert.apply [.array items, .integer i, item] = pure inserted
  /-- The item stands between the slices up to the index and from there on. -/
  between_slices : ∃ front back,
    Builtin.slice.apply [.array items, .integer 0, .integer i] = pure (.array front) ∧
    Builtin.slice.apply [.array items, .integer i] = pure (.array back) ∧
    inserted = .array (front ++ item :: back)
  access_eq : Builtin.access.apply [inserted, .integer position] = pure item
  removeAt_eq : Builtin.removeAt.apply [inserted, .integer position] = pure (.array items)

section Conventions

variable [Host]

theorem Value.LaidOut.slices_eq (h : v.LaidOut layout parts)
    (hfits : parts.length ≤ Int64.maxValue.toInt) (i : Int64) :
    Builtin.slice.apply [v, .integer 0, .integer i] =
        pure (layout.many (parts.take (nearestPosition parts.length i))) ∧
      Builtin.slice.apply [v, .integer i] =
        pure (layout.many (parts.drop (nearestPosition parts.length i))) := by
  have hfront : Builtin.slice.apply [v, .integer 0, .integer i] = _ :=
    h.sliceValue_eq hfits 0 (some i)
  have hback : Builtin.slice.apply [v, .integer i] = _ := h.sliceValue_eq hfits i Option.none
  have hlast := between_length (nearestPosition parts.length i) parts
  rw [hfront, hback, nearestPosition_zero, ← hlast]
  exact ⟨rfl, rfl⟩

theorem Value.LaidOut.indexed (h : v.LaidOut layout parts)
    (hfits : parts.length ≤ Int64.maxValue.toInt) : v.Indexed layout parts where
  offset_eq i := by
    obtain ⟨r, hresolved, hr⟩ := h.resolveOffset_eq hfits i
    have hoffset : Builtin.offset.apply [v, .integer i] =
        do return .integer (← resolveOffset v i) := rfl
    refine ⟨r, ?_, hr⟩
    rw [hoffset, hresolved, pure_bind]
  slice_eq start stop :=
    ⟨_, h.sliceValue_eq hfits start (some stop), picks_between (nearestPosition_le _ _) _⟩
  slices_append i := by
    obtain ⟨hfront, hback⟩ := h.slices_eq hfits i
    exact ⟨_, _, hfront, hback, List.take_append_drop _ parts⟩
  whole_eq := h.whole_eq
  access_within i hlow hhigh := by
    have hposition : (countedPosition parts.length i).toNat < parts.length := by omega
    have haccess : Builtin.access.apply [v, .integer i] = accessValue v (.integer i) := rfl
    refine ⟨_, List.getElem?_eq_getElem hposition, ?_⟩
    rw [haccess, h.accessValue_eq hfits, if_pos hlow, h.elementAt_eq,
      List.getElem?_eq_getElem hposition]
    rfl
  access_beyond i hbeyond := by
    have haccess : Builtin.access.apply [v, .integer i] = accessValue v (.integer i) := rfl
    rw [haccess, h.accessValue_eq hfits]
    split
    · have hposition : parts.length ≤ (countedPosition parts.length i).toNat := by omega
      rw [h.elementAt_eq, List.getElem?_eq_none hposition]
      rfl
    · rfl

theorem inserts_array (hfits : items.length ≤ Int64.maxValue.toInt) (i : Int64) (item : Value) :
    ∃ position inserted, Inserts items i item position inserted := by
  have hlaid : (Value.array items).LaidOut .elements items := .sequence (.array items)
  obtain ⟨hfront, hback⟩ := hlaid.slices_eq hfits i
  have hplace := nearestPosition_le items.length i
  have hinsert : Builtin.insert.apply [.array items, .integer i, item] =
      do return .array (← insertAt items (clampPosition items.length i) item) := rfl
  rw [clampPosition_eq hfits] at hinsert
  generalize hposition : nearestPosition items.length i = place at *
  have hmachine : (Int64.ofNat place).toInt = place := toInt_ofNat_of_fits (by omega)
  have hstart : 0 ≤ Int64.ofNat place := by
    rw [zero_le_iff, hmachine]
    exact Int.natCast_nonneg place
  refine ⟨Int64.ofNat place, .array (items.take place ++ item :: items.drop place), ?_⟩
  exact {
    position_eq := by rw [hmachine, hposition]
    insert_eq := by
      rw [hinsert, insertAt, if_pos hplace]
      rfl
    between_slices := ⟨_, _, hfront, hback, rfl⟩
    access_eq := by
      have haccess (v : Value) : Builtin.access.apply [v, .integer (Int64.ofNat place)] =
          elementAt v (Int64.ofNat place).toInt.toNat := if_pos hstart
      rw [haccess, (Value.Represents.array _).elementAt_eq, hmachine, Int.toNat_natCast,
        getElem?_take_append_drop hplace]
      rfl
    removeAt_eq := by
      have hremove (inserted : List Value) :
          Builtin.removeAt.apply [.array inserted, .integer (Int64.ofNat place)] =
            removePosition (.array inserted) (.integer (Int64.ofNat place)) := rfl
      have hwithin : place < (items.take place ++ item :: items.drop place).length := by
        rw [List.length_append, List.length_take_of_le hplace, List.length_cons]
        omega
      rw [hremove, removePosition, hmachine, Int.toNat_natCast,
        if_pos ⟨Int.natCast_nonneg place, hwithin⟩, removeAt, if_pos hwithin,
        eraseIdx_take_append_drop hplace]
      rfl }

/-- **One convention for indexes.** Offsets, slices and single elements of a string or a sequence
go by the counted position of an index or by the one nearest to it, for all indexes; so do
insertions into an array, and what has been put in can be found and taken out at its position. -/
theorem index_convention (h : v.LaidOut layout parts)
    (hfits : parts.length ≤ Int64.maxValue.toInt) :
    v.Indexed layout parts ∧ ∀ items, v = .array items → ∀ i item,
      ∃ position inserted, Inserts items i item position inserted := by
  refine ⟨h.indexed hfits, ?_⟩
  rintro items rfl i item
  cases h with
  | sequence h =>
    cases h with
    | array => exact inserts_array hfits i item

end Conventions

/-- The least index of all is before the start. -/
theorem index_convention_least :
    let items := [Value.integer 7, .integer 8]
    let _ := Script.hostWithin 0
    (Value.array items).LaidOut .elements items ∧
      items.length ≤ Int64.maxValue.toInt ∧
      Builtin.access.apply [.array items, .integer Int64.minValue] = pure .undefined ∧
      ∃ position inserted, Inserts items Int64.minValue .none position inserted := by
  intro items _
  have hlaid : (Value.array items).LaidOut .elements items := .sequence (.array items)
  have hfits : items.length ≤ Int64.maxValue.toInt := by decide
  obtain ⟨hindexed, hinserts⟩ := index_convention hlaid hfits
  exact ⟨hlaid, hfits, hindexed.access_beyond Int64.minValue (by decide),
    hinserts items rfl Int64.minValue .none⟩

end DynamicObjects
