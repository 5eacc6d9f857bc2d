/-!
# Entries in insertion order

A finite map kept as a list of key and value pairs, in the order in which the keys
were first inserted. Inserting under a key that is already there replaces the value
and leaves the key where it stands. The basic facts say what each operation does to
lookup and to the list of keys.

* `Entries.find?_insert`: lookup after an insertion.
* `Entries.keys_insert`: the keys after an insertion.
* `Entries.nodup_insert`: distinct keys stay distinct.
-/

namespace DynamicObjects

/-- Key and value pairs in insertion order. -/
abbrev Entries (κ α : Type) := List (κ × α)

namespace Entries

variable {κ α : Type} [DecidableEq κ]

/-- The value under a key. -/
def find? (key : κ) : Entries κ α → Option α
  | [] => none
  | (k, v) :: rest => if k = key then some v else find? key rest

/-- Whether the key has a value. -/
def contains (key : κ) (entries : Entries κ α) : Bool := (find? key entries).isSome

/-- Puts a value under a key: in place when the key is there, at the end otherwise. -/
def insert (key : κ) (value : α) : Entries κ α → Entries κ α
  | [] => [(key, value)]
  | (k, v) :: rest => if k = key then (k, value) :: rest else (k, v) :: insert key value rest

/-- Removes a key; the others keep their order. -/
def erase (key : κ) : Entries κ α → Entries κ α
  | [] => []
  | (k, v) :: rest => if k = key then rest else (k, v) :: erase key rest

/-- The keys in order. -/
def keys (entries : Entries κ α) : List κ := entries.map Prod.fst

/-- The values in order. -/
def values (entries : Entries κ α) : List α := entries.map Prod.snd

/-- No key occurs twice. -/
def Distinct (entries : Entries κ α) : Prop := (keys entries).Nodup

/-! ## Lookup and keys after each operation -/

@[simp] theorem find?_nil (key : κ) : find? key ([] : Entries κ α) = none := rfl

theorem find?_insert (key other : κ) (value : α) (entries : Entries κ α) :
    find? other (insert key value entries) =
      if key = other then some value else find? other entries := by
  induction entries with
  | nil => simp [insert, find?]
  | cons entry rest ih =>
    obtain ⟨k, v⟩ := entry
    by_cases hk : k = key
    · subst hk
      by_cases ho : k = other <;> simp [insert, find?, ho]
    · by_cases ho : k = other
      · subst ho
        simp [insert, find?, hk, Ne.symm hk]
      · simp [insert, find?, hk, ho, ih]

@[simp] theorem find?_insert_self (key : κ) (value : α) (entries : Entries κ α) :
    find? key (insert key value entries) = some value := by simp [find?_insert]

theorem find?_eq_none_iff {key : κ} {entries : Entries κ α} :
    find? key entries = none ↔ key ∉ keys entries := by
  induction entries with
  | nil => simp [keys]
  | cons entry rest ih =>
    obtain ⟨k, v⟩ := entry
    by_cases hk : k = key
    · simp [find?, keys, hk]
    · simp_all [find?, keys, eq_comm]

theorem find?_eq_some_of_mem {key : κ} {entries : Entries κ α} (h : key ∈ keys entries) :
    ∃ value, find? key entries = some value :=
  Option.ne_none_iff_exists'.mp fun hnone => find?_eq_none_iff.mp hnone h

theorem contains_eq_decide (key : κ) (entries : Entries κ α) :
    contains key entries = decide (key ∈ keys entries) := by
  cases hfind : find? key entries with
  | none => simp [contains, hfind, find?_eq_none_iff.mp hfind]
  | some value =>
    have hmem : key ∈ keys entries := by
      refine Decidable.of_not_not fun hfresh => ?_
      rw [find?_eq_none_iff.mpr hfresh] at hfind
      cases hfind
    simp [contains, hfind, hmem]

theorem mem_keys_iff_isSome {key : κ} {entries : Entries κ α} :
    key ∈ keys entries ↔ (find? key entries).isSome := by
  have hcontains := contains_eq_decide key entries
  rw [contains] at hcontains
  rw [hcontains, decide_eq_true_eq]

theorem find?_append (key : κ) (entries more : Entries κ α) :
    find? key (entries ++ more) = (find? key entries).or (find? key more) := by
  induction entries with
  | nil => rfl
  | cons entry rest ih =>
    obtain ⟨k, value⟩ := entry
    by_cases hk : k = key <;> simp [find?, hk, ih]

theorem mem_of_find?_eq_some {key : κ} {value : α} {entries : Entries κ α}
    (h : find? key entries = some value) : (key, value) ∈ entries := by
  induction entries with
  | nil => cases h
  | cons entry rest ih =>
    obtain ⟨k, v⟩ := entry
    rw [find?] at h
    split at h
    · rename_i hk
      cases h
      rw [hk]
      exact List.mem_cons_self
    · exact List.mem_cons_of_mem _ (ih h)

/-- Where no key occurs twice, a value is found under the key that it is listed with. -/
theorem find?_eq_some_iff {key : κ} {value : α} {entries : Entries κ α} (h : Distinct entries) :
    find? key entries = some value ↔ (key, value) ∈ entries := by
  refine ⟨mem_of_find?_eq_some, fun hmem => ?_⟩
  induction entries with
  | nil => cases hmem
  | cons entry rest ih =>
    obtain ⟨hfresh, hrest⟩ := List.nodup_cons.mp h
    rcases List.mem_cons.mp hmem with rfl | hmem
    · exact if_pos rfl
    · rw [find?, if_neg, ih hrest hmem]
      rintro rfl
      exact hfresh (List.mem_map.mpr ⟨_, hmem, rfl⟩)

/-- What is in entries after an insertion was inserted or was there before. -/
theorem mem_insert {key : κ} {value : α} {entry : κ × α} {entries : Entries κ α}
    (h : entry ∈ insert key value entries) : entry = (key, value) ∨ entry ∈ entries := by
  induction entries with
  | nil => exact .inl (List.mem_singleton.mp h)
  | cons first rest ih =>
    obtain ⟨k, v⟩ := first
    rw [insert] at h
    split at h
    · rename_i hk
      rcases List.mem_cons.mp h with rfl | h
      · exact .inl (hk ▸ rfl)
      · exact .inr (List.mem_cons_of_mem _ h)
    · rcases List.mem_cons.mp h with rfl | h
      · exact .inr List.mem_cons_self
      · exact (ih h).imp_right (List.mem_cons_of_mem _)

theorem keys_insert (key : κ) (value : α) (entries : Entries κ α) :
    keys (insert key value entries) =
      if key ∈ keys entries then keys entries else keys entries ++ [key] := by
  induction entries with
  | nil => simp [insert, keys]
  | cons entry rest ih =>
    obtain ⟨k, v⟩ := entry
    by_cases hk : k = key
    · simp [insert, keys, hk]
    · have hk' : key ≠ k := fun h => hk h.symm
      simp only [insert, hk, if_false, keys, List.map_cons, List.mem_cons, hk', false_or] at ih ⊢
      rw [ih]
      split <;> simp [*]

/-- A name that has come before adds nothing to the names in the order in which they first come. -/
theorem eraseDups_append_singleton (names : List κ) (name : κ) :
    (names ++ [name]).eraseDups =
      if name ∈ names then names.eraseDups else names.eraseDups ++ [name] := by
  rw [List.eraseDups_append]
  by_cases h : name ∈ names <;> simp [h, List.removeAll, List.eraseDups_cons]

theorem nodup_insert {key : κ} {value : α} {entries : Entries κ α} (h : Distinct entries) :
    Distinct (insert key value entries) := by
  unfold Distinct at *
  rw [keys_insert]
  split
  · exact h
  · rw [List.nodup_append]
    refine ⟨h, by simp, ?_⟩
    rintro k hk _ hmem rfl
    simp_all

end Entries

end DynamicObjects
