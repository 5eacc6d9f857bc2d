import DynamicObjects.Entries.Index

/-!
# Entries in the making

A draft grows by insertions and is read as entries in the end. It keeps its keys in a
list and its values in a search tree, so an insertion does not go through what is there
already, however long the draft.

* `Draft.entries_insert`: inserting into a draft is inserting into its entries.
* `Draft.find?_entries`: a draft looks up as its entries do.
* `Entries.ofList_eq_foldl`: entries made of pairs, by insertions one after the other.
* `Entries.distinct_ofList`, `Entries.mem_of_mem_ofList`: what such entries are.
* `Entries.ofList_of_distinct`: entries with distinct keys are the ones made of them.
-/

namespace DynamicObjects

/-- Entries in the making. -/
structure Draft (α : Type) where
  /-- The keys, the last one first. -/
  order : List String := []
  /-- The values under the keys. -/
  values : Index α := ∅
  nodup : order.Nodup := by simp
  mem_values : ∀ key ∈ order, key ∈ values := by simp
  mem_order : ∀ key ∈ values, key ∈ order := by simp

namespace Draft

variable {α : Type}

/-- The draft without entries. -/
def empty : Draft α := {}

/-- The value under a key. -/
def find? (key : String) (draft : Draft α) : Option α := draft.values[key]?

/-- Puts a value under a key: in place when the key is there, at the end otherwise. -/
def insert (key : String) (value : α) (draft : Draft α) : Draft α :=
  if h : key ∈ draft.values then
    { draft with
      values := draft.values.insert key value
      mem_values := fun k hk => by simp [draft.mem_values k hk]
      mem_order := fun k hk => by
        rw [Std.TreeMap.mem_insert, Std.LawfulEqCmp.compare_eq_iff_eq] at hk
        rcases hk with rfl | hk
        · exact draft.mem_order key h
        · exact draft.mem_order k hk }
  else
    { order := key :: draft.order
      values := draft.values.insert key value
      nodup := List.nodup_cons.mpr ⟨fun hk => h (draft.mem_values key hk), draft.nodup⟩
      mem_values := fun k hk => by
        rcases List.mem_cons.mp hk with rfl | hk
        · simp
        · simp [draft.mem_values k hk]
      mem_order := fun k hk => by
        rw [Std.TreeMap.mem_insert, Std.LawfulEqCmp.compare_eq_iff_eq] at hk
        rcases hk with rfl | hk
        · simp
        · exact List.mem_cons_of_mem key (draft.mem_order k hk) }

/-- The draft made by inserting pairs one after the other. -/
def ofList (pairs : List (String × α)) : Draft α :=
  pairs.foldl (fun draft pair => draft.insert pair.1 pair.2) empty

/-- The entry under a key. -/
private def entryAt? (values : Index α) (key : String) : Option (String × α) :=
  values[key]?.map (Prod.mk key)

def entries (draft : Draft α) : Entries String α :=
  draft.order.reverse.filterMap (entryAt? draft.values)

/-! ## A draft as its entries -/

private theorem find?_filterMap (values : Index α) (key : String) (order : List String) :
    Entries.find? key (order.filterMap (entryAt? values)) =
      if key ∈ order then values[key]? else none := by
  induction order with
  | nil => simp
  | cons k rest ih =>
    cases hk : values[k]? with
    | none => by_cases hkey : key = k <;> simp_all [entryAt?]
    | some v =>
      by_cases hkey : k = key
      · subst hkey
        simp [entryAt?, hk, Entries.find?]
      · simp [entryAt?, hk, Entries.find?, hkey, Ne.symm hkey, ih]

private theorem filterMap_insert_of_not_mem {values : Index α} {key : String} {value : α}
    {order : List String} (h : key ∉ order) :
    order.filterMap (entryAt? (values.insert key value)) = order.filterMap (entryAt? values) := by
  induction order with
  | nil => rfl
  | cons k rest ih =>
    rw [List.mem_cons, not_or] at h
    rw [List.filterMap_cons, List.filterMap_cons, ih h.2]
    simp [entryAt?, Std.TreeMap.getElem?_insert, h.1]

private theorem insert_filterMap {values : Index α} {key : String} {value : α}
    {order : List String} (hnodup : order.Nodup) (hmem : ∀ k ∈ order, k ∈ values) :
    Entries.insert key value (order.filterMap (entryAt? values)) =
      if key ∈ order then order.filterMap (entryAt? (values.insert key value))
      else order.filterMap (entryAt? values) ++ [(key, value)] := by
  induction order with
  | nil => rfl
  | cons k rest ih =>
    obtain ⟨hfresh, hrest⟩ := List.nodup_cons.mp hnodup
    have ih := ih hrest fun k hk => hmem k (List.mem_cons_of_mem _ hk)
    obtain ⟨v, hv⟩ : ∃ v, values[k]? = some v :=
      Option.isSome_iff_exists.mp (by simpa using hmem k List.mem_cons_self)
    by_cases hkey : k = key
    · subst hkey
      simp [entryAt?, hv, Entries.insert, filterMap_insert_of_not_mem hfresh]
    · simp only [List.filterMap_cons, entryAt?, hv, Option.map_some, Entries.insert, hkey,
        if_false, Std.TreeMap.getElem?_insert, Std.LawfulEqCmp.compare_eq_iff_eq, List.mem_cons,
        Ne.symm hkey, false_or] at ih ⊢
      rw [ih]
      split <;> simp

@[simp] theorem entries_empty : (empty : Draft α).entries = [] := rfl

@[simp] theorem find?_entries (key : String) (draft : Draft α) :
    Entries.find? key draft.entries = draft.find? key := by
  rw [entries, find?_filterMap, find?]
  split
  · rfl
  · rename_i h
    rw [eq_comm, Std.TreeMap.getElem?_eq_none]
    exact fun hk => h (by simpa using draft.mem_order key hk)

@[simp] theorem entries_insert (key : String) (value : α) (draft : Draft α) :
    (draft.insert key value).entries = Entries.insert key value draft.entries := by
  rw [entries, entries,
    insert_filterMap (List.pairwise_reverse.mpr (draft.nodup.imp Ne.symm))
      (by simpa using draft.mem_values)]
  unfold insert
  split
  · rename_i h
    simp [draft.mem_order key h]
  · rename_i h
    have hfresh : key ∉ draft.order.reverse := fun hk =>
      h (draft.mem_values key (List.mem_reverse.mp hk))
    rw [if_neg hfresh, List.reverse_cons, List.filterMap_append,
      filterMap_insert_of_not_mem hfresh]
    simp [entryAt?]

theorem entries_foldl_insert (pairs : List (String × α)) (draft : Draft α) :
    (pairs.foldl (fun draft pair => draft.insert pair.1 pair.2) draft).entries =
      pairs.foldl (fun entries pair => Entries.insert pair.1 pair.2 entries) draft.entries := by
  induction pairs generalizing draft with
  | nil => rfl
  | cons pair rest ih => simp [ih]

end Draft

namespace Entries

variable {α : Type}

/-- The entries made of pairs: the first position of a key stays, its last value wins. -/
def ofList (pairs : List (String × α)) : Entries String α := (Draft.ofList pairs).entries

theorem ofList_eq_foldl (pairs : List (String × α)) :
    ofList pairs = pairs.foldl (fun entries pair => insert pair.1 pair.2 entries) [] := by
  rw [ofList, Draft.ofList, Draft.entries_foldl_insert, Draft.entries_empty]

/-- No key comes twice in entries made of pairs, and every entry is one of the pairs. -/
theorem distinct_ofList (pairs : List (String × α)) : Distinct (ofList pairs) := by
  suffices ∀ before : Entries String α, Distinct before →
      Distinct (pairs.foldl (fun entries pair => insert pair.1 pair.2 entries) before) by
    rw [ofList_eq_foldl]
    exact this [] List.nodup_nil
  induction pairs with
  | nil => exact fun _ hbefore => hbefore
  | cons pair rest ih => exact fun _ hbefore => ih _ (nodup_insert hbefore)

theorem mem_of_mem_ofList {pairs : List (String × α)} {entry : String × α}
    (h : entry ∈ ofList pairs) : entry ∈ pairs := by
  suffices ∀ before : Entries String α,
      entry ∈ pairs.foldl (fun entries pair => insert pair.1 pair.2 entries) before →
      entry ∈ before ∨ entry ∈ pairs by
    rw [ofList_eq_foldl] at h
    exact (this [] h).resolve_left List.not_mem_nil
  clear h
  induction pairs with
  | nil => exact fun _ h => .inl h
  | cons pair rest ih =>
    intro before h
    rcases ih _ h with h | h
    · rcases mem_insert h with rfl | h
      · exact .inr List.mem_cons_self
      · exact .inl h
    · exact .inr (List.mem_cons_of_mem _ h)

theorem insert_of_not_mem {key : String} {value : α} {entries : Entries String α}
    (h : key ∉ keys entries) : insert key value entries = entries ++ [(key, value)] := by
  induction entries with
  | nil => rfl
  | cons entry rest ih =>
    obtain ⟨k, v⟩ := entry
    simp only [keys, List.map_cons, List.mem_cons, not_or] at h
    simp [insert, Ne.symm h.1, ih h.2]

theorem ofList_of_distinct {pairs : List (String × α)} (h : Distinct pairs) :
    ofList pairs = pairs := by
  suffices ∀ before : Entries String α, Distinct (before ++ pairs) →
      pairs.foldl (fun entries pair => insert pair.1 pair.2 entries) before = before ++ pairs by
    rw [ofList_eq_foldl, this [] h, List.nil_append]
  clear h
  induction pairs with
  | nil => simp
  | cons pair rest ih =>
    intro before h
    have hfresh : pair.1 ∉ keys before := fun hk => by
      simp only [Distinct, keys, List.map_append, List.map_cons, List.nodup_append] at h
      exact h.2.2 pair.1 hk pair.1 (by simp) rfl
    rw [List.foldl_cons, insert_of_not_mem hfresh, ih _ (by simpa using h)]
    simp

end Entries

end DynamicObjects
