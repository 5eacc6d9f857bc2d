import DynamicObjects.Entries
import Std.Data.TreeMap
import Std.Data.TreeMap.Lemmas

/-!
# Looking up many keys

Entries are a list, so a lookup goes through it. Where many keys are looked up in the
same entries, they are put into a search tree first, once.

* `Entries.getElem?_index`: the tree answers as the entries do.
-/

namespace DynamicObjects

/-- Values by key, for lookups only. -/
abbrev Index (α : Type) := Std.TreeMap String α

namespace Entries

variable {α : Type}

def index (entries : Entries String α) : Index α :=
  entries.foldr (fun entry index => index.insert entry.1 entry.2) ∅

@[simp] theorem getElem?_index (entries : Entries String α) (key : String) :
    (index entries)[key]? = find? key entries := by
  induction entries with
  | nil => simp [index]
  | cons entry rest ih =>
    obtain ⟨k, v⟩ := entry
    simp only [index, List.foldr_cons, Std.TreeMap.getElem?_insert,
      Std.LawfulEqCmp.compare_eq_iff_eq, find?, ← ih]

@[simp] theorem contains_index (entries : Entries String α) (key : String) :
    (index entries).contains key = contains key entries := by
  rw [Std.TreeMap.contains_eq_isSome_getElem?, getElem?_index, contains]

end Entries

end DynamicObjects
