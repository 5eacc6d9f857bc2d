import DynamicObjects.Members
import Mathlib.Data.List.Induction

/-!
# What member tables hold

A table answers for a name from its own entry, else from the inherited one. Declaring
changes the own entry of one name, inheriting makes all that there was inherited, and the
index of full names has no part in either. As long as no name has two slots, the lists of
a table are finite maps that agree with its lookups.

* `Members.getOwn?_declareAll`, `Members.getInherited?_declareAll`: lookup after a row of
  declarations.
* `Members.getOwn?_inherit`, `Members.getInherited?_inherit`: lookup in a new subclass.
* `Members.find?_list`: the lists agree with the lookups.
-/

namespace DynamicObjects

/-! ## Filtered entries -/

namespace Entries

variable {α β : Type}

theorem keys_filterMap_sublist (pick : α → Option β) (entries : Entries String α) :
    (keys (entries.filterMap fun (name, a) => (pick a).map fun b => (name, b))).Sublist
      (keys entries) := by
  induction entries with
  | nil => exact List.Sublist.slnil
  | cons entry rest ih =>
    obtain ⟨name, a⟩ := entry
    cases h : pick a with
    | none => simpa [keys, h] using ih.trans (List.sublist_cons_self _ _)
    | some b => simpa [keys, h] using ih

theorem distinct_filterMap (pick : α → Option β) {entries : Entries String α}
    (h : Distinct entries) :
    Distinct (entries.filterMap fun (name, a) => (pick a).map fun b => (name, b)) :=
  List.Nodup.sublist (keys_filterMap_sublist pick entries) h

theorem find?_filterMap (pick : α → Option β) {entries : Entries String α}
    (h : Distinct entries) (name : String) :
    find? name (entries.filterMap fun (name, a) => (pick a).map fun b => (name, b)) =
      (find? name entries).bind pick := by
  induction entries with
  | nil => rfl
  | cons entry rest ih =>
    obtain ⟨k, a⟩ := entry
    obtain ⟨hfresh, hrest⟩ := List.nodup_cons.mp h
    have ih := ih hrest
    cases ha : pick a with
    | none =>
      rw [List.filterMap_cons_none (by simp [ha]), ih, find?]
      split
      · rename_i hk
        rw [← hk, find?_eq_none_iff.mpr hfresh, Option.bind_none, Option.bind_some, ha]
      · rfl
    | some b =>
      rw [List.filterMap_cons_some (b := (k, b)) (by simp [ha]), find?, find?, ih]
      split
      · exact ha.symm
      · rfl

end Entries

/-- The slot of a subclass for what its parent's slot stands for. -/
def Slot.handedDown {α : Type} (slot : Slot α) : Option (Slot α) :=
  slot.effective.map fun entry => { own := none, inherited := some entry }

namespace Members

variable {α : Type}

theorem snapshot_eq (slots : Entries String (Slot α)) :
    snapshot slots =
      slots.filterMap fun (name, slot) => slot.handedDown.map fun slot => (name, slot) := by
  simp only [snapshot, Slot.handedDown, Option.map_map]
  rfl

/-- No name has two slots. -/
def Tidy (members : Members α) : Prop := Entries.Distinct members.slots

theorem tidy_empty : ({} : Members α).Tidy := List.nodup_nil

theorem Tidy.declare {members : Members α} (h : members.Tidy) (name : String) (entry : α) :
    (members.declare name entry).Tidy :=
  Entries.nodup_insert h

theorem Tidy.inherit {members : Members α} (h : members.Tidy) : members.inherit.Tidy := by
  rw [Tidy, Members.inherit, snapshot_eq]
  exact Entries.distinct_filterMap Slot.handedDown h

/-! ## Lookup -/

theorem get?_eq_or (name : String) (members : Members α) :
    members.get? name = (members.getOwn? name).or (members.getInherited? name) := by
  unfold get? getOwn? getInherited?
  cases Entries.find? name members.slots with
  | none => rfl
  | some slot => cases h : slot.own <;> simp [Slot.effective, h]

theorem getOwn?_declare (name other : String) (entry : α) (members : Members α) :
    (members.declare name entry).getOwn? other =
      if name = other then some entry else members.getOwn? other := by
  unfold getOwn? declare
  rw [Entries.find?_insert]
  split <;> rfl

theorem getInherited?_declare (name other : String) (entry : α) (members : Members α) :
    (members.declare name entry).getInherited? other = members.getInherited? other := by
  unfold getInherited? declare
  rw [Entries.find?_insert]
  split
  · rename_i h
    rw [h]
    cases Entries.find? other members.slots <;> rfl
  · rfl

/-- A subclass has nothing of its own before it declares anything. -/
theorem getOwn?_inherit (name : String) {parent : Members α} (h : parent.Tidy) :
    parent.inherit.getOwn? name = none := by
  rw [getOwn?, Members.inherit, snapshot_eq, Entries.find?_filterMap Slot.handedDown h]
  cases Entries.find? name parent.slots with
  | none => rfl
  | some slot => cases h : slot.effective <;> simp [Slot.handedDown, h]

/-- A subclass inherits what its parent answers. -/
theorem getInherited?_inherit (name : String) {parent : Members α} (h : parent.Tidy) :
    parent.inherit.getInherited? name = parent.get? name := by
  rw [getInherited?, Members.inherit, snapshot_eq, Entries.find?_filterMap Slot.handedDown h,
    get?]
  cases Entries.find? name parent.slots with
  | none => rfl
  | some slot => cases h : slot.effective <;> simp [Slot.handedDown, h]

/-! ## Rows of declarations -/

/-- The table after a row of declarations. -/
def declareAll (entries : Entries String α) (members : Members α) : Members α :=
  entries.foldl (fun members entry => members.declare entry.1 entry.2) members

theorem declareAll_concat (entries : Entries String α) (name : String) (entry : α)
    (members : Members α) :
    members.declareAll (entries ++ [(name, entry)]) =
      (members.declareAll entries).declare name entry := by
  rw [declareAll, List.foldl_append]
  rfl

theorem Tidy.declareAll {members : Members α} (h : members.Tidy) (entries : Entries String α) :
    (members.declareAll entries).Tidy := by
  induction entries generalizing members with
  | nil => exact h
  | cons entry rest ih => exact ih (h.declare entry.1 entry.2)

/-- The last declaration of a name counts. -/
theorem getOwn?_declareAll (entries : Entries String α) (members : Members α) (name : String) :
    (members.declareAll entries).getOwn? name =
      (Entries.find? name entries.reverse).or (members.getOwn? name) := by
  induction entries using List.reverseRecOn with
  | nil => rfl
  | append_singleton entries entry ih =>
    obtain ⟨k, value⟩ := entry
    rw [declareAll_concat, getOwn?_declare, ih, List.reverse_append]
    by_cases hk : k = name <;> simp [Entries.find?, hk]

theorem getInherited?_declareAll (entries : Entries String α) (members : Members α)
    (name : String) :
    (members.declareAll entries).getInherited? name = members.getInherited? name := by
  induction entries using List.reverseRecOn with
  | nil => rfl
  | append_singleton entries entry ih =>
    rw [declareAll_concat, getInherited?_declare, ih]

/-! ## Lists -/

theorem distinct_collect (pick : Slot α → Option α) {members : Members α} (h : members.Tidy) :
    Entries.Distinct (members.collect pick) :=
  Entries.distinct_filterMap pick h

theorem distinct_list (own inherited : Bool) {members : Members α} (h : members.Tidy) :
    Entries.Distinct (members.list own inherited) := by
  cases own <;> cases inherited
  · exact List.nodup_nil
  · exact distinct_collect _ h
  · exact distinct_collect _ h
  · exact distinct_collect _ h

/-- The lists agree with the lookups: each flag lets one part in, the own one first. -/
theorem find?_list (own inherited : Bool) {members : Members α} (h : members.Tidy)
    (name : String) :
    Entries.find? name (members.list own inherited) =
      (if own then members.getOwn? name else none).or
        (if inherited then members.getInherited? name else none) := by
  cases own <;> cases inherited
  · rfl
  · exact Entries.find?_filterMap Slot.inherited h name
  · rw [if_pos rfl, if_neg Bool.false_ne_true, Option.or_none]
    exact Entries.find?_filterMap Slot.own h name
  · rw [if_pos rfl, if_pos rfl, ← get?_eq_or]
    exact Entries.find?_filterMap Slot.effective h name

end Members

end DynamicObjects
