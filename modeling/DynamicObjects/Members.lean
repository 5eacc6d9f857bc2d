import DynamicObjects.Entries

/-!
# Member tables

The members of a class by name. Each name has one slot with the entry declared at this
level and the entry taken over from the parent when the class was declared; the own
entry hides the other one. Beside the slots stands an index of full names, made of a
class name and a member name, in which overridden members remain to be found.

* `Members.inherit` takes a snapshot: later changes of the parent are not seen.
* `Members.get?_declare`, `Members.get?_inherit`: lookup after the two ways to grow.
-/

namespace DynamicObjects

/-- One name of a member table. -/
structure Slot (α : Type) where
  /-- The entry declared at this level. -/
  own : Option α := none
  /-- The entry taken over from the parent. -/
  inherited : Option α := none
  deriving DecidableEq, Repr

/-- The entry that a slot stands for. -/
def Slot.effective {α : Type} (slot : Slot α) : Option α := slot.own <|> slot.inherited

/-- The members of a class. -/
structure Members (α : Type) where
  /-- The slots in the order in which their names first appeared. -/
  slots : Entries String (Slot α) := []
  /-- The index of full names. -/
  fullnames : Entries String α := []

namespace Members

variable {α : Type}

/-- The slots as they are taken over by a subclass. -/
def snapshot (slots : Entries String (Slot α)) : Entries String (Slot α) :=
  slots.filterMap fun (name, slot) =>
    slot.effective.map fun entry => (name, { own := none, inherited := some entry })

/-- The table of a subclass before it declares anything: what the parent resolves to is
inherited, its full names are copied. -/
def inherit (parent : Members α) : Members α where
  slots := snapshot parent.slots
  fullnames := parent.fullnames

/-- Declares a member at this level. -/
def declare (name : String) (entry : α) (members : Members α) : Members α :=
  let slot := (Entries.find? name members.slots).getD {}
  { members with slots := Entries.insert name { slot with own := some entry } members.slots }

/-- The key of a member in the index of full names. -/
def fullname (cls member : String) : String := cls ++ "_" ++ member

/-- Puts a member into the index of full names. -/
def registerFullname (cls member : String) (entry : α) (members : Members α) : Members α :=
  { members with fullnames := Entries.insert (fullname cls member) entry members.fullnames }

/-! ## Lookup -/

def get? (name : String) (members : Members α) : Option α :=
  (Entries.find? name members.slots).bind Slot.effective

/-- The member declared here under a name. -/
def getOwn? (name : String) (members : Members α) : Option α :=
  (Entries.find? name members.slots).bind Slot.own

/-- The member taken over from the parent under a name. -/
def getInherited? (name : String) (members : Members α) : Option α :=
  (Entries.find? name members.slots).bind Slot.inherited

/-- The member of a full name. -/
def getFullname? (key : String) (members : Members α) : Option α :=
  Entries.find? key members.fullnames

/-- Whether a name has a member. -/
def contains (name : String) (members : Members α) : Bool := (members.get? name).isSome

/-! ## Views in slot order -/

/-- The slots from which something can be picked, with what was picked. -/
def collect (pick : Slot α → Option α) (members : Members α) : Entries String α :=
  members.slots.filterMap fun (name, slot) => (pick slot).map fun entry => (name, entry)

/-- Every member. -/
def all (members : Members α) : Entries String α := members.collect Slot.effective

/-- The members declared at this level. -/
def own (members : Members α) : Entries String α := members.collect Slot.own

/-- The members taken over from the parent. -/
def inherited (members : Members α) : Entries String α := members.collect Slot.inherited

/-- The view that two flags select: everything, one part, or nothing. -/
def list (own inherited : Bool) (members : Members α) : Entries String α :=
  match own, inherited with
  | true, true => members.all
  | true, false => members.own
  | false, true => members.inherited
  | false, false => []

/-- The names that have a member. -/
def names (members : Members α) : List String :=
  (members.slots.filter fun (_, slot) => slot.effective.isSome).map Prod.fst

/-! ## Lookup after growth -/

theorem get?_declare (name other : String) (entry : α) (members : Members α) :
    (members.declare name entry).get? other =
      if name = other then some entry else members.get? other := by
  unfold get? declare
  rw [Entries.find?_insert]
  split
  · rfl
  · rfl

theorem find?_snapshot (name : String) (slots : Entries String (Slot α))
    (h : Entries.Distinct slots) :
    (Entries.find? name (snapshot slots)).bind Slot.effective =
      (Entries.find? name slots).bind Slot.effective := by
  induction slots with
  | nil => rfl
  | cons entry rest ih =>
    obtain ⟨k, slot⟩ := entry
    have hrest : Entries.Distinct rest := (List.nodup_cons.mp h).2
    have hfresh : k ∉ Entries.keys rest := (List.nodup_cons.mp h).1
    have ih := ih hrest
    cases hs : slot.effective with
    | none =>
      have hs' : snapshot ((k, slot) :: rest) = snapshot rest := by simp [snapshot, hs]
      by_cases hk : k = name
      · subst hk
        rw [hs', ih, Entries.find?_eq_none_iff.mpr hfresh]
        simp [Entries.find?, hs]
      · rw [hs', ih]
        simp [Entries.find?, hk]
    | some entry =>
      have hs' : snapshot ((k, slot) :: rest) =
          (k, { own := none, inherited := some entry }) :: snapshot rest := by
        simp [snapshot, hs]
      by_cases hk : k = name
      · rw [hs']
        simp only [Entries.find?, hk, if_true, Option.bind_some, hs]
        simp [Slot.effective]
      · simp only [hs', Entries.find?, hk, if_false]
        exact ih

theorem get?_inherit (name : String) (parent : Members α) (h : Entries.Distinct parent.slots) :
    parent.inherit.get? name = parent.get? name := find?_snapshot name parent.slots h

end Members

end DynamicObjects
