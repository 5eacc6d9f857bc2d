import DynamicObjects.Members.Ledger
import DynamicObjects.Proofs.Members.Lookup

/-!
# What runs make of member tables

Whatever steps have made a table, each of its names has one slot and no slot is void. From these
two properties follows all that the views of a table have to do with each other: the names are
those of all members, and each member is the own one of its name or else the inherited one.

A table that inherits keeps what its parent resolved to at that time, in the parent's order, for
good: declarations change own entries only, and a new name comes last.

* `Members.Coherent`: the views of one table.
* `Ledger.Sound.run`: every table of a run is sound.
* `Members.Extends`: a table that builds on inherited entries.
* `ledger_tables_coherent`: both, for every run.
-/

namespace DynamicObjects

variable {α β : Type}

/-! ## Picking from slots -/

namespace Entries

/-- What is picked from entries stays when the same is picked from a new value. -/
theorem filterMap_insert (pick : α → Option β) {key : String} {value : α}
    {entries : Entries String α} (h : pick value = (find? key entries).bind pick) :
    ((insert key value entries).filterMap fun (name, a) => (pick a).map fun b => (name, b)) =
      entries.filterMap fun (name, a) => (pick a).map fun b => (name, b) := by
  induction entries with
  | nil =>
    rw [find?_nil, Option.bind_none] at h
    simp [insert, h]
  | cons entry rest ih =>
    obtain ⟨k, a⟩ := entry
    rw [find?] at h
    rw [insert]
    split at h
    · rename_i hk
      rw [Option.bind_some] at h
      simp only [if_pos hk, List.filterMap_cons, h]
    · rename_i hk
      simp only [if_neg hk, List.filterMap_cons, ih h]

/-- Where something is picked from every entry, all keys stay. -/
theorem keys_filterMap (pick : α → Option β) {entries : Entries String α}
    (h : ∀ entry ∈ entries, (pick entry.2).isSome) :
    keys (entries.filterMap fun (name, a) => (pick a).map fun b => (name, b)) = keys entries := by
  induction entries with
  | nil => rfl
  | cons entry rest ih =>
    obtain ⟨hfirst, hrest⟩ := List.forall_mem_cons.mp h
    obtain ⟨b, hb⟩ := Option.isSome_iff_exists.mp hfirst
    obtain ⟨k, a⟩ := entry
    have hpicked : pick a = some b := hb
    rw [List.filterMap_cons_some (b := (k, b)) (by simp [hpicked]), keys, List.map_cons, ← keys,
      ih hrest]
    rfl

end Entries

theorem Slot.isSome_effective {slot : Slot α} :
    slot.effective.isSome ↔ slot.own.isSome ∨ slot.inherited.isSome := by
  obtain ⟨own, inherited⟩ := slot
  cases own <;> cases inherited <;> simp [effective]

namespace Members

variable {members parent : Members α} {name : String} {entry : α}

/-! ## Sound tables -/

/-- A table is sound: no name has two slots, and every slot has an entry. -/
structure Sound (members : Members α) : Prop where
  tidy : members.Tidy
  filled : ∀ slot ∈ members.slots, slot.2.effective.isSome

theorem sound_empty : ({} : Members α).Sound := ⟨tidy_empty, fun _ h => absurd h List.not_mem_nil⟩

theorem Sound.declare (h : members.Sound) (name : String) (entry : α) :
    (members.declare name entry).Sound where
  tidy := h.tidy.declare name entry
  filled slot hslot := by
    rcases Entries.mem_insert hslot with rfl | hslot
    · rfl
    · exact h.filled slot hslot

theorem Sound.registerFullname (h : members.Sound) (cls name : String) (entry : α) :
    (members.registerFullname cls name entry).Sound := ⟨h.tidy, h.filled⟩

theorem Sound.inherit (h : parent.Sound) : parent.inherit.Sound where
  tidy := h.tidy.inherit
  filled slot hslot := by
    rw [Members.inherit, snapshot_eq, List.mem_filterMap] at hslot
    obtain ⟨⟨name, handing⟩, -, hslot⟩ := hslot
    obtain ⟨handed, hhanded, rfl⟩ := Option.map_eq_some_iff.mp hslot
    obtain ⟨entry, -, rfl⟩ := Option.map_eq_some_iff.mp hhanded
    rfl

/-! ## The views of a table -/

/-- The views of a table belong together. -/
structure Coherent (members : Members α) : Prop where
  /-- No name comes twice. -/
  distinct : Entries.Distinct members.slots
  filled : ∀ name slot, (name, slot) ∈ members.slots →
    slot.own.isSome ∨ slot.inherited.isSome
  names_eq : members.names = Entries.keys members.all
  find?_own : ∀ name, Entries.find? name members.own = members.getOwn? name
  find?_inherited : ∀ name, Entries.find? name members.inherited = members.getInherited? name
  /-- A member is the own one of its name, else the inherited one. -/
  find?_all : ∀ name, Entries.find? name members.all =
    (Entries.find? name members.own).or (Entries.find? name members.inherited)
  keys_all : Entries.keys members.all = Entries.keys members.slots
  own_sublist : (Entries.keys members.own).Sublist (Entries.keys members.slots)
  inherited_sublist : (Entries.keys members.inherited).Sublist (Entries.keys members.slots)
  mem_names_iff : ∀ name, name ∈ members.names ↔
    name ∈ Entries.keys members.own ∨ name ∈ Entries.keys members.inherited
  contains_iff : ∀ name, members.contains name = true ↔ name ∈ members.names
  list_eq : members.list true true = members.all ∧ members.list true false = members.own ∧
    members.list false true = members.inherited ∧ members.list false false = []

theorem names_eq_keys_slots (h : members.Sound) : members.names = Entries.keys members.slots := by
  rw [names, List.filter_eq_self.mpr h.filled, Entries.keys]

theorem keys_all_eq (h : members.Sound) :
    Entries.keys members.all = Entries.keys members.slots :=
  Entries.keys_filterMap Slot.effective h.filled

theorem Sound.coherent (h : members.Sound) : members.Coherent := by
  have hown (name : String) : Entries.find? name members.own = members.getOwn? name :=
    Entries.find?_filterMap Slot.own h.tidy name
  have hinherited (name : String) :
      Entries.find? name members.inherited = members.getInherited? name :=
    Entries.find?_filterMap Slot.inherited h.tidy name
  have hall (name : String) : Entries.find? name members.all = members.get? name :=
    Entries.find?_filterMap Slot.effective h.tidy name
  have hnames : members.names = Entries.keys members.all := by
    rw [names_eq_keys_slots h, keys_all_eq h]
  exact {
    distinct := h.tidy
    filled := fun name slot hslot => Slot.isSome_effective.mp (h.filled (name, slot) hslot)
    names_eq := hnames
    find?_own := hown
    find?_inherited := hinherited
    find?_all := fun name => by rw [hall, hown, hinherited, get?_eq_or]
    keys_all := keys_all_eq h
    own_sublist := Entries.keys_filterMap_sublist Slot.own members.slots
    inherited_sublist := Entries.keys_filterMap_sublist Slot.inherited members.slots
    mem_names_iff := fun name => by
      rw [hnames, Entries.mem_keys_iff_isSome, Entries.mem_keys_iff_isSome,
        Entries.mem_keys_iff_isSome, hall, hown, hinherited, get?_eq_or, Option.isSome_or,
        Bool.or_eq_true]
    contains_iff := fun name => by rw [hnames, Entries.mem_keys_iff_isSome, hall, contains]
    list_eq := ⟨rfl, rfl, rfl, rfl⟩ }

/-! ## Tables that build on others -/

/-- A table builds on inherited entries: it has these as its inherited ones, and what has been
declared under other names comes after them, by first declaration. -/
structure Extends (base : Entries String α) (declared : List String) (members : Members α) :
    Prop where
  inherited_eq : members.inherited = base
  keys_eq : Entries.keys members.all = Entries.keys base ++
    (declared.filter (· ∉ Entries.keys base)).eraseDups

/-- What is inherited is what the parent resolves to. -/
theorem inherited_inherit (parent : Members α) : parent.inherit.inherited = parent.all := by
  rw [inherited, all, collect, collect, Members.inherit, snapshot, List.filterMap_filterMap]
  congr 1
  funext entry
  obtain ⟨name, slot⟩ := entry
  cases h : slot.effective <;> simp [h]

theorem extends_inherit (h : parent.Sound) : parent.inherit.Extends parent.all [] where
  inherited_eq := inherited_inherit parent
  keys_eq := by
    have hkeys : Entries.keys parent.inherit.slots = Entries.keys parent.slots := by
      rw [Members.inherit, snapshot_eq]
      refine Entries.keys_filterMap Slot.handedDown fun slot hslot => ?_
      rw [Slot.handedDown, Option.isSome_map]
      exact h.filled slot hslot
    rw [keys_all_eq h.inherit, hkeys, ← keys_all_eq h, List.filter_nil, List.eraseDups_nil,
      List.append_nil]

theorem inherited_declare (members : Members α) (name : String) (entry : α) :
    (members.declare name entry).inherited = members.inherited := by
  refine Entries.filterMap_insert Slot.inherited ?_
  cases Entries.find? name members.slots <;> rfl

/-- A new name comes last; any other stays where it is. -/
theorem keys_all_declare (h : members.Sound) (name : String) (entry : α) :
    Entries.keys (members.declare name entry).all =
      if name ∈ Entries.keys members.all then Entries.keys members.all
      else Entries.keys members.all ++ [name] := by
  rw [keys_all_eq (h.declare name entry), keys_all_eq h]
  exact Entries.keys_insert name _ members.slots

theorem Extends.declare {base : Entries String α} {declared : List String}
    (h : members.Extends base declared) (hsound : members.Sound) (name : String) (entry : α) :
    (members.declare name entry).Extends base (declared ++ [name]) where
  inherited_eq := (inherited_declare members name entry).trans h.inherited_eq
  keys_eq := by
    rw [keys_all_declare hsound, h.keys_eq, List.filter_append]
    by_cases hbase : name ∈ Entries.keys base
    · simp [hbase]
    · have hfresh : [name].filter (· ∉ Entries.keys base) = [name] := by simp [hbase]
      rw [hfresh, Entries.eraseDups_append_singleton]
      by_cases hdeclared : name ∈ declared <;> simp [hbase, hdeclared]

end Members

/-! ## Steps -/

namespace LedgerStep

/-- The table that a step makes anew. -/
def made? : LedgerStep α → Option String
  | create table | inherit table _ => some table
  | _ => none

/-- What a step makes a table from. -/
def origin? (ledger : Ledger α) : LedgerStep α → Option (Members α)
  | create _ => some {}
  | inherit _ parent => (Entries.find? parent ledger).map Members.inherit
  | _ => none

/-- What a step that does not make a table anew does to it. -/
def changed (table : String) (members : Members α) : LedgerStep α → Members α
  | declare other name entry => if other = table then members.declare name entry else members
  | registerFullname other cls name entry =>
    if other = table then members.registerFullname cls name entry else members
  | _ => members

/-- The name that a step declares in a table. -/
def declares? (table : String) : LedgerStep α → Option String
  | declare other name _ => if other = table then some name else none
  | _ => none

theorem sound_changed {members : Members α} (h : members.Sound) (table : String)
    (s : LedgerStep α) : (s.changed table members).Sound := by
  cases s with
  | declare other name entry =>
    rw [changed]
    split
    · exact h.declare name entry
    · exact h
  | registerFullname other cls name entry =>
    rw [changed]
    split
    · exact h.registerFullname cls name entry
    · exact h
  | create | inherit | ask => exact h

theorem extends_changed {members : Members α} {base : Entries String α} {declared : List String}
    (h : members.Extends base declared) (hsound : members.Sound) (table : String)
    (s : LedgerStep α) :
    (s.changed table members).Extends base (declared ++ (s.declares? table).toList) := by
  have hkept : members.Extends base (declared ++ []) := by rwa [List.append_nil]
  cases s with
  | declare other name entry =>
    rw [changed, declares?]
    split
    · exact h.declare hsound name entry
    · exact hkept
  | registerFullname other cls name entry =>
    rw [changed]
    split
    · exact ⟨hkept.inherited_eq, hkept.keys_eq⟩
    · exact hkept
  | create | inherit | ask => exact hkept

end LedgerStep

namespace Ledger

variable {ledger after : Ledger α} {answer : MembersAnswer α} {answers : List (MembersAnswer α)}
  {s : LedgerStep α} {steps : List (LedgerStep α)} {table : String} {members : Members α}

theorem find?_update {change : Members α → Members α} (h : update table change ledger = some after)
    (other : String) :
    Entries.find? other after =
      if table = other then (Entries.find? other ledger).map change
      else Entries.find? other ledger := by
  obtain ⟨members, hbefore, rfl⟩ := Option.map_eq_some_iff.mp h
  rw [Entries.find?_insert]
  split
  · rename_i hother
    rw [← hother, hbefore, Option.map_some]
  · rfl

/-- **What a step does to a table.** -/
theorem find?_of_step (h : ledger.step s = some (after, answer)) (table : String) :
    Entries.find? table after =
      if s.made? = some table then s.origin? ledger
      else (Entries.find? table ledger).map (s.changed table) := by
  cases s with
  | create other =>
    cases h
    rw [Entries.find?_insert]
    by_cases hother : other = table <;>
      simp [LedgerStep.made?, LedgerStep.origin?, LedgerStep.changed, hother]
  | inherit other parent =>
    obtain ⟨members, hparent, heq⟩ := Option.map_eq_some_iff.mp h
    cases heq
    rw [Entries.find?_insert]
    by_cases hother : other = table <;>
      simp [LedgerStep.made?, LedgerStep.origin?, LedgerStep.changed, hother, hparent]
  | declare other | registerFullname other =>
    obtain ⟨_, hupdate, heq⟩ := Option.map_eq_some_iff.mp h
    cases heq
    rw [find?_update hupdate]
    by_cases hother : other = table <;> simp [LedgerStep.made?, LedgerStep.changed, hother]
  | ask =>
    rw [step_ask h]
    simp [LedgerStep.made?, LedgerStep.changed]

/-! ## Runs -/

/-- Every table is sound. -/
def Sound (ledger : Ledger α) : Prop :=
  ∀ table members, Entries.find? table ledger = some members → members.Sound

theorem sound_nil : Sound ([] : Ledger α) := nofun

/-- The names that steps declare in a table. -/
def declaredIn (table : String) (steps : List (LedgerStep α)) : List String :=
  steps.filterMap (LedgerStep.declares? table)

theorem Sound.step (hsound : ledger.Sound) (h : ledger.step s = some (after, answer)) :
    after.Sound := by
  intro table members hmembers
  rw [find?_of_step h] at hmembers
  split at hmembers
  · cases s with
    | create other =>
      cases hmembers
      exact Members.sound_empty
    | inherit other parent =>
      obtain ⟨before, hparent, rfl⟩ := Option.map_eq_some_iff.mp hmembers
      exact (hsound parent before hparent).inherit
    | declare | registerFullname | ask => cases hmembers
  · obtain ⟨before, hbefore, rfl⟩ := Option.map_eq_some_iff.mp hmembers
    exact LedgerStep.sound_changed (hsound table before hbefore) table s

theorem run_cons_eq_some (h : ledger.run (s :: steps) = some (after, answers)) :
    ∃ middle answer more, ledger.step s = some (middle, answer) ∧
      middle.run steps = some (after, more) := by
  simp only [run, Option.bind_eq_bind, Option.bind_eq_some_iff] at h
  obtain ⟨⟨middle, answer⟩, hstep, ⟨reached, more⟩, hrun, heq⟩ := h
  cases heq
  exact ⟨middle, answer, more, hstep, hrun⟩

theorem Sound.run (hsound : ledger.Sound) (h : ledger.run steps = some (after, answers)) :
    after.Sound := by
  induction steps generalizing ledger answers with
  | nil =>
    cases h
    exact hsound
  | cons s rest ih =>
    obtain ⟨middle, answer, more, hstep, hrun⟩ := run_cons_eq_some h
    exact ih (hsound.step hstep) hrun

/-- Steps that do not make a table anew let it build on what it builds on. -/
theorem extends_run {base : Entries String α} {declared : List String}
    (hsound : ledger.Sound) (hmembers : Entries.find? table ledger = some members)
    (hextends : members.Extends base declared)
    (hsteps : ∀ s ∈ steps, s.made? ≠ some table)
    (h : ledger.run steps = some (after, answers)) :
    ∃ members', Entries.find? table after = some members' ∧
      members'.Extends base (declared ++ declaredIn table steps) := by
  induction steps generalizing ledger members declared answers with
  | nil =>
    cases h
    exact ⟨members, hmembers, by rwa [declaredIn, List.filterMap_nil, List.append_nil]⟩
  | cons s rest ih =>
    obtain ⟨hfirst, hrest⟩ := List.forall_mem_cons.mp hsteps
    obtain ⟨middle, answer, more, hstep, hrun⟩ := run_cons_eq_some h
    have hnext := find?_of_step hstep table
    rw [if_neg hfirst, hmembers, Option.map_some] at hnext
    have hgrown := LedgerStep.extends_changed hextends (hsound table members hmembers) table s
    obtain ⟨members', hafter, hmembers'⟩ := ih (hsound.step hstep) hnext hgrown hrest hrun
    refine ⟨members', hafter, ?_⟩
    rw [List.append_assoc] at hmembers'
    have hdeclared : declaredIn table (s :: rest) =
        (s.declares? table).toList ++ declaredIn table rest := by
      rw [declaredIn, List.filterMap_cons]
      cases s.declares? table <;> rfl
    rwa [hdeclared]

/-- A table that has inherited keeps its inherited entries and their order. -/
theorem inherit_then_run {table parent : String} (hsound : ledger.Sound)
    (hsteps : ∀ s ∈ steps, s.made? ≠ some table)
    (h : ledger.run (.inherit table parent :: steps) = some (after, answers)) :
    ∃ before members, Entries.find? parent ledger = some before ∧
      Entries.find? table after = some members ∧
      members.Extends before.all (declaredIn table steps) := by
  obtain ⟨middle, answer, more, hstep, hrun⟩ := run_cons_eq_some h
  have hmade := find?_of_step hstep table
  obtain ⟨before, hbefore, -⟩ := Option.map_eq_some_iff.mp hstep
  rw [LedgerStep.made?, if_pos rfl, LedgerStep.origin?, hbefore, Option.map_some] at hmade
  have hextends := Members.extends_inherit (hsound parent before hbefore)
  obtain ⟨members, hafter, hmembers⟩ :=
    extends_run (hsound.step hstep) hmade hextends hsteps hrun
  exact ⟨before, members, hbefore, hafter, hmembers⟩

end Ledger

/-- **Member tables are coherent.** Whatever steps have been taken on any tables, the views of each
table belong together. A table that inherits has as its inherited members all members that its
parent has at that time, and keeps them whatever is done to either of them; and the names of all
its members are those of the parent, in their order, then the others that have been declared in
it, by first declaration. -/
theorem ledger_tables_coherent {steps : List (LedgerStep α)} {ledger : Ledger α}
    {answers : List (MembersAnswer α)} (h : Ledger.run [] steps = some (ledger, answers)) :
    (∀ table members, Entries.find? table ledger = some members → members.Coherent) ∧
    ∀ (table parent : String) (later : List (LedgerStep α)) (after : Ledger α)
      (more : List (MembersAnswer α)), (∀ s ∈ later, s.made? ≠ some table) →
      ledger.run (.inherit table parent :: later) = some (after, more) →
      ∃ before members, Entries.find? parent ledger = some before ∧
        Entries.find? table after = some members ∧ members.inherited = before.all ∧
        Entries.keys members.all = Entries.keys before.all ++
          ((Ledger.declaredIn table later).filter
            (· ∉ Entries.keys before.all)).eraseDups := by
  have hsound : ledger.Sound := Ledger.sound_nil.run h
  refine ⟨fun table members hmembers => (hsound table members hmembers).coherent, ?_⟩
  intro table parent later after more hlater hrun
  obtain ⟨before, members, hbefore, hafter, hextends⟩ :=
    Ledger.inherit_then_run hsound hlater hrun
  exact ⟨before, members, hbefore, hafter, hextends.inherited_eq, hextends.keys_eq⟩

/-- A subclass declares a name of its parent again, two others around that, and one of them twice;
the parent gets one more in between. -/
theorem ledger_tables_coherent_overridden :
    let steps : List (LedgerStep Nat) :=
      [.create "P", .declare "P" "a" 1, .declare "P" "b" 2]
    let later : List (LedgerStep Nat) :=
      [.declare "C" "d" 40, .declare "C" "b" 20, .declare "P" "late" 3, .declare "C" "c" 30,
        .declare "C" "d" 41]
    ∃ ledger answers after more, Ledger.run [] steps = some (ledger, answers) ∧
      (∀ s ∈ later, s.made? ≠ some "C") ∧
      ledger.run (.inherit "C" "P" :: later) = some (after, more) ∧
      ∃ members, Entries.find? "C" after = some members ∧ members.Coherent ∧
        members.inherited = [("a", 1), ("b", 2)] ∧
        Entries.keys members.all = ["a", "b", "d", "c"] := by
  intro steps later
  have hlater : ∀ s ∈ later, s.made? ≠ some "C" := by decide
  refine ⟨_, _, _, _, rfl, hlater, rfl, ?_⟩
  have hsteps : Ledger.run [] steps = some (_, _) := rfl
  obtain ⟨-, hinherits⟩ := ledger_tables_coherent hsteps
  obtain ⟨before, members, hbefore, hmembers, hinherited, hkeys⟩ :=
    hinherits "C" "P" later _ _ hlater rfl
  cases hbefore
  have hall : Ledger.run [] (steps ++ .inherit "C" "P" :: later) = some (_, _) := rfl
  obtain ⟨hcoherent, -⟩ := ledger_tables_coherent hall
  exact ⟨members, hmembers, hcoherent "C" members hmembers, hinherited, hkeys⟩

end DynamicObjects
