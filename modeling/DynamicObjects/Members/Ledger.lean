import DynamicObjects.Members

/-!
# Member tables under names

A `Ledger` holds several member tables, each under a name of its own. A `LedgerStep`
changes one of them or asks it something; `Ledger.run` takes steps in turn.

* `Ledger.step_ask`: asking changes nothing.
* `Ledger.run_append`: a run splits into two.
-/

namespace DynamicObjects

variable {α : Type}

/-- What can be asked of a member table. -/
inductive MembersQuery where
  | get (name : String)
  | getOwn (name : String)
  | getInherited (name : String)
  | getFullname (key : String)
  | contains (name : String)
  | names
  | all
  | own
  | inherited
  | list (own inherited : Bool)
  deriving DecidableEq, Repr

/-- What a step gives. -/
inductive MembersAnswer (α : Type) where
  /-- A change was made. -/
  | done
  | entry (entry : Option α)
  | flag (b : Bool)
  | names (names : List String)
  | entries (entries : Entries String α)
  deriving DecidableEq, Repr

/-- The answer of a table. -/
def Members.ask (members : Members α) : MembersQuery → MembersAnswer α
  | .get name => .entry (members.get? name)
  | .getOwn name => .entry (members.getOwn? name)
  | .getInherited name => .entry (members.getInherited? name)
  | .getFullname key => .entry (members.getFullname? key)
  | .contains name => .flag (members.contains name)
  | .names => .names members.names
  | .all => .entries members.all
  | .own => .entries members.own
  | .inherited => .entries members.inherited
  | .list own inherited => .entries (members.list own inherited)

/-- One step on named tables. -/
inductive LedgerStep (α : Type) where
  /-- An empty table under a name. -/
  | create (table : String)
  /-- A table under a name that inherits from another one. -/
  | inherit (table parent : String)
  | declare (table name : String) (entry : α)
  | registerFullname (table cls member : String) (entry : α)
  | ask (table : String) (query : MembersQuery)
  deriving DecidableEq, Repr

/-- Member tables by name. -/
abbrev Ledger (α : Type) := Entries String (Members α)

namespace Ledger

/-- Changes the table under a name. -/
def update (table : String) (change : Members α → Members α) (ledger : Ledger α) :
    Option (Ledger α) :=
  (Entries.find? table ledger).map fun members => Entries.insert table (change members) ledger

/-- One step: the tables after it, and its answer. A step on a name without a table is not
one. -/
def step (ledger : Ledger α) : LedgerStep α → Option (Ledger α × MembersAnswer α)
  | .create table => some (Entries.insert table {} ledger, .done)
  | .inherit table parent =>
    (Entries.find? parent ledger).map fun members =>
      (Entries.insert table members.inherit ledger, .done)
  | .declare table name entry =>
    (update table (Members.declare name entry) ledger).map fun ledger => (ledger, .done)
  | .registerFullname table cls member entry =>
    (update table (Members.registerFullname cls member entry) ledger).map fun ledger =>
      (ledger, .done)
  | .ask table query =>
    (Entries.find? table ledger).map fun members => (ledger, members.ask query)

/-- Several steps in turn: the tables after them, and the answers. -/
def run (ledger : Ledger α) : List (LedgerStep α) → Option (Ledger α × List (MembersAnswer α))
  | [] => some (ledger, [])
  | s :: rest => do
    let (ledger, answer) ← ledger.step s
    let (ledger, answers) ← run ledger rest
    return (ledger, answer :: answers)

theorem step_ask {ledger after : Ledger α} {table : String} {query : MembersQuery}
    {answer : MembersAnswer α} (h : ledger.step (.ask table query) = some (after, answer)) :
    after = ledger := by
  simp only [step, Option.map_eq_some_iff, Prod.mk.injEq] at h
  obtain ⟨_, _, hledger, _⟩ := h
  exact hledger.symm

theorem run_append (ledger : Ledger α) (first second : List (LedgerStep α)) :
    ledger.run (first ++ second) =
      (ledger.run first).bind fun (middle, answers) =>
        (middle.run second).map fun (after, more) => (after, answers ++ more) := by
  induction first generalizing ledger with
  | nil => simp [run]
  | cons s rest ih =>
    cases hs : ledger.step s with
    | none => simp [run, hs]
    | some taken =>
      obtain ⟨middle, answer⟩ := taken
      cases hm : middle.run rest with
      | none => simp [run, hs, ih, hm]
      | some done =>
        obtain ⟨reached, answers⟩ := done
        cases hd : reached.run second <;> simp_all [run]

end Ledger

end DynamicObjects
