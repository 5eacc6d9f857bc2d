import DynamicObjects.World.Reach

/-!
# What holds what

Classes and instances are held by values, by what expressions give, by computations under
way, and by one another. Said one by one: a container holds what its parts hold, a proxy
its class, a registry its classes, an instance its class and what its properties hold, a
class its parent and what the values of its tables hold. A bound method, a bound operation
and a function hold nothing, and what instances and classes have handed out does not count.

* `World.Rooted`, `World.Keeps`: what is held from outside, and what holds what.
* `World.mem_roots_iff`, `World.mem_successors_iff`: the sets that the search goes along are
  these.
-/

namespace DynamicObjects

/-! ## Holding -/

/-- A value holds a class or an instance. -/
inductive Value.Holds : Value → Node → Prop
  | cls (c : ClassRef) : Holds (.cls c) (.cls c)
  | inst (i : InstanceRef) : Holds (.inst i) (.inst i)
  | foreign (i : InstanceRef) : Holds (.foreign i) (.inst i)
  | item {items : List Value} {v : Value} {n : Node} (hv : v ∈ items) (h : v.Holds n) :
      Holds (.array items) n
  | entry {entries : List (String × Value)} {key : String} {v : Value} {n : Node}
      (hv : (key, v) ∈ entries) (h : v.Holds n) : Holds (.map entries) n
  | element {id : Nat} {label : String} {length : Nat} {items : List Value}
      {lengthFault : Option Value} {faults : List (Nat × Value)} {v : Value} {n : Node}
      (hv : v ∈ items) (h : v.Holds n) : Holds (.iterable id label length items lengthFault faults) n
  | lengthFault {id : Nat} {label : String} {length : Nat} {items : List Value}
      {faults : List (Nat × Value)} {v : Value} {n : Node} (h : v.Holds n) :
      Holds (.iterable id label length items (some v) faults) n
  | fault {id : Nat} {label : String} {length : Nat} {items : List Value}
      {lengthFault : Option Value} {faults : List (Nat × Value)} {i : Nat} {v : Value} {n : Node}
      (hv : (i, v) ∈ faults) (h : v.Holds n) :
      Holds (.iterable id label length items lengthFault faults) n

/-- A table of a class has a value, be it hidden by another one. -/
def Members.Has (members : Members Value) (v : Value) : Prop :=
  ∃ name slot, (name, slot) ∈ members.slots ∧ (slot.own = some v ∨ slot.inherited = some v)

namespace World

/-- Something given by an expression holds a class or an instance. -/
inductive ItemHolds (w : World) : Item → Node → Prop
  | value {v : Value} {n : Node} (h : v.Holds n) : ItemHolds w (.value v) n
  | answer {v : Value} {n : Node} (h : v.Holds n) : ItemHolds w (.flow (.answer v)) n
  | accumulator {acc answer : Value} {n : Node} (h : acc.Holds n) :
      ItemHolds w (.folded acc answer) n
  | folded {acc answer : Value} {n : Node} (h : answer.Holds n) :
      ItemHolds w (.folded acc answer) n
  | proxy (p : SuperProxy) : ItemHolds w (.handle (.proxy p)) (.cls p.cls)
  | registry {index : Nat} {name : String} {c : ClassRef}
      (h : (name, c) ∈ (w.registryState index).classes) :
      ItemHolds w (.handle (.registry index)) (.cls c)

/-- A computation under way holds a class or an instance. -/
inductive HeldHolds (w : World) : Held → Node → Prop
  | item {items : List Item} {item : Item} {n : Node} (hitem : item ∈ items)
      (h : w.ItemHolds item n) : HeldHolds w (.items items) n
  | value {values : List Value} {v : Value} {n : Node} (hv : v ∈ values) (h : v.Holds n) :
      HeldHolds w (.values values) n
  | draft {draft : Draft Value} {v : Value} {n : Node} (hv : v ∈ draft.values.values)
      (h : v.Holds n) : HeldHolds w (.draft draft) n
  | element {elements : List (Key × Value)} {key : Key} {v : Value} {n : Node}
      (hv : (key, v) ∈ elements) (h : v.Holds n) : HeldHolds w (.elements elements) n

/-- A class or an instance is held from outside: by a variable or by a computation. -/
inductive Rooted (w : World) (held : List Held) (n : Node) : Prop
  | binding {name : String} {item : Item} (hitem : (name, item) ∈ w.bindings)
      (h : w.ItemHolds item n) : Rooted w held n
  | computation {part : Held} (hpart : part ∈ held) (h : w.HeldHolds part n) : Rooted w held n

/-- A class or an instance holds another one. -/
inductive Keeps (w : World) : Node → Node → Prop
  | instanceClass (i : InstanceRef) : Keeps w (.inst i) (.cls i.cls)
  | property {i : InstanceRef} {name : String} {v : Value} {n : Node}
      (hv : (name, v) ∈ w.properties i) (h : v.Holds n) : Keeps w (.inst i) n
  | parent {c parent : ClassRef} (h : (w.classState c).parent = some parent) :
      Keeps w (.cls c) (.cls parent)
  | default {c : ClassRef} {v : Value} {n : Node} (hv : (w.classState c).properties.Has v)
      (h : v.Holds n) : Keeps w (.cls c) n
  | shared {c : ClassRef} {v : Value} {n : Node} (hv : (w.classState c).shared.Has v)
      (h : v.Holds n) : Keeps w (.cls c) n

end World

/-! ## What is held, as sets -/

/-- What a list of pairs has under a key is smaller than the list. -/
theorem sizeOf_lt_of_pair_mem {α β : Type} [SizeOf α] [SizeOf β] {a : α} {b : β}
    {pairs : List (α × β)} (h : (a, b) ∈ pairs) : sizeOf b < sizeOf pairs := by
  have hpair := List.sizeOf_lt_of_mem h
  rw [Prod.mk.sizeOf_spec] at hpair
  omega

theorem NodeSet.mem_singleton {m n : Node} : n ∈ ({m} : NodeSet) ↔ n = m := by
  have hmem : n ∈ ({m} : NodeSet) ↔ compare m n = .eq := by simp
  rw [hmem, Std.LawfulEqCmp.compare_eq_iff_eq, eq_comm]

namespace Value

/-- What is among the nodes of a value, the value holds. -/
theorem holds_of_mem_nodes {n : Node} : (v : Value) → n ∈ v.nodes → v.Holds n
  | .cls c, h => by
    rw [nodes, NodeSet.mem_singleton] at h
    exact h ▸ .cls c
  | .inst i, h => by
    rw [nodes, NodeSet.mem_singleton] at h
    exact h ▸ .inst i
  | .foreign i, h => by
    rw [nodes, NodeSet.mem_singleton] at h
    exact h ▸ .foreign i
  | .array items, h => by
    rw [nodes_array, NodeSet.mem_gather] at h
    obtain ⟨v, hv, h⟩ := h
    have := List.sizeOf_lt_of_mem hv
    exact .item hv (holds_of_mem_nodes v h)
  | .map entries, h => by
    rw [nodes_map, NodeSet.mem_gather] at h
    obtain ⟨⟨key, v⟩, hv, h⟩ := h
    have := sizeOf_lt_of_pair_mem hv
    exact .entry hv (holds_of_mem_nodes v h)
  | .iterable id label length items lengthFault faults, h => by
    rw [nodes_iterable, Std.TreeSet.mem_union_iff, Std.TreeSet.mem_union_iff,
      NodeSet.mem_gather, NodeSet.mem_gather, NodeSet.mem_gather] at h
    simp only [Option.mem_toList] at h
    rcases h with ⟨v, hv, h⟩ | ⟨v, hfault, h⟩ | ⟨⟨i, v⟩, hv, h⟩
    · have := List.sizeOf_lt_of_mem hv
      exact .element hv (holds_of_mem_nodes v h)
    · have : sizeOf v < sizeOf lengthFault := by
        rw [hfault, Option.some.sizeOf_spec]
        omega
      exact hfault ▸ .lengthFault (holds_of_mem_nodes v h)
    · have := sizeOf_lt_of_pair_mem hv
      exact .fault hv (holds_of_mem_nodes v h)
  | .undefined, h | .none, h | .boolean _, h | .integer _, h | .float _, h | .string _, h
  | .typed _, h | .function _, h => by
    rw [nodes] at h
    exact absurd h Std.TreeSet.not_mem_emptyc
termination_by v => v

theorem mem_nodes_iff {v : Value} {n : Node} : n ∈ v.nodes ↔ v.Holds n := by
  refine ⟨holds_of_mem_nodes v, fun h => ?_⟩
  induction h with
  | cls c => rw [nodes, NodeSet.mem_singleton]
  | inst i | foreign i => rw [nodes, NodeSet.mem_singleton]
  | item hv _ ih => exact nodes_array _ ▸ NodeSet.mem_gather.mpr ⟨_, hv, ih⟩
  | entry hv _ ih => exact nodes_map _ ▸ NodeSet.mem_gather.mpr ⟨_, hv, ih⟩
  | element hv _ ih =>
    rw [nodes_iterable, Std.TreeSet.mem_union_iff]
    exact .inl (NodeSet.mem_gather.mpr ⟨_, hv, ih⟩)
  | lengthFault _ ih =>
    rw [nodes_iterable, Std.TreeSet.mem_union_iff, Std.TreeSet.mem_union_iff]
    exact .inr (.inl (NodeSet.mem_gather.mpr ⟨_, Option.mem_toList.mpr rfl, ih⟩))
  | fault hv _ ih =>
    rw [nodes_iterable, Std.TreeSet.mem_union_iff, Std.TreeSet.mem_union_iff]
    exact .inr (.inr (NodeSet.mem_gather.mpr ⟨_, hv, ih⟩))

end Value

namespace World

variable {w : World} {held : List Held} {n : Node}

theorem mem_itemNodes_iff {item : Item} : n ∈ w.itemNodes item ↔ w.ItemHolds item n := by
  constructor
  · intro h
    cases item with
    | value v => exact .value (Value.mem_nodes_iff.mp h)
    | flow f =>
      cases f with
      | answer v => exact .answer (Value.mem_nodes_iff.mp h)
      | proceed | stop => exact absurd h Std.TreeSet.not_mem_emptyc
    | folded acc answer =>
      rcases Std.TreeSet.mem_union_iff.mp h with h | h
      · exact .accumulator (Value.mem_nodes_iff.mp h)
      · exact .folded (Value.mem_nodes_iff.mp h)
    | handle handle =>
      cases handle with
      | proxy p =>
        obtain rfl := NodeSet.mem_singleton.mp h
        exact .proxy p
      | registry index =>
        rw [itemNodes, NodeSet.mem_ofList, List.mem_map] at h
        obtain ⟨⟨name, c⟩, hc, rfl⟩ := h
        exact .registry hc
      | boundMethod _ | boundOperation _ | method _ | operation _ | member _ =>
        exact absurd h Std.TreeSet.not_mem_emptyc
  · intro h
    cases h with
    | value h | answer h => exact Value.mem_nodes_iff.mpr h
    | accumulator h => exact Std.TreeSet.mem_union_iff.mpr (.inl (Value.mem_nodes_iff.mpr h))
    | folded h => exact Std.TreeSet.mem_union_iff.mpr (.inr (Value.mem_nodes_iff.mpr h))
    | proxy p => exact NodeSet.mem_singleton.mpr rfl
    | registry h => exact NodeSet.mem_ofList.mpr (List.mem_map_of_mem h)

theorem mem_heldParts_iff {part : Held} :
    (∃ nodes ∈ w.heldParts part, n ∈ nodes) ↔ w.HeldHolds part n := by
  constructor
  · rintro ⟨nodes, hnodes, h⟩
    cases part with
    | items items =>
      obtain ⟨item, hitem, rfl⟩ := List.mem_map.mp hnodes
      exact .item hitem (mem_itemNodes_iff.mp h)
    | values values =>
      obtain ⟨v, hv, rfl⟩ := List.mem_map.mp hnodes
      exact .value hv (Value.mem_nodes_iff.mp h)
    | draft draft =>
      obtain ⟨v, hv, rfl⟩ := List.mem_map.mp hnodes
      exact .draft hv (Value.mem_nodes_iff.mp h)
    | elements elements =>
      obtain ⟨⟨key, v⟩, hv, rfl⟩ := List.mem_map.mp hnodes
      exact .element hv (Value.mem_nodes_iff.mp h)
  · intro h
    cases h with
    | item hitem h => exact ⟨_, List.mem_map_of_mem hitem, mem_itemNodes_iff.mpr h⟩
    | value hv h | draft hv h => exact ⟨_, List.mem_map_of_mem hv, Value.mem_nodes_iff.mpr h⟩
    | element hv h => exact ⟨_, List.mem_map_of_mem hv, Value.mem_nodes_iff.mpr h⟩

theorem mem_roots_iff : n ∈ w.roots held ↔ w.Rooted held n := by
  rw [roots, Std.TreeSet.mem_union_iff, NodeSet.mem_gather, NodeSet.mem_gather]
  simp only [NodeSet.mem_gather, id, mem_heldParts_iff, mem_itemNodes_iff]
  constructor
  · rintro (⟨⟨name, item⟩, hitem, h⟩ | ⟨part, hpart, h⟩)
    · exact .binding hitem h
    · exact .computation hpart h
  · intro h
    cases h with
    | binding hitem h => exact .inl ⟨_, hitem, h⟩
    | computation hpart h => exact .inr ⟨_, hpart, h⟩

theorem rooted_of_isHeld (h : w.isHeld held n = true) : w.Rooted held n := by
  simp only [isHeld, List.any_eq_true] at h
  obtain ⟨part, hpart, nodes, hnodes, h⟩ := h
  exact .computation hpart (mem_heldParts_iff.mp ⟨nodes, hnodes, h⟩)

theorem mem_memberNodes_iff {members : Members Value} :
    n ∈ memberNodes members ↔ ∃ v, members.Has v ∧ v.Holds n := by
  rw [memberNodes, NodeSet.mem_gather]
  simp only [NodeSet.mem_gather, List.mem_append, Option.mem_toList,
    Value.mem_nodes_iff]
  constructor
  · rintro ⟨⟨name, slot⟩, hslot, v, hv, h⟩
    exact ⟨v, ⟨name, slot, hslot, hv⟩, h⟩
  · rintro ⟨v, ⟨name, slot, hslot, hv⟩, h⟩
    exact ⟨⟨name, slot⟩, hslot, v, hv, h⟩

theorem mem_successors_iff {m : Node} : n ∈ w.successors m ↔ w.Keeps m n := by
  cases m with
  | cls c =>
    simp only [successors, Std.TreeSet.mem_union_iff, NodeSet.mem_ofList, Option.mem_toList,
      Option.map_eq_some_iff, mem_memberNodes_iff]
    constructor
    · rintro (⟨parent, hparent, rfl⟩ | ⟨v, hv, h⟩ | ⟨v, hv, h⟩)
      · exact .parent hparent
      · exact .default hv h
      · exact .shared hv h
    · intro h
      cases h with
      | parent h => exact .inl ⟨_, h, rfl⟩
      | default hv h => exact .inr (.inl ⟨_, hv, h⟩)
      | shared hv h => exact .inr (.inr ⟨_, hv, h⟩)
  | inst i =>
    simp only [successors, Std.TreeSet.mem_union_iff, NodeSet.mem_singleton,
      NodeSet.mem_gather, Value.mem_nodes_iff]
    constructor
    · rintro (rfl | ⟨⟨name, v⟩, hv, h⟩)
      · exact .instanceClass i
      · exact .property hv h
    · intro h
      cases h with
      | instanceClass => exact .inl rfl
      | property hv h => exact .inr ⟨_, hv, h⟩

end World

end DynamicObjects
