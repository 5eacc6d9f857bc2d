import DynamicObjects.Entries.Draft
import DynamicObjects.World.State

/-!
# What is kept alive

A bound method, a proxy or a bound operation does not keep its receiver alive. The
receiver is alive while something else holds it: a variable, an argument or receiver
of a running body, a value held in a computation under way, and whatever these hold in
turn. An array, a map or an iterable holds its items; an instance its class and its
properties; a class its parent, the defaults of its properties and its class
attributes; a registry its classes; a proxy its class.
-/

namespace DynamicObjects

/-- What is held in the course of a computation. -/
inductive Held where
  | items (items : List Item)
  | values (values : List Value)
  | draft (draft : Draft Value)
  | elements (elements : List (Key × Value))

namespace World

/-- What something given by an expression holds. -/
def itemNodes (w : World) : Item → NodeSet
  | .value v => v.nodes
  | .flow (.answer v) => v.nodes
  | .folded acc answer => acc.nodes ∪ answer.nodes
  | .handle (.proxy p) => {.cls p.cls}
  | .handle (.registry id) =>
    NodeSet.ofList ((w.registryState id).classes.map fun entry => .cls entry.2)
  | .handle _ | .flow _ => ∅

/-- What is held in the course of a computation, part by part. -/
def heldParts (w : World) : Held → List NodeSet
  | .items items => items.map w.itemNodes
  | .values values => values.map Value.nodes
  | .draft draft => draft.values.values.map Value.nodes
  | .elements elements => elements.map fun element => element.2.nodes

/-- Whether computations under way hold a node themselves. -/
def isHeld (w : World) (held : List Held) (target : Node) : Bool :=
  held.any fun h => (w.heldParts h).any fun nodes => nodes.contains target

/-- What a table of class attributes holds, overridden values included. -/
def memberNodes (members : Members Value) : NodeSet :=
  NodeSet.gather (fun (_, slot) =>
    NodeSet.gather Value.nodes (slot.own.toList ++ slot.inherited.toList)) members.slots

/-- What a class or an instance holds. -/
def successors (w : World) : Node → NodeSet
  | .cls c =>
    let state := w.classState c
    NodeSet.ofList (state.parent.map Node.cls).toList ∪
      (memberNodes state.properties ∪ memberNodes state.shared)
  | .inst i => {.cls i.cls} ∪ NodeSet.gather (fun entry => entry.2.nodes) (w.properties i)

/-- What is held from the outside: by variables, by computations under way. -/
def roots (w : World) (held : List Held) : NodeSet :=
  NodeSet.gather (fun entry => w.itemNodes entry.2) w.bindings ∪
    NodeSet.gather (fun h => NodeSet.gather id (w.heldParts h)) held

/-! ## The search -/

/-- The nodes that some class or instance holds, apart from the classes of instances. -/
def storedNodes (w : World) : NodeSet :=
  NodeSet.gather (fun (state : ClassState) =>
    NodeSet.ofList (state.parent.map Node.cls).toList ∪
      (memberNodes state.properties ∪ memberNodes state.shared)) w.classes.toList ∪
    NodeSet.gather (fun (state : InstanceState) =>
      NodeSet.gather (fun entry => entry.2.nodes) state.properties) w.instances.toList

/-- All that a search can come to from a layer of nodes. -/
def searchSpace (w : World) (layer : NodeSet) : NodeSet :=
  let near := layer ∪ w.storedNodes
  near ∪ NodeSet.ofList (near.toList.map fun n => .cls n.classOf)

theorem mem_searchSpace {w : World} {layer : NodeSet} {n : Node} :
    n ∈ w.searchSpace layer ↔
      n ∈ layer ∨ n ∈ w.storedNodes ∨
        ∃ m, (m ∈ layer ∨ m ∈ w.storedNodes) ∧ n = .cls m.classOf := by
  simp [searchSpace, or_assoc, eq_comm]

theorem mem_successors {w : World} {m n : Node} (h : n ∈ w.successors m) :
    n ∈ w.storedNodes ∨ ∃ i, m = .inst i ∧ n = .cls i.cls := by
  cases m with
  | cls c =>
    left
    simp only [successors, classState] at h
    cases hc : w.classes[c.index]? with
    | none => simp [hc, memberNodes] at h
    | some state =>
      rw [hc, Option.getD_some] at h
      have hstate : state ∈ w.classes.toList := by
        rw [Array.mem_toList_iff]
        exact Array.mem_of_getElem? hc
      rw [storedNodes, Std.TreeSet.mem_union_iff, NodeSet.mem_gather]
      exact .inl ⟨state, hstate, h⟩
  | inst i =>
    simp only [successors, properties, instanceState] at h
    rcases Std.TreeSet.mem_union_iff.mp h with h | h
    · right
      have heq : compare (Node.cls i.cls) n = .eq := by simpa using h
      exact ⟨i, rfl, (Std.LawfulEqCmp.compare_eq_iff_eq.mp heq).symm⟩
    · left
      cases hi : w.instances[i.index]? with
      | none => simp [hi] at h
      | some state =>
        rw [hi, Option.getD_some] at h
        have hstate : state ∈ w.instances.toList := by
          rw [Array.mem_toList_iff]
          exact Array.mem_of_getElem? hi
        rw [storedNodes, Std.TreeSet.mem_union_iff]
        exact .inr (NodeSet.mem_gather.mpr ⟨state, hstate, h⟩)

/-- What is held by a layer leads the search to nothing that it could not come to before. -/
theorem searchSpace_shrinks {w : World} {layer fresh : NodeSet} {n : Node}
    (hfresh : ∀ m ∈ fresh, m ∈ NodeSet.gather w.successors layer.toList)
    (h : n ∈ w.searchSpace fresh) : n ∈ w.searchSpace layer := by
  have hstep (m : Node) (hm : m ∈ fresh) :
      m ∈ w.storedNodes ∨ ∃ k ∈ layer, m = .cls k.classOf := by
    obtain ⟨k, hk, hm⟩ := NodeSet.mem_gather.mp (hfresh m hm)
    rcases mem_successors hm with hm | ⟨i, rfl, rfl⟩
    · exact .inl hm
    · exact .inr ⟨.inst i, Std.TreeSet.mem_toList.mp hk, rfl⟩
  rw [mem_searchSpace] at h ⊢
  rcases h with h | h | ⟨m, h | h, rfl⟩
  · rcases hstep n h with h | ⟨k, hk, rfl⟩
    · exact .inr (.inl h)
    · exact .inr (.inr ⟨k, .inl hk, rfl⟩)
  · exact .inr (.inl h)
  · rcases hstep m h with h | ⟨k, hk, rfl⟩
    · exact .inr (.inr ⟨m, .inr h, rfl⟩)
    · exact .inr (.inr ⟨k, .inl hk, rfl⟩)
  · exact .inr (.inr ⟨m, .inr h, rfl⟩)

/-- What is seen for the first time leaves less to be seen. -/
theorem length_unseen_lt {w : World} {seen layer fresh : NodeSet}
    (hfresh : fresh = NodeSet.gather w.successors layer.toList \ seen)
    (hsome : fresh.isEmpty = false) :
    (w.searchSpace fresh \ (seen ∪ fresh)).toList.length <
      (w.searchSpace layer \ seen).toList.length := by
  have hmem {n : Node} (hn : n ∈ fresh) :
      n ∈ NodeSet.gather w.successors layer.toList ∧ n ∉ seen := by
    rwa [hfresh, Std.TreeSet.mem_diff_iff] at hn
  have hspace {n : Node} (hn : n ∈ w.searchSpace fresh) : n ∈ w.searchSpace layer :=
    searchSpace_shrinks (fun m hm => (hmem hm).1) hn
  obtain ⟨n, hn⟩ := Std.TreeSet.isEmpty_eq_false_iff_exists_mem.mp hsome
  apply NodeSet.length_toList_lt (n := n)
  · intro m hm
    simp only [Std.TreeSet.mem_diff_iff, Std.TreeSet.mem_union_iff, not_or] at hm ⊢
    exact ⟨hspace hm.1, hm.2.1⟩
  · exact Std.TreeSet.mem_diff_iff.mpr ⟨hspace (mem_searchSpace.mpr (.inl hn)), (hmem hn).2⟩
  · simp [hn]

/-- Whether a node is reached from a layer of nodes. Nodes already seen are not followed
again, and each node of a layer is followed once. -/
def reaches (w : World) (target : Node) (seen layer : NodeSet) : Bool :=
  if layer.contains target then true
  else
    let fresh := NodeSet.gather w.successors layer.toList \ seen
    if fresh.isEmpty then false else w.reaches target (seen ∪ fresh) fresh
termination_by (w.searchSpace layer \ seen).toList.length
decreasing_by exact length_unseen_lt rfl (Bool.eq_false_iff.mpr ‹_›)

/-- Whether something holds a class or an instance. What computations hold themselves is
looked at first, so the search is left to what is held further away. -/
def isAlive (w : World) (held : List Held) (target : Node) : Bool :=
  w.isHeld held target || (let roots := w.roots held; w.reaches target roots roots)

end World

end DynamicObjects
