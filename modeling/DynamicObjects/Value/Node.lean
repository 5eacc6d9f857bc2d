import DynamicObjects.Number.Layout
import Std.Data.TreeSet
import Std.Data.TreeSet.Lemmas

/-!
# Classes and instances by reference

A class is referred to by its place and name, an instance by its place and class: both
are fixed once and for all, so a reference can be displayed and ordered without looking
at the state behind it. What can be held is one or the other; a `NodeSet` is a finite
set of them.

* `NodeSet.mem_gather`: the members of several sets together.
-/

namespace DynamicObjects

open Number

/-- A reference to a declared class, by its place in the order of declaration. -/
structure ClassRef where
  index : Nat
  name : Option String
  deriving DecidableEq, Repr, Inhabited

/-- The number of a class. Numbers count the declarations, from one. -/
def ClassRef.id (c : ClassRef) : Nat := c.index + 1

/-- The name of a class, or a made-up one from its number. -/
def ClassRef.displayName (c : ClassRef) : String := c.name.getD ("anonymous#" ++ digitText c.id)

/-- A reference to an instance, by its place in the order of construction. -/
structure InstanceRef where
  index : Nat
  cls : ClassRef
  deriving DecidableEq, Repr, Inhabited

/-- Something that values refer to and that can be held. -/
inductive Node where
  | cls (c : ClassRef)
  | inst (i : InstanceRef)
  deriving DecidableEq, Repr

namespace Node

/-- The place of an instance among the instances; classes come before all of them. -/
def place : Node → Option Nat
  | cls _ => none
  | inst i => some i.index

/-- The class itself, or the class of an instance. -/
def classOf : Node → ClassRef
  | cls c => c
  | inst i => i.cls

/-- Classes before instances, both by place. -/
protected def compare : Node → Node → Ordering :=
  compareLex (compareOn place) <|
    compareLex (compareOn fun n => n.classOf.index) (compareOn fun n => n.classOf.name)

instance : Ord Node := ⟨Node.compare⟩

instance : Std.TransOrd Node :=
  inferInstanceAs (Std.TransCmp <| compareLex (compareOn place) <|
    compareLex (compareOn fun n => n.classOf.index) (compareOn fun n => n.classOf.name))

instance : Std.LawfulEqOrd Node where
  eq_of_compare {a b} h := by
    have h : Node.compare a b = .eq := h
    simp only [Node.compare, compareLex, compareOn, Ordering.then_eq_eq,
      Std.LawfulEqCmp.compare_eq_iff_eq] at h
    obtain ⟨hplace, hindex, hname⟩ := h
    have hclass : a.classOf = b.classOf := by
      cases hac : a.classOf
      cases hbc : b.classOf
      simp_all
    cases a <;> cases b <;> simp_all [place, classOf]
    rename_i i j
    cases i
    cases j
    simp_all

end Node

/-- A finite set of classes and instances. -/
abbrev NodeSet := Std.TreeSet Node

/-- The members of a list. -/
def NodeSet.ofList (nodes : List Node) : NodeSet := Std.TreeSet.ofList nodes

@[simp] theorem NodeSet.mem_ofList {n : Node} {nodes : List Node} :
    n ∈ NodeSet.ofList nodes ↔ n ∈ nodes := by simp [NodeSet.ofList]

/-- A set that lacks a member of another one, and has no others, has fewer members. -/
theorem NodeSet.length_toList_lt {a b : NodeSet} (h : ∀ n ∈ a, n ∈ b) {n : Node} (hb : n ∈ b)
    (ha : n ∉ a) : a.toList.length < b.toList.length := by
  have hdistinct : a.toList.Nodup :=
    a.distinct_toList.imp fun hne heq => hne (Std.LawfulEqCmp.compare_eq_iff_eq.mpr heq)
  have hnodup : (n :: a.toList).Nodup :=
    List.nodup_cons.mpr ⟨fun hn => ha (Std.TreeSet.mem_toList.mp hn), hdistinct⟩
  apply hnodup.length_le_of_subset
  intro m hm
  rw [Std.TreeSet.mem_toList]
  rcases List.mem_cons.mp hm with rfl | hm
  · exact hb
  · exact h m (Std.TreeSet.mem_toList.mp hm)

/-- The members of the sets of several things. Most things have none, and cost nothing. -/
def NodeSet.gather {α : Type} (sets : α → NodeSet) (things : List α) : NodeSet :=
  things.foldl (fun all a => if (sets a).isEmpty then all else all ∪ sets a) ∅

@[simp]
theorem NodeSet.mem_gather {α : Type} {n : Node} {sets : α → NodeSet} {things : List α} :
    n ∈ NodeSet.gather sets things ↔ ∃ a ∈ things, n ∈ sets a := by
  suffices ∀ before : NodeSet,
      n ∈ things.foldl (fun all a => if (sets a).isEmpty then all else all ∪ sets a) before ↔
        n ∈ before ∨ ∃ a ∈ things, n ∈ sets a by simp [NodeSet.gather, this]
  induction things with
  | nil => simp
  | cons a rest ih =>
    intro before
    rw [List.foldl_cons, ih]
    split
    · rename_i h
      simp [Std.TreeSet.isEmpty_iff_forall_not_mem.mp h n]
    · simp [or_assoc]

theorem NodeSet.gather_attach {α : Type} (sets : α → NodeSet) (things : List α) :
    NodeSet.gather (fun a => sets a.val) things.attach = NodeSet.gather sets things :=
  @List.foldl_attach _ _ things (fun all a => if (sets a).isEmpty then all else all ∪ sets a) ∅

end DynamicObjects
