import DynamicObjects.Proofs.World.Holding
import Mathlib.Data.Fintype.Card
import Mathlib.Data.Set.Finite.Basic
import Mathlib.Order.WellFounded

/-!
# What is alive

A class or an instance is alive when it is held from outside, or by something that is
alive. An account of what is alive (`World.Accounts`) is any predicate that says so of
itself: this is what counting references comes to. Where things hold each other in a
circle there are several accounts, and they differ in what the circle is said to be; the
least one is that something leads there from outside (`World.Alive`). Without cycles there
is no other (`World.Accounts.iff_alive`): going up from what holds to what holds that, one
has to come out at something held from outside, for there are only finitely many things
that are stored at all.

* `World.isAlive_iff`: the search finds what is alive.
* `World.SameHolders.alive_iff`: what has been handed out keeps nothing alive.
-/

namespace DynamicObjects

namespace World

/-- What is alive while computations hold something: what is held from outside, and what
something alive holds. -/
inductive Alive (w : World) (held : List Held) : Node → Prop
  | rooted {n : Node} (h : w.Rooted held n) : Alive w held n
  | kept {m n : Node} (alive : Alive w held m) (h : w.Keeps m n) : Alive w held n

variable {w w' : World} {held : List Held} {m n target : Node}

/-! ## The search -/

/-- A search that has gone through what it has seen, apart from a layer, and come upon no
target. -/
structure Searching (w : World) (target : Node) (seen layer : NodeSet) : Prop where
  subset : ∀ m ∈ layer, m ∈ seen
  closed : ∀ m ∈ seen, m ∉ layer → ∀ n, w.Keeps m n → n ∈ seen
  missed : target ∈ seen → target ∈ layer

/-- A layer without the target can be left for what it holds. -/
theorem Searching.next {seen layer fresh : NodeSet} (h : w.Searching target seen layer)
    (htarget : target ∉ layer) (hfresh : fresh = NodeSet.gather w.successors layer.toList \ seen) :
    w.Searching target (seen ∪ fresh) fresh where
  subset m hm := Std.TreeSet.mem_union_iff.mpr (.inr hm)
  closed m hm hnew n hn := by
    have hseen : m ∈ seen := (Std.TreeSet.mem_union_iff.mp hm).resolve_right hnew
    rw [Std.TreeSet.mem_union_iff]
    by_cases hn' : n ∈ seen
    · exact .inl hn'
    · -- what the layer holds and is not seen yet is the next layer
      by_cases hlayer : m ∈ layer
      · right
        rw [hfresh, Std.TreeSet.mem_diff_iff, NodeSet.mem_gather]
        exact ⟨⟨m, Std.TreeSet.mem_toList.mpr hlayer, mem_successors_iff.mpr hn⟩, hn'⟩
      · exact .inl (h.closed m hseen hlayer n hn)
  missed hm := (Std.TreeSet.mem_union_iff.mp hm).resolve_left fun hseen =>
    htarget (h.missed hseen)

/-- What is found is reached along what holds it. -/
theorem exists_of_reaches {seen layer : NodeSet} (h : w.reaches target seen layer = true) :
    ∃ m ∈ layer, Relation.ReflTransGen w.Keeps m target := by
  fun_induction reaches w target seen layer with
  | case1 seen layer hlayer => exact ⟨target, hlayer, .refl⟩
  | case2 => cases h
  | case3 seen layer hlayer fresh hsome ih =>
    obtain ⟨m, hm, hpath⟩ := ih h
    obtain ⟨k, hk, hkeeps⟩ := NodeSet.mem_gather.mp (Std.TreeSet.mem_diff_iff.mp hm).1
    exact ⟨k, Std.TreeSet.mem_toList.mp hk, .head (mem_successors_iff.mp hkeeps) hpath⟩

/-- What is not found is outside of all that the search has seen, from which nothing leads
out. -/
theorem exists_closed_of_not_reaches {seen layer : NodeSet} (h : w.Searching target seen layer)
    (hreaches : w.reaches target seen layer = false) :
    ∃ all : NodeSet, (∀ m ∈ seen, m ∈ all) ∧ (∀ m ∈ all, ∀ n, w.Keeps m n → n ∈ all) ∧
      target ∉ all := by
  fun_induction reaches w target seen layer with
  | case1 => cases hreaches
  | case2 seen layer hlayer fresh hnone =>
    have hnext := h.next hlayer rfl
    refine ⟨seen ∪ fresh, fun m hm => Std.TreeSet.mem_union_iff.mpr (.inl hm), ?_, ?_⟩
    · intro m hm
      exact hnext.closed m hm (Std.TreeSet.isEmpty_iff_forall_not_mem.mp hnone m)
    · intro hm
      exact Std.TreeSet.isEmpty_iff_forall_not_mem.mp hnone target (hnext.missed hm)
  | case3 seen layer hlayer fresh hsome ih =>
    obtain ⟨all, hseen, hclosed, hmissed⟩ := ih (h.next hlayer rfl) hreaches
    exact ⟨all, fun m hm => hseen m (Std.TreeSet.mem_union_iff.mpr (.inl hm)), hclosed, hmissed⟩

theorem Alive.of_path (alive : w.Alive held m) (path : Relation.ReflTransGen w.Keeps m n) :
    w.Alive held n := by
  induction path with
  | refl => exact alive
  | tail _ h ih => exact ih.kept h

/-- What is closed under holding and has all that is held from outside has all that is
alive. -/
theorem Alive.mem {all : NodeSet} (alive : w.Alive held n) (hrooted : ∀ m ∈ w.roots held, m ∈ all)
    (hclosed : ∀ m ∈ all, ∀ n, w.Keeps m n → n ∈ all) : n ∈ all := by
  induction alive with
  | rooted h => exact hrooted _ (mem_roots_iff.mpr h)
  | kept _ h ih => exact hclosed _ ih _ h

/-- **The search finds what is alive.** -/
theorem isAlive_iff : w.isAlive held target = true ↔ w.Alive held target := by
  rw [isAlive, Bool.or_eq_true]
  constructor
  · rintro (h | h)
    · exact .rooted (rooted_of_isHeld h)
    · obtain ⟨m, hm, path⟩ := exists_of_reaches h
      exact (Alive.rooted (mem_roots_iff.mp hm)).of_path path
  · intro alive
    right
    by_contra hreaches
    have hstart : w.Searching target (w.roots held) (w.roots held) :=
      ⟨fun _ hm => hm, fun _ hm hnew => absurd hm hnew, fun hm => hm⟩
    obtain ⟨all, hroots, hclosed, hmissed⟩ :=
      exists_closed_of_not_reaches hstart (Bool.eq_false_iff.mpr hreaches)
    exact hmissed (alive.mem hroots hclosed)

/-! ## Accounts -/

/-- An account of what is alive while computations hold something: exactly what is held
from outside, or by something that is alive. -/
def Accounts (w : World) (live : List Held → Node → Prop) : Prop :=
  ∀ held n, live held n ↔ w.Rooted held n ∨ ∃ m, live held m ∧ w.Keeps m n

/-- Nothing holds itself, not even by way of other things. -/
def Acyclic (w : World) : Prop := ∀ n, ¬Relation.TransGen w.Keeps n n

theorem acyclic_of_rank (rank : Node → Nat) (hrank : ∀ m n, w.Keeps m n → rank n < rank m) :
    w.Acyclic := by
  have hless {m n : Node} (path : Relation.TransGen w.Keeps m n) : rank n < rank m := by
    induction path with
    | single h => exact hrank _ _ h
    | tail _ h ih => exact (hrank _ _ h).trans ih
  exact fun n hcycle => Nat.lt_irrefl _ (hless hcycle)

theorem accounts_alive (w : World) : w.Accounts w.Alive := by
  intro held n
  constructor
  · intro alive
    cases alive with
    | rooted h => exact .inl h
    | kept alive h => exact .inr ⟨_, alive, h⟩
  · rintro (h | ⟨m, alive, h⟩)
    · exact .rooted h
    · exact alive.kept h

/-- Said to be alive, without anything outside that leads there. -/
def Unfounded (w : World) (live : List Held → Node → Prop) (held : List Held) (n : Node) : Prop :=
  live held n ∧ ¬w.Alive held n

section Unfounded

variable {live : List Held → Node → Prop}

/-- What is said to be alive without support is held by something else of that sort. -/
theorem Unfounded.exists_keeps (hlive : w.Accounts live) (h : w.Unfounded live held n) :
    ∃ m, w.Unfounded live held m ∧ w.Keeps m n := by
  obtain ⟨hn, hdead⟩ := h
  rcases (hlive held n).mp hn with hrooted | ⟨m, hm, hkeeps⟩
  · exact absurd (.rooted hrooted) hdead
  · exact ⟨m, ⟨hm, fun alive => hdead (alive.kept hkeeps)⟩, hkeeps⟩

/-- So it is one of finitely many things: stored, or the class of something stored. -/
theorem Unfounded.mem_searchSpace (hlive : w.Accounts live) (h : w.Unfounded live held n) :
    n ∈ w.searchSpace ∅ := by
  obtain ⟨m, hm, hkeeps⟩ := h.exists_keeps hlive
  rw [World.mem_searchSpace]
  rcases mem_successors (mem_successors_iff.mpr hkeeps) with hn | ⟨i, rfl, rfl⟩
  · exact .inr (.inl hn)
  · -- the class of an instance, and the instance is held in turn, so it is stored
    obtain ⟨k, -, hkeeps⟩ := hm.exists_keeps hlive
    rcases mem_successors (mem_successors_iff.mpr hkeeps) with hi | ⟨_, _, hi⟩
    · exact .inr (.inr ⟨.inst i, .inr hi, rfl⟩)
    · cases hi

/-- Without cycles nothing is said to be alive without support: among finitely many things
one would be held by no other. -/
theorem Acyclic.not_unfounded (hacyclic : w.Acyclic) (hlive : w.Accounts live) :
    ¬w.Unfounded live held n := by
  intro h
  have hfinite : Finite { m // m ∈ w.searchSpace ∅ } :=
    (List.finite_toSet (w.searchSpace ∅).toList).subset fun m hm => Std.TreeSet.mem_toList.mpr hm
  let above (a b : { m // m ∈ w.searchSpace ∅ }) : Prop := Relation.TransGen w.Keeps a.1 b.1
  have htrans : IsTrans _ above := ⟨fun _ _ _ => Relation.TransGen.trans⟩
  have hirrefl : Std.Irrefl above := ⟨fun a => hacyclic a.1⟩
  have hwf : WellFounded above := Finite.wellFounded_of_trans_of_irrefl above
  -- one of them has no other above it, but each is held by another one
  obtain ⟨⟨top, _⟩, htop, hleast⟩ :=
    hwf.has_min { a | w.Unfounded live held a.1 } ⟨⟨n, h.mem_searchSpace hlive⟩, h⟩
  obtain ⟨m, hm, hkeeps⟩ := Unfounded.exists_keeps hlive htop
  exact hleast ⟨m, hm.mem_searchSpace hlive⟩ hm (.single hkeeps)

end Unfounded

/-- **Without cycles there is one account of what is alive.** -/
theorem Accounts.iff_alive {live : List Held → Node → Prop} (hlive : w.Accounts live)
    (hacyclic : w.Acyclic) : live held n ↔ w.Alive held n := by
  constructor
  · intro h
    by_contra hdead
    exact hacyclic.not_unfounded hlive ⟨h, hdead⟩
  · intro alive
    induction alive with
    | rooted h => exact (hlive held _).mpr (.inl h)
    | kept _ h ih => exact (hlive held _).mpr (.inr ⟨_, ih, h⟩)

/-! ## What has been handed out -/

/-- Two worlds differ at most in what instances and classes have handed out, and in their
members that run. -/
structure SameHolders (w w' : World) : Prop where
  bindings : w'.bindings = w.bindings
  registries : w'.registries = w.registries
  parent : ∀ c, (w'.classState c).parent = (w.classState c).parent
  defaults : ∀ c, (w'.classState c).properties = (w.classState c).properties
  shared : ∀ c, (w'.classState c).shared = (w.classState c).shared
  properties : ∀ i, w'.properties i = w.properties i

namespace SameHolders

variable (h : SameHolders w w')
include h

theorem symm : SameHolders w' w :=
  ⟨h.bindings.symm, h.registries.symm, fun c => (h.parent c).symm, fun c => (h.defaults c).symm,
    fun c => (h.shared c).symm, fun i => (h.properties i).symm⟩

theorem itemHolds {item : Item} (hn : w.ItemHolds item n) : w'.ItemHolds item n := by
  cases hn with
  | value h => exact .value h
  | answer h => exact .answer h
  | accumulator h => exact .accumulator h
  | folded h => exact .folded h
  | proxy p => exact .proxy p
  | @registry index name c hc =>
    have hregistry : w'.registryState index = w.registryState index := by
      rw [registryState, registryState, h.registries]
    exact .registry (hregistry.symm ▸ hc)

theorem rooted (hn : w.Rooted held n) : w'.Rooted held n := by
  cases hn with
  | binding hitem hn => exact .binding (h.bindings ▸ hitem) (h.itemHolds hn)
  | computation hpart hn =>
    refine .computation hpart ?_
    cases hn with
    | item hitem hn => exact .item hitem (h.itemHolds hn)
    | value hv hn => exact .value hv hn
    | draft hv hn => exact .draft hv hn
    | element hv hn => exact .element hv hn

theorem keeps (hn : w.Keeps m n) : w'.Keeps m n := by
  cases hn with
  | instanceClass i => exact .instanceClass i
  | property hv hn => exact .property (h.properties _ ▸ hv) hn
  | parent hparent => exact .parent ((h.parent _).trans hparent)
  | default hv hn => exact .default (h.defaults _ ▸ hv) hn
  | shared hv hn => exact .shared (h.shared _ ▸ hv) hn

theorem alive (hn : w.Alive held n) : w'.Alive held n := by
  induction hn with
  | rooted hn => exact .rooted (h.rooted hn)
  | kept _ hn ih => exact ih.kept (h.keeps hn)

/-- **What has been handed out keeps nothing alive.** -/
theorem alive_iff : w'.Alive held n ↔ w.Alive held n := ⟨h.symm.alive, h.alive⟩

theorem acyclic (hacyclic : w.Acyclic) : w'.Acyclic :=
  fun n hcycle => hacyclic n (Relation.TransGen.mono (fun _ _ => h.symm.keeps) n n hcycle)

/-- Any two accounts agree, without cycles. -/
theorem accounts_iff (hacyclic : w.Acyclic) {live live' : List Held → Node → Prop}
    (hlive : w.Accounts live) (hlive' : w'.Accounts live') :
    live' held n ↔ live held n := by
  rw [hlive'.iff_alive (h.acyclic hacyclic), hlive.iff_alive hacyclic, h.alive_iff]

end SameHolders

end World

end DynamicObjects
