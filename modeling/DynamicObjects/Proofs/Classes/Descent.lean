import DynamicObjects.Builtin.Apply
import DynamicObjects.Objects.Registries
import DynamicObjects.Proofs.Instances.Ancestors
import DynamicObjects.Proofs.Runs.Sessions

/-!
# Descent

Whether a class descends from another is found out by a walk: numbers are compared, and
then the walk goes on from the parent. Nothing bounds the walk but the order in which classes
are declared: a parent has the smaller number, so the walk comes to an end. For the same
reason two classes that descend from each other are one, so descending is a partial order.

Instances are asked about by the same walk, and so are the classes of a registry.

* `World.Walk`: the walk.
* `Run.walk_iff`: it ends, with one answer.
* `descent`: descending is a partial order, which instances and registries go by.
-/

namespace DynamicObjects

open Script

variable {w : World} {history : List Event} {c d e : ClassRef}

/-! ## The walk -/

/-- The walk from a class up to a class that is looked for, and the answer it ends with. -/
inductive World.Walk (w : World) (target : ClassRef) : ClassRef → Bool → Prop
  | found {c : ClassRef} (h : c.id = target.id) : World.Walk w target c true
  | up {c parent : ClassRef} {answer : Bool} (h : c.id ≠ target.id)
      (hparent : (w.classState c).parent = some parent)
      (rest : World.Walk w target parent answer) : World.Walk w target c answer
  | top {c : ClassRef} (h : c.id ≠ target.id) (hparent : (w.classState c).parent = none) :
      World.Walk w target c false

/-- A walk has one answer. -/
theorem World.Walk.unique {answer other : Bool} (h : w.Walk d c answer)
    (h' : w.Walk d c other) : answer = other := by
  induction h with
  | found hid =>
    cases h' with
    | found => rfl
    | up hother | top hother => exact absurd hid hother
  | up hid hparent _ ih =>
    cases h' with
    | found hsame => exact absurd hsame hid
    | up _ hparent' rest' =>
      cases hparent.symm.trans hparent'
      exact ih rest'
    | top _ hnone => cases hparent.symm.trans hnone
  | top hid hnone =>
    cases h' with
    | found hsame => exact absurd hsame hid
    | up _ hparent => cases hnone.symm.trans hparent
    | top => rfl

theorem Run.parent_id_lt (run : Run history w) (grounded : Grounded history) {parent : ClassRef}
    (h : (w.classState c).parent = some parent) : parent.id < c.id :=
  Nat.succ_lt_succ (run.parent_handedOut grounded h).2

/-- The walk ends, with what the search for the ancestor answers. -/
theorem Run.walk (run : Run history w) (grounded : Grounded history) (d c : ClassRef) :
    w.Walk d c (w.isSubclassOf c d) := by
  rw [World.isSubclassOf]
  fun_induction World.lineage w c with
  | case1 c parent hparent hless ih =>
    by_cases hid : c.id = d.id
    · rw [List.any_cons, beq_iff_eq.mpr (ClassRef.id_eq_iff.mp hid), Bool.true_or]
      exact .found hid
    · rw [List.any_cons, beq_eq_false_iff_ne.mpr (mt ClassRef.id_eq_iff.mpr hid), Bool.false_or]
      exact .up hid hparent ih
  | case2 c parent hparent hless =>
    exact absurd (run.parent_handedOut grounded hparent).2 hless
  | case3 c hparent =>
    by_cases hid : c.id = d.id
    · rw [List.any_cons, beq_iff_eq.mpr (ClassRef.id_eq_iff.mp hid), Bool.true_or]
      exact .found hid
    · rw [List.any_cons, beq_eq_false_iff_ne.mpr (mt ClassRef.id_eq_iff.mpr hid), Bool.false_or]
      exact .top hid hparent

theorem Run.walk_iff (run : Run history w) (grounded : Grounded history) {answer : Bool} :
    w.Walk d c answer ↔ answer = w.isSubclassOf c d :=
  ⟨fun h => h.unique (run.walk grounded d c), fun h => h ▸ run.walk grounded d c⟩

/-- Going from parent to parent, the numbers fall. -/
theorem Run.parentAt_id_le (run : Run history w) (grounded : Grounded history) {j : Nat}
    (h : w.parentAt j c = some d) : d.id + j ≤ c.id := by
  induction j generalizing c with
  | zero =>
    cases h
    exact Nat.le_refl _
  | succ j ih =>
    obtain ⟨parent, hparent, h⟩ := Option.bind_eq_some_iff.mp h
    have hless := run.parent_id_lt grounded hparent
    have hrest := ih h
    omega

/-- A class has fewer ancestors than its number tells. -/
theorem Run.parentAt_id (run : Run history w) (grounded : Grounded history) (c : ClassRef) :
    w.parentAt c.id c = none := by
  cases h : w.parentAt c.id c with
  | none => rfl
  | some d =>
    have hle := run.parentAt_id_le grounded h
    exact absurd hle (by simp [ClassRef.id])

/-! ## The order -/

theorem World.IsAncestor.refl (w : World) (c : ClassRef) : w.IsAncestor c c := ⟨0, rfl⟩

theorem World.IsAncestor.trans (h : w.IsAncestor c d) (h' : w.IsAncestor d e) :
    w.IsAncestor c e := by
  obtain ⟨j, hj⟩ := h
  obtain ⟨k, hk⟩ := h'
  refine ⟨j + k, ?_⟩
  rw [World.parentAt_add, hj, Option.bind_some, hk]

theorem Run.isAncestor_antisymm (run : Run history w) (grounded : Grounded history)
    (h : w.IsAncestor c d) (h' : w.IsAncestor d c) : c = d := by
  obtain ⟨j, hj⟩ := h
  obtain ⟨k, hk⟩ := h'
  have hle := run.parentAt_id_le grounded hj
  have hle' := run.parentAt_id_le grounded hk
  have hzero : j = 0 := by omega
  subst hzero
  exact Option.some.inj hj

/-! ## Instances -/

theorem World.hasInstance_inst (w : World) (c : ClassRef) (i : InstanceRef) :
    w.hasInstance c (.inst i) = w.isSubclassOf i.cls c := rfl

/-- An instance of a class is one of every ancestor of the class. -/
theorem Run.hasInstance_ancestor (run : Run history w) (grounded : Grounded history) {v : Value}
    (hv : Known (handedOut history) v) (hc : HandedOut history (.cls c))
    (h : w.hasInstance c v = true) (hancestor : w.IsAncestor c d) :
    w.hasInstance d v = true := by
  obtain ⟨i, rfl⟩ : ∃ i, v = .inst i := by
    cases v with
    | inst i => exact ⟨i, rfl⟩
    | _ => cases h
  have hd : HandedOut history (.cls d) := by
    obtain ⟨j, hj⟩ := hancestor
    exact run.handedOut_parentAt grounded hc hj
  have hi : HandedOut history (.cls i.cls) := (known_inst_iff.mp (known_inst.mp hv)).2
  rw [World.hasInstance_inst] at h ⊢
  exact (run.isSubclassOf_iff grounded hi hd).mpr
    (((run.isSubclassOf_iff grounded hi hc).mp h).trans hancestor)

/-- The named operation asks the same. -/
theorem isInstance_apply [Host] (v : Value) (c : ClassRef) (scope : Scope) (w : World) :
    Builtin.isInstance.apply [v, .cls c] scope w = .done (.boolean (w.hasInstance c v)) w := rfl

/-! ## Registries -/

open scoped Classical in
theorem Run.childrenOf_eq (run : Run history w) (backed : Backs history w) (registry : Nat)
    (hc : HandedOut history (.cls c)) :
    w.childrenOf registry c = (Entries.values (w.registryState registry).classes).filter
      fun candidate => candidate ≠ c ∧ w.IsAncestor candidate c := by
  refine List.filter_congr fun candidate hcandidate => ?_
  have hd : HandedOut history (.cls candidate) := by
    obtain ⟨entry, hentry, rfl⟩ := List.mem_map.mp hcandidate
    have hknown := known_list.mp (backed.known.registered registry) entry hentry
    exact known_cls_iff.mp (known_pair.mp hknown).2
  have hsame : candidate.index = c.index ↔ candidate = c :=
    ⟨run.cls_eq hd hc, fun h => h ▸ rfl⟩
  rw [Bool.eq_iff_iff, Bool.and_eq_true, bne_iff_ne, Ne, hsame,
    run.isSubclassOf_iff backed.grounded hd hc, decide_eq_true_iff]

/-! ## The theorem -/

open scoped Classical in
/-- **Descending is a partial order, and instances and registries go by it.** At any moment of
a run, no two classes have the same number, the parent of a class has been declared and has the
smaller number, so the walk from a class up has an end, and it ends with the answer whether the
class is the one looked for or a row of parents leads there. So a class descends from itself,
descending is transitive, and classes that descend from each other are one. Whether a value is
an instance of a class is the same whether the class is asked, the named operation or the
instance, and an instance of a class is one of all its ancestors. The children of a class in a
registry are the registered classes that descend from it but are not the class, in the order of
the registry, whether or not the class is registered itself. -/
theorem descent (run : Run history w) (backed : Backs history w) :
    (∀ c d, HandedOut history (.cls c) → HandedOut history (.cls d) → c.id = d.id → c = d) ∧
    (∀ c, HandedOut history (.cls c) →
      (∀ parent, (w.classState c).parent = some parent →
        HandedOut history (.cls parent) ∧ parent.id < c.id) ∧
      (∃ j, w.parentAt j c = none) ∧
      ∀ d, HandedOut history (.cls d) →
        (∀ answer, w.Walk d c answer ↔ answer = w.isSubclassOf c d) ∧
        (w.isSubclassOf c d = true ↔ w.IsAncestor c d)) ∧
    (∀ c, HandedOut history (.cls c) → w.isSubclassOf c c = true) ∧
    (∀ c d e, HandedOut history (.cls c) → HandedOut history (.cls d) →
      HandedOut history (.cls e) → w.isSubclassOf c d = true → w.isSubclassOf d e = true →
        w.isSubclassOf c e = true) ∧
    (∀ c d, HandedOut history (.cls c) → HandedOut history (.cls d) →
      w.isSubclassOf c d = true → w.isSubclassOf d c = true → c = d) ∧
    (∀ v c, Known (handedOut history) v → HandedOut history (.cls c) →
      w.isInstance v (some c) = w.hasInstance c v ∧
      (∀ [Host] (scope : Scope), Builtin.isInstance.apply [v, .cls c] scope w =
        .done (.boolean (w.hasInstance c v)) w) ∧
      (∀ i, v = .inst i → w.isSubclassOf i.cls c = w.hasInstance c v) ∧
      (w.hasInstance c v = true → ∀ d, w.IsAncestor c d → w.hasInstance d v = true)) ∧
    (∀ registry c, HandedOut history (.cls c) →
      w.childrenOf registry c = (Entries.values (w.registryState registry).classes).filter
        fun candidate => candidate ≠ c ∧ w.IsAncestor candidate c) := by
  have grounded := backed.grounded
  have hiff {c d : ClassRef} (hc : HandedOut history (.cls c)) (hd : HandedOut history (.cls d)) :
      w.isSubclassOf c d = true ↔ w.IsAncestor c d := run.isSubclassOf_iff grounded hc hd
  refine ⟨fun c d hc hd h => run.cls_eq hc hd (ClassRef.id_eq_iff.mp h), fun c hc => ⟨?_, ?_, ?_⟩,
    fun c hc => (hiff hc hc).mpr (.refl w c), ?_, ?_, fun v c hv hc => ⟨rfl, ?_, ?_, ?_⟩,
    fun registry c hc => run.childrenOf_eq backed registry hc⟩
  · exact fun parent h =>
      ⟨(run.parent_handedOut grounded h).1, run.parent_id_lt grounded h⟩
  · exact ⟨c.id, run.parentAt_id grounded c⟩
  · exact fun d hd => ⟨fun answer => run.walk_iff grounded, hiff hc hd⟩
  · exact fun c d e hc hd he h h' =>
      (hiff hc he).mpr (((hiff hc hd).mp h).trans ((hiff hd he).mp h'))
  · exact fun c d hc hd h h' =>
      run.isAncestor_antisymm grounded ((hiff hc hd).mp h) ((hiff hd hc).mp h')
  · exact fun {_} scope => isInstance_apply v c scope w
  · exact fun i h => h ▸ rfl
  · exact fun h d hancestor => run.hasInstance_ancestor grounded hv hc h hancestor

namespace ThreeClasses

theorem backed : Backs chain built := by
  have hbottom : HandedOut chain (.cls bottom) := grounded.handedOut_cls handedOut_lowest
  have hmiddle : HandedOut chain (.cls middle) :=
    run.handedOut_parentAt grounded hbottom (j := 1) rfl
  have htop : HandedOut chain (.cls top) := run.handedOut_parentAt grounded hbottom (j := 2) rfl
  refine ⟨grounded, known_world.mpr ⟨?_, ?_, known_array.mpr nofun, known_nil⟩⟩
  · refine known_array.mpr fun state hstate => ?_
    obtain rfl | rfl | rfl : state = {} ∨ state = { parent := some top } ∨
        state = { parent := some middle } := by simpa [built, stage] using hstate
    · exact known_classState_empty
    · exact known_classState.mpr
        ⟨known_some.mpr (known_cls_iff.mpr htop), Known.members_empty, Known.members_empty, known_nil⟩
    · exact known_classState.mpr
        ⟨known_some.mpr (known_cls_iff.mpr hmiddle), Known.members_empty, Known.members_empty, known_nil⟩
  · refine known_array.mpr fun state hstate => ?_
    obtain rfl : state = {} := by simpa [built, stage] using hstate
    exact known_instanceState.mpr ⟨known_nil, known_nil, known_nil⟩

end ThreeClasses

open ThreeClasses in
/-- An instance of the class at the bottom is one of the class at the top, which itself does
not descend from the class at the bottom. -/
theorem descent_three :
    Run chain built ∧ Backs chain built ∧ built.hasInstance top (.inst lowest) = true ∧
      built.isSubclassOf top bottom = false := by
  have hbottom : HandedOut chain (.cls bottom) := grounded.handedOut_cls handedOut_lowest
  have htop : HandedOut chain (.cls top) := run.handedOut_parentAt grounded hbottom (j := 2) rfl
  have hlowest : Known (handedOut chain) (Value.inst lowest) :=
    known_inst.mpr (known_inst_iff.mpr ⟨handedOut_lowest, hbottom⟩)
  obtain ⟨-, hwalks, hself, -, hsame, hinstances, -⟩ := descent run backed
  have hdown : built.isSubclassOf bottom top = true :=
    (((hwalks bottom hbottom).2.2 top htop).2).mpr ⟨2, rfl⟩
  refine ⟨run, backed, (hinstances _ bottom hlowest hbottom).2.2.2 (hself bottom hbottom) top
    ⟨2, rfl⟩, Bool.eq_false_iff.mpr fun hup => ?_⟩
  exact absurd (hsame bottom top hbottom htop hdown hup) (by decide)

end DynamicObjects
