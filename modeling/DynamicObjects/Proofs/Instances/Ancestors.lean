import DynamicObjects.Proofs.Classes.Parents
import DynamicObjects.Proofs.Instances.Receivers

/-!
# Walks up the chain of ancestors

A proxy shows an instance through an ancestor of its class. An instance gives one for its
class and for every class that a row of parents leads to, the same one whenever it is asked
again, and none for any other class. Asking a proxy for the proxy of the parent goes on from
the ancestor of the proxy, not from the class of the instance. So walks lead up the chain one
class at a time, and end where the chain ends.

What was handed out is kept under the place of the ancestor (`Run.proxy_of_asked`), is for the
very ancestor and of the very instance (`Run.proxies_eq`), and the chain of a class does not
change once the class is declared (`Path.parentAt_eq`).

* `World.parentAt`: the classes that rows of parents lead to.
* `SuperProxy.climb`: a walk.
* `super_walks`: what requests for ancestors give, and where walks lead.
-/

namespace DynamicObjects

open Script

/-! ## Rows of parents -/

/-- The class that a row of parents of some length leads to. -/
def World.parentAt (w : World) : Nat → ClassRef → Option ClassRef
  | 0, c => some c
  | j + 1, c => (w.classState c).parent.bind (w.parentAt j)

/-- A class is another one, or a row of parents leads to it. -/
def World.IsAncestor (w : World) (c a : ClassRef) : Prop := ∃ j, w.parentAt j c = some a

variable {w w' : World} {event : Event} {history events : List Event} {scope : Scope}

theorem World.parentAt_one (w : World) (c : ClassRef) :
    w.parentAt 1 c = (w.classState c).parent := by
  rw [parentAt]
  cases (w.classState c).parent <;> rfl

theorem World.parentAt_add (w : World) (j k : Nat) (c : ClassRef) :
    w.parentAt (j + k) c = (w.parentAt j c).bind (w.parentAt k) := by
  induction j generalizing c with
  | zero => rw [Nat.zero_add, parentAt, Option.bind_some]
  | succ j ih =>
    rw [Nat.add_right_comm, parentAt, parentAt, Option.bind_assoc]
    exact congrArg _ (funext ih)

theorem World.IsAncestor.parent {c a b : ClassRef} (h : w.IsAncestor c a)
    (hparent : (w.classState a).parent = some b) : w.IsAncestor c b := by
  obtain ⟨j, h⟩ := h
  refine ⟨j + 1, ?_⟩
  rw [World.parentAt_add, h, Option.bind_some, World.parentAt_one, hparent]

theorem Run.handedOut_parentAt (run : Run history w) (grounded : Grounded history)
    {j : Nat} {c a : ClassRef} (hc : HandedOut history (.cls c)) (h : w.parentAt j c = some a) :
    HandedOut history (.cls a) := by
  induction j generalizing c with
  | zero =>
    cases h
    exact hc
  | succ j ih =>
    obtain ⟨parent, hparent, h⟩ := Option.bind_eq_some_iff.mp h
    exact ih (run.parent_handedOut grounded hparent).1 h

/-- The chain of a class is settled when the class is declared. -/
theorem Path.parentAt_eq (path : Path w events w') (run : Run history w)
    (grounded : Grounded history) (j : Nat) {c : ClassRef} (hc : HandedOut history (.cls c)) :
    w'.parentAt j c = w.parentAt j c := by
  induction j generalizing c with
  | zero => rfl
  | succ j ih =>
    rw [World.parentAt, World.parentAt, path.parent_eq (run.stores hc)]
    cases hparent : (w.classState c).parent with
    | none => rfl
    | some parent => exact ih (run.parent_handedOut grounded hparent).1

/-- The search for an ancestor goes along the whole chain. -/
theorem Run.getElem?_lineage (run : Run history w) (grounded : Grounded history) (c : ClassRef)
    (j : Nat) : (w.lineage c)[j]? = w.parentAt j c := by
  fun_induction World.lineage w c generalizing j with
  | case1 c parent hparent hless ih =>
    cases j with
    | zero => rfl
    | succ j =>
      rw [List.getElem?_cons_succ, ih, World.parentAt, hparent, Option.bind_some]
  | case2 c parent hparent hless =>
    exact absurd (run.parent_handedOut grounded hparent).2 hless
  | case3 c hparent =>
    cases j with
    | zero => rfl
    | succ j =>
      rw [World.parentAt, hparent]
      rfl

theorem Run.isSubclassOf_iff (run : Run history w) (grounded : Grounded history)
    {c a : ClassRef} (hc : HandedOut history (.cls c)) (ha : HandedOut history (.cls a)) :
    w.isSubclassOf c a = true ↔ w.IsAncestor c a := by
  rw [World.isSubclassOf, List.any_eq_true]
  constructor
  · rintro ⟨b, hb, hindex⟩
    obtain ⟨j, hj⟩ := List.mem_iff_getElem?.mp hb
    rw [run.getElem?_lineage grounded] at hj
    have hsame : b = a :=
      run.cls_eq (run.handedOut_parentAt grounded hc hj) ha (beq_iff_eq.mp hindex)
    exact ⟨j, hsame ▸ hj⟩
  · rintro ⟨j, hj⟩
    rw [← run.getElem?_lineage grounded] at hj
    exact ⟨a, List.mem_of_getElem? hj, beq_self_eq_true _⟩

theorem Path.lineage_eq (path : Path w events w') (run : Run history w)
    (grounded : Grounded history) {c : ClassRef} (hc : HandedOut history (.cls c)) :
    w'.lineage c = w.lineage c := by
  have hparent' := path.parent_eq (run.stores hc)
  fun_induction World.lineage w c with
  | case1 c parent hparent hless ih =>
    have hhanded := (run.parent_handedOut grounded hparent).1
    rw [World.lineage, hparent', hparent]
    simp only [if_pos hless]
    rw [ih hhanded (path.parent_eq (run.stores hhanded))]
  | case2 c parent hparent hless =>
    rw [World.lineage, hparent', hparent]
    simp only [if_neg hless]
  | case3 c hparent => rw [World.lineage, hparent', hparent]

/-! ## What an instance keeps -/

/-- What is handed out by an event under the place of an ancestor. -/
def Event.proxy? (i : InstanceRef) (place : Nat) : Event → Option SuperProxy
  | ancestorAsked j ancestor proxy =>
    if j.index = i.index ∧ ancestor.index = place then some proxy else none
  | _ => none

theorem Step.find?_proxies (h : Step w event w') (i : InstanceRef) (place : Nat) :
    Entries.find? place (w'.instanceState i).proxies =
      (Entries.find? place (w.instanceState i).proxies).or (event.proxy? i place) := by
  rw [h.instanceState_eq i]
  cases h with
  | @construct _ scope d j h =>
    rw [constructBare_eq] at h
    cases h
    rw [Event.onInstance]
    split
    · rename_i hindex
      rw [World.instanceState, hindex, Array.getElem?_size]
      rfl
    · exact Option.or_none.symm
  | @getSuper _ scope j ancestor proxy hj h =>
    rw [Event.onInstance, Event.proxy?]
    by_cases hindex : j.index = i.index
    · rw [if_pos hindex, Entries.find?_keep]
      by_cases hplace : ancestor.index = place
      · rw [if_pos hplace, if_pos ⟨hindex, hplace⟩, hplace]
        cases Entries.find? place (w.instanceState i).proxies <;> rfl
      · rw [if_neg hplace, if_neg fun hasked => hplace hasked.2, Option.or_none]
    · rw [if_neg hindex, if_neg fun hasked => hindex hasked.1, Option.or_none]
  | @set _ scope j name value hj h =>
    refine Eq.trans ?_ Option.or_none.symm
    rw [Event.onInstance]
    split <;> rfl
  | @bind _ scope j name appendsReceiver bound hj h =>
    refine Eq.trans ?_ Option.or_none.symm
    rw [Event.onInstance]
    split <;> rfl
  | declare _ | addMethod _ _ | addOperation _ _ | setShared _ _ | getOperation _ _
  | elsewhere _ _ _ => exact Option.or_none.symm

theorem Path.proxy_kept (path : Path w events w') {i : InstanceRef} {place : Nat}
    {proxy : SuperProxy} (h : Entries.find? place (w.instanceState i).proxies = some proxy) :
    Entries.find? place (w'.instanceState i).proxies = some proxy := by
  induction path with
  | refl => exact h
  | step _ hstep ih => rw [hstep.find?_proxies, ih, Option.some_or]

/-- What has been handed out is what is kept, from then on. -/
theorem Run.proxy_of_asked (run : Run history w) {i : InstanceRef} {a : ClassRef}
    {proxy : SuperProxy} (hasked : .ancestorAsked i a proxy ∈ history) :
    Entries.find? a.index (w.instanceState i).proxies = some proxy := by
  induction run with
  | refl => cases hasked
  | @step earlier event middle after path h ih =>
    rw [h.find?_proxies]
    rcases List.mem_cons.mp hasked with rfl | hasked
    · cases h with
      | getSuper hi h =>
        obtain ⟨-, ⟨-, hfind⟩ | ⟨hfind, -⟩⟩ := getSuper_done h
        · rw [hfind]
          rfl
        · rw [hfind]
          exact if_pos ⟨rfl, rfl⟩
    · rw [ih hasked]
      rfl

/-- What is kept was made for the first request under its place. -/
theorem Run.asked_of_proxy (run : Run history w) {i : InstanceRef} {place : Nat}
    {proxy : SuperProxy}
    (hkept : Entries.find? place (w.instanceState i).proxies = some proxy) :
    .ancestorAsked proxy.receiver proxy.cls proxy ∈ history ∧
      proxy.receiver.index = i.index ∧ proxy.cls.index = place := by
  induction run with
  | refl => cases hkept
  | @step earlier event middle after path h ih =>
    rw [h.find?_proxies] at hkept
    rcases Option.or_eq_some_iff.mp hkept with hkept | ⟨hnone, hasked⟩
    · obtain ⟨hmem, hplaces⟩ := ih hkept
      exact ⟨List.mem_cons_of_mem _ hmem, hplaces⟩
    · cases h with
      | @getSuper _ scope j ancestor asked hj h =>
        rw [Event.proxy?] at hasked
        split at hasked
        · rename_i hplaces
          cases hasked
          obtain ⟨-, ⟨-, hfind⟩ | ⟨-, rfl, -⟩⟩ := getSuper_done h
          · rw [World.instanceState_congr hplaces.1, hplaces.2, hnone] at hfind
            cases hfind
          · exact ⟨List.mem_cons_self, hplaces⟩
        · cases hasked
      | _ => cases hasked

/-- **A proxy is of the instance that was asked, and for the ancestor that it was asked for.** -/
theorem Run.proxy_eq (run : Run history w) (grounded : Grounded history) {i : InstanceRef}
    {a : ClassRef} {proxy : SuperProxy} (hasked : .ancestorAsked i a proxy ∈ history) :
    proxy.receiver = i ∧ proxy.cls = a := by
  obtain ⟨hmade, hreceiver, hcls⟩ := run.asked_of_proxy (run.proxy_of_asked hasked)
  have hi := grounded.handedOut hasked List.mem_cons_self
  have ha := grounded.handedOut hasked (List.mem_cons_of_mem _ (List.mem_singleton_self _))
  have hi' := grounded.handedOut hmade List.mem_cons_self
  have ha' := grounded.handedOut hmade (List.mem_cons_of_mem _ (List.mem_singleton_self _))
  exact ⟨run.inst_eq hi' hi hreceiver, run.cls_eq ha' ha hcls⟩

/-- An instance gives proxies for ancestors of its class only. -/
theorem Run.isAncestor_of_asked (run : Run history w) (grounded : Grounded history)
    {i : InstanceRef} {a : ClassRef} {proxy : SuperProxy}
    (hasked : .ancestorAsked i a proxy ∈ history) : w.IsAncestor i.cls a := by
  induction run with
  | refl => cases hasked
  | @step earlier event middle after path h ih =>
    cases grounded with
    | cons hrefers grounded =>
      have hpersists (hi : HandedOut earlier (.inst i)) :
          middle.IsAncestor i.cls a → after.IsAncestor i.cls a := by
        rintro ⟨j, hj⟩
        refine ⟨j, ?_⟩
        rw [(Path.refl.step h).parentAt_eq path grounded j (grounded.handedOut_cls hi)]
        exact hj
      rcases List.mem_cons.mp hasked with rfl | hasked
      · have hi := hrefers _ List.mem_cons_self
        have ha := hrefers _ (List.mem_cons_of_mem _ (List.mem_singleton_self _))
        cases h with
        | getSuper _ h =>
          have hsub := (getSuper_done h).1
          exact hpersists hi
            ((Run.isSubclassOf_iff path grounded (grounded.handedOut_cls hi) ha).mp hsub)
      · exact hpersists (grounded.handedOut hasked List.mem_cons_self) (ih grounded hasked)

/-! ## Requests -/

/-- A request for an ancestor is answered, and goes on with the run. -/
theorem Run.getSuper_ancestor (run : Run history w) (grounded : Grounded history)
    {i : InstanceRef} {a : ClassRef} (hi : HandedOut history (.inst i))
    (hancestor : w.IsAncestor i.cls a) (scope : Scope) :
    ∃ proxy after, i.getSuper a scope w = .done proxy after ∧
      Step w (.ancestorAsked i a proxy) after ∧
      Grounded (.ancestorAsked i a proxy :: history) := by
  have hcls := grounded.handedOut_cls hi
  have ha : HandedOut history (.cls a) := by
    obtain ⟨j, hj⟩ := hancestor
    exact run.handedOut_parentAt grounded hcls hj
  obtain ⟨proxy, after, hdone⟩ : ∃ proxy after, i.getSuper a scope w = .done proxy after := by
    rw [getSuper_eq, if_pos ((run.isSubclassOf_iff grounded hcls ha).mpr hancestor)]
    split
    · exact ⟨_, _, rfl⟩
    · exact ⟨_, _, rfl⟩
  refine ⟨proxy, after, hdone, .getSuper (run.stores hi) hdone, grounded.cons fun n hn => ?_⟩
  rcases List.mem_cons.mp hn with rfl | hn
  · exact hi
  · rw [List.mem_singleton.mp hn]
    exact ha

/-! ## Walks -/

/-- Goes from a proxy to the proxy of the parent a number of times. -/
def SuperProxy.climb : Nat → SuperProxy → Eval SuperProxy
  | 0, p => pure p
  | j + 1, p => p.getSuper >>= climb j

section Walks

variable (run : Run history w) (grounded : Grounded history) {i : InstanceRef} {a b : ClassRef}
  {p : SuperProxy} (hasked : .ancestorAsked i a p ∈ history)
include run grounded hasked

/-- One step of a walk is a request for the parent. -/
theorem Run.getSuper_parent (halive : w.Alive scope.held (.inst i))
    (hparent : (w.classState a).parent = some b) :
    ∃ q after, p.getSuper scope w = .done q after ∧ Step w (.ancestorAsked i b q) after ∧
      Grounded (.ancestorAsked i b q :: history) ∧ after.Alive scope.held (.inst i) := by
  obtain ⟨rfl, rfl⟩ := run.proxy_eq grounded hasked
  have hi := grounded.handedOut hasked List.mem_cons_self
  have hancestor := (run.isAncestor_of_asked grounded hasked).parent hparent
  obtain ⟨q, after, hdone, hstep, grounded'⟩ :=
    run.getSuper_ancestor grounded hi hancestor scope
  refine ⟨q, after, ?_, hstep, grounded', (hstep.sameHolders rfl).alive_iff.mpr halive⟩
  rw [p.getSuper_eq hparent, if_pos (World.isAlive_iff.mpr halive)]
  exact hdone

theorem Run.getSuper_top (hparent : (w.classState a).parent = none) (scope : Scope) :
    p.getSuper scope w = .failed (.noParent a.displayName) w := by
  obtain ⟨-, rfl⟩ := run.proxy_eq grounded hasked
  rw [SuperProxy.getSuper, Eval.bind_of_done (Eval.reads_apply _ scope w), hparent]
  rfl

/-- A walk goes as far as there are parents. -/
theorem Run.climb_done (halive : w.Alive scope.held (.inst i)) {j : Nat}
    (hb : w.parentAt j a = some b) :
    ∃ q events after, p.climb j scope w = .done q after ∧ Path w events after ∧
      Grounded (events ++ history) ∧ .ancestorAsked i b q ∈ events ++ history := by
  induction j generalizing w history a p with
  | zero =>
    cases hb
    exact ⟨p, [], w, rfl, .refl, grounded, hasked⟩
  | succ j ih =>
    obtain ⟨parent, hparent, hb⟩ := Option.bind_eq_some_iff.mp hb
    obtain ⟨q, middle, hdone, hstep, grounded', halive'⟩ :=
      run.getSuper_parent grounded hasked halive hparent
    have hhanded := (run.parent_handedOut grounded hparent).1
    rw [← (Path.refl.step hstep).parentAt_eq run grounded j hhanded] at hb
    obtain ⟨r, events, after, hclimb, path, grounded'', hmem⟩ :=
      ih (run.step hstep) grounded' List.mem_cons_self halive' hb
    refine ⟨r, events ++ [.ancestorAsked i parent q], after, ?_, ?_, ?_, ?_⟩
    · rw [SuperProxy.climb, Eval.bind_of_done hdone]
      exact hclimb
    · exact (Path.refl.step hstep).trans path
    · rw [List.append_assoc]
      exact grounded''
    · rw [List.append_assoc]
      exact hmem

/-- A walk that is longer than the chain fails at the top of the chain. -/
theorem Run.climb_failed (halive : w.Alive scope.held (.inst i)) {j : Nat}
    (hnone : w.parentAt j a = none) :
    ∃ k top after, k < j ∧ w.parentAt k a = some top ∧ (w.classState top).parent = none ∧
      p.climb j scope w = .failed (.noParent top.displayName) after := by
  induction j generalizing w history a p with
  | zero => cases hnone
  | succ j ih =>
    rw [SuperProxy.climb]
    cases hparent : (w.classState a).parent with
    | none =>
      refine ⟨0, a, w, Nat.succ_pos j, rfl, hparent, ?_⟩
      rw [Eval.bind_apply, run.getSuper_top grounded hasked hparent scope]
    | some parent =>
      rw [World.parentAt, hparent, Option.bind_some] at hnone
      obtain ⟨q, middle, hdone, hstep, grounded', halive'⟩ :=
        run.getSuper_parent grounded hasked halive hparent
      have hhanded := (run.parent_handedOut grounded hparent).1
      have hchain (k : Nat) : middle.parentAt k parent = w.parentAt k parent :=
        (Path.refl.step hstep).parentAt_eq run grounded k hhanded
      rw [← hchain] at hnone
      obtain ⟨k, top, after, hk, htop, hend, hclimb⟩ :=
        ih (run.step hstep) grounded' List.mem_cons_self halive' hnone
      rw [hchain] at htop
      refine ⟨k + 1, top, after, Nat.succ_lt_succ hk, ?_, ?_, ?_⟩
      · rw [World.parentAt, hparent, Option.bind_some, htop]
      · have htophanded := run.handedOut_parentAt grounded hhanded htop
        rwa [(Path.refl.step hstep).parent_eq (run.stores htophanded)] at hend
      · rw [Eval.bind_of_done hdone]
        exact hclimb

end Walks

/-- A proxy that was handed out is given again, from then on. -/
theorem Path.getSuper_again (path : Path w events w') (run : Run history w)
    (grounded : Grounded history) {i : InstanceRef} {a : ClassRef} {proxy : SuperProxy}
    (hasked : .ancestorAsked i a proxy ∈ history) (scope : Scope) :
    i.getSuper a scope w' = .done proxy w' := by
  have hcls := grounded.handedOut_cls (grounded.handedOut hasked List.mem_cons_self)
  have ha := grounded.handedOut hasked (List.mem_cons_of_mem _ (List.mem_singleton_self _))
  have hsub := (run.isSubclassOf_iff grounded hcls ha).mpr (run.isAncestor_of_asked grounded hasked)
  have hsub' : w'.isSubclassOf i.cls a = true := by
    rw [World.isSubclassOf, path.lineage_eq run grounded hcls]
    exact hsub
  rw [getSuper_eq, if_pos hsub', path.proxy_kept (run.proxy_of_asked hasked)]

/-- **Walks up the chain of ancestors.** At any moment of a run, an instance gives a proxy for
its class and for each class that a row of parents leads to from there, a proxy of this instance
and for exactly this class, and refuses every other class. From a proxy that it has given, and
while it is alive, a walk of any length gives the proxy for the class that as many parents lead
to, the same one that the instance gives for this class itself, whether it was asked before the
walk or is asked at any time after it. A walk that is longer than the chain fails for want of a
parent, at the class where the chain ends. -/
theorem super_walks (run : Run history w) (grounded : Grounded history) {i : InstanceRef}
    (hi : HandedOut history (.inst i)) {a : ClassRef} (ha : HandedOut history (.cls a)) :
    (∀ scope, (w.IsAncestor i.cls a → ∃ p after, i.getSuper a scope w = .done p after ∧
        p.receiver = i ∧ p.cls = a) ∧
      (¬w.IsAncestor i.cls a → i.getSuper a scope w =
        .failed (.notAnAncestor i.cls.displayName a.displayName) w)) ∧
    ∀ p, .ancestorAsked i a p ∈ history → ∀ scope, w.Alive scope.held (.inst i) → ∀ j,
      (∀ b, w.parentAt j a = some b → ∃ q after, p.climb j scope w = .done q after ∧
        q.receiver = i ∧ q.cls = b ∧ (∀ q', .ancestorAsked i b q' ∈ history → q' = q) ∧
        ∀ {events : List Event} {later : World}, Path after events later →
          ∀ scope', i.getSuper b scope' later = .done q later) ∧
      (w.parentAt j a = none → ∃ k top after, k < j ∧ w.parentAt k a = some top ∧
        (w.classState top).parent = none ∧
        p.climb j scope w = .failed (.noParent top.displayName) after) := by
  refine ⟨fun scope => ⟨fun hancestor => ?_, fun hother => ?_⟩,
    fun p hasked scope halive j => ⟨fun b hb => ?_, run.climb_failed grounded hasked halive⟩⟩
  · obtain ⟨p, after, hdone, hstep, grounded'⟩ :=
      run.getSuper_ancestor grounded hi hancestor scope
    exact ⟨p, after, hdone, Run.proxy_eq (run.step hstep) grounded' List.mem_cons_self⟩
  · rw [← run.isSubclassOf_iff grounded (grounded.handedOut_cls hi) ha] at hother
    rw [getSuper_eq, if_neg hother]
  · obtain ⟨q, events, after, hclimb, path, grounded', hmem⟩ :=
      run.climb_done grounded hasked halive hb
    have run' := run.trans path
    obtain ⟨hreceiver, hcls⟩ := Run.proxy_eq run' grounded' hmem
    refine ⟨q, after, hclimb, hreceiver, hcls, fun q' hasked' => ?_,
      fun path' scope' => path'.getSuper_again run' grounded' hmem scope'⟩
    have hkept := path.proxy_kept (run.proxy_of_asked hasked')
    exact Option.some.inj (hkept.symm.trans (Run.proxy_of_asked run' hmem))

/-! ## A chain of three classes -/

namespace ThreeClasses

def top : ClassRef := ⟨0, none⟩

def middle : ClassRef := ⟨1, none⟩

def bottom : ClassRef := ⟨2, none⟩

/-- The instance is one of the last class down. -/
def lowest : InstanceRef := ⟨0, bottom⟩

def chain : List Event :=
  [.constructed lowest, .declared bottom { parent := some middle } 0,
    .declared middle { parent := some top } 0, .declared top {} 0]

def stage (classes : List ClassState) (instances : List InstanceState) : World :=
  { classes := classes.toArray, instances := instances.toArray }

/-- The world in which the chain has been declared. -/
def built : World := stage [{}, { parent := some top }, { parent := some middle }] [{}]

theorem run : Run chain built := by
  have htop : declareClass {} { recording := false } {} = .done top (stage [{}] []) := rfl
  have hmiddle : declareClass { parent := some top } { recording := false } (stage [{}] []) =
    .done middle (stage [{}, { parent := some top }] []) := rfl
  have hbottom : declareClass { parent := some middle } { recording := false }
      (stage [{}, { parent := some top }] []) =
    .done bottom (stage [{}, { parent := some top }, { parent := some middle }] []) := rfl
  have hconstruct : bottom.constructBare {}
      (stage [{}, { parent := some top }, { parent := some middle }] []) =
    .done lowest built := rfl
  exact (((Path.refl.step (.declare htop)).step (.declare hmiddle)).step (.declare hbottom)).step
    (.construct hconstruct)

theorem handedOut_lowest : HandedOut chain (.inst lowest) := ⟨_, List.mem_cons_self, rfl⟩

theorem grounded : Grounded chain := by
  refine .cons (fun n hn => ?_) (.cons (fun n hn => ?_) (.cons (fun n hn => ?_)
    (.cons (fun n hn => ?_) .nil)))
  · rw [List.mem_singleton.mp hn]
    exact ⟨_, List.mem_cons_self, rfl⟩
  · rw [List.mem_singleton.mp hn]
    exact ⟨_, List.mem_cons_self, rfl⟩
  · rw [List.mem_singleton.mp hn]
    exact ⟨_, List.mem_cons_self, rfl⟩
  · cases hn

end ThreeClasses

open ThreeClasses in
/-- From the proxy for the class in the middle, one step leads to the proxy for the class at
the top, and two steps are too many. -/
theorem super_walks_three :
    ∃ p w, Run (.ancestorAsked lowest middle p :: chain) w ∧ p.cls = middle ∧
      (∃ q after, p.climb 1 (({} : Scope).holding (.values [.inst lowest])) w = .done q after ∧
        q.receiver = lowest ∧ q.cls = top) ∧
      ∃ after, p.climb 2 (({} : Scope).holding (.values [.inst lowest])) w =
        .failed (.noParent top.displayName) after := by
  have hancestor : built.IsAncestor lowest.cls middle := ⟨1, rfl⟩
  obtain ⟨p, w, -, hstep, grounded'⟩ :=
    run.getSuper_ancestor grounded handedOut_lowest hancestor {}
  have run' : Run (.ancestorAsked lowest middle p :: chain) w := run.step hstep
  have hmiddle : HandedOut chain (.cls middle) :=
    run.handedOut_parentAt grounded (grounded.handedOut_cls handedOut_lowest) (j := 1) rfl
  have hchain (j : Nat) : w.parentAt j middle = built.parentAt j middle :=
    (Path.refl.step hstep).parentAt_eq run grounded j hmiddle
  obtain ⟨-, hwalks⟩ :=
    super_walks run' grounded' (handedOut_lowest.append [_]) (hmiddle.append [_])
  have halive : w.Alive [.values [.inst lowest]] (.inst lowest) :=
    .rooted (.computation List.mem_cons_self (.value List.mem_cons_self (.inst _)))
  have hwalk := hwalks p List.mem_cons_self (({} : Scope).holding (.values [.inst lowest])) halive
  obtain ⟨q, after, hdone, hreceiver, hcls, -⟩ := (hwalk 1).1 top (hchain 1)
  obtain ⟨k, last, after', hk, hlast, hend, hfailed⟩ := (hwalk 2).2 (hchain 2)
  have htop : last = top := by
    match k, hk with
    | 0, _ =>
      cases hlast
      rw [← World.parentAt_one, hchain] at hend
      cases hend
    | 1, _ => exact Option.some.inj (hlast.symm.trans (hchain 1))
  subst htop
  exact ⟨p, w, run', (Run.proxy_eq run' grounded' List.mem_cons_self).2,
    ⟨q, after, hdone, hreceiver, hcls⟩, after', hfailed⟩

end DynamicObjects
