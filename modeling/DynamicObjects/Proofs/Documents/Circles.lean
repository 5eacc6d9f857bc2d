import DynamicObjects.Proofs.Documents.Erasure
import DynamicObjects.Proofs.Runs.Sessions

/-!
# Documents and circles

A document is written part by part, and the parts of data come to an end. But the parts of an
instance are what its properties are at the time, so an instance that is stored among its own
properties, or among those of an instance that it leads to, is written for ever. This is the only
way: writing a value ends exactly when no instance that is met on the way comes back to itself.

Storing what leads to an instance into the instance closes a circle, and nothing else that a
session does closes one. So all documents end until a property is set in this way.

* `World.Ends`, `World.ends_iff`: when writing ends.
* `World.ends_iff_document`: the depth to which instances are followed is no restriction.
* `Event.ClosesCircle`, `Step.ends_iff`: the steps after which writing may not end.
* `documents_end`: all of this, for worlds, steps, runs and sessions.
-/

namespace DynamicObjects

open Script

variable {w w' : World} {v : Value} {i j k : InstanceRef} {event : Event}
  {history : List Event} {s : Set Node}

/-! ## Going on for ever -/

namespace World

/-- What is written next in the course of writing a value down. The part stands before the whole,
so that `Acc` goes from wholes to parts. -/
inductive PartOf (w : World) : Value → Value → Prop
  | item {items : List Value} {v : Value} (h : v ∈ items) : PartOf w v (.array items)
  | element {items : TypedArray} {v : Value} (h : v ∈ items.values) : PartOf w v (.typed items)
  | entry {entries : List (String × Value)} {entry : String × Value} (h : entry ∈ entries) :
    PartOf w entry.2 (.map entries)
  | property {i : InstanceRef} {entry : String × Value} (h : entry ∈ w.properties i) :
    PartOf w entry.2 (.inst i)

/-- Writing a value down comes to its end: no part has a part, and so on, for ever. -/
def Ends (w : World) (v : Value) : Prop := Acc w.PartOf v

/-- An instance is met in the course of writing a value down. -/
def Meets (w : World) (v : Value) (i : InstanceRef) : Prop :=
  ∃ j, v.Shows j ∧ Relation.ReflTransGen w.LeadsTo j i

/-- An instance comes back to itself through properties. -/
def Circular (w : World) (i : InstanceRef) : Prop := Relation.TransGen w.LeadsTo i i

end World

namespace Event

/-- The instance that an event puts properties into, and what it puts there. -/
def stores (w : World) : Event → Option (InstanceRef × Value)
  | constructed i => some (i, .map (w.classState i.cls).properties.all)
  | propertySet i _ value => some (i, value)
  | _ => none

/-- An instance is met in what an event puts into properties. -/
def Brings (w : World) (event : Event) (j : InstanceRef) : Prop :=
  ∃ i v, event.stores w = some (i, v) ∧ w.Meets v j

/-- What is put into the properties of an instance leads to the instance. -/
def ClosesCircle (w : World) (event : Event) : Prop :=
  ∃ i v j, event.stores w = some (i, v) ∧ w.Meets v j ∧ j.index = i.index

end Event

/-! ## Parts -/

namespace Value

variable {expand expand' : InstanceRef → Option Json}

/-- Induction over the parts of data. An instance is a part without parts here. -/
@[elab_as_elim]
theorem data_induction {P : Value → Prop} (array : ∀ items, (∀ v ∈ items, P v) → P (.array items))
    (map : ∀ entries : List (String × Value), (∀ entry ∈ entries, P entry.2) → P (.map entries))
    (leaf : ∀ v, (∀ items, v ≠ .array items) → (∀ entries, v ≠ .map entries) → P v) :
    (v : Value) → P v
  | .array items => array items fun v hv =>
    have := List.sizeOf_lt_of_mem hv
    data_induction array map leaf v
  | .map entries => map entries fun entry hentry =>
    have := sizeOf_lt_of_pair_mem hentry
    data_induction array map leaf entry.2
  | .undefined | .none | .iterable .. | .foreign _ | .function _ | .cls _ | .boolean _
  | .integer _ | .float _ | .string _ | .typed _ | .inst _ => leaf _ nofun nofun

@[simp] theorem shows_array {items : List Value} :
    (array items).Shows i ↔ ∃ v ∈ items, v.Shows i :=
  ⟨fun | .item hv h => ⟨_, hv, h⟩, fun ⟨_, hv, h⟩ => .item hv h⟩

@[simp] theorem shows_map {entries : List (String × Value)} :
    (map entries).Shows i ↔ ∃ entry ∈ entries, entry.2.Shows i :=
  ⟨fun | .entry hentry h => ⟨_, hentry, h⟩, fun ⟨_, hentry, h⟩ => .entry hentry h⟩

@[simp] theorem shows_inst : (inst j).Shows i ↔ i = j :=
  ⟨fun | .inst _ => rfl, fun h => h ▸ .inst i⟩

theorem isSome_toJsonItems? {items : List Value} :
    (toJsonItems? expand items).isSome ↔ ∀ v ∈ items, (v.toJson? expand).isSome := by
  induction items with
  | nil => simp [toJsonItems?]
  | cons v rest ih =>
    rw [List.forall_mem_cons, ← ih, toJsonItems?]
    cases v.toJson? expand <;> cases toJsonItems? expand rest <;> simp

theorem isSome_toJsonEntries? {entries : List (String × Value)} :
    (toJsonEntries? expand entries).isSome ↔
      ∀ entry ∈ entries, (entry.2.toJson? expand).isSome := by
  induction entries with
  | nil => simp [toJsonEntries?]
  | cons entry rest ih =>
    obtain ⟨key, v⟩ := entry
    rw [List.forall_mem_cons, ← ih, toJsonEntries?]
    cases v.toJson? expand <;> cases toJsonEntries? expand rest <;> simp

/-- A value has a document when the instances that it shows have one. -/
theorem isSome_toJson? (v : Value) :
    (v.toJson? expand).isSome ↔ ∀ i, v.Shows i → (expand i).isSome := by
  induction v using data_induction with
  | array items ih =>
    rw [toJson?, Option.isSome_map, isSome_toJsonItems?]
    constructor
    · intro h i hi
      obtain ⟨v, hv, hi⟩ := shows_array.mp hi
      exact (ih v hv).mp (h v hv) i hi
    · intro h v hv
      exact (ih v hv).mpr fun i hi => h i (.item hv hi)
  | map entries ih =>
    rw [toJson?, Option.isSome_map, isSome_toJsonEntries?]
    constructor
    · intro h i hi
      obtain ⟨entry, hentry, hi⟩ := shows_map.mp hi
      exact (ih entry hentry).mp (h entry hentry) i hi
    · intro h entry hentry
      exact (ih entry hentry).mpr fun i hi => h i (.entry hentry hi)
  | leaf v harray hmap =>
    cases v with
    | array items => exact absurd rfl (harray items)
    | map entries => exact absurd rfl (hmap entries)
    | inst i => simp [toJson?]
    | _ =>
      refine ⟨fun _ i hi => ?_, fun _ => rfl⟩
      cases hi

theorem toJsonItems?_congr {items : List Value}
    (h : ∀ v ∈ items, v.toJson? expand = v.toJson? expand') :
    toJsonItems? expand items = toJsonItems? expand' items := by
  induction items with
  | nil => rfl
  | cons v rest ih =>
    obtain ⟨hv, hrest⟩ := List.forall_mem_cons.mp h
    rw [toJsonItems?, toJsonItems?, hv, ih hrest]

theorem toJsonEntries?_congr {entries : List (String × Value)}
    (h : ∀ entry ∈ entries, entry.2.toJson? expand = entry.2.toJson? expand') :
    toJsonEntries? expand entries = toJsonEntries? expand' entries := by
  induction entries with
  | nil => rfl
  | cons entry rest ih =>
    obtain ⟨hentry, hrest⟩ := List.forall_mem_cons.mp h
    rw [toJsonEntries?, toJsonEntries?, hentry, ih hrest]

/-- The document of a value depends on the instances that it shows only. -/
theorem toJson?_congr (v : Value) (h : ∀ i, v.Shows i → expand i = expand' i) :
    v.toJson? expand = v.toJson? expand' := by
  induction v using data_induction with
  | array items ih =>
    rw [toJson?, toJson?, toJsonItems?_congr fun v hv => ih v hv fun i hi => h i (.item hv hi)]
  | map entries ih =>
    rw [toJson?, toJson?, toJsonEntries?_congr fun entry hentry =>
      ih entry hentry fun i hi => h i (.entry hentry hi)]
  | leaf v harray hmap =>
    cases v with
    | array items => exact absurd rfl (harray items)
    | map entries => exact absurd rfl (hmap entries)
    | inst i => exact h i (.inst i)
    | _ => rfl

end Value

/-! ## Chains and ends -/

namespace World

theorem leadsTo_iff : w.LeadsTo i j ↔ ∃ entry ∈ w.properties i, entry.2.Shows j := Value.shows_map

/-- An instance has a document, followed so deep, when no chain from it is longer. -/
theorem isSome_instanceDocument? {depth : Nat} :
    (w.instanceDocument? depth i).isSome ↔ ¬ w.Chain depth i := by
  induction depth generalizing i with
  | zero => exact ⟨fun h => (nomatch h), fun h => absurd trivial h⟩
  | succ depth ih =>
    have hparts : (w.instanceDocument? (depth + 1) i).isSome ↔
        ∀ j, w.LeadsTo i j → (w.instanceDocument? depth j).isSome :=
      Value.isSome_toJson? (.map (w.properties i))
    rw [hparts]
    exact ⟨fun h ⟨j, hij, hchain⟩ => ih.mp (h j hij) hchain,
      fun h j hij => ih.mpr fun hchain => h ⟨j, hij, hchain⟩⟩

/-- Once all chains have come to their end, there is nothing further to follow. -/
theorem instanceDocument?_add {depth : Nat} (h : ¬ w.Chain depth i) (more : Nat) :
    w.instanceDocument? (depth + more) i = w.instanceDocument? depth i := by
  induction depth generalizing i with
  | zero => exact absurd trivial h
  | succ depth ih =>
    rw [Nat.add_right_comm]
    refine Value.toJson?_congr (.map (w.properties i)) fun j hij => ?_
    exact ih fun hchain => h ⟨j, hij, hchain⟩

/-- Writing a value down ends when writing the instances that it shows does. -/
theorem ends_of_shows (v : Value) (h : ∀ i, v.Shows i → w.Ends (.inst i)) : w.Ends v := by
  induction v using Value.data_induction with
  | array items ih =>
    refine ⟨_, fun u hu => ?_⟩
    cases hu with
    | item hu => exact ih u hu fun i hi => h i (.item hu hi)
  | map entries ih =>
    refine ⟨_, fun u hu => ?_⟩
    cases hu with
    | entry hentry => exact ih _ hentry fun i hi => h i (.entry hentry hi)
  | leaf v harray hmap =>
    cases v with
    | array items => exact absurd rfl (harray items)
    | map entries => exact absurd rfl (hmap entries)
    | inst i => exact h i (.inst i)
    | typed items =>
      refine ⟨_, fun u hu => ⟨_, fun part hpart => ?_⟩⟩
      cases hu with
      | element hu => cases items <;> obtain ⟨_, -, rfl⟩ := List.mem_map.mp hu <;> cases hpart
    | _ => exact ⟨_, fun _ hu => nomatch hu⟩

/-- Writing an instance down ends when chains from it do. -/
theorem ends_of_not_chain {depth : Nat} (h : ¬ w.Chain depth i) : w.Ends (.inst i) := by
  induction depth generalizing i with
  | zero => exact absurd trivial h
  | succ depth ih =>
    refine ⟨_, fun u hu => ?_⟩
    cases hu with
    | @property _ entry hentry =>
      exact ends_of_shows entry.2 fun j hj => ih fun hchain => h ⟨j, .entry hentry hj, hchain⟩

/-- When writing a value down ends, no chain of instances from it goes on for ever. -/
theorem Ends.acc (h : w.Ends v) (hv : v.Shows i) : Acc (fun k j => w.LeadsTo j k) i := by
  induction h generalizing i with
  | intro v _ ih =>
    cases hv with
    | inst i =>
      refine ⟨_, fun j hij => ?_⟩
      obtain ⟨entry, hentry, hj⟩ := leadsTo_iff.mp hij
      exact ih entry.2 (.property hentry) hj
    | item hmem hi => exact ih _ (.item hmem) hi
    | entry hentry hi => exact ih _ (.entry hentry) hi

/-- When writing a value down ends, no instance that is met comes back to itself. -/
theorem Ends.not_circular (h : w.Ends v) (hv : w.Meets v i) : ¬ w.Circular i := by
  obtain ⟨j, hj, hji⟩ := hv
  have hacc : Acc (fun k j => w.LeadsTo j k) i := by
    induction hji with
    | refl => exact h.acc hj
    | tail _ hik ih => exact ih.inv hik
  have hpaths := hacc.transGen
  clear hacc hji
  intro hcircle
  induction hpaths with
  | intro i _ ih => exact ih i (Relation.transGen_swap.mpr hcircle) hcircle

/-- **When writing ends.** Writing a value down ends exactly when no instance that is met on the
way comes back to itself. -/
theorem ends_iff : w.Ends v ↔ ∀ i, w.Meets v i → ¬ w.Circular i := by
  refine ⟨fun h i hi => h.not_circular hi, fun h => ends_of_shows v fun i hi => ?_⟩
  have hshort : ¬ w.Chain (w.instances.size + 1) i := not_chain fun j hij => h j ⟨i, hi, hij⟩
  exact ends_of_not_chain hshort

theorem ends_iff_not_chain :
    w.Ends v ↔ ∀ i, v.Shows i → ¬ w.Chain (w.instances.size + 1) i :=
  ⟨fun h i hi => not_chain fun _ hij => h.not_circular ⟨i, hi, hij⟩,
    fun h => ends_of_shows v fun i hi => ends_of_not_chain (h i hi)⟩

/-- Writing a value down ends exactly when the value has a document. -/
theorem ends_iff_document : w.Ends v ↔ ∃ j, w.document? v = some j := by
  rw [ends_iff_not_chain, ← Option.isSome_iff_exists, document?, Value.isSome_toJson?]
  simp only [isSome_instanceDocument?]

/-- It is the same document, however deep instances are followed. -/
theorem document?_eq_some_iff {document : Json} : w.document? v = some document ↔
    ∃ depth, v.toJson? (w.instanceDocument? depth) = some document := by
  refine ⟨fun h => ⟨_, h⟩, fun ⟨depth, h⟩ => ?_⟩
  have hshort (i : InstanceRef) (hi : v.Shows i) : ¬ w.Chain depth i :=
    isSome_instanceDocument?.mp ((Value.isSome_toJson? v).mp (h ▸ rfl) i hi)
  have hends : w.Ends v := ends_of_shows v fun i hi => ends_of_not_chain (hshort i hi)
  rw [← h, document?]
  refine Value.toJson?_congr v fun i hi => ?_
  rw [← instanceDocument?_add (ends_iff_not_chain.mp hends i hi) depth,
    ← instanceDocument?_add (hshort i hi) (w.instances.size + 1), Nat.add_comm]

/-- All documents end when no instance comes back to itself. -/
theorem forall_ends_iff : (∀ v, w.Ends v) ↔ ∀ i, ¬ w.Circular i :=
  ⟨fun h i => (h (.inst i)).not_circular ⟨i, .inst i, .refl⟩,
    fun h _ => ends_iff.mpr fun i _ => h i⟩

end World

/-! ## Closing a circle -/

theorem World.Meets.of_shows (h : v.Shows i) : w.Meets v i := ⟨i, h, .refl⟩

theorem World.Meets.trans (h : w.Meets v i) (hij : Relation.ReflTransGen w.LeadsTo i j) :
    w.Meets v j := by
  obtain ⟨k, hk, hki⟩ := h
  exact ⟨k, hk, hki.trans hij⟩

theorem Event.Brings.trans (h : event.Brings w i) (hij : Relation.ReflTransGen w.LeadsTo i j) :
    event.Brings w j := by
  obtain ⟨k, v, hstores, hmeets⟩ := h
  exact ⟨k, v, hstores, hmeets.trans hij⟩

namespace Step

/-- After a step an instance leads where it led before, or to what the step has put there. -/
theorem leadsTo_or (h : Step w event w') (hjk : w'.LeadsTo j k) :
    w.LeadsTo j k ∨ ∃ i v, event.stores w = some (i, v) ∧ j.index = i.index ∧ v.Shows k := by
  obtain ⟨entry, hentry, hk⟩ := World.leadsTo_iff.mp hjk
  have hbefore (h : entry ∈ w.properties j) : w.LeadsTo j k :=
    World.leadsTo_iff.mpr ⟨entry, h, hk⟩
  rw [World.properties, h.instanceState_eq] at hentry
  cases event with
  | constructed i =>
    rw [Event.onInstance] at hentry
    split at hentry
    · rename_i hindex
      exact .inr ⟨i, _, rfl, hindex, .entry hentry hk⟩
    · exact .inl (hbefore hentry)
  | propertySet i name value =>
    rw [Event.onInstance] at hentry
    split at hentry
    · rename_i hindex
      rcases Entries.mem_insert hentry with rfl | hentry
      · exact .inr ⟨i, value, rfl, hindex.symm, hk⟩
      · exact .inl (hbefore hentry)
    · exact .inl (hbefore hentry)
  | memberAsked | ancestorAsked =>
    rw [Event.onInstance] at hentry
    split at hentry <;> exact .inl (hbefore hentry)
  | _ => exact .inl (hbefore hentry)

/-- What a step has put into the properties of an instance, the instance leads to. -/
theorem leadsTo_stored (h : Step w event w') (hstores : event.stores w = some (i, v))
    (hk : v.Shows k) : w'.LeadsTo i k := by
  rw [World.leadsTo_iff, World.properties, h.instanceState_eq]
  cases event with
  | constructed j =>
    cases hstores
    rw [Event.onInstance, if_pos rfl]
    exact Value.shows_map.mp hk
  | propertySet j name value =>
    cases hstores
    rw [Event.onInstance, if_pos rfl]
    have hfind := Entries.find?_insert_self name v (w.instanceState i).properties
    exact ⟨(name, v), Entries.mem_of_find?_eq_some hfind, hk⟩
  | _ => cases hstores

/-- In all other places nothing changes. -/
theorem leadsTo_of_ne (h : Step w event w') (hstores : event.stores w = some (i, v))
    (hj : j.index ≠ i.index) (hjk : w.LeadsTo j k) : w'.LeadsTo j k := by
  rw [World.leadsTo_iff, World.properties, h.instanceState_eq]
  cases event with
  | constructed l =>
    cases hstores
    rw [Event.onInstance, if_neg hj]
    exact World.leadsTo_iff.mp hjk
  | propertySet l name value =>
    cases hstores
    rw [Event.onInstance, if_neg (Ne.symm hj)]
    exact World.leadsTo_iff.mp hjk
  | _ => cases hstores

/-- A way to the place where a step puts something is still there after the step, up to the first
time that it comes by. -/
theorem exists_path (h : Step w event w') (hstores : event.stores w = some (i, v))
    (hjk : Relation.ReflTransGen w.LeadsTo j k) (hk : k.index = i.index) :
    ∃ l, Relation.ReflTransGen w'.LeadsTo j l ∧ l.index = i.index := by
  induction hjk using Relation.ReflTransGen.head_induction_on with
  | refl => exact ⟨k, .refl, hk⟩
  | @head j m hjm _ ih =>
    by_cases hj : j.index = i.index
    · exact ⟨j, .refl, hj⟩
    · obtain ⟨l, hml, hl⟩ := ih
      exact ⟨l, .head (h.leadsTo_of_ne hstores hj hjm) hml, hl⟩

theorem exists_circular (h : Step w event w') (hcloses : event.ClosesCircle w) :
    ∃ i, w'.Circular i := by
  obtain ⟨i, v, k, hstores, ⟨j, hj, hjk⟩, hk⟩ := hcloses
  obtain ⟨l, hjl, hl⟩ := h.exists_path hstores hjk hk
  exact ⟨l, .head' ((h.leadsTo_stored hstores hj).of_index hl) hjl⟩

section Open

variable (h : Step w event w') (hopen : ¬ event.ClosesCircle w)
include h hopen

/-- From what a step brings, all ways are as they were. -/
theorem leadsTo_of_brings (hj : event.Brings w j) (hjk : w'.LeadsTo j k) : w.LeadsTo j k := by
  obtain ⟨i, v, hstores, hmeets⟩ := hj
  rcases h.leadsTo_or hjk with hjk | ⟨i', v', hstores', hindex, -⟩
  · exact hjk
  · cases hstores.symm.trans hstores'
    exact absurd ⟨i, v, j, hstores, hmeets, hindex⟩ hopen

theorem path_of_brings (hj : event.Brings w j) (hjk : Relation.TransGen w'.LeadsTo j k) :
    Relation.TransGen w.LeadsTo j k := by
  induction hjk with
  | single hjk => exact .single (h.leadsTo_of_brings hopen hj hjk)
  | tail _ hkl ih =>
    have hk := hj.trans ih.to_reflTransGen
    exact ih.tail (h.leadsTo_of_brings hopen hk hkl)

omit hopen in
/-- A way that was not there before comes by what the step brings. -/
theorem path_or_brings (hjk : Relation.TransGen w'.LeadsTo j k) :
    Relation.TransGen w.LeadsTo j k ∨ event.Brings w k := by
  induction hjk with
  | single hjk =>
    rcases h.leadsTo_or hjk with hjk | ⟨i, v, hstores, -, hk⟩
    · exact .inl (.single hjk)
    · exact .inr ⟨i, v, hstores, .of_shows hk⟩
  | tail _ hkl ih =>
    rcases h.leadsTo_or hkl with hkl | ⟨i, v, hstores, -, hl⟩
    · exact ih.imp (·.tail hkl) (·.trans (.single hkl))
    · exact .inr ⟨i, v, hstores, .of_shows hl⟩

/-- Without a step that closes one there is no circle: a way around that was not there before comes
by what the step brings, and from there it goes the old ways. -/
theorem not_circular (hcircles : ∀ i, ¬ w.Circular i) : ¬ w'.Circular k := by
  intro hcircle
  rcases h.path_or_brings hcircle with hbefore | hbrings
  · exact hcircles k hbefore
  · exact hcircles k (h.path_of_brings hopen hbrings hcircle)

end Open

/-- **Which steps keep the documents.** Where all documents end, they do so after a step exactly
when the step closes no circle. -/
theorem ends_iff (h : Step w event w') (hends : ∀ v, w.Ends v) :
    (∀ v, w'.Ends v) ↔ ¬ event.ClosesCircle w := by
  rw [World.forall_ends_iff] at hends ⊢
  refine ⟨fun hcircles hcloses => ?_, fun hopen _ => h.not_circular hopen hends⟩
  obtain ⟨i, hcircle⟩ := h.exists_circular hcloses
  exact hcircles i hcircle

end Step

/-! ## Along a run -/

theorem Known.of_shows (h : Known s v) (hv : v.Shows i) : .inst i ∈ s := by
  induction hv with
  | inst i => exact (known_inst_iff.mp (known_inst.mp h)).1
  | item hv _ ih => exact ih (known_list.mp (known_array_value.mp h) _ hv)
  | entry hentry _ ih =>
    exact ih (known_pair.mp (known_list.mp (known_map.mp h) _ hentry)).2

/-- From what is known only known instances are met. -/
theorem Known.of_meets (hw : Known s w) (h : Known s v) (hv : w.Meets v i) : .inst i ∈ s := by
  obtain ⟨j, hj, hji⟩ := hv
  induction hji with
  | refl => exact h.of_shows hj
  | tail _ hleads _ => exact (known_map.mpr (hw.properties _)).of_shows hleads

namespace Trail

theorem known (trail : Trail [] {} history w) : Known (handedOut history) w := by
  have hknown := trail.backs.known
  rwa [List.append_nil] at hknown

/-- A new instance is not met: nothing that is known leads to it. -/
theorem not_closesCircle_constructed (trail : Trail [] {} history w)
    (h : Step w (.constructed i) w') : ¬ (Event.constructed i).ClosesCircle w := by
  rintro ⟨_, _, k, hstores, hmeets, hindex⟩
  cases hstores
  have hdefaults := (known_classState.mp (trail.known.classState i.cls)).2.1.all
  have hk : HandedOut history (.inst k) :=
    trail.known.of_meets (known_map.mpr hdefaults) hmeets
  have hstored : w.Stores (.inst k) := trail.run.stores hk
  have hsame : (Node.inst k).SamePlace (.inst i) := hindex
  exact (h.place_of_makes rfl).1 ((World.stores_congr hsame).mp hstored)

/-- A property that closes a circle is set to a value from which the instance itself is met. -/
theorem meets_of_closesCircle (trail : Trail [] {} history w) {name : String}
    (h : Step w (.propertySet i name v) w')
    (backs : Backs (.propertySet i name v :: history) w')
    (hcloses : (Event.propertySet i name v).ClosesCircle w) : w.Meets v i := by
  obtain ⟨_, _, k, hstores, hmeets, hindex⟩ := hcloses
  cases hstores
  let later := Event.propertySet i name v :: history
  have hi : HandedOut later (.inst i) := backs.grounded.handedOut List.mem_cons_self
    (List.mem_singleton_self _)
  have hk : HandedOut later (.inst k) := by
    obtain ⟨j, hj, hjk⟩ := hmeets
    have hw : Known (handedOut later) w := trail.known.mono (handedOut_append [_] history)
    have hproperties : Known (handedOut later) (Value.map (w'.properties i)) :=
      known_map.mpr (backs.known.properties i)
    exact hw.of_meets hproperties ⟨j, h.leadsTo_stored rfl hj, hjk⟩
  have run : Run later w' := trail.run.step h
  exact run.inst_eq hk hi hindex ▸ hmeets

/-- **A run without documents has closed a circle.** -/
theorem ends_or (trail : Trail [] {} history w) : (∀ v, w.Ends v) ∨
    ∃ later i name v earlier middle, history = later ++ .propertySet i name v :: earlier ∧
      Trail [] {} earlier middle ∧ middle.Meets v i := by
  induction trail with
  | refl =>
    refine .inl (World.forall_ends_iff.mpr fun i hcircle => ?_)
    obtain ⟨j, hij, -⟩ := Relation.TransGen.head'_iff.mp hcircle
    exact Nat.not_lt_zero _ hij.index_lt
  | @step events event middle after trail h backs ih =>
    rcases ih with hends | ⟨later, i, name, v, earlier, first, rfl, hfirst⟩
    · by_cases hcloses : event.ClosesCircle middle
      · have ⟨i, v, _, hstores, _⟩ := hcloses
        cases event with
        | constructed i => exact absurd hcloses (trail.not_closesCircle_constructed h)
        | propertySet i name v =>
          rw [List.append_nil] at backs
          exact .inr ⟨[], i, name, v, events, middle, rfl, trail,
            trail.meets_of_closesCircle h backs hcloses⟩
        | _ => cases hstores
      · exact .inl ((h.ends_iff hends).mpr hcloses)
    · exact .inr ⟨event :: later, i, name, v, earlier, first, rfl, hfirst⟩

end Trail

/-- **Documents end unless there are circles.** Writing a value down ends exactly when no instance
that is met on the way comes back to itself through properties, and exactly when the value has a
document, which is the same however deep instances are followed. Where all documents end, a step
keeps it so exactly when it puts nothing into an instance that leads to the instance. In a run
that makes no reference up, so in every session, all documents end, or some property was set to a
value from which the instance itself was met. -/
theorem documents_end :
    (∀ (w : World) (v : Value),
      (w.Ends v ↔ ∀ i, w.Meets v i → ¬ w.Circular i) ∧
      (w.Ends v ↔ ∃ document, w.document? v = some document) ∧
      ∀ document, w.document? v = some document ↔
        ∃ depth, v.toJson? (w.instanceDocument? depth) = some document) ∧
    (∀ (w : World) (event : Event) (w' : World), (∀ v, w.Ends v) → Step w event w' →
      ((∀ v, w'.Ends v) ↔ ¬ event.ClosesCircle w)) ∧
    (∀ (history : List Event) (w : World), Trail [] {} history w → (∀ v, w.Ends v) ∨
      ∃ later i name v earlier middle, history = later ++ .propertySet i name v :: earlier ∧
        Trail [] {} earlier middle ∧ middle.Meets v i) ∧
    ∀ script : List Expr, ∃ history, Trail [] {} history (Session.run {} script).1 :=
  ⟨fun _ _ => ⟨World.ends_iff, World.ends_iff_document, fun _ => World.document?_eq_some_iff⟩,
    fun _ _ _ hends h => h.ends_iff hends, fun _ _ trail => trail.ends_or, Session.exists_trail⟩

/-- A session that stores an instance among its own properties, then asks for its document. -/
def storingItself : List Expr := [
  .assign "C" (.declare .loose none ⟨some "C", none, none, [], [], [], []⟩),
  .assign "i" (.perform (.cls .construct) [.variable "C"]),
  .perform (.inst .set) [.variable "i", .string "self", .variable "i"],
  .perform (.value .toJson) [.variable "i"]]

/-- Where one instance is linked to another one all documents end. In a session that links an
instance to itself not all do, so a property was set that closed a circle. -/
theorem documents_end_linked :
    let first : InstanceRef := ⟨0, ⟨0, "Node"⟩⟩
    let second : InstanceRef := ⟨1, ⟨0, "Node"⟩⟩
    let w : World := { instances := #[{}, {}] }
    let linked : World :=
      { instances := #[{ properties := [("next", .array [.inst second])] }, {}] }
    let event : Event := .propertySet first "next" (.array [.inst second])
    ((∀ v, w.Ends v) ∧ Step w event linked ∧ ∀ v, linked.Ends v) ∧
    ∃ history, Trail [] {} history (Session.run {} storingItself).1 ∧
      ∃ later i name v earlier middle, history = later ++ .propertySet i name v :: earlier ∧
        Trail [] {} earlier middle ∧ middle.Meets v i := by
  intro first second w linked event
  obtain ⟨hworlds, hsteps, htrails, hsessions⟩ := documents_end
  constructor
  · have hleads (i j : InstanceRef) : ¬ w.LeadsTo i j := by
      have hproperties : w.properties i = [] := by rcases i with ⟨_ | _ | index, c⟩ <;> rfl
      rw [World.leadsTo_iff, hproperties]
      simp
    have hends (v : Value) : w.Ends v := (hworlds w v).1.mpr fun i _ hcircle => by
      obtain ⟨j, hij, -⟩ := Relation.TransGen.head'_iff.mp hcircle
      exact hleads i j hij
    have hset : first.set "next" (.array [.inst second]) {} w = .done () linked := rfl
    have hstep : Step w event linked := .set (by decide) hset
    have hopen : ¬ event.ClosesCircle w := by
      rintro ⟨_, _, k, hstores, ⟨j, hj, hjk⟩, hindex⟩
      cases hstores
      obtain rfl : j = second := by simpa using hj
      rcases hjk.cases_head with rfl | ⟨m, hm, -⟩
      · cases hindex
      · exact hleads _ m hm
    exact ⟨hends, hstep, (hsteps w event linked hends hstep).mpr hopen⟩
  · obtain ⟨history, trail⟩ := hsessions storingItself
    refine ⟨history, trail, (htrails history _ trail).resolve_left fun hends => ?_⟩
    obtain ⟨document, hdocument⟩ := (hworlds _ (.inst ⟨0, ⟨0, "C"⟩⟩)).2.1.mp (hends _)
    cases hdocument

/-- The instance that a session has stored among its own properties is written for ever, and the
session gets no answer. -/
theorem storingItself_never_ends :
    let w := (Session.run {} storingItself).1
    let itself : Value := .inst ⟨0, ⟨0, "C"⟩⟩
    Entries.find? "i" w.bindings = some (.value itself) ∧ ¬ w.Ends itself ∧
      ((Session.run {} storingItself).2.getLast?.map Report.ending) = some (.stuck .exhausted) := by
  intro w itself
  have hdocument : w.document? itself = none := rfl
  refine ⟨rfl, fun hends => ?_, rfl⟩
  obtain ⟨document, h⟩ := World.ends_iff_document.mp hends
  rw [hdocument] at h
  cases h

end DynamicObjects
