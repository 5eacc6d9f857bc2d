import DynamicObjects.Proofs.World.Holding
import DynamicObjects.Script.Operands
import Mathlib.Data.Set.Basic

/-!
# What is mentioned

A value mentions classes and instances: those that it holds, and the receivers of bound
methods, which it does not hold. So do handles, and the states of a world. Something is known
when all that it mentions is among some classes and instances, which are thought of as those
that have been handed out. There is one lemma for each way to take known things apart and to
put them together.

What a foreign table raises is left out: a script that catches it gets a text.

* `Mentions`, `Known`: what is mentioned, and that all of it is known.
-/

namespace DynamicObjects

open Script

/-! ## Mentioning -/

/-- What things of a type mention. -/
class Mentions (α : Type) where
  mentions : α → Node → Prop

/-- Things of other types mention nothing. -/
instance (priority := low) Mentions.nothing (α : Type) : Mentions α := ⟨fun _ _ => False⟩

open Mentions (mentions)

/-- All that is mentioned is among some classes and instances. -/
def Known {α : Type} [Mentions α] (s : Set Node) (a : α) : Prop := ∀ n, mentions a n → n ∈ s

variable {α β : Type} {s s' : Set Node}

theorem Known.mono [Mentions α] {a : α} (h : Known s a) (hs : s ⊆ s') : Known s' a :=
  fun n hn => hs (h n hn)

@[simp] theorem known_nothing (a : α) : @Known α (.nothing α) s a := fun _ h => h.elim

section Containers

variable [Mentions α] [Mentions β]

instance : Mentions (Option α) := ⟨fun a? n => ∃ a ∈ a?, mentions a n⟩

instance : Mentions (List α) := ⟨fun items n => ∃ a ∈ items, mentions a n⟩

instance : Mentions (Array α) := ⟨fun items n => ∃ a ∈ items, mentions a n⟩

instance : Mentions (α × β) := ⟨fun pair n => mentions pair.1 n ∨ mentions pair.2 n⟩

/-- A failure mentions nothing. -/
instance {ε : Type} : Mentions (Except ε α) := ⟨fun result n => ∃ a, result = .ok a ∧ mentions a n⟩

theorem known_option {a? : Option α} : Known s a? ↔ ∀ a ∈ a?, Known s a :=
  ⟨fun h a ha n hn => h n ⟨a, ha, hn⟩, fun h n ⟨a, ha, hn⟩ => h a ha n hn⟩

@[simp] theorem known_some {a : α} : Known s (some a) ↔ Known s a := by simp [known_option]

@[simp] theorem known_none : Known s (none : Option α) := by simp [known_option]

theorem known_list {items : List α} : Known s items ↔ ∀ a ∈ items, Known s a :=
  ⟨fun h a ha n hn => h n ⟨a, ha, hn⟩, fun h n ⟨a, ha, hn⟩ => h a ha n hn⟩

@[simp] theorem known_nil : Known s ([] : List α) := by simp [known_list]

@[simp] theorem known_cons {a : α} {items : List α} :
    Known s (a :: items) ↔ Known s a ∧ Known s items := by simp [known_list]

@[simp] theorem known_append {items more : List α} :
    Known s (items ++ more) ↔ Known s items ∧ Known s more := by
  simp [known_list, or_imp, forall_and]

@[simp] theorem known_reverse {items : List α} : Known s items.reverse ↔ Known s items := by
  simp [known_list]

theorem known_array {items : Array α} : Known s items ↔ ∀ a ∈ items, Known s a :=
  ⟨fun h a ha n hn => h n ⟨a, ha, hn⟩, fun h n ⟨a, ha, hn⟩ => h a ha n hn⟩

omit [Mentions α] in
@[simp] theorem known_array_nothing (items : Array α) :
    @Known (Array α) (@instMentionsArray α (.nothing α)) s items :=
  @known_array _ _ (.nothing α) _ |>.mpr fun _ _ => known_nothing _

@[simp] theorem known_pair {pair : α × β} : Known s pair ↔ Known s pair.1 ∧ Known s pair.2 :=
  ⟨fun h => ⟨fun n hn => h n (.inl hn), fun n hn => h n (.inr hn)⟩,
    fun h n hn => hn.elim (h.1 n) (h.2 n)⟩

@[simp] theorem known_ok {ε : Type} {a : α} : Known s (.ok a : Except ε α) ↔ Known s a :=
  ⟨fun h n hn => h n ⟨a, rfl, hn⟩, fun h n ⟨_, heq, hn⟩ => by cases heq; exact h n hn⟩

@[simp] theorem known_error {ε : Type} (e : ε) : Known s (.error e : Except ε α) :=
  fun _ ⟨_, heq, _⟩ => nomatch heq

omit [Mentions α] in
@[simp] theorem known_option_nothing (a? : Option α) :
    @Known (Option α) (@instMentionsOption α (.nothing α)) s a? :=
  @known_option _ _ (.nothing α) _ |>.mpr fun _ _ => known_nothing _

omit [Mentions α] in
@[simp] theorem known_list_nothing (items : List α) :
    @Known (List α) (@instMentionsList α (.nothing α)) s items :=
  @known_list _ _ (.nothing α) _ |>.mpr fun _ _ => known_nothing _

theorem Known.push {items : Array α} (h : Known s items) {a : α} (ha : Known s a) :
    Known s (items.push a) := by
  refine known_array.mpr fun b hb => ?_
  rcases Array.mem_push.mp hb with hb | rfl
  · exact known_array.mp h b hb
  · exact ha

theorem Known.setIfInBounds {items : Array α} (h : Known s items) (i : Nat) {a : α}
    (ha : Known s a) : Known s (items.setIfInBounds i a) := by
  refine known_array.mpr fun b hb => ?_
  rcases Array.mem_or_eq_of_mem_setIfInBounds hb with hb | rfl
  · exact known_array.mp h b hb
  · exact ha

theorem Known.head {a : α} {items : List α} (h : Known s (a :: items)) : Known s a :=
  (known_cons.mp h).1

theorem Known.tail {a : α} {items : List α} (h : Known s (a :: items)) : Known s items :=
  (known_cons.mp h).2

theorem Known.of_subset {items items' : List α} (h : Known s items) (hsub : items' ⊆ items) :
    Known s items' :=
  known_list.mpr fun a ha => known_list.mp h a (hsub ha)

theorem Known.getElem? {items : List α} (h : Known s items) (i : Nat) : Known s items[i]? :=
  known_option.mpr fun a ha => known_list.mp h a (List.mem_of_getElem? ha)

theorem Known.getLastD {items : List α} (h : Known s items) {a : α} (ha : Known s a) :
    Known s (items.getLastD a) := by
  cases items with
  | nil => exact ha
  | cons b rest => exact known_list.mp h _ (List.mem_of_getLast? rfl)

theorem Known.getD {a? : Option α} {a : α} (h : Known s a?) (ha : Known s a) :
    Known s (a?.getD a) := by
  cases a? with
  | none => exact ha
  | some a => exact known_some.mp h

theorem Known.filter {a? : Option α} (h : Known s a?) (p : α → Bool) : Known s (a?.filter p) :=
  known_option.mpr fun a ha => known_option.mp h a (Option.mem_filter_iff.mp ha).1

theorem Known.filterItems {items : List α} (h : Known s items) (p : α → Bool) :
    Known s (items.filter p) :=
  h.of_subset fun _ ha => (List.mem_filter.mp ha).1

theorem Known.map_snd {pairs : List (α × β)} (h : Known s pairs) : Known s (pairs.map Prod.snd) := by
  rw [known_list, List.forall_mem_map]
  exact fun pair hpair => (known_pair.mp (known_list.mp h pair hpair)).2

end Containers

/-! ## Entries -/

namespace Known

variable [Mentions α]

section Entries

variable {κ : Type} [DecidableEq κ] {key : κ} {entries : Entries κ α}

theorem find? (h : Known s entries) (key : κ) : Known s (Entries.find? key entries) := by
  refine known_option.mpr fun a ha => ?_
  have hmem := Entries.mem_of_find?_eq_some ha
  exact (known_pair.mp (known_list.mp h _ hmem)).2

theorem insert (h : Known s entries) {a : α} (ha : Known s a) :
    Known s (Entries.insert key a entries) := by
  refine known_list.mpr fun entry hentry => ?_
  rcases Entries.mem_insert hentry with rfl | hentry
  · exact known_pair.mpr ⟨known_nothing key, ha⟩
  · exact known_list.mp h entry hentry

theorem erase (h : Known s entries) (key : κ) : Known s (Entries.erase key entries) := by
  induction entries with
  | nil => exact h
  | cons entry rest ih =>
    obtain ⟨hentry, hrest⟩ := known_cons.mp h
    rw [Entries.erase]
    split
    · exact hrest
    · exact known_cons.mpr ⟨hentry, ih hrest⟩

end Entries

instance : Mentions (Draft α) := ⟨fun draft n => mentions draft.entries n⟩

theorem entries {draft : Draft α} (h : Known s draft) : Known s draft.entries := h

theorem draft_empty : Known s (Draft.empty : Draft α) := by
  change Known s (Draft.empty : Draft α).entries
  exact known_nil

theorem draft_find? {draft : Draft α} (h : Known s draft) (key : String) :
    Known s (draft.find? key) := by
  rw [← Draft.find?_entries]
  exact h.entries.find? key

theorem draft_insert {draft : Draft α} (h : Known s draft) {a : α} (ha : Known s a) (key : String) :
    Known s (draft.insert key a) := by
  change Known s (draft.insert key a).entries
  rw [Draft.entries_insert]
  exact h.entries.insert ha

theorem draft_ofList {pairs : List (String × α)} (h : Known s pairs) :
    Known s (Draft.ofList pairs) := by
  have hfold (draft : Draft α) (hdraft : Known s draft) :
      Known s (pairs.foldl (fun draft pair => draft.insert pair.1 pair.2) draft) := by
    induction pairs generalizing draft with
    | nil => exact hdraft
    | cons pair rest ih =>
      obtain ⟨hpair, hrest⟩ := known_cons.mp h
      exact ih hrest _ (hdraft.draft_insert (known_pair.mp hpair).2 _)
  exact hfold _ draft_empty

end Known

/-! ## Values -/

instance : Mentions ClassRef := ⟨fun c n => n = .cls c⟩

/-- An instance comes with its class. -/
instance : Mentions InstanceRef := ⟨fun i n => n = .inst i ∨ n = .cls i.cls⟩

/-- A function mentions the receiver of the bound method that it is made of. -/
instance : Mentions Function := ⟨fun f n =>
  match f.code with
  | .bound receiver _ _ => mentions receiver n
  | .script _ | .builtin _ => False⟩

/-- A value mentions a class or an instance. -/
inductive Value.Mentioned : Value → Node → Prop
  | cls {c : ClassRef} {n : Node} (h : mentions c n) : Mentioned (.cls c) n
  | inst {i : InstanceRef} {n : Node} (h : mentions i n) : Mentioned (.inst i) n
  | foreign {i : InstanceRef} {n : Node} (h : mentions i n) : Mentioned (.foreign i) n
  | function {f : Function} {n : Node} (h : mentions f n) : Mentioned (.function f) n
  | item {items : List Value} {v : Value} {n : Node} (hv : v ∈ items) (h : v.Mentioned n) :
      Mentioned (.array items) n
  | entry {entries : List (String × Value)} {key : String} {v : Value} {n : Node}
      (hv : (key, v) ∈ entries) (h : v.Mentioned n) : Mentioned (.map entries) n
  | element {id : Nat} {label : String} {length : Nat} {items : List Value}
      {lengthFault : Option Value} {faults : List (Nat × Value)} {v : Value} {n : Node}
      (hv : v ∈ items) (h : v.Mentioned n) :
      Mentioned (.iterable id label length items lengthFault faults) n

instance : Mentions Value := ⟨Value.Mentioned⟩

theorem known_cls_iff {c : ClassRef} : Known s c ↔ .cls c ∈ s :=
  ⟨fun h => h _ rfl, fun h _ hn => hn ▸ h⟩

theorem known_inst_iff {i : InstanceRef} : Known s i ↔ .inst i ∈ s ∧ .cls i.cls ∈ s :=
  ⟨fun h => ⟨h _ (.inl rfl), h _ (.inr rfl)⟩, fun h _ hn => hn.elim (· ▸ h.1) (· ▸ h.2)⟩

theorem Known.classOf {i : InstanceRef} (h : Known s i) : Known s i.cls :=
  known_cls_iff.mpr (known_inst_iff.mp h).2

section Values

@[simp] theorem known_cls {c : ClassRef} : Known s (Value.cls c) ↔ Known s c :=
  ⟨fun h n hn => h n (.cls hn), fun h _ hn => by cases hn with | cls hn => exact h _ hn⟩

@[simp] theorem known_inst {i : InstanceRef} : Known s (Value.inst i) ↔ Known s i :=
  ⟨fun h n hn => h n (.inst hn), fun h _ hn => by cases hn with | inst hn => exact h _ hn⟩

@[simp] theorem known_foreign {i : InstanceRef} : Known s (Value.foreign i) ↔ Known s i :=
  ⟨fun h n hn => h n (.foreign hn), fun h _ hn => by cases hn with | foreign hn => exact h _ hn⟩

@[simp] theorem known_function {f : Function} : Known s (Value.function f) ↔ Known s f :=
  ⟨fun h n hn => h n (.function hn), fun h _ hn => by cases hn with | function hn => exact h _ hn⟩

@[simp] theorem known_array_value {items : List Value} :
    Known s (Value.array items) ↔ Known s items :=
  ⟨fun h n ⟨_, hv, hn⟩ => h n (.item hv hn),
    fun h _ hn => by cases hn with | item hv hn => exact h _ ⟨_, hv, hn⟩⟩

@[simp] theorem known_map {entries : List (String × Value)} :
    Known s (Value.map entries) ↔ Known s entries :=
  ⟨fun h n ⟨_, hv, hn⟩ => hn.elim False.elim fun hn => h n (.entry hv hn),
    fun h _ hn => by cases hn with | entry hv hn => exact h _ ⟨_, hv, .inr hn⟩⟩

@[simp] theorem known_iterable {id : Nat} {label : String} {length : Nat} {items : List Value}
    {lengthFault : Option Value} {faults : List (Nat × Value)} :
    Known s (Value.iterable id label length items lengthFault faults) ↔ Known s items :=
  ⟨fun h n ⟨_, hv, hn⟩ => h n (.element hv hn),
    fun h _ hn => by cases hn with | element hv hn => exact h _ ⟨_, hv, hn⟩⟩

@[simp] theorem known_undefined : Known s Value.undefined := nofun

@[simp] theorem known_none_value : Known s Value.none := nofun

@[simp] theorem known_boolean (b : Bool) : Known s (Value.boolean b) := nofun

@[simp] theorem known_integer (n : Int64) : Known s (Value.integer n) := nofun

@[simp] theorem known_float (x : Number.Binary64) : Known s (Value.float x) := nofun

@[simp] theorem known_string (text : String) : Known s (Value.string text) := nofun

@[simp] theorem known_typed (items : TypedArray) : Known s (Value.typed items) := nofun

@[simp] theorem known_ofNat (n : Nat) : Known s (Value.ofNat n) := known_integer _

@[simp] theorem known_toValue (key : Key) : Known s key.toValue := by
  cases key with
  | index i => exact known_ofNat i
  | name text => exact known_string text

@[simp] theorem known_values (items : TypedArray) : Known s items.values := by
  refine known_list.mpr fun v hv => ?_
  cases items <;>
  · obtain ⟨x, -, rfl⟩ := List.mem_map.mp hv
    simp

@[simp] theorem known_indexedFrom {items : List Value} {i : Nat} :
    Known s (indexedFrom i items) ↔ Known s items := by
  induction items generalizing i with
  | nil => simp [indexedFrom]
  | cons v rest ih => simp [indexedFrom, ih]

@[simp] theorem known_namedEntries {entries : List (String × Value)} :
    Known s (namedEntries entries) ↔ Known s entries := by
  rw [namedEntries, known_list, List.forall_mem_map, known_list]
  simp

@[simp] theorem known_bound {id : Nat} {name member : String} {receiver : InstanceRef}
    {appendsReceiver : Bool} :
    Known s (⟨id, name, .bound receiver member appendsReceiver⟩ : Function) ↔ Known s receiver :=
  Iff.rfl

@[simp] theorem known_script {id : Nat} {name : String} {body : Expr} :
    Known s (⟨id, name, .script body⟩ : Function) := fun _ h => h.elim

@[simp] theorem known_builtin {id : Nat} {name : String} {b : Builtin} :
    Known s (⟨id, name, .builtin b⟩ : Function) := fun _ h => h.elim

end Values

/-! ## Handles and what expressions give -/

instance : Mentions BoundMethod := ⟨fun b => mentions b.receiver⟩

instance : Mentions BoundOperation := ⟨fun b => mentions b.cls⟩

instance : Mentions SuperProxy := ⟨fun p => mentions (p.receiver, p.cls)⟩

instance : Mentions Handle := ⟨fun
  | .boundMethod b => mentions b
  | .boundOperation b => mentions b
  | .proxy p => mentions p
  | .method _ | .operation _ | .member _ | .registry _ => fun _ => False⟩

instance : Mentions Flow := ⟨fun
  | .answer payload => mentions payload
  | .proceed | .stop => fun _ => False⟩

instance : Mentions Outcome := ⟨fun outcome => mentions outcome.payload?⟩

instance : Mentions Item := ⟨fun
  | .value v => mentions v
  | .handle h => mentions h
  | .flow f => mentions f
  | .folded acc answer => mentions (acc, answer)⟩

instance : Mentions Frame := ⟨fun frame => mentions (frame.receiver, frame.arguments)⟩

section Items

@[simp] theorem known_boundMethod {b : BoundMethod} : Known s b ↔ Known s b.receiver := Iff.rfl

@[simp] theorem known_boundOperation {b : BoundOperation} : Known s b ↔ Known s b.cls := Iff.rfl

@[simp] theorem known_proxy {p : SuperProxy} :
    Known s p ↔ Known s p.receiver ∧ Known s p.cls := known_pair

@[simp] theorem known_toFunction {b : BoundMethod} : Known s b.toFunction ↔ Known s b := Iff.rfl

@[simp] theorem known_value_item {v : Value} : Known s (Item.value v) ↔ Known s v := Iff.rfl

@[simp] theorem known_handle_boundMethod {b : BoundMethod} :
    Known s (Item.handle (.boundMethod b)) ↔ Known s b := Iff.rfl

@[simp] theorem known_handle_boundOperation {b : BoundOperation} :
    Known s (Item.handle (.boundOperation b)) ↔ Known s b := Iff.rfl

@[simp] theorem known_handle_proxy {p : SuperProxy} :
    Known s (Item.handle (.proxy p)) ↔ Known s p := Iff.rfl

@[simp] theorem known_handle_method (routine : Routine) :
    Known s (Item.handle (.method routine)) := fun _ h => h.elim

@[simp] theorem known_handle_operation (routine : Routine) :
    Known s (Item.handle (.operation routine)) := fun _ h => h.elim

@[simp] theorem known_handle_member (member : Member) :
    Known s (Item.handle (.member member)) := fun _ h => h.elim

@[simp] theorem known_handle_registry (index : Nat) :
    Known s (Item.handle (.registry index)) := fun _ h => h.elim

@[simp] theorem known_proceed : Known s Flow.proceed := fun _ h => h.elim

@[simp] theorem known_stop : Known s Flow.stop := fun _ h => h.elim

@[simp] theorem known_answer {payload : Value} : Known s (Flow.answer payload) ↔ Known s payload :=
  Iff.rfl

@[simp] theorem known_flow {f : Flow} : Known s (Item.flow f) ↔ Known s f := Iff.rfl

@[simp] theorem known_folded {acc answer : Value} :
    Known s (Item.folded acc answer) ↔ Known s acc ∧ Known s answer := known_pair

@[simp] theorem known_exhausted : Known s Outcome.exhausted := known_none

@[simp] theorem known_broken : Known s Outcome.broken := known_none

@[simp] theorem known_returned {payload : Value} :
    Known s (Outcome.returned payload) ↔ Known s payload := known_some

theorem Known.payload? {outcome : Outcome} (h : Known s outcome) : Known s outcome.payload? := h

@[simp] theorem known_frame {frame : Frame} :
    Known s frame ↔ Known s frame.receiver ∧ Known s frame.arguments := known_pair

@[simp] theorem known_missing : Known s Item.missing := known_undefined

@[simp] theorem known_ofString (text : String) : Known s (Item.ofString text) := known_string text

@[simp] theorem known_ofBool (b : Bool) : Known s (Item.ofBool b) := known_boolean b

@[simp] theorem known_ofNat_item (n : Nat) : Known s (Item.ofNat n) := known_ofNat n

@[simp] theorem known_ofClass {c : ClassRef} : Known s (Item.ofClass c) ↔ Known s c := known_cls

@[simp] theorem known_ofStrings (strings : List String) : Known s (Item.ofStrings strings) := by
  simp [Item.ofStrings, known_list]

theorem Known.ofOption [Mentions α] {a? : Option α} {make : α → Item} (h : Known s a?)
    (hmake : ∀ a, Known s a → Known s (make a)) : Known s (Item.ofOption make a?) := by
  cases a? with
  | none => exact known_undefined
  | some a => exact hmake a (known_some.mp h)

end Items

/-! ## Tables -/

instance : Mentions (Members Value) := ⟨fun members n => ∃ v, members.Has v ∧ mentions v n⟩

theorem known_members {members : Members Value} :
    Known s members ↔ ∀ v, members.Has v → Known s v :=
  ⟨fun h v hv n hn => h n ⟨v, hv, hn⟩, fun h n ⟨v, hv, hn⟩ => h v hv n hn⟩

namespace Known

variable {members : Members Value}

theorem members_empty : Known s ({} : Members Value) :=
  known_members.mpr fun _ ⟨_, _, hmem, _⟩ => nomatch hmem

/-- A slot stands for a value that the table has. -/
theorem effective (h : Known s members) {name : String} {slot : Slot Value}
    (hslot : (name, slot) ∈ members.slots) : Known s slot.effective := by
  refine known_option.mpr fun v hv => known_members.mp h v ⟨name, slot, hslot, ?_⟩
  rw [Slot.effective] at hv
  cases hown : slot.own with
  | some own =>
    rw [hown] at hv
    exact .inl hv
  | none =>
    rw [hown] at hv
    exact .inr hv

theorem get? (h : Known s members) (name : String) : Known s (members.get? name) := by
  rw [Members.get?]
  cases hfind : Entries.find? name members.slots with
  | none => exact known_none
  | some slot => exact h.effective (Entries.mem_of_find?_eq_some hfind)

theorem collect (h : Known s members) {pick : Slot Value → Option Value}
    (hpick : ∀ slot v, pick slot = some v → slot.own = some v ∨ slot.inherited = some v) :
    Known s (members.collect pick) := by
  refine known_list.mpr fun entry hentry => known_pair.mpr ⟨known_nothing _, ?_⟩
  obtain ⟨⟨name, slot⟩, hslot, hpicked⟩ := List.mem_filterMap.mp hentry
  obtain ⟨v, hv, rfl⟩ := Option.map_eq_some_iff.mp hpicked
  exact known_members.mp h v ⟨name, slot, hslot, hpick slot v hv⟩

theorem all (h : Known s members) : Known s members.all := by
  refine h.collect fun slot v hv => ?_
  rw [Slot.effective] at hv
  cases hown : slot.own <;> simp_all

theorem list (h : Known s members) (own inherited : Bool) :
    Known s (members.list own inherited) := by
  cases own <;> cases inherited
  · exact known_nil
  · exact h.collect fun slot v hv => .inr hv
  · exact h.collect fun slot v hv => .inl hv
  · exact h.all

theorem declare (h : Known s members) {v : Value} (hv : Known s v) (name : String) :
    Known s (members.declare name v) := by
  refine known_members.mpr fun u ⟨key, slot, hslot, hu⟩ => ?_
  rw [Members.declare] at hslot
  rcases Entries.mem_insert hslot with heq | hslot
  · cases heq
    rcases hu with hu | hu
    · cases hu
      exact hv
    · cases hfind : Entries.find? name members.slots with
      | none =>
        rw [hfind] at hu
        cases hu
      | some slot =>
        rw [hfind] at hu
        exact known_members.mp h u ⟨name, slot, Entries.mem_of_find?_eq_some hfind, .inr hu⟩
  · exact known_members.mp h u ⟨key, slot, hslot, hu⟩

theorem declareValues (h : Known s members) {entries : List (String × Value)}
    (hentries : Known s entries) : Known s (ClassState.declareValues entries members) := by
  induction entries generalizing members with
  | nil => exact h
  | cons entry rest ih =>
    obtain ⟨hentry, hrest⟩ := known_cons.mp hentries
    exact ih (h.declare (known_pair.mp hentry).2 _) hrest

theorem inherit (h : Known s members) : Known s members.inherit := by
  refine known_members.mpr fun v ⟨name, slot, hslot, hv⟩ => ?_
  obtain ⟨⟨key, old⟩, hold, hsome⟩ := List.mem_filterMap.mp hslot
  obtain ⟨u, hu, heq⟩ := Option.map_eq_some_iff.mp hsome
  cases heq
  rcases hv with hv | hv
  · cases hv
  · cases hv
    exact known_some.mp (hu ▸ h.effective hold)

end Known

/-! ## States -/

instance : Mentions ClassState := ⟨fun state =>
  mentions (state.parent, state.properties, state.shared, state.boundOperations)⟩

instance : Mentions InstanceState := ⟨fun state =>
  mentions (state.properties, state.boundMethods, state.proxies)⟩

instance : Mentions Registry := ⟨fun registry => mentions registry.classes⟩

instance : Mentions World := ⟨fun w =>
  mentions (w.classes, w.instances, w.registries, w.bindings)⟩

instance : Mentions ClassPlan := ⟨fun plan =>
  mentions (plan.parent, plan.properties, plan.shared)⟩

section States

variable {w : World}

@[simp] theorem known_classState {state : ClassState} :
    Known s state ↔ Known s state.parent ∧ Known s state.properties ∧ Known s state.shared ∧
      Known s state.boundOperations := by
  change Known s (state.parent, state.properties, state.shared, state.boundOperations) ↔ _
  simp

@[simp] theorem known_instanceState {state : InstanceState} :
    Known s state ↔ Known s state.properties ∧ Known s state.boundMethods ∧
      Known s state.proxies := by
  change Known s (state.properties, state.boundMethods, state.proxies) ↔ _
  simp

theorem known_world : Known s w ↔ Known s w.classes ∧ Known s w.instances ∧
    Known s w.registries ∧ Known s w.bindings := by
  change Known s (w.classes, w.instances, w.registries, w.bindings) ↔ _
  simp

@[simp] theorem known_plan {plan : ClassPlan} :
    Known s plan ↔ Known s plan.parent ∧ Known s plan.properties ∧ Known s plan.shared := by
  change Known s (plan.parent, plan.properties, plan.shared) ↔ _
  simp

theorem known_classState_empty : Known s ({} : ClassState) := by
  simp [Known.members_empty]

namespace Known

variable (h : Known s w)
include h

theorem classState (c : ClassRef) : Known s (w.classState c) := by
  rw [World.classState]
  refine Known.getD (known_option.mpr fun state hstate => ?_) known_classState_empty
  exact known_array.mp (known_world.mp h).1 state (Array.mem_of_getElem? hstate)

theorem instanceState (i : InstanceRef) : Known s (w.instanceState i) := by
  rw [World.instanceState]
  refine Known.getD (known_option.mpr fun state hstate => ?_) (by simp)
  exact known_array.mp (known_world.mp h).2.1 state (Array.mem_of_getElem? hstate)

theorem properties (i : InstanceRef) : Known s (w.properties i) :=
  (known_instanceState.mp (h.instanceState i)).1

theorem property (i : InstanceRef) (name : String) : Known s (w.property i name) :=
  ((h.properties i).find? name).getD known_undefined

theorem parent (c : ClassRef) : Known s (w.classState c).parent :=
  (known_classState.mp (h.classState c)).1

theorem registered (index : Nat) : Known s (w.registryState index).classes := by
  rw [World.registryState]
  cases hregistry : w.registries[index]? with
  | none => exact known_nil
  | some registry =>
    exact known_array.mp (known_world.mp h).2.2.1 registry (Array.mem_of_getElem? hregistry)

theorem bindings : Known s w.bindings := (known_world.mp h).2.2.2

end Known

/-! ### Changes -/

namespace Known

variable (h : Known s w)
include h

theorem addClass {state : ClassState} (hstate : Known s state) : Known s (w.addClass state) := by
  obtain ⟨hclasses, hrest⟩ := known_world.mp h
  exact known_world.mpr ⟨hclasses.push hstate, hrest⟩

theorem addInstance {state : InstanceState} (hstate : Known s state) :
    Known s (w.addInstance state) := by
  obtain ⟨hclasses, hinstances, hrest⟩ := known_world.mp h
  exact known_world.mpr ⟨hclasses, hinstances.push hstate, hrest⟩

theorem addRegistry {registry : Registry} (hregistry : Known s registry) :
    Known s (w.addRegistry registry) := by
  obtain ⟨hclasses, hinstances, hregistries, hbindings⟩ := known_world.mp h
  exact known_world.mpr ⟨hclasses, hinstances, hregistries.push hregistry, hbindings⟩

theorem setClass (c : ClassRef) {state : ClassState} (hstate : Known s state) :
    Known s (w.setClass c state) := by
  obtain ⟨hclasses, hrest⟩ := known_world.mp h
  exact known_world.mpr ⟨hclasses.setIfInBounds _ hstate, hrest⟩

theorem setInstance (i : InstanceRef) {state : InstanceState} (hstate : Known s state) :
    Known s (w.setInstance i state) := by
  obtain ⟨hclasses, hinstances, hrest⟩ := known_world.mp h
  exact known_world.mpr ⟨hclasses, hinstances.setIfInBounds _ hstate, hrest⟩

theorem setRegistry (index : Nat) {registry : Registry} (hregistry : Known s registry) :
    Known s (w.setRegistry index registry) := by
  obtain ⟨hclasses, hinstances, hregistries, hbindings⟩ := known_world.mp h
  exact known_world.mpr ⟨hclasses, hinstances, hregistries.setIfInBounds _ hregistry, hbindings⟩

theorem setBindings {bindings : Entries String Item} (hbindings : Known s bindings) :
    Known s { w with bindings } := by
  obtain ⟨hclasses, hinstances, hregistries, -⟩ := known_world.mp h
  exact known_world.mpr ⟨hclasses, hinstances, hregistries, hbindings⟩

end Known

/-- What has been reported and traced, and the next number, mention nothing. -/
theorem Known.world_congr {w' : World} (h : Known s w) (hclasses : w'.classes = w.classes)
    (hinstances : w'.instances = w.instances) (hregistries : w'.registries = w.registries)
    (hbindings : w'.bindings = w.bindings) : Known s w' := by
  rw [known_world, hclasses, hinstances, hregistries, hbindings]
  exact known_world.mp h

theorem Known.setNextId (h : Known s w) (n : Nat) : Known s { w with nextId := n } :=
  h.world_congr rfl rfl rfl rfl

end States

end DynamicObjects
