import DynamicObjects.Proofs.Collections.Mapping

/-!
# Regrouping by names

Elements are put into a map one after the other, each under a name. A name that has come before
stays where it is; what is under it then is combined with the element. So in the end there are the
names in the order in which they first came, and under each of them the left fold of its elements,
from the first one on. Where nothing is combined, the last element wins.

Names are the texts of keys that an extractor gives, and a replacer combines. Whatever these two do,
the extractor is called once about each element, in order, and after it the replacer, just when the
name has come before; the first call that does not answer ends the regrouping.

* `Groups`: the entries in which elements are grouped by names.
* `Groups.insert`, `groups_ofList`: putting one more element, and putting all of them.
* `Inquiry.regrouping`: the calls of an extractor and a replacer.
* `as_map_groups`: what regrouping does.
-/

namespace DynamicObjects

open Inquiry (Call)

/-! ## Groups -/

section Groups

variable {α : Type} {pairs : List (String × α)} {out : Entries String α}
  {combine : String → α → α → α}

/-- The values that come with a name, in order. -/
def valuesUnder (name : String) (pairs : List (String × α)) : List α :=
  (pairs.filter (·.1 = name)).map Prod.snd

/-- The left fold of values from the first of them on: each is combined with what those before it
make. -/
def foldFirst (combine : α → α → α) : List α → Option α
  | [] => none
  | v :: rest => some (rest.foldl (fun existing v => combine v existing) v)

/-- Entries group pairs by their names: the names are in the order in which they first come, and
each has what the values that come with it make. -/
structure Groups (combine : String → α → α → α) (pairs : List (String × α))
    (out : Entries String α) : Prop where
  keys_eq : Entries.keys out = (pairs.map Prod.fst).eraseDups
  find?_eq : ∀ name, Entries.find? name out = foldFirst (combine name) (valuesUnder name pairs)

theorem foldFirst_append_singleton (combine : α → α → α) (values : List α) (v : α) :
    foldFirst combine (values ++ [v]) = some ((foldFirst combine values).elim v (combine v)) := by
  cases values with
  | nil => rfl
  | cons first rest => simp [foldFirst]

/-- When an element replaces what is there, the last one is left. -/
theorem foldFirst_replace (values : List α) :
    foldFirst (fun v _ => v) values = values.getLast? := by
  induction values using List.reverseRecOn with
  | nil => rfl
  | append_singleton values v ih =>
    rw [foldFirst_append_singleton, List.getLast?_concat]
    cases foldFirst (fun v _ => v) values <;> rfl

theorem valuesUnder_append (name : String) (pairs more : List (String × α)) :
    valuesUnder name (pairs ++ more) = valuesUnder name pairs ++ valuesUnder name more := by
  rw [valuesUnder, List.filter_append, List.map_append]
  rfl

theorem valuesUnder_cons_self (name : String) (v : α) (pairs : List (String × α)) :
    valuesUnder name ((name, v) :: pairs) = v :: valuesUnder name pairs := by
  rw [valuesUnder, List.filter_cons_of_pos (by simp), List.map_cons]
  rfl

theorem valuesUnder_singleton (name other : String) (v : α) :
    valuesUnder other [(name, v)] = if name = other then [v] else [] := by
  by_cases h : name = other <;> simp [valuesUnder, h]

theorem groups_nil : Groups combine [] [] where
  keys_eq := rfl
  find?_eq _ := rfl

namespace Groups

theorem mem_keys_iff (h : Groups combine pairs out) {name : String} :
    name ∈ Entries.keys out ↔ name ∈ pairs.map Prod.fst := by
  rw [h.keys_eq, List.mem_eraseDups]

/-- Putting one more element, combined with what is there. -/
theorem insert (h : Groups combine pairs out) (name : String) (v : α) :
    Groups combine (pairs ++ [(name, v)])
      (Entries.insert name ((Entries.find? name out).elim v (combine name v)) out) where
  keys_eq := by
    rw [Entries.keys_insert, List.map_append, List.map_singleton,
      Entries.eraseDups_append_singleton, h.keys_eq]
    simp only [List.mem_eraseDups]
  find?_eq other := by
    rw [Entries.find?_insert, valuesUnder_append, valuesUnder_singleton]
    split
    · rename_i hname
      rw [← hname, foldFirst_append_singleton, h.find?_eq]
    · rw [List.append_nil, h.find?_eq]

end Groups

theorem ofList_append_singleton (pairs : List (String × α)) (pair : String × α) :
    Entries.ofList (pairs ++ [pair]) = Entries.insert pair.1 pair.2 (Entries.ofList pairs) := by
  rw [Entries.ofList_eq_foldl, Entries.ofList_eq_foldl, List.foldl_concat]

/-- Entries made of pairs group them, the last one of a name replacing the others. -/
theorem groups_ofList (pairs : List (String × α)) :
    Groups (fun _ v _ => v) pairs (Entries.ofList pairs) := by
  induction pairs using List.reverseRecOn with
  | nil => exact groups_nil
  | append_singleton pairs pair ih =>
    obtain ⟨name, v⟩ := pair
    have hstep := ih.insert name v
    rw [ofList_append_singleton]
    cases hfound : Entries.find? name (Entries.ofList pairs) with
    | none | some =>
      rw [hfound] at hstep
      exact hstep

end Groups

/-! ## The calls -/

/-- The inquiry that asks for the name of an element and for what is to be put under it. -/
def Inquiry.regrouping [Host] (extractor : Function) (replacer : Option Function) :
    Inquiry (Draft Value) (String × Value) where
  keeps := .draft
  ask := fun out v key => do
    let name := (← callVisit extractor v key).text
    let stored ← match out.find? name, replacer with
      | some existing, some f => Host.call f [v, existing, .string name]
      | _, _ => pure v
    return (name, stored)
  next := fun out _ _ answer => out.insert answer.1 answer.2

section Calls

variable [Host] {scope : Scope} {w w' : World} {extractor : Function} {replacer : Option Function}
  {container : Value} {turns : List Turn} {begun : World}

theorem follows_indexBy (extractor : Function) (replacer : Option Function) :
    (Inquiry.regrouping extractor replacer).Follows (Walk.indexBy extractor replacer) id
      fun _ => True where
  keeps_eq _ := rfl
  visit_eq out v key _ := by
    simp only [Walk.indexBy, Inquiry.regrouping, bind_assoc, pure_bind, id_eq]
    congr 1
    funext key
    cases out.find? key.text <;> cases replacer <;> simp
  among_next _ _ _ _ _ := trivial

/-- Each call finds what the calls before it have put into the map. -/
theorem Inquiry.Asks.entries_eq {out out' : Draft Value}
    {calls : List (Call (Draft Value) (String × Value))}
    (h : (regrouping extractor replacer).Asks scope turns out w calls out' w')
    {pairs : List (String × Value)} (hout : out.entries = Entries.ofList pairs) :
    out'.entries = Entries.ofList (pairs ++ calls.map Call.answer) ∧
      ∀ earlier call later, calls = earlier ++ call :: later →
        call.state.entries = Entries.ofList (pairs ++ earlier.map Call.answer) := by
  induction h generalizing pairs with
  | nil => exact ⟨by rw [List.map_nil, List.append_nil, hout], by simp⟩
  | @cons turn rest t t' v answer w fetched called w' calls _ _ _ ih =>
    have hnext : ((regrouping extractor replacer).next t v turn.key answer).entries =
        Entries.ofList (pairs ++ [answer]) := by
      rw [ofList_append_singleton, ← hout]
      exact Draft.entries_insert answer.1 answer.2 t
    obtain ⟨hlast, hstates⟩ := ih hnext
    rw [List.append_assoc] at hlast
    refine ⟨hlast, fun earlier call later hcalls => ?_⟩
    cases earlier with
    | nil =>
      obtain ⟨rfl, -⟩ := List.cons.inj hcalls
      rw [List.map_nil, List.append_nil, hout]
    | cons first earlier =>
      obtain ⟨rfl, hrest⟩ := List.cons.inj hcalls
      have hstate := hstates earlier call later hrest
      rwa [List.append_assoc] at hstate

/-- The replacer, if there is one, as an argument. -/
def replacerArgument (replacer : Option Function) : List Value :=
  (replacer.map Value.function).toList

theorem apply_asMap (container : Value) (extractor : Function) (replacer : Option Function) :
    Builtin.asMap.apply (container :: .function extractor :: replacerArgument replacer) =
      (do return .map (← (Walk.indexBy extractor replacer).run .empty container).2.entries) := by
  cases replacer <;> rfl

theorem apply_asMap_iff
    (hbegins : (Inquiry.regrouping extractor replacer).walk.Begins scope .empty container w turns
      begun) (reply : Reply Value) :
    Builtin.asMap.apply (container :: .function extractor :: replacerArgument replacer) scope w =
        reply ↔
      ∃ calls, (Inquiry.regrouping extractor replacer).Gets scope (fun out => .map out.entries)
        .empty begun turns calls reply := by
  rw [apply_asMap]
  exact (follows_indexBy extractor replacer).run_iff trivial
    (fun out : Draft Value => Value.map out.entries) hbegins reply

end Calls

/-! ## Callbacks that compute -/

section Computing

variable [Host] {scope : Scope} {w after : World} {entries : List (Key × Value)}
  {extractor : Function} {key : Key × Value → Value} {combine : String → Value → Value → Value}

/-- What comes under a name of the pairs, each replacement is one that is computed: the replacer
answers for an element and what those before it of the same name make. Without a replacer the
element replaces what is there. -/
def ReplacesBy (combine : String → Value → Value → Value) (pairs : List (String × Value)) :
    Option Function → Prop
  | none => ∀ name v existing, combine name v existing = v
  | some f => ∀ name before v later existing,
    valuesUnder name pairs = before ++ v :: later →
    foldFirst (combine name) before = some existing →
    Host.call f [v, existing, .string name] = pure (combine name v existing)

/-- The pairs of names and elements, by the keys of the entries. -/
def namedBy (key : Key × Value → Value) (entries : List (Key × Value)) : List (String × Value) :=
  entries.map fun entry => ((key entry).text, entry.2)

/-- About one entry the two callbacks compute its name and what is put under it. -/
theorem ask_regrouping {replacer : Option Function} {seen later : List (String × Value)}
    {out : Draft Value} {entry : Key × Value} (hgroups : Groups combine seen out.entries)
    (hkey : callVisit extractor entry.2 entry.1 = pure (key entry))
    (hreplaces : ReplacesBy combine (seen ++ ((key entry).text, entry.2) :: later) replacer) :
    (Inquiry.regrouping extractor replacer).ask out entry.2 entry.1 =
      pure ((key entry).text,
        (out.find? (key entry).text).elim entry.2 (combine (key entry).text entry.2)) := by
  simp only [Inquiry.regrouping, hkey, pure_bind]
  cases hfound : out.find? (key entry).text with
  | none => rfl
  | some existing =>
    cases replacer with
    | none => exact congrArg (fun v => pure ((key entry).text, v)) (hreplaces _ _ _).symm
    | some f =>
      have hunder := valuesUnder_append (key entry).text seen
        (((key entry).text, entry.2) :: later)
      rw [valuesUnder_cons_self] at hunder
      have hfold := hgroups.find?_eq (key entry).text
      rw [Draft.find?_entries, hfound] at hfold
      have hcall := hreplaces _ _ _ _ existing hunder hfold.symm
      simp only [hcall, pure_bind]
      rfl

/-- From grouped entries on, the turns that a container tells are grouped with them. -/
theorem groups_of_tell {replacer : Option Function} {turns : List Turn}
    (htell : Turn.Tell scope turns w entries after)
    (hkey : Computes (callVisit extractor) key entries) {seen : List (String × Value)}
    {out : Draft Value} (hgroups : Groups combine seen out.entries)
    (hreplaces : ReplacesBy combine (seen ++ namedBy key entries) replacer) :
    ∃ calls out', (Inquiry.regrouping extractor replacer).Asks scope turns out w calls out' after ∧
      Groups combine (seen ++ namedBy key entries) out'.entries := by
  induction htell generalizing seen out with
  | nil => exact ⟨[], out, .nil, by rwa [namedBy, List.map_nil, List.append_nil]⟩
  | @cons turn rest v w fetched after entries hfetch _ ih =>
    obtain ⟨hfirst, hrest⟩ := List.forall_mem_cons.mp hkey
    let name := (key (turn.key, v)).text
    let stored := (out.find? name).elim v (combine name v)
    have hasked : (Inquiry.regrouping extractor replacer).ask out v turn.key =
        pure (name, stored) := ask_regrouping hgroups hfirst hreplaces
    have hnext : Groups combine (seen ++ [(name, v)]) (out.insert name stored).entries := by
      have hstep := hgroups.insert name v
      rwa [Draft.find?_entries, ← Draft.entries_insert] at hstep
    have hpairs : seen ++ namedBy key ((turn.key, v) :: entries) =
        seen ++ [(name, v)] ++ namedBy key entries := by
      rw [namedBy, List.map_cons, List.append_cons]
      rfl
    rw [hpairs] at hreplaces ⊢
    have hfetched : (Inquiry.regrouping extractor replacer).fetches scope turn out w =
        .done v fetched := hfetch [.draft out]
    have hcalled : (Inquiry.regrouping extractor replacer).calls scope out v turn.key fetched =
        .done (name, stored) fetched := congrFun (congrFun hasked _) fetched
    obtain ⟨calls, out', hasks, hout'⟩ := ih hrest hnext hreplaces
    exact ⟨_, out', .cons hfetched hcalled hasks, hout'⟩

/-- A container that tells its entries is regrouped into groups of them. -/
theorem apply_asMap_of_tells {container : Value} {replacer : Option Function}
    (htells : container.Tells scope w entries after)
    (hkey : Computes (callVisit extractor) key entries)
    (hreplaces : ReplacesBy combine (namedBy key entries) replacer) :
    ∃ out, Builtin.asMap.apply (container :: .function extractor :: replacerArgument replacer)
        scope w = .done (.map out) after ∧ Groups combine (namedBy key entries) out := by
  obtain ⟨turns, begun, hbegins, htell⟩ := htells.begins (Inquiry.regrouping extractor replacer)
    .empty
  have hempty : Groups combine [] (Draft.empty : Draft Value).entries := groups_nil
  have hfirst : ReplacesBy combine ([] ++ namedBy key entries) replacer := hreplaces
  obtain ⟨calls, out, hasks, hgroups⟩ := groups_of_tell htell hkey hempty hfirst
  exact ⟨out.entries, (apply_asMap_iff hbegins _).mpr ⟨calls, .all hasks⟩, hgroups⟩

/-- **Regrouping.** Whatever the callbacks do, regrouping asks about each element once, in order,
up to the first call that does not answer, which decides what comes of it; the replacer is called
just about elements whose names have come before. By callbacks that compute, the names are in the
order in which they first come; each has its last element, or with a replacer the left fold of its
elements. -/
theorem as_map_groups (container : Value) (extractor : Function) :
    (∀ (replacer : Option Function) (scope : Scope) (w begun : World) (turns : List Turn),
      (Inquiry.regrouping extractor replacer).walk.Begins scope .empty container w turns begun →
      (∀ reply, Builtin.asMap.apply
          (container :: .function extractor :: replacerArgument replacer) scope w = reply ↔
        ∃ calls, (Inquiry.regrouping extractor replacer).Gets scope (fun out => .map out.entries)
          .empty begun turns calls reply) ∧
      ∀ before calls out w',
        (Inquiry.regrouping extractor replacer).Asks scope before .empty begun calls out w' →
        out.entries = Entries.ofList (calls.map Call.answer) ∧
        ∀ earlier call later, calls = earlier ++ call :: later → ∀ name,
          (call.state.find? name).isSome ↔ name ∈ earlier.map fun call => call.answer.1) ∧
    ∀ (scope : Scope) (w after : World) (entries : List (Key × Value)) (key : Key × Value → Value),
      container.Tells scope w entries after → Computes (callVisit extractor) key entries →
      (∃ out, Builtin.asMap.apply [container, .function extractor] scope w =
          .done (.map out) after ∧
        Entries.keys out = ((namedBy key entries).map Prod.fst).eraseDups ∧
        ∀ name, Entries.find? name out = (valuesUnder name (namedBy key entries)).getLast?) ∧
      ∀ (replacer : Function) (combine : String → Value → Value → Value),
        ReplacesBy combine (namedBy key entries) (some replacer) →
        ∃ out, Builtin.asMap.apply [container, .function extractor, .function replacer] scope w =
            .done (.map out) after ∧
          Groups combine (namedBy key entries) out := by
  refine ⟨fun replacer scope w begun turns hbegins => ⟨apply_asMap_iff hbegins, ?_⟩,
    fun scope w after entries key htells hkey => ⟨?_, fun replacer combine hreplaces => ?_⟩⟩
  · intro before calls out w' hasks
    have hempty : (Draft.empty : Draft Value).entries = Entries.ofList [] := rfl
    obtain ⟨hout, hstates⟩ := hasks.entries_eq hempty
    refine ⟨hout, fun earlier call later hcalls name => ?_⟩
    rw [← Draft.find?_entries, hstates earlier call later hcalls, List.nil_append,
      ← Option.ne_none_iff_isSome, Ne, Entries.find?_eq_none_iff, not_not,
      (groups_ofList _).mem_keys_iff, List.map_map]
    rfl
  · have hlast : ReplacesBy (fun _ v _ => v) (namedBy key entries) none := fun _ _ _ => rfl
    obtain ⟨out, happly, hgroups⟩ := apply_asMap_of_tells htells hkey hlast
    refine ⟨out, happly, hgroups.keys_eq, fun name => ?_⟩
    rw [hgroups.find?_eq, foldFirst_replace]
  · exact apply_asMap_of_tells htells hkey hreplaces

end Computing

/-- A number and its text come under one name; a replacer puts together what it gets. -/
theorem as_map_groups_texts :
    let items : List Value := [.integer 1, .string "x", .string "1"]
    let identity : Function := ⟨0, "identity", .script (.argument (.integer 0))⟩
    let arguments : Function := ⟨1, "arguments", .script .arguments⟩
    let combine (name : String) (v existing : Value) : Value := .array [v, existing, .string name]
    letI := Script.hostWithin 2
    ((Value.array items).Tells {} {} (indexedFrom 0 items) {} ∧
      Computes (callVisit identity) Prod.snd (indexedFrom 0 items) ∧
      ReplacesBy combine (namedBy Prod.snd (indexedFrom 0 items)) (some arguments)) ∧
    (∃ out, Builtin.asMap.apply [.array items, .function identity] {} {} = .done (.map out) {} ∧
      Entries.keys out = ["1", "x"] ∧ Entries.find? "1" out = some (.string "1")) ∧
    ∃ out, Builtin.asMap.apply [.array items, .function identity, .function arguments] {} {} =
        .done (.map out) {} ∧
      Entries.keys out = ["1", "x"] ∧
      Entries.find? "1" out = some (.array [.string "1", .integer 1, .string "1"]) := by
  intro items identity arguments combine
  let _ := Script.hostWithin 2
  have htells : (Value.array items).Tells {} {} (indexedFrom 0 items) {} := .entries rfl
  have hkey : Computes (callVisit identity) Prod.snd (indexedFrom 0 items) := fun _ _ => rfl
  have hreplaces : ReplacesBy combine (namedBy Prod.snd (indexedFrom 0 items))
      (some arguments) := fun _ _ _ _ _ _ _ => rfl
  obtain ⟨-, hgroups⟩ := as_map_groups (.array items) identity
  obtain ⟨⟨last, hlast, hkeys, hunder⟩, hreplaced⟩ := hgroups {} {} {} _ _ htells hkey
  obtain ⟨out, hout, hgrouped⟩ := hreplaced arguments combine hreplaces
  have hnames : ((namedBy Prod.snd (indexedFrom 0 items)).map Prod.fst).eraseDups = ["1", "x"] := by
    decide
  refine ⟨⟨htells, hkey, hreplaces⟩, ⟨last, hlast, hkeys.trans hnames, ?_⟩,
    ⟨out, hout, hgrouped.keys_eq.trans hnames, ?_⟩⟩
  · rw [hunder]
    rfl
  · rw [hgrouped.find?_eq]
    rfl

end DynamicObjects
