import DynamicObjects.Proofs.Collections.Representations

/-!
# What containers tell

Where its length and its elements can be had, a container tells its entries, in order. Having
them may run bodies and change the world on the way, but what else is held meanwhile must make no
difference to them: walks over the same container hold different things. Arrays, typed arrays,
maps and foreign tables that do not fail tell their entries and leave the world as it is.

A walk that does nothing to the world is then a fold over the entries that are told.

* `Value.Tells`: the entries that a container tells.
* `Value.Tells.run_eq`: walks over them.
* `Value.Tells.collect_eq`: what is gathered of them.
* `Value.refill`: a container of the same shape with other entries.
* `Countdown.tells`: a foreign container with a state, which counts how often it is read.
-/

namespace DynamicObjects

variable {σ : Type} {scope : Scope} {w after : World} {entries : List (Key × Value)}

/-- The scope in which more is held. -/
def Scope.holdingMore (scope : Scope) (more : List Held) : Scope :=
  { scope with held := more ++ scope.held }

/-- The elements of turns can be had one after the other, whatever more is held. -/
inductive Turn.Tell (scope : Scope) : List Turn → World → List (Key × Value) → World → Prop
  | nil {w : World} : Tell scope [] w [] w
  | cons {turn : Turn} {rest : List Turn} {v : Value} {w fetched after : World}
      {entries : List (Key × Value)}
      (hfetch : ∀ more, turn.fetch (scope.holdingMore more) w = .done v fetched)
      (hrest : Tell scope rest fetched entries after) :
      Tell scope (turn :: rest) w ((turn.key, v) :: entries) after

/-- A container tells its entries, and leaves a world. -/
inductive Value.Tells [Host] (scope : Scope) (container : Value) (w : World) :
    List (Key × Value) → World → Prop
  | entries {entries : List (Key × Value)} (hentries : container.entries? = some entries) :
      Tells scope container w entries w
  | view {view : View Value} {count : Nat} {begun after : World} {entries : List (Key × Value)}
      (hview : w.view? container = some view)
      (hlength : ∀ more, view.length (scope.holdingMore more) w = .done count begun)
      (htell : Turn.Tell scope (Turn.ofView view.element 0 count) begun entries after) :
      Tells scope container w entries after

/-! ## Keys -/

/-- The keys of a sequence from a position on. -/
def indexKeys (i count : Nat) : List Key := (List.range' i count).map Key.index

theorem nodup_indexKeys (i count : Nat) : (indexKeys i count).Nodup := by
  have hrange : (List.range' i count).Nodup := List.nodup_range'
  exact hrange.map fun _ _ => Key.index.inj

theorem keys_indexedFrom (i : Nat) (items : List Value) :
    (indexedFrom i items).map Prod.fst = indexKeys i items.length := by
  induction items generalizing i with
  | nil => rfl
  | cons v rest ih => rw [indexedFrom, List.map_cons, ih, List.length_cons, indexKeys, indexKeys,
      List.range'_succ, List.map_cons]

/-- Entries under the keys of a sequence are those of a sequence. -/
theorem indexedFrom_map_snd {i count : Nat} (h : entries.map Prod.fst = indexKeys i count) :
    indexedFrom i (entries.map Prod.snd) = entries := by
  induction entries generalizing i count with
  | nil => rfl
  | cons entry rest ih =>
    cases count with
    | zero => cases h
    | succ count =>
      rw [indexKeys, List.range'_succ, List.map_cons, List.map_cons] at h
      obtain ⟨hkey, hrest⟩ := List.cons.inj h
      rw [List.map_cons, indexedFrom, ih hrest, ← hkey]

/-- Entries under names are those of a map. -/
theorem namedEntries_map_toName {names : List String}
    (h : entries.map Prod.fst = names.map Key.name) :
    namedEntries (entries.map fun entry => (entry.1.toName, entry.2)) = entries := by
  induction entries generalizing names with
  | nil => rfl
  | cons entry rest ih =>
    cases names with
    | nil => cases h
    | cons name names =>
      rw [List.map_cons, List.map_cons] at h
      obtain ⟨hkey, hrest⟩ := List.cons.inj h
      obtain ⟨key, v⟩ := entry
      obtain rfl : key = .name name := hkey
      have htail := ih hrest
      rw [namedEntries] at htail ⊢
      rw [List.map_cons, List.map_cons, htail]
      rfl

theorem Turn.Tell.keys_eq {turns : List Turn} (h : Turn.Tell scope turns w entries after) :
    entries.map Prod.fst = turns.map Turn.key := by
  induction h with
  | nil => rfl
  | cons _ _ ih => rw [List.map_cons, List.map_cons, ih]

theorem Turn.keys_ofView (element : Nat → Eval Value) (i count : Nat) :
    (Turn.ofView element i count).map Turn.key = indexKeys i count := by
  rw [Turn.ofView, List.map_map]
  rfl

theorem Turn.keys_ofEntries (entries : List (Key × Value)) :
    (Turn.ofEntries entries).map Turn.key = entries.map Prod.fst := by
  rw [Turn.ofEntries, List.map_map]
  rfl

theorem Turn.tell_ofEntries (entries : List (Key × Value)) :
    Turn.Tell scope (Turn.ofEntries entries) w entries w := by
  induction entries with
  | nil => exact .nil
  | cons entry rest ih => exact .cons (fun _ => rfl) ih

/-! ## Shapes -/

namespace Value

/-- The container of the same shape with other entries: a map with values under the names, or
an array of the values. -/
def refill (container : Value) (entries : List (Key × Value)) : Value :=
  match container with
  | .map _ => .map (entries.map fun entry => (entry.1.toName, entry.2))
  | _ => .array (entries.map Prod.snd)

/-- The names of a map, if the value is one, are distinct. -/
def Named (container : Value) : Prop := ∀ names, container = .map names → Entries.Distinct names

theorem isListLike_of_entries? {container : Value} (h : container.entries? = some entries)
    (hsequence : ∀ names, container ≠ .map names) (w : World) :
    (w.kind container).isListLike = true := by
  cases container with
  | array _ | typed _ => rfl
  | map names => exact absurd rfl (hsequence names)
  | _ => cases h

theorem isListLike_of_view? [Host] {container : Value} {view : View Value}
    (h : w.view? container = some view) : (w.kind container).isListLike = true := by
  cases container with
  | iterable _ _ _ _ _ _ | foreign _ => rfl
  | inst i =>
    rw [World.view?] at h
    split at h
    · rename_i hgeneric
      rw [World.kind, if_pos hgeneric]
      rfl
    · cases h
  | _ => cases h

theorem refill_of_sequence {container : Value} (hsequence : ∀ names, container ≠ .map names)
    (entries : List (Key × Value)) : container.refill entries = .array (entries.map Prod.snd) := by
  cases container with
  | map names => exact absurd rfl (hsequence names)
  | _ => rfl

theorem refill_refill (container : Value) (entries entries' : List (Key × Value)) :
    (container.refill entries).refill entries' = container.refill entries' := by
  cases container <;> rfl

theorem length_refill [Host] (container : Value) (entries : List (Key × Value)) :
    (container.refill entries).length = pure entries.length := by
  have harray : (Value.array (entries.map Prod.snd)).length = pure entries.length := by
    rw [(Represents.array _).length_eq, List.length_map]
  have hmap : (Value.map (entries.map fun entry => (entry.1.toName, entry.2))).length =
      pure entries.length := by
    rw [Value.length, List.length_map]
  cases container with
  | map _ => exact hmap
  | _ => exact harray

namespace Tells

variable [Host] {container : Value}

/-- The keys that a container tells are the names of a map, or count from zero. -/
theorem keys_eq (h : container.Tells scope w entries after) :
    (∃ names, container = .map names ∧
      entries.map Prod.fst = (Entries.keys names).map Key.name) ∨
    (∀ names, container ≠ .map names) ∧ ∃ count, entries.map Prod.fst = indexKeys 0 count := by
  cases h with
  | entries hentries =>
    cases container with
    | array items | typed items =>
      cases hentries
      exact .inr ⟨fun _ => nofun, _, keys_indexedFrom 0 _⟩
    | map names =>
      cases hentries
      refine .inl ⟨names, rfl, ?_⟩
      rw [namedEntries, Entries.keys, List.map_map, List.map_map]
      rfl
    | _ => cases hentries
  | @view view count _ _ _ hview _ htell =>
    refine .inr ⟨?_, count, ?_⟩
    · rintro names rfl
      cases hview
    · rw [htell.keys_eq, Turn.keys_ofView]

/-- No key is told twice. -/
theorem nodup_keys (h : container.Tells scope w entries after) (hnamed : container.Named) :
    (entries.map Prod.fst).Nodup := by
  rcases h.keys_eq with ⟨names, rfl, hkeys⟩ | ⟨-, count, hkeys⟩
  · rw [hkeys]
    exact (hnamed names rfl).map fun _ _ => Key.name.inj
  · rw [hkeys]
    exact nodup_indexKeys 0 count

/-- A container with other values under the same keys tells them. -/
theorem refill (h : container.Tells scope w entries after) {entries' : List (Key × Value)}
    (hsame : entries'.map Prod.fst = entries.map Prod.fst) (scope' : Scope) (w' : World) :
    (container.refill entries').Tells scope' w' entries' w' := by
  apply Tells.entries
  rcases h.keys_eq with ⟨names, rfl, hkeys⟩ | ⟨hsequence, count, hkeys⟩
  · exact congrArg some (namedEntries_map_toName (hsame.trans hkeys))
  · rw [refill_of_sequence hsequence]
    exact congrArg some (indexedFrom_map_snd (hsame.trans hkeys))

/-- Some of the entries of a map have distinct names. -/
theorem distinct_toName {names : List (String × Value)}
    (h : (Value.map names).Tells scope w entries after) (hnamed : Entries.Distinct names)
    {entries' : List (Key × Value)}
    (hkeys : (entries'.map Prod.fst).Sublist (entries.map Prod.fst)) :
    Entries.Distinct (entries'.map fun entry => (entry.1.toName, entry.2)) := by
  rcases h.keys_eq with ⟨_, ⟨⟩, hnames⟩ | ⟨hsequence, -⟩
  · have hsublist := (hnames ▸ hkeys).map Key.toName
    have htoName (names : List String) : (names.map Key.name).map Key.toName = names := by
      rw [List.map_map]
      exact List.map_id names
    rw [htoName] at hsublist
    have hdistinct : ((entries'.map Prod.fst).map Key.toName).Nodup := hnamed.sublist hsublist
    rw [List.map_map] at hdistinct
    rw [Entries.Distinct, Entries.keys, List.map_map]
    exact hdistinct
  · exact absurd rfl (hsequence names)

theorem isListLike (h : container.Tells scope w entries after)
    (hsequence : ∀ names, container ≠ .map names) : (w.kind container).isListLike = true := by
  cases h with
  | entries hentries => exact isListLike_of_entries? hentries hsequence w
  | view hview => exact isListLike_of_view? hview

/-- The length of a container is the number of its entries. -/
theorem length_eq (h : container.Tells scope w entries after) :
    ∃ begun, container.length scope w = .done entries.length begun := by
  cases h with
  | entries hentries =>
    refine ⟨w, ?_⟩
    cases container with
    | array items =>
      cases hentries
      rw [(Represents.array items).length_eq, ← List.length_map Prod.fst, keys_indexedFrom,
        indexKeys, List.length_map, List.length_range']
      rfl
    | typed items =>
      cases hentries
      rw [(Represents.typed items).length_eq, ← List.length_map Prod.fst, keys_indexedFrom,
        indexKeys, List.length_map, List.length_range']
      rfl
    | map names =>
      cases hentries
      rw [Value.length, namedEntries, List.length_map]
      rfl
    | _ => cases hentries
  | @view view count begun _ _ hview hlength htell =>
    have hcount : entries.length = count := by
      have hkeys := congrArg List.length htell.keys_eq
      rwa [Turn.keys_ofView, indexKeys, List.length_map, List.length_map, List.length_range']
        at hkeys
    have hmeasured : view.length scope w = .done count begun := hlength []
    refine ⟨begun, ?_⟩
    rw [hcount, ← hmeasured]
    cases container with
    | iterable _ _ _ _ _ _ | foreign _ | inst _ =>
      simp only [Value.length, Value.view?, Eval.bind_apply, Eval.reads_apply, hview]
    | _ => cases hview

end Tells

/-! ## Walks -/

/-- A walk over turns that does nothing to the world folds the entries that they tell. -/
theorem along_of_tell {walk : Walk σ} {next : σ → Key × Value → σ} {turns : List Turn}
    (htell : Turn.Tell scope turns w entries after) (hvisit : ∀ entry ∈ entries, ∀ s,
      walk.visit s entry.2 entry.1 = pure (.proceed, next s entry)) (start : σ) :
    walk.along turns start scope w = .done (.exhausted, entries.foldl next start) after := by
  induction htell generalizing start with
  | nil => rfl
  | @cons turn rest v w fetched after entries hfetch _ ih =>
    obtain ⟨hfirst, hrest⟩ := List.forall_mem_cons.mp hvisit
    have hfetched : walk.fetches scope turn start w = .done v fetched := hfetch [walk.keeps start]
    have hvisited : walk.visits scope start v turn.key fetched =
        .done (.proceed, next start (turn.key, v)) fetched := by
      rw [Walk.visits, hfirst]
      rfl
    rw [Walk.along_cons_apply, hfetched]
    simp only [hvisited]
    exact ih hrest _

variable [Host] {container : Value}

/-- A walk over a container that does nothing to the world folds the entries that are told. -/
theorem Tells.run_eq {walk : Walk σ} {next : σ → Key × Value → σ}
    (h : container.Tells scope w entries after) (hvisit : ∀ entry ∈ entries, ∀ s,
      walk.visit s entry.2 entry.1 = pure (.proceed, next s entry)) (start : σ) :
    walk.run start container scope w = .done (.exhausted, entries.foldl next start) after := by
  cases h with
  | entries hentries =>
    rw [Walk.run_of_entries walk start hentries]
    exact along_of_tell (Turn.tell_ofEntries entries) hvisit start
  | view hview hlength htell =>
    have hmeasures : walk.measures scope start w _ = .done _ _ := hlength [walk.keeps start]
    rw [Walk.run_of_view walk scope start hview, hmeasures]
    exact along_of_tell htell hvisit start

namespace Tells

theorem isAbsent_eq (h : container.Tells scope w entries after) : container.isAbsent = false := by
  cases h with
  | entries hentries => cases container <;> first | rfl | cases hentries
  | view hview => cases container <;> first | rfl | cases hview

/-- What a container tells is what is gathered from it. -/
theorem collect_eq (h : container.Tells scope w entries after) :
    collect container scope w = .done entries after := by
  have hvisit : ∀ entry ∈ entries, ∀ found, Walk.gather.visit found entry.2 entry.1 =
      pure (.proceed, entry :: found) := fun _ _ _ => rfl
  have hwalk := h.run_eq hvisit []
  have hfound : entries.foldl (fun found entry => entry :: found) [] =
      (entries.map id).reverse ++ [] := List.foldl_flip_cons_eq_append
  rw [List.map_id, List.append_nil] at hfound
  rw [collect, Eval.bind_of_done hwalk]
  change Reply.done (entries.foldl (fun found entry => entry :: found) []).reverse after = _
  rw [hfound, List.reverse_reverse]

theorem entriesOf?_eq (h : container.Tells scope w entries after) :
    entriesOf? container scope w = .done (some entries) after := by
  have hgathered : (some <$> collect container) scope w = .done (some entries) after := by
    rw [map_eq_pure_bind, Eval.bind_of_done h.collect_eq]
    rfl
  rw [← hgathered]
  rcases h.keys_eq with ⟨names, rfl, -⟩ | ⟨hsequence, -⟩
  · rfl
  · have hkind := h.isListLike hsequence
    rw [entriesOf?, Value.kind, Eval.bind_apply, Eval.reads_apply]
    cases hk : w.kind container with
    | sequence | generic => rfl
    | _ =>
      rw [hk] at hkind
      cases hkind

end Tells

end Value

/-- A representation of a sequence tells its elements. -/
theorem Value.Represents.tells [Host] {s : Value} {items : List Value} (h : s.Represents items)
    (scope : Scope) (w : World) : s.Tells scope w (indexedFrom 0 items) w := by
  cases h with
  | array | typed => exact .entries rfl
  | @iterable id label length items faults hfaults =>
    have hview : w.view? (.iterable id label length items Option.none faults) =
        some (View.ofIterable .undefined length items.toArray Option.none faults) := by
      rw [World.view?, Value.elements_iterable]
    refine .view hview (fun _ => rfl) ?_
    rw [Turn.ofView_ofIterable hfaults]
    exact Turn.tell_ofEntries _

/-! ## A container that counts -/

namespace Countdown

variable {start n count : Nat} {i : InstanceRef}

/-- The world after a container has been read once more, which it counts in a property. -/
def noteRead (i : InstanceRef) (w : World) : World :=
  let reads : Value := match w.property i "reads" with
    | .integer reads => .integer (reads + 1)
    | _ => .integer 1
  w.setInstance i { w.instanceState i with
    properties := Entries.insert "reads" reads (w.properties i) }

/-- A foreign container that counts down from a number, and counts how often it is read. -/
def view (start : Nat) (i : InstanceRef) : View Value where
  length := pure start
  element n := do
    Eval.modify (noteRead i)
    return Value.ofNat (start - n)

/-- The host of such containers, which is another one in all else. -/
@[reducible] def host [Host] (start : Nat) : Host where
  fuel := Host.fuel
  call := Host.call
  run := Host.run
  foreign := view start

/-- What is told in counting down. -/
def told (start : Nat) : List (Key × Value) :=
  (List.range start).map fun n => (.index n, Value.ofNat (start - n))

theorem tell_ofView : Turn.Tell scope (Turn.ofView (view start i).element n count) w
    ((List.range' n count).map fun n => (.index n, Value.ofNat (start - n)))
    ((noteRead i)^[count] w) := by
  induction count generalizing n w with
  | zero => exact .nil
  | succ count ih =>
    rw [Turn.ofView, List.range'_succ, List.map_cons, List.map_cons, Function.iterate_succ_apply]
    exact .cons (fun _ => rfl) ih

/-- Each element is told once, and each read is counted. -/
theorem tells [Host] (scope : Scope) (w : World) :
    @Value.Tells (host start) scope (.foreign i) w (told start) ((noteRead i)^[start] w) := by
  let _ := host start
  have htell : Turn.Tell scope (Turn.ofView (view start i).element 0 start) w (told start)
      ((noteRead i)^[start] w) := by
    rw [told, List.range_eq_range']
    exact tell_ofView
  exact .view rfl (fun _ => rfl) htell

end Countdown

end DynamicObjects
