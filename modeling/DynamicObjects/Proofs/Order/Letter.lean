import DynamicObjects.Collections.Order
import DynamicObjects.Proofs.Number.Comparison
import Mathlib.Data.List.Sort

/-!
# Words that spell values

Every value is spelled by a word over an ordered alphabet, so that the order of data is
the order of a dictionary. A word begins with the rank of its value. The words of the
elements of a container follow one after the other, each behind a mark that says that
there is one more, and a smaller mark ends them: so a container that another one begins
comes before it. The entries of a map are spelled in the order of their keys; between
two maps with different keys the one that lacks the smaller key comes first, so among
the letters the smaller key is the greater one.

What matters about a word is that it is compared before anything that follows it:
`Decides o u v` says that `u` and `v` compare as `o` says, and that only on a tie what is
put after them counts.

* `Decides.append`, `decides_joinWords`: words put together.
* `joinNamed_eq_of_mem`: a map is spelled alike over all lists of keys that hold its own.
-/

namespace DynamicObjects

open Number

/-! ## Letters -/

/-- A letter of the alphabet in which values are spelled. -/
inductive Letter where
  /-- A rank, a truth value, a place, or whether there is one more element. -/
  | mark (n : Nat)
  | number (x : Extended)
  | text (s : String)
  /-- The key of an entry of a map. -/
  | key (s : String)
  deriving DecidableEq

namespace Letter

/-- The kind of a letter: letters of different kinds are ordered by kind. -/
def kind : Letter → Nat
  | mark _ => 0
  | number _ => 1
  | text _ => 2
  | key _ => 3

def marked : Letter → Nat
  | mark n => n
  | _ => 0

/-- The point that a letter writes. -/
def point : Letter → Extended
  | number x => x
  | _ => .nan

/-- The string that a letter writes, unless it is a key. -/
def string : Letter → String
  | text s => s
  | _ => ""

/-- The key that a letter writes. -/
def name : Letter → String
  | key s => s
  | _ => ""

/-- The order of the alphabet: within each kind by what is written, keys backwards. -/
protected def compare : Letter → Letter → Ordering :=
  compareLex (compareOn kind) <| compareLex (compareOn marked) <| compareLex (compareOn point) <|
    compareLex (compareOn string) fun a b => compareOn name b a

instance : Ord Letter := ⟨Letter.compare⟩

instance : Std.TransOrd Letter :=
  inferInstanceAs (Std.TransCmp <| compareLex (compareOn kind) <|
    compareLex (compareOn marked) <| compareLex (compareOn point) <|
      compareLex (compareOn string) fun a b => compareOn name b a)

instance : Std.LawfulEqOrd Letter where
  eq_of_compare {a b} h := by
    have h : Letter.compare a b = .eq := h
    simp only [Letter.compare, compareLex, compareOn, Ordering.then_eq_eq,
      Std.LawfulEqCmp.compare_eq_iff_eq] at h
    cases a <;> cases b <;> simp_all [kind, marked, point, string, name]

@[simp] theorem compare_mark (m n : Nat) : compare (mark m) (mark n) = compare m n := by
  change Letter.compare _ _ = _
  simp [Letter.compare, compareLex, compareOn, kind, marked, point, string, name]

@[simp]
theorem compare_number (x y : Extended) : compare (number x) (number y) = x.compare y := by
  change Letter.compare _ _ = _
  simp [Letter.compare, compareLex, compareOn, kind, marked, point, string, name]
  rfl

@[simp] theorem compare_text (s t : String) : compare (text s) (text t) = compare s t := by
  change Letter.compare _ _ = _
  simp [Letter.compare, compareLex, compareOn, kind, marked, point, string, name]

@[simp] theorem compare_key (s t : String) : compare (key s) (key t) = compare t s := by
  change Letter.compare _ _ = _
  simp [Letter.compare, compareLex, compareOn, kind, marked, point, string, name]

end Letter

/-- A word, compared with others as in a dictionary. -/
abbrev Word := List Letter

/-! ## Words that decide -/

/-- Two words compare in a certain way, and what follows them counts only on a tie. -/
def Decides (o : Ordering) (u v : Word) : Prop :=
  ∀ r s, compare (u ++ r) (v ++ s) = o.then (compare r s)

theorem Decides.compare_eq {o : Ordering} {u v : Word} (h : Decides o u v) :
    compare u v = o := by
  have hnil := h [] []
  simpa [Std.ReflOrd.compare_self] using hnil

theorem Decides.swap {o : Ordering} {u v : Word} (h : Decides o u v) : Decides o.swap v u := by
  intro r s
  rw [Std.OrientedOrd.eq_swap, h s r, Ordering.swap_then, ← Std.OrientedOrd.eq_swap]

theorem decides_nil : Decides .eq [] [] := fun _ _ => rfl

theorem Decides.cons {o : Ordering} {u v : Word} (h : Decides o u v) (a b : Letter) :
    Decides ((compare a b).then o) (a :: u) (b :: v) := by
  intro r s
  rw [List.cons_append, List.cons_append, List.compare_cons_cons, h r s, Ordering.then_assoc]

theorem Decides.cons_self {o : Ordering} {u v : Word} (h : Decides o u v) (a : Letter) :
    Decides o (a :: u) (a :: v) := by
  have hcons := h.cons a a
  rwa [Std.ReflOrd.compare_self, Ordering.eq_then] at hcons

theorem decides_of_ne_eq {o : Ordering} {a b : Letter} (h : compare a b = o) (ho : o ≠ .eq)
    (u v : Word) : Decides o (a :: u) (b :: v) := by
  intro r s
  rw [List.cons_append, List.cons_append, List.compare_cons_cons, h]
  cases o <;> first | rfl | contradiction

theorem Decides.append {o p : Ordering} {u v u' v' : Word} (h : Decides o u v)
    (h' : Decides p u' v') : Decides (o.then p) (u ++ u') (v ++ v') := by
  intro r s
  rw [List.append_assoc, List.append_assoc, h, h', Ordering.then_assoc]

theorem decides_singleton (a b : Letter) : Decides (compare a b) [a] [b] := by
  have hcons := decides_nil.cons a b
  rwa [Ordering.then_eq] at hcons

/-! ## Words of sequences -/

/-- The word of the elements of a sequence, given theirs. -/
def joinWords : List Word → Word
  | [] => [.mark 0]
  | u :: rest => .mark 1 :: (u ++ joinWords rest)

theorem decides_joinWords_nil_cons (u : Word) (rest : List Word) :
    Decides .lt (joinWords []) (joinWords (u :: rest)) :=
  decides_of_ne_eq (by rw [Letter.compare_mark]; rfl) (by decide) _ _

theorem decides_joinWords_cons_nil (u : Word) (rest : List Word) :
    Decides .gt (joinWords (u :: rest)) (joinWords []) :=
  decides_of_ne_eq (by rw [Letter.compare_mark]; rfl) (by decide) _ _

theorem decides_joinWords_cons_cons {o p : Ordering} {u v : Word} {us vs : List Word}
    (h : Decides o u v) (hrest : Decides p (joinWords us) (joinWords vs)) :
    Decides (o.then p) (joinWords (u :: us)) (joinWords (v :: vs)) :=
  (h.append hrest).cons_self _

/-! ## Words of maps -/

/-- The word of the entries of a map under some keys, given the words of its entries. -/
def joinNamed (word? : String → Option Word) : List String → Word
  | [] => [.mark 0]
  | key :: rest =>
    match word? key with
    | some u => .mark 1 :: .key key :: (u ++ joinNamed word? rest)
    | none => joinNamed word? rest

variable {f g : String → Option Word} {key : String} {rest : List String}

theorem joinNamed_cons_some {u : Word} (h : f key = some u) :
    joinNamed f (key :: rest) = .mark 1 :: .key key :: (u ++ joinNamed f rest) := by
  simp only [joinNamed, h]

theorem joinNamed_cons_none (h : f key = none) :
    joinNamed f (key :: rest) = joinNamed f rest := by
  simp only [joinNamed, h]

theorem joinNamed_eq_filter (f : String → Option Word) (keys : List String) :
    joinNamed f keys = joinNamed f (keys.filter fun key => (f key).isSome) := by
  induction keys with
  | nil => rfl
  | cons key rest ih =>
    cases h : f key with
    | none => rw [joinNamed_cons_none h, ih, List.filter_cons_of_neg (by simp [h])]
    | some u =>
      rw [List.filter_cons_of_pos (by simp [h]), joinNamed_cons_some h, joinNamed_cons_some h,
        ih]

/-- A word of entries ends, or goes on with one of the keys that are left. -/
theorem joinNamed_cases (f : String → Option Word) (keys : List String) :
    joinNamed f keys = [.mark 0] ∨
      ∃ key ∈ keys, ∃ u, joinNamed f keys = .mark 1 :: .key key :: u := by
  induction keys with
  | nil => exact Or.inl rfl
  | cons key rest ih =>
    cases h : f key with
    | some u => exact Or.inr ⟨key, List.mem_cons_self, _, joinNamed_cons_some h⟩
    | none =>
      rw [joinNamed_cons_none h]
      rcases ih with hend | ⟨other, hmem, u, hu⟩
      · exact Or.inl hend
      · exact Or.inr ⟨other, List.mem_cons_of_mem _ hmem, u, hu⟩

/-- The side that has the smaller key is the greater one. -/
theorem decides_joinNamed_some_none {u : Word} (hf : f key = some u) (hg : g key = none)
    (hsorted : ∀ other ∈ rest, compare key other = .lt) :
    Decides .gt (joinNamed f (key :: rest)) (joinNamed g (key :: rest)) := by
  rw [joinNamed_cons_some hf, joinNamed_cons_none hg]
  rcases joinNamed_cases g rest with hend | ⟨other, hmem, v, hv⟩
  · rw [hend]
    exact decides_of_ne_eq (by rw [Letter.compare_mark]; rfl) (by decide) _ _
  · rw [hv]
    refine (decides_of_ne_eq ?_ (by decide) _ _).cons_self _
    rw [Letter.compare_key]
    exact Std.OrientedCmp.gt_of_lt (hsorted other hmem)

theorem decides_joinNamed_some_some {o p : Ordering} {u v : Word} (hf : f key = some u)
    (hg : g key = some v) (h : Decides o u v)
    (hrest : Decides p (joinNamed f rest) (joinNamed g rest)) :
    Decides (o.then p) (joinNamed f (key :: rest)) (joinNamed g (key :: rest)) := by
  rw [joinNamed_cons_some hf, joinNamed_cons_some hg]
  exact ((h.append hrest).cons_self _).cons_self _

/-- The keys that count are those that have a word, in order. -/
theorem joinNamed_eq_of_mem {keys keys' : List String}
    (hkeys : keys.Pairwise fun a b => compare a b = .lt)
    (hkeys' : keys'.Pairwise fun a b => compare a b = .lt)
    (hmem : ∀ key, (f key).isSome → (key ∈ keys ↔ key ∈ keys')) :
    joinNamed f keys = joinNamed f keys' := by
  rw [joinNamed_eq_filter f keys, joinNamed_eq_filter f keys']
  congr 1
  have hirrefl : Std.Irrefl fun a b : String => compare a b = .lt :=
    ⟨fun a h => by rw [Std.ReflOrd.compare_self] at h; cases h⟩
  have hantisymm : Std.Antisymm fun a b : String => compare a b = .lt :=
    ⟨fun a b hab hba => absurd hba (Std.OrientedCmp.not_lt_of_lt hab)⟩
  refine (hkeys.filter _).eq_of_mem_iff (hkeys'.filter _) ?_
  intro key
  rw [List.mem_filter, List.mem_filter]
  constructor
  · rintro ⟨hk, hf⟩
    exact ⟨(hmem key hf).mp hk, hf⟩
  · rintro ⟨hk, hf⟩
    exact ⟨(hmem key hf).mpr hk, hf⟩

end DynamicObjects
