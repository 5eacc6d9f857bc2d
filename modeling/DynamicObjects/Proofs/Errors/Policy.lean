import DynamicObjects.Proofs.Errors.Follows

/-!
# The error policy of the named operations

A call of a named operation fails with the number of its arguments, with the first of them that
is not what is wanted, or with a value that it does not support, and then nothing has run.
Otherwise it answers; only a comparison by a function may still fail. It reports nothing of its
own but notes, or the one report of an operation that refuses its arguments.

There is one exception. A slice counts the places of its value in sixty-four bits with a sign,
so there is no slice of a value with more places than that.

* `follows_apply`: what becomes of calls, whatever the number of arguments.
* `error_policy`: what becomes of calls.
-/

namespace DynamicObjects

variable {c : Circumstances} {v : Value} {b : Builtin} {args : List Value}
  {answers : Function → Value → Prop}

/-! ## Calls -/

section Calls

variable [Host]

theorem serves_empty (b : Builtin) (args : List Value) (answers : Function → Value → Prop) :
    b.Serves args .empty answers where
  opens _ _ := ⟨Set.univ, trivial, fun _ _ =>
    ⟨fun _ _ _ _ => trivial, fun _ _ _ _ => trivial, fun _ _ _ _ => trivial,
      fun _ hw => hw.elim, fun _ hw => hw.elim⟩⟩
  calls _ _ _ _ hscope := hscope.elim
  themselves _ _ _ hw := hw.elim
  containers _ _ := ⟨fun _ _ _ _ _ hw => hw.elim, fun _ _ _ _ _ hw => hw.elim,
    fun _ _ _ _ _ hw => hw.elim, fun _ hw => hw.elim, fun _ hw => hw.elim⟩
  answers _ _ _ _ _ hw := hw.elim
  counts _ _ _ _ _ _ hscope := hscope.elim

/-- What becomes of calls, whatever the number of arguments. -/
theorem follows_apply (h : b.Serves args c answers)
    (hfits : ∀ w ∈ c.worlds, b.overflows args = false) :
    (b.apply args).Follows c (b.terms args answers) fun w => w.failure? b args := by
  unfold Builtin.apply Builtin.checkCount World.failure?
  split
  · exact fun _ _ => rfl
  · rename_i hcount
    exact h.follows_run (by omega) hfits

omit [Host] in
theorem sliceBounds_of_lt {length : Nat} (h : Int64.maxValue.toInt < length) (start : Int64)
    (stop : Option Int64) : sliceBounds length start stop = Eval.stuck .outOfRange :=
  if_neg (not_le.mpr h)

/-- There is no slice of what tells too many places. -/
theorem sliceValue_of_lt_length {scope : Scope} {w after : World} {n : Nat}
    (hcounted : w.isCounted v = true) (hlength : v.length scope w = .done n after)
    (h : Int64.maxValue.toInt < n) (start : Int64) (stop : Option Int64) :
    sliceValue v start stop scope w = .stuck .outOfRange := by
  unfold sliceValue
  split
  · obtain ⟨rfl, -⟩ := Reply.done.inj hlength
    rw [sliceBounds_of_lt h]
    rfl
  · rename_i hstring
    rw [Circumstances.isCounted_of_ne_string hstring] at hcounted
    rw [Value.kind, Eval.bind_of_done (Eval.reads_apply _ _ _), if_pos hcounted,
      Eval.bind_of_done hlength, sliceBounds_of_lt h]
    rfl

theorem apply_slice_of_lt_length {rest : List Value} {scope : Scope} {w after : World} {n : Nat}
    (h : w.failure? .slice (v :: rest) = none) (hlength : v.length scope w = .done n after)
    (hn : Int64.maxValue.toInt < n) :
    Builtin.slice.apply (v :: rest) scope w = .stuck .outOfRange := by
  unfold World.failure? at h
  split at h
  · cases h
  rename_i hcount
  obtain ⟨hfault, hunsupported⟩ := Option.or_eq_none_iff.mp h
  have hcounted : w.isCounted v = true := by simpa [World.unsupported?] using hunsupported
  have hchecks : ∀ check ∈ Builtin.slice.checks, check.fault? .slice (v :: rest) = none :=
    List.findSome?_eq_none_iff.mp hfault
  have hinteger (i : Nat) (hi : ⟨i, .integer, true⟩ ∈ Builtin.slice.checks) :
      ∃ n?, optionalIntegerAt .slice (v :: rest) i = pure n? := by
    have hchecked : (optionalIntegerAt .slice (v :: rest) i).Checks _ _ :=
      checks_optionalIntegerAt
    rw [hchecks _ hi] at hchecked
    obtain ⟨n?, -, heq⟩ := hchecked
    exact ⟨n?, heq⟩
  obtain ⟨start, hstart⟩ := hinteger 1 (by simp [Builtin.checks])
  obtain ⟨stop, hstop⟩ := hinteger 2 (by simp [Builtin.checks])
  have hrun : Builtin.slice.apply (v :: rest) = sliceValue v (start.getD 0) stop := by
    rw [Builtin.apply, Builtin.checkCount, if_neg hcount]
    simp only [Builtin.run, Builtin.argument_zero, pure_bind, hstart, hstop]
  rw [hrun]
  exact sliceValue_of_lt_length hcounted hlength hn _ _

/-- What has places tells how many. -/
theorem length_of_extent_pos (h : 0 < v.extent) (scope : Scope) (w : World) :
    v.length scope w = .done v.extent w := by
  cases v with
  | string s => rfl
  | array items => simp [Value.length, Value.extent, Eval.pure_apply]
  | typed items => rfl
  | iterable id label length items lengthFault faults =>
    cases lengthFault with
    | none => rfl
    | some raised => exact absurd h (Nat.lt_irrefl 0)
  | _ => exact absurd h (Nat.lt_irrefl 0)

theorem apply_of_overflows {scope : Scope} {w : World} (h : w.failure? b args = none)
    (hoverflows : b.overflows args) : b.apply args scope w = .stuck .outOfRange := by
  unfold Builtin.overflows at hoverflows
  split at hoverflows
  · rename_i v rest
    have hextent : Int64.maxValue.toInt < v.extent := of_decide_eq_true hoverflows
    have hpos : 0 < v.extent := by
      have hmax : 0 ≤ Int64.maxValue.toInt := by decide
      omega
    exact apply_slice_of_lt_length h (length_of_extent_pos hpos scope w) hextent
  · cases hoverflows

/-- **The error policy of the named operations.** A call fails at once, with nothing run, where
the number of arguments, an argument or a value that is not supported says so. If the arguments
can be taken apart, callbacks succeed and what is compared is data, every other call answers,
except for a comparison that answers what is no number; it makes notes, and it reports at most
once that it does not support a value, and then gives the answer that goes with it. The
exception is a slice of what has too many places, be they all there or told by something that
runs. -/
theorem error_policy (b : Builtin) (args : List Value) :
    (∀ scope w e, w.failure? b args = some e → b.apply args scope w = .failed e w) ∧
    (∀ c answers, b.Serves args c answers → b.overflows args = false →
      ∀ scope ∈ c.scopes, ∀ w ∈ c.worlds, w.failure? b args = none →
        (b.apply args scope w).OnTerms c (b.terms args answers) scope w) ∧
    (∀ scope w, w.failure? b args = none → b.overflows args →
      b.apply args scope w = .stuck .outOfRange) ∧
    ∀ scope w, w.failure? b args = none → b = .slice → ∀ v ∈ args.head?, ∀ n after,
      v.length scope w = .done n after → Int64.maxValue.toInt < n →
        b.apply args scope w = .stuck .outOfRange := by
  refine ⟨fun scope w e he => ?_, fun c answers h hfits scope hscope w hw hfailure => ?_,
    fun scope w => apply_of_overflows, fun scope w hfailure hslice v hv n after hlength hn => ?_⟩
  · -- A failure does not depend on the circumstances, so there may be none.
    have hempty := serves_empty b args fun _ _ => True
    have hfollows := follows_apply hempty (fun _ hw => hw.elim) scope w
    dsimp only at hfollows
    rwa [he] at hfollows
  · have hfollows := follows_apply h (fun _ _ => hfits) scope w
    dsimp only at hfollows
    rw [hfailure] at hfollows
    exact hfollows hscope hw
  · subst hslice
    obtain ⟨rest, rfl⟩ := List.head?_eq_some_iff.mp hv
    exact apply_slice_of_lt_length hfailure hlength hn

end Calls

/-- Calls that answer or fail by what a body answers, that fail at once, and that are slices of
too much. -/
theorem error_policy_sorted :
    let six : Function := ⟨0, "six", .script (.integer 6)⟩
    let v : Value := .iterable 0 "iterable" 3 [.integer 2, .string "a"] none []
    let long : Value := .iterable 1 "long" 9223372036854775808 [.integer 1] none []
    let endless : Host := { Script.hostWithin 2 with
      foreign := fun _ => ⟨pure 9223372036854775808, fun _ => pure .undefined⟩ }
    letI := Script.hostWithin 2
    (({} : World).failure? .sorted [] = some (.arity "sorted" 1 3 0 Builtin.sorted.signature) ∧
      ∃ e, Builtin.sorted.apply [] {} {} = .failed e {}) ∧
    ((Builtin.sorted.Serves [v, .function six] .everywhere (fun _ answer => answer = .integer 6) ∧
        ({} : World).failure? .sorted [v, .function six] = none) ∧
      (Builtin.sorted.apply [v, .function six] {} {}).OnTerms .everywhere
        (Builtin.sorted.terms [v, .function six] fun _ answer => answer = .integer 6) {} {}) ∧
    ((({} : World).failure? .slice [long] = none ∧ Builtin.slice.overflows [long]) ∧
      Builtin.slice.apply [long] {} {} = .stuck .outOfRange) ∧
    @Builtin.apply endless .slice [.foreign default] {} {} = .stuck .outOfRange := by
  intro six v long endless
  let _ := Script.hostWithin 2
  have hserves : Builtin.sorted.Serves [v, .function six] .everywhere
      fun _ answer => answer = .integer 6 := by
    have hitems : ∀ u ∈ [Value.integer 2, .string "a"], Circumstances.everywhere.Opens u :=
      List.forall_mem_cons.mpr ⟨Circumstances.opens_of_no_container fun _ => rfl,
        List.forall_mem_singleton.mpr (Circumstances.opens_of_no_container fun _ => rfl)⟩
    refine ⟨?_, fun f hf => ?_, List.forall_mem_nil _, List.forall_mem_nil _,
      List.forall_mem_nil _, fun hb => ?_⟩
    · exact List.forall_mem_cons.mpr ⟨Circumstances.opens_iterable hitems,
        List.forall_mem_singleton.mpr (Circumstances.opens_of_no_container fun _ => rfl)⟩
    · obtain rfl : f = six := List.mem_singleton.mp hf
      exact fun given scope _ w hw => .done (.refl hw) rfl
    · cases hb
  have hfailure : ({} : World).failure? .sorted [v, .function six] = none := rfl
  have hlong : ({} : World).failure? .slice [long] = none := rfl
  have hoverflows : Builtin.slice.overflows [long] := by decide
  have hfew : ({} : World).failure? .sorted [] =
      some (.arity "sorted" 1 3 0 Builtin.sorted.signature) := rfl
  exact ⟨⟨hfew, _, (error_policy .sorted []).1 {} {} _ hfew⟩, ⟨⟨hserves, hfailure⟩,
    (error_policy .sorted [v, .function six]).2.1 _ _ hserves rfl {} trivial {} trivial hfailure⟩,
    ⟨⟨hlong, hoverflows⟩, (error_policy .slice [long]).2.2.1 {} {} hlong hoverflows⟩,
    (@error_policy endless .slice [.foreign default]).2.2.2 {} {} rfl rfl _ rfl _ {} rfl (by decide)⟩

/-- A slice of an iterable whose length and elements can all be had. -/
theorem slice_out_of_range :
    let v : Value := .iterable 0 "it" 9223372036854775808 [.integer 1, .integer 2] none []
    let args : List Value := [v, .integer 0, .integer 2]
    letI := Script.hostWithin 0
    Builtin.slice.Serves args .everywhere (fun _ _ => False) ∧
      ({} : World).failure? .slice args = none ∧
      Builtin.slice.apply args {} {} = .stuck .outOfRange := by
  intro v args
  let _ := Script.hostWithin 0
  have hscalar (n : Int64) : Circumstances.everywhere.Opens (.integer n) :=
    Circumstances.opens_of_no_container fun _ => rfl
  have hv : Circumstances.everywhere.Opens v :=
    Circumstances.opens_iterable (by simp [hscalar])
  have hserves : Builtin.slice.Serves args .everywhere fun _ _ => False :=
    ⟨by simp [args, hv, hscalar], List.forall_mem_nil _, List.forall_mem_nil _,
      List.forall_mem_nil _, List.forall_mem_nil _, by simp [args, v, Circumstances.Counts]⟩
  have hfailure : ({} : World).failure? .slice args = none := rfl
  exact ⟨hserves, hfailure, apply_of_overflows hfailure (by decide)⟩

end DynamicObjects
