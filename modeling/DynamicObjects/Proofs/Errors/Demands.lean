import DynamicObjects.Proofs.Closure.Builtins
import DynamicObjects.Proofs.Errors.Comparisons
import DynamicObjects.Proofs.Errors.Sorting

/-!
# What named operations demand

Each named operation checks some of its arguments (`Builtin.checks`), in order, and the first
one that is not what is wanted is its failure (`Builtin.fault?`). Three operations also fail on
values that they do not support, which depends on the world (`World.unsupported?`). Before all
of that the number of arguments is checked (`World.failure?`).

Other operations do not fail on what they do not support, but report it and answer something
else (`Builtin.refusal?`).

* `World.failure?`: how a call fails before it begins.
* `Builtin.terms`: what may become of a call otherwise.
* `Builtin.Serves`: what an operation demands of values and callbacks.
-/

namespace DynamicObjects

variable {α : Type}

/-! ## Checks -/

/-- What an argument may have to be. -/
inductive Wanted where
  | integer
  | function
  | cls
  /-- A function, or a list of functions. -/
  | comparison

/-- How an operation fails for a value that is not what is wanted in a place. -/
def Wanted.mismatch? (b : Builtin) (place : Nat) : Wanted → Value → Option Failure
  | integer, .integer _ | function, .function _ | cls, .cls _ | comparison, .function _ => none
  | comparison, .array items =>
    (items.find? fun item => !item.isFunction).map (b.typeFailure "every extractor" "Function")
  | integer, v => some (b.typeFailure (Builtin.role place) "Int" v)
  | function, v => some (b.typeFailure (Builtin.role place) "Function" v)
  | cls, v => some (b.typeFailure (Builtin.role place) "Class" v)
  | comparison, v =>
    some (b.typeFailure (Builtin.role place) "Function or Array of Functions" v)

/-- A check of an argument. -/
structure ArgumentCheck where
  place : Nat
  wanted : Wanted
  /-- Whether the argument may be left out. -/
  optional : Bool

/-- How a check fails. -/
def ArgumentCheck.fault? (b : Builtin) (args : List Value) (check : ArgumentCheck) :
    Option Failure :=
  (if check.optional then optionalAt args check.place else args[check.place]?).bind
    (check.wanted.mismatch? b check.place)

namespace Builtin

/-- The checks of an operation, in order. -/
def checks : Builtin → List ArgumentCheck
  | offset | insert => [⟨1, .integer, false⟩]
  | copy => [⟨1, .integer, true⟩]
  | slice => [⟨1, .integer, true⟩, ⟨2, .integer, true⟩]
  | findLike | map | reduce => [⟨1, .function, false⟩]
  | filter | asMap => [⟨1, .function, false⟩, ⟨2, .function, true⟩]
  | first | last => [⟨1, .function, true⟩]
  | isIn => [⟨2, .function, true⟩]
  | foldl => [⟨2, .function, false⟩]
  | isInstance => [⟨1, .cls, true⟩]
  | sorted => [⟨1, .comparison, true⟩]
  | _ => []

/-- The first check that fails. -/
def fault? (b : Builtin) (args : List Value) : Option Failure :=
  b.checks.findSome? (ArgumentCheck.fault? b args)

end Builtin

/-! ## Values that are not supported -/

namespace World

/-- Whether the places of a value are counted: strings, sequences, generic iterables. -/
def isCounted (w : World) (v : Value) : Bool := v.isString || (w.kind v).isListLike

/-- The failure of a value that an operation does not support. -/
def unsupported? (w : World) : Builtin → List Value → Option Failure
  | .slice, v :: _ => if w.isCounted v then none else some (.unsupportedType "slice" v.typeName)
  | .access, v :: .integer i :: _ =>
    if 0 ≤ i ∨ w.isCounted v then none else some (.unsupportedType "access" v.typeName)
  | .sorted, v :: _ =>
    if w.kind v = .function ∨ w.kind v = .instanceKind then
      some (.unsupportedType "sorted" v.typeName)
    else none
  | _, _ => none

/-- The failure of a call with the wrong number of arguments, with an argument of the wrong
type, or with a value that is not supported. -/
def failure? (w : World) (b : Builtin) (args : List Value) : Option Failure :=
  if args.length < b.fewest ∨ b.most < args.length then
    some (.arity b.name b.fewest b.most args.length b.signature)
  else (b.fault? args).or (w.unsupported? b args)

end World

/-! ## What may become of a call -/

/-- What an operation reports and answers when it refuses its arguments. -/
def Builtin.refusal? (b : Builtin) (args : List Value) : Option (Diagnostic × Value) :=
  match b, args with
  | .map, v :: _ | .filter, v :: _ => some (b.unsupportedReport .warn v, v)
  | .merge, v :: other :: _ =>
    some (b.unsupportedReport .error (Circumstances.unmerged v other), v)
  | .insert, v :: _ | .add, v :: _ | .reverse, v :: _ | .difference, v :: _ | .union, v :: _
  | .intersection, v :: _ | .couplesAsMap, v :: _ | .itemsAsMap, v :: _ =>
    some (b.unsupportedReport .error v, .none)
  | _, _ => none

/-- The terms of an operation, given what callbacks answer. Only a comparison by a function may
fail. -/
def Builtin.terms (b : Builtin) (args : List Value) (answers : Function → Value → Prop) :
    Terms Value where
  answers := fun _ => True
  fails := fun e => ∃ f, b = .sorted ∧ args[1]? = some (.function f) ∧ FailsByResult (answers f) e
  refuses := b.refusal? args

/-- The number of elements or characters that a value tells without running anything. -/
def Value.extent : Value → Nat
  | .string s => s.length
  | .array items => items.length
  | .typed items => items.length
  | .iterable _ _ length _ Option.none _ => length
  | _ => 0

/-- Whether places are counted that do not fit into sixty-four bits with a sign. -/
def Builtin.overflows : Builtin → List Value → Bool
  | .slice, v :: _ => Int64.maxValue.toInt < v.extent
  | _, _ => false

/-! ## What is demanded -/

/-- What is compared: arguments, elements of arguments, answers of callbacks. -/
structure Compared where
  themselves : List Value := []
  containers : List Value := []
  callbacks : List Function := []

/-- What an operation compares. Maps as sets are compared by their keys. -/
def Builtin.compared : Builtin → List Value → Compared
  | .find, v :: needle :: _ => { themselves := [needle], containers := [v] }
  | .findOneOf, v :: other :: _ => { containers := [v, other] }
  | .remove, .array list :: needle :: _ =>
    { themselves := [needle], containers := [.array list] }
  | .isIn, v :: container :: rest =>
    if (optionalAt (v :: container :: rest) 2).isSome then {}
    else { themselves := [v], containers := [container] }
  | .merge, .array list :: other :: _ => { containers := [.array list, other] }
  | .difference, v :: other :: _ =>
    if v.isMap && other.isMap then {} else { containers := [v, other] }
  | .union, v :: other :: _ => if v.isMap then {} else { containers := [v, other] }
  | .intersection, v :: other :: _ =>
    if v.isMap || other.isMap then {} else { containers := [v, other] }
  | .cmp, v :: other :: _ | .greater, v :: other :: _ | .smaller, v :: other :: _ =>
    { themselves := [v, other] }
  | .sorted, v :: rest =>
    match optionalAt (v :: rest) 1 with
    | none => { containers := [v] }
    | some (.array list) => { callbacks := (Value.array list).functions }
    | some _ => {}
  | _, _ => {}

/-- If a value is a foreign container, it has no more places than fit into sixty-four bits with
a sign. -/
def Circumstances.Counts [Host] (c : Circumstances) (v : Value) : Prop :=
  ∀ i, v = .foreign i →
    (Host.foreign i).length.Succeeds c fun n : Nat => n ≤ Int64.maxValue.toInt

/-- Arguments can be taken apart, callbacks succeed, what is compared is data, and the places of
what is sliced can be counted. -/
structure Builtin.Serves [Host] (b : Builtin) (args : List Value) (c : Circumstances)
    (answers : Function → Value → Prop) : Prop where
  opens : ∀ v ∈ args, c.Opens v
  calls : ∀ f ∈ b.callbacks args, c.Calls f (answers f)
  themselves : ∀ v ∈ (b.compared args).themselves, c.Data v
  containers : ∀ v ∈ (b.compared args).containers, c.Offers v c.Data
  answers : ∀ f ∈ (b.compared args).callbacks, ∀ v, answers f v → c.Data v
  counts : b = .slice → ∀ v ∈ args.head?, c.Counts v

/-! ## Carrying out checks -/

/-- A computation carries out a check and nothing else: it fails, or it gives something. -/
def Eval.Checks (x : Eval α) (gives : α → Prop) : Option Failure → Prop
  | none => ∃ a, gives a ∧ x = pure a
  | some e => x = Eval.fail e

theorem Eval.Checks.imp {x : Eval α} {gives gives' : α → Prop} {fault? : Option Failure}
    (h : x.Checks gives fault?) (himp : ∀ a, gives a → gives' a) : x.Checks gives' fault? := by
  cases fault? with
  | none =>
    obtain ⟨a, ha, rfl⟩ := h
    exact ⟨a, himp a ha, rfl⟩
  | some e => exact h

section Checking

variable {b : Builtin} {args : List Value} {i : Nat} {v : Value}

theorem functions_array (extractors : List Function) :
    (Value.array (extractors.map .function)).functions = extractors := by
  simp [Value.functions, Value.function?, Function.comp_def]

theorem checks_integer (h : args[i]? = some v) :
    (integerAt b args i).Checks (fun n => v = .integer n) (Wanted.integer.mismatch? b i v) := by
  rw [integerAt, argument, h]
  cases v with
  | integer n => exact ⟨n, rfl, rfl⟩
  | _ => exact rfl

theorem checks_function (h : args[i]? = some v) :
    (functionAt b args i).Checks (fun f => v = .function f) (Wanted.function.mismatch? b i v) := by
  rw [functionAt, argument, h]
  cases v with
  | function f => exact ⟨f, rfl, rfl⟩
  | _ => exact rfl

/-- What may be left out is checked when it is there. -/
theorem Eval.Checks.optional {x : Eval α} {gives : α → Prop} {fault? : Option Failure}
    (h : x.Checks gives fault?) :
    (do return some (← x) : Eval (Option α)).Checks (fun a? => ∃ a, gives a ∧ a? = some a)
      fault? := by
  cases fault? with
  | none =>
    obtain ⟨a, ha, rfl⟩ := h
    exact ⟨some a, ⟨a, ha, rfl⟩, rfl⟩
  | some e =>
    obtain rfl : x = Eval.fail e := h
    exact rfl

theorem fault?_required (h : args[i]? = some v) (wanted : Wanted) :
    ArgumentCheck.fault? b args ⟨i, wanted, false⟩ = wanted.mismatch? b i v := by
  simp only [ArgumentCheck.fault?, Bool.false_eq_true, if_false, h, Option.bind_some]

theorem fault?_optional (wanted : Wanted) :
    ArgumentCheck.fault? b args ⟨i, wanted, true⟩ =
      (optionalAt args i).bind (wanted.mismatch? b i) :=
  rfl

theorem checks_integerAt (hi : i < args.length) :
    (integerAt b args i).Checks (fun n => args[i]? = some (.integer n))
      (ArgumentCheck.fault? b args ⟨i, .integer, false⟩) := by
  have hv : args[i]? = some args[i] := List.getElem?_eq_getElem hi
  rw [fault?_required hv, hv]
  simpa only [Option.some.injEq] using checks_integer hv

theorem checks_functionAt (hi : i < args.length) :
    (functionAt b args i).Checks (fun f => args[i]? = some (.function f))
      (ArgumentCheck.fault? b args ⟨i, .function, false⟩) := by
  have hv : args[i]? = some args[i] := List.getElem?_eq_getElem hi
  rw [fault?_required hv, hv]
  simpa only [Option.some.injEq] using checks_function hv

theorem checks_optionalIntegerAt :
    (optionalIntegerAt b args i).Checks (fun n? => optionalAt args i = n?.map .integer)
      (ArgumentCheck.fault? b args ⟨i, .integer, true⟩) := by
  rw [optionalIntegerAt, fault?_optional]
  cases h : optionalAt args i with
  | none => exact ⟨none, rfl, rfl⟩
  | some v =>
    refine (checks_integer (getElem?_of_optionalAt h)).optional.imp ?_
    rintro _ ⟨n, rfl, rfl⟩
    rfl

theorem checks_optionalFunctionAt :
    (optionalFunctionAt b args i).Checks (fun f? => optionalAt args i = f?.map .function)
      (ArgumentCheck.fault? b args ⟨i, .function, true⟩) := by
  rw [optionalFunctionAt, fault?_optional]
  cases h : optionalAt args i with
  | none => exact ⟨none, rfl, rfl⟩
  | some v =>
    refine (checks_function (getElem?_of_optionalAt h)).optional.imp ?_
    rintro _ ⟨f, rfl, rfl⟩
    rfl

/-! ### Ways to sort -/

/-- The failure at the first extractor that is none. -/
theorem checks_extractorsOf (items : List Value) :
    (extractorsOf items).Checks (fun extractors => items = extractors.map .function)
      ((items.find? fun item => !item.isFunction).map
        (Builtin.sorted.typeFailure "every extractor" "Function")) := by
  induction items with
  | nil => exact ⟨[], rfl, rfl⟩
  | cons item rest ih =>
    cases item with
    | function f =>
      generalize hfault : (rest.find? fun item => !item.isFunction).map _ = fault? at ih
      have hfault' : ((Value.function f :: rest).find? fun item => !item.isFunction).map
          (Builtin.sorted.typeFailure "every extractor" "Function") = fault? := hfault
      rw [hfault', extractorsOf]
      cases fault? with
      | none =>
        obtain ⟨extractors, rfl, heq⟩ := ih
        exact ⟨f :: extractors, rfl, by rw [heq]; rfl⟩
      | some e =>
        have heq : extractorsOf rest = Eval.fail e := ih
        rw [heq]
        exact rfl
    | _ => exact rfl

/-- What an argument describes: the order of values, a comparison by a function, or keys. -/
inductive DescribesComparison [Host] : Option Value → Comparison → Prop
  | natural : DescribesComparison none .natural
  | comparator (f : Function) : DescribesComparison (some (.function f))
      (.comparator fun a b => do signOf (← Host.call f [a, b]))
  | extractors (extractors : List Function) :
      DescribesComparison (some (.array (extractors.map .function)))
        (.extractors (extractors.map fun f v => Host.call f [v]))

theorem checks_comparisonOf [Host] :
    (comparisonOf (optionalAt args 1)).Checks (DescribesComparison (optionalAt args 1))
      (ArgumentCheck.fault? .sorted args ⟨1, .comparison, true⟩) := by
  rw [fault?_optional]
  cases optionalAt args 1 with
  | none => exact ⟨_, .natural, rfl⟩
  | some v =>
    rw [Option.bind_some]
    cases v with
    | function f => exact ⟨_, .comparator f, rfl⟩
    | array items =>
      have hextractors := checks_extractorsOf items
      rw [comparisonOf, Wanted.mismatch?]
      generalize (items.find? fun item => !item.isFunction).map _ = fault? at hextractors ⊢
      cases fault? with
      | none =>
        obtain ⟨extractors, rfl, heq⟩ := hextractors
        exact ⟨_, .extractors extractors, by rw [heq]; rfl⟩
      | some e =>
        have heq : extractorsOf items = Eval.fail e := hextractors
        rw [heq]
        exact rfl
    | _ => exact rfl

end Checking

end DynamicObjects
