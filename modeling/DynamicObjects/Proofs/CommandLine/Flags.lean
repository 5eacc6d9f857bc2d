import DynamicObjects.CommandLine

/-!
# Where flags stand

A run takes `--reverse` out of its arguments wherever it stands, then the first `--config` and what
comes after it. So it makes no difference where flags stand among the other arguments, nor how
often `--reverse` is repeated, be it between `--config` and its path.

* `Interspersed`, `Arranged`: arguments with flags among them.
* `Arranged.splits`: what is left when the flags have been taken out.
* `flags_anywhere`: runs whose flags stand elsewhere.
-/

namespace DynamicObjects.CommandLine

/-- Arguments between which a flag has been put, anywhere, so many times. -/
inductive Interspersed (flag : String) : Nat → List String → List String → Prop
  | nil : Interspersed flag 0 [] []
  | keep {count : Nat} {plain args : List String} (arg : String)
      (h : Interspersed flag count plain args) :
      Interspersed flag count (arg :: plain) (arg :: args)
  | insert {count : Nat} {plain args : List String} (h : Interspersed flag count plain args) :
      Interspersed flag (count + 1) plain (flag :: args)

/-- Positional arguments with flags among them: so many times `--reverse`, and `--config` with a
path if there is one. Between the two may stand further flags. -/
inductive Arranged (reversals : Nat) : Option String → List String → List String → Prop
  | unset {positionals args : List String}
      (h : Interspersed reverseFlag reversals positionals args) :
      Arranged reversals none positionals args
  | set {before after args : List String} {path : String}
      (h : Interspersed reverseFlag reversals (before ++ configFlag :: path :: after) args) :
      Arranged reversals (some path) (before ++ after) args

/-- Positional arguments and then the flags, each of them once. -/
def withFlags (positionals : List String) (reversed : Bool) (path : Option String) :
    List String :=
  positionals ++ ((if reversed then [reverseFlag] else []) ++
    path.elim [] fun path => [configFlag, path])

/-- The source of the settings that a path stands for, if there is one. -/
def SettingsSource.ofPath : Option String → SettingsSource
  | none => .environment
  | some path => .file path

/-! ## Flags taken out -/

namespace Interspersed

variable {flag : String} {count : Nat} {plain args : List String}

theorem refl (flag : String) (plain : List String) : Interspersed flag 0 plain plain := by
  induction plain with
  | nil => exact .nil
  | cons arg rest ih => exact .keep arg ih

theorem append_left (h : Interspersed flag count plain args) (before : List String) :
    Interspersed flag count (before ++ plain) (before ++ args) := by
  induction before with
  | nil => exact h
  | cons arg rest ih => exact .keep arg ih

theorem filter_eq (h : Interspersed flag count plain args) (hplain : flag ∉ plain) :
    args.filter (fun arg => arg != flag) = plain := by
  induction h with
  | nil => rfl
  | @keep _ rest args arg _ ih =>
    rw [List.mem_cons, not_or] at hplain
    have hkept : (arg != flag) = true := bne_iff_ne.mpr (Ne.symm hplain.1)
    rw [List.filter_cons, if_pos hkept, ih hplain.2]
  | insert _ ih => rw [List.filter_cons_of_neg (by simp), ih hplain]

theorem contains_eq (h : Interspersed flag count plain args) (hplain : flag ∉ plain) :
    args.contains flag = decide (0 < count) := by
  induction h with
  | nil => rfl
  | @keep _ rest args arg _ ih =>
    rw [List.mem_cons, not_or] at hplain
    rw [List.contains_cons, ih hplain.2, beq_eq_false_iff_ne.mpr hplain.1, Bool.false_or]
  | insert => simp

end Interspersed

/-- What stands before the flag for settings is passed over. -/
theorem splitConfig_append {before : List String} (h : configFlag ∉ before) (rest : List String) :
    splitConfig (before ++ rest) = ((splitConfig rest).1, before ++ (splitConfig rest).2) := by
  induction before with
  | nil => rfl
  | cons arg before ih =>
    rw [List.mem_cons, not_or] at h
    simp [splitConfig, Ne.symm h.1, ih h.2]

namespace Arranged

variable {reversals : Nat} {path : Option String} {positionals args : List String}

/-- Flags that stand last are one arrangement. -/
theorem withFlags (positionals : List String) (reversed : Bool) (path : Option String) :
    Arranged reversed.toNat path positionals (withFlags positionals reversed path) := by
  have hflags (last : List String) : Interspersed reverseFlag reversed.toNat last
      ((if reversed then [reverseFlag] else []) ++ last) := by
    cases reversed with
    | false => exact .refl reverseFlag last
    | true => exact .insert (.refl reverseFlag last)
  cases path with
  | none =>
    have harranged := Arranged.unset ((hflags []).append_left positionals)
    rwa [List.append_nil positionals] at harranged
  | some path =>
    have harranged :=
      @Arranged.set _ positionals [] _ path ((hflags [configFlag, path]).append_left positionals)
    rwa [List.append_nil] at harranged

section Positional

variable (h : Arranged reversals path positionals args)
  (hpositional : ∀ arg ∈ positionals, arg ≠ reverseFlag ∧ arg ≠ configFlag)
  (hpath : path ≠ some reverseFlag)
include h hpositional hpath

/-- Taking out `--reverse` first leaves `--config` beside its path. -/
theorem splits : args.contains reverseFlag = decide (0 < reversals) ∧
    splitConfig (args.filter fun arg => arg != reverseFlag) =
      (SettingsSource.ofPath path, positionals) := by
  have hplain : reverseFlag ∉ positionals := fun hmem => (hpositional _ hmem).1 rfl
  cases h with
  | unset h =>
    have hconfig : configFlag ∉ positionals := fun hmem => (hpositional _ hmem).2 rfl
    rw [h.contains_eq hplain, h.filter_eq hplain, splitConfig_of_not_mem hconfig]
    exact ⟨rfl, rfl⟩
  | @set before after args path h =>
    have hconfig : configFlag ∉ before := fun hmem =>
      (hpositional _ (List.mem_append_left after hmem)).2 rfl
    have hwhole : reverseFlag ∉ before ++ configFlag :: path :: after := by
      have hflags : reverseFlag ≠ configFlag := by decide
      have hother : reverseFlag ≠ path := fun heq => hpath (congrArg some heq.symm)
      simpa [hflags, hother] using hplain
    have hpath : splitConfig (configFlag :: path :: after) = (.file path, after) := by
      simp [splitConfig]
    rw [h.contains_eq hwhole, h.filter_eq hwhole, splitConfig_append hconfig, hpath]
    exact ⟨rfl, rfl⟩

end Positional

end Arranged

/-- Arguments that split alike run alike. -/
theorem run_congr {m : Type → Type} [Monad m] (surroundings : Surroundings m)
    {args others : List String}
    (hreverse : args.contains reverseFlag = others.contains reverseFlag)
    (hsplit : splitConfig (args.filter fun arg => arg != reverseFlag) =
      splitConfig (others.filter fun arg => arg != reverseFlag)) :
    run surroundings args = run surroundings others := by
  rw [run, run, hreverse, hsplit]

/-- **Flags stand anywhere.** A run with flags among its positional arguments, `--reverse` any
number of times, leaves the same as one with the positional arguments first, `--reverse` once
after them if it was there, and the path of the settings last. -/
theorem flags_anywhere {m : Type → Type} [Monad m] (surroundings : Surroundings m)
    {reversals : Nat} {path : Option String} {positionals args : List String}
    (hpositional : ∀ arg ∈ positionals, arg ≠ reverseFlag ∧ arg ≠ configFlag)
    (hpath : path ≠ some reverseFlag) (h : Arranged reversals path positionals args) :
    run surroundings args =
      run surroundings (withFlags positionals (decide (0 < reversals)) path) := by
  have hlast := Arranged.withFlags positionals (decide (0 < reversals)) path
  obtain ⟨hreverse, hsplit⟩ := h.splits hpositional hpath
  obtain ⟨hreverse', hsplit'⟩ := hlast.splits hpositional hpath
  refine run_congr surroundings ?_ (hsplit.trans hsplit'.symm)
  rw [hreverse, hreverse']
  cases reversals <;> rfl

/-- Flags before the operation, between `--config` and its path, and after the input. -/
theorem flags_anywhere_between :
    let files : Directory := [("two.json", "[1, 2]"), ("settings.json", "[]")]
    let surroundings : Surroundings Id := ⟨files.read, .error .notText, []⟩
    let positionals := ["sorted", "two.json"]
    let args := ["--reverse", "sorted", "--config", "--reverse", "settings.json", "two.json",
      "--reverse"]
    (∀ arg ∈ positionals, arg ≠ reverseFlag ∧ arg ≠ configFlag) ∧
      some "settings.json" ≠ some reverseFlag ∧
      Arranged 3 (some "settings.json") positionals args ∧
      run surroundings args = run surroundings
        ["sorted", "two.json", "--reverse", "--config", "settings.json"] := by
  intro files surroundings positionals args
  have hpositional : ∀ arg ∈ positionals, arg ≠ reverseFlag ∧ arg ≠ configFlag := by decide
  have hpath : some "settings.json" ≠ some reverseFlag := by decide
  have harranged : Arranged 3 (some "settings.json") positionals args :=
    @Arranged.set 3 ["sorted"] ["two.json"] args "settings.json" <|
      .insert (.keep _ (.keep _ (.insert (.keep _ (.keep _ (.insert .nil))))))
  exact ⟨hpositional, hpath, harranged, flags_anywhere surroundings hpositional hpath harranged⟩

end DynamicObjects.CommandLine
