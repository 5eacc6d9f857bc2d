import DynamicObjects.Proofs.Number.Comparison
import Mathlib.Data.Rat.Floor
import Mathlib.Tactic.FieldSimp
import Mathlib.Tactic.NormNum
import Mathlib.Tactic.Positivity
import Mathlib.Tactic.Ring

/-!
# The numbers that doubles write

A finite double is read here as the interchange format has it: a sign, and a fraction
times a power of two (`Binary64.value`). Its grains are that number without the
denominator (`value_eq`), so comparing grains is comparing numbers (`compare?_read`).

Clearing the bits of the fraction that stand behind the point (`Binary64.truncate`)
leaves the integer part, towards zero. Between the two limits that a comparison with
integers looks at first, this part is an integer of sixty-four bits
(`integerPart_of_inIntegerRange`).
-/

namespace DynamicObjects.Number

namespace Binary64

variable {x : Binary64}

/-! ## Fields -/

/-- The eleven bits of the exponent, as a number. -/
def exponentField (x : Binary64) : Nat := x.magnitude / 2 ^ 52

/-- The fifty-two bits of the fraction, as a number. -/
def fractionField (x : Binary64) : Nat := x.magnitude % 2 ^ 52

theorem magnitude_eq (x : Binary64) : x.magnitude = x.exponentField * 2 ^ 52 + x.fractionField :=
  (Nat.div_add_mod' x.magnitude (2 ^ 52)).symm

theorem fractionField_lt (x : Binary64) : x.fractionField < 2 ^ 52 := Nat.mod_lt _ (by decide)

theorem exponentField_le (x : Binary64) : x.exponentField ≤ 2047 := by
  have hmagnitude := x.magnitude_eq
  have hlt : x.magnitude < 2 ^ 63 := Nat.mod_lt _ (by decide)
  omega

theorem isFinite_iff : x.isFinite = true ↔ x.exponentField ≠ 2047 := by
  have hmagnitude := x.magnitude_eq
  have hfraction := x.fractionField_lt
  have hexponent := x.exponentField_le
  rw [isFinite, decide_eq_true_eq, infiniteMagnitude, Nat.pow_eq]
  omega

theorem isNaN_iff : x.isNaN = true ↔ x.exponentField = 2047 ∧ x.fractionField ≠ 0 := by
  have hmagnitude := x.magnitude_eq
  have hfraction := x.fractionField_lt
  have hexponent := x.exponentField_le
  rw [isNaN, decide_eq_true_eq, infiniteMagnitude, Nat.pow_eq]
  omega

theorem grains_eq (x : Binary64) :
    x.grains = (if x.exponentField = 0 then x.fractionField else 2 ^ 52 + x.fractionField) *
      2 ^ (x.exponentField - 1) := by
  have hmagnitude := x.magnitude_eq
  have hfraction := x.fractionField_lt
  rw [grains, significand, shift, Nat.pow_eq, Nat.pow_eq]
  by_cases h : x.exponentField = 0
  · rw [if_pos (by omega), if_pos h, hmagnitude, h, Nat.zero_mul, Nat.zero_add,
      Nat.div_eq_of_lt hfraction]
  · rw [if_neg (by omega), if_neg h]
    rfl

/-! ## Values -/

/-- The number that the fields of a finite double write. -/
def value (x : Binary64) : ℚ :=
  (if x.isNegative then -1 else 1) *
    if x.exponentField = 0 then (x.fractionField : ℚ) / 2 ^ 52 * 2 ^ (-1022 : ℤ)
    else (1 + (x.fractionField : ℚ) / 2 ^ 52) * 2 ^ ((x.exponentField : ℤ) - 1023)

/-- A double has as many grains as the number that its fields write. -/
theorem grains_div (x : Binary64) :
    (x.grains : ℚ) / 2 ^ 1074 =
      if x.exponentField = 0 then (x.fractionField : ℚ) / 2 ^ 52 * 2 ^ (-1022 : ℤ)
      else (1 + (x.fractionField : ℚ) / 2 ^ 52) * 2 ^ ((x.exponentField : ℤ) - 1023) := by
  rw [grains_eq]
  generalize x.exponentField = e
  generalize x.fractionField = f
  cases e with
  | zero =>
    have hpow : (2 : ℚ) ^ (-1022 : ℤ) = 2 ^ 52 / 2 ^ 1074 := by
      rw [eq_div_iff (by positivity), ← zpow_natCast (2 : ℚ) 1074, ← zpow_natCast (2 : ℚ) 52,
        ← zpow_add₀ two_ne_zero]
      rfl
    rw [if_pos rfl, if_pos rfl, hpow, Nat.zero_sub, Nat.pow_zero, Nat.mul_one]
    field_simp
  | succ d =>
    have hpow : (2 : ℚ) ^ (((d + 1 : Nat) : ℤ) - 1023) = 2 ^ 52 * 2 ^ d / 2 ^ 1074 := by
      rw [eq_div_iff (by positivity), ← zpow_natCast (2 : ℚ) 1074, ← zpow_natCast (2 : ℚ) 52,
        ← zpow_natCast (2 : ℚ) d, ← zpow_add₀ two_ne_zero, ← zpow_add₀ two_ne_zero]
      congr 1
      push_cast
      ring
    rw [if_neg d.succ_ne_zero, if_neg d.succ_ne_zero, hpow, Nat.add_sub_cancel, Nat.cast_mul,
      Nat.cast_add, Nat.cast_pow, Nat.cast_pow, Nat.cast_ofNat]
    field_simp

/-- The grains of a double, with its sign. -/
def signedGrains (x : Binary64) : ℤ := if x.isNegative then -(x.grains : ℤ) else x.grains

theorem read_of_finite (h : x.exponentField ≠ 2047) : x.read = .finite x.signedGrains := by
  have hnumber : ¬x.isNaN = true := fun hnan => h (isNaN_iff.mp hnan).1
  rw [read, if_neg hnumber, if_pos (isFinite_iff.mpr h), signedGrains]

theorem cast_grainsPerUnit : ((grainsPerUnit : Nat) : ℚ) = 2 ^ 1074 := by
  unfold grainsPerUnit
  generalize 1074 = exponent
  rw [Nat.pow_eq, Nat.cast_pow, Nat.cast_ofNat]

theorem value_eq (x : Binary64) : x.value = x.signedGrains / (grainsPerUnit : Nat) := by
  rw [value, ← grains_div, signedGrains, cast_grainsPerUnit]
  split
  · rw [neg_one_mul, Int.cast_neg, Int.cast_natCast, neg_div]
  · rw [one_mul, Int.cast_natCast]

theorem read_of_not_finite (h : x.exponentField = 2047) :
    x.read = if x.fractionField ≠ 0 then .nan else if x.isNegative then .negInfinity
      else .posInfinity := by
  rw [read]
  by_cases hfraction : x.fractionField = 0
  · have hnumber : ¬x.isNaN = true := fun hnan => (isNaN_iff.mp hnan).2 hfraction
    have hinfinite : ¬x.isFinite = true := fun hfinite => isFinite_iff.mp hfinite h
    rw [if_neg hnumber, if_neg hinfinite, if_neg (not_not.mpr hfraction)]
  · rw [if_pos (isNaN_iff.mpr ⟨h, hfraction⟩), if_pos hfraction]

/-- Both zeros write zero. -/
theorem value_of_isZero (h : x.isZero = true) : x.exponentField ≠ 2047 ∧ x.value = 0 := by
  have hmagnitude : x.magnitude = 0 := beq_iff_eq.mp h
  have hexponent : x.exponentField = 0 := by rw [exponentField, hmagnitude, Nat.zero_div]
  have hfraction : x.fractionField = 0 := by rw [fractionField, hmagnitude, Nat.zero_mod]
  refine ⟨by omega, ?_⟩
  rw [value, if_pos hexponent, hfraction, Nat.cast_zero, zero_div, zero_mul, mul_zero]

/-! ## Truncation -/

/-- The double without what stands behind the point: the bits of the fraction that count less
than one are cleared. -/
def truncate (x : Binary64) : Binary64 :=
  ofMagnitude x.isNegative <|
    if x.exponentField < 1023 then 0
    else x.magnitude - x.fractionField % 2 ^ (1075 - x.exponentField)

theorem toNat_bits_ofMagnitude {m : Nat} (h : m ≤ infiniteMagnitude) (negative : Bool) :
    (ofMagnitude negative m).bits.toNat = (if negative then 2 ^ 63 else 0) + m := by
  have hinfinite : infiniteMagnitude = 2047 * 2 ^ 52 := rfl
  rw [ofMagnitude, Nat.min_eq_left h]
  cases negative
  · simp only [Bool.false_eq_true, if_false, UInt64.toNat_ofNat', Nat.zero_add]
    omega
  · simp only [if_true, UInt64.toNat_ofNat', Nat.pow_eq]
    omega

theorem magnitude_ofMagnitude {m : Nat} (h : m ≤ infiniteMagnitude) (negative : Bool) :
    (ofMagnitude negative m).magnitude = m := by
  have hinfinite : infiniteMagnitude = 2047 * 2 ^ 52 := rfl
  rw [magnitude, toNat_bits_ofMagnitude h, Nat.pow_eq]
  cases negative
  · simp only [Bool.false_eq_true, if_false]
    omega
  · simp only [if_true]
    omega

theorem isNegative_ofMagnitude {m : Nat} (h : m ≤ infiniteMagnitude) (negative : Bool) :
    (ofMagnitude negative m).isNegative = negative := by
  have hinfinite : infiniteMagnitude = 2047 * 2 ^ 52 := rfl
  rw [isNegative, toNat_bits_ofMagnitude h, Nat.pow_eq]
  cases negative
  · simp only [Bool.false_eq_true, if_false, decide_eq_false_iff_not]
    omega
  · simp only [if_true, decide_eq_true_eq]
    omega

theorem magnitude_le_of_finite (h : x.exponentField ≠ 2047) : x.magnitude ≤ infiniteMagnitude := by
  have hfinite := isFinite_iff.mpr h
  rw [isFinite, decide_eq_true_eq] at hfinite
  exact hfinite.le

theorem isNegative_truncate (h : x.exponentField ≠ 2047) :
    x.truncate.isNegative = x.isNegative := by
  have hmagnitude := magnitude_le_of_finite h
  rw [truncate]
  split
  · exact isNegative_ofMagnitude (Nat.zero_le _) _
  · exact isNegative_ofMagnitude ((Nat.sub_le _ _).trans hmagnitude) _

/-- A unit is a power of two. -/
theorem grainsPerUnit_eq {a b : Nat} (h : a + b = 1074) : grainsPerUnit = 2 ^ a * 2 ^ b := by
  unfold grainsPerUnit
  rw [← h, Nat.pow_eq, Nat.pow_add]

theorem grainsPerUnit_dvd {n : Nat} (h : 1074 ≤ n) : grainsPerUnit ∣ 2 ^ n := by
  unfold grainsPerUnit
  generalize 1074 = exponent at h ⊢
  exact Nat.pow_dvd_pow 2 h

/-- Below one there is less than a unit. -/
theorem grains_lt_of_exponentField_lt (h : x.exponentField < 1023) : x.grains < grainsPerUnit := by
  have hfraction := x.fractionField_lt
  have hsignificand :
      (if x.exponentField = 0 then x.fractionField else 2 ^ 52 + x.fractionField) < 2 ^ 53 := by
    split <;> omega
  obtain ⟨rest, hrest⟩ := Nat.exists_eq_add_of_le (show x.exponentField - 1 ≤ 1021 by omega)
  have hunit : grainsPerUnit = 2 ^ 53 * 2 ^ (x.exponentField - 1 + rest) :=
    grainsPerUnit_eq (by omega)
  have hpow : 2 ^ (x.exponentField - 1) ≤ 2 ^ (x.exponentField - 1 + rest) :=
    Nat.pow_le_pow_right Nat.two_pos (Nat.le_add_right _ _)
  rw [grains_eq, hunit]
  exact Nat.mul_lt_mul_of_lt_of_le hsignificand hpow (Nat.two_pow_pos _)

/-- The fields of a truncated double that is one or more. -/
theorem fields_truncate (h : x.exponentField ≠ 2047) (hone : 1023 ≤ x.exponentField) :
    x.truncate.exponentField = x.exponentField ∧
      x.truncate.fractionField =
        x.fractionField - x.fractionField % 2 ^ (1075 - x.exponentField) := by
  have hmagnitude := x.magnitude_eq
  have hfraction := x.fractionField_lt
  have hcleared := Nat.mod_le x.fractionField (2 ^ (1075 - x.exponentField))
  have heq : x.truncate.magnitude =
      x.magnitude - x.fractionField % 2 ^ (1075 - x.exponentField) := by
    rw [truncate, if_neg (Nat.not_lt.mpr hone)]
    exact magnitude_ofMagnitude ((Nat.sub_le _ _).trans (magnitude_le_of_finite h)) _
  rw [exponentField, fractionField, heq]
  omega

/-- What is left has no grains behind the point. -/
theorem grains_truncate (h : x.exponentField ≠ 2047) :
    x.truncate.grains = x.grains / grainsPerUnit * grainsPerUnit := by
  rcases Nat.lt_or_ge x.exponentField 1023 with hone | hone
  · have hzero : x.truncate.grains = 0 := by
      have hmagnitude : x.truncate.magnitude = 0 := by
        rw [truncate, if_pos hone]
        exact magnitude_ofMagnitude (Nat.zero_le _) _
      rw [grains, significand, hmagnitude, if_pos (by decide), Nat.zero_mul]
    rw [hzero, Nat.div_eq_of_lt (grains_lt_of_exponentField_lt hone), Nat.zero_mul]
  · obtain ⟨hexponent, hfraction⟩ := fields_truncate h hone
    have hpositive : ¬x.exponentField = 0 := by omega
    rw [grains_eq, grains_eq, hexponent, hfraction, if_neg hpositive, if_neg hpositive]
    generalize x.fractionField = f
    rcases Nat.lt_or_ge x.exponentField 1075 with hpoint | hpoint
    · -- the point stands so many bits before the end of the fraction
      generalize hbits : 1075 - x.exponentField = bits
      have hunit : grainsPerUnit = 2 ^ bits * 2 ^ (x.exponentField - 1) :=
        grainsPerUnit_eq (by omega)
      have hhidden : 2 ^ 52 = 2 ^ bits * 2 ^ (52 - bits) := by
        rw [← Nat.pow_add, Nat.add_sub_cancel' (show bits ≤ 52 by omega)]
      rw [hunit, Nat.mul_div_mul_right _ _ (Nat.two_pow_pos _), ← Nat.mul_assoc, hhidden,
        Nat.mul_add_div (Nat.two_pow_pos _), Nat.mul_comm (2 ^ bits) (2 ^ (52 - bits)),
        ← Nat.div_mul_self_eq_mod_sub_self, Nat.add_mul (2 ^ (52 - bits))]
    · have hdvd : grainsPerUnit ∣ (2 ^ 52 + f) * 2 ^ (x.exponentField - 1) :=
        (grainsPerUnit_dvd (by omega)).mul_left _
      generalize grainsPerUnit = unit at hdvd ⊢
      rw [Nat.div_mul_cancel hdvd, Nat.sub_eq_zero_of_le hpoint, Nat.pow_zero, Nat.mod_one,
        Nat.sub_zero]

theorem finite_truncate (h : x.exponentField ≠ 2047) : x.truncate.exponentField ≠ 2047 := by
  rcases Nat.lt_or_ge x.exponentField 1023 with hone | hone
  · have hmagnitude : x.truncate.magnitude = 0 := by
      rw [truncate, if_pos hone]
      exact magnitude_ofMagnitude (Nat.zero_le _) _
    rw [exponentField, hmagnitude]
    decide
  · rwa [(fields_truncate h hone).1]

theorem signedGrains_truncate (h : x.exponentField ≠ 2047) :
    x.truncate.signedGrains = truncateGrains x.signedGrains * grainsPerUnit := by
  rw [signedGrains, isNegative_truncate h, grains_truncate h, truncateGrains, signedGrains]
  generalize grainsPerUnit = unit
  split
  · rw [Int.neg_tdiv, Int.neg_mul]
    rfl
  · rfl

end Binary64

/-- The integer part of a number, towards zero. -/
def towardsZero (q : ℚ) : ℤ := if 0 ≤ q then ⌊q⌋ else ⌈q⌉

theorem towardsZero_div (n : ℤ) {unit : Nat} (hunit : 0 < unit) :
    towardsZero (n / unit) = n.tdiv unit := by
  have hpos : (0 : ℚ) < unit := Nat.cast_pos.mpr hunit
  have hsign : (0 : ℚ) ≤ n / unit ↔ 0 ≤ n := by
    rw [le_div_iff₀ hpos, zero_mul, Int.cast_nonneg_iff]
  rw [towardsZero]
  by_cases hn : 0 ≤ n
  · rw [if_pos (hsign.mpr hn), Rat.floor_intCast_div_natCast, Int.tdiv_eq_ediv_of_nonneg hn]
  · obtain ⟨m, rfl⟩ : ∃ m, n = -m := ⟨-n, (neg_neg n).symm⟩
    rw [if_neg (mt hsign.mp hn), Int.cast_neg, neg_div, Int.ceil_neg,
      Rat.floor_intCast_div_natCast, Int.neg_tdiv, Int.tdiv_eq_ediv_of_nonneg (by omega)]

/-! ## Comparisons -/

/-- Integers compare as their fractions do over one denominator. -/
theorem compare_div {unit : ℕ} (hunit : 0 < unit) (a b : ℤ) :
    Ord.compare ((a : ℚ) / unit) (b / unit) = Ord.compare a b := by
  have hpos : (0 : ℚ) < unit := Nat.cast_pos.mpr hunit
  rcases lt_trichotomy a b with h | h | h
  · rw [compare_lt_iff_lt.mpr h,
      compare_lt_iff_lt.mpr (div_lt_div_of_pos_right (Int.cast_lt.mpr h) hpos)]
  · rw [h, Std.ReflOrd.compare_self, Std.ReflOrd.compare_self]
  · rw [compare_gt_iff_gt.mpr h,
      compare_gt_iff_gt.mpr (div_lt_div_of_pos_right (Int.cast_lt.mpr h) hpos)]

theorem grainsPerUnit_pos : 0 < grainsPerUnit := Int.natCast_pos.mp Extended.grainsPerUnit_pos

namespace Binary64

variable {x y : Binary64}

/-- Finite doubles compare as the numbers that they write. -/
theorem compare?_read (hx : x.exponentField ≠ 2047) (hy : y.exponentField ≠ 2047) :
    x.read.compare? y.read = some (Ord.compare x.value y.value) := by
  rw [read_of_finite hx, read_of_finite hy, value_eq, value_eq, compare_div grainsPerUnit_pos]
  rfl

/-- How an integer compares with what a double writes. An infinity is beyond all integers,
and what is no number is above them. -/
def orderFrom (n : Int64) (x : Binary64) : Ordering :=
  if x.exponentField ≠ 2047 then Ord.compare (n.toInt : ℚ) x.value
  else if x.fractionField = 0 ∧ x.isNegative = true then .gt
  else .lt

/-- Units compare with grains as whole numbers with what the grains amount to. -/
theorem compare_units (n : ℤ) (x : Binary64) :
    Ord.compare (n * grainsPerUnit) x.signedGrains = Ord.compare (n : ℚ) x.value := by
  have hpos : ((grainsPerUnit : Nat) : ℚ) ≠ 0 := Nat.cast_ne_zero.mpr grainsPerUnit_pos.ne'
  have hunits : (n : ℚ) = ((n * grainsPerUnit : ℤ) : ℚ) / (grainsPerUnit : Nat) := by
    rw [Int.cast_mul, Int.cast_natCast, mul_div_cancel_right₀ _ hpos]
  rw [value_eq, hunits, compare_div grainsPerUnit_pos]

theorem compare_ofInteger_read (n : Int64) (x : Binary64) :
    (Extended.ofInteger n).compare x.read = x.orderFrom n := by
  rw [orderFrom]
  split
  · rename_i h
    rw [read_of_finite h, ← compare_units]
    rfl
  · rename_i h
    rw [read_of_not_finite (not_not.mp h)]
    by_cases hfraction : x.fractionField = 0
    · cases x.isNegative <;> simp [hfraction] <;> rfl
    · simp [hfraction]
      rfl

/-! ## The range of the integers -/

/-- The double of two to the sixty-third, the first number that is past all integers. -/
def integerLimit : Binary64 := ⟨0x43e0000000000000⟩

/-- The double of the least integer. -/
def leastInteger : Binary64 := ⟨0xc3e0000000000000⟩

theorem value_integerLimit : integerLimit.value = 2 ^ 63 := by
  rw [value, show integerLimit.isNegative = false by decide,
    show integerLimit.exponentField = 1086 by decide,
    show integerLimit.fractionField = 0 by decide]
  norm_num

theorem value_leastInteger : leastInteger.value = -2 ^ 63 := by
  rw [value, show leastInteger.isNegative = true by decide,
    show leastInteger.exponentField = 1086 by decide,
    show leastInteger.fractionField = 0 by decide]
  norm_num

/-- A double gets past the limits: it is a number, not at or above the upper limit and not
below the lower one. -/
def InIntegerRange (x : Binary64) : Prop :=
  ¬x.isNaN = true ∧
    (x.read.compare? integerLimit.read).any Ordering.isGE = false ∧
    x.read.compare? leastInteger.read ≠ some .lt

theorem inIntegerRange_iff :
    x.InIntegerRange ↔ x.exponentField ≠ 2047 ∧ -2 ^ 63 ≤ x.value ∧ x.value < 2 ^ 63 := by
  have hupper : integerLimit.exponentField ≠ 2047 := by decide
  have hlower : leastInteger.exponentField ≠ 2047 := by decide
  by_cases h : x.exponentField = 2047
  · -- an infinity stands on one side of both limits
    refine ⟨fun ⟨hnumber, hhigh, hlow⟩ => absurd h ?_, fun hfinite => absurd h hfinite.1⟩
    have hfraction : ¬x.fractionField ≠ 0 := fun hfraction =>
      hnumber (isNaN_iff.mpr ⟨h, hfraction⟩)
    rw [read_of_not_finite h, if_neg hfraction, read_of_finite hupper] at hhigh
    rw [read_of_not_finite h, if_neg hfraction, read_of_finite hlower] at hlow
    cases hsign : x.isNegative
    · rw [hsign] at hhigh
      cases hhigh
    · rw [hsign] at hlow
      exact absurd rfl hlow
  · have hnumber : ¬x.isNaN = true := fun hnan => h (isNaN_iff.mp hnan).1
    rw [InIntegerRange, compare?_read h hupper, compare?_read h hlower, value_integerLimit,
      value_leastInteger, Option.any_some, Ordering.isGE_eq_false, compare_lt_iff_lt, ne_eq,
      Option.some.injEq, compare_lt_iff_lt, not_lt]
    exact ⟨fun ⟨_, hhigh, hlow⟩ => ⟨h, hlow, hhigh⟩, fun ⟨_, hlow, hhigh⟩ => ⟨hnumber, hhigh, hlow⟩⟩

/-- What is left of the grains is the integer part. -/
theorem truncateGrains_signedGrains (x : Binary64) :
    truncateGrains x.signedGrains = towardsZero x.value := by
  rw [value_eq, towardsZero_div _ grainsPerUnit_pos, truncateGrains]

theorem value_truncate (h : x.exponentField ≠ 2047) : x.truncate.value = towardsZero x.value := by
  have hpos : ((grainsPerUnit : Nat) : ℚ) ≠ 0 := Nat.cast_ne_zero.mpr grainsPerUnit_pos.ne'
  rw [value_eq x.truncate, signedGrains_truncate h, truncateGrains_signedGrains, Int.cast_mul,
    Int.cast_natCast, mul_div_cancel_right₀ _ hpos]

theorem grains_of_inIntegerRange (h : x.InIntegerRange) :
    -(2 ^ 63 * grainsPerUnit) ≤ x.signedGrains ∧ x.signedGrains < 2 ^ 63 * grainsPerUnit := by
  have hpos : (0 : ℚ) < (grainsPerUnit : Nat) := Nat.cast_pos.mpr grainsPerUnit_pos
  obtain ⟨-, hlow, hhigh⟩ := inIntegerRange_iff.mp h
  rw [value_eq, le_div_iff₀ hpos, ← neg_mul_eq_neg_mul] at hlow
  rw [value_eq, div_lt_iff₀ hpos] at hhigh
  exact ⟨by exact_mod_cast hlow, by exact_mod_cast hhigh⟩

/-- Within the limits the integer part is an integer of sixty-four bits. -/
theorem toInt_integerPart (h : x.InIntegerRange) :
    (Int64.ofInt (towardsZero x.value)).toInt = towardsZero x.value := by
  obtain ⟨hlow, hhigh⟩ := grains_of_inIntegerRange h
  rw [← truncateGrains_signedGrains]
  exact Extended.toInt_ofInt_truncateGrains hlow hhigh

/-- Within the limits the integer part decides, and where it ties, what was cut off. -/
theorem compareWithInteger_of_inIntegerRange (h : x.InIntegerRange) (n : Int64) :
    x.read.compareWithInteger n =
      (Ord.compare n (Int64.ofInt (towardsZero x.value))).then
        (Ord.compare (towardsZero x.value : ℚ) x.value) := by
  obtain ⟨hlow, hhigh⟩ := grains_of_inIntegerRange h
  have hpow : ((Nat.pow 2 63 : Nat) : ℤ) = 2 ^ 63 := rfl
  rw [read_of_finite (inIntegerRange_iff.mp h).1, ← compare_units, ← truncateGrains_signedGrains]
  simp only [Extended.compareWithInteger, hpow, if_neg hlow.not_gt, if_neg hhigh.not_ge]

end Binary64

end DynamicObjects.Number
