import DynamicObjects.Number.Binary64
import Mathlib.Tactic.Linarith

/-!
# Comparing numbers exactly

The extended line is ordered first by the part a point lies in (negative infinity, the
finite points, positive infinity, no number) and within the finite part by grains. So
`Extended.compare` is a total order whose ties are equalities.

A sixty-four bit integer is a finite point too. `Extended.compareWithInteger` never
forms it: it decides by range and integer part. It gives the same answer all the same
(`compareWithInteger_eq`), since truncation moves a point by less than one unit, and
towards zero.
-/

namespace DynamicObjects.Number.Extended

/-! ## The order of the line -/

/-- The part of the line that a point lies in, from left to right. -/
def part : Extended → Nat
  | negInfinity => 0
  | finite _ => 1
  | posInfinity => 2
  | nan => 3

/-- The grains of a finite point. -/
def position : Extended → Int
  | finite grains => grains
  | _ => 0

theorem compare_eq_compareLex :
    Extended.compare = compareLex (compareOn part) (compareOn position) := by
  funext x y
  cases x <;> cases y <;>
    simp [Extended.compare, compare?, compareLex, compareOn, part, position] <;> rfl

instance : Std.TransCmp Extended.compare := by
  rw [compare_eq_compareLex]
  infer_instance

instance : Std.LawfulEqCmp Extended.compare where
  compare_self := Std.ReflCmp.compare_self
  eq_of_compare {x y} h := by
    rw [compare_eq_compareLex] at h
    simp only [compareLex, compareOn, Ordering.then_eq_eq,
      Std.LawfulEqCmp.compare_eq_iff_eq] at h
    cases x <;> cases y <;> simp_all [part, position]

instance : Ord Extended := ⟨Extended.compare⟩

instance : Std.TransOrd Extended := inferInstanceAs (Std.TransCmp Extended.compare)

instance : Std.LawfulEqOrd Extended := inferInstanceAs (Std.LawfulEqCmp Extended.compare)

/-! ## Integers as points -/

/-- The point that an integer stands for. -/
def ofInteger (n : Int64) : Extended := .finite (n.toInt * grainsPerUnit)

theorem grainsPerUnit_pos : (0 : Int) < grainsPerUnit := by
  unfold grainsPerUnit
  generalize 1074 = exponent
  exact Int.natCast_pos.mpr (Nat.two_pow_pos exponent)

/-- An integer is compared with a number of grains by its integer part first: the grains
left over are less than a unit, of either sign. -/
theorem compare_mul_eq_then {unit : Int} (hunit : 0 < unit) (n y : Int) :
    Ord.compare (n * unit) y =
      (Ord.compare n (y.tdiv unit)).then (Ord.compare (y.tdiv unit * unit) y) := by
  have hsplit : y.tdiv unit * unit + y.tmod unit = y := Int.tdiv_mul_add_tmod y unit
  have hrest : -unit < y.tmod unit ∧ y.tmod unit < unit := by
    have hlt := Int.tmod_lt_of_pos y hunit
    have hgt := Int.lt_tmod_of_pos y hunit
    omega
  rcases Int.lt_trichotomy n (y.tdiv unit) with h | h | h
  · have hmul : n * unit ≤ (y.tdiv unit - 1) * unit :=
      Int.mul_le_mul_of_nonneg_right (by omega) hunit.le
    rw [Int.sub_mul, Int.one_mul] at hmul
    rw [compare_lt_iff_lt.mpr h, compare_lt_iff_lt.mpr (by omega)]
    rfl
  · subst h
    simp
  · have hmul : (y.tdiv unit + 1) * unit ≤ n * unit :=
      Int.mul_le_mul_of_nonneg_right (by omega) hunit.le
    rw [Int.add_mul, Int.one_mul] at hmul
    rw [compare_gt_iff_gt.mpr h, compare_gt_iff_gt.mpr (by omega)]
    rfl

theorem tdiv_lt_of_lt_mul {unit bound y : Int} (hunit : 0 < unit) (hbound : 0 < bound)
    (h : y < bound * unit) : y.tdiv unit < bound := by
  rcases Int.le_total 0 y with hy | hy
  · have hle : y.tdiv unit * unit ≤ y := by
      simpa [hy] using Int.tdiv_mul_le y hunit.ne'
    exact lt_of_mul_lt_mul_right (hle.trans_lt h) hunit.le
  · have hle := Int.tdiv_le_tdiv hunit hy
    rw [Int.zero_tdiv] at hle
    omega

/-- Within the integers' range the integer part is an integer of sixty-four bits. -/
theorem toInt_ofInt_truncateGrains {y : Int} (hlow : -(2 ^ 63 * grainsPerUnit) ≤ y)
    (hhigh : y < 2 ^ 63 * grainsPerUnit) :
    (Int64.ofInt (truncateGrains y)).toInt = truncateGrains y := by
  have hunit := grainsPerUnit_pos
  unfold truncateGrains
  generalize (grainsPerUnit : Int) = unit at *
  apply Int64.toInt_ofInt_of_le
  · exact Int.le_tdiv_of_mul_le hunit (by rwa [Int.neg_mul])
  · exact tdiv_lt_of_lt_mul hunit (by decide) hhigh

theorem compare_toInt (a b : Int64) : Ord.compare a b = Ord.compare a.toInt b.toInt := by
  change compareOfLessAndEq a b = compareOfLessAndEq a.toInt b.toInt
  simp only [compareOfLessAndEq, Int64.lt_iff_toInt_lt, ← Int64.toInt_inj]

/-- **Exactness.** An integer compares with a double as the point it stands for does. -/
theorem compareWithInteger_eq (n : Int64) (y : Extended) :
    y.compareWithInteger n = (ofInteger n).compare y := by
  cases y with
  | nan => rfl
  | negInfinity => rfl
  | posInfinity => rfl
  | finite y =>
    have hunit := grainsPerUnit_pos
    have hpow : ((Nat.pow 2 63 : Nat) : Int) = 2 ^ 63 := rfl
    change _ = Ord.compare (n.toInt * grainsPerUnit) y
    simp only [compareWithInteger, hpow]
    split
    · rename_i hhigh
      rw [eq_comm, compare_lt_iff_lt]
      exact (Int.mul_lt_mul_of_pos_right n.toInt_lt hunit).trans_le hhigh
    split
    · rename_i hlow
      rw [eq_comm, compare_gt_iff_gt]
      refine hlow.trans_le ?_
      rw [← Int.neg_mul]
      exact Int.mul_le_mul_of_nonneg_right n.le_toInt hunit.le
    · rename_i hhigh hlow
      rw [compare_toInt, toInt_ofInt_truncateGrains (Int.not_lt.mp hlow) (Int.not_le.mp hhigh),
        compare_mul_eq_then hunit n.toInt y]
      rfl

theorem compare_ofInteger (m n : Int64) :
    (ofInteger m).compare (ofInteger n) = Ord.compare m n := by
  have hunit := grainsPerUnit_pos
  change Ord.compare (m.toInt * grainsPerUnit) (n.toInt * grainsPerUnit) = _
  rw [compare_toInt]
  rcases Int.lt_trichotomy m.toInt n.toInt with h | h | h
  · rw [compare_lt_iff_lt.mpr h,
      compare_lt_iff_lt.mpr (Int.mul_lt_mul_of_pos_right h hunit)]
  · rw [h, Std.ReflOrd.compare_self, Std.ReflOrd.compare_self]
  · rw [compare_gt_iff_gt.mpr h,
      compare_gt_iff_gt.mpr (Int.mul_lt_mul_of_pos_right h hunit)]

end DynamicObjects.Number.Extended
