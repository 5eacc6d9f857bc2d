import DynamicObjects.Proofs.Number.Values
import DynamicObjects.Proofs.Order.Preorder

/-!
# Integers against doubles

An integer is compared with a double by range first, then by integer part, then by what
was cut off. The answer is that of the numbers themselves, which no step rounds: the
integer part is only taken between the limits, where it is an integer of sixty-four bits.

* `integer_float_exact`: the comparison, from both sides, and the range of its cast.
-/

namespace DynamicObjects

open Number

theorem Value.order_integer_float (n : Int64) (x : Binary64) :
    (Value.integer n).order (.float x) = x.orderFrom n :=
  (decides_numbers (Binary64.compare_ofInteger_read n x).symm).compare_eq

/-- **Integers and doubles compare exactly.** An integer compares with a double as with the
number that the double writes, which is zero for both zeros; it is below positive infinity
and what is no number, and above negative infinity. The comparison turns round with its
sides. A double gets past the limits just when it is finite and writes a number from the
least integer up to, but not including, the first number past all integers; then its
truncation is the double of its integer part, which is an integer of sixty-four bits, and
the comparison is decided by this integer and, on a tie, by what was cut off. -/
theorem integer_float_exact [Host] (w : World) (n : Int64) (x : Binary64) :
    (((Value.integer n).compare (.float x)).Yields w (x.orderFrom n) ∧
      ((Value.float x).compare (.integer n)).Yields w (x.orderFrom n).swap) ∧
    (x.isZero = true → x.exponentField ≠ 2047 ∧ x.value = 0) ∧
    (x.InIntegerRange ↔ x.exponentField ≠ 2047 ∧ -2 ^ 63 ≤ x.value ∧ x.value < 2 ^ 63) ∧
    (x.InIntegerRange →
      (x.truncate.exponentField ≠ 2047 ∧ x.truncate.value = towardsZero x.value) ∧
      (Int64.ofInt (towardsZero x.value)).toInt = towardsZero x.value ∧
      x.read.compareWithInteger n =
        (Ord.compare n (Int64.ofInt (towardsZero x.value))).then
          (Ord.compare x.truncate.value x.value)) := by
  have hn : w.IsData (.integer n) := .atom trivial
  have hx : w.IsData (.float x) := .atom trivial
  have horder := Value.order_integer_float n x
  have hswap : (Value.float x).order (.integer n) = (x.orderFrom n).swap := by
    rw [Value.order_swap, horder]
  refine ⟨⟨horder ▸ yields_compare hn hx, hswap ▸ yields_compare hx hn⟩, Binary64.value_of_isZero,
    Binary64.inIntegerRange_iff, fun hrange => ?_⟩
  have hfinite := (Binary64.inIntegerRange_iff.mp hrange).1
  have hvalue := Binary64.value_truncate hfinite
  refine ⟨⟨Binary64.finite_truncate hfinite, hvalue⟩, Binary64.toInt_integerPart hrange, ?_⟩
  rw [hvalue]
  exact Binary64.compareWithInteger_of_inIntegerRange hrange n

/-- The double of the least integer and the largest double below the upper limit. Both get
past the limits, and their integer parts are the least integer and the integer 1023 below
the largest. -/
theorem integer_float_exact_at_limits :
    let low : Binary64 := ⟨0xc3e0000000000000⟩
    let high : Binary64 := ⟨0x43dfffffffffffff⟩
    letI := Script.hostWithin 0
    (low.value = -2 ^ 63 ∧ high.value = 2 ^ 63 - 1024) ∧
    (low.InIntegerRange ∧ high.InIntegerRange) ∧
    (Int64.ofInt (towardsZero low.value)).toInt = towardsZero low.value ∧
    (Int64.ofInt (towardsZero high.value)).toInt = towardsZero high.value ∧
    ((Value.integer Int64.minValue).compare (.float low)).Yields {} .eq ∧
    ((Value.integer Int64.maxValue).compare (.float high)).Yields {} .gt := by
  intro low high
  have hlow : low.value = -2 ^ 63 := Binary64.value_leastInteger
  have hhigh : high.value = 2 ^ 63 - 1024 := by
    rw [Binary64.value, show high.isNegative = false by decide,
      show high.exponentField = 1085 by decide,
      show high.fractionField = 2 ^ 52 - 1 by decide]
    norm_num
  let _ := Script.hostWithin 0
  obtain ⟨⟨hleast, -⟩, -, hlowRange, hlowCast⟩ := integer_float_exact {} Int64.minValue low
  obtain ⟨⟨hmost, -⟩, -, hhighRange, hhighCast⟩ := integer_float_exact {} Int64.maxValue high
  have hlowIn : low.InIntegerRange := hlowRange.mpr ⟨by decide, by norm_num [hlow]⟩
  have hhighIn : high.InIntegerRange := hhighRange.mpr ⟨by decide, by norm_num [hhigh]⟩
  have hleastOrder : low.orderFrom Int64.minValue = .eq := by
    have hsame : (Int64.minValue.toInt : ℚ) = -2 ^ 63 := by
      rw [show Int64.minValue.toInt = -2 ^ 63 from rfl]
      norm_num
    rw [Binary64.orderFrom, if_pos (by decide), hlow, hsame, Std.ReflOrd.compare_self]
  have hmostOrder : high.orderFrom Int64.maxValue = .gt := by
    rw [Binary64.orderFrom, if_pos (by decide), hhigh, compare_gt_iff_gt,
      show Int64.maxValue.toInt = 2 ^ 63 - 1 from rfl]
    norm_num
  exact ⟨⟨hlow, hhigh⟩, ⟨hlowIn, hhighIn⟩, (hlowCast hlowIn).2.1, (hhighCast hhighIn).2.1,
    hleastOrder ▸ hleast, hmostOrder ▸ hmost⟩

end DynamicObjects
