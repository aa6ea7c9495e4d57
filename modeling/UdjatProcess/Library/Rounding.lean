import Mathlib.Algebra.Order.Round
import Mathlib.Data.Int.Log
import Mathlib.Data.Rat.Floor
import Mathlib.Tactic.FieldSimp

/-
  Rounding to a number of significant binary digits.

  A number is rounded to the nearest one that has so many
  digits at most, and to the even one where two are equally
  near. The exponent is not bounded. A number that has no
  more digits is kept, and so is every natural number that
  can be written with them.

  Key definitions include:
    * `Rounding.toEven`
    * `Rounding.unit`
    * `Rounding.nearest`

  Key theorems include:
    * `Rounding.nearest_of_multiple`
    * `Rounding.nearest_natCast`
-/

namespace Rounding

/- The nearest integer, the even one halfway between two. -/
def toEven (x : ℚ) : ℤ :=
  if Int.fract x = 1 / 2 then 2 * round (x / 2) else round x

/- The weight of the last of `p` digits, as an exponent. -/
def unit (p : Nat) (x : ℚ) : ℤ :=
  Int.log 2 x + 1 - p

/- The nearest number with `p` digits. -/
def nearest (p : Nat) (x : ℚ) : ℚ :=
  toEven (x / 2 ^ unit p x) * 2 ^ unit p x

@[simp] theorem toEven_intCast (m : ℤ) :
    toEven (m : ℚ) = m := by
  have hWhole : Int.fract (m : ℚ) ≠ 1 / 2 := by
    rw [Int.fract_intCast]
    norm_num
  unfold toEven
  rw [if_neg hWhole, round_intCast]

/- A multiple of the last digit's weight is kept. -/
theorem nearest_of_multiple
    {p : Nat}
    {x : ℚ}
    {m : ℤ}
    (hMultiple : x = m * 2 ^ unit p x) :
    nearest p x = x := by
  have hWeight : (2 : ℚ) ^ unit p x ≠ 0 :=
    zpow_ne_zero _ two_ne_zero
  have hDigits : x / 2 ^ unit p x = m :=
    (div_eq_iff hWeight).mpr hMultiple
  unfold nearest
  rw [hDigits, toEven_intCast, ← hMultiple]

/- A natural number with few enough digits is kept. -/
theorem nearest_natCast
    {p n : Nat}
    (hFits : n < 2 ^ p) :
    nearest p (n : ℚ) = n := by
  by_cases hZero : n = 0
  · rw [hZero]
    apply nearest_of_multiple (m := 0)
    simp
  · have hLog : Nat.log 2 n < p :=
      Nat.log_lt_of_lt_pow hZero hFits
    have hUnit : unit p (n : ℚ) ≤ 0 := by
      unfold unit
      rw [Int.log_natCast]
      omega
    rcases Int.eq_ofNat_of_zero_le
        (Int.neg_nonneg.mpr hUnit) with
      ⟨k, hk⟩
    have hNeg : unit p (n : ℚ) = -(k : ℤ) := by omega
    apply nearest_of_multiple (m := n * 2 ^ k)
    rw [hNeg, zpow_neg, zpow_natCast]
    push_cast
    field_simp

example : nearest 24 16777217 = 16777216 := by
  decide +kernel

example : nearest 24 16777219 = 16777220 := by
  decide +kernel

end Rounding
