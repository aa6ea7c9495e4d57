import Mathlib.Algebra.BigOperators.GroupWithZero.Finset
import Mathlib.Algebra.Order.BigOperators.Group.List
import Mathlib.Algebra.Order.Field.Basic
import Mathlib.Tactic.FieldSimp

/-
  Dividing an amount among weights in proportion.

  A `share` is the part of an amount that falls to one
  weight of a total. The shares of all weights add up to
  the amount. A list of parts stays `Within` a bound when
  parts are dropped, set to zero or joined by a zero part.

  Key definitions include:
    * `Shares.share`
    * `Shares.Within`

  Key theorems include:
    * `Shares.sum_share`
    * `Shares.within_share`
    * `Shares.Within.lower`
-/

------------------------------------------------------------
-- Shares
------------------------------------------------------------

namespace Shares

variable {K : Type} [Field K]

/- The part of the amount that falls to a weight. -/
def share (amount total weight : K) : K :=
  amount * weight / total

@[simp] theorem share_zero_weight (amount total : K) :
    share amount total 0 = 0 := by
  simp [share]

@[simp] theorem share_zero_amount (total weight : K) :
    share 0 total weight = 0 := by
  simp [share]

theorem sum_map_share
    (amount total : K)
    (weights : List K) :
    (weights.map (share amount total)).sum =
      amount * weights.sum / total := by
  induction weights with
  | nil => simp
  | cons w weights ih =>
      rw [List.map_cons, List.sum_cons, ih, List.sum_cons,
        mul_add, add_div]
      rfl

/- All shares together are the amount. -/
theorem sum_share
    (amount : K)
    {weights : List K}
    (hSum : weights.sum ≠ 0) :
    (weights.map (share amount weights.sum)).sum =
      amount := by
  rw [sum_map_share, mul_div_assoc, div_self hSum, mul_one]

variable [LinearOrder K] [IsStrictOrderedRing K]

theorem share_nonneg
    {amount total weight : K}
    (hAmount : 0 ≤ amount)
    (hTotal : 0 ≤ total)
    (hWeight : 0 ≤ weight) :
    0 ≤ share amount total weight :=
  div_nonneg (mul_nonneg hAmount hWeight) hTotal

------------------------------------------------------------
-- Bounded Parts
------------------------------------------------------------

/- Parts that are not negative and do not exceed a bound. -/
structure Within (bound : K) (parts : List K) : Prop where
  nonneg : ∀ x ∈ parts, 0 ≤ x
  sum_le : parts.sum ≤ bound

namespace Within

variable {bound : K} {parts : List K}

/- Then no part alone exceeds it. -/
theorem le
    (hWithin : Within bound parts)
    {x : K}
    (hMem : x ∈ parts) :
    x ≤ bound := by
  have hPart : x ≤ parts.sum :=
    List.single_le_sum hWithin.nonneg x hMem
  exact hPart.trans hWithin.sum_le

omit [IsStrictOrderedRing K] in
theorem mono
    (hWithin : Within bound parts)
    {bound' : K}
    (hBound : bound ≤ bound') :
    Within bound' parts :=
  ⟨hWithin.nonneg, hWithin.sum_le.trans hBound⟩

omit [IsStrictOrderedRing K] in
theorem nil (hBound : 0 ≤ bound) :
    Within bound [] := by
  refine ⟨?_, ?_⟩
  · intro x hMem
    cases hMem
  · simpa using hBound

/- Zero parts more do no harm. -/
omit [IsStrictOrderedRing K] in
theorem append_zeros
    (hWithin : Within bound parts)
    {zeros : List K}
    (hZeros : ∀ x ∈ zeros, x = 0) :
    Within bound (parts ++ zeros) := by
  refine ⟨?_, ?_⟩
  · intro x hMem
    rcases List.mem_append.mp hMem with hOld | hNew
    · exact hWithin.nonneg x hOld
    · exact (hZeros x hNew).ge
  · rw [List.sum_append, List.sum_eq_zero hZeros, add_zero]
    exact hWithin.sum_le

/- Dropping parts does none. -/
theorem sublist
    {parts' : List K}
    (hWithin : Within bound parts)
    (hSub : parts'.Sublist parts) :
    Within bound parts' := by
  refine ⟨fun x hMem => hWithin.nonneg x (hSub.subset hMem),
    ?_⟩
  exact (hSub.sum_le_sum hWithin.nonneg).trans
    hWithin.sum_le

/- Nor does setting some of them to zero. -/
theorem lower
    {parts' : List K}
    (hWithin : Within bound parts)
    (hLower :
      List.Forall₂ (fun x y => y = x ∨ y = 0) parts parts') :
    Within bound parts' := by
  have hEach : ∀ y ∈ parts', 0 ≤ y := by
    intro y hMem
    have hOld := hWithin.nonneg
    clear hWithin
    induction hLower with
    | nil => cases hMem
    | @cons x z xs zs hHead _ ih =>
        rcases List.mem_cons.mp hMem with hEq | hTail
        · rcases hHead with hSame | hZero
          · rw [hEq, hSame]
            exact hOld x List.mem_cons_self
          · rw [hEq, hZero]
        · exact ih hTail fun w hw =>
            hOld w (List.mem_cons_of_mem _ hw)
  have hSum : parts'.sum ≤ parts.sum := by
    have hOld := hWithin.nonneg
    clear hWithin hEach
    induction hLower with
    | nil => exact le_rfl
    | @cons x z xs zs hHead _ ih =>
        have hTail := ih fun w hw =>
          hOld w (List.mem_cons_of_mem _ hw)
        have hPart : z ≤ x := by
          rcases hHead with hSame | hZero
          · exact hSame.le
          · rw [hZero]
            exact hOld x List.mem_cons_self
        rw [List.sum_cons, List.sum_cons]
        exact add_le_add hPart hTail
  exact ⟨hEach, hSum.trans hWithin.sum_le⟩

end Within

/- The shares of an amount stay within it. -/
theorem within_share
    {amount : K}
    {weights : List K}
    (hAmount : 0 ≤ amount)
    (hWeights : ∀ w ∈ weights, 0 ≤ w) :
    Within amount
      (weights.map (share amount weights.sum)) := by
  have hTotal : 0 ≤ weights.sum := List.sum_nonneg hWeights
  refine ⟨?_, ?_⟩
  · intro x hMem
    rcases List.mem_map.mp hMem with ⟨w, hw, hEq⟩
    rw [← hEq]
    exact share_nonneg hAmount hTotal (hWeights w hw)
  · by_cases hSum : weights.sum = 0
    · rw [sum_map_share, hSum]
      simpa using hAmount
    · exact (sum_share amount hSum).le

end Shares
