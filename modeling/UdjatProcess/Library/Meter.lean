import Mathlib.Algebra.BigOperators.Group.List.Basic
import Mathlib.Algebra.Order.Ring.Rat
import Mathlib.Data.List.Chain
import Mathlib.Order.Nat
import Mathlib.Tactic.Linarith

/-
  Metering a counter by samples, where a stored zero stands
  for no sample yet.

  A sample is credited what the counter gained since the
  stored sample, and takes its place. A credit may be kept
  in another form, a usage, that is off a little. Histories
  of samples are listed newest first. For a counter that
  never falls, the credits add up to the whole gain unless
  the first sample was a zero and a later one is not: a zero
  that was stored is taken for no sample.

  Key definitions include:
    * `Meter.credit`
    * `Meter.gains`
    * `Meter.credits`
    * `Meter.drift`
    * `Meter.missed`

  Key theorems include:
    * `Meter.credits_add_missed`
    * `Meter.missed_eq_zero_iff`
    * `Meter.credits_eq_iff`
-/

namespace Meter

/- What a sample is credited over the stored one. -/
def credit (stored sample : Nat) : Nat :=
  if stored ≠ 0 ∧ stored < sample then sample - stored else 0

/- The stored sample, zero at first. -/
def latest : List Nat → Nat
| [] => 0
| sample :: _ => sample

/- The credits of all samples, each over the one before. -/
def gains : List Nat → List Nat
| [] => []
| sample :: older => credit (latest older) sample :: gains older

/- What they come to if each is taken at its usage. -/
def credits (usage : ℚ → ℚ) (samples : List Nat) : ℚ :=
  ((gains samples).map fun (gain : Nat) => usage gain).sum

/- How much the usages are above the gains, all together. -/
def drift (usage : ℚ → ℚ) (samples : List Nat) : ℚ :=
  ((gains samples).map
    fun (gain : Nat) => usage gain - gain).sum

/- What the samples gain over a zero that was sampled. -/
def missed : List Nat → Nat
| [] => 0
| [_] => 0
| sample :: stored :: older =>
    (if stored = 0 then sample else 0) +
      missed (stored :: older)

theorem credits_cons
    (usage : ℚ → ℚ)
    (sample : Nat)
    (older : List Nat) :
    credits usage (sample :: older) =
      usage (credit (latest older) sample) +
        credits usage older :=
  List.sum_cons

theorem drift_cons
    (usage : ℚ → ℚ)
    (sample : Nat)
    (older : List Nat) :
    drift usage (sample :: older) =
      usage (credit (latest older) sample) -
          credit (latest older) sample +
        drift usage older :=
  List.sum_cons

@[simp] theorem credit_zero (sample : Nat) :
    credit 0 sample = 0 := by
  simp [credit]

/- A counter that was sampled above zero loses nothing. -/
theorem credit_of_le
    {stored sample : Nat}
    (hStored : stored ≠ 0)
    (hLe : stored ≤ sample) :
    credit stored sample = sample - stored := by
  unfold credit
  split
  · rfl
  · next hNot =>
    omega

/- No sample of a counter that never falls is below the first. -/
theorem first_le_latest
    {sample : Nat}
    {older : List Nat}
    {first : Nat}
    (hFalls : (sample :: older).IsChain fun x y => y ≤ x)
    (hFirst : (sample :: older).getLast? = some first) :
    first ≤ sample := by
  induction older generalizing sample with
  | nil =>
      rw [List.getLast?_singleton, Option.some.injEq] at hFirst
      exact hFirst.symm.le
  | cons previous older ih =>
      rw [List.isChain_cons_cons] at hFalls
      rw [List.getLast?_cons_cons] at hFirst
      exact (ih hFalls.2 hFirst).trans hFalls.1

/-
  The usages add up to the gain since the first sample, but
  for what was missed and what the usages are off by.
-/
theorem credits_add_missed
    (usage : ℚ → ℚ)
    (hZero : usage 0 = 0)
    {sample : Nat}
    {older : List Nat}
    {first : Nat}
    (hFalls : (sample :: older).IsChain fun x y => y ≤ x)
    (hFirst : (sample :: older).getLast? = some first) :
    credits usage (sample :: older) +
        missed (sample :: older) + first =
      sample + drift usage (sample :: older) := by
  induction older generalizing sample with
  | nil =>
      rw [List.getLast?_singleton, Option.some.injEq] at hFirst
      simp [credits, drift, missed, gains, latest, hZero,
        hFirst]
  | cons stored older ih =>
      rw [List.isChain_cons_cons] at hFalls
      rw [List.getLast?_cons_cons] at hFirst
      have hOlder := ih hFalls.2 hFirst
      have hTurn :
          (credit stored sample : ℚ) +
              (if stored = 0 then sample else 0 : Nat) +
              stored =
            sample := by
        by_cases hStored : stored = 0
        · simp [hStored]
        · rw [credit_of_le hStored hFalls.1,
            Nat.cast_sub hFalls.1]
          simp [hStored]
      rw [credits_cons, drift_cons]
      unfold missed latest
      push_cast at hTurn ⊢
      linarith

/-
  Nothing is missed if and only if the first sample was
  above zero or the counter still is at zero.
-/
theorem missed_eq_zero_iff
    {sample : Nat}
    {older : List Nat}
    {first : Nat}
    (hFalls : (sample :: older).IsChain fun x y => y ≤ x)
    (hFirst : (sample :: older).getLast? = some first) :
    missed (sample :: older) = 0 ↔
      first ≠ 0 ∨ sample = 0 := by
  induction older generalizing sample with
  | nil =>
      rw [List.getLast?_singleton, Option.some.injEq] at hFirst
      simp [missed, hFirst, em']
  | cons stored older ih =>
      rw [List.isChain_cons_cons] at hFalls
      rw [List.getLast?_cons_cons] at hFirst
      have hOlder := ih hFalls.2 hFirst
      have hBelow := first_le_latest hFalls.2 hFirst
      have hLe : stored ≤ sample := hFalls.1
      unfold missed
      by_cases hStored : stored = 0
      · rw [if_pos hStored]
        omega
      · rw [if_neg hStored]
        omega

/- Usages that are the gains themselves are not off. -/
theorem drift_of_exact
    {usage : ℚ → ℚ}
    {samples : List Nat}
    (hExact : ∀ gain ∈ gains samples, usage gain = gain) :
    drift usage samples = 0 := by
  have hNone :
      (gains samples).map
          (fun (gain : Nat) => usage gain - gain) =
        (gains samples).map fun _ => 0 := by
    apply List.map_congr_left
    intro gain hGain
    rw [hExact gain hGain, sub_self]
  unfold drift
  rw [hNone]
  simp

/-
  The usages make up the gain since the first sample if and
  only if they are above the credited gains by what was
  missed.
-/
theorem credits_eq_iff
    (usage : ℚ → ℚ)
    (hZero : usage 0 = 0)
    {sample : Nat}
    {older : List Nat}
    {first : Nat}
    (hFalls : (sample :: older).IsChain fun x y => y ≤ x)
    (hFirst : (sample :: older).getLast? = some first) :
    credits usage (sample :: older) = sample - first ↔
      drift usage (sample :: older) =
        missed (sample :: older) := by
  have hSum := credits_add_missed usage hZero hFalls hFirst
  constructor
  · intro hCredits
    linarith
  · intro hDrift
    linarith

end Meter
