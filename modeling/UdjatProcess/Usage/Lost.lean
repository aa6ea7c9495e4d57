import UdjatProcess.Tracking.Tracked
import UdjatProcess.Usage.Ledger

/-
  CPU time between updates (`refresh.cc`,
  `udjat/process/identifier.h`).

  What an identifier is credited with over time ought to be
  what its process gained since the first sample. The code
  marks an identifier without a sample by a stored tick
  count of zero, which is also what a process shows that has
  not used a whole tick yet. The first sample above zero
  then starts the count anew, and the ticks it shows are
  never credited. Besides, the code converts what it credits
  to `float`, which keeps 24 binary digits of it.

  Key theorems include:
    * `Ledger.credited_iff`
    * `Ledger.ticks_lost`
-/

------------------------------------------------------------
-- Credits And Gains
------------------------------------------------------------

namespace UdjatProcess

namespace Ledger

theorem toNat_eq_zero_iff (u : UInt64) :
    u.toNat = 0 ↔ u = 0 := by
  constructor
  · intro hu
    exact UInt64.toNat_inj.mp hu
  · intro hu
    rw [hu]
    rfl

/- A number of 24 binary digits at most is a `float`. -/
theorem toFloat_of_lt
    {n : Nat}
    (hSmall : n < 2 ^ 24) :
    toFloat n = n :=
  Rounding.nearest_natCast hSmall

/-
  In every run from construction, take an identifier that
  was sampled at least twice, with tick counts that never
  fall. Its credits add up to what it gained since the first
  sample if and only if the conversions to `float` make up
  for the ticks over a stored zero. Where every gain is a
  `float`, as each below 2^24 is, that is if and only if the
  first sample was above zero or the last one is zero.
-/
theorem credited_iff
    {A : Allocator}
    {links : Links}
    {memory : Memory}
    {dir : ProcDir}
    {fd : Int}
    {cpuUsePerProcess : Bool}
    {stat : Controller.SystemStat}
    {ctrl : Controller}
    {ops : List Op}
    {x : Account}
    {first last : Stat}
    {between : List Stat}
    (hCreate :
      Controller.create A links memory dir fd
        cpuUsePerProcess stat = .ok ctrl) :
    let s := Runs.after (step A) (start ⟨ctrl, links⟩) ops
    let samples := ticks (s.samples x.addr)
    x ∈ s.world.ctrl.accounts →
    s.samples x.addr = last :: between ++ [first] →
    ((s.samples x.addr).IsChain
      fun later earlier => earlier.time ≤ later.time) →
    (s.credited x.addr =
        (last.time.toNat : ℚ) - first.time.toNat ↔
      Meter.drift toFloat samples = Meter.missed samples) ∧
    ((∀ gain ∈ Meter.gains samples, toFloat gain = gain) →
      (s.credited x.addr =
          (last.time.toNat : ℚ) - first.time.toNat ↔
        first.time ≠ 0 ∨ last.time = 0)) := by
  intro s samples hx hSamples hFalls
  have hBalanced : s.Balanced :=
    balanced_after A
      (balanced_start (Controller.accounts_create hCreate)) ops
  have hTicks :
      samples =
        last.time.toNat ::
          (ticks between ++ [first.time.toNat]) := by
    simp [samples, hSamples, ticks]
  have hChain : samples.IsChain fun x y => y ≤ x := by
    unfold samples ticks
    rw [List.isChain_map]
    exact hFalls.imp fun _ _ => UInt64.le_iff_toNat_le.mp
  have hFirst : samples.getLast? = some first.time.toNat := by
    rw [hTicks, ← List.cons_append, List.getLast?_concat]
  have hCredited :
      s.credited x.addr = Meter.credits toFloat samples :=
    hBalanced.credited x hx
  rw [hCredited]
  rw [hTicks] at hChain hFirst ⊢
  have hMeter :=
    Meter.credits_eq_iff toFloat toFloat_zero hChain hFirst
  refine ⟨hMeter, ?_⟩
  intro hExact
  rw [hMeter, Meter.drift_of_exact hExact, eq_comm,
    Nat.cast_eq_zero,
    Meter.missed_eq_zero_iff hChain hFirst, ne_eq,
    toNat_eq_zero_iff, toNat_eq_zero_iff]

/- An update that shows process 5 with the given ticks. -/
def update (utime : UInt64) : Op :=
  .refresh ⟨utime, utime + 1⟩
    fun _ _ => .present { utime := utime }

/- Process 5 is credited all but the first ten ticks. -/
theorem credited_sample :
    let s :=
      Runs.after (step (.above [])) (start World.oneLoaded)
        [update 10, .insert 6, update 15, update 30]
    s.credited 1 =
      ((30 : UInt64).toNat : ℚ) - (10 : UInt64).toNat := by
  intro s
  have hx :
      (⟨1, 5, ⟨.real (1 / 4), 30⟩⟩ : Account) ∈
        s.world.ctrl.accounts := by
    decide +kernel
  have hSamples :
      s.samples 1 =
        { utime := 30 } :: [{ utime := 15 }] ++
          [{ utime := 10 }] := by
    decide +kernel
  have hBoth :=
    credited_iff World.create_oneLoaded hx hSamples
      (by decide +kernel)
  have hSmall :
      ∀ gain ∈ Meter.gains (ticks (s.samples 1)),
        gain < 2 ^ 24 := by
    decide +kernel
  exact (hBoth.2 fun gain hGain =>
    toFloat_of_lt (hSmall gain hGain)).mpr
      (Or.inl (by decide))

/- One tick over a stored zero, and one that is rounded up. -/
example :
    (Runs.after (step (.above [])) (start World.oneLoaded)
      [update 0, update 1, update 16777220]).credited 1 =
        16777220 - 0 := by
  decide +kernel

/-
  Process 5 shows no tick, then fifteen, then thirty. It is
  credited fifteen of the thirty. And of a gain of 2^24 + 1
  ticks it is credited 2^24.
-/
theorem ticks_lost :
    let s :=
      Runs.after (step (.above [])) (start World.oneLoaded)
        [update 0, update 15, update 30]
    let s' :=
      Runs.after (step (.above [])) (start World.oneLoaded)
        [update 1, update 16777218]
    ((⟨1, 5, ⟨.real (1 / 2), 30⟩⟩ : Account) ∈
          s.world.ctrl.accounts ∧
        (s.samples 1).map Stat.time = [30, 15, 0] ∧
        s.credited 1 = 15 ∧ s.credited 1 ≠ 30 - 0) ∧
      (s'.samples 1).map Stat.time = [16777218, 1] ∧
      s'.credited 1 = 16777216 ∧
      s'.credited 1 ≠ 16777218 - 1 := by
  decide +kernel

end Ledger

end UdjatProcess
