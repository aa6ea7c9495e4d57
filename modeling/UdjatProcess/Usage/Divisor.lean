import UdjatProcess.Usage.Bounded

/-
  The divisor of the system usage (`refresh.cc`,
  `controller/init.cc`).

  The update guards its division with the counters of the
  previous sample, not with the differences that it divides
  by. The divisor is zero exactly when a sample repeats the
  previous one, which is possible for the update that the
  constructor queues, within one tick of its own sample. The
  quotient is then undefined, and so is every percentage
  computed from it.

  Key definitions include:
    * `World.WellDefined`
    * `World.Advances`
    * `World.samples`

  Key theorems include:
    * `World.along_iff_advances`
    * `World.wellDefined_iff_advances`
    * `World.usage_undefined`
-/

------------------------------------------------------------
-- Samples
------------------------------------------------------------

namespace UdjatProcess

namespace World

/- The system usage and all percentages are in range. -/
structure WellDefined (w : World) : Prop where
  system : w.ctrl.system.cpu.InUnit
  shares :
    ∀ n ∈ w.ctrl.identifiers.nodes, n.val.cpu.percent.InUnit

/- The sample that an operation takes. -/
def sample? : Op → Option Controller.SystemStat
| .refresh stat _ => some stat
| _ => none

/- The samples that a run takes. -/
def samples (ops : List Op) : List Controller.SystemStat :=
  ops.filterMap sample?

/-
  A sample that follows one of zeros, or differs from the
  one before it.
-/
def Advances (previous next : Controller.SystemStat) : Prop :=
  previous = ⟨0, 0⟩ ∨ next ≠ previous

instance (previous next : Controller.SystemStat) :
    Decidable (Advances previous next) := by
  unfold Advances
  infer_instance

/- The sample that the controller stores. -/
def lastSample (w : World) : Controller.SystemStat where
  running := w.ctrl.system.running
  idle := w.ctrl.system.idle

theorem not_dividesByZero_iff
    (w : World)
    (stat : Controller.SystemStat)
    (read : Controller.Reader) :
    ¬ w.DividesByZero (.refresh stat read) ↔
      Advances w.lastSample stat := by
  change
    ¬ Controller.DividesByZero stat w.ctrl.system ↔ _
  rw [Controller.dividesByZero_iff]
  unfold Advances lastSample Controller.Sampled
  rcases stat with ⟨running, idle⟩
  simp only [Controller.SystemStat.mk.injEq, ne_eq]
  tauto

theorem lastSample_step
    (A : Allocator)
    (w : World)
    (op : Op) :
    (w.step A op).lastSample =
      (sample? op).getD w.lastSample := by
  by_cases hUpdates : op.Updates
  · cases op with
    | refresh stat read =>
        have hSystem :=
          Controller.refresh_system stat read w.ctrl
        change
          lastSample ⟨w.ctrl.refresh stat read, w.links⟩ = stat
        unfold lastSample
        rw [hSystem]
        rfl
    | _ => cases hUpdates
  · have hSystem :=
      congrArg Prod.snd (meters_step A w hUpdates)
    have hNone : sample? op = none := by
      cases op with
      | refresh _ _ => exact absurd trivial hUpdates
      | _ => rfl
    rw [hNone, Option.getD_none]
    unfold lastSample
    simp only [Controller.meters] at hSystem
    rw [hSystem]

/-
  No update of a run divides by zero exactly if every sample
  advances.
-/
theorem along_iff_advances
    (A : Allocator)
    (w : World)
    (ops : List Op) :
    Runs.Along (step A) (fun w op => ¬ w.DividesByZero op)
        w ops ↔
      (w.lastSample :: samples ops).IsChain Advances := by
  induction ops generalizing w with
  | nil => simp [Runs.Along, samples]
  | cons op ops ih =>
      have hStep := lastSample_step A w op
      cases hSample : sample? op with
      | none =>
          have hNot : ¬ w.DividesByZero op := by
            cases op with
            | refresh _ _ => cases hSample
            | _ => exact id
          rw [hSample, Option.getD_none] at hStep
          simp only [Runs.Along, ih, hStep, samples,
            List.filterMap_cons, hSample, hNot,
            not_false_eq_true, true_and]
      | some stat =>
          rw [hSample, Option.getD_some] at hStep
          have hHead :
              ¬ w.DividesByZero op ↔
                Advances w.lastSample stat := by
            cases op with
            | refresh stat' read =>
                have hEq : stat' = stat :=
                  Option.some.inj hSample
                rw [hEq]
                exact not_dividesByZero_iff w stat read
            | _ => cases hSample
          simp only [Runs.Along, ih, hStep, samples,
            List.filterMap_cons, hSample,
            List.isChain_cons_cons, hHead]

------------------------------------------------------------
-- Runs
------------------------------------------------------------

/- The bound on the percentages and the usage in range. -/
structure InRange (w : World) : Prop where
  percents : Usage.Bounded w.ctrl.percents
  usage : w.ctrl.system.cpu.InUnit

theorem InRange.wellDefined
    {w : World}
    (hRange : w.InRange) :
    w.WellDefined :=
  ⟨hRange.usage,
    (Controller.sharesBounded_of_bounded hRange.percents).each⟩

theorem inRange_step
    (A : Allocator)
    {w : World}
    {op : Op}
    (hRange : w.InRange)
    (hDivides : ¬ w.DividesByZero op) :
    (w.step A op).InRange := by
  refine ⟨bounded_step A hRange.percents hDivides, ?_⟩
  by_cases hUpdates : op.Updates
  · cases op with
    | refresh stat read =>
        change (w.ctrl.refresh stat read).system.cpu.InUnit
        rw [Controller.refresh_system]
        unfold Controller.systemAfter
        dsimp only
        split
        · exact Controller.systemUsage_inUnit hDivides
        · exact hRange.usage
    | _ => cases hUpdates
  · have hSystem :=
      congrArg Prod.snd (meters_step A w hUpdates)
    simp only [Controller.meters] at hSystem
    rw [hSystem]
    exact hRange.usage

/-
  In every run from construction, no update divides by zero
  and the usage and all percentages stay in range, if and
  only if every sample follows one of zeros or differs from
  the one before it, the first being the constructor's.
-/
theorem wellDefined_iff_advances
    {A : Allocator}
    {links : Links}
    {memory : Memory}
    {dir : ProcDir}
    {fd : Int}
    {cpuUsePerProcess : Bool}
    {stat : Controller.SystemStat}
    {ctrl : Controller}
    {ops : List Op}
    (hCreate :
      Controller.create A links memory dir fd
        cpuUsePerProcess stat = .ok ctrl) :
    (Runs.Along (step A) (fun w op => ¬ w.DividesByZero op)
        ⟨ctrl, links⟩ ops ∧
      Runs.Always (step A) WellDefined ⟨ctrl, links⟩ ops) ↔
      (stat :: samples ops).IsChain Advances := by
  have hSystem :
      ctrl.system = ⟨.real 0, stat.running, stat.idle⟩ :=
    congrArg Prod.snd (Controller.meters_create hCreate)
  have hFirst : lastSample ⟨ctrl, links⟩ = stat := by
    unfold lastSample
    rw [hSystem]
  have hAlong := along_iff_advances A ⟨ctrl, links⟩ ops
  rw [hFirst] at hAlong
  have hStart : InRange ⟨ctrl, links⟩ := by
    refine ⟨bounded_create hCreate, 0, ?_, le_rfl, zero_le_one⟩
    change ctrl.system.cpu = .real 0
    rw [hSystem]
  have hStep :
      ∀ (w : World) (op : Op), w.InRange →
        ¬ w.DividesByZero op → (w.step A op).InRange :=
    fun _ _ hRange hNot => inRange_step A hRange hNot
  constructor
  · rintro ⟨hDivides, _⟩
    exact hAlong.mp hDivides
  · intro hAdvances
    have hDivides := hAlong.mpr hAdvances
    have hAlways := Runs.always_of_along hStep hStart hDivides
    exact ⟨hDivides, hAlways.mono fun _ => InRange.wellDefined⟩

/- The counters move between the constructor and an update. -/
theorem wellDefined_sample :
    let ops : List Op :=
      [.refresh ⟨10, 10⟩ fun _ _ => .present { utime := 10 },
        .refresh ⟨15, 20⟩ fun _ _ => .present { utime := 15 }]
    Runs.Along (step (.above []))
        (fun w op => ¬ w.DividesByZero op) oneLoaded ops ∧
      Runs.Always (step (.above [])) WellDefined oneLoaded
        ops :=
  (wellDefined_iff_advances create_oneLoaded).mpr
    (by decide +kernel)

/-
  The update that the constructor queued runs within one
  tick of the constructor's sample.
-/
theorem usage_undefined :
    let read : Controller.Reader :=
      fun _ _ => .present { utime := 10 }
    let ctrl : Controller :=
      { oneLoaded.ctrl with
        system := ⟨.real 0, 10, 10⟩ }
    let start : World := ⟨ctrl, oneLoaded.links⟩
    let w := start.step (.above []) (.refresh ⟨10, 10⟩ read)
    Controller.create (.above []) (fun _ => none)
        (fun _ => { kind := .exeName [] }) oneProcess 3 true
        ⟨10, 10⟩ = .ok ctrl ∧
      start.DividesByZero (.refresh ⟨10, 10⟩ read) ∧
      w.ctrl.system.cpu = .nan ∧ ¬ w.WellDefined := by
  intro read ctrl start w
  have hNan : w.ctrl.system.cpu = .nan := by decide +kernel
  refine ⟨rfl, by decide +kernel, hNan, ?_⟩
  intro hDefined
  rcases hDefined.system with ⟨q, hReal, _⟩
  rw [hNan] at hReal
  cases hReal

end World

end UdjatProcess
