import UdjatProcess.System.World
import UdjatProcess.Usage.Update

/-
  The CPU shares after a complete update (`refresh.cc`).

  The share of a process is its part of the system usage, in
  proportion to the ticks it gained. The second pass writes
  these shares only while the system usage is not zero. When
  it is zero, a process that gained ticks keeps the
  percentage of an earlier update, although its share is
  zero.

  Key definitions include:
    * `Controller.specShare`
    * `Controller.SharesSpec`

  Key theorems include:
    * `Controller.sharesSpec_iff`
    * `Controller.percent_survives`
-/

------------------------------------------------------------
-- The Specification
------------------------------------------------------------

namespace UdjatProcess

namespace Controller

/- The share that an element ought to have. -/
def specShare
    (stat : SystemStat)
    (read : Reader)
    (self : Controller)
    (n : Node Identifier) : ℚ :=
  if (self.gains read).sum = 0 then
    0
  else
    systemShare stat self.system * gainOf read n /
      (self.gains read).sum

/-
  Every element has its share, and all shares together are
  the system usage if any ticks were gained.
-/
structure SharesSpec
    (stat : SystemStat)
    (read : Reader)
    (before after : Controller) : Prop where
  each :
    (after.identifiers.nodes.map fun n =>
        (n.addr, n.val.cpu.percent)) =
      before.identifiers.nodes.map fun n =>
        (n.addr, .real (specShare stat read before n))
  total :
    (before.gains read).sum ≠ 0 →
      (after.identifiers.nodes.map fun n =>
          n.val.cpu.percent.value).sum =
        systemShare stat before.system

/- The specification is a proportional share. -/
theorem specShare_eq_share
    (stat : SystemStat)
    (read : Reader)
    (self : Controller)
    (n : Node Identifier) :
    specShare stat read self n =
      Shares.share (systemShare stat self.system)
        (self.gains read).sum (gainOf read n) := by
  unfold specShare Shares.share
  split
  · next hZero => rw [hZero, div_zero]
  · rfl

/- That every element has its share is all there is to it. -/
theorem sharesSpec_of_each
    {stat : SystemStat}
    {read : Reader}
    {self self' : Controller}
    (hEach :
      (self'.identifiers.nodes.map fun n =>
          (n.addr, n.val.cpu.percent)) =
        self.identifiers.nodes.map fun n =>
          (n.addr, .real (specShare stat read self n))) :
    SharesSpec stat read self self' := by
  refine ⟨hEach, ?_⟩
  intro hSum
  have hValues :
      (self'.identifiers.nodes.map fun n =>
          n.val.cpu.percent.value) =
        (self.gains read).map
          (Shares.share (systemShare stat self.system)
            (self.gains read).sum) := by
    have hSecond :=
      congrArg (List.map fun p => Usage.value p.2) hEach
    rw [List.map_map, List.map_map] at hSecond
    change _ =
      (self.identifiers.nodes.map (gainOf read)).map
        (Shares.share (systemShare stat self.system)
          (self.gains read).sum)
    rw [List.map_map]
    refine hSecond.trans (List.map_congr_left ?_)
    intro n _
    exact specShare_eq_share stat read self n
  rw [hValues]
  exact Shares.sum_share _ hSum

------------------------------------------------------------
-- Complete Updates
------------------------------------------------------------

/- The usage is zero if the running counter stands still. -/
theorem systemShare_eq_zero_iff
    {stat : SystemStat}
    {system : SystemUse}
    (hSampled : Sampled system)
    (hTicks :
      runningTicks stat system + idleTicks stat system ≠ 0) :
    systemShare stat system = 0 ↔
      stat.running = system.running := by
  unfold systemShare
  rw [if_pos hSampled, div_eq_zero_iff,
    or_iff_left hTicks]
  exact ticks_eq_zero_iff _ _

/- Someone who gained ticks makes the sum of gains positive. -/
theorem gains_sum_ne_zero
    {self : Controller}
    {read : Reader}
    {n : Node Identifier}
    (hn : n ∈ self.identifiers.nodes)
    (hGain : gainOf read n ≠ 0) :
    (self.gains read).sum ≠ 0 := by
  have hMem : gainOf read n ∈ self.gains read :=
    List.mem_map_of_mem hn
  have hNonneg : ∀ x ∈ self.gains read, 0 ≤ x := by
    intro x hx
    rcases List.mem_map.mp hx with ⟨m, _, hEq⟩
    rw [← hEq]
    exact gainOf_nonneg read m
  have hLe : gainOf read n ≤ (self.gains read).sum :=
    List.single_le_sum hNonneg _ hMem
  have hPos : 0 < gainOf read n :=
    lt_of_le_of_ne (gainOf_nonneg read n) (Ne.symm hGain)
  exact (hPos.trans_le hLe).ne'

/-
  A settled element has its share, unless it gained ticks
  while the system usage is zero.
-/
theorem percent_settle_iff
    {self : Controller}
    {read : Reader}
    {n : Node Identifier}
    {st : Stat}
    (stat : SystemStat)
    (hn : n ∈ self.identifiers.nodes)
    (hStat : statOf read n = .ok st) :
    (settle (.real (systemShare stat self.system))
        (self.gains read).sum read n).cpu.percent =
      .real (specShare stat read self n) ↔
    systemShare stat self.system ≠ 0 ∨
      (n.val.Gains st → n.val.cpu.percent = .real 0) := by
  rw [specShare_eq_share]
  have hGain := gainOf_of_stat hStat
  by_cases hGains : n.val.Gains st
  · have hPos : gainOf read n ≠ 0 := by
      rw [hGain, Ne, Identifier.gain_eq_zero_iff]
      exact not_not.mpr hGains
    have hSum := gains_sum_ne_zero hn hPos
    by_cases hUsage : systemShare stat self.system = 0
    · rw [percent_settle_of_unshared hStat hGains
        (Or.inl hUsage), hUsage, Shares.share_zero_amount]
      simp [hGains]
    · rw [percent_settle_of_gains hStat hGains hUsage hSum]
      simp [hUsage]
  · have hZero : gainOf read n = 0 := by
      rw [hGain]
      exact (Identifier.gain_eq_zero_iff _ _).mpr hGains
    rw [percent_settle_of_not_gains hStat hGains, hZero,
      Shares.share_zero_weight]
    simp [hGains]

/-
  A complete update with a system usage leaves every element
  with its share if and only if the running counter has
  moved or no element that gained ticks had a percentage
  other than zero.
-/
theorem sharesSpec_iff
    {self : Controller}
    {read : Reader}
    {stat : SystemStat}
    (hUse : self.cpuUsePerProcess = true)
    (hReads : self.Completes read)
    (hSampled : Sampled self.system)
    (hTicks :
      runningTicks stat self.system +
        idleTicks stat self.system ≠ 0) :
    SharesSpec stat read self (self.refresh stat read) ↔
      stat.running ≠ self.system.running ∨
        ∀ n ∈ self.identifiers.nodes, ∀ st,
          statOf read n = .ok st → n.val.Gains st →
            n.val.cpu.percent = .real 0 := by
  have hDivides : ¬ DividesByZero stat self.system :=
    fun hZero => hTicks hZero.2
  have hNodes := refresh_nodes_of_completes hUse hReads stat
  rw [systemUsage_real hDivides] at hNodes
  have hUsage := systemShare_eq_zero_iff hSampled hTicks
  have hEach :
      SharesSpec stat read self (self.refresh stat read) ↔
        ∀ n ∈ self.identifiers.nodes,
          (settle (.real (systemShare stat self.system))
              (self.gains read).sum read n).cpu.percent =
            .real (specShare stat read self n) := by
    constructor
    · rintro ⟨hEach, _⟩ n hn
      rw [hNodes, List.map_map] at hEach
      exact congrArg Prod.snd
        (List.map_inj_left.mp hEach n hn)
    · intro hAll
      apply sharesSpec_of_each
      rw [hNodes, List.map_map]
      apply List.map_congr_left
      intro n hn
      exact congrArg (Prod.mk n.addr) (hAll n hn)
  rw [hEach]
  constructor
  · intro hAll
    by_cases hRunning : stat.running = self.system.running
    · right
      intro n hn st hStat hGains
      rcases (percent_settle_iff stat hn hStat).mp
          (hAll n hn) with hNe | hZero
      · exact absurd (hUsage.mpr hRunning) hNe
      · exact hZero hGains
    · exact Or.inl hRunning
  · intro hWhen n hn
    rcases hReads n hn with ⟨st, hStat⟩
    apply (percent_settle_iff stat hn hStat).mpr
    rcases hWhen with hRunning | hZero
    · exact Or.inl fun hNone => hRunning (hUsage.mp hNone)
    · exact Or.inr fun hGains => hZero n hn st hStat hGains

/- A host with process 5 alone, after two updates. -/
def twiceUpdated : Controller :=
  let memory : Memory := fun _ => { kind := .exeName [] }
  (((World.bare memory fun _ => none).ctrl.insert (.above [])
    (fun _ => none) 5).refresh ⟨10, 10⟩
      fun _ _ => .present { utime := 10 }).refresh ⟨20, 20⟩
        fun _ _ => .present { utime := 20 }

theorem completes_twiceUpdated (st : Stat) :
    twiceUpdated.Completes fun _ _ => .present st := by
  intro n hn
  have hMem : n.val.pid ∈ twiceUpdated.pids :=
    List.mem_map_of_mem hn
  have hPids : twiceUpdated.pids = [5] := by decide +kernel
  rw [hPids, List.mem_singleton] at hMem
  unfold statOf
  rw [hMem]
  exact ⟨st, rfl⟩

/-
  Of the six of ten ticks that the system ran, process 5 has
  three quarters, process 6 one, and process 7 none.
-/
theorem sharesSpec_sample :
    let links : Links := fun _ => none
    let memory : Memory := fun _ => { kind := .exeName [] }
    let ctrl :=
      ([5, 6, 7].foldl
        (fun ctrl pid => ctrl.insert (.above []) links pid)
        (World.bare memory links).ctrl).refresh ⟨10, 10⟩
          fun _ _ => .present { utime := 10 }
    let read : Reader := fun _ pid =>
      .present
        { utime :=
            if pid = 5 then 13 else if pid = 6 then 11 else 10 }
    let ctrl' := ctrl.refresh ⟨16, 14⟩ read
    SharesSpec ⟨16, 14⟩ read ctrl ctrl' ∧
      (ctrl'.identifiers.nodes.map fun n =>
          (n.val.pid, n.val.cpu.percent)) =
        [(5, .real (9 / 20)), (6, .real (3 / 20)),
          (7, .real 0)] := by
  intro links memory ctrl read ctrl'
  have hPids : ctrl.pids = [5, 6, 7] := by decide +kernel
  have hPositive : ∀ pid ∈ ctrl.pids, 0 < pid := by
    rw [hPids]
    simp
  have hReads : ctrl.Completes read := by
    intro n hn
    have hPid := hPositive n.val.pid (List.mem_map_of_mem hn)
    unfold statOf Stat.ofPid
    rw [if_pos hPid]
    exact ⟨_, rfl⟩
  refine ⟨?_, by decide +kernel⟩
  exact (sharesSpec_iff (by decide +kernel) hReads
    (by decide +kernel) (by decide +kernel)).mpr
      (Or.inl (by decide +kernel))

/-
  The system was idle since the last update, but process 5
  gained five ticks. It keeps one half of the system usage
  as it was then.
-/
theorem percent_survives :
    let self' :=
      twiceUpdated.refresh ⟨20, 30⟩
        fun _ _ => .present { utime := 25 }
    (self'.identifiers.nodes.map fun n =>
        n.val.cpu.percent) = [.real (1 / 2)] ∧
      twiceUpdated.cpuUsePerProcess = true ∧
      systemShare ⟨20, 30⟩ twiceUpdated.system = 0 ∧
      Sampled twiceUpdated.system ∧
      runningTicks ⟨20, 30⟩ twiceUpdated.system +
        idleTicks ⟨20, 30⟩ twiceUpdated.system ≠ 0 ∧
      (twiceUpdated.Completes
        fun _ _ => .present { utime := 25 }) ∧
      ¬ SharesSpec ⟨20, 30⟩
        (fun _ _ => .present { utime := 25 })
        twiceUpdated self' := by
  intro self'
  refine ⟨by decide +kernel, by decide +kernel,
    by decide +kernel, by decide +kernel,
    by decide +kernel, completes_twiceUpdated _, ?_⟩
  intro hSpec
  exact absurd hSpec.each (by decide +kernel)

end Controller

end UdjatProcess
