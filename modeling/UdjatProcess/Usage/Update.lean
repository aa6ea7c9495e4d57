import Mathlib.Data.Rat.Cast.Order
import Mathlib.Tactic.Linarith
import UdjatProcess.Controller.Effects
import UdjatProcess.Library.Shares

/-
  What one update does to the CPU accounting (`refresh.cc`).

  Every identifier that the first pass reads ends with the
  tick count of its file, and either with the percentage it
  had and an entry in the list `pids`, or with percentage
  zero and no entry. When all are read, the second pass
  gives each entry its share of the system usage.

  Key definitions include:
    * `Stat.time`
    * `Identifier.Gains`
    * `Identifier.gain`
    * `Controller.Completes`
    * `Controller.DividesByZero`
    * `Controller.settle`

  Key theorems include:
    * `Identifier.sample_cases`
    * `Controller.systemUsage_real`
    * `Controller.refresh_nodes_of_completes`
    * `Controller.refresh_of_not_completes`
-/

------------------------------------------------------------
-- One Sample
------------------------------------------------------------

namespace UdjatProcess

/- The ticks that a stat file shows, as the code adds them. -/
def Stat.time (self : Stat) : UInt64 :=
  self.utime + self.stime

namespace Usage

/- A share of the CPU between nothing and all of it. -/
def InUnit (self : Usage) : Prop :=
  ∃ q, self = .real q ∧ 0 ≤ q ∧ q ≤ 1

/- The number, where there is one. -/
def value : Usage → ℚ
| .nan => 0
| .real q => q

/- A share of a real usage, where it divides. -/
theorem scale_real
    (q d : ℚ)
    {total : ℚ}
    (hTotal : total ≠ 0) :
    (Usage.real q).scale d total =
      .real (Shares.share q total d) := by
  simp [scale, quotient, hTotal, Shares.share]

end Usage

namespace Identifier

/- There was a sample before, and ticks were gained since. -/
def Gains (stat : Stat) (self : Identifier) : Prop :=
  self.cpu.last ≠ 0 ∧ self.cpu.last < stat.time

instance (stat : Stat) (self : Identifier) :
    Decidable (self.Gains stat) := by
  unfold Gains
  infer_instance

/- The ticks that a sample credits. -/
def gain (stat : Stat) (self : Identifier) : ℚ :=
  if self.Gains stat then
    ((stat.time - self.cpu.last).toNat : ℚ)
  else
    0

theorem gain_nonneg (stat : Stat) (self : Identifier) :
    0 ≤ self.gain stat := by
  unfold gain
  split
  · exact Nat.cast_nonneg _
  · exact le_rfl

/- A gain is more than nothing. -/
theorem gain_eq_zero_iff (stat : Stat) (self : Identifier) :
    self.gain stat = 0 ↔ ¬ self.Gains stat := by
  unfold gain
  split
  · next hGains =>
    have hLt := UInt64.lt_iff_toNat_lt.mp hGains.2
    have hLe : self.cpu.last ≤ stat.time :=
      UInt64.le_iff_toNat_le.mpr hLt.le
    have hSub :
        (stat.time - self.cpu.last).toNat =
          stat.time.toNat - self.cpu.last.toNat :=
      UInt64.toNat_sub_of_le _ _ hLe
    rw [hSub, Nat.cast_eq_zero]
    constructor
    · intro hZero
      omega
    · intro hNot
      exact absurd hGains hNot
  · next hNot => exact iff_of_true rfl hNot

/- The tick count of the file is always stored. -/
@[simp] theorem sample_last
    (stat : Stat)
    (self : Identifier) :
    (self.sample stat).1.cpu.last = stat.time := by
  unfold sample
  dsimp only
  split_ifs with hTime
  · rfl
  · rfl
  · exact (not_not.mp hTime).symm

/-
  A sample credits the gained ticks and keeps the
  percentage, or credits nothing and sets it to zero.
-/
theorem sample_cases
    (stat : Stat)
    (self : Identifier) :
    (self.Gains stat ∧
      (self.sample stat).1.cpu.percent = self.cpu.percent ∧
      (self.sample stat).2 = some (self.gain stat)) ∨
    (¬ self.Gains stat ∧
      (self.sample stat).1.cpu.percent = .real 0 ∧
      (self.sample stat).2 = none) := by
  by_cases hGains : self.Gains stat
  · left
    have hTime : stat.utime + stat.stime ≠ 0 := by
      intro hZero
      have hLt : self.cpu.last < stat.utime + stat.stime :=
        hGains.2
      rw [hZero] at hLt
      exact absurd hLt (by simp)
    have hBoth :
        self.cpu.last ≠ 0 ∧
          self.cpu.last < stat.utime + stat.stime := hGains
    refine ⟨hGains, ?_, ?_⟩
    · unfold sample
      simp [hTime, hBoth]
    · unfold sample gain
      simp [hTime, hBoth, hGains, Stat.time]
  · right
    have hBoth :
        ¬ (self.cpu.last ≠ 0 ∧
          self.cpu.last < stat.utime + stat.stime) := hGains
    refine ⟨hGains, ?_, ?_⟩
    · unfold sample
      dsimp only
      rw [set_cpu, if_neg hBoth]
      split <;> rfl
    · unfold sample
      dsimp only
      rw [set_cpu, if_neg hBoth]
      split <;> rfl

/- The credit is the gain, nothing being put down as zero. -/
theorem sample_credit
    (stat : Stat)
    (self : Identifier) :
    (self.sample stat).2.getD 0 = self.gain stat := by
  rcases sample_cases stat self with
    ⟨_, _, hCredit⟩ | ⟨hNot, _, hCredit⟩
  · rw [hCredit, Option.getD_some]
  · rw [hCredit, Option.getD_none]
    exact ((gain_eq_zero_iff stat self).mpr hNot).symm

end Identifier

------------------------------------------------------------
-- The System Usage
------------------------------------------------------------

namespace Controller

/- The ticks the system was running since the last sample. -/
def runningTicks (stat : SystemStat) (system : SystemUse) : ℚ :=
  (stat.running - system.running).toNat

/- The ticks it was idle. -/
def idleTicks (stat : SystemStat) (system : SystemUse) : ℚ :=
  (stat.idle - system.idle).toNat

/- There was a sample before, so that usage is computed. -/
def Sampled (system : SystemUse) : Prop :=
  system.running ≠ 0 ∨ system.idle ≠ 0

instance (system : SystemUse) : Decidable (Sampled system) := by
  unfold Sampled
  infer_instance

/- The system usage is computed as a quotient by zero. -/
def DividesByZero
    (stat : SystemStat)
    (system : SystemUse) : Prop :=
  Sampled system ∧
    runningTicks stat system + idleTicks stat system = 0

instance (stat : SystemStat) (system : SystemUse) :
    Decidable (DividesByZero stat system) := by
  unfold DividesByZero
  infer_instance

/- The share of the time that the system was running. -/
def systemShare
    (stat : SystemStat)
    (system : SystemUse) : ℚ :=
  if Sampled system then
    runningTicks stat system /
      (runningTicks stat system + idleTicks stat system)
  else
    0

theorem runningTicks_nonneg
    (stat : SystemStat)
    (system : SystemUse) :
    0 ≤ runningTicks stat system :=
  Nat.cast_nonneg _

theorem idleTicks_nonneg
    (stat : SystemStat)
    (system : SystemUse) :
    0 ≤ idleTicks stat system :=
  Nat.cast_nonneg _

/- No tick passed exactly if the counters are the same. -/
theorem ticks_eq_zero_iff (x y : UInt64) :
    ((x - y).toNat : ℚ) = 0 ↔ x = y := by
  rw [Nat.cast_eq_zero]
  constructor
  · intro hZero
    have hSub : x - y = 0 := UInt64.toNat_inj.mp hZero
    rw [← UInt64.sub_add_cancel x y, hSub, UInt64.zero_add]
  · intro hEq
    rw [hEq, UInt64.sub_self]
    rfl

/- The divisor vanishes if neither counter has moved. -/
theorem dividesByZero_iff
    (stat : SystemStat)
    (system : SystemUse) :
    DividesByZero stat system ↔
      Sampled system ∧ stat.running = system.running ∧
        stat.idle = system.idle := by
  unfold DividesByZero
  rw [add_eq_zero_iff_of_nonneg (runningTicks_nonneg _ _)
    (idleTicks_nonneg _ _)]
  unfold runningTicks idleTicks
  rw [ticks_eq_zero_iff, ticks_eq_zero_iff]

/- Otherwise the usage is the share of the running time. -/
theorem systemUsage_real
    {stat : SystemStat}
    {system : SystemUse}
    (hDivides : ¬ DividesByZero stat system) :
    systemUsage stat system =
      .real (systemShare stat system) := by
  unfold systemUsage systemShare
  by_cases hSampled : Sampled system
  · have hBoth :
        system.running ≠ 0 ∨ system.idle ≠ 0 := hSampled
    have hTicks :
        runningTicks stat system +
          idleTicks stat system ≠ 0 :=
      fun hZero => hDivides ⟨hSampled, hZero⟩
    rw [if_pos hBoth, if_pos hSampled]
    exact if_neg hTicks
  · have hNone :
        ¬ (system.running ≠ 0 ∨ system.idle ≠ 0) := hSampled
    rw [if_neg hNone, if_neg hSampled]

theorem systemShare_nonneg
    (stat : SystemStat)
    (system : SystemUse) :
    0 ≤ systemShare stat system := by
  unfold systemShare
  split
  · exact div_nonneg (runningTicks_nonneg _ _)
      (add_nonneg (runningTicks_nonneg _ _)
        (idleTicks_nonneg _ _))
  · exact le_rfl

theorem systemShare_le_one
    (stat : SystemStat)
    (system : SystemUse) :
    systemShare stat system ≤ 1 := by
  unfold systemShare
  split
  · apply div_le_one_of_le₀
    · exact le_add_of_nonneg_right (idleTicks_nonneg _ _)
    · exact add_nonneg (runningTicks_nonneg _ _)
        (idleTicks_nonneg _ _)
  · exact zero_le_one

theorem systemUsage_inUnit
    {stat : SystemStat}
    {system : SystemUse}
    (hDivides : ¬ DividesByZero stat system) :
    (systemUsage stat system).InUnit :=
  ⟨_, systemUsage_real hDivides, systemShare_nonneg _ _,
    systemShare_le_one _ _⟩

------------------------------------------------------------
-- Both Passes
------------------------------------------------------------

/- What the update reads for an element. -/
def statOf
    (read : Reader)
    (n : Node Identifier) : Except StatError Stat :=
  Stat.ofPid (read n.addr n.val.pid) n.val.pid

/- No read throws. -/
def Completes (read : Reader) (self : Controller) : Prop :=
  ∀ n ∈ self.identifiers.nodes, ∃ stat, statOf read n = .ok stat

/- The ticks that an element has gained. -/
def gainOf (read : Reader) (n : Node Identifier) : ℚ :=
  match statOf read n with
  | .ok stat => n.val.gain stat
  | .error _ => 0

theorem gainOf_nonneg
    (read : Reader)
    (n : Node Identifier) :
    0 ≤ gainOf read n := by
  unfold gainOf
  split
  · exact Identifier.gain_nonneg _ _
  · exact le_rfl

theorem gainOf_of_stat
    {read : Reader}
    {n : Node Identifier}
    {stat : Stat}
    (hStat : statOf read n = .ok stat) :
    gainOf read n = n.val.gain stat := by
  unfold gainOf
  rw [hStat]

/- The gains of all elements. -/
def gains (read : Reader) (self : Controller) : List ℚ :=
  self.identifiers.nodes.map (gainOf read)

theorem visit_of_stat
    {read : Reader}
    {n : Node Identifier}
    {stat : Stat}
    (hStat : statOf read n = .ok stat) :
    visit read n = some (n.val.sample stat) := by
  unfold statOf at hStat
  unfold visit
  rw [hStat]

theorem visit_of_error
    {read : Reader}
    {n : Node Identifier}
    {e : StatError}
    (hStat : statOf read n = .error e) :
    visit read n = none := by
  unfold statOf at hStat
  unfold visit
  rw [hStat]

theorem visit_isSome_iff
    (read : Reader)
    (n : Node Identifier) :
    (visit read n).isSome ↔ ∃ stat, statOf read n = .ok stat := by
  cases hStat : statOf read n with
  | ok stat => simp [visit_of_stat hStat]
  | error e => simp [visit_of_error hStat]

theorem completed_iff
    (read : Reader)
    (self : Controller) :
    (NodeList.sweepNodes (visit read)
        self.identifiers.nodes).completed = true ↔
      self.Completes read := by
  rw [NodeList.sweep_completed_iff]
  exact forall₂_congr fun n _ => visit_isSome_iff read n

theorem totalTime_eq_sum (entries : List (Addr × ℚ)) :
    totalTime entries = (entries.map Prod.snd).sum := by
  unfold totalTime
  rw [← List.foldl_map (f := Prod.snd)
    (g := fun total x => total + x), List.sum_eq_foldl]

/- The ticks of all entries are those of all elements. -/
theorem totalTime_of_completes
    {read : Reader}
    {ns : List (Node Identifier)}
    (hReads : ∀ n ∈ ns, ∃ stat, statOf read n = .ok stat) :
    totalTime (NodeList.sweepNodes (visit read) ns).emitted =
      (ns.map (gainOf read)).sum := by
  rw [totalTime_eq_sum]
  induction ns with
  | nil => rfl
  | cons n ns ih =>
      rcases hReads n List.mem_cons_self with ⟨stat, hStat⟩
      have hTail := ih fun m hm =>
        hReads m (List.mem_cons_of_mem n hm)
      have hGain := gainOf_of_stat hStat
      rw [List.map_cons, List.sum_cons, ← hTail, hGain,
        ← Identifier.sample_credit]
      cases hCredit : (n.val.sample stat).2 with
      | none =>
          simp [NodeList.sweepNodes, visit_of_stat hStat,
            hCredit]
      | some d =>
          simp [NodeList.sweepNodes, visit_of_stat hStat,
            hCredit]

/- The body of the second pass, for one entry. -/
def setShare
    (sysusage : Usage)
    (totaltime usage : ℚ)
    (info : Identifier) : Identifier :=
  { info with
    cpu :=
      { info.cpu with
        percent := sysusage.scale usage totaltime } }

theorem setPercents_eq
    (sysusage : Usage)
    (totaltime : ℚ)
    (entries : List (Addr × ℚ))
    (l : NodeList Identifier) :
    setPercents sysusage totaltime entries l =
      l.updateEach (setShare sysusage totaltime) entries := rfl

/-
  An identifier after a complete update, given the system
  usage and the ticks of all entries.
-/
def settle
    (sysusage : Usage)
    (totaltime : ℚ)
    (read : Reader)
    (n : Node Identifier) : Identifier :=
  match visit read n with
  | none => n.val
  | some (info, none) => info
  | some (info, some usage) =>
      if sysusage.truthy && totaltime ≠ 0 then
        setShare sysusage totaltime usage info
      else
        info

/- Without a second pass it is as the first pass leaves it. -/
theorem settle_of_unshared
    {sysusage : Usage}
    {totaltime : ℚ}
    (hShare :
      ¬ (sysusage.truthy && totaltime ≠ 0) = true)
    (read : Reader)
    (n : Node Identifier) :
    settle sysusage totaltime read n =
      ((visit read n).map Prod.fst).getD n.val := by
  unfold settle
  cases hVisit : visit read n with
  | none => rfl
  | some out =>
      rcases out with ⟨info, out⟩
      cases out with
      | none => rfl
      | some usage => exact if_neg hShare

/- The visit of an element that gained ticks. -/
theorem visit_of_gains
    {read : Reader}
    {n : Node Identifier}
    {stat : Stat}
    (hStat : statOf read n = .ok stat)
    (hGains : n.val.Gains stat) :
    visit read n =
        some ((n.val.sample stat).1,
          some (n.val.gain stat)) ∧
      (n.val.sample stat).1.cpu.percent =
        n.val.cpu.percent := by
  rcases Identifier.sample_cases stat n.val with
    ⟨_, hPercent, hCredit⟩ | ⟨hNot, _⟩
  · rw [visit_of_stat hStat, ← hCredit]
    exact ⟨rfl, hPercent⟩
  · exact absurd hGains hNot

/- The share of an element that gained ticks. -/
theorem percent_settle_of_gains
    {read : Reader}
    {n : Node Identifier}
    {stat : Stat}
    {q total : ℚ}
    (hStat : statOf read n = .ok stat)
    (hGains : n.val.Gains stat)
    (hUsage : q ≠ 0)
    (hTotal : total ≠ 0) :
    (settle (.real q) total read n).cpu.percent =
      .real (Shares.share q total (gainOf read n)) := by
  have hGain := gainOf_of_stat hStat
  have hVisit := (visit_of_gains hStat hGains).1
  have hShare :
      ((Usage.real q).truthy && decide (total ≠ 0)) =
        true := by
    simp [Usage.truthy, hUsage, hTotal]
  simp only [settle, hVisit, hShare, if_true]
  rw [hGain]
  exact Usage.scale_real q (n.val.gain stat) hTotal

/- Without a second pass it keeps its percentage. -/
theorem percent_settle_of_unshared
    {read : Reader}
    {n : Node Identifier}
    {stat : Stat}
    {q total : ℚ}
    (hStat : statOf read n = .ok stat)
    (hGains : n.val.Gains stat)
    (hNone : q = 0 ∨ total = 0) :
    (settle (.real q) total read n).cpu.percent =
      n.val.cpu.percent := by
  rcases visit_of_gains hStat hGains with
    ⟨hVisit, hPercent⟩
  have hShare :
      ¬ ((Usage.real q).truthy && decide (total ≠ 0)) =
        true := by
    rcases hNone with hZero | hZero
    · simp [Usage.truthy, hZero]
    · simp [hZero]
  rw [settle_of_unshared hShare, hVisit]
  exact hPercent

/- The percentage of one that gained none is zero. -/
theorem percent_settle_of_not_gains
    {read : Reader}
    {n : Node Identifier}
    {stat : Stat}
    (hStat : statOf read n = .ok stat)
    (hNot : ¬ n.val.Gains stat)
    (sysusage : Usage)
    (total : ℚ) :
    (settle sysusage total read n).cpu.percent =
      .real 0 := by
  rcases Identifier.sample_cases stat n.val with
    ⟨hGains, _⟩ | ⟨_, hPercent, hCredit⟩
  · exact absurd hGains hNot
  · have hVisit :
        visit read n =
          some ((n.val.sample stat).1, none) := by
      rw [visit_of_stat hStat, ← hCredit]
    simp only [settle, hVisit]
    exact hPercent

/- What a complete first pass lists of an element. -/
theorem lookup_emitted_of_completes
    {self : Controller}
    {read : Reader}
    (hReads : self.Completes read)
    {n : Node Identifier}
    (hn : n ∈ self.identifiers.nodes) :
    (NodeList.sweepNodes (visit read)
        self.identifiers.nodes).emitted.lookup n.addr =
      (visit read n).bind Prod.snd := by
  have hVisits :
      ∀ m ∈ self.identifiers.nodes, (visit read m).isSome :=
    fun m hm => (visit_isSome_iff read m).mpr (hReads m hm)
  have hReached :
      n ∈ NodeList.reached (visit read)
        self.identifiers.nodes := by
    unfold NodeList.reached
    rw [List.takeWhile_eq_self_iff.mpr hVisits]
    exact hn
  exact
    NodeList.lookup_emitted _ self.identifiers.nodup hReached

/- The elements after a complete first and second pass. -/
theorem nodes_updateUsageByPid
    {self : Controller}
    {read : Reader}
    (hReads : self.Completes read)
    (sysusage : Usage) :
    let pass :=
      NodeList.sweepNodes (visit read) self.identifiers.nodes
    (updateUsageByPid sysusage pass.emitted
        { self with
          identifiers :=
            self.identifiers.sweep
              (visit read) }).identifiers.nodes =
      self.identifiers.nodes.map fun n =>
        ⟨n.addr,
          settle sysusage (totalTime pass.emitted) read n⟩ := by
  intro pass
  have hVisits :
      ∀ n ∈ self.identifiers.nodes, (visit read n).isSome :=
    fun n hn => (visit_isSome_iff read n).mpr (hReads n hn)
  have hSwept :
      (self.identifiers.sweep (visit read)).nodes =
        self.identifiers.nodes.map fun n =>
          ⟨n.addr,
            ((visit read n).map Prod.fst).getD n.val⟩ :=
    NodeList.nodes_of_sweep_completed _ _ hVisits
  unfold updateUsageByPid
  dsimp only
  split
  · next hShare =>
    change
      (setPercents sysusage (totalTime pass.emitted)
          pass.emitted
          (self.identifiers.sweep (visit read))).nodes = _
    rw [setPercents_eq,
      NodeList.nodes_updateEach _
        (NodeList.emitted_addrs_nodup _ _),
      hSwept, List.map_map]
    apply List.map_congr_left
    intro n hn
    have hEntry :
        pass.emitted.lookup n.addr =
          (visit read n).bind Prod.snd :=
      lookup_emitted_of_completes hReads hn
    cases hVisit : visit read n with
    | none =>
        have hSome := hVisits n hn
        rw [hVisit] at hSome
        cases hSome
    | some out =>
        rcases out with ⟨info, out⟩
        cases out with
        | none =>
            rw [hVisit] at hEntry
            simp only [Function.comp_apply, settle, hVisit]
            exact NodeList.applyEntry_of_none _ hEntry
        | some usage =>
            rw [hVisit] at hEntry
            simp only [Function.comp_apply, settle, hVisit,
              hShare, if_true]
            exact NodeList.applyEntry_of_some _ hEntry
  · next hShare =>
    change (self.identifiers.sweep (visit read)).nodes = _
    rw [hSwept]
    apply List.map_congr_left
    intro n hn
    rw [settle_of_unshared hShare]

/-
  An update in which no read throws settles every element
  with the system usage and the sum of all gains.
-/
theorem refresh_nodes_of_completes
    {self : Controller}
    {read : Reader}
    (hUse : self.cpuUsePerProcess = true)
    (hReads : self.Completes read)
    (stat : SystemStat) :
    (self.refresh stat read).identifiers.nodes =
      self.identifiers.nodes.map fun n =>
        ⟨n.addr,
          settle (systemUsage stat self.system)
            (self.gains read).sum read n⟩ := by
  have hCompleted := (completed_iff read self).mpr hReads
  have hTotal := totalTime_of_completes hReads
  have hNodes :=
    nodes_updateUsageByPid hReads
      (systemUsage stat self.system)
  unfold gains
  rw [← hTotal, ← hNodes]
  unfold refresh updateUsageByPid
  simp only [hUse, hCompleted, if_true]
  split <;> rfl

/-
  One in which a read throws leaves the list as the first
  pass did, and does not report to the agents.
-/
theorem refresh_of_not_completes
    {self : Controller}
    {read : Reader}
    (hUse : self.cpuUsePerProcess = true)
    (hReads : ¬ self.Completes read)
    (stat : SystemStat) :
    (self.refresh stat read).identifiers =
        self.identifiers.sweep (visit read) ∧
      (self.refresh stat read).pushed = self.pushed := by
  have hCompleted :
      (NodeList.sweepNodes (visit read)
        self.identifiers.nodes).completed = false := by
    rw [← Bool.not_eq_true, completed_iff]
    exact hReads
  unfold refresh
  simp [hUse, hCompleted]

/- A complete update reports to the agents. -/
theorem refresh_pushed_of_completes
    {self : Controller}
    {read : Reader}
    (hReads : self.Completes read)
    (stat : SystemStat) :
    (self.refresh stat read).pushed = self.pushed + 1 := by
  have hCompleted := (completed_iff read self).mpr hReads
  unfold refresh
  simp only [hCompleted, if_true]
  split
  · rcases updateUsageByPid_cases _ _ _ with hEq | hEq
    · rw [hEq]
    · rw [hEq]
  · rfl

@[simp] theorem refresh_system
    (stat : SystemStat)
    (read : Reader)
    (self : Controller) :
    (self.refresh stat read).system =
      systemAfter stat self.system := by
  unfold refresh
  dsimp only
  split
  · split
    · rcases updateUsageByPid_cases _ _ _ with hEq | hEq
      · rw [hEq]
      · rw [hEq]
    · rfl
  · rfl

end Controller

end UdjatProcess
