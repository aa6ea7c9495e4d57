import UdjatProcess.Controller.Load

/-
  The periodic update of states and CPU shares
  (`refresh.cc`).

  The first pass reads `/proc/<pid>/stat` for every
  identifier; a read that throws ends it there, and with it
  the whole update. The second pass turns the ticks gained
  since the last update into shares of the system usage.

  Key definitions include:
    * `Identifier.sample`
    * `Controller.visit`
    * `Controller.refresh`
    * `Controller.updateAgents`
-/

------------------------------------------------------------
-- One Identifier
------------------------------------------------------------

namespace UdjatProcess

/-
  The loop body of the first pass, after the read: the
  identifier with its new state and tick count, and the
  ticks it is credited with, if it enters the list `pids`.
-/
def Identifier.sample
    (stat : Stat)
    (self : Identifier) : Identifier × Option ℚ :=
  let self := self.set stat.state
  let time := stat.utime + stat.stime
  if time ≠ 0 then
    if self.cpu.last ≠ 0 ∧ self.cpu.last < time then
      ({ self with cpu := { self.cpu with last := time } },
        some ((time - self.cpu.last).toNat : ℚ))
    else
      ({ self with cpu := { percent := .real 0, last := time } },
        none)
  else
    ({ self with cpu := { percent := .real 0, last := 0 } },
      none)

@[simp] theorem Identifier.sample_pid
    (stat : Stat)
    (self : Identifier) :
    (self.sample stat).1.pid = self.pid := by
  unfold Identifier.sample
  dsimp only
  split_ifs <;> simp

@[simp] theorem Identifier.sample_state
    (stat : Stat)
    (self : Identifier) :
    (self.sample stat).1.state = stat.state := by
  unfold Identifier.sample
  dsimp only
  split_ifs <;> simp

------------------------------------------------------------
-- The Update
------------------------------------------------------------

namespace Controller

/-
  What the read of the stat file comes to, for the element
  at an address with a process number.
-/
abbrev Reader := Addr → Pid → StatFile

/- The loop body of the first pass; `none` if it throws. -/
def visit
    (read : Reader)
    (n : Node Identifier) :
    Option (Identifier × Option ℚ) :=
  match Stat.ofPid (read n.addr n.val.pid) n.val.pid with
  | .error _ => none
  | .ok stat => some (n.val.sample stat)

/- The system usage since the last update, if there was one. -/
def systemUsage
    (stat : SystemStat)
    (system : SystemUse) : Usage :=
  if system.running ≠ 0 ∨ system.idle ≠ 0 then
    let running : ℚ := (stat.running - system.running).toNat
    let idle : ℚ := (stat.idle - system.idle).toNat
    .quotient running (running + idle)
  else
    .real 0

/- `Controller::system` after the update. -/
def systemAfter
    (stat : SystemStat)
    (system : SystemUse) : SystemUse where
  cpu :=
    if system.running ≠ 0 ∨ system.idle ≠ 0 then
      systemUsage stat system
    else
      system.cpu
  running := stat.running
  idle := stat.idle

/- The ticks of all entries of the list `pids`. -/
def totalTime (entries : List (Addr × ℚ)) : ℚ :=
  entries.foldl (fun total entry => total + entry.2) 0

/- The loop of the second pass. -/
def setPercents
    (sysusage : Usage)
    (totaltime : ℚ)
    (entries : List (Addr × ℚ))
    (identifiers : NodeList Identifier) :
    NodeList Identifier :=
  entries.foldl
    (fun identifiers entry =>
      identifiers.update entry.1 fun info =>
        { info with
          cpu :=
            { info.cpu with
              percent := sysusage.scale entry.2 totaltime } })
    identifiers

/- The second pass, if there is something to share. -/
def updateUsageByPid
    (sysusage : Usage)
    (entries : List (Addr × ℚ))
    (self : Controller) : Controller :=
  let totaltime := totalTime entries
  if sysusage.truthy && totaltime ≠ 0 then
    { self with
      identifiers :=
        setPercents sysusage totaltime entries
          self.identifiers }
  else
    self

/- `Controller::refresh`. -/
def refresh
    (stat : SystemStat)
    (read : Reader)
    (self : Controller) : Controller :=
  let sysusage := systemUsage stat self.system
  let self :=
    { self with system := systemAfter stat self.system }
  if self.cpuUsePerProcess then
    let pass :=
      NodeList.sweepNodes (visit read) self.identifiers.nodes
    let self :=
      { self with
        identifiers := self.identifiers.sweep (visit read) }
    if pass.completed then
      let self := self.updateUsageByPid sysusage pass.emitted
      { self with pushed := self.pushed + 1 }
    else
      self
  else
    { self with pushed := self.pushed + 1 }

/- The job that `refresh` hands to the thread pool. -/
def updateAgents (self : Controller) : Controller :=
  { self with
    memory :=
      ObjectStore.forEach self.agents Agent.updated self.memory
    pushed := self.pushed - 1 }

end Controller

end UdjatProcess
