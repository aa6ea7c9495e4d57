import UdjatProcess.System.World

/-
  The states that the counters count (`refresh.cc`,
  `agent/counter.cc`).

  The update stores the state that `/proc/<pid>/stat` shows
  for every identifier, but in the branch that computes the
  CPU use of each process. With that option off an update
  stores no state at all, and the counters are right exactly
  when every cached state happens to be the current one.

  Key definitions include:
    * `StateCounterAgent`
    * `World.ReadsAll`
    * `World.Fresh`

  Key theorems include:
    * `World.keys_refresh_of_reads`
    * `World.refresh_fresh_iff`
    * `World.refreshes_fresh_iff`
    * `World.state_stays_unread`
-/

------------------------------------------------------------
-- Counter Agents
------------------------------------------------------------

namespace UdjatProcess

/- `Process::StateCounterAgent`, with its published value. -/
structure StateCounterAgent where
  state : State
  value : UInt32 := 0
deriving DecidableEq

namespace StateCounterAgent

/- The count as the agent's type holds it. -/
def current
    (ctrl : Controller)
    (self : StateCounterAgent) : UInt32 :=
  UInt32.ofNat (ctrl.count self.state)

/- `StateCounterAgent::start`. -/
def start
    (ctrl : Controller)
    (self : StateCounterAgent) : StateCounterAgent :=
  { self with value := self.current ctrl }

/- `StateCounterAgent::refresh`: did the value change? -/
def refresh
    (ctrl : Controller)
    (self : StateCounterAgent) : Bool × StateCounterAgent :=
  (self.current ctrl != self.value,
    { self with value := self.current ctrl })

end StateCounterAgent

------------------------------------------------------------
-- What An Update Stores
------------------------------------------------------------

namespace World

/-
  Every tracked process has a stat file, and reading it
  succeeds.
-/
def ReadsAll
    (w : World)
    (read : Controller.Reader)
    (report : Pid → Stat) : Prop :=
  ∀ n ∈ w.ctrl.identifiers.nodes,
    0 < n.val.pid ∧
      read n.addr n.val.pid = .present (report n.val.pid)

/- Every identifier has the state reported for its process. -/
def StatesMatch (w : World) (report : Pid → Stat) : Prop :=
  ∀ n ∈ w.ctrl.identifiers.nodes,
    n.val.state = (report n.val.pid).state

/- How many identifiers' processes are reported in a state. -/
def reported
    (w : World)
    (report : Pid → Stat)
    (state : State) : Nat :=
  w.ctrl.identifiers.nodes.countP fun n =>
    (report n.val.pid).state == state

/-
  The states are those reported, and so are the counts and
  the values that counter agents publish.
-/
structure Fresh (w : World) (report : Pid → Stat) : Prop where
  states : w.StatesMatch report
  counts :
    ∀ state, w.ctrl.count state = w.reported report state
  published :
    ∀ agent : StateCounterAgent,
      (agent.refresh w.ctrl).2.value =
        UInt32.ofNat (w.reported report agent.state)

theorem count_eq_reported
    {w : World}
    {report : Pid → Stat}
    (hStates : w.StatesMatch report)
    (state : State) :
    w.ctrl.count state = w.reported report state := by
  unfold Controller.count reported
  apply List.countP_congr
  intro n hn
  rw [hStates n hn]

/- The counters follow from the states. -/
theorem fresh_iff_statesMatch
    (w : World)
    (report : Pid → Stat) :
    w.Fresh report ↔ w.StatesMatch report := by
  constructor
  · exact Fresh.states
  · intro hStates
    refine ⟨hStates, count_eq_reported hStates, ?_⟩
    intro agent
    exact congrArg UInt32.ofNat
      (count_eq_reported hStates agent.state)

/- A state and the process it belongs to. -/
def stateKey (i : Identifier) : Pid × State :=
  (i.pid, i.state)

theorem statesMatch_iff_keys
    (w : World)
    (report : Pid → Stat) :
    w.StatesMatch report ↔
      ∀ key ∈ w.ctrl.identifiers.nodes.map
          (fun n => stateKey n.val),
        key.2 = (report key.1).state := by
  simp [StatesMatch, stateKey]

/- A visit that reads the file samples its contents. -/
theorem visit_of_reads
    {w : World}
    {read : Controller.Reader}
    {report : Pid → Stat}
    (hReads : w.ReadsAll read report)
    {n : Node Identifier}
    (hn : n ∈ w.ctrl.identifiers.nodes) :
    Controller.visit read n =
      some (n.val.sample (report n.val.pid)) := by
  rcases hReads n hn with ⟨hPid, hRead⟩
  simp [Controller.visit, Stat.ofPid, hPid, hRead, Stat.set]

/- If the branch is taken, the pass stores what it reads. -/
theorem keys_sweep_of_reads
    {w : World}
    {read : Controller.Reader}
    {report : Pid → Stat}
    (hReads : w.ReadsAll read report) :
    (w.ctrl.identifiers.sweep
        (Controller.visit read)).nodes.map
          (fun n => stateKey n.val) =
      w.ctrl.identifiers.nodes.map fun n =>
        (n.val.pid, (report n.val.pid).state) := by
  have hAll :
      ∀ n ∈ w.ctrl.identifiers.nodes,
        (Controller.visit read n).isSome := by
    intro n hn
    rw [visit_of_reads hReads hn]
    rfl
  have hNodes :=
    NodeList.nodes_of_sweep_completed (Controller.visit read)
      w.ctrl.identifiers.nodes hAll
  unfold NodeList.sweep
  simp only [hNodes, List.map_map]
  apply List.map_congr_left
  intro n hn
  simp [visit_of_reads hReads hn, stateKey]

theorem keys_refresh_of_reads
    {w : World}
    {stat : Controller.SystemStat}
    {read : Controller.Reader}
    {report : Pid → Stat}
    (hUse : w.ctrl.cpuUsePerProcess = true)
    (hReads : w.ReadsAll read report) :
    (w.ctrl.refresh stat read).identifiers.nodes.map
        (fun n => stateKey n.val) =
      w.ctrl.identifiers.nodes.map fun n =>
        (n.val.pid, (report n.val.pid).state) := by
  rcases Controller.refresh_identifiers_cases stat read w.ctrl
    with ⟨hOff, _⟩ | ⟨_, hEq | ⟨u, t, es, hEq⟩⟩
  · rw [hUse] at hOff
    cases hOff
  · rw [hEq]
    exact keys_sweep_of_reads hReads
  · rw [hEq, Controller.map_setPercents_of_keeps stateKey
      (fun _ _ => rfl)]
    exact keys_sweep_of_reads hReads

/- If it is not, the update changes no identifier. -/
theorem refresh_identifiers_of_off
    {ctrl : Controller}
    (hOff : ctrl.cpuUsePerProcess = false)
    (stat : Controller.SystemStat)
    (read : Controller.Reader) :
    (ctrl.refresh stat read).identifiers =
      ctrl.identifiers := by
  unfold Controller.refresh
  simp [hOff]

------------------------------------------------------------
-- Fresh Counters
------------------------------------------------------------

/-
  After an update that reads every file the counters are
  fresh if and only if the option is on or every state was
  already the reported one.
-/
theorem refresh_fresh_iff
    (A : Allocator)
    {w : World}
    {stat : Controller.SystemStat}
    {read : Controller.Reader}
    {report : Pid → Stat}
    (hReads : w.ReadsAll read report) :
    (w.step A (.refresh stat read)).Fresh report ↔
      w.ctrl.cpuUsePerProcess = true ∨ w.StatesMatch report := by
  rw [fresh_iff_statesMatch]
  cases hUse : w.ctrl.cpuUsePerProcess with
  | true =>
      refine iff_of_true ?_ (Or.inl rfl)
      rw [statesMatch_iff_keys]
      change
        ∀ key ∈ (w.ctrl.refresh stat read).identifiers.nodes.map
            (fun n => stateKey n.val),
          key.2 = (report key.1).state
      rw [keys_refresh_of_reads hUse hReads]
      simp
  | false =>
      have hSame :
          (w.step A (.refresh stat read)).ctrl.identifiers =
            w.ctrl.identifiers :=
        refresh_identifiers_of_off hUse stat read
      unfold StatesMatch
      rw [hSame]
      simp

/- The step is an update that reads every file. -/
def Refreshes
    (w : World)
    (op : Op)
    (report : Pid → Stat) : Prop :=
  ∃ stat read,
    op = .refresh stat read ∧ w.ReadsAll read report

/-
  In every run, each update that reads every file leaves the
  counters fresh if and only if at each of them the option
  is on or every state is already the reported one.
-/
theorem refreshes_fresh_iff
    (A : Allocator)
    (w : World)
    (ops : List Op) :
    Runs.Along (step A)
        (fun w op => ∀ report, w.Refreshes op report →
          (w.step A op).Fresh report) w ops ↔
      Runs.Along (step A)
        (fun w op => ∀ report, w.Refreshes op report →
          w.ctrl.cpuUsePerProcess = true ∨
            w.StatesMatch report) w ops := by
  apply Runs.along_iff
  intro w op
  apply forall₂_congr
  intro report hRefreshes
  rcases hRefreshes with ⟨stat, read, hOp, hReads⟩
  subst hOp
  exact refresh_fresh_iff A hReads

/-
  With the option off, process 5 sleeps, and after an update
  that reads its file it is still counted as unread.
-/
theorem state_stays_unread :
    let memory : Memory := fun _ => { kind := .exeName [] }
    let report : Pid → Stat :=
      fun _ => { state := State.sleeping }
    let start : World :=
      { ctrl :=
          { (bare memory fun _ => none).ctrl.insert (.above [])
              (fun _ => none) 5 with
            cpuUsePerProcess := false }
        links := fun _ => none }
    let w :=
      start.step (.above [])
        (.refresh ⟨1, 1⟩ fun _ pid => .present (report pid))
    w.ctrl.count State.sleeping = 0 ∧
      w.ctrl.count State.unread = 1 ∧
      start.Refreshes
        (.refresh ⟨1, 1⟩ fun _ pid => .present (report pid))
        report ∧
      ¬ w.Fresh report := by
  intro memory report start w
  have hCount : w.ctrl.count State.sleeping = 0 := by decide
  refine ⟨hCount, by decide, ⟨_, _, rfl, ?_⟩, ?_⟩
  · intro n hn
    have hEq : n.val.pid = 5 := by
      rw [List.mem_singleton.mp hn]
    rw [hEq]
    exact ⟨by decide, rfl⟩
  · intro hFresh
    have hReported := hFresh.counts State.sleeping
    rw [hCount] at hReported
    revert hReported
    decide

end World

end UdjatProcess
