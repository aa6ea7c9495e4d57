import UdjatProcess.Library.Runs
import UdjatProcess.Controller.Effects

/-
  The controller as a state machine.

  A `World` is the controller together with the executable
  names that `/proc` shows at the moment. An `Op` is one
  entry into the code under the controller's lock, or a
  change of `/proc`. What holds of the module over time is
  said of runs of `World.step`.

  Key definitions include:
    * `World`
    * `Op`
    * `World.step`
    * `World.Idle`

  Key theorems include:
    * `World.insert_cases`
    * `World.remove_cases`
    * `World.idle_of_create`
-/

------------------------------------------------------------
-- Worlds And Operations
------------------------------------------------------------

namespace UdjatProcess

/- The controller and the names of the running programs. -/
structure World where
  ctrl : Controller
  links : Links

/- One entry into the module's code, or a change of `/proc`. -/
inductive Op where
| links (links : Links)
| event (ev : ProcEvent)
| insert (pid : Pid)
| remove (pid : Pid)
| construct (agent : AgentId) (kind : Kind)
| insertAgent (agent : AgentId)
| removeAgent (agent : AgentId)
| start (agent : AgentId) (file : Option CString)
| refreshAgent (agent : AgentId) (file : Option CString)
| reload (dir : ProcDir)
| onTimer (dir : ProcDir)
| refresh (stat : Controller.SystemStat)
    (read : Controller.Reader)
| updateAgents
| getState (agent : AgentId) (file : StatFile)

namespace World

/-
  `getState` on an agent, of which only the state that it
  caches in the identifier is kept.
-/
def cacheState
    (agent : AgentId)
    (file : StatFile)
    (ctrl : Controller) : Controller :=
  match ctrl.agentState file agent with
  | some (.ok (_, ctrl)) => ctrl
  | _ => ctrl

/- Run an operation on the controller. -/
def operate
    (A : Allocator)
    (links : Links)
    (ctrl : Controller) : Op → Controller
| .links _ => ctrl
| .event ev => ctrl.handleEvent A links ev
| .insert pid => ctrl.insert A links pid
| .remove pid => ctrl.remove pid
| .construct agent kind => ctrl.construct agent kind
| .insertAgent agent => ctrl.insertAgent links agent
| .removeAgent agent => ctrl.removeAgent agent
| .start agent file => ctrl.start links file agent
| .refreshAgent agent file => ctrl.refreshAgent file agent
| .reload dir => ctrl.reload A links dir
| .onTimer dir => ctrl.onTimer A links dir
| .refresh stat read => ctrl.refresh stat read
| .updateAgents => ctrl.updateAgents
| .getState agent file => cacheState agent file ctrl

/- The executable names after an operation. -/
def linksAfter (links : Links) : Op → Links
| .links links => links
| _ => links

/- One step of the world. -/
def step
    (A : Allocator)
    (w : World)
    (op : Op) : World where
  ctrl := operate A w.links w.ctrl op
  links := linksAfter w.links op

/- The name of a process as the module reads it now. -/
def exename (w : World) (pid : Pid) : CString :=
  UdjatProcess.exename w.links pid

/- The agent recognises the process of the element. -/
def Accepts
    (w : World)
    (id : AgentId)
    (n : Node Identifier) : Prop :=
  (w.ctrl.memory id).probe (w.exename n.val.pid) = true

instance
    (w : World)
    (id : AgentId)
    (n : Node Identifier) :
    Decidable (w.Accepts id n) := by
  unfold Accepts
  infer_instance

/- The agent's pointer is the address of the element. -/
def BoundTo
    (w : World)
    (id : AgentId)
    (n : Node Identifier) : Prop :=
  (w.ctrl.memory id).pid = some n.addr

/- The agent's pointer is null. -/
def Unbound (w : World) (id : AgentId) : Prop :=
  (w.ctrl.memory id).pid = none

/- The agent's pointer is null or refers to an element. -/
def Anchored (w : World) (id : AgentId) : Prop :=
  w.Unbound id ∨
    ∃ n ∈ w.ctrl.identifiers.nodes, w.BoundTo id n

/- The agent watches a process by its executable name. -/
def IsExeName (w : World) (id : AgentId) : Prop :=
  ∃ exename, (w.ctrl.memory id).kind = .exeName exename

/- The agent watches the process named in a file. -/
def IsPidFile (w : World) (id : AgentId) : Prop :=
  ∃ pidfile, (w.ctrl.memory id).kind = .pidFile pidfile

/-
  A change of `/proc` that shows no new name for a process
  while it is tracked.
-/
def KeepsNames (w : World) (links : Links) : Prop :=
  ∀ pid, w.ctrl.Tracks pid →
    UdjatProcess.exename links pid = w.exename pid

/- No agent is registered, and all agents are unbound. -/
structure Idle (w : World) : Prop where
  agents : w.ctrl.agents = []
  unbound : ∀ id, w.Unbound id

------------------------------------------------------------
-- Pointers
------------------------------------------------------------

/- An agent is bound to one element at most. -/
theorem eq_of_boundTo
    {w : World}
    {id : AgentId}
    {n m : Node Identifier}
    (hn : n ∈ w.ctrl.identifiers.nodes)
    (hm : m ∈ w.ctrl.identifiers.nodes)
    (hBoundN : w.BoundTo id n)
    (hBoundM : w.BoundTo id m) :
    n = m :=
  NodeList.node_eq_of_addr_eq hn hm
    (Option.some.inj (hBoundN.symm.trans hBoundM))

/- A bound agent is not unbound. -/
theorem not_unbound_of_boundTo
    {w : World}
    {id : AgentId}
    {n : Node Identifier}
    (hBound : w.BoundTo id n) :
    ¬ w.Unbound id := by
  intro hUnbound
  exact Option.some_ne_none n.addr
    (hBound.symm.trans hUnbound)

/-
  What an agent recognises depends on its kind and on the
  name of the process.
-/
theorem accepts_iff_of_eq
    (w w' : World)
    {id : AgentId}
    {n : Node Identifier}
    (hKind :
      (w'.ctrl.memory id).kind = (w.ctrl.memory id).kind)
    (hName :
      w'.exename n.val.pid = w.exename n.val.pid) :
    w'.Accepts id n ↔ w.Accepts id n := by
  unfold Accepts
  rw [hName, Agent.probe_of_kind_eq hKind]

/- The kind says what an agent watches. -/
theorem isExeName_of_kind_eq
    {w w' : World}
    {id : AgentId}
    (hKind :
      (w'.ctrl.memory id).kind = (w.ctrl.memory id).kind) :
    w'.IsExeName id ↔ w.IsExeName id := by
  unfold IsExeName
  rw [hKind]

theorem isPidFile_of_kind_eq
    {w w' : World}
    {id : AgentId}
    (hKind :
      (w'.ctrl.memory id).kind = (w.ctrl.memory id).kind) :
    w'.IsPidFile id ↔ w.IsPidFile id := by
  unfold IsPidFile
  rw [hKind]

/- The processes of the list are tracked. -/
theorem tracks_of_mem
    {w : World}
    {n : Node Identifier}
    (hn : n ∈ w.ctrl.identifiers.nodes) :
    w.ctrl.Tracks n.val.pid :=
  (w.ctrl.tracks_iff _).mpr ⟨n, hn, rfl⟩

/-
  A pointer that keeps its value stays good when the list
  keeps its elements.
-/
theorem Anchored.mono
    {w w' : World}
    {id : AgentId}
    (hAnchored : w.Anchored id)
    (hPid :
      (w'.ctrl.memory id).pid = (w.ctrl.memory id).pid)
    (hNodes :
      ∀ n ∈ w.ctrl.identifiers.nodes, w.BoundTo id n →
        ∃ m ∈ w'.ctrl.identifiers.nodes, m.addr = n.addr) :
    w'.Anchored id := by
  rcases hAnchored with hUnbound | ⟨n, hn, hBound⟩
  · exact Or.inl (hPid.trans hUnbound)
  · rcases hNodes n hn hBound with ⟨m, hm, hAddr⟩
    refine Or.inr ⟨m, hm, ?_⟩
    unfold BoundTo
    rw [hPid, hAddr]
    exact hBound

------------------------------------------------------------
-- Steps
------------------------------------------------------------

/-
  A new process binds a registered unbound agent that
  recognises it, and leaves every other agent alone.
-/
theorem insert_cases
    (A : Allocator)
    (w : World)
    (pid : Pid)
    (id : AgentId) :
    ((id ∈ w.ctrl.agents ∧ w.Unbound id ∧
        (w.ctrl.memory id).probe (w.exename pid) = true) ∧
      ((w.step A (.insert pid)).ctrl.memory id).pid =
        some (w.ctrl.identifiers.fresh A)) ∨
    (¬ (id ∈ w.ctrl.agents ∧ w.Unbound id ∧
        (w.ctrl.memory id).probe (w.exename pid) = true) ∧
      (w.step A (.insert pid)).ctrl.memory id =
        w.ctrl.memory id) := by
  by_cases hMem : id ∈ w.ctrl.agents
  · have hMemory :
        (w.step A (.insert pid)).ctrl.memory id =
          (w.ctrl.memory id).bindIfUnbound (w.exename pid)
            (w.ctrl.identifiers.fresh A) :=
      (Controller.insert_memory pid w.ctrl id).trans
        (if_pos hMem)
    by_cases hBind :
        w.Unbound id ∧
          (w.ctrl.memory id).probe (w.exename pid) = true
    · left
      refine ⟨⟨hMem, hBind⟩, ?_⟩
      rw [hMemory, Agent.bindIfUnbound_pid]
      exact if_pos hBind
    · right
      refine ⟨fun hAll => hBind hAll.2, ?_⟩
      rw [hMemory]
      unfold Agent.bindIfUnbound
      rw [if_neg]
      intro hBoth
      rw [Bool.and_eq_true,
        Option.isNone_iff_eq_none] at hBoth
      exact hBind hBoth
  · right
    exact ⟨fun hAll => hMem hAll.1,
      Controller.insert_memory_of_not_mem hMem pid⟩

/-
  A process that goes leaves the registered agents bound to
  it unbound, and every other agent alone.
-/
theorem remove_cases
    (A : Allocator)
    (w : World)
    (pid : Pid)
    (id : AgentId) :
    ((id ∈ w.ctrl.agents ∧
        ∃ n ∈ w.ctrl.identifiers.nodes,
          n.val.pid = pid ∧ w.BoundTo id n) ∧
      (w.step A (.remove pid)).Unbound id) ∨
    (¬ (id ∈ w.ctrl.agents ∧
        ∃ n ∈ w.ctrl.identifiers.nodes,
          n.val.pid = pid ∧ w.BoundTo id n) ∧
      (w.step A (.remove pid)).ctrl.memory id =
        w.ctrl.memory id) := by
  have hMemory := Controller.remove_memory pid w.ctrl id
  by_cases hGone :
      id ∈ w.ctrl.agents ∧
        ∃ n ∈ w.ctrl.identifiers.nodes,
          n.val.pid = pid ∧ w.BoundTo id n
  · left
    have hSet := hMemory.trans (if_pos hGone)
    exact ⟨hGone,
      (congrArg Agent.pid hSet).trans (Agent.set_pid _ _)⟩
  · right
    exact ⟨hGone, hMemory.trans (if_neg hGone)⟩

/- Unregistered agents stay unbound when processes come. -/
theorem unbound_insert
    {A : Allocator}
    {w : World}
    (hOthers : ∀ id, id ∉ w.ctrl.agents → w.Unbound id)
    (pid : Pid)
    (id : AgentId)
    (hNot : id ∉ (w.step A (.insert pid)).ctrl.agents) :
    (w.step A (.insert pid)).Unbound id := by
  have hOld : id ∉ w.ctrl.agents := hNot
  exact (congrArg Agent.pid
    (Controller.insert_memory_of_not_mem hOld pid)).trans
      (hOthers id hOld)

/- They do when processes go. -/
theorem unbound_remove
    {A : Allocator}
    {w : World}
    (hOthers : ∀ id, id ∉ w.ctrl.agents → w.Unbound id)
    (pid : Pid)
    (id : AgentId)
    (hNot : id ∉ (w.step A (.remove pid)).ctrl.agents) :
    (w.step A (.remove pid)).Unbound id := by
  have hOld : id ∉ w.ctrl.agents := hNot
  exact (congrArg Agent.pid
    (Controller.remove_memory_of_not_mem hOld pid)).trans
      (hOthers id hOld)

/- And when some other agent is registered. -/
theorem unbound_insertAgent
    {A : Allocator}
    {w : World}
    (hOthers : ∀ id, id ∉ w.ctrl.agents → w.Unbound id)
    (agent id : AgentId)
    (hNot :
      id ∉ (w.step A (.insertAgent agent)).ctrl.agents) :
    (w.step A (.insertAgent agent)).Unbound id := by
  have hAgents :
      (w.step A (.insertAgent agent)).ctrl.agents =
        w.ctrl.agents ++ [agent] :=
    Controller.insertAgent_agents agent w.ctrl
  rw [hAgents, List.mem_append, not_or] at hNot
  rcases hNot with ⟨hOld, hOther⟩
  have hNe : id ≠ agent := fun hEq =>
    hOther (List.mem_singleton.mpr hEq)
  exact (congrArg Agent.pid
    (Controller.insertAgent_memory_ne hNe w.ctrl)).trans
      (hOthers id hOld)

/- And in an update, which leaves all agents alone. -/
theorem unbound_refresh
    {A : Allocator}
    {w : World}
    (hOthers : ∀ id, id ∉ w.ctrl.agents → w.Unbound id)
    (stat : Controller.SystemStat)
    (read : Controller.Reader)
    (id : AgentId)
    (hNot :
      id ∉ (w.step A (.refresh stat read)).ctrl.agents) :
    (w.step A (.refresh stat read)).Unbound id := by
  have hKeeps := Controller.refresh_keeps stat read w.ctrl
  have hAgents :
      (w.step A (.refresh stat read)).ctrl.agents =
        w.ctrl.agents := hKeeps.1
  rw [hAgents] at hNot
  exact (congrArg Agent.pid (congrFun hKeeps.2.1 id)).trans
    (hOthers id hNot)

/- In an idle world no agent is registered. -/
theorem Idle.not_mem
    {w : World}
    (hIdle : w.Idle)
    (id : AgentId) :
    id ∉ w.ctrl.agents := by
  rw [hIdle.agents]
  exact List.not_mem_nil

------------------------------------------------------------
-- Construction
------------------------------------------------------------

theorem foldl_insert_idle
    (A : Allocator)
    (links : Links)
    (pids : List Pid)
    (ctrl : Controller)
    (hAgents : ctrl.agents = []) :
    let ctrl' :=
      pids.foldl
        (fun ctrl pid => ctrl.insert A links pid) ctrl
    ctrl'.agents = [] ∧ ctrl'.memory = ctrl.memory := by
  induction pids generalizing ctrl with
  | nil => exact ⟨hAgents, rfl⟩
  | cons pid pids ih =>
      have hMemory :
          (ctrl.insert A links pid).memory = ctrl.memory := by
        funext id
        rw [Controller.insert_memory, hAgents]
        simp
      have hNext := ih (ctrl.insert A links pid) hAgents
      rw [hMemory] at hNext
      exact hNext

/-
  The constructor returns a controller that tracks what it
  loaded, in the order of the directory.
-/
theorem pids_create
    {A : Allocator}
    {links : Links}
    {memory : Memory}
    {dir : ProcDir}
    {fd : Int}
    {cpuUsePerProcess : Bool}
    {stat : Controller.SystemStat}
    {ctrl : Controller}
    {pids : List Pid}
    (hLoad : load dir = .ok pids)
    (hCreate :
      Controller.create A links memory dir fd
        cpuUsePerProcess stat = .ok ctrl) :
    ctrl.pids = pids := by
  unfold Controller.create at hCreate
  rw [hLoad] at hCreate
  have hCtrl := Except.ok.inj hCreate
  rw [← hCtrl]
  have hPids :=
    Controller.pids_foldl_insert (A := A) (L := links)
      pids
      { identifiers := .empty
        agents := []
        memory := memory
        fd := -1 }
  exact hPids

theorem fd_create
    {A : Allocator}
    {links : Links}
    {memory : Memory}
    {dir : ProcDir}
    {fd : Int}
    {cpuUsePerProcess : Bool}
    {stat : Controller.SystemStat}
    {ctrl : Controller}
    (hCreate :
      Controller.create A links memory dir fd
        cpuUsePerProcess stat = .ok ctrl) :
    ctrl.fd = fd := by
  unfold Controller.create at hCreate
  cases hLoad : load dir with
  | error e => simp [hLoad] at hCreate
  | ok pids =>
      rw [hLoad] at hCreate
      rw [← Except.ok.inj hCreate]

/- It starts without agents. -/
theorem idle_of_create
    {A : Allocator}
    {links : Links}
    {memory : Memory}
    {dir : ProcDir}
    {fd : Int}
    {cpuUsePerProcess : Bool}
    {stat : Controller.SystemStat}
    {ctrl : Controller}
    (hMemory : ∀ id, (memory id).pid = none)
    (hCreate :
      Controller.create A links memory dir fd
        cpuUsePerProcess stat = .ok ctrl) :
    Idle ⟨ctrl, links⟩ := by
  unfold Controller.create at hCreate
  cases hLoad : load dir with
  | error e => simp [hLoad] at hCreate
  | ok pids =>
      rw [hLoad] at hCreate
      have hCtrl := Except.ok.inj hCreate
      have hIdle :=
        foldl_insert_idle A links pids
          { identifiers := .empty
            agents := []
            memory := memory
            fd := -1 } rfl
      rw [← hCtrl]
      refine ⟨hIdle.1, ?_⟩
      intro id
      have hSame := congrFun hIdle.2 id
      unfold Unbound
      exact (congrArg Agent.pid hSame).trans (hMemory id)

/- A world without processes. -/
def bare (memory : Memory) (links : Links) : World where
  ctrl :=
    { identifiers := .empty
      agents := []
      memory := memory
      fd := 3 }
  links := links

theorem idle_bare
    {memory : Memory}
    {links : Links}
    (hMemory : ∀ id, (memory id).pid = none) :
    Idle (bare memory links) :=
  ⟨rfl, hMemory⟩

end World

end UdjatProcess
