import UdjatProcess.Library.ObjectStore
import UdjatProcess.Agent.Basic

/-
  The controller's process list and its agents
  (`controller/controller.cc`, and the parts of
  `agent/abstract.cc` and `agent/pidfile.cc` that call it).

  The state is the list of identifiers, the list of
  registered agents and the objects those pointers refer to.
  Everything runs under one recursive lock, so an operation
  is a function on this state.

  Key definitions include:
    * `Controller`
    * `Controller.insert`
    * `Controller.remove`
    * `Controller.insertAgent`
    * `Controller.removeAgent`
    * `Controller.find`
    * `Controller.count`
    * `Controller.start`
    * `Controller.refreshAgent`
-/

------------------------------------------------------------
-- State
------------------------------------------------------------

namespace UdjatProcess

/- The address of an agent. -/
abbrev AgentId := Nat

/- The agents behind the pointers. -/
abbrev Memory := AgentId → Agent

/- `Controller::system`. -/
structure SystemUse where
  cpu : Usage := .real 0
  running : UInt64 := 0
  idle : UInt64 := 0
deriving DecidableEq

/-
  `Process::Controller`. `fd` is the netlink socket of the
  handler, `pushed` the number of jobs handed to the thread
  pool that report an update to every agent.
-/
structure Controller where
  identifiers : NodeList Identifier
  agents : List AgentId
  memory : Memory
  fd : Int
  cpuUsePerProcess : Bool := true
  system : SystemUse := {}
  pushed : Nat := 0

namespace Controller

/- The process numbers in list order. -/
def pids (self : Controller) : List Pid :=
  self.identifiers.nodes.map fun n => n.val.pid

/- Some identifier has the process number. -/
def Tracks (self : Controller) (pid : Pid) : Prop :=
  pid ∈ self.pids

instance (self : Controller) (pid : Pid) :
    Decidable (self.Tracks pid) := by
  unfold Tracks
  infer_instance

theorem tracks_iff
    (self : Controller)
    (pid : Pid) :
    self.Tracks pid ↔
      ∃ n ∈ self.identifiers.nodes, n.val.pid = pid :=
  List.mem_map

------------------------------------------------------------
-- Processes
------------------------------------------------------------

/- `Controller::onInsert`. -/
def onInsert
    (links : Links)
    (n : Node Identifier)
    (self : Controller) : Controller :=
  let exec := exename links n.val.pid
  { self with
    memory :=
      ObjectStore.forEach self.agents
        (Agent.bindIfUnbound exec n.addr) self.memory }

/- `Controller::insert(pid_t)`. -/
def insert
    (A : Allocator)
    (links : Links)
    (pid : Pid)
    (self : Controller) : Controller :=
  let identifier : Identifier := { pid := pid }
  onInsert links ⟨self.identifiers.fresh A, identifier⟩
    { self with
      identifiers :=
        self.identifiers.emplaceBack A identifier }

/-
  The side effect of the predicate that `remove(pid_t)`
  gives to `remove_if`: at each element to be removed, the
  agents bound to it are unbound.
-/
def unbindRemoved
    (agents : List AgentId)
    (pid : Pid) :
    List (Node Identifier) → Memory → Memory
| [], memory => memory
| n :: ns, memory =>
    unbindRemoved agents pid ns
      (if n.val.pid = pid then
        ObjectStore.forEach agents (Agent.unbindFrom n.addr)
          memory
      else
        memory)

/- `Controller::remove(pid_t)`. -/
def remove
    (pid : Pid)
    (self : Controller) : Controller :=
  { self with
    identifiers :=
      self.identifiers.removeIf fun e => e.pid == pid
    memory :=
      unbindRemoved self.agents pid self.identifiers.nodes
        self.memory }

/- `Controller::find`. -/
def find
    (pid : Pid)
    (self : Controller) : Option Addr :=
  (self.identifiers.nodes.find?
    fun n => n.val.pid == pid).map Node.addr

/- `Controller::count`. -/
def count
    (state : State)
    (self : Controller) : Nat :=
  self.identifiers.nodes.countP fun n => n.val.state == state

------------------------------------------------------------
-- Agents
------------------------------------------------------------

/- The first identifier that the agent recognises. -/
def firstMatch
    (links : Links)
    (agent : AgentId)
    (self : Controller) : Option (Node Identifier) :=
  self.identifiers.nodes.find? fun n =>
    (self.memory agent).probeIdentifier links n.val

/- `agent->set(pid)`. -/
def setAgent
    (agent : AgentId)
    (pid : Option Addr)
    (self : Controller) : Controller :=
  { self with
    memory :=
      ObjectStore.modify agent (Agent.set pid) self.memory }

/- `agent->updated(true)`. -/
def notify
    (agent : AgentId)
    (self : Controller) : Controller :=
  { self with
    memory :=
      ObjectStore.modify agent Agent.updated self.memory }

/- `Controller::insert(Agent *)`. -/
def insertAgent
    (links : Links)
    (agent : AgentId)
    (self : Controller) : Controller :=
  let self := { self with agents := self.agents ++ [agent] }
  match self.firstMatch links agent with
  | some n => self.setAgent agent (some n.addr)
  | none => self

/- `Controller::remove(Agent *)`. -/
def removeAgent
    (agent : AgentId)
    (self : Controller) : Controller :=
  { self with agents := self.agents.filter (· != agent) }

/- A new agent at an address. -/
def construct
    (agent : AgentId)
    (kind : Kind)
    (self : Controller) : Controller :=
  { self with
    memory :=
      Function.update self.memory agent { kind := kind } }

/- `Agent::set(pid_t)`. -/
def setPid
    (agent : AgentId)
    (pid : Pid)
    (self : Controller) : Controller :=
  if pid < 0 then
    self.setAgent agent none
  else
    self.setAgent agent (self.find pid)

/-
  `PidFileAgent::refresh`, where `file` is the text of the
  pid file, if the file can be read.
-/
def refreshPidFile
    (file : Option CString)
    (agent : AgentId)
    (self : Controller) : Controller :=
  if (self.memory agent).pid.isNone then
    match file with
    | none => self
    | some text =>
        let pid := extractUnsigned text
        if pid ≠ 0 then
          self.setPid agent pid.toInt32
        else
          self
  else
    self

/- `refresh` of the agent's class. -/
def refreshAgent
    (file : Option CString)
    (agent : AgentId)
    (self : Controller) : Controller :=
  match (self.memory agent).kind with
  | .exeName _ => self
  | .pidFile _ => self.refreshPidFile file agent

/- `Agent::start`. -/
def startAgent
    (links : Links)
    (agent : AgentId)
    (self : Controller) : Controller :=
  let self := self.insertAgent links agent
  if (self.memory agent).pid.isNone then
    self.notify agent
  else
    self

/- `start` of the agent's class. -/
def start
    (links : Links)
    (file : Option CString)
    (agent : AgentId)
    (self : Controller) : Controller :=
  match (self.memory agent).kind with
  | .exeName _ => self.startAgent links agent
  | .pidFile _ => self.refreshPidFile file agent

/-
  `Agent::getState`, with what the stat file holds: the
  state and the controller afterwards, or the exception. An
  agent whose pointer refers to no element reads freed
  memory, for which there is no result.
-/
def agentState
    (file : StatFile)
    (agent : AgentId)
    (self : Controller) :
    Option (Except StatError (State × Controller)) :=
  match (self.memory agent).pid with
  | none => some (.ok (State.dead, self))
  | some a =>
      (self.identifiers.lookup a).map fun n =>
        match n.val.getState file with
        | .error e => .error e
        | .ok (state, identifier) =>
            .ok (state,
              { self with
                identifiers :=
                  self.identifiers.update a
                    fun _ => identifier })

end Controller

end UdjatProcess
