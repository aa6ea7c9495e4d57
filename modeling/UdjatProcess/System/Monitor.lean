import UdjatProcess.System.World

/-
  What the component is for, without pointers.

  A `Monitor` keeps the numbers of the running processes and
  a watcher for each agent: what the agent watches, the
  process it is bound to and how often it reported. A
  binding is a process number, so there is nothing in it
  that could dangle. An operation is legal where it does not
  leave a watcher bound to a process that is gone, and does
  not register a watcher that is bound already.

  Key definitions include:
    * `Watcher`
    * `Monitor`
    * `Monitor.step`
    * `Monitor.Legal`
-/

namespace UdjatProcess

------------------------------------------------------------
-- Watchers
------------------------------------------------------------

/- An agent as its user sees it. -/
structure Watcher where
  kind : Kind
  bound : Option Pid := none
  updates : Nat := 0
deriving DecidableEq

namespace Watcher

/- It watches processes of this name. -/
def accepts (name : CString) (self : Watcher) : Bool :=
  match self.kind with
  | .exeName exename => strcasecmp name exename
  | .pidFile _ => false

/- It reports. -/
def report (self : Watcher) : Watcher :=
  { self with updates := self.updates + 1 }

/- It is bound to a process, if there is one, and reports. -/
def bind
    (pid : Option Pid)
    (self : Watcher) : Watcher :=
  match pid with
  | some p => { self with bound := some p }.report
  | none => self

/- A process of the given name appears. -/
def appears
    (name : CString)
    (pid : Pid)
    (self : Watcher) : Watcher :=
  if self.bound = none ∧ self.accepts name = true then
    self.bind (some pid)
  else
    self

/- A process goes. -/
def leaves (pid : Pid) (self : Watcher) : Watcher :=
  if self.bound = some pid then
    { self with bound := none }.report
  else
    self

end Watcher

------------------------------------------------------------
-- The Monitor
------------------------------------------------------------

/-
  The tracked processes, the registered agents in order, the
  watchers, the names of the processes, and whether the
  processes are polled.
-/
structure Monitor where
  pids : List Pid
  agents : List AgentId
  watchers : AgentId → Watcher
  links : Links
  polls : Bool

namespace Monitor

/-
  What the constructor starts with: the processes it loads,
  and unbound watchers.
-/
def new
    (pids : List Pid)
    (memory : Memory)
    (links : Links)
    (fd : Int) : Monitor where
  pids := pids
  agents := []
  watchers id :=
    { kind := (memory id).kind
      updates := (memory id).updates }
  links := links
  polls := decide (fd < 0)

/- A process comes. -/
def appear (pid : Pid) (m : Monitor) : Monitor :=
  { m with
    pids := m.pids ++ [pid]
    watchers := fun id =>
      if id ∈ m.agents then
        (m.watchers id).appears (exename m.links pid) pid
      else
        m.watchers id }

/- A process goes, however often it is tracked. -/
def leave (pid : Pid) (m : Monitor) : Monitor :=
  { m with
    pids := m.pids.filter fun p => !(p == pid)
    watchers := fun id =>
      if id ∈ m.agents then
        (m.watchers id).leaves pid
      else
        m.watchers id }

/- Only the processes of a snapshot are kept. -/
def keep (current : List Pid) (m : Monitor) : Monitor :=
  { m with pids := m.pids.filter fun p => p ∈ current }

/- The processes are compared with a snapshot. -/
def poll (current : List Pid) (m : Monitor) : Monitor :=
  (current.filter fun p => p ∉ m.pids).foldl
    (fun m pid => m.appear pid) (m.keep current)

/- The watcher of one agent changes. -/
def change
    (agent : AgentId)
    (f : Watcher → Watcher)
    (m : Monitor) : Monitor :=
  { m with
    watchers :=
      Function.update m.watchers agent (f (m.watchers agent)) }

/- The first process that a watcher accepts. -/
def firstAccepted
    (agent : AgentId)
    (m : Monitor) : Option Pid :=
  m.pids.find? fun pid =>
    (m.watchers agent).accepts (exename m.links pid)

/- An agent is registered. -/
def register (agent : AgentId) (m : Monitor) : Monitor :=
  { m with agents := m.agents ++ [agent] }.change agent
    (Watcher.bind (m.firstAccepted agent))

/- The tracked process that a pid file names. -/
def named
    (file : Option CString)
    (m : Monitor) : Option Pid :=
  match file with
  | none => none
  | some text =>
      let number := extractUnsigned text
      if number = 0 then
        none
      else
        let pid := number.toInt32
        if 0 ≤ pid ∧ pid ∈ m.pids then some pid else none

/- An agent that is not bound reads its pid file. -/
def lookUp
    (agent : AgentId)
    (file : Option CString)
    (m : Monitor) : Monitor :=
  if (m.watchers agent).bound = none then
    m.change agent (Watcher.bind (m.named file))
  else
    m

/- An agent that finds no process on its start reports. -/
def startByName (agent : AgentId) (m : Monitor) : Monitor :=
  let m := m.register agent
  if (m.watchers agent).bound = none then
    m.change agent Watcher.report
  else
    m

/- An agent starts. -/
def start
    (agent : AgentId)
    (file : Option CString)
    (m : Monitor) : Monitor :=
  match (m.watchers agent).kind with
  | .exeName _ => m.startByName agent
  | .pidFile _ => m.lookUp agent file

/- An agent is asked for news. -/
def refreshAgent
    (agent : AgentId)
    (file : Option CString)
    (m : Monitor) : Monitor :=
  match (m.watchers agent).kind with
  | .exeName _ => m
  | .pidFile _ => m.lookUp agent file

/- One step of the monitor. -/
def step (m : Monitor) : Op → Monitor
| .links links => { m with links := links }
| .event (.exec pid _) => m.appear pid
| .event (.exit pid _ _ _) => m.leave pid
| .event _ => m
| .insert pid => m.appear pid
| .remove pid => m.leave pid
| .construct agent kind => m.change agent fun _ => ⟨kind, none, 0⟩
| .insertAgent agent => m.register agent
| .removeAgent agent =>
    { m with agents := m.agents.filter (· != agent) }
| .start agent file => m.start agent file
| .refreshAgent agent file => m.refreshAgent agent file
| .reload dir => m.poll (snapshot dir)
| .onTimer dir => if m.polls then m.poll (snapshot dir) else m
| .refresh _ _ => m
| .updateAgents =>
    m.agents.foldl (fun m id => m.change id Watcher.report) m
| .getState _ _ => m

/- Every watcher bound to the process is told that it goes. -/
def Tells (m : Monitor) (pid : Pid) : Prop :=
  ∀ id, (m.watchers id).bound = some pid → id ∈ m.agents

/- The snapshot has every process a watcher is bound to. -/
def Spares (m : Monitor) (current : List Pid) : Prop :=
  ∀ id pid, (m.watchers id).bound = some pid → pid ∈ current

/-
  The operation leaves no watcher bound to a process that is
  gone, and registers none that is bound.
-/
def Legal (m : Monitor) : Op → Prop
| .event (.exit pid _ _ _) => m.Tells pid
| .remove pid => m.Tells pid
| .insertAgent agent => (m.watchers agent).bound = none
| .start agent _ => (m.watchers agent).bound = none
| .reload dir => m.Spares (snapshot dir)
| .onTimer dir => m.polls = true → m.Spares (snapshot dir)
| _ => True

end Monitor

end UdjatProcess
