import UdjatProcess.Usage.Update
import UdjatProcess.Tracking.Tracked

/-
  The controller and agents that are destroyed.

  The controller keeps plain pointers to its agents, and an
  agent takes itself off the list in its destructor. What
  lies at the address of a destroyed agent afterwards
  belongs to others, who may write whatever they like there.
  Two systems run side by side, one where nobody does and
  one where somebody does before every operation: they never
  differ in anything else, so no operation reads or writes
  through a pointer to a destroyed agent.

  Key definitions include:
    * `Controller.SameOn`
    * `Heap`
    * `Heap.Act`
    * `Heap.Legal`
    * `Heap.quiet`
    * `Heap.noisy`

  Key theorems include:
    * `World.sameOn_step`
    * `Heap.destroyed_unseen`
-/

namespace UdjatProcess

------------------------------------------------------------
-- Controllers That Agree On The Living
------------------------------------------------------------

namespace Controller

/- The same controller with other objects in memory. -/
def withMemory
    (memory : Memory)
    (self : Controller) : Controller :=
  { self with memory := memory }

/-
  The two controllers agree but for the memory, and there on
  the agents that are alive. No other is registered.
-/
structure SameOn
    (alive : List AgentId)
    (ctrl other : Controller) : Prop where
  rest : other = ctrl.withMemory other.memory
  living : ∀ id ∈ alive, other.memory id = ctrl.memory id
  registered : ∀ id ∈ ctrl.agents, id ∈ alive

variable {A : Allocator} {L : Links} {alive : List AgentId}
variable {self other : Controller}

theorem SameOn.refl
    (hRegistered : ∀ id ∈ self.agents, id ∈ alive) :
    SameOn alive self self :=
  ⟨rfl, fun _ _ => rfl, hRegistered⟩

theorem sameOn_insert
    (hSame : SameOn alive self other)
    (pid : Pid) :
    SameOn alive (self.insert A L pid)
      (other.insert A L pid) := by
  have hRest := hSame.rest
  refine ⟨?_, ?_, hSame.registered⟩
  · rw [hRest]
    rfl
  · intro id hAlive
    rw [insert_memory, insert_memory, hSame.living id hAlive,
      hRest]
    rfl

theorem sameOn_foldl_insert
    (pids : List Pid)
    (hSame : SameOn alive self other) :
    SameOn alive
      (pids.foldl (fun ctrl pid => ctrl.insert A L pid) self)
      (pids.foldl (fun ctrl pid => ctrl.insert A L pid)
        other) := by
  induction pids generalizing self other with
  | nil => exact hSame
  | cons pid pids ih => exact ih (sameOn_insert hSame pid)

theorem sameOn_remove
    (hSame : SameOn alive self other)
    (pid : Pid) :
    SameOn alive (self.remove pid) (other.remove pid) := by
  have hRest := hSame.rest
  refine ⟨?_, ?_, hSame.registered⟩
  · rw [hRest]
    rfl
  · intro id hAlive
    rw [remove_memory, remove_memory, hSame.living id hAlive,
      hRest]
    rfl

theorem sameOn_reload
    (hSame : SameOn alive self other)
    (dir : ProcDir) :
    SameOn alive (self.reload A L dir)
      (other.reload A L dir) := by
  have hRest := hSame.rest
  have hPids : other.pids = self.pids := by
    rw [hRest]
    rfl
  rw [reload_eq_reconcile, reload_eq_reconcile, reconcile_eq,
    reconcile_eq, hPids]
  apply sameOn_foldl_insert
  refine ⟨?_, hSame.living, hSame.registered⟩
  rw [hRest]
  rfl

theorem sameOn_setAgent
    (hSame : SameOn alive self other)
    (agent : AgentId)
    (pid : Option Addr) :
    SameOn alive (self.setAgent agent pid)
      (other.setAgent agent pid) := by
  have hRest := hSame.rest
  refine ⟨?_, ?_, hSame.registered⟩
  · rw [hRest]
    rfl
  · intro id hAlive
    have hLiving := hSame.living id hAlive
    by_cases hEq : id = agent
    · rw [← hEq, setAgent_memory_same, setAgent_memory_same,
        hLiving]
    · rw [setAgent_memory_ne hEq, setAgent_memory_ne hEq,
        hLiving]

theorem sameOn_notify
    (hSame : SameOn alive self other)
    (agent : AgentId) :
    SameOn alive (self.notify agent) (other.notify agent) := by
  have hRest := hSame.rest
  refine ⟨?_, ?_, hSame.registered⟩
  · rw [hRest]
    rfl
  · intro id hAlive
    have hLiving := hSame.living id hAlive
    unfold notify
    by_cases hEq : id = agent
    · rw [← hEq]
      simp [hLiving]
    · simp [ObjectStore.modify_ne hEq, hLiving]

/- An agent that is registered has to be alive. -/
theorem sameOn_insertAgent
    (hSame : SameOn alive self other)
    {agent : AgentId}
    (hAlive : agent ∈ alive) :
    SameOn alive (self.insertAgent L agent)
      (other.insertAgent L agent) := by
  have hRest := hSame.rest
  have hLonger :
      SameOn alive
        { self with agents := self.agents ++ [agent] }
        { other with agents := other.agents ++ [agent] } := by
    refine ⟨?_, hSame.living, ?_⟩
    · rw [hRest]
      rfl
    · intro id hMem
      rcases List.mem_append.mp hMem with hOld | hNew
      · exact hSame.registered id hOld
      · rw [List.mem_singleton.mp hNew]
        exact hAlive
  have hFirst :
      other.firstMatch L agent = self.firstMatch L agent := by
    unfold firstMatch
    rw [hSame.living agent hAlive, hRest]
    rfl
  rcases insertAgent_cases (L := L) agent self with
    ⟨n, hMatch, hEq⟩ | ⟨hMatch, hEq⟩
  · rcases insertAgent_cases (L := L) agent other with
      ⟨n', hMatch', hEq'⟩ | ⟨hMatch', _⟩
    · rw [hFirst, hMatch, Option.some.injEq] at hMatch'
      rw [hEq, hEq', ← hMatch']
      exact sameOn_setAgent hLonger agent (some n.addr)
    · rw [hFirst, hMatch] at hMatch'
      cases hMatch'
  · rcases insertAgent_cases (L := L) agent other with
      ⟨n', hMatch', _⟩ | ⟨_, hEq'⟩
    · rw [hFirst, hMatch] at hMatch'
      cases hMatch'
    · rw [hEq, hEq']
      exact hLonger

theorem sameOn_startAgent
    (hSame : SameOn alive self other)
    {agent : AgentId}
    (hAlive : agent ∈ alive) :
    SameOn alive (self.startAgent L agent)
      (other.startAgent L agent) := by
  have hNext := sameOn_insertAgent (L := L) hSame hAlive
  unfold startAgent
  dsimp only
  rw [hNext.living agent hAlive]
  split
  · exact sameOn_notify hNext agent
  · exact hNext

theorem sameOn_refreshPidFile
    (hSame : SameOn alive self other)
    {agent : AgentId}
    (hAlive : agent ∈ alive)
    (file : Option CString) :
    SameOn alive (self.refreshPidFile file agent)
      (other.refreshPidFile file agent) := by
  have hFind : ∀ pid, other.find pid = self.find pid := by
    intro pid
    rw [hSame.rest]
    rfl
  unfold refreshPidFile
  rw [hSame.living agent hAlive]
  split
  · cases file with
    | none => exact hSame
    | some text =>
        dsimp only
        split
        · unfold setPid
          rw [hFind]
          split
          · exact sameOn_setAgent hSame agent none
          · exact sameOn_setAgent hSame agent _
        · exact hSame
  · exact hSame

theorem sameOn_start
    (hSame : SameOn alive self other)
    {agent : AgentId}
    (hAlive : agent ∈ alive)
    (file : Option CString) :
    SameOn alive (self.start L file agent)
      (other.start L file agent) := by
  unfold start
  rw [hSame.living agent hAlive]
  split
  · exact sameOn_startAgent hSame hAlive
  · exact sameOn_refreshPidFile hSame hAlive file

theorem sameOn_refreshAgent
    (hSame : SameOn alive self other)
    {agent : AgentId}
    (hAlive : agent ∈ alive)
    (file : Option CString) :
    SameOn alive (self.refreshAgent file agent)
      (other.refreshAgent file agent) := by
  unfold refreshAgent
  rw [hSame.living agent hAlive]
  split
  · exact hSame
  · exact sameOn_refreshPidFile hSame hAlive file

/- An update does not look at the agents. -/
theorem refresh_withMemory
    (stat : SystemStat)
    (read : Reader)
    (memory : Memory)
    (self : Controller) :
    (self.withMemory memory).refresh stat read =
      (self.refresh stat read).withMemory memory := by
  unfold refresh updateUsageByPid withMemory
  dsimp only
  split_ifs <;> rfl

theorem sameOn_refresh
    (hSame : SameOn alive self other)
    (stat : SystemStat)
    (read : Reader) :
    SameOn alive (self.refresh stat read)
      (other.refresh stat read) := by
  have hRest := hSame.rest
  have hKeeps := refresh_keeps stat read self
  have hOthers := refresh_keeps stat read other
  refine ⟨?_, ?_, ?_⟩
  · rw [hOthers.2.1, ← refresh_withMemory, ← hRest]
  · intro id hAlive
    rw [hOthers.2.1, hKeeps.2.1]
    exact hSame.living id hAlive
  · rw [hKeeps.1]
    exact hSame.registered

theorem sameOn_updateAgents
    (hSame : SameOn alive self other) :
    SameOn alive self.updateAgents other.updateAgents := by
  have hRest := hSame.rest
  refine ⟨?_, ?_, hSame.registered⟩
  · rw [hRest]
    rfl
  · intro id hAlive
    unfold updateAgents
    dsimp only
    rw [ObjectStore.forEach_apply, ObjectStore.forEach_apply,
      hSame.living id hAlive, hRest]
    rfl

/- A state that is asked for is cached in the list. -/
theorem sameOn_cacheState
    (hSame : SameOn alive self other)
    {agent : AgentId}
    (hAlive : agent ∈ alive)
    (file : StatFile) :
    SameOn alive (World.cacheState agent file self)
      (World.cacheState agent file other) := by
  have hRest := hSame.rest
  have hIdentifiers : other.identifiers = self.identifiers := by
    rw [hRest]
    rfl
  unfold World.cacheState agentState
  rw [hSame.living agent hAlive, hIdentifiers]
  cases (self.memory agent).pid with
  | none => exact hSame
  | some a =>
      dsimp only
      cases self.identifiers.lookup a with
      | none => exact hSame
      | some n =>
          rw [Option.map_some, Option.map_some]
          cases n.val.getState file with
          | error e => exact hSame
          | ok out =>
              refine ⟨?_, hSame.living, hSame.registered⟩
              rw [hRest]
              rfl

end Controller

------------------------------------------------------------
-- Steps
------------------------------------------------------------

/- The agents that are alive after an operation. -/
def aliveAfter (alive : List AgentId) : Op → List AgentId
| .construct agent _ => agent :: alive
| .removeAgent agent => alive.filter (· != agent)
| _ => alive

/- An agent's own members are called while it is alive. -/
def CallsLiving (alive : List AgentId) : Op → Prop
| .insertAgent agent => agent ∈ alive
| .start agent _ => agent ∈ alive
| .refreshAgent agent _ => agent ∈ alive
| .getState agent _ => agent ∈ alive
| _ => True

/-
  Worlds that agree on the living still do after an
  operation.
-/
theorem World.sameOn_step
    {A : Allocator}
    {alive : List AgentId}
    {links : Links}
    {ctrl other : Controller}
    (hSame : ctrl.SameOn alive other)
    {op : Op}
    (hCalls : CallsLiving alive op) :
    (operate A links ctrl op).SameOn (aliveAfter alive op)
      (operate A links other op) := by
  cases op with
  | links _ => exact hSame
  | event ev =>
      cases ev with
      | exec pid _ => exact Controller.sameOn_insert hSame pid
      | exit pid _ _ _ =>
          exact Controller.sameOn_remove hSame pid
      | fork _ _ _ _ => exact hSame
      | other _ _ => exact hSame
  | insert pid => exact Controller.sameOn_insert hSame pid
  | remove pid => exact Controller.sameOn_remove hSame pid
  | construct agent kind =>
      refine ⟨?_, ?_, ?_⟩
      · rw [hSame.rest]
        rfl
      · intro id hAlive
        change Function.update other.memory agent _ id =
          Function.update ctrl.memory agent _ id
        by_cases hEq : id = agent
        · rw [hEq, Function.update_self, Function.update_self]
        · rw [Function.update_of_ne hEq,
            Function.update_of_ne hEq]
          exact hSame.living id
            (List.mem_of_ne_of_mem hEq hAlive)
      · intro id hMem
        exact List.mem_cons_of_mem agent
          (hSame.registered id hMem)
  | insertAgent agent =>
      exact Controller.sameOn_insertAgent hSame hCalls
  | removeAgent agent =>
      refine ⟨?_, ?_, ?_⟩
      · rw [hSame.rest]
        rfl
      · intro id hAlive
        exact hSame.living id (List.mem_filter.mp hAlive).1
      · intro id hMem
        have hBoth := List.mem_filter.mp hMem
        exact List.mem_filter.mpr
          ⟨hSame.registered id hBoth.1, hBoth.2⟩
  | start agent file =>
      exact Controller.sameOn_start hSame hCalls file
  | refreshAgent agent file =>
      exact Controller.sameOn_refreshAgent hSame hCalls file
  | reload dir => exact Controller.sameOn_reload hSame dir
  | onTimer dir =>
      have hFd : other.fd = ctrl.fd := by
        rw [hSame.rest]
        rfl
      change (ctrl.onTimer A links dir).SameOn alive
        (other.onTimer A links dir)
      unfold Controller.onTimer
      rw [hFd]
      split
      · exact Controller.sameOn_reload hSame dir
      · exact hSame
  | refresh stat read =>
      exact Controller.sameOn_refresh hSame stat read
  | updateAgents => exact Controller.sameOn_updateAgents hSame
  | getState agent file =>
      exact Controller.sameOn_cacheState hSame hCalls file

------------------------------------------------------------
-- Runs
------------------------------------------------------------

/- A world with the addresses of the agents that are alive. -/
structure Heap where
  world : World
  alive : List AgentId

namespace Heap

/-
  An operation of the module, or something else that writes
  to memory.
-/
inductive Act where
| op (op : Op)
| scribble (memory : Memory)

/- The operation, with what becomes of the agents. -/
def operate (A : Allocator) (s : Heap) (op : Op) : Heap where
  world := s.world.step A op
  alive := aliveAfter s.alive op

/- Nobody else writes where an agent was. -/
def quiet (A : Allocator) (s : Heap) : Act → Heap
| .op o => s.operate A o
| .scribble _ => s

/- Somebody does, but not where an agent is. -/
def noisy (A : Allocator) (s : Heap) : Act → Heap
| .op o => s.operate A o
| .scribble memory =>
    { s with
      world :=
        { s.world with
          ctrl :=
            s.world.ctrl.withMemory fun id =>
              if id ∈ s.alive then
                s.world.ctrl.memory id
              else
                memory id } }

/- Members are called on agents that are alive. -/
def Legal (s : Heap) : Act → Prop
| .op o => CallsLiving s.alive o
| .scribble _ => True

/- The two systems cannot be told apart by the living. -/
structure Same (s t : Heap) : Prop where
  alive : t.alive = s.alive
  links : t.world.links = s.world.links
  ctrl : s.world.ctrl.SameOn s.alive t.world.ctrl

theorem same_step
    {A : Allocator}
    (s t : Heap)
    (act : Act)
    (hSame : s.Same t)
    (hLegal : t.Legal act) :
    (s.quiet A act).Same (t.noisy A act) := by
  cases act with
  | op o =>
      have hCalls : CallsLiving s.alive o := by
        rw [← hSame.alive]
        exact hLegal
      have hStep :
          (World.operate A s.world.links s.world.ctrl o).SameOn
            (aliveAfter s.alive o)
            (World.operate A s.world.links t.world.ctrl o) :=
        World.sameOn_step hSame.ctrl hCalls
      refine ⟨?_, ?_, ?_⟩
      · change aliveAfter t.alive o = aliveAfter s.alive o
        rw [hSame.alive]
      · change World.linksAfter t.world.links o =
          World.linksAfter s.world.links o
        rw [hSame.links]
      · change Controller.SameOn _ _
          (World.operate A t.world.links t.world.ctrl o)
        rw [hSame.links]
        exact hStep
  | scribble memory =>
      refine ⟨hSame.alive, hSame.links, ?_⟩
      refine ⟨?_, ?_, hSame.ctrl.registered⟩
      · change t.world.ctrl.withMemory _ = _
        rw [hSame.ctrl.rest]
        rfl
      · intro id hAlive
        have hThere : id ∈ t.alive := by
          rw [hSame.alive]
          exact hAlive
        exact (if_pos hThere).trans
          (hSame.ctrl.living id hAlive)

/-
  What lies where an agent was makes no difference, in any
  run that starts with living agents in the list and calls
  members on living agents only, and no destroyed agent is
  on the list at its end.
-/
theorem destroyed_unseen
    {A : Allocator}
    {s : Heap}
    {acts : List Act}
    (hStart : ∀ id ∈ s.world.ctrl.agents, id ∈ s.alive)
    (hLegal : Runs.Along (noisy A) Legal s acts) :
    (Runs.after (quiet A) s acts).Same
      (Runs.after (noisy A) s acts) :=
  Runs.related_of_along same_step
    ⟨rfl, rfl, Controller.SameOn.refl hStart⟩ hLegal

/-
  An agent is built, started and destroyed, its memory is
  taken by something that looks like an agent, and a process
  comes that this would accept.
-/
theorem destroyed_unseen_sample :
    let exename : CString := "gdm".toList
    let other : Memory := fun _ => { kind := .exeName exename }
    let s : Heap :=
      ⟨World.bare (fun _ => { kind := .exeName [] })
        fun _ => some exename, []⟩
    let acts : List Act :=
      [.op (.construct 7 (.exeName exename)),
        .op (.start 7 none), .op (.removeAgent 7),
        .scribble other, .op (.event (.exec 5 5))]
    (Runs.after (quiet (.above [])) s acts).Same
      (Runs.after (noisy (.above [])) s acts) := by
  intro exename other s acts
  have hNone : ∀ id ∈ s.world.ctrl.agents, id ∈ s.alive :=
    fun id hMem => absurd hMem List.not_mem_nil
  have hLegal : Runs.Along (noisy (.above [])) Legal s acts :=
    ⟨trivial, List.mem_cons_self, trivial, trivial, trivial,
      trivial⟩
  exact destroyed_unseen hNone hLegal

end Heap

end UdjatProcess
