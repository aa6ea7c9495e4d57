import UdjatProcess.Controller.Events
import UdjatProcess.Controller.Refresh

/-
  What each operation of the controller does to the process
  list and to the agents' pointers, and what it leaves as it
  was. Later modules use these facts in place of the
  definitions.

  Key theorems include:
    * `Controller.insert_memory`
    * `Controller.remove_memory`
    * `Controller.insertAgent_memory_same`
    * `Controller.pids_insert`
    * `Controller.pids_remove`
    * `Controller.pids_refresh`
    * `Controller.pids_reconcile`
-/

------------------------------------------------------------
-- Appearance Of A Process
------------------------------------------------------------

namespace UdjatProcess

namespace Controller

variable {A : Allocator} {L : Links}

@[simp] theorem insert_identifiers
    (pid : Pid)
    (self : Controller) :
    (self.insert A L pid).identifiers =
      self.identifiers.emplaceBack A { pid := pid } := rfl

@[simp] theorem insert_fd
    (pid : Pid)
    (self : Controller) :
    (self.insert A L pid).fd = self.fd := rfl

@[simp] theorem pids_insert
    (pid : Pid)
    (self : Controller) :
    (self.insert A L pid).pids = self.pids ++ [pid] := by
  simp [pids]

/- Every registered agent gets its chance at a new process. -/
theorem insert_memory
    (pid : Pid)
    (self : Controller)
    (id : AgentId) :
    (self.insert A L pid).memory id =
      if id ∈ self.agents then
        (self.memory id).bindIfUnbound (exename L pid)
          (self.identifiers.fresh A)
      else
        self.memory id :=
  ObjectStore.forEach_apply_of_idempotent
    (Agent.bindIfUnbound_idempotent _ _) _ _ _

/- An unregistered agent is not touched by the controller. -/
theorem insert_memory_of_not_mem
    {self : Controller}
    {id : AgentId}
    (hNot : id ∉ self.agents)
    (pid : Pid) :
    (self.insert A L pid).memory id = self.memory id := by
  rw [insert_memory, if_neg hNot]

@[simp] theorem insert_memory_kind
    (pid : Pid)
    (self : Controller)
    (id : AgentId) :
    ((self.insert A L pid).memory id).kind =
      (self.memory id).kind := by
  rw [insert_memory]
  split <;> simp

------------------------------------------------------------
-- Disappearance Of A Process
------------------------------------------------------------

/-
  An agent is unbound exactly when it is registered and
  bound to one of the elements to be removed. Once it is
  unbound no later element of the walk finds it.
-/
theorem unbindRemoved_apply
    (agents : List AgentId)
    (pid : Pid)
    (ns : List (Node Identifier))
    (memory : Memory)
    (id : AgentId) :
    unbindRemoved agents pid ns memory id =
      if id ∈ agents ∧
          ∃ n ∈ ns, n.val.pid = pid ∧
            (memory id).pid = some n.addr then
        (memory id).set none
      else
        memory id := by
  induction ns generalizing memory with
  | nil => simp [unbindRemoved]
  | cons n ns ih =>
      unfold unbindRemoved
      rw [ih]
      by_cases hPid : n.val.pid = pid
      · have hLoop :
            ObjectStore.forEach agents
                (Agent.unbindFrom n.addr) memory id =
              if id ∈ agents then
                (memory id).unbindFrom n.addr
              else
                memory id :=
          ObjectStore.forEach_apply_of_idempotent
            (Agent.unbindFrom_idempotent _) _ _ _
        simp only [hPid, if_true, hLoop]
        by_cases hMem : id ∈ agents
        · by_cases hBound : (memory id).pid = some n.addr
          · simp [hMem, hBound, Agent.unbindFrom, hPid]
          · simp [hMem, Agent.unbindFrom, hBound]
        · simp [hMem]
      · simp [hPid]

@[simp] theorem remove_nodes
    (pid : Pid)
    (self : Controller) :
    (self.remove pid).identifiers.nodes =
      self.identifiers.nodes.filter
        fun n => !(n.val.pid == pid) := rfl

theorem mem_remove_nodes_iff
    (pid : Pid)
    (self : Controller)
    (n : Node Identifier) :
    n ∈ (self.remove pid).identifiers.nodes ↔
      n ∈ self.identifiers.nodes ∧ n.val.pid ≠ pid := by
  simp

@[simp] theorem pids_remove
    (pid : Pid)
    (self : Controller) :
    (self.remove pid).pids =
      self.pids.filter fun p => !(p == pid) := by
  simp only [pids, remove_nodes, List.filter_map]
  rfl

/- Only agents bound to a removed element are unbound. -/
theorem remove_memory
    (pid : Pid)
    (self : Controller)
    (id : AgentId) :
    (self.remove pid).memory id =
      if id ∈ self.agents ∧
          ∃ n ∈ self.identifiers.nodes,
            n.val.pid = pid ∧
              (self.memory id).pid = some n.addr then
        (self.memory id).set none
      else
        self.memory id :=
  unbindRemoved_apply _ _ _ _ _

theorem remove_memory_of_not_mem
    {self : Controller}
    {id : AgentId}
    (hNot : id ∉ self.agents)
    (pid : Pid) :
    (self.remove pid).memory id = self.memory id := by
  rw [remove_memory, if_neg (fun hBoth => hNot hBoth.1)]

@[simp] theorem remove_memory_kind
    (pid : Pid)
    (self : Controller)
    (id : AgentId) :
    ((self.remove pid).memory id).kind =
      (self.memory id).kind := by
  rw [remove_memory]
  split <;> simp

------------------------------------------------------------
-- Agents
------------------------------------------------------------

@[simp] theorem setAgent_memory_same
    (agent : AgentId)
    (pid : Option Addr)
    (self : Controller) :
    (self.setAgent agent pid).memory agent =
      (self.memory agent).set pid :=
  ObjectStore.modify_same _ _ _

theorem setAgent_memory_ne
    {agent id : AgentId}
    (hNe : id ≠ agent)
    (pid : Option Addr)
    (self : Controller) :
    (self.setAgent agent pid).memory id = self.memory id :=
  ObjectStore.modify_ne hNe _ _

/- The two ways a registration can go. -/
theorem insertAgent_cases
    (agent : AgentId)
    (self : Controller) :
    (∃ n, self.firstMatch L agent = some n ∧
      self.insertAgent L agent =
        { self with
          agents := self.agents ++ [agent] }.setAgent agent
            (some n.addr)) ∨
    (self.firstMatch L agent = none ∧
      self.insertAgent L agent =
        { self with agents := self.agents ++ [agent] }) := by
  have hFirst :
      { self with
        agents := self.agents ++ [agent] }.firstMatch
          L agent =
        self.firstMatch L agent := rfl
  cases hMatch : self.firstMatch L agent with
  | none =>
      right
      simp [insertAgent, hFirst, hMatch]
  | some n =>
      left
      exact ⟨n, rfl, by simp [insertAgent, hFirst, hMatch]⟩

/- Registration, by the address that it binds to. -/
theorem insertAgent_eq
    (agent : AgentId)
    (self : Controller) :
    self.insertAgent L agent =
      match (self.firstMatch L agent).map Node.addr with
      | some a =>
          { self with
            agents := self.agents ++ [agent] }.setAgent agent
              (some a)
      | none =>
          { self with agents := self.agents ++ [agent] } := by
  rcases insertAgent_cases (L := L) agent self with
    ⟨n, hFirst, hEq⟩ | ⟨hFirst, hEq⟩
  · rw [hEq, hFirst, Option.map_some]
  · rw [hEq, hFirst, Option.map_none]

@[simp] theorem insertAgent_identifiers
    (agent : AgentId)
    (self : Controller) :
    (self.insertAgent L agent).identifiers =
      self.identifiers := by
  rcases insertAgent_cases (L := L) agent self with
    ⟨n, _, hEq⟩ | ⟨_, hEq⟩
  · rw [hEq]
    rfl
  · rw [hEq]

@[simp] theorem insertAgent_agents
    (agent : AgentId)
    (self : Controller) :
    (self.insertAgent L agent).agents =
      self.agents ++ [agent] := by
  rcases insertAgent_cases (L := L) agent self with
    ⟨n, _, hEq⟩ | ⟨_, hEq⟩
  · rw [hEq]
    rfl
  · rw [hEq]

@[simp] theorem insertAgent_fd
    (agent : AgentId)
    (self : Controller) :
    (self.insertAgent L agent).fd = self.fd := by
  rcases insertAgent_cases (L := L) agent self with
    ⟨n, _, hEq⟩ | ⟨_, hEq⟩
  · rw [hEq]
    rfl
  · rw [hEq]

theorem insertAgent_memory_ne
    {agent id : AgentId}
    (hNe : id ≠ agent)
    (self : Controller) :
    (self.insertAgent L agent).memory id =
      self.memory id := by
  rcases insertAgent_cases (L := L) agent self with
    ⟨n, _, hEq⟩ | ⟨_, hEq⟩
  · rw [hEq]
    exact setAgent_memory_ne hNe _ _
  · rw [hEq]

/- The registered agent ends bound to its first match. -/
theorem insertAgent_memory_same
    (agent : AgentId)
    (self : Controller) :
    (self.insertAgent L agent).memory agent =
      match self.firstMatch L agent with
      | some n => (self.memory agent).set (some n.addr)
      | none => self.memory agent := by
  rcases insertAgent_cases (L := L) agent self with
    ⟨n, hMatch, hEq⟩ | ⟨hMatch, hEq⟩
  · rw [hEq, setAgent_memory_same, hMatch]
  · rw [hEq, hMatch]

@[simp] theorem insertAgent_memory_kind
    (agent id : AgentId)
    (self : Controller) :
    ((self.insertAgent L agent).memory id).kind =
      (self.memory id).kind := by
  by_cases hEq : id = agent
  · subst hEq
    rw [insertAgent_memory_same]
    split <;> simp
  · rw [insertAgent_memory_ne hEq]

/- A match is an element that the agent recognises. -/
theorem firstMatch_spec
    {self : Controller}
    {agent : AgentId}
    {n : Node Identifier}
    (hMatch : self.firstMatch L agent = some n) :
    n ∈ self.identifiers.nodes ∧
      (self.memory agent).probeIdentifier L n.val =
        true := by
  unfold firstMatch at hMatch
  have hSome := List.find?_some hMatch
  exact ⟨List.mem_of_find?_eq_some hMatch, hSome⟩

theorem firstMatch_none_iff
    (self : Controller)
    (agent : AgentId) :
    self.firstMatch L agent = none ↔
      ∀ n ∈ self.identifiers.nodes,
        (self.memory agent).probeIdentifier L n.val =
          false := by
  simp [firstMatch]

/- A search by number ends at an element of the list. -/
theorem find_spec
    {self : Controller}
    {pid : Pid}
    {a : Addr}
    (hFind : self.find pid = some a) :
    ∃ n ∈ self.identifiers.nodes,
      n.addr = a ∧ n.val.pid = pid := by
  unfold find at hFind
  rcases Option.map_eq_some_iff.mp hFind with ⟨n, hn, hAddr⟩
  exact ⟨n, List.mem_of_find?_eq_some hn, hAddr,
    by simpa using List.find?_some hn⟩

/- The search fails exactly for untracked numbers. -/
theorem find_none_iff
    (self : Controller)
    (pid : Pid) :
    self.find pid = none ↔ ¬ self.Tracks pid := by
  simp [find, tracks_iff]

/- A report of an update changes neither kind nor pointer. -/
theorem notify_memory
    (agent id : AgentId)
    (self : Controller) :
    ((self.notify agent).memory id).kind =
        (self.memory id).kind ∧
      ((self.notify agent).memory id).pid =
        (self.memory id).pid := by
  by_cases hId : id = agent
  · subst hId
    simp [notify, Agent.updated]
  · simp [notify, ObjectStore.modify_ne hId]

/- Starting an agent registers it and may report an update. -/
theorem startAgent_cases
    (agent : AgentId)
    (self : Controller) :
    self.startAgent L agent =
        self.insertAgent L agent ∨
      self.startAgent L agent =
        (self.insertAgent L agent).notify agent := by
  unfold startAgent
  dsimp only
  split
  · exact Or.inr rfl
  · exact Or.inl rfl

theorem startAgent_keeps
    (agent : AgentId)
    (self : Controller) :
    (self.startAgent L agent).agents =
        self.agents ++ [agent] ∧
      (self.startAgent L agent).identifiers =
        self.identifiers ∧
      (self.startAgent L agent).fd = self.fd := by
  have hKeeps :
      (self.insertAgent L agent).agents =
          self.agents ++ [agent] ∧
        (self.insertAgent L agent).identifiers =
          self.identifiers ∧
        (self.insertAgent L agent).fd = self.fd :=
    ⟨insertAgent_agents _ _, insertAgent_identifiers _ _,
      insertAgent_fd _ _⟩
  rcases startAgent_cases (L := L) agent self with
    hEq | hEq
  · rw [hEq]
    exact hKeeps
  · rw [hEq]
    exact hKeeps

/- Apart from the report, starting is registering. -/
theorem startAgent_memory
    (agent id : AgentId)
    (self : Controller) :
    ((self.startAgent L agent).memory id).kind =
        (self.memory id).kind ∧
      ((self.startAgent L agent).memory id).pid =
        ((self.insertAgent L agent).memory id).pid := by
  rcases startAgent_cases (L := L) agent self with
    hEq | hEq
  · rw [hEq]
    exact ⟨insertAgent_memory_kind _ _ _, rfl⟩
  · rw [hEq]
    rcases notify_memory agent id
        (self.insertAgent L agent) with ⟨hKind, hPid⟩
    exact ⟨hKind.trans (insertAgent_memory_kind _ _ _), hPid⟩

/-
  Reading a pid file leaves everything as it is or sets the
  agent's pointer to null or to the result of a search.
-/
theorem refreshPidFile_cases
    (file : Option CString)
    (agent : AgentId)
    (self : Controller) :
    self.refreshPidFile file agent = self ∨
    ∃ pid, (pid = none ∨ ∃ p, pid = self.find p) ∧
      self.refreshPidFile file agent =
        self.setAgent agent pid := by
  unfold refreshPidFile
  split
  · cases file with
    | none => exact Or.inl rfl
    | some text =>
        dsimp only
        split
        · right
          unfold setPid
          split
          · exact ⟨none, Or.inl rfl, rfl⟩
          · exact ⟨_, Or.inr ⟨_, rfl⟩, rfl⟩
        · exact Or.inl rfl
  · exact Or.inl rfl

theorem refreshPidFile_keeps
    (file : Option CString)
    (agent : AgentId)
    (self : Controller) :
    (self.refreshPidFile file agent).identifiers =
        self.identifiers ∧
      (self.refreshPidFile file agent).fd = self.fd := by
  rcases refreshPidFile_cases file agent self with
    hEq | ⟨pid, _, hEq⟩
  · rw [hEq]
    exact ⟨rfl, rfl⟩
  · rw [hEq]
    exact ⟨rfl, rfl⟩

/- What `start` does depends on the class of the agent. -/
theorem start_cases
    (file : Option CString)
    (agent : AgentId)
    (self : Controller) :
    ((∃ exename, (self.memory agent).kind = .exeName exename) ∧
      self.start L file agent =
        self.startAgent L agent) ∨
    self.start L file agent =
      self.refreshPidFile file agent := by
  unfold start
  cases hKind : (self.memory agent).kind with
  | exeName exename => exact Or.inl ⟨⟨exename, rfl⟩, rfl⟩
  | pidFile pidfile => exact Or.inr rfl

theorem start_keeps
    (file : Option CString)
    (agent : AgentId)
    (self : Controller) :
    (self.start L file agent).identifiers =
        self.identifiers ∧
      (self.start L file agent).fd = self.fd := by
  rcases start_cases (L := L) file agent self with
    ⟨_, hEq⟩ | hEq
  · rw [hEq]
    exact (startAgent_keeps agent self).2
  · rw [hEq]
    exact refreshPidFile_keeps file agent self

/- So does what `refresh` does. -/
theorem refreshAgent_cases
    (file : Option CString)
    (agent : AgentId)
    (self : Controller) :
    self.refreshAgent file agent = self ∨
    self.refreshAgent file agent =
      self.refreshPidFile file agent := by
  unfold refreshAgent
  cases (self.memory agent).kind with
  | exeName exename => exact Or.inl rfl
  | pidFile pidfile => exact Or.inr rfl

theorem refreshAgent_keeps
    (file : Option CString)
    (agent : AgentId)
    (self : Controller) :
    (self.refreshAgent file agent).identifiers =
        self.identifiers ∧
      (self.refreshAgent file agent).fd = self.fd := by
  rcases refreshAgent_cases file agent self with hEq | hEq
  · rw [hEq]
    exact ⟨rfl, rfl⟩
  · rw [hEq]
    exact refreshPidFile_keeps file agent self

/-
  A state that an agent reports is that of its identifier,
  which is cached there, or `dead` if it has none.
-/
theorem agentState_ok_cases
    {self self' : Controller}
    {file : StatFile}
    {agent : AgentId}
    {state : State}
    (hOk :
      self.agentState file agent =
        some (.ok (state, self'))) :
    ((self.memory agent).pid = none ∧
      state = State.dead ∧ self' = self) ∨
    ∃ n ∈ self.identifiers.nodes, ∃ identifier,
      (self.memory agent).pid = some n.addr ∧
      n.val.getState file = .ok (state, identifier) ∧
      self' =
        { self with
          identifiers :=
            self.identifiers.update n.addr
              fun _ => identifier } := by
  unfold agentState at hOk
  cases hPid : (self.memory agent).pid with
  | none =>
      left
      simp only [hPid, Option.some.injEq, Except.ok.injEq,
        Prod.mk.injEq] at hOk
      exact ⟨rfl, hOk.1.symm, hOk.2.symm⟩
  | some a =>
      right
      simp only [hPid, Option.map_eq_some_iff] at hOk
      rcases hOk with ⟨n, hLookup, hState⟩
      rcases NodeList.lookup_spec hLookup with ⟨hn, hAddr⟩
      subst hAddr
      cases hGet : n.val.getState file with
      | error e => simp [hGet] at hState
      | ok out =>
          rcases out with ⟨s, identifier⟩
          simp only [hGet, Except.ok.injEq,
            Prod.mk.injEq] at hState
          rcases hState with ⟨hEq, hSelf⟩
          subst hEq
          exact ⟨n, hn, identifier, rfl, hGet, hSelf.symm⟩

------------------------------------------------------------
-- The Periodic Update
------------------------------------------------------------

/- A visit keeps the process number. -/
theorem visit_pid
    {read : Reader}
    {n : Node Identifier}
    {v : Identifier}
    {out : Option ℚ}
    (hVisit : visit read n = some (v, out)) :
    v.pid = n.val.pid := by
  unfold visit at hVisit
  cases hStat : Stat.ofPid (read n.addr n.val.pid) n.val.pid with
  | error e => simp [hStat] at hVisit
  | ok stat =>
      have hSample : n.val.sample stat = (v, out) := by
        simpa [hStat] using hVisit
      have hPid := Identifier.sample_pid stat n.val
      rw [hSample] at hPid
      exact hPid

/- What setting percentages keeps of each element. -/
theorem map_nodes_setPercents_of_keeps
    {γ : Type}
    (key : Node Identifier → γ)
    (hKeeps :
      ∀ (n : Node Identifier) (u : Usage),
        key ⟨n.addr,
            { n.val with
              cpu := { n.val.cpu with percent := u } }⟩ =
          key n)
    (sysusage : Usage)
    (totaltime : ℚ)
    (entries : List (Addr × ℚ))
    (l : NodeList Identifier) :
    (setPercents sysusage totaltime entries
        l).nodes.map key =
      l.nodes.map key := by
  unfold setPercents
  induction entries generalizing l with
  | nil => rfl
  | cons entry entries ih =>
      rw [List.foldl_cons, ih]
      exact NodeList.map_nodes_update_of_keeps key _ _
        (fun n => hKeeps n _) l

theorem map_setPercents_of_keeps
    {γ : Type}
    (key : Identifier → γ)
    (hKeeps :
      ∀ (i : Identifier) (u : Usage),
        key { i with cpu := { i.cpu with percent := u } } =
          key i)
    (sysusage : Usage)
    (totaltime : ℚ)
    (entries : List (Addr × ℚ))
    (l : NodeList Identifier) :
    (setPercents sysusage totaltime entries
        l).nodes.map (fun n => key n.val) =
      l.nodes.map fun n => key n.val :=
  map_nodes_setPercents_of_keeps (fun n => key n.val)
    (fun n u => hKeeps n.val u) sysusage totaltime entries l

theorem addrs_setPercents
    (sysusage : Usage)
    (totaltime : ℚ)
    (entries : List (Addr × ℚ))
    (l : NodeList Identifier) :
    (setPercents sysusage totaltime entries l).addrs =
      l.addrs := by
  unfold setPercents
  induction entries generalizing l with
  | nil => rfl
  | cons entry entries ih =>
      rw [List.foldl_cons, ih, NodeList.addrs_update]

/- The second pass runs over the list or not at all. -/
theorem updateUsageByPid_cases
    (sysusage : Usage)
    (entries : List (Addr × ℚ))
    (self : Controller) :
    self.updateUsageByPid sysusage entries = self ∨
    self.updateUsageByPid sysusage entries =
      { self with
        identifiers :=
          setPercents sysusage (totalTime entries) entries
            self.identifiers } := by
  unfold updateUsageByPid
  dsimp only
  split
  · exact Or.inr rfl
  · exact Or.inl rfl

/-
  The three ways the update can go: it reads no process, a
  read throws, or it reaches the second pass, which may or
  may not run.
-/
theorem refresh_identifiers_cases
    (stat : SystemStat)
    (read : Reader)
    (self : Controller) :
    (self.cpuUsePerProcess = false ∧
      (self.refresh stat read).identifiers =
        self.identifiers) ∨
    (self.cpuUsePerProcess = true ∧
      ((self.refresh stat read).identifiers =
          self.identifiers.sweep (visit read) ∨
        ∃ u t es, (self.refresh stat read).identifiers =
          setPercents u t es
            (self.identifiers.sweep (visit read)))) := by
  unfold refresh
  cases hUse : self.cpuUsePerProcess with
  | false => exact Or.inl ⟨rfl, by simp⟩
  | true =>
      right
      refine ⟨rfl, ?_⟩
      simp only [if_true]
      split
      · rcases updateUsageByPid_cases _ _ _ with hEq | hEq
        · left
          rw [hEq]
        · right
          rw [hEq]
          exact ⟨_, _, _, rfl⟩
      · exact Or.inl rfl

@[simp] theorem pids_refresh
    (stat : SystemStat)
    (read : Reader)
    (self : Controller) :
    (self.refresh stat read).pids = self.pids := by
  have hSweep :
      (self.identifiers.sweep (visit read)).nodes.map
          (fun n => n.val.pid) =
        self.pids :=
    NodeList.map_sweepNodes_of_keeps Identifier.pid _
      (fun n v out hVisit => visit_pid hVisit) _
  unfold pids
  rcases refresh_identifiers_cases stat read self with
    ⟨_, hEq⟩ | ⟨_, hEq | ⟨u, t, es, hEq⟩⟩
  · rw [hEq]
  · rw [hEq]
    exact hSweep
  · rw [hEq, map_setPercents_of_keeps Identifier.pid
      (fun _ _ => rfl)]
    exact hSweep

theorem addrs_refresh
    (stat : SystemStat)
    (read : Reader)
    (self : Controller) :
    (self.refresh stat read).identifiers.addrs =
      self.identifiers.addrs := by
  rcases refresh_identifiers_cases stat read self with
    ⟨_, hEq⟩ | ⟨_, hEq | ⟨u, t, es, hEq⟩⟩
  · rw [hEq]
  · rw [hEq, NodeList.addrs_sweep]
  · rw [hEq, addrs_setPercents, NodeList.addrs_sweep]

theorem refresh_keeps
    (stat : SystemStat)
    (read : Reader)
    (self : Controller) :
    (self.refresh stat read).agents = self.agents ∧
      (self.refresh stat read).memory = self.memory ∧
      (self.refresh stat read).fd = self.fd ∧
      (self.refresh stat read).cpuUsePerProcess =
        self.cpuUsePerProcess := by
  unfold refresh
  dsimp only
  split
  · split
    · rcases updateUsageByPid_cases _ _ _ with hEq | hEq
      · rw [hEq]
        exact ⟨rfl, rfl, rfl, rfl⟩
      · rw [hEq]
        exact ⟨rfl, rfl, rfl, rfl⟩
    · exact ⟨rfl, rfl, rfl, rfl⟩
  · exact ⟨rfl, rfl, rfl, rfl⟩

------------------------------------------------------------
-- Reconciliation
------------------------------------------------------------

/- Inserting a list of processes appends it. -/
theorem pids_foldl_insert
    (pids : List Pid)
    (self : Controller) :
    (pids.foldl
        (fun self pid => self.insert A L pid)
        self).pids =
      self.pids ++ pids := by
  induction pids generalizing self with
  | nil => simp
  | cons pid pids ih => simp [ih]

theorem searchIdentifiers_iff
    (self : Controller)
    (pid : Pid) :
    searchIdentifiers self.identifiers pid = true ↔
      self.Tracks pid := by
  simp [searchIdentifiers, tracks_iff]

/- The list without the processes that a snapshot misses. -/
def keepOnly
    (current : List Pid)
    (self : Controller) : Controller :=
  { self with
    identifiers :=
      self.identifiers.removeIf fun entry =>
        !searchPids current entry }

theorem mem_keepOnly_nodes_iff
    (current : List Pid)
    (self : Controller)
    (n : Node Identifier) :
    n ∈ (self.keepOnly current).identifiers.nodes ↔
      n ∈ self.identifiers.nodes ∧ n.val.pid ∈ current := by
  simp [keepOnly]

theorem pids_keepOnly
    (current : List Pid)
    (self : Controller) :
    (self.keepOnly current).pids =
      self.pids.filter fun p => p ∈ current := by
  simp only [pids, keepOnly, NodeList.nodes_removeIf,
    List.filter_map]
  congr 1
  apply List.filter_congr
  intro n _
  rw [Bool.eq_iff_iff]
  simp

/-
  The second filter of a poll reads the list after the first
  one, but keeps the processes that were not tracked before.
-/
theorem reconcile_eq
    (current : List Pid)
    (self : Controller) :
    self.reconcile A L current =
      (current.filter fun p => p ∉ self.pids).foldl
        (fun self pid => self.insert A L pid)
        (self.keepOnly current) := by
  unfold reconcile
  have hNew :
      (current.filter fun entry =>
          !searchIdentifiers
            (self.keepOnly current).identifiers entry) =
        current.filter fun p => p ∉ self.pids := by
    apply List.filter_congr
    intro p hp
    rw [Bool.eq_iff_iff, Bool.not_eq_true',
      Bool.eq_false_iff, Ne, searchIdentifiers_iff]
    unfold Tracks
    rw [pids_keepOnly]
    simp [hp]
  rw [← hNew]
  rfl

/-
  After a poll the list holds the processes it kept, then
  those of the snapshot that were not tracked.
-/
theorem pids_reconcile
    (current : List Pid)
    (self : Controller) :
    (self.reconcile A L current).pids =
      self.pids.filter (fun p => p ∈ current) ++
        current.filter (fun p => p ∉ self.pids) := by
  rw [reconcile_eq, pids_foldl_insert, pids_keepOnly]

/- A failed poll acts like one that finds no process. -/
theorem reload_eq_reconcile
    (dir : ProcDir)
    (self : Controller) :
    self.reload A L dir =
      self.reconcile A L (snapshot dir) := by
  unfold reload snapshot
  cases load dir with
  | ok current => rfl
  | error e =>
      have hClear :
          self.identifiers.clear =
            (self.keepOnly []).identifiers := by
        apply NodeList.ext_nodes
        · simp [keepOnly, searchPids]
        · rfl
      change
        { self with identifiers := self.identifiers.clear } =
          self.keepOnly []
      rw [hClear]
      rfl

theorem foldl_insert_fd
    (pids : List Pid)
    (self : Controller) :
    (pids.foldl
        (fun self pid => self.insert A L pid)
        self).fd =
      self.fd := by
  induction pids generalizing self with
  | nil => rfl
  | cons pid pids ih => rw [List.foldl_cons, ih, insert_fd]

@[simp] theorem reload_fd
    (dir : ProcDir)
    (self : Controller) :
    (self.reload A L dir).fd = self.fd := by
  rw [reload_eq_reconcile, reconcile_eq, foldl_insert_fd]
  rfl

end Controller

end UdjatProcess
