import UdjatProcess.System.Monitor
import UdjatProcess.Tracking.Tracked

/-
  The controller refines the monitor.

  An agent shows a watcher if both have reported equally
  often and the agent's pointer is null, or is the address
  of an element with the watcher's process number. Every
  legal operation of the monitor is what the controller
  does, wherever the allocator puts the elements.

  Key definitions include:
    * `Controller.Shows`
    * `World.Refines`

  Key theorems include:
    * `World.refines_step`
    * `World.refines_after`
    * `World.refines_of_create`
-/

namespace UdjatProcess

------------------------------------------------------------
-- Agents And Watchers
------------------------------------------------------------

/- The agent is bound to what the watcher is bound to. -/
structure Controller.Shows
    (ctrl : Controller)
    (id : AgentId)
    (x : Watcher) : Prop where
  kind : x.kind = (ctrl.memory id).kind
  updates : x.updates = (ctrl.memory id).updates
  bound :
    (x.bound = none ∧ (ctrl.memory id).pid = none) ∨
      ∃ n ∈ ctrl.identifiers.nodes,
        x.bound = some n.val.pid ∧
          (ctrl.memory id).pid = some n.addr

/- The controller and the monitor show the same. -/
structure World.Refines (w : World) (m : Monitor) : Prop where
  pids : m.pids = w.ctrl.pids
  agents : m.agents = w.ctrl.agents
  links : m.links = w.links
  polls : m.polls = decide (w.ctrl.fd < 0)
  shows : ∀ id, w.ctrl.Shows id (m.watchers id)

namespace Controller

variable {self self' : Controller} {id : AgentId} {x : Watcher}

theorem Shows.unbound_iff (hShows : self.Shows id x) :
    x.bound = none ↔ (self.memory id).pid = none := by
  rcases hShows.bound with
    ⟨hNone, hNull⟩ | ⟨n, _, hPid, hAddr⟩
  · exact iff_of_true hNone hNull
  · rw [hPid, hAddr]
    exact iff_of_false (Option.some_ne_none _)
      (Option.some_ne_none _)

theorem Shows.isNone_iff (hShows : self.Shows id x) :
    (self.memory id).pid.isNone = true ↔ x.bound = none := by
  rw [Option.isNone_iff_eq_none]
  exact hShows.unbound_iff.symm

/- An agent at an element shows its process. -/
theorem Shows.bound_of_addr
    (hShows : self.Shows id x)
    {n : Node Identifier}
    (hn : n ∈ self.identifiers.nodes)
    (hAddr : (self.memory id).pid = some n.addr) :
    x.bound = some n.val.pid := by
  rcases hShows.bound with
    ⟨_, hNull⟩ | ⟨n', hn', hPid, hAddr'⟩
  · rw [hNull] at hAddr
    cases hAddr
  · rw [hAddr'] at hAddr
    have hSame : n' = n :=
      NodeList.node_eq_of_addr_eq hn' hn
        (Option.some.inj hAddr)
    rw [← hSame]
    exact hPid

/- Both accept the same names. -/
theorem Shows.accepts_eq
    (hShows : self.Shows id x)
    (name : CString) :
    x.accepts name = (self.memory id).probe name := by
  have hKind := hShows.kind
  unfold Watcher.accepts Agent.probe
  cases hOwn : (self.memory id).kind with
  | exeName exename => simp only [hKind, hOwn]
  | pidFile pidfile => simp only [hKind, hOwn]

/- What an agent shows depends on what it points to. -/
theorem Shows.of_memory
    (hShows : self.Shows id x)
    (hMemory : self'.memory id = self.memory id)
    (hNodes :
      ∀ n ∈ self.identifiers.nodes,
        (self.memory id).pid = some n.addr →
          ∃ n' ∈ self'.identifiers.nodes,
            n'.addr = n.addr ∧ n'.val.pid = n.val.pid) :
    self'.Shows id x := by
  refine ⟨?_, ?_, ?_⟩
  · rw [hMemory]
    exact hShows.kind
  · rw [hMemory]
    exact hShows.updates
  · rw [hMemory]
    rcases hShows.bound with hUnbound | ⟨n, hn, hPid, hAddr⟩
    · exact Or.inl hUnbound
    · rcases hNodes n hn hAddr with ⟨n', hn', hSame, hNumber⟩
      refine Or.inr ⟨n', hn', ?_, ?_⟩
      · rw [hNumber]
        exact hPid
      · rw [hSame]
        exact hAddr

/- An agent whose pointer is set shows a bound watcher. -/
theorem Shows.set_some
    (hShows : self.Shows id x)
    (hUnbound : x.bound = none)
    {n : Node Identifier}
    (hn : n ∈ self'.identifiers.nodes)
    (hMemory :
      self'.memory id =
        (self.memory id).set (some n.addr)) :
    self'.Shows id (x.bind (some n.val.pid)) := by
  have hNull := hShows.unbound_iff.mp hUnbound
  have hSet :
      (self.memory id).set (some n.addr) =
        { self.memory id with
          pid := some n.addr
          updates := (self.memory id).updates + 1 } := by
    unfold Agent.set Agent.updated
    rw [hNull]
    rfl
  rw [hSet] at hMemory
  refine ⟨?_, ?_, Or.inr ⟨n, hn, rfl, ?_⟩⟩
  · rw [hMemory]
    exact hShows.kind
  · rw [hMemory]
    exact congrArg (· + 1) hShows.updates
  · rw [hMemory]

/- An agent whose pointer is cleared shows a free watcher. -/
theorem Shows.set_none
    (hShows : self.Shows id x)
    {pid : Pid}
    (hBound : x.bound = some pid)
    (hMemory :
      self'.memory id = (self.memory id).set none) :
    self'.Shows id (x.leaves pid) := by
  have hSome : (self.memory id).pid ≠ none := by
    intro hNull
    rw [hShows.unbound_iff.mpr hNull] at hBound
    cases hBound
  have hSet :
      (self.memory id).set none =
        { self.memory id with
          pid := none
          updates := (self.memory id).updates + 1 } := by
    unfold Agent.set Agent.updated
    exact if_neg (Ne.symm hSome)
  have hLeaves :
      x.leaves pid =
        { x with bound := none, updates := x.updates + 1 } :=
    if_pos hBound
  rw [hSet] at hMemory
  rw [hLeaves]
  refine ⟨?_, ?_, Or.inl ⟨rfl, ?_⟩⟩
  · rw [hMemory]
    exact hShows.kind
  · rw [hMemory]
    exact congrArg (· + 1) hShows.updates
  · rw [hMemory]

end Controller

------------------------------------------------------------
-- Processes
------------------------------------------------------------

namespace World

variable {A : Allocator} {w : World} {m : Monitor}

/- A new process is a new element at the end. -/
theorem refines_insert
    (hRefines : w.Refines m)
    (pid : Pid) :
    (w.step A (.insert pid)).Refines (m.appear pid) := by
  refine ⟨?_, hRefines.agents, hRefines.links,
    hRefines.polls, ?_⟩
  · change m.pids ++ [pid] = (w.ctrl.insert A w.links pid).pids
    rw [Controller.pids_insert, hRefines.pids]
  · intro id
    have hShows := hRefines.shows id
    have hOld :
        ∀ n ∈ w.ctrl.identifiers.nodes,
          n ∈ (w.ctrl.insert A w.links pid).identifiers.nodes :=
      fun n hn => List.mem_append_left _ hn
    have hMemory :=
      Controller.insert_memory (A := A) (L := w.links) pid
        w.ctrl id
    change (w.ctrl.insert A w.links pid).Shows id
      (if id ∈ m.agents then
        (m.watchers id).appears
          (UdjatProcess.exename m.links pid) pid
      else
        m.watchers id)
    rw [hRefines.agents, hRefines.links]
    by_cases hMem : id ∈ w.ctrl.agents
    · rw [if_pos hMem] at hMemory ⊢
      unfold Watcher.appears
      by_cases hBind :
          (m.watchers id).bound = none ∧
            (m.watchers id).accepts
              (UdjatProcess.exename w.links pid) = true
      · rw [if_pos hBind]
        have hTakes :
            ((w.ctrl.memory id).pid.isNone &&
              (w.ctrl.memory id).probe
                (UdjatProcess.exename w.links pid)) = true := by
          rw [hShows.unbound_iff.mp hBind.1,
            ← hShows.accepts_eq]
          exact hBind.2
        apply hShows.set_some hBind.1
          (n := ⟨w.ctrl.identifiers.fresh A, { pid := pid }⟩)
          (List.mem_append_right _
            (List.mem_singleton_self _))
        rw [hMemory]
        exact if_pos hTakes
      · rw [if_neg hBind]
        have hStays :
            ¬ ((w.ctrl.memory id).pid.isNone &&
              (w.ctrl.memory id).probe
                (UdjatProcess.exename w.links pid)) = true := by
          rw [Bool.and_eq_true, Option.isNone_iff_eq_none,
            ← hShows.accepts_eq, ← hShows.unbound_iff]
          exact hBind
        apply hShows.of_memory
        · rw [hMemory]
          exact if_neg hStays
        · exact fun n hn _ => ⟨n, hOld n hn, rfl, rfl⟩
    · rw [if_neg hMem] at hMemory ⊢
      exact hShows.of_memory hMemory
        fun n hn _ => ⟨n, hOld n hn, rfl, rfl⟩

/- A process that goes takes all of its elements with it. -/
theorem refines_remove
    (hRefines : w.Refines m)
    {pid : Pid}
    (hTells : m.Tells pid) :
    (w.step A (.remove pid)).Refines (m.leave pid) := by
  refine ⟨?_, hRefines.agents, hRefines.links,
    hRefines.polls, ?_⟩
  · change m.pids.filter _ = (w.ctrl.remove pid).pids
    rw [Controller.pids_remove, hRefines.pids]
  · intro id
    have hShows := hRefines.shows id
    have hMemory := Controller.remove_memory pid w.ctrl id
    change (w.ctrl.remove pid).Shows id
      (if id ∈ m.agents then (m.watchers id).leaves pid
      else m.watchers id)
    by_cases hBound : (m.watchers id).bound = some pid
    · have hMem := hTells id hBound
      have hGone :
          id ∈ w.ctrl.agents ∧
            ∃ n ∈ w.ctrl.identifiers.nodes,
              n.val.pid = pid ∧
                (w.ctrl.memory id).pid = some n.addr := by
        rw [← hRefines.agents]
        refine ⟨hMem, ?_⟩
        rcases hShows.bound with
          ⟨hNone, _⟩ | ⟨n, hn, hPid, hAddr⟩
        · rw [hNone] at hBound
          cases hBound
        · rw [hPid] at hBound
          exact ⟨n, hn, Option.some.inj hBound, hAddr⟩
      rw [if_pos hMem]
      rw [if_pos hGone] at hMemory
      exact hShows.set_none hBound hMemory
    · have hLeaves :
          (m.watchers id).leaves pid = m.watchers id :=
        if_neg hBound
      have hOther :
          ∀ n ∈ w.ctrl.identifiers.nodes,
            (w.ctrl.memory id).pid = some n.addr →
              n.val.pid ≠ pid := by
        intro n hn hAddr hPid
        apply hBound
        rw [← hPid]
        exact hShows.bound_of_addr hn hAddr
      rw [hLeaves, ite_self]
      apply hShows.of_memory
      · rw [hMemory, if_neg]
        rintro ⟨_, n, hn, hPid, hAddr⟩
        exact hOther n hn hAddr hPid
      · intro n hn hAddr
        exact ⟨n, (Controller.mem_remove_nodes_iff pid w.ctrl
          n).mpr ⟨hn, hOther n hn hAddr⟩, rfl, rfl⟩

/- A poll drops what it misses, then processes come. -/
theorem refines_reload
    (hRefines : w.Refines m)
    {dir : ProcDir}
    (hSpares : m.Spares (snapshot dir)) :
    (w.step A (.reload dir)).Refines
      (m.poll (snapshot dir)) := by
  have hKeep :
      (World.mk (w.ctrl.keepOnly (snapshot dir))
        w.links).Refines (m.keep (snapshot dir)) := by
    refine ⟨?_, hRefines.agents, hRefines.links,
      hRefines.polls, ?_⟩
    · change m.pids.filter _ = (w.ctrl.keepOnly _).pids
      rw [Controller.pids_keepOnly, hRefines.pids]
    · intro id
      have hShows := hRefines.shows id
      have hMemory :
          (w.ctrl.keepOnly (snapshot dir)).memory id =
            w.ctrl.memory id := rfl
      apply hShows.of_memory hMemory
      intro n hn hAddr
      refine ⟨n, ?_, rfl, rfl⟩
      apply (Controller.mem_keepOnly_nodes_iff _ w.ctrl n).mpr
      exact ⟨hn, hSpares id _ (hShows.bound_of_addr hn hAddr)⟩
  have hNew :
      ∀ (pids : List Pid) (ctrl : Controller) (m : Monitor),
        (World.mk ctrl w.links).Refines m →
          (World.mk
            (pids.foldl
              (fun ctrl pid => ctrl.insert A w.links pid)
              ctrl) w.links).Refines
            (pids.foldl (fun m pid => m.appear pid) m) := by
    intro pids
    induction pids with
    | nil => exact fun _ _ hRefines => hRefines
    | cons pid pids ih =>
        intro ctrl m hRefines
        exact ih _ _ (refines_insert hRefines pid)
  unfold Monitor.poll
  change (World.mk (w.ctrl.reload A w.links dir)
    w.links).Refines _
  rw [Controller.reload_eq_reconcile, Controller.reconcile_eq,
    hRefines.pids]
  exact hNew _ _ _ hKeep

------------------------------------------------------------
-- Agents
------------------------------------------------------------

/-
  A change of one agent is one of its watcher, if the list
  of elements stays.
-/
theorem refines_change
    (hRefines : w.Refines m)
    (ctrl : Controller)
    (agent : AgentId)
    (f : Watcher → Watcher)
    (hNodes : ctrl.identifiers = w.ctrl.identifiers)
    (hAgents : ctrl.agents = w.ctrl.agents)
    (hFd : ctrl.fd = w.ctrl.fd)
    (hOthers :
      ∀ id, id ≠ agent → ctrl.memory id = w.ctrl.memory id)
    (hAgent : ctrl.Shows agent (f (m.watchers agent))) :
    (World.mk ctrl w.links).Refines (m.change agent f) := by
  refine ⟨?_, ?_, hRefines.links, ?_, ?_⟩
  · change m.pids = ctrl.pids
    unfold Controller.pids
    rw [hNodes]
    exact hRefines.pids
  · change m.agents = ctrl.agents
    rw [hAgents]
    exact hRefines.agents
  · change m.polls = decide (ctrl.fd < 0)
    rw [hFd]
    exact hRefines.polls
  · intro id
    change ctrl.Shows id
      (Function.update m.watchers agent
        (f (m.watchers agent)) id)
    by_cases hId : id = agent
    · rw [hId, Function.update_self]
      exact hAgent
    · rw [Function.update_of_ne hId]
      apply (hRefines.shows id).of_memory (hOthers id hId)
      rw [hNodes]
      exact fun n hn _ => ⟨n, hn, rfl, rfl⟩

/- A report of an agent is one of its watcher. -/
theorem refines_report
    (hRefines : w.Refines m)
    (agent : AgentId) :
    (World.mk (w.ctrl.notify agent) w.links).Refines
      (m.change agent Watcher.report) := by
  have hSame :
      (w.ctrl.notify agent).memory agent =
        (w.ctrl.memory agent).updated :=
    ObjectStore.modify_same _ _ _
  have hShows := hRefines.shows agent
  apply refines_change hRefines (w.ctrl.notify agent) agent
    Watcher.report rfl rfl rfl
  · exact fun id hId => ObjectStore.modify_ne hId _ _
  · refine ⟨?_, ?_, ?_⟩
    · rw [hSame]
      exact hShows.kind
    · rw [hSame]
      exact congrArg (· + 1) hShows.updates
    · rw [hSame]
      exact hShows.bound

/- Both search for the first process that is accepted. -/
theorem firstMatch_eq
    (hRefines : w.Refines m)
    (agent : AgentId) :
    (w.ctrl.firstMatch w.links agent).map
        (fun n => n.val.pid) =
      m.firstAccepted agent := by
  have hProbe :
      (fun n : Node Identifier =>
          (w.ctrl.memory agent).probeIdentifier w.links
            n.val) =
        (fun pid => (m.watchers agent).accepts
            (UdjatProcess.exename m.links pid)) ∘
          fun n => n.val.pid := by
    funext n
    rw [Function.comp_apply, hRefines.links]
    exact ((hRefines.shows agent).accepts_eq _).symm
  unfold Controller.firstMatch Monitor.firstAccepted
  rw [hRefines.pids, Controller.pids, List.find?_map, hProbe]

/- Registration binds to the same process. -/
theorem refines_insertAgent
    (hRefines : w.Refines m)
    {agent : AgentId}
    (hUnbound : (m.watchers agent).bound = none) :
    (World.mk (w.ctrl.insertAgent w.links agent)
      w.links).Refines (m.register agent) := by
  let registered : Controller :=
    { w.ctrl with agents := w.ctrl.agents ++ [agent] }
  have hRegistered :
      (World.mk registered w.links).Refines
        { m with agents := m.agents ++ [agent] } := by
    refine ⟨hRefines.pids, ?_, hRefines.links,
      hRefines.polls, ?_⟩
    · exact congrArg (· ++ [agent]) hRefines.agents
    · intro id
      have hMemory :
          registered.memory id = w.ctrl.memory id := rfl
      exact (hRefines.shows id).of_memory hMemory
        fun n hn _ => ⟨n, hn, rfl, rfl⟩
  have hFirst := firstMatch_eq hRefines agent
  unfold Monitor.register
  rw [← hFirst]
  rcases Controller.insertAgent_cases (L := w.links) agent
      w.ctrl with ⟨n, hMatch, hEq⟩ | ⟨hMatch, hEq⟩
  · have hn := (Controller.firstMatch_spec hMatch).1
    have hSet :=
      Controller.setAgent_memory_same agent (some n.addr)
        registered
    rw [hEq, hMatch]
    apply refines_change hRegistered
      (registered.setAgent agent (some n.addr)) agent
      (Watcher.bind (some n.val.pid)) rfl rfl rfl
    · exact fun id hId => Controller.setAgent_memory_ne hId _ _
    · exact (hRegistered.shows agent).set_some hUnbound hn hSet
  · rw [hEq, hMatch]
    exact refines_change hRegistered registered agent
      (Watcher.bind none) rfl rfl rfl (fun _ _ => rfl)
      (hRegistered.shows agent)

/- An agent that stays unbound reports on its start. -/
theorem refines_startAgent
    (hRefines : w.Refines m)
    {agent : AgentId}
    (hUnbound : (m.watchers agent).bound = none) :
    (World.mk (w.ctrl.startAgent w.links agent)
      w.links).Refines (m.startByName agent) := by
  have hRegistered := refines_insertAgent hRefines hUnbound
  have hNull := (hRegistered.shows agent).isNone_iff
  unfold Controller.startAgent Monitor.startByName
  dsimp only at hNull ⊢
  by_cases hBound :
      ((m.register agent).watchers agent).bound = none
  · rw [if_pos hBound, if_pos (hNull.mpr hBound)]
    exact refines_report hRegistered agent
  · rw [if_neg hBound, if_neg fun hIs =>
      hBound (hNull.mp hIs)]
    exact hRegistered

/- A search by number finds an element of a tracked process. -/
theorem find_cases
    (hRefines : w.Refines m)
    (pid : Pid) :
    (pid ∉ m.pids ∧ w.ctrl.find pid = none) ∨
      pid ∈ m.pids ∧
        ∃ n ∈ w.ctrl.identifiers.nodes,
          n.val.pid = pid ∧ w.ctrl.find pid = some n.addr := by
  rw [hRefines.pids]
  cases hFind : w.ctrl.find pid with
  | none =>
      exact Or.inl
        ⟨(w.ctrl.find_none_iff pid).mp hFind, rfl⟩
  | some a =>
      rcases Controller.find_spec hFind with
        ⟨n, hn, hAddr, hPid⟩
      refine Or.inr ⟨?_, n, hn, hPid, congrArg some hAddr.symm⟩
      exact (w.ctrl.tracks_iff pid).mpr ⟨n, hn, hPid⟩

/- An unbound agent that is sent to a process by number. -/
theorem refines_setPid
    (hRefines : w.Refines m)
    {agent : AgentId}
    (hUnbound : (m.watchers agent).bound = none)
    (pid : Pid) :
    (World.mk (w.ctrl.setPid agent pid) w.links).Refines
      (m.change agent (Watcher.bind
        (if 0 ≤ pid ∧ pid ∈ m.pids then some pid
        else none))) := by
  have hShows := hRefines.shows agent
  have hNull := hShows.unbound_iff.mp hUnbound
  have hSame : w.ctrl.setAgent agent none = w.ctrl := by
    have hSet :
        (w.ctrl.memory agent).set none =
          w.ctrl.memory agent :=
      if_pos hNull.symm
    unfold Controller.setAgent ObjectStore.modify
    rw [hSet, Function.update_eq_self]
  have hStays :
      w.Refines (m.change agent (Watcher.bind none)) :=
    refines_change hRefines w.ctrl agent (Watcher.bind none)
      rfl rfl rfl (fun _ _ => rfl) hShows
  unfold Controller.setPid
  by_cases hNegative : pid < 0
  · have hNot : ¬ (0 ≤ pid ∧ pid ∈ m.pids) := fun hBoth =>
      absurd hNegative (Int32.not_lt.mpr hBoth.1)
    rw [if_pos hNegative, if_neg hNot, hSame]
    exact hStays
  · have hPositive : 0 ≤ pid := Int32.not_lt.mp hNegative
    rw [if_neg hNegative]
    rcases find_cases hRefines pid with
      ⟨hNot, hFind⟩ | ⟨hMem, n, hn, hPid, hFind⟩
    · rw [hFind, if_neg fun hBoth => hNot hBoth.2, hSame]
      exact hStays
    · rw [hFind, if_pos ⟨hPositive, hMem⟩, ← hPid]
      apply refines_change hRefines
        (w.ctrl.setAgent agent (some n.addr)) agent
        (Watcher.bind (some n.val.pid)) rfl rfl rfl
      · exact fun id hId =>
          Controller.setAgent_memory_ne hId _ _
      · have hSet :=
          Controller.setAgent_memory_same agent
            (some n.addr) w.ctrl
        exact hShows.set_some hUnbound hn hSet

/- An agent without a process finds that of its pid file. -/
theorem refines_refreshPidFile
    (hRefines : w.Refines m)
    (agent : AgentId)
    (file : Option CString) :
    (World.mk (w.ctrl.refreshPidFile file agent)
      w.links).Refines (m.lookUp agent file) := by
  have hShows := hRefines.shows agent
  have hNull := hShows.isNone_iff
  have hStays :
      w.Refines (m.change agent (Watcher.bind none)) :=
    refines_change hRefines w.ctrl agent (Watcher.bind none)
      rfl rfl rfl (fun _ _ => rfl) hShows
  unfold Controller.refreshPidFile Monitor.lookUp
  by_cases hUnbound : (m.watchers agent).bound = none
  · rw [if_pos hUnbound, if_pos (hNull.mpr hUnbound)]
    cases file with
    | none => exact hStays
    | some text =>
        unfold Monitor.named
        dsimp only
        by_cases hZero : extractUnsigned text = 0
        · rw [if_neg (not_not.mpr hZero), if_pos hZero]
          exact hStays
        · rw [if_pos hZero, if_neg hZero]
          exact refines_setPid hRefines hUnbound _
  · rw [if_neg hUnbound, if_neg fun hIs =>
      hUnbound (hNull.mp hIs)]
    exact hRefines

------------------------------------------------------------
-- Samples
------------------------------------------------------------

/- An element is where the old one was, with its number. -/
theorem exists_same_node
    {l l' : NodeList Identifier}
    (hAddrs : l'.addrs = l.addrs)
    (hPids :
      (l'.nodes.map fun n => n.val.pid) =
        l.nodes.map fun n => n.val.pid)
    {n : Node Identifier}
    (hn : n ∈ l.nodes) :
    ∃ n' ∈ l'.nodes,
      n'.addr = n.addr ∧ n'.val.pid = n.val.pid := by
  rcases List.mem_iff_getElem?.mp hn with ⟨i, hi⟩
  have hAddr := congrArg (·[i]?) hAddrs
  have hPid := congrArg (·[i]?) hPids
  simp only [NodeList.addrs, List.getElem?_map, hi,
    Option.map_some, Option.map_eq_some_iff] at hAddr hPid
  rcases hAddr with ⟨n', hn', hSameAddr⟩
  rcases hPid with ⟨n'', hn'', hSamePid⟩
  rw [hn'] at hn''
  cases hn''
  exact ⟨n', List.mem_of_getElem? hn', hSameAddr, hSamePid⟩

/- What is sampled of a process does not show. -/
theorem refines_sample
    (hRefines : w.Refines m)
    (ctrl : Controller)
    (hAddrs :
      ctrl.identifiers.addrs = w.ctrl.identifiers.addrs)
    (hPids : ctrl.pids = w.ctrl.pids)
    (hAgents : ctrl.agents = w.ctrl.agents)
    (hMemory : ctrl.memory = w.ctrl.memory)
    (hFd : ctrl.fd = w.ctrl.fd) :
    (World.mk ctrl w.links).Refines m := by
  refine ⟨?_, ?_, hRefines.links, ?_, ?_⟩
  · exact hRefines.pids.trans hPids.symm
  · exact hRefines.agents.trans hAgents.symm
  · change m.polls = decide (ctrl.fd < 0)
    rw [hFd]
    exact hRefines.polls
  · intro id
    apply (hRefines.shows id).of_memory
      (congrFun hMemory id)
    exact fun n hn _ => exists_same_node hAddrs hPids hn

theorem refines_refresh
    (hRefines : w.Refines m)
    (stat : Controller.SystemStat)
    (read : Controller.Reader) :
    (World.mk (w.ctrl.refresh stat read) w.links).Refines m := by
  have hKeeps := Controller.refresh_keeps stat read w.ctrl
  exact refines_sample hRefines _
    (Controller.addrs_refresh stat read w.ctrl)
    (Controller.pids_refresh stat read w.ctrl) hKeeps.1
    hKeeps.2.1 hKeeps.2.2.1

theorem refines_getState
    (hRefines : w.Refines m)
    (agent : AgentId)
    (file : StatFile) :
    (World.mk (cacheState agent file w.ctrl) w.links).Refines
      m := by
  have hKeeps := cacheState_keeps agent file w.ctrl
  have hRest := cacheState_rest agent file w.ctrl
  exact refines_sample hRefines _ hRest.1 hKeeps.1 hRest.2.1
    hRest.2.2.1 hKeeps.2

/- The job of an update reports once for each registration. -/
theorem refines_updateAgents (hRefines : w.Refines m) :
    (World.mk w.ctrl.updateAgents w.links).Refines
      (m.agents.foldl (fun m id => m.change id Watcher.report)
        m) := by
  have hLoop :
      ∀ (ids : List AgentId) (ctrl : Controller) (m : Monitor),
        (World.mk ctrl w.links).Refines m →
          (World.mk
            { ctrl with
              memory :=
                ObjectStore.forEach ids Agent.updated
                  ctrl.memory }
            w.links).Refines
            (ids.foldl
              (fun m id => m.change id Watcher.report) m) := by
    intro ids
    induction ids with
    | nil => exact fun _ _ hRefines => hRefines
    | cons id ids ih =>
        intro ctrl m hRefines
        exact ih _ _ (refines_report hRefines id)
  have hReports := hLoop m.agents w.ctrl m hRefines
  rw [hRefines.agents] at hReports ⊢
  exact refines_sample hReports w.ctrl.updateAgents rfl rfl rfl
    rfl rfl

------------------------------------------------------------
-- Refinement
------------------------------------------------------------

/- Every legal step of the monitor is one of the module. -/
theorem refines_step
    (A : Allocator)
    (w : World)
    (m : Monitor)
    (op : Op)
    (hRefines : w.Refines m)
    (hLegal : m.Legal op) :
    (w.step A op).Refines (m.step op) := by
  cases op with
  | links links =>
      refine ⟨hRefines.pids, hRefines.agents, rfl,
        hRefines.polls, ?_⟩
      exact hRefines.shows
  | event ev =>
      cases ev with
      | exec pid tgid => exact refines_insert hRefines pid
      | exit pid tgid code signal =>
          exact refines_remove (A := A) hRefines hLegal
      | fork _ _ _ _ => exact hRefines
      | other _ _ => exact hRefines
  | insert pid => exact refines_insert hRefines pid
  | remove pid => exact refines_remove hRefines hLegal
  | construct agent kind =>
      have hNew :
          (w.ctrl.construct agent kind).memory agent =
            { kind := kind } :=
        Function.update_self _ _ _
      apply refines_change hRefines
        (w.ctrl.construct agent kind) agent
        (fun _ => ⟨kind, none, 0⟩) rfl rfl rfl
      · exact fun id hId => Function.update_of_ne hId _ _
      · refine ⟨?_, ?_, Or.inl ⟨rfl, ?_⟩⟩
        · rw [hNew]
        · rw [hNew]
        · rw [hNew]
  | insertAgent agent => exact refines_insertAgent hRefines hLegal
  | removeAgent agent =>
      refine ⟨hRefines.pids, ?_, hRefines.links,
        hRefines.polls, ?_⟩
      · exact congrArg (List.filter (· != agent))
          hRefines.agents
      · intro id
        have hMemory :
            (w.ctrl.removeAgent agent).memory id =
              w.ctrl.memory id := rfl
        exact (hRefines.shows id).of_memory hMemory
          fun n hn _ => ⟨n, hn, rfl, rfl⟩
  | start agent file =>
      change (World.mk (w.ctrl.start w.links file agent)
        w.links).Refines (m.start agent file)
      unfold Controller.start Monitor.start
      rw [(hRefines.shows agent).kind]
      cases (w.ctrl.memory agent).kind with
      | exeName exename =>
          exact refines_startAgent hRefines hLegal
      | pidFile pidfile =>
          exact refines_refreshPidFile hRefines agent file
  | refreshAgent agent file =>
      change (World.mk (w.ctrl.refreshAgent file agent)
        w.links).Refines (m.refreshAgent agent file)
      unfold Controller.refreshAgent Monitor.refreshAgent
      rw [(hRefines.shows agent).kind]
      cases (w.ctrl.memory agent).kind with
      | exeName exename => exact hRefines
      | pidFile pidfile =>
          exact refines_refreshPidFile hRefines agent file
  | reload dir => exact refines_reload hRefines hLegal
  | onTimer dir =>
      change (World.mk (w.ctrl.onTimer A w.links dir)
        w.links).Refines
          (if m.polls then m.poll (snapshot dir) else m)
      have hPolls := hRefines.polls
      unfold Controller.onTimer
      by_cases hFd : w.ctrl.fd < 0
      · have hIs : m.polls = true := by
          rw [hPolls]
          exact decide_eq_true hFd
        rw [if_pos hFd, if_pos hIs]
        exact refines_reload hRefines (hLegal hIs)
      · have hIs : ¬ m.polls = true := by
          rw [hPolls]
          exact fun hIs => hFd (of_decide_eq_true hIs)
        rw [if_neg hFd, if_neg hIs]
        exact hRefines
  | refresh stat read => exact refines_refresh hRefines stat read
  | updateAgents => exact refines_updateAgents hRefines
  | getState agent file =>
      exact refines_getState hRefines agent file

/- So is every legal run. -/
theorem refines_after
    (A : Allocator)
    {ops : List Op}
    (hRefines : w.Refines m)
    (hLegal : Runs.Along Monitor.step Monitor.Legal m ops) :
    (Runs.after (step A) w ops).Refines
      (Runs.after Monitor.step m ops) :=
  Runs.related_of_along (refines_step A) hRefines hLegal

------------------------------------------------------------
-- From The Constructor On
------------------------------------------------------------

variable {links : Links} {memory : Memory} {dir : ProcDir}
variable {fd : Int} {cpuUsePerProcess : Bool}
variable {stat : Controller.SystemStat} {ctrl : Controller}
variable {pids : List Pid} {ops : List Op}

/- Loading the first processes touches no agent. -/
theorem memory_create
    (hCreate :
      Controller.create A links memory dir fd
        cpuUsePerProcess stat = .ok ctrl) :
    ctrl.agents = [] ∧ ctrl.memory = memory := by
  unfold Controller.create at hCreate
  cases hLoad : load dir with
  | error e => simp [hLoad] at hCreate
  | ok pids =>
      rw [hLoad] at hCreate
      rw [← Except.ok.inj hCreate]
      exact foldl_insert_idle A links pids
        { identifiers := .empty
          agents := []
          memory := memory
          fd := -1 } rfl

/- A new controller refines a new monitor. -/
theorem refines_create
    (hMemory : ∀ id, (memory id).pid = none)
    (hLoad : load dir = .ok pids)
    (hCreate :
      Controller.create A links memory dir fd
        cpuUsePerProcess stat = .ok ctrl) :
    (World.mk ctrl links).Refines
      (Monitor.new pids memory links fd) := by
  rcases memory_create hCreate with ⟨hAgents, hSame⟩
  refine ⟨(pids_create hLoad hCreate).symm, hAgents.symm, rfl,
    ?_, ?_⟩
  · change decide (fd < 0) = decide (ctrl.fd < 0)
    rw [fd_create hCreate]
  · intro id
    refine ⟨?_, ?_, Or.inl ⟨rfl, ?_⟩⟩
    · change (memory id).kind = (ctrl.memory id).kind
      rw [hSame]
    · change (memory id).updates = (ctrl.memory id).updates
      rw [hSame]
    · change (ctrl.memory id).pid = none
      rw [hSame]
      exact hMemory id

/-
  From its construction on, whatever it is asked to do and
  wherever its elements are allocated, the module does what
  the monitor does, as long as no watcher is left bound to a
  process that is gone and none is registered while bound.
-/
theorem refines_of_create
    (hMemory : ∀ id, (memory id).pid = none)
    (hLoad : load dir = .ok pids)
    (hCreate :
      Controller.create A links memory dir fd
        cpuUsePerProcess stat = .ok ctrl)
    (hLegal :
      Runs.Along Monitor.step Monitor.Legal
        (Monitor.new pids memory links fd) ops) :
    (Runs.after (step A) ⟨ctrl, links⟩ ops).Refines
      (Runs.after Monitor.step
        (Monitor.new pids memory links fd) ops) :=
  refines_after A (refines_create hMemory hLoad hCreate) hLegal

/- Agents that watch the program of process 5. -/
def watching (_ : AgentId) : Agent where
  kind := .exeName "pid5".toList

/- A controller that has loaded process 5. -/
def watched (A : Allocator) : Controller :=
  (bare watching fun _ => none).ctrl.insert A
    (fun _ => none) 5

theorem create_watched (A : Allocator) :
    Controller.create A (fun _ => none) watching oneProcess 3
      true ⟨0, 0⟩ = .ok (watched A) := rfl

/- An agent is bound to process 5 and told that it exits. -/
def watchedRun : List Op :=
  [.insertAgent 1, .event (.exit 5 5 0 17), .updateAgents]

theorem legal_watchedRun :
    Runs.Along Monitor.step Monitor.Legal
      (Monitor.new [5] watching (fun _ => none) 3)
      watchedRun := by
  refine ⟨rfl, ?_, trivial, trivial⟩
  intro id hBound
  by_cases hId : id = 1
  · rw [hId]
    exact List.mem_singleton_self 1
  · have hNone :
        (((Monitor.new [5] watching (fun _ => none) 3).register
          1).watchers id).bound = none := by
      unfold Monitor.register Monitor.change
      dsimp only
      rw [Function.update_of_ne hId]
      rfl
    exact absurd (hNone.symm.trans hBound)
      (Option.some_ne_none 5).symm

theorem refines_of_create_sample :
    (Runs.after (step (.above []))
        ⟨watched (.above []), fun _ => none⟩
        watchedRun).Refines
      (Runs.after Monitor.step
        (Monitor.new [5] watching (fun _ => none) 3)
        watchedRun) := by
  have hLoad : load oneProcess = .ok [5] := rfl
  exact refines_of_create (fun _ => rfl) hLoad
    (create_watched (.above [])) legal_watchedRun

end World

end UdjatProcess
