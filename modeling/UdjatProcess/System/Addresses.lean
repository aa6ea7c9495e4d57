import UdjatProcess.Library.Renaming
import UdjatProcess.System.Refines

/-
  Where the elements of the process list are allocated makes
  no difference.

  Two controllers with different allocators that are asked
  to do the same stay equal up to a renaming of addresses:
  the same identifiers in the same order, with their states
  and accounts, and the same agents, whose pointers refer to
  the same elements. This takes that no agent is left at an
  element that is gone, as a new element may be allocated
  there, and that what is read of a process does not depend
  on the address of its element.

  Key definitions include:
    * `Agent.rename`
    * `Controller.Renamed`
    * `World.Renamed`
    * `World.AddressFree`

  Key theorems include:
    * `Controller.renamed_insert`
    * `Controller.renamed_remove`
    * `Controller.renamed_refresh`
    * `World.renamed_step`
    * `World.same_of_allocators`
-/

namespace UdjatProcess

------------------------------------------------------------
-- Agents
------------------------------------------------------------

/- The agent, with its pointer renamed. -/
def Agent.rename
    (ρ : Addr → Addr)
    (self : Agent) : Agent :=
  { self with pid := self.pid.map ρ }

namespace Agent

variable {ρ σ : Addr → Addr} {self : Agent}

theorem rename_id (self : Agent) : self.rename id = self := by
  unfold rename
  rw [Option.map_id]
  rfl

/- Only the name of the agent's own address matters. -/
theorem rename_congr
    (hSame : ∀ a, self.pid = some a → σ a = ρ a) :
    self.rename σ = self.rename ρ := by
  unfold rename
  cases hPid : self.pid with
  | none => rfl
  | some a =>
      rw [Option.map_some, Option.map_some, hSame a hPid]

/- Setting a pointer, if no other one has its name. -/
theorem rename_set
    {pid : Option Addr}
    (hInj : pid.map ρ = self.pid.map ρ → pid = self.pid) :
    (self.set pid).rename ρ =
      (self.rename ρ).set (pid.map ρ) := by
  unfold set rename
  by_cases hSame : pid = self.pid
  · rw [if_pos hSame, hSame]
    exact (if_pos rfl).symm
  · rw [if_neg hSame]
    exact (if_neg fun hName => hSame (hInj hName)).symm

theorem rename_bindIfUnbound
    (exec : CString)
    (a : Addr)
    (self : Agent) :
    (self.bindIfUnbound exec a).rename ρ =
      (self.rename ρ).bindIfUnbound exec (ρ a) := by
  cases hPid : self.pid with
  | none =>
      have hNull : (self.rename ρ).pid = none := by
        unfold rename
        rw [hPid]
        rfl
      have hProbe :
          (self.rename ρ).probe exec = self.probe exec := rfl
      have hSet :
          (self.set (some a)).rename ρ =
            (self.rename ρ).set (some (ρ a)) := by
        apply rename_set
        rw [hPid]
        exact fun hName => absurd hName (Option.some_ne_none _)
      unfold bindIfUnbound
      rw [hPid, hNull, hProbe]
      split
      · exact hSet
      · rfl
  | some b =>
      have hBound : (self.rename ρ).pid = some (ρ b) := by
        unfold rename
        rw [hPid]
        rfl
      rw [bindIfUnbound_of_bound exec a b self hPid,
        bindIfUnbound_of_bound exec (ρ a) (ρ b) _ hBound]

end Agent

------------------------------------------------------------
-- Controllers
------------------------------------------------------------

namespace Controller

/-
  The second controller is the first with the addresses of
  its elements renamed. No pointer of an agent dangles.
-/
structure Renamed
    (ρ : Addr → Addr)
    (ctrl other : Controller) : Prop where
  rest :
    other =
      { ctrl with
        identifiers := other.identifiers
        memory := other.memory }
  identifiers :
    NodeList.Renamed ρ ctrl.identifiers other.identifiers
  memory : ∀ id, other.memory id = (ctrl.memory id).rename ρ
  inside :
    ∀ id a, (ctrl.memory id).pid = some a →
      a ∈ ctrl.identifiers.addrs

variable {A B : Allocator} {L : Links}
variable {self other : Controller} {ρ : Addr → Addr}

theorem Renamed.pid
    (hRenamed : Renamed ρ self other)
    (id : AgentId) :
    (other.memory id).pid = (self.memory id).pid.map ρ :=
  congrArg Agent.pid (hRenamed.memory id)

theorem Renamed.kind
    (hRenamed : Renamed ρ self other)
    (id : AgentId) :
    (other.memory id).kind = (self.memory id).kind := by
  rw [hRenamed.memory]
  rfl

theorem Renamed.isNone
    (hRenamed : Renamed ρ self other)
    (id : AgentId) :
    (other.memory id).pid.isNone =
      (self.memory id).pid.isNone := by
  rw [hRenamed.pid, Option.isNone_map]

theorem Renamed.pids (hRenamed : Renamed ρ self other) :
    other.pids = self.pids :=
  hRenamed.identifiers.map_val Identifier.pid

theorem Renamed.agents (hRenamed : Renamed ρ self other) :
    other.agents = self.agents := by
  rw [hRenamed.rest]

/- Pointers to elements with one name are one pointer. -/
theorem Renamed.pid_inj
    (hRenamed : Renamed ρ self other)
    (id : AgentId)
    {pid : Option Addr}
    (hIn : ∀ a, pid = some a → a ∈ self.identifiers.addrs)
    (hName : pid.map ρ = (self.memory id).pid.map ρ) :
    pid = (self.memory id).pid := by
  have hInside := hRenamed.inside id
  generalize (self.memory id).pid = own at hInside hName
  cases pid with
  | none => exact (Option.map_eq_none_iff.mp hName.symm).symm
  | some a =>
      rcases Option.map_eq_some_iff.mp hName.symm with
        ⟨b, hOwn, hSame⟩
      rw [hOwn, hRenamed.identifiers.inj (hInside b hOwn)
        (hIn a rfl) hSame]

------------------------------------------------------------
-- Processes
------------------------------------------------------------

theorem renamed_insert
    (hRenamed : Renamed ρ self other)
    (pid : Pid) :
    Renamed
      (NodeList.extend A B self.identifiers
        other.identifiers ρ)
      (self.insert A L pid) (other.insert B L pid) := by
  refine ⟨?_, hRenamed.identifiers.emplaceBack A B _, ?_, ?_⟩
  · rw [hRenamed.rest]
    rfl
  · intro id
    have hOld :
        (self.memory id).rename
            (NodeList.extend A B self.identifiers
              other.identifiers ρ) =
          other.memory id := by
      rw [hRenamed.memory]
      exact Agent.rename_congr fun a hPid =>
        NodeList.extend_of_mem A B other.identifiers ρ
          (hRenamed.inside id a hPid)
    rw [insert_memory, insert_memory, hRenamed.agents]
    split
    · rw [Agent.rename_bindIfUnbound, hOld,
        NodeList.extend_fresh]
    · exact hOld.symm
  · intro id a hPid
    have hAddrs :
        (self.insert A L pid).identifiers.addrs =
          self.identifiers.addrs ++
            [self.identifiers.fresh A] :=
      List.map_append
    rw [hAddrs, List.mem_append, List.mem_singleton]
    rw [insert_memory] at hPid
    split at hPid
    · rw [Agent.bindIfUnbound_pid] at hPid
      split at hPid
      · exact Or.inr (Option.some.inj hPid).symm
      · exact Or.inl (hRenamed.inside id a hPid)
    · exact Or.inl (hRenamed.inside id a hPid)

theorem renamed_foldl_insert
    (pids : List Pid)
    (hRenamed : Renamed ρ self other) :
    ∃ σ, Renamed σ
      (pids.foldl (fun ctrl pid => ctrl.insert A L pid) self)
      (pids.foldl (fun ctrl pid => ctrl.insert B L pid)
        other) := by
  induction pids generalizing self other ρ with
  | nil => exact ⟨ρ, hRenamed⟩
  | cons pid pids ih => exact ih (renamed_insert hRenamed pid)

/- An agent is at an element of the process in both. -/
theorem Renamed.at_iff
    (hRenamed : Renamed ρ self other)
    (id : AgentId)
    (pid : Pid) :
    (∃ n ∈ other.identifiers.nodes,
        n.val.pid = pid ∧
          (other.memory id).pid = some n.addr) ↔
      ∃ n ∈ self.identifiers.nodes,
        n.val.pid = pid ∧
          (self.memory id).pid = some n.addr := by
  rw [hRenamed.identifiers.nodes, hRenamed.pid]
  constructor
  · rintro ⟨n', hn', hPid, hAddr⟩
    rcases List.mem_map.mp hn' with ⟨n, hn, hEq⟩
    rw [← hEq] at hPid hAddr
    refine ⟨n, hn, hPid, (hRenamed.pid_inj id ?_ ?_).symm⟩
    · intro a hSome
      rw [← Option.some.inj hSome]
      exact List.mem_map_of_mem hn
    · exact hAddr.symm
  · rintro ⟨n, hn, hPid, hAddr⟩
    rw [hAddr]
    exact ⟨n.rename ρ, List.mem_map_of_mem hn, hPid, rfl⟩

/- A process goes that only registered agents are bound to. -/
theorem renamed_remove
    (hRenamed : Renamed ρ self other)
    {pid : Pid}
    (hTells :
      ∀ id, ∀ n ∈ self.identifiers.nodes, n.val.pid = pid →
        (self.memory id).pid = some n.addr →
          id ∈ self.agents) :
    Renamed ρ (self.remove pid) (other.remove pid) := by
  have hList :=
    hRenamed.identifiers.removeIf fun e => e.pid == pid
  refine ⟨?_, hList, ?_, ?_⟩
  · rw [hRenamed.rest]
    rfl
  · intro id
    have hAt := hRenamed.at_iff id pid
    rw [remove_memory, remove_memory, hRenamed.agents]
    by_cases hGone :
        id ∈ self.agents ∧
          ∃ n ∈ self.identifiers.nodes,
            n.val.pid = pid ∧
              (self.memory id).pid = some n.addr
    · rw [if_pos hGone, if_pos ⟨hGone.1, hAt.mpr hGone.2⟩,
        hRenamed.memory]
      have hSet :
          ((self.memory id).set none).rename ρ =
            ((self.memory id).rename ρ).set
              (Option.map ρ none) := by
        apply Agent.rename_set
        apply hRenamed.pid_inj id
        exact fun a hSome =>
          absurd hSome.symm (Option.some_ne_none a)
      exact hSet.symm
    · rw [if_neg hGone, if_neg fun hBoth =>
        hGone ⟨hBoth.1, hAt.mp hBoth.2⟩]
      exact hRenamed.memory id
  · intro id a hPid
    rw [remove_memory] at hPid
    split at hPid
    · rw [Agent.set_pid] at hPid
      cases hPid
    · next hStays =>
      rcases List.mem_map.mp (hRenamed.inside id a hPid) with
        ⟨n, hn, hAddr⟩
      apply List.mem_map.mpr
      refine ⟨n, ?_, hAddr⟩
      rw [mem_remove_nodes_iff]
      refine ⟨hn, fun hGoes => hStays ?_⟩
      rw [← hAddr] at hPid
      exact ⟨hTells id n hn hGoes hPid, n, hn, hGoes, hPid⟩

/- A poll finds every process that an agent is bound to. -/
theorem renamed_reload
    (hRenamed : Renamed ρ self other)
    {dir : ProcDir}
    (hSpares :
      ∀ id, ∀ n ∈ self.identifiers.nodes,
        (self.memory id).pid = some n.addr →
          n.val.pid ∈ snapshot dir) :
    ∃ σ, Renamed σ (self.reload A L dir)
      (other.reload B L dir) := by
  rw [reload_eq_reconcile, reload_eq_reconcile, reconcile_eq,
    reconcile_eq, hRenamed.pids]
  have hList :=
    hRenamed.identifiers.removeIf fun entry =>
      !searchPids (snapshot dir) entry
  apply renamed_foldl_insert (ρ := ρ)
  refine ⟨?_, hList, hRenamed.memory, ?_⟩
  · rw [hRenamed.rest]
    rfl
  · intro id a hPid
    rcases List.mem_map.mp (hRenamed.inside id a hPid) with
      ⟨n, hn, hAddr⟩
    apply List.mem_map.mpr
    refine ⟨n, ?_, hAddr⟩
    rw [mem_keepOnly_nodes_iff]
    rw [← hAddr] at hPid
    exact ⟨hn, hSpares id n hn hPid⟩

------------------------------------------------------------
-- Agents
------------------------------------------------------------

/- A change of one agent that is the same in both. -/
theorem renamed_modify
    (hRenamed : Renamed ρ self other)
    (agent : AgentId)
    {f g : Agent → Agent}
    (hSame :
      g ((self.memory agent).rename ρ) =
        (f (self.memory agent)).rename ρ)
    (hInside :
      ∀ a, (f (self.memory agent)).pid = some a →
        a ∈ self.identifiers.addrs) :
    Renamed ρ
      { self with
        memory := ObjectStore.modify agent f self.memory }
      { other with
        memory :=
          ObjectStore.modify agent g other.memory } := by
  refine ⟨?_, hRenamed.identifiers, ?_, ?_⟩
  · rw [hRenamed.rest]
  · intro id
    dsimp only
    by_cases hId : id = agent
    · rw [hId, ObjectStore.modify_same,
        ObjectStore.modify_same, hRenamed.memory, hSame]
    · rw [ObjectStore.modify_ne hId, ObjectStore.modify_ne hId]
      exact hRenamed.memory id
  · intro id a hPid
    dsimp only at hPid
    by_cases hId : id = agent
    · rw [hId, ObjectStore.modify_same] at hPid
      exact hInside a hPid
    · rw [ObjectStore.modify_ne hId] at hPid
      exact hRenamed.inside id a hPid

/- An agent is sent to an element, or to none. -/
theorem renamed_setAgent
    (hRenamed : Renamed ρ self other)
    (agent : AgentId)
    {pid : Option Addr}
    (hIn : ∀ a, pid = some a → a ∈ self.identifiers.addrs) :
    Renamed ρ (self.setAgent agent pid)
      (other.setAgent agent (pid.map ρ)) := by
  apply renamed_modify hRenamed
  · exact (Agent.rename_set
      (hRenamed.pid_inj agent hIn)).symm
  · intro a hPid
    rw [Agent.set_pid] at hPid
    exact hIn a hPid

theorem renamed_notify
    (hRenamed : Renamed ρ self other)
    (agent : AgentId) :
    Renamed ρ (self.notify agent) (other.notify agent) :=
  renamed_modify hRenamed agent rfl (hRenamed.inside agent)

theorem renamed_updateAgents
    (hRenamed : Renamed ρ self other) :
    Renamed ρ self.updateAgents other.updateAgents := by
  have hLoop :
      ∀ (ids : List AgentId) (self other : Controller),
        Renamed ρ self other →
          Renamed ρ
            { self with
              memory :=
                ObjectStore.forEach ids Agent.updated
                  self.memory }
            { other with
              memory :=
                ObjectStore.forEach ids Agent.updated
                  other.memory } := by
    intro ids
    induction ids with
    | nil => exact fun _ _ hRenamed => hRenamed
    | cons id ids ih =>
        exact fun _ _ hRenamed =>
          ih _ _ (renamed_notify hRenamed id)
  have hReports := hLoop self.agents self other hRenamed
  refine ⟨?_, hReports.identifiers, ?_, hReports.inside⟩
  · rw [hRenamed.rest]
    rfl
  · unfold updateAgents
    rw [hRenamed.agents]
    exact hReports.memory

theorem renamed_construct
    (hRenamed : Renamed ρ self other)
    (agent : AgentId)
    (kind : Kind) :
    Renamed ρ (self.construct agent kind)
      (other.construct agent kind) := by
  apply renamed_modify hRenamed agent
    (f := fun _ => { kind := kind })
    (g := fun _ => { kind := kind })
  · rfl
  · exact fun a hPid =>
      absurd hPid.symm (Option.some_ne_none a)

theorem renamed_removeAgent
    (hRenamed : Renamed ρ self other)
    (agent : AgentId) :
    Renamed ρ (self.removeAgent agent)
      (other.removeAgent agent) := by
  refine ⟨?_, hRenamed.identifiers, hRenamed.memory,
    hRenamed.inside⟩
  rw [hRenamed.rest]
  rfl

/- An agent recognises the same element first. -/
theorem Renamed.firstMatch
    (hRenamed : Renamed ρ self other)
    (agent : AgentId) :
    (other.firstMatch L agent).map Node.addr =
      ((self.firstMatch L agent).map Node.addr).map ρ := by
  have hProbe :
      ∀ ident, (other.memory agent).probeIdentifier L ident =
        (self.memory agent).probeIdentifier L ident :=
    fun _ => Agent.probe_of_kind_eq (hRenamed.kind agent) _
  have hFirst :=
    hRenamed.identifiers.find? fun ident =>
      (self.memory agent).probeIdentifier L ident
  unfold Controller.firstMatch
  simp only [hProbe]
  rw [hFirst, Option.map_map, Option.map_map]
  rfl

/- A search by number comes to the same element. -/
theorem Renamed.find
    (hRenamed : Renamed ρ self other)
    (pid : Pid) :
    other.find pid = (self.find pid).map ρ := by
  have hFirst :=
    hRenamed.identifiers.find? fun e => e.pid == pid
  unfold Controller.find
  rw [hFirst, Option.map_map, Option.map_map]
  rfl

theorem renamed_insertAgent
    (hRenamed : Renamed ρ self other)
    (agent : AgentId) :
    Renamed ρ (self.insertAgent L agent)
      (other.insertAgent L agent) := by
  have hLonger :
      Renamed ρ
        { self with agents := self.agents ++ [agent] }
        { other with agents := other.agents ++ [agent] } := by
    refine ⟨?_, hRenamed.identifiers, hRenamed.memory,
      hRenamed.inside⟩
    rw [hRenamed.rest]
  rw [insertAgent_eq, insertAgent_eq, hRenamed.firstMatch]
  cases hMatch : self.firstMatch L agent with
  | none => exact hLonger
  | some n =>
      apply renamed_setAgent hLonger agent
      intro a hSome
      rw [← Option.some.inj hSome]
      exact List.mem_map_of_mem (firstMatch_spec hMatch).1

theorem renamed_startAgent
    (hRenamed : Renamed ρ self other)
    (agent : AgentId) :
    Renamed ρ (self.startAgent L agent)
      (other.startAgent L agent) := by
  have hNext := renamed_insertAgent (L := L) hRenamed agent
  unfold startAgent
  dsimp only
  rw [hNext.isNone]
  split
  · exact renamed_notify hNext agent
  · exact hNext

theorem renamed_setPid
    (hRenamed : Renamed ρ self other)
    (agent : AgentId)
    (pid : Pid) :
    Renamed ρ (self.setPid agent pid)
      (other.setPid agent pid) := by
  unfold setPid
  split
  · apply renamed_setAgent hRenamed agent
    exact fun a hSome =>
      absurd hSome.symm (Option.some_ne_none a)
  · rw [hRenamed.find]
    apply renamed_setAgent hRenamed agent
    intro a hFind
    rcases find_spec hFind with ⟨n, hn, hAddr, _⟩
    rw [← hAddr]
    exact List.mem_map_of_mem hn

theorem renamed_refreshPidFile
    (hRenamed : Renamed ρ self other)
    (agent : AgentId)
    (file : Option CString) :
    Renamed ρ (self.refreshPidFile file agent)
      (other.refreshPidFile file agent) := by
  unfold refreshPidFile
  rw [hRenamed.isNone]
  split
  · cases file with
    | none => exact hRenamed
    | some text =>
        dsimp only
        split
        · exact renamed_setPid hRenamed agent _
        · exact hRenamed
  · exact hRenamed

theorem renamed_start
    (hRenamed : Renamed ρ self other)
    (agent : AgentId)
    (file : Option CString) :
    Renamed ρ (self.start L file agent)
      (other.start L file agent) := by
  unfold start
  rw [hRenamed.kind]
  split
  · exact renamed_startAgent hRenamed agent
  · exact renamed_refreshPidFile hRenamed agent file

theorem renamed_refreshAgent
    (hRenamed : Renamed ρ self other)
    (agent : AgentId)
    (file : Option CString) :
    Renamed ρ (self.refreshAgent file agent)
      (other.refreshAgent file agent) := by
  unfold refreshAgent
  rw [hRenamed.kind]
  split
  · exact hRenamed
  · exact renamed_refreshPidFile hRenamed agent file

------------------------------------------------------------
-- Samples
------------------------------------------------------------

/- New values at the addresses that were there before. -/
theorem Renamed.withIdentifiers
    (hRenamed : Renamed ρ self other)
    {l k : NodeList Identifier}
    (hLists : NodeList.Renamed ρ l k)
    (hAddrs : l.addrs = self.identifiers.addrs) :
    Renamed ρ { self with identifiers := l }
      { other with identifiers := k } := by
  refine ⟨?_, hLists, hRenamed.memory, ?_⟩
  · rw [hRenamed.rest]
  · intro id a hPid
    dsimp only at hPid ⊢
    rw [hAddrs]
    exact hRenamed.inside id a hPid

/- The state that an agent is asked for is kept in both. -/
theorem renamed_cacheState
    (hRenamed : Renamed ρ self other)
    (agent : AgentId)
    (file : StatFile) :
    Renamed ρ (World.cacheState agent file self)
      (World.cacheState agent file other) := by
  unfold World.cacheState agentState
  rw [hRenamed.pid]
  cases hPid : (self.memory agent).pid with
  | none => exact hRenamed
  | some a =>
      have ha := hRenamed.inside agent a hPid
      rcases List.mem_map.mp ha with ⟨n, hn, hAddr⟩
      have hHere : self.identifiers.lookup a = some n := by
        rw [← hAddr]
        exact NodeList.lookup_of_mem hn
      have hThere := hRenamed.identifiers.lookup ha
      rw [hHere] at hThere
      simp only [Option.map_some, hHere, hThere, Node.rename]
      cases n.val.getState file with
      | error e => exact hRenamed
      | ok out =>
          exact hRenamed.withIdentifiers
            (hRenamed.identifiers.update ha fun _ => out.2)
            (NodeList.addrs_update _ _ _)

/- Reads that depend on the process number only. -/
def Reader.Blind (read : Reader) : Prop :=
  ∀ a b pid, read a pid = read b pid

theorem Reader.Blind.visit
    {read : Reader}
    (hBlind : read.Blind) :
    NodeList.Blind (visit read) := by
  intro n σ
  unfold Controller.visit
  rw [hBlind (n.rename σ).addr n.addr]
  rfl

/- Both compute the same shares. -/
theorem renamed_updateUsageByPid
    (hRenamed : Renamed ρ self other)
    (sysusage : Usage)
    {entries : List (Addr × ℚ)}
    (hIn : ∀ entry ∈ entries,
      entry.1 ∈ self.identifiers.addrs) :
    Renamed ρ (self.updateUsageByPid sysusage entries)
      (other.updateUsageByPid sysusage
        (entries.map (Prod.map ρ id))) := by
  have hTotal :
      totalTime (entries.map (Prod.map ρ id)) =
        totalTime entries := by
    unfold totalTime
    rw [List.foldl_map]
    rfl
  have hShares :=
    hRenamed.identifiers.foldl_update
      (fun (ticks : ℚ) (info : Identifier) =>
        { info with
          cpu :=
            { info.cpu with
              percent :=
                sysusage.scale ticks (totalTime entries) } })
      hIn
  unfold updateUsageByPid
  dsimp only
  rw [hTotal]
  split
  · exact hRenamed.withIdentifiers hShares
      (addrs_setPercents _ _ _ _)
  · exact hRenamed

/- What an update changes beside the list is the same. -/
theorem Renamed.withSystem
    (hRenamed : Renamed ρ self other)
    (system : SystemUse) :
    Renamed ρ { self with system := system }
      { other with system := system } := by
  refine ⟨?_, hRenamed.identifiers, hRenamed.memory,
    hRenamed.inside⟩
  rw [hRenamed.rest]

theorem Renamed.push (hRenamed : Renamed ρ self other) :
    Renamed ρ { self with pushed := self.pushed + 1 }
      { other with pushed := other.pushed + 1 } := by
  refine ⟨?_, hRenamed.identifiers, hRenamed.memory,
    hRenamed.inside⟩
  rw [hRenamed.rest]

theorem renamed_refresh
    (hRenamed : Renamed ρ self other)
    (stat : SystemStat)
    {read : Reader}
    (hBlind : read.Blind) :
    Renamed ρ (self.refresh stat read)
      (other.refresh stat read) := by
  have hRest := hRenamed.rest
  generalize other.identifiers = k at hRest
  generalize other.memory = memory at hRest
  subst hRest
  have hPass :
      NodeList.sweepNodes (visit read) k.nodes =
        (NodeList.sweepNodes (visit read)
          self.identifiers.nodes).rename ρ := by
    have hNodes : k.nodes = _ := hRenamed.identifiers.nodes
    rw [hNodes]
    exact NodeList.sweepNodes_rename hBlind.visit ρ _
  have hCompleted :
      (NodeList.sweepNodes (visit read) k.nodes).completed =
        (NodeList.sweepNodes (visit read)
          self.identifiers.nodes).completed := by
    rw [hPass]
    rfl
  have hNext :=
    hRenamed.withSystem (systemAfter stat self.system)
  have hSwept :=
    hNext.withIdentifiers
      (hRenamed.identifiers.sweep hBlind.visit)
      (NodeList.addrs_sweep _ _)
  have hIn :
      ∀ entry ∈
          (NodeList.sweepNodes (visit read)
            self.identifiers.nodes).emitted,
        entry.1 ∈
          (self.identifiers.sweep (visit read)).addrs := by
    intro entry hMem
    rw [NodeList.addrs_sweep]
    exact (NodeList.emitted_addrs_sublist _ _).subset
      (List.mem_map_of_mem hMem)
  unfold refresh
  dsimp only
  rw [congrArg NodeList.Sweep.emitted hPass, hCompleted]
  split_ifs
  · exact (renamed_updateUsageByPid hSwept
      (systemUsage stat self.system) hIn).push
  · exact hSwept
  · exact hNext.push

end Controller

------------------------------------------------------------
-- Runs
------------------------------------------------------------

namespace World

variable {A B : Allocator} {ρ : Addr → Addr} {w w' : World}

/- The second world is the first with addresses renamed. -/
structure Renamed
    (ρ : Addr → Addr)
    (w w' : World) : Prop where
  links : w'.links = w.links
  ctrl : Controller.Renamed ρ w.ctrl w'.ctrl

/- Every agent that is bound to the process is registered. -/
def TellsBound (w : World) (pid : Pid) : Prop :=
  ∀ id, ∀ n ∈ w.ctrl.identifiers.nodes, n.val.pid = pid →
    w.BoundTo id n → id ∈ w.ctrl.agents

/- The listing has every process an agent is bound to. -/
def SparesBound (w : World) (dir : ProcDir) : Prop :=
  ∀ id, ∀ n ∈ w.ctrl.identifiers.nodes,
    w.BoundTo id n → n.val.pid ∈ snapshot dir

/-
  The operation leaves no agent at an element that is gone,
  and reads nothing that depends on addresses.
-/
def AddressFree (w : World) : Op → Prop
| .event (.exit pid _ _ _) => w.TellsBound pid
| .remove pid => w.TellsBound pid
| .reload dir => w.SparesBound dir
| .onTimer dir => w.ctrl.fd < 0 → w.SparesBound dir
| .refresh _ read => read.Blind
| _ => True

/- One step of two worlds with different allocators. -/
theorem renamed_operate
    {self other : Controller}
    {links : Links}
    (hRenamed : Controller.Renamed ρ self other)
    {op : Op}
    (hFree : (World.mk self links).AddressFree op) :
    ∃ σ, Controller.Renamed σ (operate A links self op)
      (operate B links other op) := by
  cases op with
  | links _ => exact ⟨ρ, hRenamed⟩
  | event ev =>
      cases ev with
      | exec pid _ =>
          exact ⟨_, Controller.renamed_insert hRenamed pid⟩
      | exit pid _ _ _ =>
          exact ⟨ρ, Controller.renamed_remove hRenamed hFree⟩
      | fork _ _ _ _ => exact ⟨ρ, hRenamed⟩
      | other _ _ => exact ⟨ρ, hRenamed⟩
  | insert pid =>
      exact ⟨_, Controller.renamed_insert hRenamed pid⟩
  | remove pid =>
      exact ⟨ρ, Controller.renamed_remove hRenamed hFree⟩
  | construct agent kind =>
      exact ⟨ρ, Controller.renamed_construct hRenamed agent
        kind⟩
  | insertAgent agent =>
      exact ⟨ρ, Controller.renamed_insertAgent hRenamed agent⟩
  | removeAgent agent =>
      exact ⟨ρ, Controller.renamed_removeAgent hRenamed agent⟩
  | start agent file =>
      exact ⟨ρ, Controller.renamed_start hRenamed agent file⟩
  | refreshAgent agent file =>
      exact ⟨ρ, Controller.renamed_refreshAgent hRenamed agent
        file⟩
  | reload dir =>
      exact Controller.renamed_reload hRenamed hFree
  | onTimer dir =>
      have hFd : other.fd = self.fd := by
        rw [hRenamed.rest]
      change ∃ σ, Controller.Renamed σ
        (self.onTimer A links dir) (other.onTimer B links dir)
      unfold Controller.onTimer
      rw [hFd]
      split
      · next hPolls =>
        exact Controller.renamed_reload hRenamed (hFree hPolls)
      · exact ⟨ρ, hRenamed⟩
  | refresh stat read =>
      exact ⟨ρ, Controller.renamed_refresh hRenamed stat hFree⟩
  | updateAgents =>
      exact ⟨ρ, Controller.renamed_updateAgents hRenamed⟩
  | getState agent file =>
      exact ⟨ρ, Controller.renamed_cacheState hRenamed agent
        file⟩

theorem renamed_step
    (hRenamed : Renamed ρ w w')
    {op : Op}
    (hFree : w.AddressFree op) :
    ∃ σ, Renamed σ (w.step A op) (w'.step B op) := by
  rcases renamed_operate (A := A) (B := B) hRenamed.ctrl
      hFree with ⟨σ, hCtrl⟩
  refine ⟨σ, ?_, ?_⟩
  · change linksAfter w'.links op = linksAfter w.links op
    rw [hRenamed.links]
  · change Controller.Renamed σ (operate A w.links w.ctrl op)
      (operate B w'.links w'.ctrl op)
    rw [hRenamed.links]
    exact hCtrl

variable {links : Links} {memory : Memory} {dir : ProcDir}
variable {fd : Int} {cpuUsePerProcess : Bool}
variable {stat : Controller.SystemStat}
variable {ctrl ctrl' : Controller}

/- The constructor loads the same processes. -/
theorem renamed_create
    (hMemory : ∀ id, (memory id).pid = none)
    (hCreate :
      Controller.create A links memory dir fd
        cpuUsePerProcess stat = .ok ctrl)
    (hCreate' :
      Controller.create B links memory dir fd
        cpuUsePerProcess stat = .ok ctrl') :
    ∃ ρ, Controller.Renamed ρ ctrl ctrl' := by
  unfold Controller.create at hCreate hCreate'
  cases hLoad : load dir with
  | error e => simp [hLoad] at hCreate
  | ok pids =>
      rw [hLoad] at hCreate hCreate'
      let new : Controller :=
        { identifiers := .empty
          agents := []
          memory := memory
          fd := -1 }
      have hNew : Controller.Renamed id new new := by
        refine ⟨rfl, NodeList.Renamed.refl _, ?_, ?_⟩
        · exact fun id => (Agent.rename_id _).symm
        · exact fun id a hPid =>
            absurd (hPid.symm.trans (hMemory id))
              (Option.some_ne_none a)
      rcases Controller.renamed_foldl_insert (A := A) (B := B)
          (L := links) pids hNew with ⟨σ, hLoaded⟩
      rw [← Except.ok.inj hCreate, ← Except.ok.inj hCreate']
      refine ⟨σ, ?_, hLoaded.identifiers, hLoaded.memory,
        hLoaded.inside⟩
      dsimp only
      rw [hLoaded.rest]

/-
  Where the elements are makes no difference to anyone.
  Whatever the two allocators hand out, the runs end in the
  same identifiers in the same order, with their states and
  accounts, and the same agents, at the same elements.
-/
theorem same_of_allocators
    {ops : List Op}
    (hMemory : ∀ id, (memory id).pid = none)
    (hCreate :
      Controller.create A links memory dir fd
        cpuUsePerProcess stat = .ok ctrl)
    (hCreate' :
      Controller.create B links memory dir fd
        cpuUsePerProcess stat = .ok ctrl')
    (hFree :
      Runs.Along (step A) AddressFree ⟨ctrl, links⟩ ops) :
    ∃ ρ, Renamed ρ (Runs.after (step A) ⟨ctrl, links⟩ ops)
      (Runs.after (step B) ⟨ctrl', links⟩ ops) := by
  rcases renamed_create hMemory hCreate hCreate' with
    ⟨ρ, hCtrl⟩
  have hStep :
      ∀ (w' w : World) (op : Op),
        (∃ ρ, Renamed ρ w w') → w.AddressFree op →
          ∃ σ, Renamed σ (w.step A op) (w'.step B op) :=
    fun _ _ _ ⟨_, hRenamed⟩ hFree =>
      renamed_step hRenamed hFree
  exact Runs.related_of_along hStep ⟨ρ, rfl, hCtrl⟩ hFree

/- An agent is bound while its process execs and exits. -/
def sampledRun : List Op :=
  [.insertAgent 1, .event (.exec 5 5),
    .refresh ⟨1, 1⟩ fun _ _ =>
      .present { state := State.sleeping, utime := 3 },
    .event (.exit 5 5 0 17), .insert 6, .updateAgents]

theorem addressFree_sampledRun (A : Allocator) :
    Runs.Along (step A) AddressFree
      ⟨watched A, fun _ => none⟩ sampledRun := by
  let v : World := ⟨watched A, fun _ => none⟩
  let w : World := v.step A (.insertAgent 1)
  have hNew : ∀ id, id ∉ v.ctrl.agents → v.Unbound id :=
    fun _ _ => rfl
  have hRegistered : ∀ id, id ∉ w.ctrl.agents → w.Unbound id :=
    unbound_insertAgent hNew 1
  have hExec :
      ∀ id, id ∉ (w.step A (.event (.exec 5 5))).ctrl.agents →
        (w.step A (.event (.exec 5 5))).Unbound id :=
    unbound_insert hRegistered 5
  refine ⟨trivial, trivial, fun _ _ _ => rfl, ?_, trivial,
    trivial, trivial⟩
  intro id n _ _ hBound
  by_contra hNot
  exact not_unbound_of_boundTo hBound
    (unbound_refresh hExec _ _ id hNot)

theorem same_of_allocators_sample :
    ∃ ρ,
      Renamed ρ
        (Runs.after (step (.above []))
          ⟨watched (.above []), fun _ => none⟩ sampledRun)
        (Runs.after (step (.above [7]))
          ⟨watched (.above [7]), fun _ => none⟩ sampledRun) :=
  same_of_allocators (fun _ => rfl) (create_watched (.above []))
    (create_watched (.above [7]))
    (addressFree_sampledRun (.above []))

end World

end UdjatProcess
