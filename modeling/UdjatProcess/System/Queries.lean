import UdjatProcess.Library.Pointwise
import UdjatProcess.System.World
import UdjatProcess.Usage.Update

/-
  Asking agents for the state of their process
  (`Agent::getState` in `agent/abstract.cc` and
  `Identifier::getState` in `pid/identifier.cc`).

  A state that has not been read is read when an agent is
  asked for it, and kept in the list. Nothing else comes of
  it: a run in which agents are asked at any time follows
  the run without the questions in everything but these
  states, and after the next complete update in them too.
  A question that gets no answer, as its file cannot be read,
  ends the program and its run: no step follows it.

  Key definitions include:
    * `Identifier.Asked`
    * `Controller.Asked`
    * `World.silent`

  Key theorems include:
    * `Controller.asked_cacheState`
    * `Controller.refresh_eq_of_asked`
    * `World.asked_step`
    * `World.queries_unseen`
-/

namespace UdjatProcess

------------------------------------------------------------
-- Identifiers
------------------------------------------------------------

/-
  The same process and the same account. The state may have
  been read where it was not.
-/
structure Identifier.Asked (x y : Identifier) : Prop where
  pid : y.pid = x.pid
  cpu : y.cpu = x.cpu
  state : y.state = x.state ∨ x.state = State.unread

namespace Identifier

theorem Asked.refl (x : Identifier) : x.Asked x :=
  ⟨rfl, rfl, Or.inl rfl⟩

/- Setting a state forgets the one before. -/
theorem set_eq
    (state : State)
    (self : Identifier) :
    self.set state = { self with state := state } := by
  unfold set
  split
  · next hSame => rw [hSame]
  · rfl

/- So does reading the file in an update. -/
theorem Asked.sample_eq
    {x y : Identifier}
    (hAsked : x.Asked y)
    (stat : Stat) :
    y.sample stat = x.sample stat := by
  have hSet : y.set stat.state = x.set stat.state := by
    rw [set_eq, set_eq]
    cases x
    cases y
    cases hAsked.pid
    cases hAsked.cpu
    rfl
  unfold sample
  rw [hSet]

/- Asking changes nothing but a state that was not read. -/
theorem Asked.getState
    {x y z : Identifier}
    {file : StatFile}
    {state : State}
    (hAsked : x.Asked y)
    (hOk : y.getState file = .ok (state, z)) :
    x.Asked z := by
  have hKeeps := getState_keeps hOk
  refine ⟨hKeeps.1.trans hAsked.pid,
    hKeeps.2.1.trans hAsked.cpu, ?_⟩
  by_cases hUnread : y.state = State.unread
  · rcases hAsked.state with hSame | hNever
    · exact Or.inr (hSame.symm.trans hUnread)
    · exact Or.inr hNever
  · unfold Identifier.getState at hOk
    rw [if_neg hUnread] at hOk
    have hSame : y = z :=
      congrArg Prod.snd (Except.ok.inj hOk)
    rw [← hSame]
    exact hAsked.state

end Identifier

------------------------------------------------------------
-- Controllers
------------------------------------------------------------

namespace Controller

/- The controller with another list of processes. -/
def withIdentifiers
    (identifiers : NodeList Identifier)
    (self : Controller) : Controller :=
  { self with identifiers := identifiers }

/- The two differ in states that were asked for only. -/
structure Asked (ctrl other : Controller) : Prop where
  rest : other = ctrl.withIdentifiers other.identifiers
  related :
    NodeList.Related Identifier.Asked ctrl.identifiers
      other.identifiers

variable {A : Allocator} {L : Links}
variable {self other : Controller}

theorem Asked.refl (self : Controller) : self.Asked self :=
  ⟨rfl, NodeList.Related.refl Identifier.Asked.refl _⟩

theorem Asked.pids
    (hAsked : self.Asked other) :
    other.pids = self.pids :=
  NodeList.map_eq_of_forall₂
    (fun _ _ hNode => hNode.2.pid) hAsked.related.nodes

theorem asked_insert
    (hAsked : self.Asked other)
    (pid : Pid) :
    (self.insert A L pid).Asked (other.insert A L pid) := by
  refine ⟨?_, hAsked.related.emplaceBack A
    (Identifier.Asked.refl _)⟩
  unfold insert onInsert
  dsimp only
  rw [hAsked.related.fresh A, hAsked.rest]
  rfl

theorem asked_foldl_insert
    (pids : List Pid)
    (hAsked : self.Asked other) :
    (pids.foldl (fun ctrl pid => ctrl.insert A L pid)
        self).Asked
      (pids.foldl (fun ctrl pid => ctrl.insert A L pid)
        other) := by
  induction pids generalizing self other with
  | nil => exact hAsked
  | cons pid pids ih => exact ih (asked_insert hAsked pid)

/- The same agents are unbound when a process goes. -/
theorem unbindRemoved_eq
    (agents : List AgentId)
    (pid : Pid)
    {ns ms : List (Node Identifier)}
    (hNodes :
      List.Forall₂ (NodeList.SameNode Identifier.Asked) ns ms)
    (memory : Memory) :
    unbindRemoved agents pid ms memory =
      unbindRemoved agents pid ns memory := by
  induction hNodes generalizing memory with
  | nil => rfl
  | cons hHead _ ih =>
      unfold unbindRemoved
      rw [hHead.1, hHead.2.pid, ih]

theorem asked_remove
    (hAsked : self.Asked other)
    (pid : Pid) :
    (self.remove pid).Asked (other.remove pid) := by
  have hGoes :
      ∀ x y : Identifier, x.Asked y →
        (y.pid == pid) = (x.pid == pid) := by
    intro x y hSame
    rw [hSame.pid]
  refine ⟨?_, hAsked.related.removeIf hGoes⟩
  unfold remove
  rw [unbindRemoved_eq other.agents pid hAsked.related.nodes,
    hAsked.rest]
  rfl

theorem asked_reload
    (hAsked : self.Asked other)
    (dir : ProcDir) :
    (self.reload A L dir).Asked (other.reload A L dir) := by
  rw [reload_eq_reconcile, reload_eq_reconcile, reconcile_eq,
    reconcile_eq, hAsked.pids]
  have hGoes :
      ∀ x y : Identifier, x.Asked y →
        (!searchPids (snapshot dir) y) =
          !searchPids (snapshot dir) x := by
    intro x y hSame
    unfold searchPids
    rw [hSame.pid]
  apply asked_foldl_insert
  refine ⟨?_, hAsked.related.removeIf hGoes⟩
  rw [hAsked.rest]
  rfl

theorem asked_setAgent
    (hAsked : self.Asked other)
    (agent : AgentId)
    (pid : Option Addr) :
    (self.setAgent agent pid).Asked
      (other.setAgent agent pid) := by
  refine ⟨?_, hAsked.related⟩
  rw [hAsked.rest]
  rfl

theorem asked_notify
    (hAsked : self.Asked other)
    (agent : AgentId) :
    (self.notify agent).Asked (other.notify agent) := by
  refine ⟨?_, hAsked.related⟩
  rw [hAsked.rest]
  rfl

theorem Asked.memory (hAsked : self.Asked other) :
    other.memory = self.memory := by
  rw [hAsked.rest]
  rfl

theorem Asked.find
    (hAsked : self.Asked other)
    (pid : Pid) :
    other.find pid = self.find pid :=
  NodeList.find?_of_forall₂
    (fun _ _ hNode => by rw [hNode.2.pid])
    hAsked.related.nodes

/- An agent recognises the same process first. -/
theorem Asked.firstMatch
    (hAsked : self.Asked other)
    (agent : AgentId) :
    (other.firstMatch L agent).map Node.addr =
      (self.firstMatch L agent).map Node.addr := by
  unfold Controller.firstMatch
  rw [hAsked.memory]
  apply NodeList.find?_of_forall₂ _ hAsked.related.nodes
  intro n m hNode
  unfold Agent.probeIdentifier
  rw [hNode.2.pid]

theorem asked_insertAgent
    (hAsked : self.Asked other)
    (agent : AgentId) :
    (self.insertAgent L agent).Asked
      (other.insertAgent L agent) := by
  have hLonger :
      Asked { self with agents := self.agents ++ [agent] }
        { other with agents := other.agents ++ [agent] } := by
    refine ⟨?_, hAsked.related⟩
    rw [hAsked.rest]
    rfl
  rw [insertAgent_eq, insertAgent_eq, hAsked.firstMatch]
  split
  · exact asked_setAgent hLonger agent _
  · exact hLonger

theorem asked_startAgent
    (hAsked : self.Asked other)
    (agent : AgentId) :
    (self.startAgent L agent).Asked
      (other.startAgent L agent) := by
  have hNext := asked_insertAgent (L := L) hAsked agent
  unfold startAgent
  dsimp only
  rw [hNext.memory]
  split
  · exact asked_notify hNext agent
  · exact hNext

theorem asked_refreshPidFile
    (hAsked : self.Asked other)
    (agent : AgentId)
    (file : Option CString) :
    (self.refreshPidFile file agent).Asked
      (other.refreshPidFile file agent) := by
  unfold refreshPidFile
  rw [hAsked.memory]
  split
  · cases file with
    | none => exact hAsked
    | some text =>
        dsimp only
        split
        · unfold setPid
          rw [hAsked.find]
          split
          · exact asked_setAgent hAsked agent none
          · exact asked_setAgent hAsked agent _
        · exact hAsked
  · exact hAsked

theorem asked_start
    (hAsked : self.Asked other)
    (agent : AgentId)
    (file : Option CString) :
    (self.start L file agent).Asked
      (other.start L file agent) := by
  unfold start
  rw [hAsked.memory]
  split
  · exact asked_startAgent hAsked agent
  · exact asked_refreshPidFile hAsked agent file

theorem asked_refreshAgent
    (hAsked : self.Asked other)
    (agent : AgentId)
    (file : Option CString) :
    (self.refreshAgent file agent).Asked
      (other.refreshAgent file agent) := by
  unfold refreshAgent
  rw [hAsked.memory]
  split
  · exact hAsked
  · exact asked_refreshPidFile hAsked agent file

theorem asked_updateAgents (hAsked : self.Asked other) :
    self.updateAgents.Asked other.updateAgents := by
  refine ⟨?_, hAsked.related⟩
  rw [hAsked.rest]
  rfl

/- A state that an agent is asked for is in the second only. -/
theorem asked_cacheState
    (hAsked : self.Asked other)
    (agent : AgentId)
    (file : StatFile) :
    self.Asked (World.cacheState agent file other) := by
  unfold World.cacheState
  split
  · next state ctrl hOk =>
    rcases agentState_ok_cases hOk with
      ⟨_, _, hSame⟩ | ⟨n, hn, identifier, _, hGet, hNew⟩
    · rw [hSame]
      exact hAsked
    · rw [hNew]
      refine ⟨?_, hAsked.related.replace hn
        fun _ hOld => hOld.getState hGet⟩
      rw [hAsked.rest]
      rfl
  · exact hAsked

------------------------------------------------------------
-- Updates
------------------------------------------------------------

/- An update reads the same file with the same outcome. -/
theorem visit_eq
    (read : Reader)
    (n m : Node Identifier)
    (hNode : NodeList.SameNode Identifier.Asked n m) :
    visit read m = visit read n := by
  unfold visit
  rw [hNode.1, hNode.2.pid]
  split
  · rfl
  · rw [hNode.2.sample_eq]

/- The second pass changes shares only. -/
theorem related_setPercents
    {l k : NodeList Identifier}
    (hRelated : NodeList.Related Identifier.Asked l k)
    (sysusage : Usage)
    (total : ℚ)
    (entries : List (Addr × ℚ)) :
    NodeList.Related Identifier.Asked
      (setPercents sysusage total entries l)
      (setPercents sysusage total entries k) := by
  unfold setPercents
  induction entries generalizing l k with
  | nil => exact hRelated
  | cons entry entries ih =>
      apply ih
      apply hRelated.update
      intro x y hSame
      exact ⟨hSame.pid, by rw [hSame.cpu], hSame.state⟩

/- So does the first pass, of the states that it reads. -/
theorem related_sweep
    {l k : NodeList Identifier}
    (hRelated : NodeList.Related Identifier.Asked l k)
    (read : Reader) :
    NodeList.Related Identifier.Asked (l.sweep (visit read))
      (k.sweep (visit read)) :=
  ⟨hRelated.allocs,
    (NodeList.related_sweepNodes Identifier.Asked.refl
      (visit_eq read) hRelated.nodes).1⟩

theorem asked_refresh
    (hAsked : self.Asked other)
    (stat : SystemStat)
    (read : Reader) :
    (self.refresh stat read).Asked
      (other.refresh stat read) := by
  rcases hAsked with ⟨hRest, hRelated⟩
  generalize other.identifiers = k at hRest hRelated
  subst hRest
  rcases NodeList.related_sweepNodes Identifier.Asked.refl
      (visit_eq read) hRelated.nodes with
    ⟨_, hEmitted, hCompleted, _⟩
  have hSweep := related_sweep hRelated read
  unfold refresh updateUsageByPid withIdentifiers
  dsimp only
  rw [hEmitted, hCompleted]
  split_ifs
  · exact ⟨rfl, related_setPercents hSweep _ _ _⟩
  · exact ⟨rfl, hSweep⟩
  · exact ⟨rfl, hSweep⟩
  · exact ⟨rfl, hRelated⟩

/- A complete update leaves no difference. -/
theorem refresh_eq_of_asked
    (hAsked : self.Asked other)
    {read : Reader}
    (hUse : self.cpuUsePerProcess = true)
    (hReads : self.Completes read)
    (stat : SystemStat) :
    other.refresh stat read = self.refresh stat read := by
  rcases hAsked with ⟨hRest, hRelated⟩
  generalize other.identifiers = k at hRest hRelated
  subst hRest
  rcases NodeList.related_sweepNodes Identifier.Asked.refl
      (visit_eq read) hRelated.nodes with
    ⟨_, hEmitted, hCompleted, hEqual⟩
  have hSweep :
      k.sweep (visit read) =
        self.identifiers.sweep (visit read) :=
    NodeList.ext_nodes
      (hEqual ((completed_iff read self).mpr hReads))
      hRelated.allocs
  unfold refresh withIdentifiers
  dsimp only
  rw [hEmitted, hCompleted, hSweep, if_pos hUse, if_pos hUse]

end Controller

------------------------------------------------------------
-- Runs
------------------------------------------------------------

/- An agent is asked for the state of its process. -/
def Op.isQuery : Op → Bool
| .getState _ _ => true
| _ => false

namespace World

/- The two differ in states that were asked for only. -/
structure Asked (w w' : World) : Prop where
  links : w'.links = w.links
  ctrl : w.ctrl.Asked w'.ctrl

/- A step of the world in which no agent is asked. -/
def silent
    (A : Allocator)
    (w : World)
    (op : Op) : World :=
  if op.isQuery then w else w.step A op

theorem after_silent
    (A : Allocator)
    (w : World)
    (ops : List Op) :
    Runs.after (silent A) w ops =
      Runs.after (step A) w
        (ops.filter fun op => !op.isQuery) := by
  induction ops generalizing w with
  | nil => rfl
  | cons op ops ih =>
      rw [Runs.after_cons, ih, silent]
      cases hQuery : op.isQuery with
      | true => simp [hQuery]
      | false => simp [hQuery]

theorem asked_operate
    {A : Allocator}
    {links : Links}
    {ctrl other : Controller}
    (hAsked : ctrl.Asked other)
    {op : Op}
    (hNot : op.isQuery = false) :
    (operate A links ctrl op).Asked
      (operate A links other op) := by
  cases op with
  | links _ => exact hAsked
  | event ev =>
      cases ev with
      | exec pid _ => exact Controller.asked_insert hAsked pid
      | exit pid _ _ _ =>
          exact Controller.asked_remove hAsked pid
      | fork _ _ _ _ => exact hAsked
      | other _ _ => exact hAsked
  | insert pid => exact Controller.asked_insert hAsked pid
  | remove pid => exact Controller.asked_remove hAsked pid
  | construct agent kind =>
      refine ⟨?_, hAsked.related⟩
      change other.construct agent kind = _
      rw [hAsked.rest]
      rfl
  | insertAgent agent =>
      exact Controller.asked_insertAgent hAsked agent
  | removeAgent agent =>
      refine ⟨?_, hAsked.related⟩
      change other.removeAgent agent = _
      rw [hAsked.rest]
      rfl
  | start agent file =>
      exact Controller.asked_start hAsked agent file
  | refreshAgent agent file =>
      exact Controller.asked_refreshAgent hAsked agent file
  | reload dir => exact Controller.asked_reload hAsked dir
  | onTimer dir =>
      have hFd : other.fd = ctrl.fd := by
        rw [hAsked.rest]
        rfl
      change (ctrl.onTimer A links dir).Asked
        (other.onTimer A links dir)
      unfold Controller.onTimer
      rw [hFd]
      split
      · exact Controller.asked_reload hAsked dir
      · exact hAsked
  | refresh stat read =>
      exact Controller.asked_refresh hAsked stat read
  | updateAgents => exact Controller.asked_updateAgents hAsked
  | getState agent file => cases hNot

/- A question is no step of the silent world. -/
theorem asked_step
    (A : Allocator)
    (w w' : World)
    (op : Op)
    (hAsked : w.Asked w') :
    (w.silent A op).Asked (w'.step A op) := by
  cases hQuery : op.isQuery with
  | true =>
      cases op with
      | getState agent file =>
          exact ⟨hAsked.links,
            Controller.asked_cacheState hAsked.ctrl agent
              file⟩
      | _ => cases hQuery
  | false =>
      have hStep : w.silent A op = w.step A op :=
        if_neg (by rw [hQuery]; exact Bool.false_ne_true)
      rw [hStep]
      refine ⟨?_, ?_⟩
      · change linksAfter w'.links op = linksAfter w.links op
        rw [hAsked.links]
      · change Controller.Asked _ (operate A w'.links _ op)
        rw [hAsked.links]
        exact asked_operate hAsked.ctrl hQuery

/-
  Agents that are asked for the state of their process, at
  any time and as often as one likes, disturb nothing as
  long as they answer. The run without the questions has the
  same processes at the same addresses, with the same
  shares, and the same agents. Only states that it has not
  read may be there, and the next complete update makes the
  two worlds equal.
-/
theorem queries_unseen
    (A : Allocator)
    (w : World)
    (ops : List Op) :
    let asked := Runs.after (step A) w ops
    let unasked :=
      Runs.after (step A) w
        (ops.filter fun op => !op.isQuery)
    unasked.Asked asked ∧
      ∀ stat read, unasked.ctrl.cpuUsePerProcess = true →
        unasked.ctrl.Completes read →
          asked.step A (.refresh stat read) =
            unasked.step A (.refresh stat read) := by
  intro asked unasked
  have hStart : w.Asked w := ⟨rfl, Controller.Asked.refl w.ctrl⟩
  have hAsked : unasked.Asked asked := by
    have hRelated :=
      Runs.related_of_along
        (fun v v' op hSame (_ : True) =>
          asked_step A v v' op hSame) hStart
        (Runs.along_of_forall (fun _ _ => trivial) w ops)
    rw [after_silent] at hRelated
    exact hRelated
  refine ⟨hAsked, fun stat read hUse hReads => ?_⟩
  have hCtrl :=
    Controller.refresh_eq_of_asked hAsked.ctrl hUse hReads stat
  change
    (⟨asked.ctrl.refresh stat read, asked.links⟩ : World) =
      ⟨unasked.ctrl.refresh stat read, unasked.links⟩
  rw [hCtrl, hAsked.links]

end World

end UdjatProcess
