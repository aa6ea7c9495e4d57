import UdjatProcess.System.World

/-
  Pointers of agents that follow a pid file
  (`agent/pidfile.cc`).

  Such an agent gets its pointer from `Controller::find`,
  and its `start` does not register it with the controller,
  so the walk over the agents in `Controller::remove` never
  reaches it. Its pointer stays good exactly as long as no
  process that it is bound to goes away.

  Key definitions include:
    * `World.PidFileRun`
    * `World.PidFilesAnchored`
    * `World.SparesPidFiles`

  Key theorems include:
    * `World.pidFilesAnchored_iff`
    * `World.pidFile_dangles`
-/

------------------------------------------------------------
-- Runs Of Pid File Agents
------------------------------------------------------------

namespace UdjatProcess

namespace World

variable {A : Allocator}

/- Processes come and go, agents start and refresh. -/
def PidFileRun (_w : World) : Op → Prop
| .links _ => True
| .insert _ => True
| .remove _ => True
| .start _ _ => True
| .refreshAgent _ _ => True
| _ => False

/- No pointer of an agent with a pid file dangles. -/
def PidFilesAnchored (w : World) : Prop :=
  ∀ id, w.IsPidFile id → w.Anchored id

/-
  A process is removed only while no agent with a pid file
  is bound to it.
-/
def SparesPidFiles (w : World) (op : Op) : Prop :=
  ∀ pid, op = .remove pid →
    ∀ id, w.IsPidFile id →
      ∀ n ∈ w.ctrl.identifiers.nodes,
        n.val.pid = pid → ¬ w.BoundTo id n

/- The controller has no agent with a pid file. -/
def NoPidFileRegistered (w : World) : Prop :=
  ∀ id ∈ w.ctrl.agents, ¬ w.IsPidFile id

/- What one step of such a run does to the controller. -/
inductive PidFileStep
    (A : Allocator)
    (w : World) : Op → Controller → Prop where
| same {op} (hOp : ∀ pid, op ≠ .remove pid) :
    PidFileStep A w op w.ctrl
| insert (pid : Pid) :
    PidFileStep A w (.insert pid)
      (w.ctrl.insert A w.links pid)
| remove (pid : Pid) :
    PidFileStep A w (.remove pid) (w.ctrl.remove pid)
| set {op} (hOp : ∀ pid, op ≠ .remove pid)
    (agent : AgentId) (pid : Option Addr)
    (hPid : pid = none ∨ ∃ p, pid = w.ctrl.find p) :
    PidFileStep A w op (w.ctrl.setAgent agent pid)
| start {op} (hOp : ∀ pid, op ≠ .remove pid)
    (agent : AgentId) (hKind : w.IsExeName agent) :
    PidFileStep A w op (w.ctrl.startAgent w.links agent)

theorem pidFileStep_refreshPidFile
    {w : World}
    {op : Op}
    (hOp : ∀ pid, op ≠ .remove pid)
    (file : Option CString)
    (agent : AgentId) :
    PidFileStep A w op
      (w.ctrl.refreshPidFile file agent) := by
  rcases Controller.refreshPidFile_cases file agent
      w.ctrl with hEq | ⟨pid, hPid, hEq⟩
  · rw [hEq]
    exact .same hOp
  · rw [hEq]
    exact .set hOp agent pid hPid

/- Every step of such a run is one of these. -/
theorem pidFileStep_of_run
    {w : World}
    {op : Op}
    (hLegal : w.PidFileRun op) :
    PidFileStep A w op (w.step A op).ctrl := by
  cases op with
  | links links => exact .same (by intro _ hOp; cases hOp)
  | insert pid => exact .insert pid
  | remove pid => exact .remove pid
  | start agent file =>
      have hOp : ∀ pid, Op.start agent file ≠ .remove pid := by
        intro _ hOp
        cases hOp
      rcases Controller.start_cases (L := w.links) file
          agent w.ctrl with ⟨hKind, hEq⟩ | hEq
      · change PidFileStep A w _
          (w.ctrl.start w.links file agent)
        rw [hEq]
        exact .start hOp agent hKind
      · change PidFileStep A w _
          (w.ctrl.start w.links file agent)
        rw [hEq]
        exact pidFileStep_refreshPidFile hOp file agent
  | refreshAgent agent file =>
      have hOp :
          ∀ pid, Op.refreshAgent agent file ≠ .remove pid := by
        intro _ hOp
        cases hOp
      change PidFileStep A w _
        (w.ctrl.refreshAgent file agent)
      rcases Controller.refreshAgent_cases file agent
          w.ctrl with hEq | hEq
      · rw [hEq]
        exact .same hOp
      · rw [hEq]
        exact pidFileStep_refreshPidFile hOp file agent
  | _ => cases hLegal

/- No step changes the kind of an agent. -/
theorem PidFileStep.kind
    {w : World}
    {op : Op}
    {ctrl : Controller}
    (hStep : PidFileStep A w op ctrl)
    (id : AgentId) :
    (ctrl.memory id).kind = (w.ctrl.memory id).kind := by
  cases hStep with
  | same _ => rfl
  | insert pid =>
      exact Controller.insert_memory_kind pid w.ctrl id
  | remove pid =>
      exact Controller.remove_memory_kind pid w.ctrl id
  | set _ agent pid _ =>
      by_cases hId : id = agent
      · subst hId
        rw [Controller.setAgent_memory_same]
        exact Agent.set_kind _ _
      · rw [Controller.setAgent_memory_ne hId]
  | start _ agent _ =>
      exact (Controller.startAgent_memory agent id w.ctrl).1

/- Only agents that watch by name are ever registered. -/
theorem noPidFileRegistered_step
    (w : World)
    (op : Op)
    (hInv : w.NoPidFileRegistered)
    (hLegal : w.PidFileRun op) :
    (w.step A op).NoPidFileRegistered := by
  have hStep := pidFileStep_of_run (A := A) hLegal
  intro id hMem
  rw [isPidFile_of_kind_eq (hStep.kind id)]
  generalize (w.step A op).ctrl = ctrl at hStep hMem
  cases hStep with
  | same _ => exact hInv id hMem
  | insert pid => exact hInv id hMem
  | remove pid => exact hInv id hMem
  | set _ agent pid _ => exact hInv id hMem
  | start _ agent hKind =>
      rw [(Controller.startAgent_keeps agent w.ctrl).1] at hMem
      rcases List.mem_append.mp hMem with hOld | hNew
      · exact hInv id hOld
      · rw [List.mem_singleton.mp hNew]
        rintro ⟨pidfile, hPidFile⟩
        rcases hKind with ⟨exename, hExeName⟩
        rw [hExeName] at hPidFile
        cases hPidFile

------------------------------------------------------------
-- When Pointers Stay Good
------------------------------------------------------------

/-
  A removal keeps the pointers of agents with a pid file
  good exactly when it spares their processes.
-/
theorem pidFilesAnchored_remove_iff
    {w : World}
    (hInv : w.NoPidFileRegistered)
    (hProp : w.PidFilesAnchored)
    (pid : Pid) :
    (w.step A (.remove pid)).PidFilesAnchored ↔
      w.SparesPidFiles (.remove pid) := by
  have hKind :
      ∀ id, (w.step A (.remove pid)).IsPidFile id ↔
        w.IsPidFile id := by
    intro id
    apply isPidFile_of_kind_eq
    exact Controller.remove_memory_kind pid w.ctrl id
  have hSame : ∀ id, w.IsPidFile id →
      (w.ctrl.remove pid).memory id = w.ctrl.memory id :=
    fun id hId =>
      Controller.remove_memory_of_not_mem
        (fun hMem => hInv id hMem hId) pid
  constructor
  · intro hAfter removed hOp id hId n hn hPid hBound
    cases hOp
    have hBound' :
        (w.step A (.remove pid)).BoundTo id n :=
      (congrArg Agent.pid (hSame id hId)).trans hBound
    rcases hAfter id ((hKind id).mpr hId) with
      hUnbound | ⟨m, hm, hBoundM⟩
    · exact not_unbound_of_boundTo hBound' hUnbound
    · rcases (Controller.mem_remove_nodes_iff pid w.ctrl
        m).mp hm with ⟨hOld, hNe⟩
      have hBoundM' : w.BoundTo id m :=
        (congrArg Agent.pid (hSame id hId)).symm.trans hBoundM
      have hEq : n = m := eq_of_boundTo hn hOld hBound hBoundM'
      exact hNe (hEq ▸ hPid)
  · intro hSpares id hId
    have hOld : w.IsPidFile id := (hKind id).mp hId
    apply (hProp id hOld).mono
      (congrArg Agent.pid (hSame id hOld))
    intro n hn hBound
    refine ⟨n, ?_, rfl⟩
    apply (Controller.mem_remove_nodes_iff pid w.ctrl n).mpr
    refine ⟨hn, ?_⟩
    intro hPid
    exact hSpares pid rfl id hOld n hn hPid hBound

/- A pointer set to what the search found is good. -/
theorem anchored_setAgent_find
    {w w' : World}
    {agent : AgentId}
    {p : Pid}
    (hCtrl :
      w'.ctrl = w.ctrl.setAgent agent (w.ctrl.find p)) :
    w'.Anchored agent := by
  cases hSearch : w.ctrl.find p with
  | none =>
      left
      unfold Unbound
      rw [hCtrl, Controller.setAgent_memory_same,
        Agent.set_pid, hSearch]
  | some a =>
      rcases Controller.find_spec hSearch with
        ⟨n, hn, hAddr, _⟩
      refine Or.inr ⟨n, ?_, ?_⟩
      · rw [hCtrl]
        exact hn
      · unfold BoundTo
        rw [hCtrl, Controller.setAgent_memory_same,
          Agent.set_pid, hSearch, hAddr]

/-
  Every other step keeps them good, because a pointer is
  only ever set to null or to an element just found.
-/
theorem pidFilesAnchored_step
    {w : World}
    {op : Op}
    (hInv : w.NoPidFileRegistered)
    (hProp : w.PidFilesAnchored)
    (hLegal : w.PidFileRun op)
    (hOp : ∀ pid, op ≠ .remove pid) :
    (w.step A op).PidFilesAnchored := by
  have hStep := pidFileStep_of_run (A := A) hLegal
  intro id hId
  have hOld : w.IsPidFile id :=
    (isPidFile_of_kind_eq (hStep.kind id)).mp hId
  have hNot : id ∉ w.ctrl.agents :=
    fun hMem => hInv id hMem hOld
  have hCtrl : ∃ ctrl, (w.step A op).ctrl = ctrl := ⟨_, rfl⟩
  rcases hCtrl with ⟨ctrl, hCtrl⟩
  rw [hCtrl] at hStep
  cases hStep with
  | same _ =>
      apply (hProp id hOld).mono
      · rw [hCtrl]
      · intro n hn _
        rw [hCtrl]
        exact ⟨n, hn, rfl⟩
  | insert pid =>
      apply (hProp id hOld).mono
      · rw [hCtrl,
          Controller.insert_memory_of_not_mem hNot]
      · intro n hn _
        rw [hCtrl]
        exact ⟨n, List.mem_append_left _ hn, rfl⟩
  | remove pid => exact absurd rfl (hOp pid)
  | set _ agent pid hPid =>
      by_cases hEq : id = agent
      · subst hEq
        rcases hPid with hNull | ⟨p, hFind⟩
        · left
          unfold Unbound
          rw [hCtrl, Controller.setAgent_memory_same,
            Agent.set_pid]
          exact hNull
        · rw [hFind] at hCtrl
          exact anchored_setAgent_find hCtrl
      · apply (hProp id hOld).mono
        · rw [hCtrl, Controller.setAgent_memory_ne hEq]
        · intro n hn _
          rw [hCtrl]
          exact ⟨n, hn, rfl⟩
  | start _ agent hKind =>
      have hNe : id ≠ agent := by
        intro hEq
        subst hEq
        rcases hOld with ⟨pidfile, hPidFile⟩
        rcases hKind with ⟨exename, hExeName⟩
        rw [hExeName] at hPidFile
        cases hPidFile
      apply (hProp id hOld).mono
      · rw [hCtrl,
          (Controller.startAgent_memory agent id w.ctrl).2,
          Controller.insertAgent_memory_ne hNe]
      · intro n hn _
        rw [hCtrl,
          (Controller.startAgent_keeps agent w.ctrl).2.1]
        exact ⟨n, hn, rfl⟩

/-
  In a run from a controller without agents, no pointer of
  an agent with a pid file ever dangles if and only if every
  removal of the run spares the processes that such agents
  are bound to.
-/
theorem pidFilesAnchored_iff
    (A : Allocator)
    (w : World)
    (ops : List Op)
    (hIdle : w.Idle)
    (hRun : Runs.Along (step A) PidFileRun w ops) :
    Runs.Always (step A) PidFilesAnchored w ops ↔
      Runs.Along (step A) SparesPidFiles w ops := by
  apply Runs.always_iff_along
    (fun w op => noPidFileRegistered_step w op) _ _ _ hRun
  · intro w op hInv hLegal hProp
    by_cases hRemove : ∃ pid, op = .remove pid
    · rcases hRemove with ⟨pid, hOp⟩
      subst hOp
      exact pidFilesAnchored_remove_iff hInv hProp pid
    · have hOp : ∀ pid, op ≠ .remove pid :=
        fun pid hEq => hRemove ⟨pid, hEq⟩
      constructor
      · intro _ pid hEq
        exact absurd hEq (hOp pid)
      · intro _
        exact pidFilesAnchored_step hInv hProp hLegal hOp
  · exact fun id hMem => absurd hMem (hIdle.not_mem id)
  · intro id _
    exact Or.inl (hIdle.unbound id)

------------------------------------------------------------
-- Sample Runs
------------------------------------------------------------

/- A world in which every agent follows a pid file. -/
def pidFileWorld : World :=
  bare (fun _ => { kind := .pidFile "/run/dm.pid".toList })
    (fun _ => none)

/-
  A process is removed while an agent is bound to another
  one.
-/
theorem pidFilesAnchored_sample :
    Runs.Always (step (.above [])) PidFilesAnchored
      pidFileWorld
      [.insert 5, .insert 6, .start 1 (some "5\n".toList),
        .remove 6] := by
  let w :=
    Runs.after (step (.above [])) pidFileWorld
      [.insert 5, .insert 6, .start 1 (some "5\n".toList)]
  have hNodes :
      w.ctrl.identifiers.nodes =
        [⟨1, { pid := 5 }⟩, ⟨2, { pid := 6 }⟩] := by
    decide
  have hFirst : (w.ctrl.memory 1).pid = some 1 := by
    decide
  have hOthers :
      ∀ id, id ≠ 1 → (w.ctrl.memory id).pid = none := by
    intro id hNe
    have hStart :
        w.ctrl =
          (Runs.after (step (.above [])) pidFileWorld
            [.insert 5, .insert 6]).ctrl.setAgent 1
              (some 1) := rfl
    rw [hStart, Controller.setAgent_memory_ne hNe]
    rfl
  refine (pidFilesAnchored_iff (.above []) pidFileWorld _
    (idle_bare fun _ => rfl) ?_).mpr
      ⟨?_, ?_, ?_, ?_, trivial⟩
  · exact ⟨trivial, trivial, trivial, trivial, trivial⟩
  · intro pid hOp
    cases hOp
  · intro pid hOp
    cases hOp
  · intro pid hOp
    cases hOp
  · intro pid hOp id _ n hn hPid hBound
    cases hOp
    have hSecond : n.addr = 2 := by
      have hIn : n ∈ w.ctrl.identifiers.nodes := hn
      rw [hNodes] at hIn
      simp only [List.mem_cons, List.not_mem_nil,
        or_false] at hIn
      rcases hIn with hEq | hEq
      · rw [hEq] at hPid
        exact absurd hPid (by decide)
      · rw [hEq]
    have hTo : (w.ctrl.memory id).pid = some n.addr := hBound
    by_cases hId : id = 1
    · rw [hId, hFirst, hSecond] at hTo
      exact absurd hTo (by decide)
    · rw [hOthers id hId] at hTo
      cases hTo

/-
  An agent that found process 5 through its pid file keeps
  the pointer after that process is gone.
-/
theorem pidFile_dangles :
    Runs.Along (step (.above [])) PidFileRun pidFileWorld
      [.insert 5, .start 1 (some "5\n".toList),
        .remove 5] ∧
    ¬ Runs.Always (step (.above [])) PidFilesAnchored
      pidFileWorld
      [.insert 5, .start 1 (some "5\n".toList),
        .remove 5] := by
  refine ⟨⟨trivial, trivial, trivial, trivial⟩, ?_⟩
  intro hAlways
  rcases hAlways.after 1 ⟨_, rfl⟩ with hUnbound | ⟨n, hn, _⟩
  · revert hUnbound
    unfold Unbound
    decide
  · revert hn
    have hGone :
        (Runs.after (step (.above [])) pidFileWorld
          [.insert 5, .start 1 (some "5\n".toList),
            .remove 5]).ctrl.identifiers.nodes = [] := by
      decide
    rw [hGone]
    exact List.not_mem_nil

end World

end UdjatProcess
