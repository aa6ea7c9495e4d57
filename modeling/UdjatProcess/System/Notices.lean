import UdjatProcess.Usage.Update
import UdjatProcess.Tracking.Tracked

/-
  What agents report, over whole runs.

  An agent reports when its pointer changes, when it starts
  and finds no process, and once for each of its places in
  the list when the thread pool runs a job of the update.
  The reports that were made and those that jobs still have
  to make are conserved: every change, idle start and
  complete update adds one, and nothing else does.

  Key definitions include:
    * `Agent.Told`
    * `World.changes`
    * `World.idleStarts`
    * `World.updatesDone`
    * `World.JobsRun`

  Key theorems include:
    * `World.updates_step`
    * `World.pushed_step`
    * `World.reports_conserved`
-/

namespace UdjatProcess

------------------------------------------------------------
-- One Agent
------------------------------------------------------------

namespace Agent

/-
  Between two states the agent has reported the change of
  its pointer, if there is one, and nothing else.
-/
def Told (x x' : Agent) : Prop :=
  x'.updates = x.updates + if x'.pid = x.pid then 0 else 1

theorem told_refl (x : Agent) : x.Told x := by
  simp [Told]

theorem told_set (pid : Option Addr) (x : Agent) :
    x.Told (x.set pid) := by
  unfold Told
  rw [set_pid]
  unfold set updated
  split <;> rfl

/- The agent is as before, or was bound and reported it. -/
def Binds (x x' : Agent) : Prop :=
  x' = x ∨
    x.pid = none ∧ x'.pid ≠ none ∧
      x'.updates = x.updates + 1

theorem binds_bindIfUnbound
    (exec : CString)
    (a : Addr)
    (x : Agent) :
    x.Binds (x.bindIfUnbound exec a) := by
  unfold bindIfUnbound
  split
  · next hBind =>
    rw [Bool.and_eq_true, Option.isNone_iff_eq_none] at hBind
    have hTold := told_set (some a) x
    unfold Told at hTold
    rw [set_pid, hBind.1, if_neg (Option.some_ne_none a)]
      at hTold
    refine Or.inr ⟨hBind.1, ?_, hTold⟩
    rw [set_pid]
    exact Option.some_ne_none a
  · exact Or.inl rfl

/- Once it is bound, it stays as it is. -/
theorem Binds.trans
    {x y z : Agent}
    (hFirst : x.Binds y)
    (hSecond : y.Binds z) :
    x.Binds z := by
  rcases hFirst with hSame | ⟨hFree, hBound, hReport⟩
  · rw [hSame] at hSecond
    exact hSecond
  · rcases hSecond with hSame | ⟨hNull, _, _⟩
    · rw [hSame]
      exact Or.inr ⟨hFree, hBound, hReport⟩
    · exact absurd hNull hBound

theorem Binds.told
    {x x' : Agent}
    (hBinds : x.Binds x') :
    x.Told x' := by
  rcases hBinds with hSame | ⟨hFree, hBound, hReport⟩
  · rw [hSame]
    exact told_refl x
  · unfold Told
    rw [hFree, if_neg hBound]
    exact hReport

end Agent

/- The agent looks for its process by name. -/
def Kind.byName : Kind → Bool
| .exeName _ => true
| .pidFile _ => false

/- The operation builds a new agent at the address. -/
def Op.Constructs (id : AgentId) : Op → Prop
| .construct agent _ => agent = id
| _ => False

------------------------------------------------------------
-- Processes Found By Polls
------------------------------------------------------------

namespace Controller

variable {A : Allocator} {L : Links}

theorem binds_foldl_insert
    (pids : List Pid)
    (self : Controller)
    (id : AgentId) :
    (self.memory id).Binds
      ((pids.foldl
        (fun self pid => self.insert A L pid)
        self).memory id) := by
  induction pids generalizing self with
  | nil => exact Or.inl rfl
  | cons pid pids ih =>
      have hHead :
          (self.memory id).Binds
            ((self.insert A L pid).memory id) := by
        rw [insert_memory]
        split
        · exact Agent.binds_bindIfUnbound _ _ _
        · exact Or.inl rfl
      exact hHead.trans (ih (self.insert A L pid))

theorem told_reload
    (dir : ProcDir)
    (self : Controller)
    (id : AgentId) :
    (self.memory id).Told
      ((self.reload A L dir).memory id) := by
  rw [reload_eq_reconcile, reconcile_eq]
  exact (binds_foldl_insert _
    (self.keepOnly (snapshot dir)) id).told

theorem told_setAgent
    (agent : AgentId)
    (pid : Option Addr)
    (self : Controller)
    (id : AgentId) :
    (self.memory id).Told
      ((self.setAgent agent pid).memory id) := by
  by_cases hEq : id = agent
  · rw [hEq, setAgent_memory_same]
    exact Agent.told_set _ _
  · rw [setAgent_memory_ne hEq]
    exact Agent.told_refl _

theorem told_insertAgent
    (agent : AgentId)
    (self : Controller)
    (id : AgentId) :
    (self.memory id).Told
      ((self.insertAgent L agent).memory id) := by
  rcases insertAgent_cases (L := L) agent self with
    ⟨n, _, hEq⟩ | ⟨_, hEq⟩
  · rw [hEq]
    exact told_setAgent agent _ _ id
  · rw [hEq]
    exact Agent.told_refl _

theorem told_refreshPidFile
    (file : Option CString)
    (agent : AgentId)
    (self : Controller)
    (id : AgentId) :
    (self.memory id).Told
      ((self.refreshPidFile file agent).memory id) := by
  rcases refreshPidFile_cases file agent self with
    hEq | ⟨pid, _, hEq⟩
  · rw [hEq]
    exact Agent.told_refl _
  · rw [hEq]
    exact told_setAgent agent pid self id

/- A start that finds no process reports once more. -/
theorem updates_startAgent
    (agent : AgentId)
    (self : Controller)
    (id : AgentId) :
    ((self.startAgent L agent).memory id).updates =
      ((self.insertAgent L agent).memory id).updates +
        if agent = id ∧
            ((self.startAgent L agent).memory id).pid =
              none then 1 else 0 := by
  rw [(startAgent_memory agent id self).2]
  unfold startAgent
  dsimp only
  split
  · next hNone =>
    rw [Option.isNone_iff_eq_none] at hNone
    by_cases hEq : id = agent
    · have hMemory :
          ((self.insertAgent L agent).notify agent).memory id =
            ((self.insertAgent L agent).memory id).updated := by
        rw [hEq]
        exact ObjectStore.modify_same _ _ _
      rw [hMemory, if_pos ⟨hEq.symm, by rw [hEq, hNone]⟩]
      rfl
    · have hMemory :
          ((self.insertAgent L agent).notify agent).memory id =
            (self.insertAgent L agent).memory id :=
        ObjectStore.modify_ne hEq _ _
      rw [hMemory, if_neg fun hBoth => hEq hBoth.1.symm]
      rfl
  · next hSome =>
    rw [if_neg]
    · rfl
    · rintro ⟨hEq, hNone⟩
      rw [← hEq] at hNone
      exact hSome (Option.isNone_iff_eq_none.mpr hNone)

/- An agent with a pid file reports its changes only. -/
theorem updates_start
    (file : Option CString)
    (agent : AgentId)
    (self : Controller)
    (id : AgentId) :
    let self' := self.start L file agent
    (self'.memory id).updates =
      (self.memory id).updates +
        ((if (self'.memory id).pid = (self.memory id).pid then
            0 else 1) +
          if agent = id ∧
              (self.memory id).kind.byName = true ∧
              (self'.memory id).pid = none then 1 else 0) := by
  intro self'
  cases hKind : (self.memory agent).kind with
  | exeName exename =>
      have hStart : self' = self.startAgent L agent := by
        simp only [self', start, hKind]
      have hTold := told_insertAgent (L := L) agent self id
      unfold Agent.Told at hTold
      rw [hStart, updates_startAgent, hTold,
        ← (startAgent_memory agent id self).2, Nat.add_assoc]
      by_cases hEq : agent = id
      · rw [← hEq, hKind]
        simp [Kind.byName]
      · simp [hEq]
  | pidFile pidfile =>
      have hStart : self' = self.refreshPidFile file agent := by
        simp only [self', start, hKind]
      have hTold := told_refreshPidFile file agent self id
      unfold Agent.Told at hTold
      have hNot :
          ¬ (agent = id ∧
            (self.memory id).kind.byName = true ∧
              (self'.memory id).pid = none) := by
        rintro ⟨hEq, hByName, _⟩
        rw [← hEq, hKind] at hByName
        cases hByName
      rw [if_neg hNot, hStart, hTold]
      rfl

/- A job reports once for each place in the list. -/
theorem memory_updateAgents
    (self : Controller)
    (id : AgentId) :
    (self.updateAgents.memory id).pid =
        (self.memory id).pid ∧
      (self.updateAgents.memory id).updates =
        (self.memory id).updates + self.agents.count id := by
  have hMemory :
      self.updateAgents.memory id =
        Agent.updated^[self.agents.count id]
          (self.memory id) :=
    ObjectStore.forEach_apply _ _ _ _
  rw [hMemory]
  generalize self.agents.count id = k
  induction k with
  | zero => exact ⟨rfl, rfl⟩
  | succ k ih =>
      rw [Function.iterate_succ_apply']
      exact ⟨ih.1, congrArg (· + 1) ih.2⟩

instance
    (read : Reader)
    (self : Controller) :
    Decidable (self.Completes read) :=
  decidable_of_iff _ (completed_iff read self)

theorem pushed_insertAgent
    (agent : AgentId)
    (self : Controller) :
    (self.insertAgent L agent).pushed = self.pushed := by
  rcases insertAgent_cases (L := L) agent self with
    ⟨n, _, hEq⟩ | ⟨_, hEq⟩
  · rw [hEq]
    rfl
  · rw [hEq]

theorem pushed_refreshPidFile
    (file : Option CString)
    (agent : AgentId)
    (self : Controller) :
    (self.refreshPidFile file agent).pushed = self.pushed := by
  rcases refreshPidFile_cases file agent self with
    hEq | ⟨pid, _, hEq⟩
  · rw [hEq]
  · rw [hEq]
    rfl

theorem pushed_start
    (file : Option CString)
    (agent : AgentId)
    (self : Controller) :
    (self.start L file agent).pushed = self.pushed := by
  rcases start_cases (L := L) file agent self with
    ⟨_, hEq⟩ | hEq
  · rw [hEq]
    rcases startAgent_cases (L := L) agent self with
      hStart | hStart
    · rw [hStart, pushed_insertAgent]
    · rw [hStart]
      exact pushed_insertAgent agent self
  · rw [hEq, pushed_refreshPidFile]

theorem pushed_reload
    (dir : ProcDir)
    (self : Controller) :
    (self.reload A L dir).pushed = self.pushed := by
  rw [reload_eq_reconcile, reconcile_eq]
  generalize snapshot dir = pids
  have hFold :
      ∀ (pids : List Pid) (ctrl : Controller),
        (pids.foldl (fun ctrl pid => ctrl.insert A L pid)
          ctrl).pushed = ctrl.pushed := by
    intro pids
    induction pids with
    | nil => exact fun _ => rfl
    | cons pid pids ih =>
        exact fun ctrl => ih (ctrl.insert A L pid)
  exact hFold _ _

/- An update that comes to its end hands over a job. -/
theorem pushed_refresh
    {self : Controller}
    {read : Reader}
    (hEnds :
      self.cpuUsePerProcess = false ∨ self.Completes read)
    (stat : SystemStat) :
    (self.refresh stat read).pushed = self.pushed + 1 := by
  rcases hEnds with hNone | hReads
  · unfold refresh
    simp [hNone]
  · exact refresh_pushed_of_completes hReads stat

end Controller

------------------------------------------------------------
-- Amounts
------------------------------------------------------------

namespace World

/- The step changes the agent's pointer. -/
def changes
    (A : Allocator)
    (id : AgentId)
    (w : World)
    (op : Op) : Nat :=
  if ((w.step A op).ctrl.memory id).pid =
      (w.ctrl.memory id).pid then
    0
  else
    1

/- The agent starts by name and ends without a process. -/
def idleStarts
    (A : Allocator)
    (id : AgentId)
    (w : World) : Op → Nat
| .start agent file =>
    if agent = id ∧
        (w.ctrl.memory id).kind.byName = true ∧
        ((w.step A (.start agent file)).ctrl.memory
          id).pid = none then
      1
    else
      0
| _ => 0

/- The reports of a job to the agent. -/
def jobReports (id : AgentId) (w : World) : Op → Nat
| .updateAgents => w.ctrl.agents.count id
| _ => 0

/- The update comes to its end. -/
def updatesDone (w : World) : Op → Nat
| .refresh _ read =>
    if w.ctrl.cpuUsePerProcess = false ∨
        w.ctrl.Completes read then
      1
    else
      0
| _ => 0

/- The thread pool runs a job. -/
def jobsRun (_w : World) : Op → Nat
| .updateAgents => 1
| _ => 0

------------------------------------------------------------
-- Steps
------------------------------------------------------------

variable {A : Allocator} {w : World} {op : Op} {id : AgentId}

/- A step in which the agent tells its changes. -/
theorem updates_of_told
    (hTold :
      (w.ctrl.memory id).Told ((w.step A op).ctrl.memory id)) :
    ((w.step A op).ctrl.memory id).updates =
      (w.ctrl.memory id).updates + changes A id w op :=
  hTold

/- A step that keeps the agent as it is. -/
theorem updates_of_same
    (hSame :
      (w.step A op).ctrl.memory id = w.ctrl.memory id) :
    ((w.step A op).ctrl.memory id).updates =
      (w.ctrl.memory id).updates + changes A id w op := by
  apply updates_of_told
  rw [hSame]
  exact Agent.told_refl _

/-
  An agent reports the changes of its pointer, the starts
  without a process, and what jobs make it report.
-/
theorem updates_step
    (A : Allocator)
    (w : World)
    {op : Op}
    (hLives : ¬ op.Constructs id) :
    ((w.step A op).ctrl.memory id).updates =
      (w.ctrl.memory id).updates +
        (changes A id w op + idleStarts A id w op +
          jobReports id w op) := by
  have hInsert :
      ∀ pid, (w.ctrl.memory id).Told
        ((w.ctrl.insert A w.links pid).memory id) :=
    fun pid =>
      (Controller.binds_foldl_insert [pid] w.ctrl id).told
  have hRemove :
      ∀ pid, (w.ctrl.memory id).Told
        ((w.ctrl.remove pid).memory id) := by
    intro pid
    rw [Controller.remove_memory]
    split
    · exact Agent.told_set _ _
    · exact Agent.told_refl _
  cases op with
  | links _ => exact updates_of_same rfl
  | event ev =>
      cases ev with
      | exec pid _ => exact updates_of_told (hInsert pid)
      | exit pid _ _ _ => exact updates_of_told (hRemove pid)
      | fork _ _ _ _ => exact updates_of_same rfl
      | other _ _ => exact updates_of_same rfl
  | insert pid => exact updates_of_told (hInsert pid)
  | remove pid => exact updates_of_told (hRemove pid)
  | construct agent kind =>
      apply updates_of_same
      exact Function.update_of_ne
        (fun hEq => hLives hEq.symm) _ _
  | insertAgent agent =>
      exact updates_of_told
        (Controller.told_insertAgent agent w.ctrl id)
  | removeAgent _ => exact updates_of_same rfl
  | start agent file =>
      exact Controller.updates_start file agent w.ctrl id
  | refreshAgent agent file =>
      apply updates_of_told
      change (w.ctrl.memory id).Told
        ((w.ctrl.refreshAgent file agent).memory id)
      rcases Controller.refreshAgent_cases file agent w.ctrl
        with hEq | hEq
      · rw [hEq]
        exact Agent.told_refl _
      · rw [hEq]
        exact Controller.told_refreshPidFile file agent w.ctrl
          id
  | reload dir =>
      exact updates_of_told
        (Controller.told_reload dir w.ctrl id)
  | onTimer dir =>
      apply updates_of_told
      change (w.ctrl.memory id).Told
        ((w.ctrl.onTimer A w.links dir).memory id)
      unfold Controller.onTimer
      split
      · exact Controller.told_reload dir w.ctrl id
      · exact Agent.told_refl _
  | refresh stat read =>
      apply updates_of_same
      exact congrFun
        (Controller.refresh_keeps stat read w.ctrl).2.1 id
  | updateAgents =>
      rcases Controller.memory_updateAgents w.ctrl id with
        ⟨hPid, hUpdates⟩
      have hChanges : changes A id w .updateAgents = 0 :=
        if_pos hPid
      have hIdle : idleStarts A id w .updateAgents = 0 := rfl
      rw [hChanges, hIdle, Nat.zero_add]
      exact hUpdates
  | getState agent file =>
      apply updates_of_same
      exact congrFun
        (cacheState_rest agent file w.ctrl).2.2.1 id

/- Only updates and jobs count for the thread pool. -/
theorem pushed_keeps
    (A : Allocator)
    (w : World)
    {op : Op}
    (hDone : updatesDone w op = 0)
    (hJobs : jobsRun w op = 0) :
    (w.step A op).ctrl.pushed = w.ctrl.pushed := by
  cases op with
  | event ev => cases ev <;> rfl
  | insertAgent agent =>
      exact Controller.pushed_insertAgent agent w.ctrl
  | start agent file =>
      exact Controller.pushed_start file agent w.ctrl
  | refreshAgent agent file =>
      change (w.ctrl.refreshAgent file agent).pushed = _
      rcases Controller.refreshAgent_cases file agent w.ctrl
        with hEq | hEq
      · rw [hEq]
      · rw [hEq, Controller.pushed_refreshPidFile]
  | reload dir => exact Controller.pushed_reload dir w.ctrl
  | onTimer dir =>
      change (w.ctrl.onTimer A w.links dir).pushed = _
      unfold Controller.onTimer
      split
      · exact Controller.pushed_reload dir w.ctrl
      · rfl
  | refresh stat read =>
      rw [updatesDone, ite_eq_right_iff] at hDone
      have hNot :
          ¬ (w.ctrl.cpuUsePerProcess = false ∨
            w.ctrl.Completes read) :=
        fun hEnds => Nat.one_ne_zero (hDone hEnds)
      rw [not_or, Bool.not_eq_false] at hNot
      exact (Controller.refresh_of_not_completes hNot.1 hNot.2
        stat).2
  | updateAgents => cases hJobs
  | getState agent file =>
      exact (cacheState_rest agent file w.ctrl).2.2.2
  | links _ => rfl
  | insert _ => rfl
  | remove _ => rfl
  | construct _ _ => rfl
  | removeAgent _ => rfl

/-
  A complete update hands over one job, and a job that is
  there to run is taken away.
-/
theorem pushed_step
    (A : Allocator)
    (w : World)
    {op : Op}
    (hThere : op = .updateAgents → 0 < w.ctrl.pushed) :
    (w.step A op).ctrl.pushed + jobsRun w op =
      w.ctrl.pushed + updatesDone w op := by
  by_cases hJobs : jobsRun w op = 0
  · by_cases hDone : updatesDone w op = 0
    · rw [pushed_keeps A w hDone hJobs, hDone, hJobs]
    · cases op with
      | refresh stat read =>
          have hEnds :
              w.ctrl.cpuUsePerProcess = false ∨
                w.ctrl.Completes read := by
            by_contra hNot
            exact hDone (if_neg hNot)
          have hOne : updatesDone w (.refresh stat read) = 1 :=
            if_pos hEnds
          rw [hOne, hJobs]
          exact Controller.pushed_refresh hEnds stat
      | _ => exact absurd rfl hDone
  · cases op with
    | updateAgents =>
        exact Nat.sub_add_cancel (hThere rfl)
    | _ => exact absurd rfl hJobs

------------------------------------------------------------
-- Runs
------------------------------------------------------------

/-
  The thread pool runs a job only where one was handed over,
  and then the agent has so many places in the list.
-/
def JobsRun
    (id : AgentId)
    (places : Nat)
    (w : World) : Op → Prop
| .updateAgents =>
    0 < w.ctrl.pushed ∧ w.ctrl.agents.count id = places
| _ => True

theorem JobsRun.there
    {id : AgentId}
    {places : Nat}
    (hRun : JobsRun id places w op) :
    op = .updateAgents → 0 < w.ctrl.pushed := by
  intro hOp
  subst hOp
  exact hRun.1

/-
  No report is lost and none is made twice. What the agent
  has reported, and what the jobs still have to make it
  report, grows over a run by the changes of its pointer, by
  its starts without a process, and by the updates that came
  to their end, for each of its places.
-/
theorem reports_conserved
    {A : Allocator}
    {w : World}
    {ops : List Op}
    {id : AgentId}
    {places : Nat}
    (hLives : ∀ op ∈ ops, ¬ op.Constructs id)
    (hJobs : Runs.Along (step A) (JobsRun id places) w ops) :
    let w' := Runs.after (step A) w ops
    (w'.ctrl.memory id).updates + places * w'.ctrl.pushed =
      (w.ctrl.memory id).updates + places * w.ctrl.pushed +
        (Runs.total (step A) (changes A id) w ops +
          Runs.total (step A) (idleStarts A id) w ops +
          places * Runs.total (step A) updatesDone w ops) := by
  intro w'
  simp only [w']
  let reports (w : World) : Nat :=
    (w.ctrl.memory id).updates
  let pool (w : World) : Nat := w.ctrl.pushed
  let none (_ : World) (_ : Op) : Nat := 0
  have hReported :
      ∀ w op, ¬ op.Constructs id →
        reports (step A w op) + none w op =
          reports w +
            (changes A id w op + idleStarts A id w op +
              jobReports id w op) :=
    fun w _ hOther => updates_step A w hOther
  have hPooled :
      ∀ w op, JobsRun id places w op →
        pool (step A w op) + jobsRun w op =
          pool w + updatesDone w op :=
    fun w _ hRun => pushed_step A w hRun.there
  have hReports :=
    Runs.meter_after hReported
      (Runs.along_of_forall_mem hLives w)
  have hPool := Runs.meter_after hPooled hJobs
  have hPlaces :
      Runs.total (step A) (jobReports id) w ops =
        places * Runs.total (step A) jobsRun w ops := by
    rw [← Runs.total_mul]
    apply Runs.total_congr _ hJobs
    intro w op hRun
    cases op with
    | updateAgents =>
        exact hRun.2.trans (Nat.mul_one places).symm
    | _ => rfl
  rw [Runs.total_zero, Runs.total_add, Runs.total_add, hPlaces]
    at hReports
  have hPlaced := congrArg (places * ·) hPool
  simp only [Nat.mul_add] at hPlaced
  dsimp only [reports, pool] at hReports hPlaced
  omega

/-
  An agent is started in vain, its process comes, an update
  completes and its job runs, and the process goes.
-/
theorem reports_conserved_sample :
    let exename : CString := "gdm".toList
    let w :=
      bare (fun _ => { kind := .exeName exename })
        fun _ => some exename
    let read : Controller.Reader := fun _ _ => .present {}
    let ops : List Op :=
      [.start 7 none, .event (.exec 5 5), .refresh ⟨1, 1⟩ read,
        .updateAgents, .event (.exit 5 5 0 0)]
    let w' := Runs.after (step (.above [])) w ops
    (w'.ctrl.memory 7).updates + 1 * w'.ctrl.pushed = 4 := by
  intro exename w read ops w'
  have hLives : ∀ op ∈ ops, ¬ op.Constructs 7 := by
    simp [ops, Op.Constructs]
  have hPlace :
      let before := Runs.after (step (.above [])) w (ops.take 3)
      0 < before.ctrl.pushed ∧
        before.ctrl.agents.count 7 = 1 := by
    decide +kernel
  have hJobs :
      Runs.Along (step (.above [])) (JobsRun 7 1) w ops :=
    ⟨trivial, trivial, trivial, hPlace, trivial, trivial⟩
  exact (reports_conserved hLives hJobs).trans
    (by decide +kernel)

end World

end UdjatProcess
