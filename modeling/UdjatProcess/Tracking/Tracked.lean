import UdjatProcess.Library.Registry
import UdjatProcess.Library.Relay
import UdjatProcess.System.World

/-
  The tracked processes, without the rest of the controller.

  What an operation does to the list of process numbers
  depends on that list and on the netlink socket alone:
  agents, executable names and the allocator have no say.
  As a set, the numbers follow the stream of changes that
  the events stand for. While the socket is open no other
  work of the module touches them.

  Key definitions include:
    * `World.pidsAfter`
    * `World.tracked`
    * `ProcEvent.changes`
    * `World.monitor`
    * `World.trackedView`
    * `World.observe`

  Key theorems include:
    * `World.pids_after`
    * `World.tracked_event`
    * `World.tracked_of_drained`
-/

------------------------------------------------------------
-- The List Of Process Numbers
------------------------------------------------------------

namespace UdjatProcess

namespace World

/- The processes kept by a poll, then those it found new. -/
def polledPids (pids current : List Pid) : List Pid :=
  pids.filter (fun p => p ∈ current) ++
    current.filter (fun p => p ∉ pids)

/- The process numbers after an operation. -/
def pidsAfter
    (fd : Int)
    (pids : List Pid) : Op → List Pid
| .event (.exec pid _) => pids ++ [pid]
| .event (.exit pid _ _ _) => pids.filter fun p => !(p == pid)
| .insert pid => pids ++ [pid]
| .remove pid => pids.filter fun p => !(p == pid)
| .reload dir => polledPids pids (snapshot dir)
| .onTimer dir =>
    if fd < 0 then polledPids pids (snapshot dir) else pids
| _ => pids

theorem pids_reload
    (A : Allocator)
    (links : Links)
    (dir : ProcDir)
    (ctrl : Controller) :
    (ctrl.reload A links dir).pids =
      polledPids ctrl.pids (snapshot dir) := by
  rw [Controller.reload_eq_reconcile,
    Controller.pids_reconcile]
  rfl

/- Caching a state changes no process number. -/
theorem cacheState_keeps
    (agent : AgentId)
    (file : StatFile)
    (ctrl : Controller) :
    (cacheState agent file ctrl).pids = ctrl.pids ∧
      (cacheState agent file ctrl).fd = ctrl.fd := by
  unfold cacheState
  split
  · next state ctrl' hOk =>
    rcases Controller.agentState_ok_cases hOk with
      ⟨_, _, hSame⟩ | ⟨n, hn, identifier, _, hGet, hNew⟩
    · rw [hSame]
      exact ⟨rfl, rfl⟩
    · rw [hNew]
      have hPid := (Identifier.getState_keeps hGet).1
      exact ⟨NodeList.map_replace_of_eq Identifier.pid hn hPid,
        rfl⟩
  · exact ⟨rfl, rfl⟩

theorem cacheState_rest
    (agent : AgentId)
    (file : StatFile)
    (ctrl : Controller) :
    (cacheState agent file ctrl).identifiers.addrs =
        ctrl.identifiers.addrs ∧
      (cacheState agent file ctrl).agents = ctrl.agents ∧
      (cacheState agent file ctrl).memory = ctrl.memory ∧
      (cacheState agent file ctrl).pushed = ctrl.pushed := by
  unfold cacheState
  split
  · next state ctrl' hOk =>
    rcases Controller.agentState_ok_cases hOk with
      ⟨_, _, hSame⟩ | ⟨n, _, identifier, _, _, hNew⟩
    · rw [hSame]
      exact ⟨rfl, rfl, rfl, rfl⟩
    · rw [hNew]
      exact ⟨NodeList.addrs_update _ _ _, rfl, rfl, rfl⟩
  · exact ⟨rfl, rfl, rfl, rfl⟩

/- No operation touches the socket. -/
@[simp] theorem step_fd
    (A : Allocator)
    (w : World)
    (op : Op) :
    (w.step A op).ctrl.fd = w.ctrl.fd := by
  cases op with
  | event ev => cases ev <;> rfl
  | insertAgent agent => exact Controller.insertAgent_fd _ _
  | start agent file => exact (Controller.start_keeps _ _ _).2
  | refreshAgent agent file =>
      exact (Controller.refreshAgent_keeps _ _ _).2
  | reload dir => exact Controller.reload_fd dir w.ctrl
  | onTimer dir =>
      change (w.ctrl.onTimer A w.links dir).fd = w.ctrl.fd
      unfold Controller.onTimer
      split
      · exact Controller.reload_fd dir w.ctrl
      · rfl
  | refresh stat read =>
      exact (Controller.refresh_keeps stat read w.ctrl).2.2.1
  | getState agent file =>
      exact (cacheState_keeps agent file w.ctrl).2
  | links _ => rfl
  | insert _ => rfl
  | remove _ => rfl
  | construct _ _ => rfl
  | removeAgent _ => rfl
  | updateAgents => rfl

/- Every operation acts on the numbers as `pidsAfter` says. -/
theorem pids_step
    (A : Allocator)
    (w : World)
    (op : Op) :
    (w.step A op).ctrl.pids =
      pidsAfter w.ctrl.fd w.ctrl.pids op := by
  have hList :
      ∀ ctrl : Controller,
        ctrl.identifiers = w.ctrl.identifiers →
        ctrl.pids = w.ctrl.pids := by
    intro ctrl hEq
    unfold Controller.pids
    rw [hEq]
  cases op with
  | event ev =>
      cases ev with
      | exec pid tgid => exact Controller.pids_insert pid w.ctrl
      | exit pid tgid code signal =>
          exact Controller.pids_remove pid w.ctrl
      | fork _ _ _ _ => rfl
      | other _ _ => rfl
  | insert pid => exact Controller.pids_insert pid w.ctrl
  | remove pid => exact Controller.pids_remove pid w.ctrl
  | insertAgent agent =>
      exact hList _ (Controller.insertAgent_identifiers _ _)
  | start agent file =>
      exact hList _ (Controller.start_keeps _ _ _).1
  | refreshAgent agent file =>
      exact hList _ (Controller.refreshAgent_keeps _ _ _).1
  | reload dir => exact pids_reload A w.links dir w.ctrl
  | onTimer dir =>
      change
        (w.ctrl.onTimer A w.links dir).pids =
          if w.ctrl.fd < 0 then
            polledPids w.ctrl.pids (snapshot dir)
          else
            w.ctrl.pids
      unfold Controller.onTimer
      split
      · exact pids_reload A w.links dir w.ctrl
      · rfl
  | refresh stat read =>
      exact Controller.pids_refresh stat read w.ctrl
  | getState agent file =>
      exact (cacheState_keeps agent file w.ctrl).1
  | links _ => rfl
  | construct _ _ => rfl
  | removeAgent _ => rfl
  | updateAgents => rfl

/-
  So does a whole run. Which processes are tracked does not
  depend on agents, names or addresses.
-/
theorem pids_after
    (A : Allocator)
    (w : World)
    (ops : List Op) :
    (Runs.after (step A) w ops).ctrl.pids =
      ops.foldl (pidsAfter w.ctrl.fd) w.ctrl.pids := by
  induction ops generalizing w with
  | nil => rfl
  | cons op ops ih =>
      rw [Runs.after_cons, ih, step_fd, pids_step,
        List.foldl_cons]

------------------------------------------------------------
-- The Set Of Tracked Processes
------------------------------------------------------------

/- The tracked processes. -/
def tracked (w : World) : Set Pid :=
  Set.ofPred w.ctrl.Tracks

@[simp] theorem mem_tracked_iff
    (w : World)
    (pid : Pid) :
    pid ∈ w.tracked ↔ pid ∈ w.ctrl.pids := Iff.rfl

end World

/- What an event changes in the tracked set. -/
def ProcEvent.changes :
    ProcEvent → List (Registry.Change Pid)
| .exec pid _ => [.enter pid]
| .exit pid _ _ _ => [.leave pid]
| _ => []

/-
  What the module does beside handling events while the
  socket is open: everything but a poll, which then only the
  timer could ask for.
-/
def Op.Quiet : Op → Prop
| .event _ => False
| .insert _ => False
| .remove _ => False
| .reload _ => False
| _ => True

namespace World

/- The tracked set follows the events. -/
theorem tracked_event
    (A : Allocator)
    (w : World)
    (ev : ProcEvent) :
    (w.step A (.event ev)).tracked =
      Registry.replay w.tracked ev.changes := by
  ext p
  rw [mem_tracked_iff, pids_step]
  cases ev with
  | exec pid tgid =>
      simp [pidsAfter, ProcEvent.changes, or_comm]
  | exit pid tgid code signal =>
      simp [pidsAfter, ProcEvent.changes]
  | fork _ _ _ _ => rfl
  | other _ _ => rfl

/-
  Quiet work leaves the numbers alone while the socket is
  open.
-/
theorem pids_quiet
    (A : Allocator)
    {w : World}
    (hFd : 0 ≤ w.ctrl.fd)
    {op : Op}
    (hQuiet : op.Quiet) :
    (w.step A op).ctrl.pids = w.ctrl.pids := by
  rw [pids_step]
  cases op with
  | onTimer dir =>
      have hOpen : ¬ w.ctrl.fd < 0 := by omega
      exact if_neg hOpen
  | event ev => cases hQuiet
  | insert pid => cases hQuiet
  | remove pid => cases hQuiet
  | reload dir => cases hQuiet
  | links _ => rfl
  | construct _ _ => rfl
  | insertAgent _ => rfl
  | removeAgent _ => rfl
  | start _ _ => rfl
  | refreshAgent _ _ => rfl
  | refresh _ _ => rfl
  | updateAgents => rfl
  | getState _ _ => rfl

/- And so the set. -/
theorem tracked_quiet
    (A : Allocator)
    {w : World}
    (hFd : 0 ≤ w.ctrl.fd)
    {op : Op}
    (hQuiet : op.Quiet) :
    (w.step A op).tracked = w.tracked := by
  ext p
  rw [mem_tracked_iff, mem_tracked_iff, pids_quiet A hFd hQuiet]

------------------------------------------------------------
-- Event Mode
------------------------------------------------------------

variable {σ κ : Type}

/-
  The module in event mode: a kernel that acts and emits
  events, and the controller that handles them and works in
  between.
-/
def monitor
    (A : Allocator)
    (act : σ → κ → σ)
    (emit : σ → κ → List ProcEvent) :
    Relay.Protocol σ κ ProcEvent World Op where
  act := act
  emit := emit
  handle w ev := w.step A (.event ev)
  work w op := w.step A op

/- The tracked set is a view of the controller. -/
def trackedView
    (A : Allocator)
    (act : σ → κ → σ)
    (emit : σ → κ → List ProcEvent) :
    Relay.View (monitor A act emit) (Set Pid) where
  view := tracked
  track s ev := Registry.replay s ev.changes
  Good w := 0 ≤ w.ctrl.fd
  Quiet := Op.Quiet
  good_handle w ev hFd := by
    change 0 ≤ (w.step A (.event ev)).ctrl.fd
    rw [step_fd]
    exact hFd
  good_work w op hFd _ := by
    change 0 ≤ (w.step A op).ctrl.fd
    rw [step_fd]
    exact hFd
  view_handle w ev _ := tracked_event A w ev
  view_work w op hFd hQuiet := tracked_quiet A hFd hQuiet

/- A kernel, its events on their way, and the module. -/
abbrev Net (σ : Type) := Relay.State σ ProcEvent World

abbrev NetMove (κ : Type) := Relay.Move κ Op

/- No event is on its way. -/
def boot (source : σ) (w : World) : Net σ where
  source := source
  queue := []
  replica := w

/- A kernel and the module after a run. -/
def observe
    (A : Allocator)
    (act : σ → κ → σ)
    (emit : σ → κ → List ProcEvent)
    (s : Net σ)
    (moves : List (NetMove κ)) : Net σ :=
  Runs.after (Relay.step (monitor A act emit)) s moves

/- The module handles events and does quiet work. -/
def QuietMoves (moves : List (NetMove κ)) : Prop :=
  ∀ op, .work op ∈ moves → op.Quiet

@[simp] theorem quietMoves_nil :
    QuietMoves ([] : List (NetMove κ)) := by
  simp [QuietMoves]

@[simp] theorem quietMoves_cons_act_iff
    (k : κ)
    (moves : List (NetMove κ)) :
    QuietMoves (.act k :: moves) ↔ QuietMoves moves := by
  simp [QuietMoves]

@[simp] theorem quietMoves_cons_deliver_iff
    (moves : List (NetMove κ)) :
    QuietMoves (.deliver :: moves) ↔ QuietMoves moves := by
  simp [QuietMoves]

@[simp] theorem quietMoves_cons_work_iff
    (op : Op)
    (moves : List (NetMove κ)) :
    QuietMoves (.work op :: moves) ↔
      op.Quiet ∧ QuietMoves moves := by
  simp [QuietMoves]

/-
  If every act and its events change the tracked set as they
  change a set of the kernel's, the two are equal once all
  events are handled.
-/
theorem tracked_of_drained
    {A : Allocator}
    {act : σ → κ → σ}
    {emit : σ → κ → List ProcEvent}
    {shown : σ → Set Pid}
    (hAct :
      ∀ s k, shown (act s k) =
        (emit s k).foldl
          (fun t ev => Registry.replay t ev.changes)
          (shown s))
    {source : σ}
    {w : World}
    {moves : List (NetMove κ)}
    (hFd : 0 ≤ w.ctrl.fd)
    (hQuiet : QuietMoves moves)
    (hStart : w.tracked = shown source)
    (hDrained :
      (observe A act emit (boot source w) moves).queue = []) :
    (observe A act emit (boot source w) moves).replica.tracked =
      shown
        (observe A act emit (boot source w) moves).source := by
  have hKeeps :
      ∀ s t k, t = shown s →
        (emit s k).foldl
            (fun t ev => Registry.replay t ev.changes) t =
          shown (act s k) := by
    intro s t k hShown
    rw [hShown]
    exact (hAct s k).symm
  exact
    Relay.related_of_drained (trackedView A act emit) hKeeps
      (s := boot source w) hFd hQuiet rfl hStart hDrained

------------------------------------------------------------
-- A Small Host
------------------------------------------------------------

/- A directory of one process. -/
def oneProcess : ProcDir := .ok [⟨true, "5".toList⟩]

/- The constructor's result on that directory. -/
def oneLoaded : World where
  ctrl :=
    (bare (fun _ => { kind := .exeName [] })
      (fun _ => none)).ctrl.insert (.above []) (fun _ => none) 5
  links := fun _ => none

theorem create_oneLoaded :
    Controller.create (.above []) (fun _ => none)
        (fun _ => { kind := .exeName [] }) oneProcess 3 true
        ⟨0, 0⟩ =
      .ok oneLoaded.ctrl := rfl

end World

end UdjatProcess
