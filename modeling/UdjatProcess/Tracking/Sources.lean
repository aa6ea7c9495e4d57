import UdjatProcess.Netlink.Subscribe
import UdjatProcess.Tracking.Reconcile
import UdjatProcess.Tracking.Wire

/-
  Where the process list comes from
  (`controller/init.cc` and `controller/load.cc`).

  The constructor loads `/proc` and subscribes to the process
  connector. From then on the list has one source only. If
  the kernel granted the socket, this is the sequence of the
  datagrams, and no poll happens. If it did not, no datagram
  is read, and each turn of the timer sets the list to what
  `/proc` shows.

  Key definitions include:
    * `Controller.boot`
    * `World.Turn`
    * `World.turn`

  Key theorems include:
    * `World.tracked_of_enabled`
    * `World.tracks_of_disabled`
    * `World.one_source`
-/

namespace UdjatProcess

------------------------------------------------------------
-- Turns
------------------------------------------------------------

/-
  `Controller::Controller`: the load, and the subscription
  behind it. When the load throws there is no controller.
-/
def Controller.boot
    (A : Allocator)
    (links : Links)
    (memory : Memory)
    (dir : ProcDir)
    (kernel : Netlink.Kernel)
    (getpid : UInt32)
    (closed : Int)
    (cpuUsePerProcess : Bool)
    (stat : SystemStat) :
    Except LoadError (Controller × Netlink.Subscription) :=
  let s := Netlink.subscribe kernel getpid closed
  (create A links memory dir s.fd cpuUsePerProcess stat).map
    fun ctrl => (ctrl, s)

/- It holds the descriptor that the subscription leaves. -/
theorem Controller.create_of_boot
    {A : Allocator}
    {links : Links}
    {memory : Memory}
    {dir : ProcDir}
    {kernel : Netlink.Kernel}
    {getpid : UInt32}
    {closed : Int}
    {cpuUsePerProcess : Bool}
    {stat : SystemStat}
    {ctrl : Controller}
    {s : Netlink.Subscription}
    (hBoot :
      boot A links memory dir kernel getpid closed
        cpuUsePerProcess stat = .ok (ctrl, s)) :
    s = Netlink.subscribe kernel getpid closed ∧
      create A links memory dir s.fd cpuUsePerProcess stat =
        .ok ctrl := by
  unfold boot at hBoot
  dsimp only at hBoot
  cases hCreate :
      create A links memory dir
        (Netlink.subscribe kernel getpid closed).fd
        cpuUsePerProcess stat with
  | error e =>
      rw [hCreate] at hBoot
      cases hBoot
  | ok made =>
      rw [hCreate] at hBoot
      have hPair := Except.ok.inj hBoot
      rw [Prod.mk.injEq] at hPair
      rcases hPair with ⟨rfl, rfl⟩
      exact ⟨rfl, hCreate⟩

/- What neither reads an event nor polls. -/
def Op.Aside : Op → Prop
| .event _ => False
| .insert _ => False
| .remove _ => False
| .reload _ => False
| .onTimer _ => False
| _ => True

namespace World

/-
  The timer is due, there is something to receive, or the
  module works for another reason.
-/
inductive Turn where
| timer (dir : ProcDir)
| input (received : Except Nat Netlink.Datagram)
| work (op : Op)

namespace Turn

/-
  The loop over the messages of a datagram returns, and other
  work neither reads an event nor polls.
-/
def Sound : Turn → Prop
| timer _ => True
| input (.error _) => True
| input (.ok d) =>
    d.Accepted →
      Netlink.nlmsgNoop ∉ Netlink.typesRead d.messages
| work o => o.Aside

/- What a datagram changes in the tracked set. -/
def changes
    (beyond : Netlink.Bytes) :
    Turn → List (Registry.Change Pid)
| input (.ok d) => (d.events beyond).flatMap ProcEvent.changes
| _ => []

/- The processes that were last listed. -/
def listed (pids : List Pid) : Turn → List Pid
| timer dir => snapshot dir
| _ => pids

end Turn

/-
  One turn. The main loop calls `handle_event` for a socket
  that is enabled.
-/
def turn
    (A : Allocator)
    (beyond : Netlink.Bytes)
    (s : Netlink.Subscription)
    (w : World) : Turn → World
| .timer dir => w.step A (.onTimer dir)
| .input received =>
    if s.enabled then w.receive A beyond received else w
| .work o => w.step A o

------------------------------------------------------------
-- Steps
------------------------------------------------------------

/- Work of another kind leaves the numbers alone. -/
theorem pids_aside
    (A : Allocator)
    (w : World)
    {op : Op}
    (hAside : op.Aside) :
    (w.step A op).ctrl.pids = w.ctrl.pids := by
  rw [pids_step]
  cases op with
  | event ev => cases hAside
  | insert pid => cases hAside
  | remove pid => cases hAside
  | reload dir => cases hAside
  | onTimer dir => cases hAside
  | links _ => rfl
  | construct _ _ => rfl
  | insertAgent _ => rfl
  | removeAgent _ => rfl
  | start _ _ => rfl
  | refreshAgent _ _ => rfl
  | refresh _ _ => rfl
  | updateAgents => rfl
  | getState _ _ => rfl

theorem fd_after
    (A : Allocator)
    (w : World)
    (ops : List Op) :
    (Runs.after (step A) w ops).ctrl.fd = w.ctrl.fd := by
  induction ops generalizing w with
  | nil => rfl
  | cons op ops ih => rw [Runs.after_cons, ih, step_fd]

/- The tracked set follows a sequence of events. -/
theorem tracked_events
    (A : Allocator)
    (w : World)
    (evs : List ProcEvent) :
    (Runs.after (step A) w (evs.map Op.event)).tracked =
      Registry.replay w.tracked
        (evs.flatMap ProcEvent.changes) := by
  induction evs generalizing w with
  | nil => rfl
  | cons ev evs ih =>
      rw [List.map_cons, Runs.after_cons, ih, tracked_event,
        List.flatMap_cons, Registry.replay_append]

/- On an open and enabled socket a turn replays its changes. -/
theorem turn_enabled
    (A : Allocator)
    (beyond : Netlink.Bytes)
    {s : Netlink.Subscription}
    (hEnabled : s.enabled = true)
    {w : World}
    (hFd : 0 ≤ w.ctrl.fd)
    {t : Turn}
    (hSound : t.Sound) :
    0 ≤ (w.turn A beyond s t).ctrl.fd ∧
      (w.turn A beyond s t).tracked =
        Registry.replay w.tracked (t.changes beyond) := by
  cases t with
  | timer dir =>
      refine ⟨?_, tracked_quiet A hFd trivial⟩
      change 0 ≤ (w.step A (.onTimer dir)).ctrl.fd
      rw [step_fd]
      exact hFd
  | input received =>
      have hTurn :
          w.turn A beyond s (.input received) =
            w.receive A beyond received :=
        if_pos hEnabled
      rw [hTurn]
      cases received with
      | error errno => exact ⟨hFd, rfl⟩
      | ok d =>
          rw [receive_events A beyond hSound, fd_after,
            tracked_events]
          exact ⟨hFd, rfl⟩
  | work o =>
      constructor
      · change 0 ≤ (w.step A o).ctrl.fd
        rw [step_fd]
        exact hFd
      · change (w.step A o).tracked = w.tracked
        ext pid
        rw [mem_tracked_iff, mem_tracked_iff,
          pids_aside A w hSound]

/- Without a socket, a turn of the timer sets the list. -/
theorem turn_disabled
    (A : Allocator)
    (beyond : Netlink.Bytes)
    {s : Netlink.Subscription}
    (hDisabled : s.enabled = false)
    {w : World}
    {pids : List Pid}
    (hFd : w.ctrl.fd < 0)
    (hPids : ∀ pid, w.ctrl.Tracks pid ↔ pid ∈ pids)
    {t : Turn}
    (hSound : t.Sound) :
    (w.turn A beyond s t).ctrl.fd < 0 ∧
      ∀ pid,
        (w.turn A beyond s t).ctrl.Tracks pid ↔
          pid ∈ t.listed pids := by
  cases t with
  | timer dir =>
      have hPolls :
          w.turn A beyond s (.timer dir) =
            w.step A (.reload dir) := by
        have hCtrl :
            w.ctrl.onTimer A w.links dir =
              w.ctrl.reload A w.links dir :=
          if_pos hFd
        change
          (⟨w.ctrl.onTimer A w.links dir, w.links⟩ : World) = _
        rw [hCtrl]
        rfl
      rw [hPolls, step_fd]
      refine ⟨hFd, fun pid => ?_⟩
      change (w.ctrl.reload A w.links dir).Tracks pid ↔ _
      rw [Controller.reload_eq_reconcile]
      exact Controller.reconcile_tracks_iff _ _ _
  | input received =>
      have hTurn :
          w.turn A beyond s (.input received) = w :=
        if_neg (by rw [hDisabled]; exact Bool.false_ne_true)
      rw [hTurn]
      exact ⟨hFd, hPids⟩
  | work o =>
      constructor
      · change (w.step A o).ctrl.fd < 0
        rw [step_fd]
        exact hFd
      · intro pid
        change pid ∈ (w.step A o).ctrl.pids ↔ pid ∈ pids
        rw [pids_aside A w hSound]
        exact hPids pid

------------------------------------------------------------
-- Runs
------------------------------------------------------------

section

variable {A : Allocator} {beyond : Netlink.Bytes}
variable {s : Netlink.Subscription} {w : World}
variable {turns : List Turn}

/- All that the datagrams say, and nothing else. -/
theorem tracked_of_enabled
    (hEnabled : s.enabled = true)
    (hFd : 0 ≤ w.ctrl.fd)
    (hSound : ∀ t ∈ turns, t.Sound) :
    (Runs.after (turn A beyond s) w turns).tracked =
      Registry.replay w.tracked
        (turns.flatMap (Turn.changes beyond)) := by
  let replay (known : Set Pid) (t : Turn) : Set Pid :=
    Registry.replay known (t.changes beyond)
  let Follows (w : World) (known : Set Pid) : Prop :=
    0 ≤ w.ctrl.fd ∧ w.tracked = known
  have hStep :
      ∀ w known (t : Turn), Follows w known → t.Sound →
        Follows (turn A beyond s w t) (replay known t) := by
    rintro w known t ⟨hOpen, hKnown⟩ hTurn
    have hNext := turn_enabled A beyond hEnabled hOpen hTurn
    rw [hKnown] at hNext
    exact hNext
  have hRelated :
      Follows (Runs.after (turn A beyond s) w turns)
        (Runs.after replay w.tracked turns) :=
    Runs.related_of_along hStep ⟨hFd, rfl⟩
      (Runs.along_of_forall_mem hSound w.tracked)
  rw [hRelated.2]
  exact List.foldl_flatMap.symm

/- All that the last listing says, and nothing else. -/
theorem tracks_of_disabled
    (hDisabled : s.enabled = false)
    (hFd : w.ctrl.fd < 0)
    (hSound : ∀ t ∈ turns, t.Sound)
    (pid : Pid) :
    (Runs.after (turn A beyond s) w turns).ctrl.Tracks pid ↔
      pid ∈ turns.foldl Turn.listed w.ctrl.pids := by
  let Lists (w : World) (pids : List Pid) : Prop :=
    w.ctrl.fd < 0 ∧ ∀ pid, w.ctrl.Tracks pid ↔ pid ∈ pids
  have hStep :
      ∀ w pids (t : Turn), Lists w pids → t.Sound →
        Lists (turn A beyond s w t) (t.listed pids) := by
    rintro w pids t ⟨hNone, hPids⟩ hTurn
    exact turn_disabled A beyond hDisabled hNone hPids hTurn
  have hRelated :
      Lists (Runs.after (turn A beyond s) w turns)
        (Runs.after Turn.listed w.ctrl.pids turns) :=
    Runs.related_of_along hStep ⟨hFd, fun _ => Iff.rfl⟩
      (Runs.along_of_forall_mem hSound w.ctrl.pids)
  exact hRelated.2 pid

end

/-
  However the kernel answers the constructor and whatever
  happens afterwards, in any order, the processes are those
  that were loaded, as changed by every datagram since, or
  those that the last turn of the timer listed.
-/
theorem one_source
    {A : Allocator}
    {beyond : Netlink.Bytes}
    {links : Links}
    {memory : Memory}
    {dir : ProcDir}
    {kernel : Netlink.Kernel}
    {getpid : UInt32}
    {closed : Int}
    {cpuUsePerProcess : Bool}
    {stat : Controller.SystemStat}
    {ctrl : Controller}
    {s : Netlink.Subscription}
    {pids : List Pid}
    {turns : List Turn}
    (hLoad : load dir = .ok pids)
    (hBoot :
      Controller.boot A links memory dir kernel getpid closed
        cpuUsePerProcess stat = .ok (ctrl, s))
    (hClosed : closed < 0)
    (hSound : ∀ t ∈ turns, t.Sound) :
    let w := Runs.after (turn A beyond s) ⟨ctrl, links⟩ turns
    (Netlink.Grants kernel getpid →
      w.tracked =
        Registry.replay (Set.ofPred fun pid => pid ∈ pids)
          (turns.flatMap (Turn.changes beyond))) ∧
    (¬ Netlink.Grants kernel getpid →
      ∀ pid, w.ctrl.Tracks pid ↔
        pid ∈ turns.foldl Turn.listed pids) := by
  rcases Controller.create_of_boot hBoot with ⟨hS, hCreate⟩
  have hPids : ctrl.pids = pids := pids_create hLoad hCreate
  have hFd : ctrl.fd = s.fd := fd_create hCreate
  have hTracked :
      (⟨ctrl, links⟩ : World).tracked =
        Set.ofPred fun pid => pid ∈ pids := by
    rw [← hPids]
    rfl
  constructor
  · intro hGrants
    have hOpened :
        s.enabled = true ∧
          s.fd = (kernel Netlink.socketCall).ret := by
      rw [hS]
      have hAll := Netlink.subscribe_of_grants closed hGrants
      exact ⟨hAll.1, hAll.2.1⟩
    have hOpen : 0 ≤ ctrl.fd := by
      rw [hFd, hOpened.2]
      exact hGrants.1
    rw [← hTracked]
    exact tracked_of_enabled hOpened.1 hOpen hSound
  · intro hDenied
    have hNone : s.enabled = false ∧ s.fd < 0 := by
      rw [hS]
      have hAll := Netlink.subscribe_of_denied hClosed hDenied
      exact ⟨hAll.1, hAll.2.1⟩
    have hUnset : ctrl.fd < 0 := by
      rw [hFd]
      exact hNone.2
    rw [← hPids]
    exact tracks_of_disabled hNone.1 hUnset hSound

/- A kernel that refuses the group of the connector. -/
def refusing : Netlink.Kernel
| .socket _ _ _ => ⟨3, 0⟩
| .setsockopt _ _ _ _ => ⟨0, 0⟩
| .bind _ _ => ⟨-1, 1⟩
| .send _ bytes => ⟨bytes.length, 0⟩

/-
  There a report that process 5 execs is not read, and the
  timer finds process 7.
-/
theorem one_source_sample :
    let s := Netlink.subscribe refusing 42 (-1)
    let turns : List Turn :=
      [.input (.ok Processes.sentExec.report.datagram),
        .timer (.ok [⟨true, "7".toList⟩])]
    let w :=
      Runs.after (turn (.above []) (fun _ => 0) s)
        ⟨{ oneLoaded.ctrl with fd := -1 }, fun _ => none⟩
        turns
    ∀ pid, w.ctrl.Tracks pid ↔ pid ∈ [7] := by
  intro s turns
  have hLoad : load oneProcess = .ok [5] := rfl
  have hBoot :
      Controller.boot (.above []) (fun _ => none)
          (fun _ => { kind := .exeName [] }) oneProcess
          refusing 42 (-1) true ⟨0, 0⟩ =
        .ok ({ oneLoaded.ctrl with fd := -1 }, s) := rfl
  have hSound : ∀ t ∈ turns, t.Sound := by
    have hReport :=
      Processes.sentExec.report.events_datagram fun _ => 0
    unfold turns
    simp only [List.forall_mem_cons]
    exact ⟨fun _ => hReport.2, trivial,
      List.forall_mem_nil _⟩
  have hDenied : ¬ Netlink.Grants refusing 42 := by decide
  exact
    (one_source hLoad hBoot (by decide) hSound).2 hDenied

end World

end UdjatProcess
