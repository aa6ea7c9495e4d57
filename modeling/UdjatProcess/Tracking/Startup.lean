import UdjatProcess.Tracking.Tracked

/-
  The constructor's two steps, a snapshot of `/proc` and
  then the subscription to the kernel's events
  (`Controller::Controller` in `controller/init.cc`).

  What starts or ends between the two is in neither, and
  with the socket open the timer never reads `/proc` again.
  The tracked processes end as the live ones exactly when
  every process that does not start or end afterwards is as
  it was in the snapshot when the subscription is made.

  Key definitions include:
    * `Host`
    * `Host.act`
    * `Host.emit`
    * `Host.liveAfter`

  Key theorems include:
    * `Host.emitted_startup`
    * `Host.tracked_of_startup`
    * `World.startup_exact_iff`
    * `World.startup_misses`
-/

------------------------------------------------------------
-- The Host
------------------------------------------------------------

namespace UdjatProcess

/- The live processes, and is anyone listening for events. -/
structure Host where
  alive : Pid → Bool
  listening : Bool

namespace Host

/- A process starts, or changes its program, or ends. -/
inductive Life where
| start (pid : Pid)
| exit (pid : Pid) (exitCode exitSignal : UInt32)
deriving DecidableEq

namespace Life

def pid : Life → Pid
| start pid => pid
| exit pid _ _ => pid

def event : Life → ProcEvent
| start pid => .exec pid pid
| exit pid exitCode exitSignal =>
    .exit pid pid exitCode exitSignal

/- What it changes among the live processes. -/
def change : Life → Registry.Change Pid
| start pid => .enter pid
| exit pid _ _ => .leave pid

@[simp] theorem change_key (l : Life) :
    l.change.key = l.pid := by
  cases l <;> rfl

/- The event stands for the same change. -/
theorem changes_event (l : Life) :
    l.event.changes = [l.change] := by
  cases l <;> rfl

end Life

/- What happens on the host, and the module's subscription. -/
inductive Act where
| life (l : Life)
| subscribe
deriving DecidableEq

/- The host after an act. -/
def act (self : Host) : Act → Host
| .life (.start pid) =>
    { self with alive := Function.update self.alive pid true }
| .life (.exit pid _ _) =>
    { self with alive := Function.update self.alive pid false }
| .subscribe => { self with listening := true }

/- Events are for listeners only. -/
def emit (self : Host) : Act → List ProcEvent
| .life l => if self.listening then [l.event] else []
| .subscribe => []

/- The live processes as a set. -/
def live (self : Host) : Set Pid :=
  Set.ofPred fun pid => self.alive pid = true

@[simp] theorem mem_live_iff
    (self : Host)
    (pid : Pid) :
    pid ∈ self.live ↔ self.alive pid = true := Iff.rfl

/- The host when the module takes its snapshot. -/
def atLoad (pids : List Pid) : Host where
  alive pid := decide (pid ∈ pids)
  listening := false

/- The set of processes in a list, after a history. -/
def liveAfter
    (pids : List Pid)
    (history : List Life) : Set Pid :=
  Registry.replay (Set.ofPred fun pid => pid ∈ pids)
    (history.map Life.change)

/- No act of the history is about the process. -/
def Untouched (pid : Pid) (history : List Life) : Prop :=
  ∀ l ∈ history, l.pid ≠ pid

theorem untouched_iff
    (pid : Pid)
    (history : List Life) :
    Untouched pid history ↔
      ¬ Registry.Touched pid (history.map Life.change) := by
  simp [Untouched, Registry.Touched]

------------------------------------------------------------
-- Histories
------------------------------------------------------------

theorem live_act
    (self : Host)
    (l : Life) :
    (self.act (.life l)).live =
      Registry.change self.live l.change := by
  ext p
  cases l with
  | start pid =>
      by_cases hEq : p = pid
      · simp [act, Life.change, hEq]
      · simp [act, Life.change, hEq]
  | exit pid exitCode exitSignal =>
      by_cases hEq : p = pid
      · simp [act, Life.change, hEq]
      · simp [act, Life.change, hEq]

theorem listening_act
    (self : Host)
    (l : Life) :
    (self.act (.life l)).listening = self.listening := by
  cases l <;> rfl

/- The live processes after a history. -/
theorem live_foldl
    (self : Host)
    (history : List Life) :
    ((history.map Act.life).foldl act self).live =
      Registry.replay self.live
        (history.map Life.change) := by
  induction history generalizing self with
  | nil => rfl
  | cons l history ih =>
      rw [List.map_cons, List.foldl_cons, ih, live_act]
      rfl

/- Without a listener nothing is reported. -/
theorem emitted_unheard
    (A : Allocator)
    {self : Host}
    (hListening : self.listening = false)
    (history : List Life) :
    Relay.emitted (World.monitor A act emit) self
      (history.map .life) = [] := by
  induction history generalizing self with
  | nil => rfl
  | cons l history ih =>
      have hNext : (self.act (.life l)).listening = false :=
        (listening_act self l).trans hListening
      have hEmit : self.emit (.life l) = [] := by
        simp [emit, hListening]
      change self.emit (.life l) ++ _ = []
      rw [hEmit]
      exact ih hNext

/- With a listener everything is. -/
theorem emitted_heard
    (A : Allocator)
    {self : Host}
    (hListening : self.listening = true)
    (history : List Life) :
    Relay.emitted (World.monitor A act emit) self
        (history.map .life) =
      history.map Life.event := by
  induction history generalizing self with
  | nil => rfl
  | cons l history ih =>
      have hNext : (self.act (.life l)).listening = true :=
        (listening_act self l).trans hListening
      have hEmit : self.emit (.life l) = [l.event] := by
        simp [emit, hListening]
      change self.emit (.life l) ++ _ = _
      rw [hEmit, List.map_cons]
      exact congrArg (l.event :: ·) (ih hNext)

/- The acts of a start-up. -/
def startup (window rest : List Life) : List Act :=
  window.map .life ++ .subscribe :: rest.map .life

/- The module hears what happens after the subscription. -/
theorem emitted_startup
    (A : Allocator)
    (pids : List Pid)
    (window rest : List Life) :
    Relay.emitted (World.monitor A act emit) (atLoad pids)
        (startup window rest) =
      rest.map Life.event := by
  unfold startup
  rw [Relay.emitted_append, emitted_unheard A rfl window]
  exact emitted_heard A rfl rest

/- The live processes are those of the whole history. -/
theorem live_startup
    (pids : List Pid)
    (window rest : List Life) :
    ((startup window rest).foldl act (atLoad pids)).live =
      Registry.replay (liveAfter pids window)
        (rest.map Life.change) := by
  unfold startup
  rw [List.foldl_append, List.foldl_cons, live_foldl]
  congr 1
  have hSubscribe :
      ∀ host : Host, (host.act .subscribe).live = host.live :=
    fun _ => rfl
  rw [hSubscribe, live_foldl]
  congr 1
  ext p
  simp [atLoad]

------------------------------------------------------------
-- The Module And The Host
------------------------------------------------------------

/- The host and the module after a run. -/
abbrev run
    (A : Allocator)
    (s : World.Net Host)
    (moves : List (World.NetMove Act)) : World.Net Host :=
  World.observe A act emit s moves

/-
  Once all events are handled, the module tracks the
  snapshot changed by what happened since the subscription.
-/
theorem tracked_of_startup
    {A : Allocator}
    {pids : List Pid}
    {w : World}
    {moves : List (World.NetMove Act)}
    {window rest : List Life}
    (hPids : w.ctrl.pids = pids)
    (hFd : 0 ≤ w.ctrl.fd)
    (hHistory : Relay.acts moves = startup window rest)
    (hQuiet : World.QuietMoves moves)
    (hDrained :
      (run A (World.boot (atLoad pids) w) moves).queue = []) :
    (run A (World.boot (atLoad pids) w) moves).replica.tracked =
      liveAfter pids rest := by
  have hStart :
      w.tracked = Set.ofPred fun pid => pid ∈ pids := by
    ext p
    rw [World.mem_tracked_iff, hPids]
    rfl
  have hView :=
    Relay.view_of_drained (World.trackedView A act emit)
      (s := World.boot (atLoad pids) w) hFd hQuiet rfl hDrained
  rw [hHistory] at hView
  refine hView.trans ?_
  change
    (Relay.emitted (World.monitor A act emit) (atLoad pids)
      (startup window rest)).foldl
        (fun s ev => Registry.replay s ev.changes) w.tracked =
      liveAfter pids rest
  rw [emitted_startup, List.foldl_map, hStart]
  unfold liveAfter Registry.replay
  rw [List.foldl_map]
  congr 1
  funext s l
  rw [Life.changes_event]
  rfl

end Host

------------------------------------------------------------
-- Tracking From The Start
------------------------------------------------------------

namespace World

/- The tracked processes are the live processes of a host. -/
def TracksHost (w : World) (host : Host) : Prop :=
  ∀ pid, w.ctrl.Tracks pid ↔ host.alive pid = true

/-
  Once all events are handled, the module tracks exactly the
  live processes if and only if every process that neither
  starts nor ends after the subscription is live at the
  subscription when, and only when, it is in the snapshot.
-/
theorem startup_exact_iff
    {A : Allocator}
    {links : Links}
    {memory : Memory}
    {dir : ProcDir}
    {fd : Int}
    {cpuUsePerProcess : Bool}
    {stat : Controller.SystemStat}
    {ctrl : Controller}
    {pids : List Pid}
    {window rest : List Host.Life}
    {moves : List (NetMove Host.Act)}
    (hLoad : load dir = .ok pids)
    (hCreate :
      Controller.create A links memory dir fd
        cpuUsePerProcess stat = .ok ctrl)
    (hFd : 0 ≤ fd)
    (hHistory : Relay.acts moves = Host.startup window rest)
    (hQuiet : QuietMoves moves)
    (hDrained :
      (Host.run A (boot (Host.atLoad pids) ⟨ctrl, links⟩)
        moves).queue = []) :
    let s :=
      Host.run A (boot (Host.atLoad pids) ⟨ctrl, links⟩) moves
    s.replica.TracksHost s.source ↔
      ∀ pid, Host.Untouched pid rest →
        (pid ∈ pids ↔ pid ∈ Host.liveAfter pids window) := by
  intro s
  have hOpen : 0 ≤ ctrl.fd := by
    rw [fd_create hCreate]
    exact hFd
  have hTracked :
      s.replica.tracked = Host.liveAfter pids rest :=
    Host.tracked_of_startup (pids_create hLoad hCreate) hOpen
      hHistory hQuiet hDrained
  have hLive :
      s.source.live =
        Registry.replay (Host.liveAfter pids window)
          (rest.map Host.Life.change) := by
    have hSource :=
      Relay.source_after (monitor A Host.act Host.emit)
        (boot (Host.atLoad pids) ⟨ctrl, links⟩) moves
    rw [hHistory] at hSource
    exact (congrArg Host.live hSource).trans
      (Host.live_startup pids window rest)
  have hSets :
      s.replica.TracksHost s.source ↔
        s.replica.tracked = s.source.live :=
    Set.ext_iff.symm
  rw [hSets, hTracked, hLive]
  unfold Host.liveAfter
  rw [Registry.replay_eq_iff]
  simp only [Host.untouched_iff]
  rfl

/-
  Process 6 starts and ends between the snapshot and the
  subscription, and process 8 starts there and execs after
  it. What happens after it is not missed.
-/
theorem startup_exact_sample :
    let moves : List (NetMove Host.Act) :=
      [.act (.life (.start 6)), .act (.life (.exit 6 0 17)),
        .act (.life (.start 8)), .act .subscribe,
        .act (.life (.start 8)), .act (.life (.exit 5 0 17)),
        .deliver, .work (.onTimer oneProcess), .deliver]
    let s :=
      Host.run (.above []) (boot (Host.atLoad [5]) oneLoaded)
        moves
    s.replica.TracksHost s.source ∧ s.replica.ctrl.Tracks 8 := by
  intro moves s
  have hLoad : load oneProcess = .ok [5] := rfl
  have hHistory :
      Relay.acts moves =
        Host.startup
          [.start 6, .exit 6 0 17, .start 8]
          [.start 8, .exit 5 0 17] := rfl
  refine ⟨?_, by decide⟩
  apply (startup_exact_iff hLoad create_oneLoaded (by decide)
    hHistory (by simp [moves, Op.Quiet]) rfl).mpr
  intro pid hUntouched
  have hEighth : (8 : Pid) ≠ pid :=
    hUntouched (.start 8) List.mem_cons_self
  have hFifth : (5 : Pid) ≠ pid :=
    hUntouched (.exit 5 0 17)
      (List.mem_cons_of_mem _ List.mem_cons_self)
  simp [Host.liveAfter, Host.Life.change, Ne.symm hEighth,
    Ne.symm hFifth]

/-
  Process 6 starts between the snapshot and the
  subscription. No event tells of it and the timer does not
  look.
-/
theorem startup_misses :
    let s :=
      Host.run (.above []) (boot (Host.atLoad [5]) oneLoaded)
        [.act (.life (.start 6)), .act .subscribe,
          .work (.onTimer
            (.ok [⟨true, "5".toList⟩, ⟨true, "6".toList⟩]))]
    s.queue = [] ∧ s.source.alive 6 = true ∧
      ¬ s.replica.ctrl.Tracks 6 ∧
      ¬ s.replica.TracksHost s.source := by
  intro s
  have hAlive : s.source.alive 6 = true := by decide
  have hNot : ¬ s.replica.ctrl.Tracks 6 := by decide
  refine ⟨rfl, hAlive, hNot, ?_⟩
  intro hTracks
  exact hNot ((hTracks 6).mpr hAlive)

end World

end UdjatProcess
