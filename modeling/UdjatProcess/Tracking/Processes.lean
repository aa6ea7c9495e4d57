import UdjatProcess.Tracking.Tracked

/-
  Single-threaded processes that fork, exec and exit, and
  what event mode makes of them (`handle_event` in
  `controller/init.cc`).

  The kernel reports every fork, exec and exit. The switch
  has no case for a fork, so a child is tracked only once it
  calls exec. The tracked processes are the live ones
  exactly when no live process still runs the program that
  it was forked with.

  Key definitions include:
    * `Processes`
    * `Processes.act`
    * `Processes.emit`
    * `World.TracksLive`

  Key theorems include:
    * `Processes.tracked_eq_shown`
    * `World.tracksLive_iff`
    * `World.child_not_tracked`
-/

------------------------------------------------------------
-- The Process Table
------------------------------------------------------------

namespace UdjatProcess

/- How a live process came by the program it runs. -/
inductive Origin where
| loaded
| forked
| execed
deriving DecidableEq

/- The live processes. -/
abbrev Processes := Pid → Option Origin

namespace Processes

/- What processes do. -/
inductive Act where
| fork (parent child : Pid)
| exec (pid : Pid)
| exit (pid : Pid) (exitCode exitSignal : UInt32)
deriving DecidableEq

/- The process exists. -/
def Alive (self : Processes) (pid : Pid) : Prop :=
  self pid ≠ none

instance (self : Processes) (pid : Pid) :
    Decidable (self.Alive pid) := by
  unfold Alive
  infer_instance

/-
  Only a live process forks, execs or exits, and the child's
  number is free; an exit is reaped at once.
-/
def Possible (self : Processes) : Act → Prop
| .fork parent child => self.Alive parent ∧ ¬ self.Alive child
| .exec pid => self.Alive pid
| .exit pid _ _ => self.Alive pid

instance (self : Processes) (a : Act) :
    Decidable (self.Possible a) := by
  cases a <;> unfold Possible <;> infer_instance

/- The process whose entry an act changes, and the entry. -/
def Act.entry : Act → Pid × Option Origin
| .fork _ child => (child, some .forked)
| .exec pid => (pid, some .execed)
| .exit pid _ _ => (pid, none)

/- The event that reports an act. -/
def Act.event : Act → ProcEvent
| .fork parent child => .fork parent parent child child
| .exec pid => .exec pid pid
| .exit pid exitCode exitSignal =>
    .exit pid pid exitCode exitSignal

/- The table after an act; what is impossible does nothing. -/
def act (self : Processes) (a : Act) : Processes :=
  if self.Possible a then
    Function.update self a.entry.1 a.entry.2
  else
    self

/- The events that the kernel emits for an act. -/
def emit (self : Processes) (a : Act) : List ProcEvent :=
  if self.Possible a then [a.event] else []

/- The table at the load: the processes of the snapshot. -/
def atLoad (pids : List Pid) : Processes :=
  fun pid => if pid ∈ pids then some .loaded else none

/- The processes that were loaded or have called exec. -/
def shown (self : Processes) : Set Pid :=
  Set.ofPred fun pid => ∃ o, self pid = some o ∧ o ≠ .forked

theorem mem_shown_iff
    (self : Processes)
    (pid : Pid) :
    pid ∈ self.shown ↔
      ∃ o, self pid = some o ∧ o ≠ .forked := Iff.rfl

/- An act and its event change the shown set alike. -/
theorem shown_act
    (self : Processes)
    (a : Act) :
    (self.act a).shown =
      (self.emit a).foldl
        (fun s ev => Registry.replay s ev.changes)
        self.shown := by
  unfold act emit
  split
  · next hPossible =>
    ext p
    cases a with
    | fork parent child =>
        have hFree : self child = none :=
          not_not.mp hPossible.2
        by_cases hEq : p = child
        · subst hEq
          simp [mem_shown_iff, Act.entry, Act.event,
            ProcEvent.changes, hFree]
        · simp [mem_shown_iff, Act.entry, Act.event,
            ProcEvent.changes, hEq]
    | exec pid =>
        by_cases hEq : p = pid
        · subst hEq
          simp [mem_shown_iff, Act.entry, Act.event,
            ProcEvent.changes]
        · simp [mem_shown_iff, Act.entry, Act.event,
            ProcEvent.changes, hEq]
    | exit pid exitCode exitSignal =>
        by_cases hEq : p = pid
        · subst hEq
          simp [mem_shown_iff, Act.entry, Act.event,
            ProcEvent.changes]
        · simp [mem_shown_iff, Act.entry, Act.event,
            ProcEvent.changes, hEq]
  · rfl

theorem shown_atLoad (pids : List Pid) (pid : Pid) :
    pid ∈ (atLoad pids).shown ↔ pid ∈ pids := by
  rw [mem_shown_iff]
  unfold atLoad
  by_cases hMem : pid ∈ pids
  · simp [hMem]
  · simp [hMem]

/-
  Every live process is shown exactly when none is a child
  that has not called exec.
-/
theorem shown_eq_alive_iff (self : Processes) :
    (∀ pid, pid ∈ self.shown ↔ self.Alive pid) ↔
      ∀ pid, self pid ≠ some .forked := by
  constructor
  · intro hAll pid hForked
    have hAlive : self.Alive pid := by
      unfold Alive
      rw [hForked]
      exact Option.some_ne_none _
    rcases (hAll pid).mpr hAlive with ⟨o, hOrigin, hNe⟩
    rw [hForked] at hOrigin
    exact hNe (Option.some.inj hOrigin).symm
  · intro hNone pid
    rw [mem_shown_iff]
    constructor
    · rintro ⟨o, hOrigin, _⟩
      unfold Alive
      rw [hOrigin]
      exact Option.some_ne_none o
    · intro hAlive
      rcases Option.ne_none_iff_exists'.mp hAlive with ⟨o, ho⟩
      refine ⟨o, ho, ?_⟩
      intro hEq
      rw [hEq] at ho
      exact hNone pid ho

/- The processes and the module after a run. -/
abbrev run
    (A : Allocator)
    (s : World.Net Processes)
    (moves : List (World.NetMove Act)) :
    World.Net Processes :=
  World.observe A act emit s moves

/-
  Once all events are handled, the module tracks the shown
  processes.
-/
theorem tracked_eq_shown
    {A : Allocator}
    {pids : List Pid}
    {w : World}
    {moves : List (World.NetMove Act)}
    (hPids : w.ctrl.pids = pids)
    (hFd : 0 ≤ w.ctrl.fd)
    (hQuiet : World.QuietMoves moves)
    (hDrained :
      (run A (World.boot (atLoad pids) w) moves).queue = []) :
    (run A (World.boot (atLoad pids) w) moves).replica.tracked =
      (run A (World.boot (atLoad pids) w)
        moves).source.shown := by
  apply World.tracked_of_drained shown_act hFd hQuiet _ hDrained
  ext p
  rw [World.mem_tracked_iff, hPids]
  exact (shown_atLoad pids p).symm

end Processes

------------------------------------------------------------
-- Tracking Every Process
------------------------------------------------------------

namespace World

/-
  The module tracks exactly the live processes, and a search
  finds each of them.
-/
structure TracksLive (w : World) (live : Processes) : Prop where
  tracks : ∀ pid, w.ctrl.Tracks pid ↔ live.Alive pid
  found : ∀ pid, live.Alive pid → w.ctrl.find pid ≠ none

theorem tracksLive_iff_of_tracked
    {w : World}
    {live : Processes}
    (hShown : w.tracked = live.shown) :
    w.TracksLive live ↔ ∀ pid, live pid ≠ some .forked := by
  rw [← live.shown_eq_alive_iff, ← hShown]
  constructor
  · exact TracksLive.tracks
  · intro hTracks
    refine ⟨hTracks, ?_⟩
    intro pid hAlive hNone
    have hNot := (w.ctrl.find_none_iff pid).mp hNone
    exact hNot ((hTracks pid).mpr hAlive)

/-
  After any history whose events are all handled, the module
  tracks exactly the live processes if and only if no live
  process was forked without calling exec since.
-/
theorem tracksLive_iff
    {A : Allocator}
    {links : Links}
    {memory : Memory}
    {dir : ProcDir}
    {fd : Int}
    {cpuUsePerProcess : Bool}
    {stat : Controller.SystemStat}
    {ctrl : Controller}
    {pids : List Pid}
    {moves : List (NetMove Processes.Act)}
    (hLoad : load dir = .ok pids)
    (hCreate :
      Controller.create A links memory dir fd
        cpuUsePerProcess stat = .ok ctrl)
    (hFd : 0 ≤ fd)
    (hQuiet : QuietMoves moves)
    (hDrained :
      (Processes.run A
        (boot (Processes.atLoad pids) ⟨ctrl, links⟩)
        moves).queue = []) :
    let s :=
      Processes.run A
        (boot (Processes.atLoad pids) ⟨ctrl, links⟩) moves
    s.replica.TracksLive s.source ↔
      ∀ pid, s.source pid ≠ some .forked := by
  apply tracksLive_iff_of_tracked
  apply Processes.tracked_eq_shown
    (pids_create hLoad hCreate) _ hQuiet hDrained
  rw [fd_create hCreate]
  exact hFd

/- A child that calls exec is tracked from then on. -/
theorem tracksLive_sample :
    let s :=
      Processes.run (.above [])
        (boot (Processes.atLoad [5]) oneLoaded)
        [.act (.fork 5 6), .deliver, .act (.exec 6),
          .work (.onTimer oneProcess), .deliver]
    s.replica.TracksLive s.source := by
  intro s
  have hSource :
      s.source =
        Function.update
          (Function.update (Processes.atLoad [5]) 6
            (some .forked))
          6 (some .execed) := rfl
  have hLoad : load oneProcess = .ok [5] := rfl
  apply (tracksLive_iff hLoad create_oneLoaded (by decide)
    (by simp [Op.Quiet]) rfl).mpr
  intro pid
  change s.source pid ≠ some .forked
  rw [hSource]
  by_cases hEq : pid = 6
  · simp [hEq]
  · by_cases hMem : pid = 5
    · simp [hMem, Processes.atLoad]
    · simp [hEq, hMem, Processes.atLoad]

/-
  Process 5 forks process 6, which goes on with the same
  program. No search finds it.
-/
theorem child_not_tracked :
    let s :=
      Processes.run (.above [])
        (boot (Processes.atLoad [5]) oneLoaded)
        [.act (.fork 5 6), .deliver]
    s.queue = [] ∧ s.source.Alive 6 ∧
      s.replica.ctrl.find 6 = none ∧
      ¬ s.replica.TracksLive s.source := by
  intro s
  have hAlive : s.source.Alive 6 := by decide
  have hNone : s.replica.ctrl.find 6 = none := by decide
  refine ⟨rfl, hAlive, hNone, ?_⟩
  intro hTracks
  exact hTracks.found 6 hAlive hNone

end World

end UdjatProcess
