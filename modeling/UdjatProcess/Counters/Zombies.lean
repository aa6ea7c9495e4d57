import Mathlib.Data.Set.Card
import UdjatProcess.System.Accounts
import UdjatProcess.Tracking.Processes
import UdjatProcess.Usage.Update

/-
  The zombies that a counter counts in event mode
  (`handle_event` in `controller/init.cc`,
  `Controller::count` and `refresh.cc`).

  A process that exits stays in the process table until its
  parent reaps it. The update would read its state `Z`, but
  the event of the exit has removed its identifier before.
  Only what was a zombie already when the list was loaded is
  counted, so the count is right exactly while no tracked
  process that exited later waits to be reaped.

  Key definitions include:
    * `ProcTable`
    * `ProcTable.act`
    * `ProcTable.emit`
    * `ProcTable.zombies`
    * `ProcTable.Matches`

  Key theorems include:
    * `ProcTable.matches_act`
    * `Controller.count_refresh`
    * `ProcTable.zombies_counted_iff`
    * `ProcTable.zombie_not_counted`
-/

------------------------------------------------------------
-- The Process Table
------------------------------------------------------------

namespace UdjatProcess

/-
  Whether a process runs, was a zombie at the load or has
  become one since.
-/
inductive Phase where
| running
| loadedZombie
| exited
deriving DecidableEq

/- An entry of the kernel's process table. -/
structure Process where
  origin : Origin
  phase : Phase
deriving DecidableEq

/- The processes that exist, the unreaped ones included. -/
abbrev ProcTable := Pid → Option Process

namespace ProcTable

/- What processes do, and their parents with them. -/
inductive Act where
| fork (parent child : Pid)
| exec (pid : Pid)
| exit (pid : Pid) (exitCode exitSignal : UInt32)
| reap (pid : Pid)
deriving DecidableEq

/- The process exists and has not exited. -/
def Running (self : ProcTable) (pid : Pid) : Prop :=
  ∃ e, self pid = some e ∧ e.phase = .running

/- The process has exited and is not reaped. -/
def IsZombie (self : ProcTable) (pid : Pid) : Prop :=
  ∃ e, self pid = some e ∧ e.phase ≠ .running

instance (self : ProcTable) (pid : Pid) :
    Decidable (self.Running pid) :=
  inferInstanceAs
    (Decidable (∃ e ∈ self pid, e.phase = .running))

instance (self : ProcTable) (pid : Pid) :
    Decidable (self.IsZombie pid) :=
  inferInstanceAs
    (Decidable (∃ e ∈ self pid, e.phase ≠ .running))

/-
  Only a running process forks, execs or exits, a child gets
  a free positive number, and only a zombie is reaped.
-/
def Possible (self : ProcTable) : Act → Prop
| .fork parent child =>
    self.Running parent ∧ self child = none ∧ 0 < child
| .exec pid => self.Running pid
| .exit pid _ _ => self.Running pid
| .reap pid => self.IsZombie pid

instance (self : ProcTable) (a : Act) :
    Decidable (self.Possible a) := by
  cases a <;> unfold Possible <;> infer_instance

/- The entry that an act changes, and what it becomes. -/
def entry (self : ProcTable) : Act → Pid × Option Process
| .fork _ child => (child, some ⟨.forked, .running⟩)
| .exec pid => (pid, some ⟨.execed, .running⟩)
| .exit pid _ _ =>
    (pid, (self pid).map fun e => { e with phase := .exited })
| .reap pid => (pid, none)

/- The table after an act; what is impossible does nothing. -/
def act (self : ProcTable) (a : Act) : ProcTable :=
  if self.Possible a then
    Function.update self (self.entry a).1 (self.entry a).2
  else
    self

/- The event that reports an act; a reap is not reported. -/
def Act.events : Act → List ProcEvent
| .fork parent child => [.fork parent parent child child]
| .exec pid => [.exec pid pid]
| .exit pid exitCode exitSignal =>
    [.exit pid pid exitCode exitSignal]
| .reap _ => []

/- The events that the kernel emits for an act. -/
def emit (self : ProcTable) (a : Act) : List ProcEvent :=
  if self.Possible a then a.events else []

/- An entry that has exited since the load, once tracked. -/
def Unreaped (self : ProcTable) (pid : Pid) : Prop :=
  ∃ e, self pid = some e ∧ e.phase = .exited ∧
    e.origin ≠ .forked

/-
  The processes that were tracked, have exited and have not
  been reaped. A process is tracked from the load or from
  its first exec.
-/
def zombies (self : ProcTable) : Set Pid :=
  Set.ofPred fun pid =>
    ∃ e, self pid = some e ∧ e.phase ≠ .running ∧
      e.origin ≠ .forked

/- The zombies that were found at the load. -/
def loadedZombies (self : ProcTable) : Set Pid :=
  Set.ofPred fun pid =>
    ∃ e, self pid = some e ∧ e.phase = .loadedZombie

/-
  The load lists every process of the table once, under a
  positive number.
-/
structure Listed (table : ProcTable) (pids : List Pid) :
    Prop where
  distinct : pids.Nodup
  listed : ∀ pid, pid ∈ pids ↔ table pid ≠ none
  positive : ∀ pid ∈ pids, 0 < pid
  loaded :
    ∀ pid e, table pid = some e →
      e.origin = .loaded ∧ e.phase ≠ .exited

------------------------------------------------------------
-- The Table And The List
------------------------------------------------------------

/-
  What the list has of the zombies in the table: those of
  the load once each, the others not at all.
-/
structure Matches (table : ProcTable) (pids : List Pid) :
    Prop where
  positive : ∀ pid, table pid ≠ none → 0 < pid
  loaded :
    ∀ pid e, table pid = some e → e.phase = .loadedZombie →
      e.origin = .loaded ∧ pids.count pid = 1
  exited :
    ∀ pid e, table pid = some e → e.phase = .exited →
      pid ∉ pids

/- A process of the table has a number above zero. -/
theorem Matches.positive_of_some
    {table : ProcTable}
    {pids : List Pid}
    (hMatches : table.Matches pids)
    {pid : Pid}
    {e : Process}
    (hSome : table pid = some e) : 0 < pid := by
  apply hMatches.positive
  rw [hSome]
  exact Option.some_ne_none e

theorem matches_of_listed
    {self : ProcTable}
    {pids : List Pid}
    (hListed : self.Listed pids) :
    self.Matches pids := by
  constructor
  · intro pid hSome
    exact hListed.positive pid ((hListed.listed pid).mpr hSome)
  · intro pid e hEntry _
    refine ⟨(hListed.loaded pid e hEntry).1, ?_⟩
    apply List.count_eq_one_of_mem hListed.distinct
    rw [hListed.listed, hEntry]
    exact Option.some_ne_none e
  · intro pid e hEntry hExited
    exact absurd hExited (hListed.loaded pid e hEntry).2

/-
  If an act changes one entry and its events keep the counts
  of the others, what is left to show is about that entry.
-/
theorem Matches.update
    {self : ProcTable}
    {pids pids' : List Pid}
    {pid : Pid}
    {entry : Option Process}
    (hMatches : self.Matches pids)
    (hCount : ∀ p, p ≠ pid → pids'.count p = pids.count p)
    (hPositive : entry ≠ none → 0 < pid)
    (hEntry :
      ∀ e, entry = some e → e.phase = .running ∨
        e.phase = .exited ∧ pid ∉ pids') :
    Matches (Function.update self pid entry) pids' := by
  constructor
  · intro p hSome
    by_cases hEq : p = pid
    · subst hEq
      rw [Function.update_self] at hSome
      exact hPositive hSome
    · rw [Function.update_of_ne hEq] at hSome
      exact hMatches.positive p hSome
  · intro p e hSome hPhase
    by_cases hEq : p = pid
    · subst hEq
      rw [Function.update_self] at hSome
      rcases hEntry e hSome with hRuns | ⟨hExited, _⟩
      · rw [hPhase] at hRuns
        cases hRuns
      · rw [hPhase] at hExited
        cases hExited
    · rw [Function.update_of_ne hEq] at hSome
      rw [hCount p hEq]
      exact hMatches.loaded p e hSome hPhase
  · intro p e hSome hPhase
    by_cases hEq : p = pid
    · subst hEq
      rw [Function.update_self] at hSome
      rcases hEntry e hSome with hRuns | ⟨_, hNot⟩
      · rw [hPhase] at hRuns
        cases hRuns
      · exact hNot
    · rw [Function.update_of_ne hEq] at hSome
      rw [← List.count_eq_zero, hCount p hEq,
        List.count_eq_zero]
      exact hMatches.exited p e hSome hPhase

/- The list as the events change it. -/
def track (pids : List Pid) (ev : ProcEvent) : List Pid :=
  World.pidsAfter 0 pids (.event ev)

/- Every act and its events keep the match. -/
theorem matches_act
    {self : ProcTable}
    {pids : List Pid}
    (hMatches : self.Matches pids)
    (a : Act) :
    (self.act a).Matches ((self.emit a).foldl track pids) := by
  unfold act emit
  split
  · next hPossible =>
    cases a with
    | fork parent child =>
        apply hMatches.update (fun _ _ => rfl)
          (fun _ => hPossible.2.2)
        intro e hEntry
        left
        rw [← Option.some.inj hEntry]
    | exec pid =>
        rcases hPossible with ⟨old, hOld, _⟩
        have hPositive := hMatches.positive_of_some hOld
        apply hMatches.update _ (fun _ => hPositive)
        · intro e hEntry
          left
          rw [← Option.some.inj hEntry]
        · intro p hNe
          change (pids ++ [pid]).count p = pids.count p
          rw [List.count_append, List.count_singleton]
          simp [Ne.symm hNe]
    | exit pid exitCode exitSignal =>
        rcases hPossible with ⟨old, hOld, _⟩
        have hPositive := hMatches.positive_of_some hOld
        apply hMatches.update _ (fun _ => hPositive)
        · intro e hEntry
          right
          change (self pid).map _ = some e at hEntry
          rw [hOld, Option.map_some] at hEntry
          refine ⟨by rw [← Option.some.inj hEntry], ?_⟩
          change pid ∉ pids.filter fun p => !(p == pid)
          simp
        · intro p hNe
          change (pids.filter fun q => !(q == pid)).count p =
            pids.count p
          exact List.count_filter (by simpa using hNe)
    | reap pid =>
        apply hMatches.update (fun _ _ => rfl)
        · intro hSome
          exact absurd rfl hSome
        · intro e hEntry
          cases hEntry
  · exact hMatches

/- Of the zombies those of the load have identifiers. -/
theorem isZombie_iff_loaded
    {self : ProcTable}
    {pids : List Pid}
    {pid : Pid}
    (hMatches : self.Matches pids)
    (hMem : pid ∈ pids) :
    self.IsZombie pid ↔ pid ∈ self.loadedZombies := by
  constructor
  · rintro ⟨e, hEntry, hPhase⟩
    refine ⟨e, hEntry, ?_⟩
    cases hCase : e.phase with
    | running => exact absurd hCase hPhase
    | loadedZombie => rfl
    | exited =>
        exact absurd hMem (hMatches.exited pid e hEntry hCase)
  · rintro ⟨e, hEntry, hPhase⟩
    refine ⟨e, hEntry, ?_⟩
    rw [hPhase]
    decide

/- Each has one identifier. -/
theorem count_of_loadedZombie
    {self : ProcTable}
    {pids : List Pid}
    {pid : Pid}
    (hMatches : self.Matches pids)
    (hLoaded : pid ∈ self.loadedZombies) :
    pids.count pid = 1 := by
  rcases hLoaded with ⟨e, hEntry, hPhase⟩
  exact (hMatches.loaded pid e hEntry hPhase).2

theorem nodup_filter_isZombie
    {self : ProcTable}
    {pids : List Pid}
    (hMatches : self.Matches pids) :
    (pids.filter fun pid => self.IsZombie pid).Nodup := by
  rw [List.nodup_iff_count_le_one]
  intro pid
  by_cases hMem : pid ∈ pids.filter fun p => self.IsZombie p
  · rcases List.mem_filter.mp hMem with ⟨hIn, hZombie⟩
    have hLoaded :=
      (isZombie_iff_loaded hMatches hIn).mp
        (of_decide_eq_true hZombie)
    have hCount :=
      List.count_filter (l := pids)
        (p := fun p => decide (self.IsZombie p)) hZombie
    rw [hCount, count_of_loadedZombie hMatches hLoaded]
  · rw [List.count_eq_zero.mpr hMem]
    exact Nat.zero_le 1

/- Reading the table counts the zombies of the load. -/
theorem countP_isZombie
    {self : ProcTable}
    {pids : List Pid}
    (hMatches : self.Matches pids) :
    pids.countP (fun pid => self.IsZombie pid) =
      self.loadedZombies.ncard := by
  have hSet :
      self.loadedZombies =
        ((pids.filter fun pid =>
          self.IsZombie pid).toFinset : Set Pid) := by
    ext pid
    rw [Finset.mem_coe, List.mem_toFinset, List.mem_filter,
      decide_eq_true_iff]
    constructor
    · intro hLoaded
      have hIn : pid ∈ pids := by
        rw [← List.count_pos_iff,
          count_of_loadedZombie hMatches hLoaded]
        exact Nat.one_pos
      exact
        ⟨hIn, (isZombie_iff_loaded hMatches hIn).mpr hLoaded⟩
    · rintro ⟨hIn, hZombie⟩
      exact (isZombie_iff_loaded hMatches hIn).mp hZombie
  rw [hSet, Set.ncard_coe_finset,
    List.toFinset_card_of_nodup (nodup_filter_isZombie hMatches),
    List.countP_eq_length_filter]

instance : Finite Pid :=
  Finite.of_injective (fun pid : Pid => pid.toBitVec.toFin)
    fun _ _ hEq =>
      Int32.toBitVec_inj.mp (BitVec.toFin_inj.mp hEq)

/-
  The zombies of the load are all there are exactly if none
  has exited since.
-/
theorem ncard_loadedZombies_eq_iff
    {self : ProcTable}
    {pids : List Pid}
    (hMatches : self.Matches pids) :
    self.loadedZombies.ncard = self.zombies.ncard ↔
      ∀ pid, ¬ self.Unreaped pid := by
  have hSubset : self.loadedZombies ⊆ self.zombies := by
    rintro pid ⟨e, hEntry, hPhase⟩
    refine ⟨e, hEntry, ?_, ?_⟩
    · rw [hPhase]
      decide
    · rw [(hMatches.loaded pid e hEntry hPhase).1]
      decide
  constructor
  · intro hCard pid hUnreaped
    have hEq : self.loadedZombies = self.zombies :=
      Set.eq_of_subset_of_ncard_le hSubset hCard.ge
        (Set.toFinite _)
    rcases hUnreaped with ⟨e, hEntry, hExited, hOrigin⟩
    have hMem : pid ∈ self.zombies := by
      refine ⟨e, hEntry, ?_, hOrigin⟩
      rw [hExited]
      decide
    rw [← hEq] at hMem
    rcases hMem with ⟨e', hEntry', hLoaded⟩
    rw [hEntry, Option.some.injEq] at hEntry'
    rw [← hEntry', hExited] at hLoaded
    cases hLoaded
  · intro hNone
    congr 1
    apply Set.Subset.antisymm hSubset
    rintro pid ⟨e, hEntry, hPhase, hOrigin⟩
    refine ⟨e, hEntry, ?_⟩
    cases hCase : e.phase with
    | running => exact absurd hCase hPhase
    | loadedZombie => rfl
    | exited =>
        exact absurd ⟨e, hEntry, hCase, hOrigin⟩ (hNone pid)

end ProcTable

------------------------------------------------------------
-- The Count After An Update
------------------------------------------------------------

/- An update stores the state that it reads. -/
theorem Controller.state_settle
    {read : Controller.Reader}
    {n : Node Identifier}
    {stat : Stat}
    (hStat : Controller.statOf read n = .ok stat)
    (sysusage : Usage)
    (total : ℚ) :
    (Controller.settle sysusage total read n).state =
      stat.state := by
  unfold Controller.settle
  rw [Controller.visit_of_stat hStat]
  have hState := Identifier.sample_state stat n.val
  split
  · next hNone => cases hNone
  · next info hSome =>
    rw [Option.some.injEq] at hSome
    rw [hSome] at hState
    exact hState
  · next info usage hSome =>
    rw [Option.some.injEq] at hSome
    rw [hSome] at hState
    split
    · exact hState
    · exact hState

/-
  If the state read for an element is the counted one
  exactly for some process numbers, these are counted.
-/
theorem Controller.count_refresh
    {self : Controller}
    {read : Controller.Reader}
    {state : State}
    (P : Pid → Prop)
    [DecidablePred P]
    (hUse : self.cpuUsePerProcess = true)
    (hReads :
      ∀ n ∈ self.identifiers.nodes, ∃ stat,
        Controller.statOf read n = .ok stat ∧
          (stat.state = state ↔ P n.val.pid))
    (stat : Controller.SystemStat) :
    (self.refresh stat read).count state =
      self.pids.countP fun pid => P pid := by
  have hCompletes : self.Completes read := by
    intro n hn
    rcases hReads n hn with ⟨st, hStat, _⟩
    exact ⟨st, hStat⟩
  unfold Controller.count Controller.pids
  rw [Controller.refresh_nodes_of_completes hUse hCompletes,
    List.countP_map, List.countP_map]
  apply List.countP_congr
  intro n hn
  rcases hReads n hn with ⟨st, hStat, hIff⟩
  simp only [Function.comp_apply, beq_iff_eq,
    decide_eq_true_iff]
  rw [Controller.state_settle hStat]
  exact hIff

------------------------------------------------------------
-- Event Mode
------------------------------------------------------------

namespace ProcTable

/- The list is a view of the controller. -/
def pidsView (A : Allocator) :
    Relay.View (World.monitor A act emit) (List Pid) where
  view w := w.ctrl.pids
  track := track
  Good w := 0 ≤ w.ctrl.fd ∧ w.ctrl.cpuUsePerProcess = true
  Quiet := Op.Quiet
  good_handle w ev hGood := by
    change
      0 ≤ (w.step A (.event ev)).ctrl.fd ∧
        (w.step A (.event ev)).ctrl.cpuUsePerProcess = true
    rw [World.step_fd, World.cpuUsePerProcess_step]
    exact hGood
  good_work w op hGood _ := by
    change
      0 ≤ (w.step A op).ctrl.fd ∧
        (w.step A op).ctrl.cpuUsePerProcess = true
    rw [World.step_fd, World.cpuUsePerProcess_step]
    exact hGood
  view_handle w ev _ := by
    change (w.step A (.event ev)).ctrl.pids = _
    rw [World.pids_step]
    cases ev <;> rfl
  view_work w op hGood hQuiet :=
    World.pids_quiet A hGood.1 hQuiet

/- The table and the module after a run. -/
abbrev run
    (A : Allocator)
    (s : World.Net ProcTable)
    (moves : List (World.NetMove Act)) :
    World.Net ProcTable :=
  World.observe A act emit s moves

/-
  What an update reads while the table is as given: state
  `Z` for a zombie, another one for a running process, and
  no file for one that does not exist.
-/
def Shows
    (self : ProcTable)
    (read : Controller.Reader)
    (ctrl : Controller) : Prop :=
  ∀ n ∈ ctrl.identifiers.nodes,
    (self n.val.pid = none →
      read n.addr n.val.pid = .absent) ∧
    ∀ e, self n.val.pid = some e →
      ∃ stat, read n.addr n.val.pid = .present stat ∧
        (stat.state = State.zombie ↔ e.phase ≠ .running)

theorem statOf_of_shows
    {self : ProcTable}
    {read : Controller.Reader}
    {ctrl : Controller}
    (hPositive : ∀ pid, self pid ≠ none → 0 < pid)
    (hShows : self.Shows read ctrl)
    {n : Node Identifier}
    (hn : n ∈ ctrl.identifiers.nodes) :
    ∃ stat, Controller.statOf read n = .ok stat ∧
      (stat.state = State.zombie ↔
        self.IsZombie n.val.pid) := by
  rcases hShows n hn with ⟨hAbsent, hPresent⟩
  unfold Controller.statOf Stat.ofPid IsZombie
  cases hEntry : self n.val.pid with
  | none =>
      rw [hAbsent hEntry]
      refine ⟨{}, ?_, ?_⟩
      · split <;> rfl
      · simp
        decide
  | some e =>
      rcases hPresent e hEntry with ⟨stat, hRead, hZombie⟩
      have hPid : 0 < n.val.pid := by
        apply hPositive
        rw [hEntry]
        exact Option.some_ne_none e
      rw [hRead, if_pos hPid]
      refine ⟨stat, rfl, ?_⟩
      rw [hZombie]
      simp

/-
  In event mode with the CPU use of each process, after any
  history whose events are all handled and an update without
  a failed read, the counter of zombies is right if and only
  if no tracked process that has exited since the load is
  still unreaped.
-/
theorem zombies_counted_iff
    {A : Allocator}
    {links : Links}
    {memory : Memory}
    {dir : ProcDir}
    {fd : Int}
    {stat stat' : Controller.SystemStat}
    {ctrl : Controller}
    {pids : List Pid}
    {table : ProcTable}
    {moves : List (World.NetMove Act)}
    {read : Controller.Reader}
    (hLoad : load dir = .ok pids)
    (hListed : table.Listed pids)
    (hCreate :
      Controller.create A links memory dir fd true stat =
        .ok ctrl)
    (hFd : 0 ≤ fd)
    (hQuiet : World.QuietMoves moves)
    (hDrained :
      (run A (World.boot table ⟨ctrl, links⟩) moves).queue =
        [])
    (hShows :
      (run A (World.boot table ⟨ctrl, links⟩)
        moves).source.Shows read
          (run A (World.boot table ⟨ctrl, links⟩)
            moves).replica.ctrl) :
    let s := run A (World.boot table ⟨ctrl, links⟩) moves
    (s.replica.step A (.refresh stat' read)).ctrl.count
        State.zombie = s.source.zombies.ncard ↔
      ∀ pid, ¬ s.source.Unreaped pid := by
  intro s
  have hPids := World.pids_create hLoad hCreate
  have hGood :
      (pidsView A).Good
        (World.boot table ⟨ctrl, links⟩).replica := by
    constructor
    · change 0 ≤ ctrl.fd
      rw [World.fd_create hCreate]
      exact hFd
    · exact congrArg Prod.fst
        (Controller.meters_create hCreate)
  have hStart :
      table.Matches ((pidsView A).view
        (World.boot table ⟨ctrl, links⟩).replica) := by
    change table.Matches ctrl.pids
    rw [hPids]
    exact matches_of_listed hListed
  have hAct :
      ∀ (table : ProcTable) (pids : List Pid) (a : Act),
        table.Matches pids →
          (table.act a).Matches
            ((table.emit a).foldl track pids) :=
    fun _ _ a hRel => matches_act hRel a
  have hMatches : s.source.Matches s.replica.ctrl.pids :=
    Relay.related_of_drained (pidsView A) hAct hGood hQuiet
      rfl hStart hDrained
  have hUse : s.replica.ctrl.cpuUsePerProcess = true :=
    (Relay.good_after (pidsView A) hGood hQuiet).2
  have hCount :
      (s.replica.ctrl.refresh stat' read).count State.zombie =
        s.replica.ctrl.pids.countP
          fun pid => s.source.IsZombie pid :=
    Controller.count_refresh s.source.IsZombie hUse
      (fun n hn =>
        statOf_of_shows hMatches.positive hShows hn) stat'
  change
    (s.replica.ctrl.refresh stat' read).count State.zombie =
        s.source.zombies.ncard ↔ _
  rw [hCount, countP_isZombie hMatches]
  exact ncard_loadedZombies_eq_iff hMatches

/- The processes of a load, each as it was found. -/
def atLoad (pids : List Pid) (phase : Pid → Phase) : ProcTable :=
  fun pid =>
    if pid ∈ pids then some ⟨.loaded, phase pid⟩ else none

theorem listed_atLoad
    {pids : List Pid}
    {phase : Pid → Phase}
    (hDistinct : pids.Nodup)
    (hPositive : ∀ pid ∈ pids, 0 < pid)
    (hFound : ∀ pid ∈ pids, phase pid ≠ .exited) :
    (atLoad pids phase).Listed pids := by
  refine ⟨hDistinct, ?_, hPositive, ?_⟩
  · intro pid
    by_cases hMem : pid ∈ pids
    · simp [atLoad, hMem]
    · simp [atLoad, hMem]
  · intro pid e hEntry
    unfold atLoad at hEntry
    split at hEntry
    · next hMem =>
      rw [← Option.some.inj hEntry]
      exact ⟨rfl, hFound pid hMem⟩
    · cases hEntry

/-
  Process 7 was a zombie at the load, and is counted.
  Process 5 forks a child that execs, exits and is reaped.
-/
theorem zombies_counted_sample :
    let table : ProcTable :=
      atLoad [5, 7]
        fun pid => if pid = 7 then .loadedZombie else .running
    let w : World :=
      { World.oneLoaded with
        ctrl :=
          World.oneLoaded.ctrl.insert (.above [])
            (fun _ => none) 7 }
    let s :=
      run (.above []) (World.boot table w)
        [.act (.fork 5 6), .act (.exec 6), .deliver,
          .act (.exit 6 0 17), .deliver, .deliver,
          .act (.reap 6), .work (.onTimer World.oneProcess)]
    let read : Controller.Reader := fun _ pid =>
      .present
        { state :=
            if pid = 7 then State.zombie else State.sleeping }
    (s.replica.step (.above []) (.refresh ⟨1, 1⟩
        read)).ctrl.count State.zombie =
      s.source.zombies.ncard := by
  intro table w s read
  have hLoad :
      load (.ok [⟨true, "5".toList⟩, ⟨true, "7".toList⟩]) =
        .ok [5, 7] := rfl
  have hListed : table.Listed [5, 7] :=
    listed_atLoad (by simp) (by simp) (by simp)
  have hCreate :
      Controller.create (.above []) (fun _ => none)
          (fun _ => { kind := .exeName [] })
          (.ok [⟨true, "5".toList⟩, ⟨true, "7".toList⟩]) 3 true
          ⟨0, 0⟩ =
        .ok w.ctrl := rfl
  have hOthers :
      ∀ pid, pid ≠ 6 → s.source pid = table pid := by
    intro pid hNe
    have hActs :
        s.source =
          Function.update
            (Function.update
              (Function.update
                (Function.update table 6
                  (some ⟨.forked, .running⟩)) 6
                (some ⟨.execed, .running⟩)) 6
              (some ⟨.execed, .exited⟩)) 6 none := rfl
    rw [hActs]
    simp only [Function.update_of_ne hNe]
  have hReaped : s.source 6 = none := rfl
  apply (zombies_counted_iff hLoad hListed hCreate (by decide)
    (by simp [Op.Quiet]) rfl _).mpr
  · rintro pid ⟨e, hEntry, hExited, _⟩
    change s.source pid = some e at hEntry
    by_cases hPid : pid = 6
    · rw [hPid, hReaped] at hEntry
      cases hEntry
    · rw [hOthers pid hPid] at hEntry
      exact (hListed.loaded pid e hEntry).2 hExited
  · intro n hn
    have hNodes :
        s.replica.ctrl.identifiers.nodes =
          [⟨1, { pid := 5 }⟩, ⟨2, { pid := 7 }⟩] := by
      decide
    have hEach :
        ∀ pid ∈ ([5, 7] : List Pid), ∀ e,
          s.source pid = some e →
            ∃ stat, read n.addr pid = .present stat ∧
              (stat.state = State.zombie ↔
                e.phase ≠ .running) := by
      intro pid hMem e hEntry
      refine ⟨_, rfl, ?_⟩
      have hPid : pid ≠ 6 := by
        rintro rfl
        exact absurd hMem (by decide)
      rw [hOthers pid hPid] at hEntry
      simp only [table, atLoad, if_pos hMem,
        Option.some.injEq] at hEntry
      rw [← hEntry]
      by_cases hZombie : pid = 7
      · simp [hZombie]
      · simp only [if_neg hZombie]
        decide
    have hMem : n.val.pid ∈ ([5, 7] : List Pid) := by
      have hIn : n ∈ s.replica.ctrl.identifiers.nodes := hn
      rw [hNodes] at hIn
      have hPids :=
        List.mem_map_of_mem (f := fun n => n.val.pid) hIn
      exact hPids
    refine ⟨fun hNone => ?_, hEach n.val.pid hMem⟩
    have hPid : n.val.pid ≠ 6 := by
      intro hEq
      rw [hEq] at hMem
      exact absurd hMem (by decide)
    change s.source n.val.pid = none at hNone
    rw [hOthers _ hPid] at hNone
    simp [table, atLoad, hMem] at hNone

/-
  Process 5 exits and its parent does not reap it. The
  module has dropped it, and counts no zombie.
-/
theorem zombie_not_counted :
    let s :=
      run (.above [])
        (World.boot (atLoad [5] fun _ => .running)
          World.oneLoaded)
        [.act (.exit 5 0 17), .deliver]
    let read : Controller.Reader :=
      fun _ _ => .present { state := State.zombie }
    let w := s.replica.step (.above []) (.refresh ⟨1, 1⟩ read)
    s.queue = [] ∧ s.source.Shows read s.replica.ctrl ∧
      5 ∈ s.source.zombies ∧
      w.ctrl.count State.zombie = 0 ∧
      w.ctrl.count State.zombie ≠ s.source.zombies.ncard := by
  intro s read w
  have hZombie : 5 ∈ s.source.zombies :=
    ⟨⟨.loaded, .exited⟩, rfl, by decide, by decide⟩
  have hCount : w.ctrl.count State.zombie = 0 := by decide
  have hEmpty : s.replica.ctrl.identifiers.nodes = [] := by
    decide
  refine ⟨rfl, ?_, hZombie, hCount, ?_⟩
  · intro n hn
    rw [hEmpty] at hn
    cases hn
  · intro hEq
    have hPositive :=
      (Set.ncard_pos (Set.toFinite _)).mpr ⟨5, hZombie⟩
    rw [← hEq, hCount] at hPositive
    exact absurd hPositive (Nat.lt_irrefl 0)

end ProcTable

end UdjatProcess
