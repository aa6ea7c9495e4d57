import Mathlib.Data.Finset.Card
import UdjatProcess.Tracking.Tracked

/-
  One identifier for each process
  (`Controller::insert(pid_t)` and its callers).

  A poll inserts the processes that are not in the list yet.
  The switch in `handle_event` inserts whatever the event
  names, also a process that is tracked and calls exec once
  more. The list stays without repetition exactly as long as
  no event does that, and with it the counters and the CPU
  total count every process once.

  Key definitions include:
    * `World.NewPid`
    * `World.CountsOnce`

  Key theorems include:
    * `World.nodup_step_iff`
    * `World.countsOnce_iff_nodup`
    * `World.countsOnce_iff`
    * `World.counted_twice`
-/

------------------------------------------------------------
-- The List
------------------------------------------------------------

namespace UdjatProcess

namespace World

/- The snapshot of a poll names no process twice. -/
def CleanPolls (_w : World) : Op → Prop
| .reload dir => (snapshot dir).Nodup
| .onTimer dir => (snapshot dir).Nodup
| _ => True

/- An inserted process was not tracked before. -/
def NewPid (w : World) : Op → Prop
| .event (.exec pid _) => ¬ w.ctrl.Tracks pid
| .insert pid => ¬ w.ctrl.Tracks pid
| _ => True

theorem nodup_polledPids
    {pids current : List Pid}
    (hPids : pids.Nodup)
    (hCurrent : current.Nodup) :
    (polledPids pids current).Nodup := by
  unfold polledPids
  apply List.nodup_append.mpr
  refine ⟨hPids.filter _, hCurrent.filter _, ?_⟩
  intro p hOld q hNew hEq
  have hTracked := List.mem_of_mem_filter hOld
  have hUntracked := (List.mem_filter.mp hNew).2
  rw [hEq] at hTracked
  simp [hTracked] at hUntracked

theorem nodup_append_singleton_iff
    {pids : List Pid}
    (hPids : pids.Nodup)
    (pid : Pid) :
    (pids ++ [pid]).Nodup ↔ pid ∉ pids := by
  rw [List.nodup_append]
  constructor
  · rintro ⟨_, _, hDisjoint⟩ hMem
    exact hDisjoint pid hMem pid List.mem_cons_self rfl
  · intro hNew
    refine ⟨hPids, List.nodup_singleton _, ?_⟩
    intro p hOld q hMem hEq
    rw [List.mem_singleton.mp hMem] at hEq
    exact hNew (hEq ▸ hOld)

/-
  From a list without repetition, an operation makes one
  exactly when it inserts nothing that is tracked.
-/
theorem nodup_step_iff
    (A : Allocator)
    {w : World}
    {op : Op}
    (hPids : w.ctrl.pids.Nodup)
    (hClean : w.CleanPolls op) :
    (w.step A op).ctrl.pids.Nodup ↔ w.NewPid op := by
  rw [pids_step]
  cases op with
  | event ev =>
      cases ev with
      | exec pid tgid =>
          exact nodup_append_singleton_iff hPids pid
      | exit pid tgid code signal =>
          exact iff_of_true (hPids.filter _) trivial
      | fork _ _ _ _ => exact iff_of_true hPids trivial
      | other _ _ => exact iff_of_true hPids trivial
  | insert pid => exact nodup_append_singleton_iff hPids pid
  | remove pid => exact iff_of_true (hPids.filter _) trivial
  | reload dir =>
      exact iff_of_true (nodup_polledPids hPids hClean) trivial
  | onTimer dir =>
      refine iff_of_true ?_ trivial
      by_cases hClosed : w.ctrl.fd < 0
      · simp only [pidsAfter, hClosed, if_true]
        exact nodup_polledPids hPids hClean
      · simp only [pidsAfter, hClosed, if_false]
        exact hPids
  | links _ => exact iff_of_true hPids trivial
  | construct _ _ => exact iff_of_true hPids trivial
  | insertAgent _ => exact iff_of_true hPids trivial
  | removeAgent _ => exact iff_of_true hPids trivial
  | start _ _ => exact iff_of_true hPids trivial
  | refreshAgent _ _ => exact iff_of_true hPids trivial
  | refresh _ _ => exact iff_of_true hPids trivial
  | updateAgents => exact iff_of_true hPids trivial
  | getState _ _ => exact iff_of_true hPids trivial

------------------------------------------------------------
-- Counters And Totals
------------------------------------------------------------

/- The processes whose identifiers have a state. -/
def pidsInState (w : World) (state : State) : List Pid :=
  (w.ctrl.identifiers.nodes.filter fun n =>
    n.val.state == state).map fun n => n.val.pid

/- The process of the element at an address. -/
def pidAt (w : World) (a : Addr) : Option Pid :=
  (w.ctrl.identifiers.lookup a).map fun n => n.val.pid

/- The entries that an update adds up to its total. -/
def tickEntries
    (w : World)
    (read : Controller.Reader) : List (Addr × ℚ) :=
  (NodeList.sweepNodes (Controller.visit read)
    w.ctrl.identifiers.nodes).emitted

/-
  No two identifiers share a process, a counter counts each
  process at most once, and the total of an update has at
  most one entry for each process.
-/
structure CountsOnce (w : World) : Prop where
  distinct : w.ctrl.pids.Nodup
  counter :
    ∀ state, w.ctrl.count state =
      (w.pidsInState state).toFinset.card
  ticks :
    ∀ read, ((w.tickEntries read).map fun entry =>
      w.pidAt entry.1).Nodup

theorem count_eq_card
    {w : World}
    (hPids : w.ctrl.pids.Nodup)
    (state : State) :
    w.ctrl.count state =
      (w.pidsInState state).toFinset.card := by
  have hNodup : (w.pidsInState state).Nodup :=
    hPids.sublist (List.filter_sublist.map _)
  rw [List.toFinset_card_of_nodup hNodup]
  unfold Controller.count pidsInState
  rw [List.countP_eq_length_filter, List.length_map]

/- Looking up the addresses in order gives the processes. -/
theorem map_pidAt_addrs (w : World) :
    w.ctrl.identifiers.addrs.map w.pidAt =
      w.ctrl.pids.map some := by
  unfold NodeList.addrs Controller.pids
  rw [List.map_map, List.map_map]
  apply List.map_congr_left
  intro n hn
  simp [pidAt, NodeList.lookup_of_mem hn]

theorem nodup_tickEntries
    {w : World}
    (hPids : w.ctrl.pids.Nodup)
    (read : Controller.Reader) :
    ((w.tickEntries read).map fun entry =>
      w.pidAt entry.1).Nodup := by
  have hAll : (w.ctrl.identifiers.addrs.map w.pidAt).Nodup := by
    rw [map_pidAt_addrs]
    exact hPids.map (Option.some_injective Pid)
  have hSublist :=
    NodeList.emitted_addrs_sublist (Controller.visit read)
      w.ctrl.identifiers.nodes
  have hEntries := hAll.sublist (hSublist.map w.pidAt)
  rw [List.map_map] at hEntries
  exact hEntries

/- The rest follows from the list. -/
theorem countsOnce_iff_nodup (w : World) :
    w.CountsOnce ↔ w.ctrl.pids.Nodup := by
  constructor
  · exact CountsOnce.distinct
  · intro hPids
    exact ⟨hPids, count_eq_card hPids, nodup_tickEntries hPids⟩

/-
  A run from a construction with distinct processes, whose
  polls meet clean snapshots, counts every process once
  throughout if and only if each of its insertions names a
  process that is not tracked at that moment.
-/
theorem countsOnce_iff
    {A : Allocator}
    {links : Links}
    {memory : Memory}
    {dir : ProcDir}
    {fd : Int}
    {cpuUsePerProcess : Bool}
    {stat : Controller.SystemStat}
    {ctrl : Controller}
    {pids : List Pid}
    {ops : List Op}
    (hLoad : load dir = .ok pids)
    (hDistinct : pids.Nodup)
    (hCreate :
      Controller.create A links memory dir fd
        cpuUsePerProcess stat = .ok ctrl)
    (hClean :
      Runs.Along (step A) CleanPolls ⟨ctrl, links⟩ ops) :
    Runs.Always (step A) CountsOnce ⟨ctrl, links⟩ ops ↔
      Runs.Along (step A) NewPid ⟨ctrl, links⟩ ops := by
  have hStart : CountsOnce ⟨ctrl, links⟩ := by
    apply (countsOnce_iff_nodup _).mpr
    change ctrl.pids.Nodup
    rw [pids_create hLoad hCreate]
    exact hDistinct
  have hInv :
      ∀ (w : World) (op : Op), (fun _ : World => True) w →
        w.CleanPolls op →
        (fun _ : World => True) (w.step A op) :=
    fun _ _ _ _ => trivial
  apply Runs.always_iff_along hInv _ trivial hStart hClean
  intro w op _ hPolls hOnce
  rw [countsOnce_iff_nodup]
  exact nodup_step_iff A hOnce.distinct hPolls

/- A process that exits may exec again under its number. -/
theorem countsOnce_sample :
    Runs.Always (step (.above [])) CountsOnce oneLoaded
      [.event (.exec 6 6), .event (.exit 6 6 0 17),
        .event (.exec 6 6), .reload oneProcess] := by
  have hLoad : load oneProcess = .ok [5] := rfl
  have hClean :
      Runs.Along (step (.above [])) CleanPolls oneLoaded
        [.event (.exec 6 6), .event (.exit 6 6 0 17),
          .event (.exec 6 6), .reload oneProcess] :=
    ⟨trivial, trivial, trivial,
      List.nodup_singleton (5 : Pid), trivial⟩
  apply (countsOnce_iff hLoad (by decide) create_oneLoaded
    hClean).mpr
  have hFirst : oneLoaded.NewPid (.event (.exec 6 6)) := by
    unfold NewPid
    decide
  have hThird :
      (Runs.after (step (.above [])) oneLoaded
        [.event (.exec 6 6), .event (.exit 6 6 0 17)]).NewPid
          (.event (.exec 6 6)) := by
    unfold NewPid
    decide
  exact ⟨hFirst, trivial, hThird, trivial, trivial⟩

/-
  Process 5, which was loaded, calls exec. It is in the list
  twice and counts as two.
-/
theorem counted_twice :
    let w :=
      Runs.after (step (.above [])) oneLoaded
        [.event (.exec 5 5)]
    w.ctrl.pids = [5, 5] ∧
      w.ctrl.count State.unread = 2 ∧
      w.pidsInState State.unread = [5, 5] ∧
      ¬ w.CountsOnce := by
  intro w
  have hPids : w.ctrl.pids = [5, 5] := by decide
  refine ⟨hPids, by decide, by decide, ?_⟩
  intro hOnce
  have hDistinct := hOnce.distinct
  rw [hPids] at hDistinct
  revert hDistinct
  decide

end World

end UdjatProcess
