import UdjatProcess.Library.Roster
import UdjatProcess.Tracking.Reconcile

/-
  Which elements the process list consists of, after any
  run.

  An element keeps its place and its address until an exit
  event or a poll drops its process, whatever else happens.
  Those that came later stand behind it, in the order in
  which they came. So a pointer to an element is good as
  long as nothing dropped the process it was made for.

  Key definitions include:
    * `World.seats`
    * `World.keepsPid`
    * `World.entersPids`

  Key theorems include:
    * `World.seats_step`
    * `World.seats_after`
-/

namespace UdjatProcess

namespace World

------------------------------------------------------------
-- What Operations Keep And Append
------------------------------------------------------------

/- The elements, by address and process number. -/
def seats (w : World) : List (Addr × Pid) :=
  w.ctrl.identifiers.nodes.map fun n => (n.addr, n.val.pid)

/- The operation keeps the elements of the process. -/
def keepsPid (fd : Int) : Op → Pid → Bool
| .event (.exit p _ _ _), pid => !(pid == p)
| .remove p, pid => !(pid == p)
| .reload dir, pid => decide (pid ∈ snapshot dir)
| .onTimer dir, pid =>
    decide (fd < 0 → pid ∈ snapshot dir)
| _, _ => true

/- The processes that it appends. -/
def entersPids
    (fd : Int)
    (pids : List Pid) : Op → List Pid
| .event (.exec p _) => [p]
| .insert p => [p]
| .reload dir => (snapshot dir).filter fun p => p ∉ pids
| .onTimer dir =>
    if fd < 0 then
      (snapshot dir).filter fun p => p ∉ pids
    else
      []
| _ => []

/- The seats say no more than addresses and numbers do. -/
theorem seats_eq_zip (w : World) :
    w.seats = w.ctrl.identifiers.addrs.zip w.ctrl.pids := by
  unfold seats Controller.pids NodeList.addrs
  exact List.zip_map'.symm

theorem map_seats (w : World) :
    w.seats.map Prod.snd = w.ctrl.pids := by
  unfold seats
  rw [List.map_map]
  rfl

end World

namespace Controller

theorem seats_reload
    (A : Allocator)
    (links : Links)
    (dir : ProcDir)
    (self : Controller) :
    ∃ added : List (Addr × Pid),
      World.seats ⟨self.reload A links dir, links⟩ =
        ((World.seats ⟨self, links⟩).filter fun x =>
          decide (x.2 ∈ snapshot dir)) ++ added ∧
      added.map Prod.snd =
        (snapshot dir).filter fun p => p ∉ self.pids := by
  rcases @reconcile_nodes A links (snapshot dir) self with
    ⟨added, hNodes, hAdded⟩
  refine ⟨added.map fun n => (n.addr, n.val.pid), ?_, ?_⟩
  · unfold World.seats
    rw [reload_eq_reconcile, hNodes, List.map_append,
      List.filter_map]
    rfl
  · have hPids := congrArg (List.map Identifier.pid) hAdded
    rw [List.map_map, List.map_map] at hPids
    rw [List.map_map]
    exact hPids.trans (List.map_id _)

end Controller

------------------------------------------------------------
-- Steps And Runs
------------------------------------------------------------

namespace World

/-
  A step that keeps addresses and numbers, of an operation
  that keeps all processes and appends none.
-/
theorem seats_of_same
    {w w' : World}
    (hAddrs :
      w'.ctrl.identifiers.addrs = w.ctrl.identifiers.addrs)
    (hPids : w'.ctrl.pids = w.ctrl.pids) :
    ∃ added : List (Addr × Pid),
      w'.seats = (w.seats.filter fun _ => true) ++ added ∧
      added.map Prod.snd = [] := by
  refine ⟨[], ?_, rfl⟩
  rw [List.append_nil, List.filter_true, seats_eq_zip,
    seats_eq_zip, hAddrs, hPids]

theorem seats_insert
    (A : Allocator)
    (w : World)
    (pid : Pid) :
    ∃ added : List (Addr × Pid),
      (w.step A (.insert pid)).seats =
        (w.seats.filter fun _ => true) ++ added ∧
      added.map Prod.snd = [pid] := by
  refine ⟨[(w.ctrl.identifiers.fresh A, pid)], ?_, rfl⟩
  rw [List.filter_true]
  exact List.map_append

theorem seats_remove
    (A : Allocator)
    (w : World)
    (pid : Pid) :
    ∃ added : List (Addr × Pid),
      (w.step A (.remove pid)).seats =
        (w.seats.filter fun x => !(x.2 == pid)) ++ added ∧
      added.map Prod.snd = [] := by
  refine ⟨[], ?_, rfl⟩
  rw [List.append_nil]
  unfold seats
  rw [List.filter_map]
  rfl

/- A step keeps and appends elements as it should. -/
theorem seats_step
    (A : Allocator)
    (w : World)
    (op : Op) :
    ∃ added : List (Addr × Pid),
      (w.step A op).seats =
        (w.seats.filter fun x => keepsPid w.ctrl.fd op x.2) ++
          added ∧
      added.map Prod.snd =
        entersPids w.ctrl.fd w.ctrl.pids op := by
  cases op with
  | links _ => exact seats_of_same rfl rfl
  | event ev =>
      cases ev with
      | exec pid _ => exact seats_insert A w pid
      | exit pid _ _ _ => exact seats_remove A w pid
      | fork _ _ _ _ => exact seats_of_same rfl rfl
      | other _ _ => exact seats_of_same rfl rfl
  | insert pid => exact seats_insert A w pid
  | remove pid => exact seats_remove A w pid
  | construct _ _ => exact seats_of_same rfl rfl
  | insertAgent agent =>
      have hList :=
        Controller.insertAgent_identifiers (L := w.links) agent
          w.ctrl
      exact seats_of_same (congrArg NodeList.addrs hList)
        (pids_step A w (.insertAgent agent))
  | removeAgent _ => exact seats_of_same rfl rfl
  | start agent file =>
      have hList :=
        (Controller.start_keeps (L := w.links) file agent
          w.ctrl).1
      exact seats_of_same (congrArg NodeList.addrs hList)
        (pids_step A w (.start agent file))
  | refreshAgent agent file =>
      have hList :=
        (Controller.refreshAgent_keeps file agent w.ctrl).1
      exact seats_of_same (congrArg NodeList.addrs hList)
        (pids_step A w (.refreshAgent agent file))
  | reload dir =>
      exact Controller.seats_reload A w.links dir w.ctrl
  | onTimer dir =>
      change
        ∃ added : List (Addr × Pid),
          World.seats ⟨w.ctrl.onTimer A w.links dir, w.links⟩ =
            (w.seats.filter fun x =>
              decide (w.ctrl.fd < 0 → x.2 ∈ snapshot dir)) ++
              added ∧
          added.map Prod.snd =
            if w.ctrl.fd < 0 then
              (snapshot dir).filter fun p => p ∉ w.ctrl.pids
            else
              []
      unfold Controller.onTimer
      by_cases hClosed : w.ctrl.fd < 0
      · simp only [hClosed, if_true, true_implies]
        exact Controller.seats_reload A w.links dir w.ctrl
      · simp only [hClosed, if_false, false_implies,
          decide_true]
        exact seats_of_same rfl rfl
  | refresh stat read =>
      exact seats_of_same
        (Controller.addrs_refresh stat read w.ctrl)
        (pids_step A w (.refresh stat read))
  | updateAgents => exact seats_of_same rfl rfl
  | getState agent file =>
      refine seats_of_same ?_
        (pids_step A w (.getState agent file))
      exact (cacheState_rest agent file w.ctrl).1

/-
  After any run, the list consists of the elements that were
  there and whose processes every operation kept, at their
  old addresses and in their old order, and then of those
  that were appended and kept ever since, in the order in
  which they were appended.
-/
theorem seats_after
    (A : Allocator)
    (w : World)
    (ops : List Op) :
    let keeps := keepsPid w.ctrl.fd
    ∃ added : List (Addr × Pid),
      (Runs.after (step A) w ops).seats =
        (w.seats.filter fun x => Roster.spared keeps ops x.2) ++
          added ∧
      added.map Prod.snd =
        Roster.entrants keeps (entersPids w.ctrl.fd)
          w.ctrl.pids ops := by
  intro keeps
  have hFd :
      Runs.Along (step A) (fun v _ => v.ctrl.fd = w.ctrl.fd) w
        ops :=
    Runs.along_of_invariant
      (fun v op hSame => (step_fd A v op).trans hSame) rfl ops
  rw [← map_seats w]
  apply Roster.view_after _ hFd
  intro v op hSame
  have hStep := seats_step A v op
  rw [hSame] at hStep
  rw [map_seats]
  exact hStep

end World

end UdjatProcess
