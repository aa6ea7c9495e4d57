import UdjatProcess.Binding.ExeName

/-
  Polling and events as two ways to update the process list
  (`Controller::reload` in `controller/load.cc`).

  `reload` drops the processes that a snapshot misses in one
  sweep over the list, without a look at the agents. Event
  by event, `remove` would have unbound the agents of each
  of them. The two agree exactly when no registered agent
  has its pointer at an element that the sweep drops, or at
  none at all.

  Key definitions include:
    * `Controller.reloadByEvents`
    * `World.ReloadAgrees`
    * `World.Settled`

  Key theorems include:
    * `Controller.removeEach_eq_keepOnly`
    * `World.reloadAgrees_iff`
    * `World.polls_agree_iff`
    * `World.reload_disagrees`
-/

------------------------------------------------------------
-- Event By Event
------------------------------------------------------------

namespace UdjatProcess

namespace Controller

variable {A : Allocator} {links : Links}

/- `remove` for each process of a list. -/
def removeEach
    (pids : List Pid)
    (self : Controller) : Controller :=
  pids.foldl (fun self pid => self.remove pid) self

/- `insert` for each process of a list. -/
def insertEach
    (A : Allocator)
    (links : Links)
    (pids : List Pid)
    (self : Controller) : Controller :=
  pids.foldl (fun self pid => self.insert A links pid) self

/-
  A snapshot taken in as events: `remove` for every tracked
  process that it misses, then `insert`, in its order, for
  every process that was not tracked.
-/
def reloadByEvents
    (A : Allocator)
    (links : Links)
    (current : List Pid)
    (self : Controller) : Controller :=
  insertEach A links
    (current.filter fun p => p ∉ self.pids)
    (self.removeEach
      (self.pids.filter fun p => p ∉ current))

/- Polling is the sweep followed by the same insertions. -/
theorem reload_eq
    (dir : ProcDir)
    (self : Controller) :
    self.reload A links dir =
      insertEach A links
        ((snapshot dir).filter fun p => p ∉ self.pids)
        (self.keepOnly (snapshot dir)) :=
  (reload_eq_reconcile dir self).trans
    (reconcile_eq (snapshot dir) self)

------------------------------------------------------------
-- Removing One By One
------------------------------------------------------------

/- One by one, the elements of the listed processes go. -/
theorem removeEach_nodes
    (pids : List Pid)
    (self : Controller) :
    (self.removeEach pids).identifiers.nodes =
      self.identifiers.nodes.filter
        fun n => n.val.pid ∉ pids := by
  unfold removeEach
  induction pids generalizing self with
  | nil => simp
  | cons pid pids ih =>
      rw [List.foldl_cons, ih, remove_nodes,
        List.filter_filter]
      apply List.filter_congr
      intro n _
      rw [Bool.eq_iff_iff]
      simp [and_comm]

/- Nothing else but agents' pointers changes. -/
theorem removeEach_keeps
    (pids : List Pid)
    (self : Controller) :
    self.removeEach pids =
      { self with
        identifiers := (self.removeEach pids).identifiers
        memory := (self.removeEach pids).memory } ∧
      (self.removeEach pids).identifiers.allocs =
        self.identifiers.allocs := by
  unfold removeEach
  induction pids generalizing self with
  | nil => exact ⟨rfl, rfl⟩
  | cons pid pids ih =>
      rcases ih (self.remove pid) with ⟨hEq, hAllocs⟩
      exact ⟨hEq, hAllocs⟩

/-
  An agent that is not registered, or not bound to one of
  the elements that go, stays as it is.
-/
theorem removeEach_memory
    (pids : List Pid)
    (self : Controller)
    (id : AgentId)
    (hSpared :
      ∀ n ∈ self.identifiers.nodes, n.val.pid ∈ pids →
        id ∈ self.agents →
          (self.memory id).pid ≠ some n.addr) :
    (self.removeEach pids).memory id = self.memory id := by
  unfold removeEach
  induction pids generalizing self with
  | nil => rfl
  | cons pid pids ih =>
      have hFirst :
          (self.remove pid).memory id = self.memory id := by
        rw [remove_memory, if_neg]
        rintro ⟨hMem, n, hn, hPid, hBound⟩
        exact hSpared n hn (by simp [hPid]) hMem hBound
      rw [List.foldl_cons, ih, hFirst]
      intro n hn hIn hMem
      rw [hFirst]
      have hOld :=
        ((mem_remove_nodes_iff pid self n).mp hn).1
      exact hSpared n hOld (List.mem_cons_of_mem _ hIn) hMem

/-
  If no registered agent is bound to an element that goes,
  removing one by one is the sweep.
-/
theorem removeEach_eq_keepOnly
    (current : List Pid)
    (self : Controller)
    (hSpared :
      ∀ id ∈ self.agents, ∀ n ∈ self.identifiers.nodes,
        (self.memory id).pid = some n.addr →
          n.val.pid ∈ current) :
    self.removeEach
        (self.pids.filter fun p => p ∉ current) =
      self.keepOnly current := by
  rcases removeEach_keeps
      (self.pids.filter fun p => p ∉ current) self with
    ⟨hEq, hAllocs⟩
  have hMemory :
      (self.removeEach
        (self.pids.filter fun p => p ∉ current)).memory =
      self.memory := by
    funext id
    apply removeEach_memory
    intro n hn hGone hMem hBound
    have hKept := hSpared id hMem n hn hBound
    simp [hKept] at hGone
  have hIdentifiers :
      (self.removeEach
        (self.pids.filter fun p => p ∉ current)).identifiers =
      (self.keepOnly current).identifiers := by
    apply NodeList.ext_nodes
    · rw [removeEach_nodes]
      apply List.filter_congr
      intro n hn
      have hTracked : n.val.pid ∈ self.pids :=
        (self.tracks_iff _).mpr ⟨n, hn, rfl⟩
      rw [Bool.eq_iff_iff]
      simp [hTracked]
    · exact hAllocs
  rw [hEq, hMemory, hIdentifiers]
  rfl

------------------------------------------------------------
-- Inserting One By One
------------------------------------------------------------

/- A bound agent keeps its pointer. -/
theorem insertEach_pid_of_bound
    (pids : List Pid)
    (self : Controller)
    (id : AgentId)
    {a : Addr}
    (hBound : (self.memory id).pid = some a) :
    ((insertEach A links pids self).memory id).pid =
      some a := by
  unfold insertEach
  induction pids generalizing self with
  | nil => exact hBound
  | cons pid pids ih =>
      apply ih
      rw [insert_memory]
      split
      · rw [Agent.bindIfUnbound_of_bound _ _ a _ hBound]
        exact hBound
      · exact hBound

/- Every element is an old one or was just allocated. -/
theorem insertEach_nodes
    (pids : List Pid)
    (self : Controller)
    {n : Node Identifier}
    (hn : n ∈ (insertEach A links pids self).identifiers.nodes) :
    n ∈ self.identifiers.nodes ∨
      ∃ count live, n.addr = A.place count live := by
  unfold insertEach at hn
  induction pids generalizing self with
  | nil => exact Or.inl hn
  | cons pid pids ih =>
      rcases ih (self.insert A links pid) hn with hOld | hNew
      · rcases List.mem_append.mp hOld with hOld | hNew
        · exact Or.inl hOld
        · rw [List.mem_singleton.mp hNew]
          exact Or.inr ⟨_, _, rfl⟩
      · exact Or.inr hNew

end Controller

------------------------------------------------------------
-- Agreement
------------------------------------------------------------

namespace World

/- The world after a poll of `/proc`. -/
def polled
    (A : Allocator)
    (w : World)
    (dir : ProcDir) : World where
  ctrl := w.ctrl.reload A w.links dir
  links := w.links

/- The world after the same snapshot, event by event. -/
def replayed
    (A : Allocator)
    (w : World)
    (dir : ProcDir) : World where
  ctrl := w.ctrl.reloadByEvents A w.links (snapshot dir)
  links := w.links

/-
  Polling and events agree, whatever addresses the new
  elements get: the lists are equal and so is every
  registered agent's pointer, no such pointer is left at an
  element that is gone, and an agent whose process was
  replaced by one it recognises is bound to a new one.
-/
structure ReloadAgrees (w : World) (dir : ProcDir) : Prop where
  lists :
    ∀ A, (polled A w dir).ctrl.identifiers =
      (replayed A w dir).ctrl.identifiers
  pointers :
    ∀ A, ∀ id ∈ w.ctrl.agents,
      ((polled A w dir).ctrl.memory id).pid =
        ((replayed A w dir).ctrl.memory id).pid
  anchored :
    ∀ A, ∀ id ∈ w.ctrl.agents, (polled A w dir).Anchored id
  replaced :
    ∀ A, ∀ id ∈ w.ctrl.agents,
      ∀ n ∈ w.ctrl.identifiers.nodes, w.BoundTo id n →
        n.val.pid ∉ snapshot dir →
        (∃ p ∈ snapshot dir, p ∉ w.ctrl.pids ∧
          (w.ctrl.memory id).probe (w.exename p) = true) →
        ∃ m ∈ (polled A w dir).ctrl.identifiers.nodes,
          (polled A w dir).BoundTo id m ∧
            m.val.pid ∉ w.ctrl.pids ∧ w.Accepts id m

/-
  Every registered agent is unbound, or bound to an element
  whose process is in the snapshot.
-/
def Settled (w : World) (dir : ProcDir) : Prop :=
  ∀ id ∈ w.ctrl.agents,
    w.Unbound id ∨
      ∃ n ∈ w.ctrl.identifiers.nodes,
        w.BoundTo id n ∧ n.val.pid ∈ snapshot dir

/- A new process keeps pointers good. -/
theorem anchored_insert
    {A : Allocator}
    {w : World}
    {id : AgentId}
    (pid : Pid)
    (hAnchored : w.Anchored id) :
    (w.step A (.insert pid)).Anchored id := by
  rcases insert_cases A w pid id with
    ⟨_, hPid⟩ | ⟨_, hSame⟩
  · refine Or.inr
      ⟨⟨w.ctrl.identifiers.fresh A, { pid := pid }⟩, ?_, hPid⟩
    exact List.mem_append_right _ (List.mem_singleton_self _)
  · apply hAnchored.mono (congrArg Agent.pid hSame)
    intro n hn _
    exact ⟨n, List.mem_append_left _ hn, rfl⟩

theorem anchored_insertEach
    {A : Allocator}
    {links : Links}
    {ctrl : Controller}
    {id : AgentId}
    (pids : List Pid)
    (hAnchored : Anchored ⟨ctrl, links⟩ id) :
    Anchored
      ⟨Controller.insertEach A links pids ctrl, links⟩ id := by
  unfold Controller.insertEach
  induction pids generalizing ctrl with
  | nil => exact hAnchored
  | cons pid pids ih =>
      exact ih (anchored_insert (A := A) pid hAnchored)

/- The elements are the same either way. -/
theorem polled_identifiers
    (A : Allocator)
    (w : World)
    (dir : ProcDir) :
    (polled A w dir).ctrl.identifiers =
      (replayed A w dir).ctrl.identifiers := by
  have hFold : ∀ (pids : List Pid) (c d : Controller),
      c.identifiers = d.identifiers →
        (Controller.insertEach A w.links pids c).identifiers =
          (Controller.insertEach A w.links pids
            d).identifiers := by
    intro pids
    induction pids with
    | nil => exact fun _ _ hEq => hEq
    | cons pid pids ih =>
        intro c d hEq
        apply ih
        rw [Controller.insert_identifiers,
          Controller.insert_identifiers, hEq]
  unfold polled replayed Controller.reloadByEvents
  rw [Controller.reload_eq]
  apply hFold
  apply NodeList.ext_nodes
  · rw [Controller.removeEach_nodes]
    apply List.filter_congr
    intro n hn
    have hTracked : n.val.pid ∈ w.ctrl.pids := tracks_of_mem hn
    rw [Bool.eq_iff_iff]
    simp [hTracked]
  · exact (Controller.removeEach_keeps _ w.ctrl).2.symm

/- A settled world polls as it would handle the events. -/
theorem polled_eq_replayed
    (A : Allocator)
    {w : World}
    {dir : ProcDir}
    (hSettled : w.Settled dir) :
    polled A w dir = replayed A w dir := by
  unfold polled replayed Controller.reloadByEvents
  rw [Controller.reload_eq,
    Controller.removeEach_eq_keepOnly]
  intro id hMem n hn hBound
  rcases hSettled id hMem with hUnbound | ⟨m, hm, hBoundM, hIn⟩
  · exact absurd hUnbound (not_unbound_of_boundTo hBound)
  · rw [eq_of_boundTo hn hm hBound hBoundM]
    exact hIn

/-
  Polling agrees with events exactly in settled worlds. For
  the direction from left to right, an allocator that stays
  clear of an agent's pointer shows that it dangles.
-/
theorem reloadAgrees_iff
    (w : World)
    (dir : ProcDir) :
    w.ReloadAgrees dir ↔ w.Settled dir := by
  constructor
  · intro hAgrees id hMem
    cases hPid : (w.ctrl.memory id).pid with
    | none => exact Or.inl hPid
    | some a =>
        right
        have hPolled :
            ((polled (.above [a]) w dir).ctrl.memory id).pid =
              some a := by
          unfold polled
          rw [Controller.reload_eq]
          exact Controller.insertEach_pid_of_bound _ _ id hPid
        rcases hAgrees.anchored (.above [a]) id hMem with
          hUnbound | ⟨m, hm, hBound⟩
        · exact absurd (hUnbound.symm.trans hPolled)
            (Option.some_ne_none a).symm
        · have hAddr : m.addr = a :=
            Option.some.inj (hBound.symm.trans hPolled)
          unfold polled at hm
          rw [Controller.reload_eq] at hm
          rcases Controller.insertEach_nodes _ _ hm with
            hOld | ⟨count, live, hNew⟩
          · rcases (Controller.mem_keepOnly_nodes_iff _ _
              m).mp hOld with ⟨hOld, hIn⟩
            refine ⟨m, hOld, ?_, hIn⟩
            unfold BoundTo
            rw [hPid, hAddr]
          · exfalso
            apply Allocator.place_above_not_mem [a] live count
            rw [← hNew, hAddr]
            exact List.mem_singleton_self a
  · intro hSettled
    refine
      { lists := fun A => polled_identifiers A w dir
        pointers := ?_
        anchored := ?_
        replaced := ?_ }
    · intro A id _
      rw [polled_eq_replayed A hSettled]
    · intro A id hMem
      unfold polled
      rw [Controller.reload_eq]
      apply anchored_insertEach
      rcases hSettled id hMem with
        hUnbound | ⟨n, hn, hBound, hIn⟩
      · exact Or.inl hUnbound
      · refine Or.inr ⟨n, ?_, hBound⟩
        exact (Controller.mem_keepOnly_nodes_iff _ _ n).mpr
          ⟨hn, hIn⟩
    · intro A id hMem n hn hBound hGone _
      exfalso
      rcases hSettled id hMem with
        hUnbound | ⟨m, hm, hBoundM, hIn⟩
      · exact not_unbound_of_boundTo hBound hUnbound
      · rw [eq_of_boundTo hn hm hBound hBoundM] at hGone
        exact hGone hIn

/- The step polls `/proc`, itself or from the timer. -/
def Polls (w : World) (op : Op) (dir : ProcDir) : Prop :=
  op = .reload dir ∨ (op = .onTimer dir ∧ w.ctrl.fd < 0)

/-
  In every run, each poll that meets a list of distinct
  processes agrees with events if and only if each such poll
  meets a settled world.
-/
theorem polls_agree_iff
    (A : Allocator)
    (w : World)
    (ops : List Op) :
    Runs.Along (step A)
        (fun w op => ∀ dir, w.Polls op dir →
          w.ctrl.pids.Nodup → w.ReloadAgrees dir) w ops ↔
      Runs.Along (step A)
        (fun w op => ∀ dir, w.Polls op dir →
          w.ctrl.pids.Nodup → w.Settled dir) w ops := by
  apply Runs.along_iff
  intro w op
  apply forall₃_congr
  intro dir _ _
  exact reloadAgrees_iff w dir

/-
  The agent's process 5 is replaced by process 6, which runs
  the same program, between two polls. The agent keeps the
  pointer to the element of 5.
-/
theorem reload_disagrees :
    let w := Runs.after (step (.above [])) gdmWorld
      [.insert 5, .insertAgent 1]
    w.ctrl.pids.Nodup ∧
      ¬ w.ReloadAgrees (.ok [⟨true, "6".toList⟩]) := by
  intro w
  refine ⟨by decide, ?_⟩
  intro hAgrees
  have hPointers :=
    hAgrees.pointers (.above [1]) 1 (by decide)
  revert hPointers
  decide

end World

end UdjatProcess
