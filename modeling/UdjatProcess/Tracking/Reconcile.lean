import UdjatProcess.Tracking.Tracked

/-
  What a poll makes of the process list
  (`Controller::reload` in `controller/load.cc`).

  The identifiers of a successful poll are those it kept, as
  they were, and a new one for each process of the snapshot
  that was not tracked. A second poll that finds the same
  processes leaves everything as it is.

  Key definitions include:
    * `Controller.Unsampled`

  Key theorems include:
    * `Controller.nodes_foldl_insert`
    * `Controller.reconcile_nodes`
    * `Controller.reconcile_idempotent`
    * `Controller.reload_exact`
-/

------------------------------------------------------------
-- Reconciliation
------------------------------------------------------------

namespace UdjatProcess

namespace Controller

variable {A : Allocator} {links : Links}

/-
  The elements are those of processes that no refresh has
  read yet, one for each number, in that order.
-/
def Unsampled
    (added : List (Node Identifier))
    (pids : List Pid) : Prop :=
  added.map Node.val =
    pids.map fun pid =>
      { pid := pid
        cpu := { percent := .real 0, last := 0 }
        state := State.unread }

/- Inserting processes one by one appends their elements. -/
theorem nodes_foldl_insert
    (pids : List Pid)
    (self : Controller) :
    ∃ added : List (Node Identifier),
      (pids.foldl (fun self pid => self.insert A links pid)
          self).identifiers.nodes =
        self.identifiers.nodes ++ added ∧
      Unsampled added pids := by
  induction pids generalizing self with
  | nil => exact ⟨[], (List.append_nil _).symm, rfl⟩
  | cons pid pids ih =>
      rcases ih (self.insert A links pid) with
        ⟨added, hNodes, hAdded⟩
      refine
        ⟨⟨self.identifiers.fresh A, { pid := pid }⟩ :: added,
          ?_, ?_⟩
      · rw [List.foldl_cons, hNodes, insert_identifiers,
          NodeList.nodes_emplaceBack, List.append_assoc,
          List.singleton_append]
      · unfold Unsampled at hAdded ⊢
        rw [List.map_cons, List.map_cons, hAdded]

theorem keepOnly_nodes
    (current : List Pid)
    (self : Controller) :
    (self.keepOnly current).identifiers.nodes =
      self.identifiers.nodes.filter
        fun n => n.val.pid ∈ current := by
  unfold keepOnly
  rw [NodeList.nodes_removeIf]
  apply List.filter_congr
  intro n _
  rw [Bool.eq_iff_iff]
  simp

/- What a poll keeps stays as it was, and is in front. -/
theorem reconcile_nodes
    (current : List Pid)
    (self : Controller) :
    ∃ added : List (Node Identifier),
      (self.reconcile A links current).identifiers.nodes =
        (self.identifiers.nodes.filter
          fun n => n.val.pid ∈ current) ++ added ∧
      Unsampled added
        (current.filter fun p => p ∉ self.pids) := by
  rw [reconcile_eq, ← keepOnly_nodes]
  exact nodes_foldl_insert _ _

/- The tracked processes are those of the snapshot. -/
theorem reconcile_tracks_iff
    (current : List Pid)
    (self : Controller)
    (pid : Pid) :
    (self.reconcile A links current).Tracks pid ↔
      pid ∈ current := by
  unfold Tracks
  rw [pids_reconcile, List.mem_append, List.mem_filter,
    List.mem_filter, decide_eq_true_iff, decide_eq_true_iff]
  constructor
  · rintro (⟨_, hIn⟩ | ⟨hIn, _⟩)
    · exact hIn
    · exact hIn
  · intro hIn
    by_cases hOld : pid ∈ self.pids
    · exact Or.inl ⟨hOld, hIn⟩
    · exact Or.inr ⟨hIn, hOld⟩

/- A poll makes no duplicates of its own. -/
theorem pids_reconcile_nodup
    {current : List Pid}
    {self : Controller}
    (hOld : self.pids.Nodup)
    (hCurrent : current.Nodup) :
    (self.reconcile A links current).pids.Nodup := by
  rw [pids_reconcile]
  apply List.nodup_append.mpr
  refine ⟨hOld.filter _, hCurrent.filter _, ?_⟩
  intro p hKept q hNew hEq
  have hIn := (List.mem_filter.mp hKept).1
  have hOut := of_decide_eq_true (List.mem_filter.mp hNew).2
  rw [hEq] at hIn
  exact hOut hIn

/- Where the snapshot is what is tracked a poll does nothing. -/
theorem reconcile_eq_self
    {current : List Pid}
    {self : Controller}
    (hSame : ∀ pid, self.Tracks pid ↔ pid ∈ current) :
    self.reconcile A links current = self := by
  have hNone :
      (current.filter fun p => p ∉ self.pids) = [] := by
    rw [List.filter_eq_nil_iff]
    intro p hIn hOut
    exact of_decide_eq_true hOut ((hSame p).mpr hIn)
  have hKeep :
      (self.keepOnly current).identifiers =
        self.identifiers := by
    apply NodeList.ext_nodes
    · rw [keepOnly_nodes, List.filter_eq_self]
      intro n hn
      apply decide_eq_true
      rw [← hSame, tracks_iff]
      exact ⟨n, hn, rfl⟩
    · rfl
  rw [reconcile_eq, hNone, List.foldl_nil]
  change { self with
    identifiers := (self.keepOnly current).identifiers } = self
  rw [hKeep]

theorem reconcile_idempotent
    (current : List Pid)
    (links' : Links)
    (self : Controller) :
    (self.reconcile A links current).reconcile A links'
        current =
      self.reconcile A links current :=
  reconcile_eq_self (reconcile_tracks_iff current self)

------------------------------------------------------------
-- Polls
------------------------------------------------------------

/-
  A poll that succeeds leaves the identifiers it kept and a
  new one for each process that was not tracked, so that
  exactly the processes of the snapshot are tracked, each
  once if there were no duplicates, and a second poll with
  the same snapshot changes nothing.
-/
theorem reload_exact
    (A : Allocator)
    (links : Links)
    {dir : ProcDir}
    {current : List Pid}
    (hLoad : load dir = .ok current)
    (self : Controller) :
    let self' := self.reload A links dir
    (∃ added : List (Node Identifier),
      self'.identifiers.nodes =
          (self.identifiers.nodes.filter
            fun n => n.val.pid ∈ current) ++ added ∧
        Unsampled added
          (current.filter fun p => p ∉ self.pids)) ∧
      (∀ pid, self'.Tracks pid ↔ pid ∈ current) ∧
      (self.pids.Nodup → current.Nodup →
        self'.pids.Nodup) ∧
      ∀ dir' links', load dir' = .ok current →
        self'.reload A links' dir' = self' := by
  have hReload :
      ∀ (ctrl : Controller) (links' : Links) (dir' : ProcDir),
        load dir' = .ok current →
          ctrl.reload A links' dir' =
            ctrl.reconcile A links' current := by
    intro ctrl links' dir' hLoad'
    unfold reload
    rw [hLoad']
  intro self'
  have hSelf : self' = self.reconcile A links current :=
    hReload self links dir hLoad
  rw [hSelf]
  refine ⟨reconcile_nodes current self,
    reconcile_tracks_iff current self,
    fun hOld hCurrent => pids_reconcile_nodup hOld hCurrent,
    ?_⟩
  intro dir' links' hLoad'
  rw [hReload _ links' dir' hLoad']
  exact reconcile_idempotent current links' self

/-
  Process 5 has been read and is kept, process 6 is gone,
  and there are two new ones.
-/
theorem reload_exact_sample :
    let links : Links := fun _ => none
    let memory : Memory := fun _ => { kind := .exeName [] }
    let read : Reader := fun _ _ =>
      .present { state := State.sleeping, utime := 40 }
    let ctrl :=
      (((World.bare memory links).ctrl.insert (.above [])
        links 5).insert (.above []) links 6).refresh
          ⟨10, 10⟩ read
    let dir : ProcDir :=
      .ok [⟨true, "7".toList⟩, ⟨true, "5".toList⟩,
        ⟨true, "8".toList⟩]
    let polled := ctrl.reload (.above []) links dir
    (∃ added,
      polled.identifiers.nodes =
          ⟨1,
            { pid := 5
              cpu := { last := 40 }
              state := State.sleeping }⟩ :: added ∧
        Unsampled added [7, 8]) ∧
      polled.pids.Nodup ∧
      polled.reload (.above []) links dir = polled := by
  intro links memory read ctrl dir polled
  have hLoad : load dir = .ok [7, 5, 8] := rfl
  have hExact := reload_exact (.above []) links hLoad ctrl
  have hKept :
      (ctrl.identifiers.nodes.filter
          fun n => n.val.pid ∈ [7, 5, 8]) =
        [⟨1,
          { pid := 5
            cpu := { last := 40 }
            state := State.sleeping }⟩] := by
    decide +kernel
  have hNew :
      ([7, 5, 8].filter fun p => p ∉ ctrl.pids) = [7, 8] := by
    decide +kernel
  rcases hExact with
    ⟨⟨added, hNodes, hAdded⟩, _, hDistinct, hAgain⟩
  rw [hKept] at hNodes
  rw [hNew] at hAdded
  exact ⟨⟨added, hNodes, hAdded⟩,
    hDistinct (by decide +kernel) (by decide),
    hAgain dir links hLoad⟩

end Controller

end UdjatProcess
