import UdjatProcess.Tracking.Tracked

/-
  Processes with many threads, and what event mode makes of
  the exit of one (`handle_event` in `controller/init.cc`).

  The kernel reports the exit of every thread with the
  thread's own number first and the number of its process
  second. The switch reads the first. So the identifier of a
  process goes when the leader of its threads exits, which
  is the end of the process exactly when the leader is the
  last.

  Key definitions include:
    * `Threads`
    * `Threads.act`
    * `Threads.emit`
    * `Threads.Ended`
    * `Threads.LeaderLast`
    * `World.DropsEnded`

  Key theorems include:
    * `Threads.ended_reap_iff`
    * `Threads.leadersLast_iff`
    * `World.dropsEnded_iff`
    * `World.live_group_dropped`
-/

------------------------------------------------------------
-- Threads
------------------------------------------------------------

namespace UdjatProcess

/- A thread and the process it belongs to. -/
structure Thread where
  tid : Pid
  tgid : Pid
deriving DecidableEq

/-
  The live threads, and the numbers of those that exited. No
  two live threads share a number, and no thread has the
  number of a process other than its own.
-/
structure Threads where
  live : List Thread
  exited : List Pid
  distinct : (live.map Thread.tid).Nodup
  leaders :
    ∀ t ∈ live, ∀ u ∈ live, t.tid = u.tgid → t.tgid = u.tgid

namespace Threads

/- No thread of the process is left. -/
def Ended (self : Threads) (pid : Pid) : Prop :=
  ∀ t ∈ self.live, t.tgid ≠ pid

instance (self : Threads) (pid : Pid) :
    Decidable (self.Ended pid) := by
  unfold Ended
  infer_instance

/- The number is neither a thread's nor a process's. -/
def Free (self : Threads) (tid : Pid) : Prop :=
  ∀ t ∈ self.live, t.tid ≠ tid ∧ t.tgid ≠ tid

instance (self : Threads) (tid : Pid) :
    Decidable (self.Free tid) := by
  unfold Free
  infer_instance

/- A thread creates another one in its process. -/
def spawn
    (self : Threads)
    (parent : Thread)
    (tid : Pid)
    (hParent : parent ∈ self.live)
    (hFree : self.Free tid) : Threads where
  live := self.live ++ [⟨tid, parent.tgid⟩]
  exited := self.exited
  distinct := by
    rw [List.map_append]
    apply List.nodup_append.mpr
    refine ⟨self.distinct, List.nodup_singleton _, ?_⟩
    intro a hOld b hNew hEq
    rcases List.mem_map.mp hOld with ⟨t, ht, hTid⟩
    have hTwin : b = tid := List.mem_singleton.mp hNew
    exact (hFree t ht).1 (hTid.trans (hEq.trans hTwin))
  leaders := by
    intro t ht u hu hEq
    rcases List.mem_append.mp ht with htOld | htNew
    · rcases List.mem_append.mp hu with huOld | huNew
      · exact self.leaders t htOld u huOld hEq
      · rw [List.mem_singleton.mp huNew] at hEq ⊢
        exact self.leaders t htOld parent hParent hEq
    · rcases List.mem_append.mp hu with huOld | huNew
      · rw [List.mem_singleton.mp htNew] at hEq
        exact absurd hEq.symm (hFree u huOld).2
      · rw [List.mem_singleton.mp htNew,
          List.mem_singleton.mp huNew]

/- A thread is gone. -/
def reap (self : Threads) (t : Thread) : Threads where
  live := self.live.filter fun u => u.tid ≠ t.tid
  exited := t.tid :: self.exited
  distinct := self.distinct.sublist (List.filter_sublist.map _)
  leaders := fun u hu v hv =>
    self.leaders u (List.mem_of_mem_filter hu) v
      (List.mem_of_mem_filter hv)

/- What threads do. -/
inductive Act where
| create (parent : Thread) (tid : Pid)
| exit (t : Thread) (exitCode exitSignal : UInt32)
deriving DecidableEq

/-
  The threads after an act. Only a live thread acts, and a
  new thread gets a free number; what is impossible does
  nothing.
-/
def act (self : Threads) : Act → Threads
| .create parent tid =>
    if h : parent ∈ self.live ∧ self.Free tid then
      self.spawn parent tid h.1 h.2
    else
      self
| .exit t _ _ => if t ∈ self.live then self.reap t else self

/- The events that the kernel emits for an act. -/
def emit (self : Threads) : Act → List ProcEvent
| .create parent tid =>
    if parent ∈ self.live ∧ self.Free tid then
      [.fork parent.tid parent.tgid tid parent.tgid]
    else
      []
| .exit t exitCode exitSignal =>
    if t ∈ self.live then
      [.exit t.tid t.tgid exitCode exitSignal]
    else
      []

/-
  The exiting thread is its process's leader exactly when it
  is the last one, if the process is one of those watched.
-/
def LeaderLast
    (watched : Pid → Prop)
    (self : Threads) : Act → Prop
| .create _ _ => True
| .exit t _ _ =>
    t ∈ self.live → watched t.tgid →
      (t.tid = t.tgid ↔
        ∀ u ∈ self.live, u.tgid = t.tgid → u = t)

instance
    (watched : Pid → Prop)
    [DecidablePred watched]
    (self : Threads)
    (a : Act) :
    Decidable (self.LeaderLast watched a) := by
  cases a <;> unfold LeaderLast <;> infer_instance

------------------------------------------------------------
-- Processes That End
------------------------------------------------------------

/- A number determines the thread. -/
theorem eq_of_tid_eq
    {self : Threads}
    {t u : Thread}
    (ht : t ∈ self.live)
    (hu : u ∈ self.live)
    (hTid : t.tid = u.tid) :
    t = u :=
  List.inj_on_of_nodup_map self.distinct ht hu hTid

theorem not_ended_of_mem
    {self : Threads}
    {t : Thread}
    (ht : t ∈ self.live) :
    ¬ self.Ended t.tgid :=
  fun hEnded => hEnded t ht rfl

/- A new thread neither ends a process nor revives one. -/
theorem ended_spawn_iff
    {self : Threads}
    {parent : Thread}
    {tid : Pid}
    (hParent : parent ∈ self.live)
    (hFree : self.Free tid)
    (pid : Pid) :
    (self.spawn parent tid hParent hFree).Ended pid ↔
      self.Ended pid := by
  constructor
  · intro hEnded t ht
    exact hEnded t (List.mem_append_left _ ht)
  · intro hEnded t ht
    rcases List.mem_append.mp ht with hOld | hNew
    · exact hEnded t hOld
    · rw [List.mem_singleton.mp hNew]
      exact hEnded parent hParent

/- An exit ends the process of a thread that was the last. -/
theorem ended_reap_iff
    {self : Threads}
    {t : Thread}
    (ht : t ∈ self.live)
    (pid : Pid) :
    (self.reap t).Ended pid ↔
      self.Ended pid ∨
        (pid = t.tgid ∧
          ∀ u ∈ self.live, u.tgid = t.tgid → u = t) := by
  have hKept :
      ∀ u, u ∈ (self.reap t).live ↔
        u ∈ self.live ∧ u ≠ t := by
    intro u
    simp only [reap, List.mem_filter, decide_eq_true_eq]
    constructor
    · rintro ⟨hu, hNe⟩
      exact ⟨hu, fun hEq => hNe (congrArg Thread.tid hEq)⟩
    · rintro ⟨hu, hNe⟩
      exact ⟨hu, fun hTid => hNe (eq_of_tid_eq hu ht hTid)⟩
  constructor
  · intro hEnded
    by_cases hPid : pid = t.tgid
    · right
      refine ⟨hPid, ?_⟩
      intro u hu hGroup
      by_contra hNe
      exact hEnded u ((hKept u).mpr ⟨hu, hNe⟩)
        (hGroup.trans hPid.symm)
    · left
      intro u hu hGroup
      have hNe : u ≠ t := by
        intro hEq
        exact hPid (hGroup.symm.trans
          (congrArg Thread.tgid hEq))
      exact hEnded u ((hKept u).mpr ⟨hu, hNe⟩) hGroup
  · intro hCases u hu hGroup
    rcases (hKept u).mp hu with ⟨hLive, hNe⟩
    rcases hCases with hEnded | ⟨hPid, hLast⟩
    · exact hEnded u hLive hGroup
    · exact hNe (hLast u hLive (hGroup.trans hPid))

/- The exits reported for a watched process mark its end. -/
def ExitsMarkEnds
    (watched : Pid → Prop)
    (self : Threads) : Prop :=
  ∀ pid, watched pid →
    (pid ∈ self.exited ↔ self.Ended pid)

/-
  An exit keeps that so exactly when it is the leader's and
  the last, or neither.
-/
theorem exitsMarkEnds_reap_iff
    {watched : Pid → Prop}
    {self : Threads}
    {t : Thread}
    (hMark : self.ExitsMarkEnds watched)
    (ht : t ∈ self.live) :
    (self.reap t).ExitsMarkEnds watched ↔
      (watched t.tgid →
        (t.tid = t.tgid ↔
          ∀ u ∈ self.live, u.tgid = t.tgid → u = t)) := by
  constructor
  · intro hAfter hWatched
    have hNot : ¬ self.Ended t.tgid := not_ended_of_mem ht
    have hOut : t.tgid ∉ self.exited :=
      fun hIn => hNot ((hMark t.tgid hWatched).mp hIn)
    have hIff := hAfter t.tgid hWatched
    rw [ended_reap_iff ht] at hIff
    constructor
    · intro hLeader
      have hIn : t.tgid ∈ (self.reap t).exited := by
        rw [← hLeader]
        exact List.mem_cons_self
      rcases hIff.mp hIn with hEnded | ⟨_, hLast⟩
      · exact absurd hEnded hNot
      · exact hLast
    · intro hLast
      rcases List.mem_cons.mp (hIff.mpr (Or.inr ⟨rfl, hLast⟩))
        with hLeader | hIn
      · exact hLeader.symm
      · exact absurd hIn hOut
  · intro hLeader pid hWatched
    rw [ended_reap_iff ht]
    by_cases hEnded : self.Ended pid
    · have hIn : pid ∈ self.exited :=
        (hMark pid hWatched).mpr hEnded
      constructor
      · exact fun _ => Or.inl hEnded
      · exact fun _ => List.mem_cons_of_mem _ hIn
    · have hOut : pid ∉ self.exited :=
        fun hIn => hEnded ((hMark pid hWatched).mp hIn)
      constructor
      · intro hIn
        have hTid : pid = t.tid := by
          rcases List.mem_cons.mp hIn with hHead | hTail
          · exact hHead
          · exact absurd hTail hOut
        have hMember : ∃ u ∈ self.live, u.tgid = pid := by
          by_contra hNone
          exact hEnded fun u hu hGroup =>
            hNone ⟨u, hu, hGroup⟩
        rcases hMember with ⟨u, hu, hGroup⟩
        have hOwn : t.tgid = pid :=
          (self.leaders t ht u hu
            (hTid.symm.trans hGroup.symm)).trans hGroup
        rw [← hOwn] at hWatched
        exact Or.inr ⟨hOwn.symm,
          (hLeader hWatched).mp (hTid.symm.trans hOwn.symm)⟩
      · rintro (hBefore | ⟨hPid, hLast⟩)
        · exact absurd hBefore hEnded
        · rw [hPid] at hWatched ⊢
          rw [← (hLeader hWatched).mpr hLast]
          exact List.mem_cons_self

theorem exitsMarkEnds_act_iff
    {watched : Pid → Prop}
    {self : Threads}
    (hMark : self.ExitsMarkEnds watched)
    (a : Act) :
    (self.act a).ExitsMarkEnds watched ↔
      self.LeaderLast watched a := by
  cases a with
  | create parent tid =>
      refine iff_of_true ?_ trivial
      by_cases hCan : parent ∈ self.live ∧ self.Free tid
      · have hAct :
            self.act (.create parent tid) =
              self.spawn parent tid hCan.1 hCan.2 :=
          dif_pos hCan
        rw [hAct]
        intro pid hWatched
        rw [ended_spawn_iff hCan.1 hCan.2]
        exact hMark pid hWatched
      · have hAct : self.act (.create parent tid) = self :=
          dif_neg hCan
        rw [hAct]
        exact hMark
  | exit t exitCode exitSignal =>
      by_cases hLive : t ∈ self.live
      · have hAct :
            self.act (.exit t exitCode exitSignal) =
              self.reap t :=
          if_pos hLive
        rw [hAct, exitsMarkEnds_reap_iff hMark hLive]
        exact ⟨fun h _ => h, fun h => h hLive⟩
      · have hAct :
            self.act (.exit t exitCode exitSignal) = self :=
          if_neg hLive
        rw [hAct]
        exact iff_of_true hMark
          fun hMem => absurd hMem hLive

/-
  Throughout a history the exits mark the ends if and only
  if every leader is the last of its process to exit.
-/
theorem leadersLast_iff
    {watched : Pid → Prop}
    {self : Threads}
    (hMark : self.ExitsMarkEnds watched)
    (history : List Act) :
    Runs.Always act (ExitsMarkEnds watched) self history ↔
      Runs.Along act (LeaderLast watched) self history :=
  Runs.always_iff_along_of_exact
    (fun _ a hBefore => exitsMarkEnds_act_iff hBefore a) hMark

------------------------------------------------------------
-- The Module And The Threads
------------------------------------------------------------

/- The threads and the module after a run. -/
abbrev run
    (A : Allocator)
    (s : World.Net Threads)
    (moves : List (World.NetMove Act)) :
    World.Net Threads :=
  World.observe A act emit s moves

/- The tracked processes whose leaders have not exited. -/
def leaderPresent
    (tracked : Set Pid)
    (self : Threads) : Set Pid :=
  Set.ofPred fun pid => pid ∈ tracked ∧ pid ∉ self.exited

theorem mem_leaderPresent_iff
    (tracked : Set Pid)
    (self : Threads)
    (pid : Pid) :
    pid ∈ leaderPresent tracked self ↔
      pid ∈ tracked ∧ pid ∉ self.exited := Iff.rfl

/- An act and its event change that set alike. -/
theorem leaderPresent_act
    (tracked : Set Pid)
    (self : Threads)
    (a : Act) :
    leaderPresent tracked (self.act a) =
      (self.emit a).foldl
        (fun s ev => Registry.replay s ev.changes)
        (leaderPresent tracked self) := by
  cases a with
  | create parent tid =>
      by_cases hCan : parent ∈ self.live ∧ self.Free tid
      · have hAct :
            self.act (.create parent tid) =
              self.spawn parent tid hCan.1 hCan.2 :=
          dif_pos hCan
        have hEmit :
            self.emit (.create parent tid) =
              [.fork parent.tid parent.tgid tid
                parent.tgid] :=
          if_pos hCan
        rw [hAct, hEmit]
        rfl
      · simp [act, emit, hCan]
  | exit t exitCode exitSignal =>
      by_cases hLive : t ∈ self.live
      · have hAct :
            self.act (.exit t exitCode exitSignal) =
              self.reap t :=
          if_pos hLive
        have hEmit :
            self.emit (.exit t exitCode exitSignal) =
              [.exit t.tid t.tgid exitCode exitSignal] :=
          if_pos hLive
        rw [hAct, hEmit]
        ext p
        simp only [List.foldl_cons, List.foldl_nil,
          ProcEvent.changes, Registry.replay_cons,
          Registry.replay_nil, Registry.mem_change_leave,
          mem_leaderPresent_iff, reap, List.mem_cons, not_or]
        constructor
        · rintro ⟨hTracked, hNe, hOut⟩
          exact ⟨⟨hTracked, hOut⟩, hNe⟩
        · rintro ⟨⟨hTracked, hOut⟩, hNe⟩
          exact ⟨hTracked, hNe, hOut⟩
      · simp [act, emit, hLive]

end Threads

------------------------------------------------------------
-- Dropping What Has Ended
------------------------------------------------------------

namespace World

/-
  Of the processes that a world tracks, the module has
  dropped exactly those without a thread left.
-/
def DropsEnded (w : World) (s : Net Threads) : Prop :=
  ∀ pid, w.ctrl.Tracks pid →
    (¬ s.replica.ctrl.Tracks pid ↔ s.source.Ended pid)

/-
  Once all events are handled, that depends on the exits
  reported alone.
-/
theorem dropsEnded_of_drained_iff
    {A : Allocator}
    {w : World}
    {threads : Threads}
    {moves : List (NetMove Threads.Act)}
    (hFd : 0 ≤ w.ctrl.fd)
    (hNew : threads.exited = [])
    (hQuiet : QuietMoves moves)
    (hDrained :
      (Threads.run A (boot threads w) moves).queue = []) :
    w.DropsEnded (Threads.run A (boot threads w) moves) ↔
      (Threads.run A (boot threads w)
        moves).source.ExitsMarkEnds w.ctrl.Tracks := by
  have hStart :
      w.tracked = Threads.leaderPresent w.tracked threads := by
    ext p
    simp [Threads.mem_leaderPresent_iff, hNew]
  have hTracked :=
    tracked_of_drained
      (Threads.leaderPresent_act w.tracked) hFd hQuiet hStart
      hDrained
  apply forall_congr'
  intro pid
  apply imp_congr_right
  intro hPid
  have hMem := Set.ext_iff.mp hTracked pid
  rw [Threads.mem_leaderPresent_iff] at hMem
  have hGone :
      ¬ (Threads.run A (boot threads w)
          moves).replica.ctrl.Tracks pid ↔
        pid ∈ (Threads.run A (boot threads w)
          moves).source.exited := by
    rw [← not_iff_not, not_not]
    exact hMem.trans (and_iff_right hPid)
  rw [hGone]

/-
  After every part of a history, and however its events and
  other work interleave, the module has dropped exactly the
  processes that ended, if and only if in that history every
  leader of a tracked process is the last of its threads to
  exit.
-/
theorem dropsEnded_iff
    {A : Allocator}
    {w : World}
    {threads : Threads}
    (hFd : 0 ≤ w.ctrl.fd)
    (hNew : threads.exited = [])
    (hLive :
      ∀ pid, w.ctrl.Tracks pid → ¬ threads.Ended pid)
    (history : List Threads.Act) :
    (∀ moves : List (NetMove Threads.Act),
      Relay.acts moves <+: history → QuietMoves moves →
      (Threads.run A (boot threads w) moves).queue = [] →
      w.DropsEnded (Threads.run A (boot threads w) moves)) ↔
    Runs.Along Threads.act
      (Threads.LeaderLast w.ctrl.Tracks) threads history := by
  have hMark : threads.ExitsMarkEnds w.ctrl.Tracks := by
    intro pid hPid
    refine iff_of_false ?_ (hLive pid hPid)
    simp [hNew]
  have hSource :
      ∀ moves : List (NetMove Threads.Act),
        (Threads.run A (boot threads w) moves).source =
          Runs.after Threads.act threads (Relay.acts moves) :=
    fun moves => Relay.source_after _ _ moves
  rw [← Threads.leadersLast_iff hMark,
    Runs.always_iff_prefixes]
  constructor
  · intro hAll first hPrefix
    rcases Relay.exists_drained
        (monitor A Threads.act Threads.emit)
        (boot threads w) first with
      ⟨moves, hActs, hNone, hDrained⟩
    have hQuiet : QuietMoves moves :=
      fun op hMem => absurd hMem (hNone op)
    rw [← hActs] at hPrefix ⊢
    rw [← hSource moves]
    exact (dropsEnded_of_drained_iff hFd hNew hQuiet
      hDrained).mp (hAll moves hPrefix hQuiet hDrained)
  · intro hAll moves hPrefix hQuiet hDrained
    apply (dropsEnded_of_drained_iff hFd hNew hQuiet
      hDrained).mpr
    rw [hSource moves]
    exact hAll _ hPrefix

/- Process 5 with one thread. -/
def oneThread : Threads where
  live := [⟨5, 5⟩]
  exited := []
  distinct := by decide
  leaders := by decide

/- A worker that exits first does no harm. -/
theorem dropsEnded_sample :
    oneLoaded.DropsEnded
      (Threads.run (.above []) (boot oneThread oneLoaded)
        [.act (.create ⟨5, 5⟩ 7), .deliver,
          .act (.exit ⟨7, 5⟩ 0 17), .work .updateAgents,
          .deliver, .act (.exit ⟨5, 5⟩ 0 17), .deliver]) := by
  have hLive :
      ∀ pid, oneLoaded.ctrl.Tracks pid →
        ¬ oneThread.Ended pid := by
    intro pid hPid
    have hEq : pid = 5 := List.mem_singleton.mp hPid
    rw [hEq]
    decide
  have hLeaderLast :
      Runs.Along Threads.act
        (Threads.LeaderLast oneLoaded.ctrl.Tracks) oneThread
        [.create ⟨5, 5⟩ 7, .exit ⟨7, 5⟩ 0 17,
          .exit ⟨5, 5⟩ 0 17] :=
    ⟨by decide, by decide, by decide, trivial⟩
  have hAll :=
    (dropsEnded_iff (A := .above []) (by decide) rfl hLive
      _).mpr hLeaderLast
  exact hAll _ (List.prefix_refl _) (by simp [Op.Quiet]) rfl

/-
  The leader of process 5 exits while thread 7 of the
  process lives on. The process is dropped.
-/
theorem live_group_dropped :
    let s :=
      Threads.run (.above []) (boot oneThread oneLoaded)
        [.act (.create ⟨5, 5⟩ 7), .act (.exit ⟨5, 5⟩ 0 17),
          .deliver, .deliver]
    s.queue = [] ∧ oneLoaded.ctrl.Tracks 5 ∧
      ¬ s.replica.ctrl.Tracks 5 ∧ ¬ s.source.Ended 5 ∧
      ¬ oneLoaded.DropsEnded s := by
  intro s
  have hTracked : oneLoaded.ctrl.Tracks 5 := by decide
  have hGone : ¬ s.replica.ctrl.Tracks 5 := by decide
  have hLive : ¬ s.source.Ended 5 := by decide
  refine ⟨rfl, hTracked, hGone, hLive, ?_⟩
  intro hDrops
  exact hLive ((hDrops 5 hTracked).mp hGone)

end World

end UdjatProcess
