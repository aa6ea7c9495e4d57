import UdjatProcess.Binding.ExeName

/-
  Whether an unbound agent has no process to watch.

  A registration searches the whole list and a new process
  is offered to every unbound agent, but when the process
  that an agent is bound to goes, the controller unbinds the
  agent without a search. So an unbound agent has no process
  to watch exactly as long as no removal takes the process
  of an agent that recognises another one.

  Key definitions include:
    * `World.Complete`
    * `World.RegistrationRun`
    * `World.SparesLastMatch`

  Key theorems include:
    * `World.complete_remove_iff`
    * `World.complete_iff`
    * `World.unbound_with_match`
-/

------------------------------------------------------------
-- Complete Pointers
------------------------------------------------------------

namespace UdjatProcess

namespace World

variable {A : Allocator}

/- The agent recognises no element of the list. -/
def NoMatch (w : World) (id : AgentId) : Prop :=
  ∀ n ∈ w.ctrl.identifiers.nodes, ¬ w.Accepts id n

/- `getState` reports `Dead`, whatever the stat file holds. -/
def ReportsDead (w : World) (id : AgentId) : Prop :=
  ∀ file, w.ctrl.agentState file id =
    some (.ok (State.dead, w.ctrl))

/-
  A registered agent that watches by name is unbound, and
  so reports `Dead`, if and only if it recognises no element
  of the list.
-/
def Complete (w : World) : Prop :=
  ∀ id ∈ w.ctrl.agents, w.IsExeName id →
    (w.Unbound id ↔ w.NoMatch id) ∧
      (w.Unbound id → w.ReportsDead id)

/-
  Processes come and go and agents are registered, any
  agent at any time. A tracked process keeps its name.
-/
def RegistrationRun (w : World) : Op → Prop
| .links links => w.KeepsNames links
| .insert _ => True
| .remove _ => True
| .insertAgent _ => True
| _ => False

/-
  A process is removed only while every agent bound to it
  recognises no other process of the list.
-/
def SparesLastMatch (w : World) (op : Op) : Prop :=
  ∀ pid, op = .remove pid →
    ∀ id ∈ w.ctrl.agents, w.IsExeName id →
      ∀ n ∈ w.ctrl.identifiers.nodes,
        n.val.pid = pid → w.BoundTo id n →
          ∀ m ∈ w.ctrl.identifiers.nodes,
            m.val.pid ≠ pid → ¬ w.Accepts id m

/- Registered pointers are sound, the others are null. -/
structure RegistrationInv (w : World) : Prop where
  sound : w.AllSound
  unbound : ∀ id, id ∉ w.ctrl.agents → w.Unbound id

theorem reportsDead_of_unbound
    {w : World}
    {id : AgentId}
    (hUnbound : w.Unbound id) :
    w.ReportsDead id := by
  intro file
  unfold Controller.agentState
  rw [hUnbound]

/- A bound agent with a sound pointer has a match. -/
theorem not_noMatch_of_bound
    {w : World}
    {id : AgentId}
    (hSound : w.Sound id)
    (hBound : ¬ w.Unbound id) :
    ¬ w.NoMatch id := by
  intro hNone
  rcases hSound with hUnbound | ⟨n, hn, _, hAccepts⟩
  · exact hBound hUnbound
  · exact hNone n hn hAccepts

/-
  It is enough that unbound agents have no match, since a
  sound pointer is itself a match.
-/
theorem complete_of_unbound
    {w : World}
    (hSound : w.AllSound)
    (hUnbound :
      ∀ id ∈ w.ctrl.agents, w.IsExeName id →
        w.Unbound id → w.NoMatch id) :
    w.Complete := by
  intro id hMem hName
  refine ⟨⟨hUnbound id hMem hName, ?_⟩,
    reportsDead_of_unbound⟩
  intro hNone
  by_contra hBound
  exact not_noMatch_of_bound (hSound id hMem) hBound hNone

/- The two facts about pointers hold in every such run. -/
theorem registrationInv_step
    (w : World)
    (op : Op)
    (hInv : w.RegistrationInv)
    (hLegal : w.RegistrationRun op) :
    (w.step A op).RegistrationInv := by
  cases op with
  | links links =>
      refine ⟨?_, hInv.unbound⟩
      intro id hMem
      exact sound_links hLegal (hInv.sound id hMem)
  | insert pid =>
      constructor
      · intro id hMem
        exact sound_insert pid (hInv.sound id hMem)
      · exact unbound_insert hInv.unbound pid
  | remove pid =>
      constructor
      · intro id hMem
        exact sound_remove pid hMem (hInv.sound id hMem)
      · exact unbound_remove hInv.unbound pid
  | insertAgent agent =>
      constructor
      · intro id hMem
        apply sound_insertAgent
        by_cases hOld : id ∈ w.ctrl.agents
        · exact hInv.sound id hOld
        · exact Or.inl (hInv.unbound id hOld)
      · exact unbound_insertAgent hInv.unbound agent
  | _ => cases hLegal

------------------------------------------------------------
-- Steps
------------------------------------------------------------

/- An agent that stays unbound did not accept the process. -/
theorem complete_insert
    {w : World}
    (hInv : w.RegistrationInv)
    (hProp : w.Complete)
    (pid : Pid) :
    (w.step A (.insert pid)).Complete := by
  have hNext :=
    registrationInv_step (A := A) w (.insert pid) hInv trivial
  apply complete_of_unbound hNext.sound
  intro id hMem hName hUnbound n hn
  change id ∈ w.ctrl.agents at hMem
  have hKind :=
    Controller.insert_memory_kind (A := A) (L := w.links)
      pid w.ctrl id
  have hOldName : w.IsExeName id :=
    (isExeName_of_kind_eq hKind).mp hName
  rw [accepts_iff_of_eq w (w.step A (.insert pid)) hKind rfl]
  rcases insert_cases A w pid id with
    ⟨_, hBound⟩ | ⟨hNot, hSame⟩
  · exact absurd (hBound.symm.trans hUnbound)
      (Option.some_ne_none _)
  · have hBefore : w.Unbound id :=
      (congrArg Agent.pid hSame).symm.trans hUnbound
    rcases List.mem_append.mp hn with hOld | hNew
    · exact ((hProp id hMem hOldName).1.mp hBefore) n hOld
    · rw [List.mem_singleton.mp hNew]
      exact fun hAccepts => hNot ⟨hMem, hBefore, hAccepts⟩

/- A registered agent that stays unbound found no match. -/
theorem complete_insertAgent
    {w : World}
    (hInv : w.RegistrationInv)
    (hProp : w.Complete)
    (agent : AgentId) :
    (w.step A (.insertAgent agent)).Complete := by
  have hNext :=
    registrationInv_step (A := A) w (.insertAgent agent) hInv
      trivial
  apply complete_of_unbound hNext.sound
  intro id hMem hName hUnbound n hn
  have hKind :=
    Controller.insertAgent_memory_kind (L := w.links)
      agent id w.ctrl
  have hOldName : w.IsExeName id :=
    (isExeName_of_kind_eq hKind).mp hName
  rw [accepts_iff_of_eq w (w.step A (.insertAgent agent))
    hKind rfl]
  change n ∈ (w.ctrl.insertAgent w.links
    agent).identifiers.nodes at hn
  rw [Controller.insertAgent_identifiers] at hn
  change ((w.ctrl.insertAgent w.links agent).memory id).pid =
    none at hUnbound
  by_cases hId : id = agent
  · subst hId
    rw [Controller.insertAgent_memory_same] at hUnbound
    cases hMatch : w.ctrl.firstMatch w.links id with
    | none =>
        have hNone :=
          (Controller.firstMatch_none_iff w.ctrl id).mp
            hMatch n hn
        exact Bool.eq_false_iff.mp hNone
    | some m =>
        rw [hMatch] at hUnbound
        simp at hUnbound
  · rw [Controller.insertAgent_memory_ne hId] at hUnbound
    change id ∈ (w.ctrl.insertAgent w.links agent).agents
      at hMem
    rw [Controller.insertAgent_agents] at hMem
    rcases List.mem_append.mp hMem with hOld | hNew
    · exact ((hProp id hOld hOldName).1.mp hUnbound) n hn
    · exact absurd (List.mem_singleton.mp hNew) hId

/- Stable names keep matches as they are. -/
theorem complete_links
    {w : World}
    (hInv : w.RegistrationInv)
    (hProp : w.Complete)
    {links : Links}
    (hKeeps : w.KeepsNames links) :
    (w.step A (.links links)).Complete := by
  have hNext :=
    registrationInv_step (A := A) w (.links links) hInv hKeeps
  apply complete_of_unbound hNext.sound
  intro id hMem hName hUnbound n hn
  rw [accepts_iff_of_eq w (w.step A (.links links)) rfl
    (hKeeps _ (tracks_of_mem hn))]
  exact ((hProp id hMem hName).1.mp hUnbound) n hn

/-
  A removal leaves no unbound agent with a match exactly
  when the agents it unbinds have no other match.
-/
theorem complete_remove_iff
    {w : World}
    (hInv : w.RegistrationInv)
    (hProp : w.Complete)
    (pid : Pid) :
    (w.step A (.remove pid)).Complete ↔
      w.SparesLastMatch (.remove pid) := by
  have hNext :=
    registrationInv_step (A := A) w (.remove pid) hInv trivial
  have hAccepts := fun id (n : Node Identifier) =>
    accepts_iff_of_eq w (w.step A (.remove pid))
      (Controller.remove_memory_kind pid w.ctrl id)
      (n := n) rfl
  have hName : ∀ id,
      (w.step A (.remove pid)).IsExeName id ↔
        w.IsExeName id :=
    fun id => isExeName_of_kind_eq
      (Controller.remove_memory_kind pid w.ctrl id)
  constructor
  · intro hAfter removed hOp id hMem hExe n hn hPid hBound
      m hm hNe
    cases hOp
    have hUnbound :
        (w.step A (.remove pid)).Unbound id := by
      rcases remove_cases A w pid id with
        ⟨_, hUnbound⟩ | ⟨hSpared, _⟩
      · exact hUnbound
      · exact absurd ⟨hMem, n, hn, hPid, hBound⟩ hSpared
    have hNone :=
      (hAfter id hMem ((hName id).mpr hExe)).1.mp hUnbound m
        ((Controller.mem_remove_nodes_iff pid w.ctrl m).mpr
          ⟨hm, hNe⟩)
    rw [hAccepts] at hNone
    exact hNone
  · intro hSpares
    apply complete_of_unbound hNext.sound
    intro id hMem hExe hUnbound m hm
    have hExeOld := (hName id).mp hExe
    rcases (Controller.mem_remove_nodes_iff pid w.ctrl m).mp
      hm with ⟨hmOld, hNe⟩
    rw [hAccepts]
    rcases remove_cases A w pid id with
      ⟨⟨_, n, hn, hPid, hBound⟩, _⟩ | ⟨_, hSame⟩
    · exact hSpares pid rfl id hMem hExeOld n hn hPid hBound
        m hmOld hNe
    · have hBefore : w.Unbound id :=
        (congrArg Agent.pid hSame).symm.trans hUnbound
      exact ((hProp id hMem hExeOld).1.mp hBefore) m hmOld

/-
  In a run from a controller without agents, an agent is
  unbound exactly when it recognises no process, in every
  state, if and only if every removal of the run spares the
  last match of the agents it unbinds.
-/
theorem complete_iff
    (A : Allocator)
    (w : World)
    (ops : List Op)
    (hIdle : w.Idle)
    (hRun : Runs.Along (step A) RegistrationRun w ops) :
    Runs.Always (step A) Complete w ops ↔
      Runs.Along (step A) SparesLastMatch w ops := by
  apply Runs.always_iff_along
    (fun w op => registrationInv_step w op) _ _ _ hRun
  · intro w op hInv hLegal hProp
    have hOther :
        (∀ pid, op ≠ .remove pid) →
          w.SparesLastMatch op := by
      intro hOp pid hEq
      exact absurd hEq (hOp pid)
    cases op with
    | links links =>
        exact iff_of_true (complete_links hInv hProp hLegal)
          (hOther (by intro _ hOp; cases hOp))
    | insert pid =>
        exact iff_of_true (complete_insert hInv hProp pid)
          (hOther (by intro _ hOp; cases hOp))
    | remove pid => exact complete_remove_iff hInv hProp pid
    | insertAgent agent =>
        exact iff_of_true
          (complete_insertAgent hInv hProp agent)
          (hOther (by intro _ hOp; cases hOp))
    | _ => cases hLegal
  · refine ⟨?_, fun id _ => hIdle.unbound id⟩
    exact fun id hMem => absurd hMem (hIdle.not_mem id)
  · exact fun id hMem => absurd hMem (hIdle.not_mem id)

------------------------------------------------------------
-- Sample Runs
------------------------------------------------------------

/- The agent's only process goes, and the agent is unbound. -/
theorem complete_sample :
    Runs.Always (step (.above [])) Complete gdmWorld
      [.insertAgent 1, .insert 5, .remove 5] := by
  refine (complete_iff (.above []) gdmWorld _
    (idle_bare fun _ => rfl) ?_).mpr ⟨?_, ?_, ?_, trivial⟩
  · exact ⟨trivial, trivial, trivial, trivial⟩
  · intro pid hOp
    cases hOp
  · intro pid hOp
    cases hOp
  · intro pid hOp id _ _ n _ _ _ m hm hNe
    cases hOp
    have hOnly :
        ∀ m ∈ (Runs.after (step (.above [])) gdmWorld
          [.insertAgent 1,
            .insert 5]).ctrl.identifiers.nodes,
          m.val.pid = 5 := by
      decide
    exact absurd (hOnly m hm) hNe

/-
  Processes 5 and 6 run the program. The agent is bound to
  5, and is unbound for good when 5 exits.
-/
theorem unbound_with_match :
    Runs.Along (step (.above [])) RegistrationRun gdmWorld
      [.insert 5, .insert 6, .insertAgent 1, .remove 5] ∧
    ¬ Runs.Always (step (.above [])) Complete gdmWorld
      [.insert 5, .insert 6, .insertAgent 1,
        .remove 5] := by
  refine ⟨⟨trivial, trivial, trivial, trivial, trivial⟩, ?_⟩
  intro hAlways
  have hUnbound :
      (Runs.after (step (.above [])) gdmWorld
        [.insert 5, .insert 6, .insertAgent 1,
          .remove 5]).Unbound 1 := by
    unfold Unbound
    decide
  have hNone :=
    (hAlways.after 1 (by decide) ⟨_, rfl⟩).1.mp hUnbound
  have hMatch :
      ∃ n ∈ (Runs.after (step (.above [])) gdmWorld
        [.insert 5, .insert 6, .insertAgent 1,
          .remove 5]).ctrl.identifiers.nodes,
        (Runs.after (step (.above [])) gdmWorld
          [.insert 5, .insert 6, .insertAgent 1,
            .remove 5]).Accepts 1 n := by
    decide
  rcases hMatch with ⟨n, hn, hAccepts⟩
  exact hNone n hn hAccepts

end World

end UdjatProcess
