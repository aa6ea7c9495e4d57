import UdjatProcess.System.World

/-
  Pointers of agents that watch a process by its name
  (`Controller::insert`, `Controller::remove` and
  `Controller::onInsert` in `controller/controller.cc`).

  A registered agent is bound to an element of the list that
  it recognises, or not bound. The relation between the two
  lists is kept by every registration and every event, as
  long as a tracked process does not change its name.

  Key definitions include:
    * `World.Sound`
    * `World.EventRun`

  Key theorems include:
    * `World.sound_insert`
    * `World.sound_remove`
    * `World.sound_insertAgent`
    * `World.bindings_sound`
-/

------------------------------------------------------------
-- Sound Pointers
------------------------------------------------------------

namespace UdjatProcess

namespace World

variable {A : Allocator}

/- Unbound, or bound to an element that the agent accepts. -/
def Sound (w : World) (id : AgentId) : Prop :=
  w.Unbound id ∨
    ∃ n ∈ w.ctrl.identifiers.nodes,
      w.BoundTo id n ∧ w.Accepts id n

/-
  A pointer that keeps its value stays sound when the
  element it refers to stays and keeps its name.
-/
theorem Sound.mono
    {w : World}
    {id : AgentId}
    (hSound : w.Sound id)
    (w' : World)
    (hMemory : w'.ctrl.memory id = w.ctrl.memory id)
    (hNodes :
      ∀ n ∈ w.ctrl.identifiers.nodes, w.BoundTo id n →
        n ∈ w'.ctrl.identifiers.nodes)
    (hNames :
      ∀ n ∈ w.ctrl.identifiers.nodes,
        w'.exename n.val.pid = w.exename n.val.pid) :
    w'.Sound id := by
  rcases hSound with hUnbound | ⟨n, hn, hBound, hAccepts⟩
  · left
    unfold Unbound
    rw [hMemory]
    exact hUnbound
  · refine Or.inr ⟨n, hNodes n hn hBound, ?_, ?_⟩
    · unfold BoundTo
      rw [hMemory]
      exact hBound
    · exact (accepts_iff_of_eq w w' (by rw [hMemory])
        (hNames n hn)).mpr hAccepts

/- A change of `/proc` that keeps names keeps pointers. -/
theorem sound_links
    {w : World}
    {links : Links}
    {id : AgentId}
    (hKeeps : w.KeepsNames links)
    (hSound : w.Sound id) :
    (w.step A (.links links)).Sound id :=
  hSound.mono _ rfl (fun _ hn _ => hn)
    (fun _ hn => hKeeps _ (tracks_of_mem hn))

/-
  A new process: an unbound agent that recognises it is
  bound to the new element, every other one is left alone.
-/
theorem sound_insert
    {w : World}
    {id : AgentId}
    (pid : Pid)
    (hSound : w.Sound id) :
    (w.step A (.insert pid)).Sound id := by
  have hOld :
      ∀ n ∈ w.ctrl.identifiers.nodes, w.BoundTo id n →
        n ∈ (w.step A
          (.insert pid)).ctrl.identifiers.nodes :=
    fun n hn _ => List.mem_append_left _ hn
  rcases insert_cases A w pid id with
    ⟨⟨_, _, hProbe⟩, hPid⟩ | ⟨_, hSame⟩
  · refine Or.inr
      ⟨⟨w.ctrl.identifiers.fresh A, { pid := pid }⟩,
        ?_, hPid, ?_⟩
    · exact List.mem_append_right _ (List.mem_singleton_self _)
    · apply (accepts_iff_of_eq w (w.step A (.insert pid))
        (Controller.insert_memory_kind pid w.ctrl id) rfl).mpr
      exact hProbe
  · exact hSound.mono (w.step A (.insert pid)) hSame hOld
      (fun _ _ => rfl)

/-
  A process that goes: the agents bound to one of its
  elements are unbound, the other elements stay.
-/
theorem sound_remove
    {w : World}
    {id : AgentId}
    (pid : Pid)
    (hMem : id ∈ w.ctrl.agents)
    (hSound : w.Sound id) :
    (w.step A (.remove pid)).Sound id := by
  rcases remove_cases A w pid id with
    ⟨_, hUnbound⟩ | ⟨hSpared, hSame⟩
  · exact Or.inl hUnbound
  · apply hSound.mono (w.step A (.remove pid)) hSame _
      (fun _ _ => rfl)
    intro n hn hBound
    apply (Controller.mem_remove_nodes_iff pid w.ctrl n).mpr
    exact ⟨hn, fun hPid =>
      hSpared ⟨hMem, n, hn, hPid, hBound⟩⟩

/- A registration concerns the registered agent only. -/
theorem sound_insertAgent
    {w : World}
    {agent id : AgentId}
    (hSound : w.Sound id) :
    (w.step A (.insertAgent agent)).Sound id := by
  have hNodes :
      ∀ n ∈ w.ctrl.identifiers.nodes, w.BoundTo id n →
        n ∈ (w.step A
          (.insertAgent agent)).ctrl.identifiers.nodes := by
    intro n hn _
    change n ∈ (w.ctrl.insertAgent w.links
      agent).identifiers.nodes
    rw [Controller.insertAgent_identifiers]
    exact hn
  by_cases hId : id = agent
  · subst hId
    have hMemory :=
      Controller.insertAgent_memory_same (L := w.links)
        id w.ctrl
    cases hMatch : w.ctrl.firstMatch w.links id with
    | none =>
        rw [hMatch] at hMemory
        exact hSound.mono (w.step A (.insertAgent id)) hMemory
          hNodes (fun _ _ => rfl)
    | some n =>
        rw [hMatch] at hMemory
        rcases Controller.firstMatch_spec hMatch with
          ⟨hn, hProbe⟩
        refine Or.inr ⟨n, ?_, ?_, ?_⟩
        · change n ∈ (w.ctrl.insertAgent w.links
            id).identifiers.nodes
          rw [Controller.insertAgent_identifiers]
          exact hn
        · exact (congrArg Agent.pid hMemory).trans
            (Agent.set_pid _ _)
        · exact (accepts_iff_of_eq w
            (w.step A (.insertAgent id))
            (Controller.insertAgent_memory_kind id id w.ctrl)
            rfl).mpr hProbe
  · exact hSound.mono (w.step A (.insertAgent agent))
      (Controller.insertAgent_memory_ne hId w.ctrl) hNodes
      (fun _ _ => rfl)

------------------------------------------------------------
-- Runs In Event Mode
------------------------------------------------------------

/-
  Processes come and go, whether tracked already or not. An
  agent is constructed unbound, started once, and leaves
  only when it is destroyed. A tracked process keeps its
  name.
-/
def EventRun (w : World) : Op → Prop
| .links links => w.KeepsNames links
| .insert _ => True
| .remove _ => True
| .construct agent _ => agent ∉ w.ctrl.agents
| .insertAgent agent =>
    agent ∉ w.ctrl.agents ∧ w.Unbound agent
| .removeAgent _ => True
| _ => False

/- Every registered agent's pointer is sound. -/
def AllSound (w : World) : Prop :=
  ∀ id ∈ w.ctrl.agents, w.Sound id

theorem allSound_step
    (w : World)
    (op : Op)
    (hInv : w.AllSound)
    (hLegal : w.EventRun op) :
    (w.step A op).AllSound := by
  intro id hMem
  cases op with
  | links links => exact sound_links hLegal (hInv id hMem)
  | insert pid => exact sound_insert pid (hInv id hMem)
  | remove pid => exact sound_remove pid hMem (hInv id hMem)
  | construct agent kind =>
      have hNe : id ≠ agent := by
        intro hEq
        subst hEq
        exact hLegal hMem
      exact (hInv id hMem).mono
        (w.step A (.construct agent kind))
        (Function.update_of_ne hNe _ _) (fun _ hn _ => hn)
        (fun _ _ => rfl)
  | insertAgent agent =>
      change id ∈ (w.ctrl.insertAgent w.links agent).agents
        at hMem
      rw [Controller.insertAgent_agents] at hMem
      apply sound_insertAgent
      rcases List.mem_append.mp hMem with hOld | hNew
      · exact hInv id hOld
      · rw [List.mem_singleton.mp hNew]
        exact Or.inl hLegal.2
  | removeAgent agent =>
      have hOld : id ∈ w.ctrl.agents :=
        List.mem_of_mem_filter hMem
      exact (hInv id hOld).mono
        (w.step A (.removeAgent agent)) rfl
        (fun _ hn _ => hn) (fun _ _ => rfl)
  | _ => cases hLegal

/-
  In every state of such a run, every registered agent that
  watches by name is unbound, or bound to an element of the
  list whose name its probe accepts.
-/
theorem bindings_sound
    (A : Allocator)
    (w : World)
    (ops : List Op)
    (hIdle : w.Idle)
    (hRun : Runs.Along (step A) EventRun w ops) :
    Runs.Always (step A)
      (fun w => ∀ id ∈ w.ctrl.agents, w.IsExeName id →
        w.Unbound id ∨
          ∃ n ∈ w.ctrl.identifiers.nodes,
            w.BoundTo id n ∧ w.Accepts id n)
      w ops := by
  have hStart : w.AllSound :=
    fun id hMem => absurd hMem (hIdle.not_mem id)
  have hAlways :=
    Runs.always_of_along
      (fun w op => allSound_step w op) hStart hRun
  exact hAlways.mono
    (fun _ hInv id hMem _ => hInv id hMem)

/- A world in which all processes run one program. -/
def gdmWorld : World :=
  bare
    (fun _ => { kind := .exeName "/usr/sbin/gdm".toList })
    (fun _ => some "/usr/sbin/GDM".toList)

/-
  A process that execs again is tracked twice, and both
  elements go with it.
-/
theorem bindings_sound_sample :
    Runs.Always (step (.above []))
      (fun w => ∀ id ∈ w.ctrl.agents, w.IsExeName id →
        w.Unbound id ∨
          ∃ n ∈ w.ctrl.identifiers.nodes,
            w.BoundTo id n ∧ w.Accepts id n)
      gdmWorld
      [.insert 5, .insertAgent 1, .insert 5, .remove 5] := by
  apply bindings_sound (.above []) gdmWorld _
    (idle_bare fun _ => rfl)
  refine ⟨trivial, ⟨?_, rfl⟩, trivial, trivial, trivial⟩
  exact List.not_mem_nil

end World

end UdjatProcess
