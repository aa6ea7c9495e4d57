import UdjatProcess.Binding.ExeName

/-
  The order of registrations while no process goes.

  A registered agent searches the list once, from the front;
  afterwards new processes are appended and offered to the
  agents that are still unbound. Both ways lead to the first
  element that the agent accepts, so the bindings at the end
  of a run do not depend on how registrations and new
  processes were interleaved.

  Key definitions include:
    * `World.GrowingRun`
    * `World.firstAccepted`
    * `World.BoundToFirst`
    * `insertedPids`
    * `registeredAgents`

  Key theorems include:
    * `World.firstAccepted_insert`
    * `World.growingInv_step`
    * `World.registration_order`
-/

------------------------------------------------------------
-- First Matches
------------------------------------------------------------

namespace UdjatProcess

/- The processes inserted in a run, in order. -/
def insertedPids (ops : List Op) : List Pid :=
  ops.filterMap fun
    | .insert pid => some pid
    | _ => none

/- The agents registered in a run, in order. -/
def registeredAgents (ops : List Op) : List AgentId :=
  ops.filterMap fun
    | .insertAgent agent => some agent
    | _ => none

namespace World

variable {A : Allocator}

/- Processes appear and agents are registered. -/
def GrowingRun (_w : World) : Op → Prop
| .insert _ => True
| .insertAgent _ => True
| _ => False

/- The first element in list order that the agent accepts. -/
def firstAccepted
    (w : World)
    (id : AgentId) : Option (Node Identifier) :=
  w.ctrl.identifiers.nodes.find? fun n =>
    (w.ctrl.memory id).probe (w.exename n.val.pid)

/- Bound to that element, and unbound if there is none. -/
def BoundToFirst (w : World) (id : AgentId) : Prop :=
  (w.ctrl.memory id).pid =
    (w.firstAccepted id).map Node.addr

/- Elements are accepted by kind, name and list only. -/
theorem firstAccepted_congr
    (w w' : World)
    {id : AgentId}
    (hNodes :
      w'.ctrl.identifiers.nodes = w.ctrl.identifiers.nodes)
    (hKind :
      (w'.ctrl.memory id).kind = (w.ctrl.memory id).kind)
    (hLinks : w'.links = w.links) :
    w'.firstAccepted id = w.firstAccepted id := by
  unfold firstAccepted exename
  rw [hNodes, hLinks]
  congr 1
  funext n
  exact Agent.probe_of_kind_eq hKind _

/- A new process is a match for want of an earlier one. -/
theorem firstAccepted_insert
    (w : World)
    (pid : Pid)
    (id : AgentId) :
    (w.step A (.insert pid)).firstAccepted id =
      (w.firstAccepted id).or
        (if (w.ctrl.memory id).probe (w.exename pid) then
          some ⟨w.ctrl.identifiers.fresh A, { pid := pid }⟩
        else
          none) := by
  have hProbe : ∀ name,
      ((w.step A (.insert pid)).ctrl.memory id).probe name =
        (w.ctrl.memory id).probe name :=
    Agent.probe_of_kind_eq
      (Controller.insert_memory_kind pid w.ctrl id)
  have hNodes :
      (w.step A (.insert pid)).ctrl.identifiers.nodes =
        w.ctrl.identifiers.nodes ++
          [⟨w.ctrl.identifiers.fresh A, { pid := pid }⟩] := rfl
  have hName : ∀ p,
      (w.step A (.insert pid)).exename p = w.exename p :=
    fun _ => rfl
  unfold firstAccepted
  simp only [hProbe, hNodes, hName, List.find?_append]
  congr 1
  by_cases hAccepts :
      (w.ctrl.memory id).probe (w.exename pid) = true
  · simp [hAccepts]
  · simp [hAccepts]

------------------------------------------------------------
-- Bindings Of A Growing Run
------------------------------------------------------------

/-
  Registered agents are bound to their first match, the
  others not at all.
-/
structure GrowingInv (w : World) : Prop where
  first : ∀ id ∈ w.ctrl.agents, w.BoundToFirst id
  unbound : ∀ id, id ∉ w.ctrl.agents → w.Unbound id

/- A bound agent keeps its match, an unbound one may get one. -/
theorem boundToFirst_insert
    {w : World}
    {id : AgentId}
    (pid : Pid)
    (hMem : id ∈ w.ctrl.agents)
    (hFirst : w.BoundToFirst id) :
    (w.step A (.insert pid)).BoundToFirst id := by
  have hMemory :
      (w.step A (.insert pid)).ctrl.memory id =
        (w.ctrl.memory id).bindIfUnbound (w.exename pid)
          (w.ctrl.identifiers.fresh A) := by
    have hInsert :=
      Controller.insert_memory (A := A) (L := w.links)
        pid w.ctrl id
    rw [if_pos hMem] at hInsert
    exact hInsert
  unfold BoundToFirst at hFirst ⊢
  rw [hMemory, firstAccepted_insert, Agent.bindIfUnbound_pid,
    hFirst]
  cases w.firstAccepted id with
  | some n => simp
  | none =>
      by_cases hAccepts :
          (w.ctrl.memory id).probe (w.exename pid) = true
      · simp [hAccepts]
      · simp [hAccepts]

/- A registration binds the agent to its first match. -/
theorem boundToFirst_insertAgent
    {w : World}
    {agent : AgentId}
    (hBefore : w.Unbound agent ∨ w.BoundToFirst agent) :
    (w.step A (.insertAgent agent)).BoundToFirst agent := by
  have hSame :
      (w.step A (.insertAgent agent)).firstAccepted agent =
        w.firstAccepted agent :=
    firstAccepted_congr w _
      (congrArg NodeList.nodes
        (Controller.insertAgent_identifiers agent w.ctrl))
      (Controller.insertAgent_memory_kind agent agent w.ctrl)
      rfl
  have hMemory :=
    Controller.insertAgent_memory_same (L := w.links) agent
      w.ctrl
  unfold BoundToFirst
  rw [hSame]
  cases hMatch : w.firstAccepted agent with
  | some n =>
      have hFirst :
          w.ctrl.firstMatch w.links agent = some n := hMatch
      rw [hFirst] at hMemory
      have hBound :
          (w.step A (.insertAgent agent)).ctrl.memory agent =
            (w.ctrl.memory agent).set (some n.addr) := hMemory
      rw [hBound]
      simp
  | none =>
      have hNone :
          w.ctrl.firstMatch w.links agent = none := hMatch
      rw [hNone] at hMemory
      have hKept :
          (w.step A (.insertAgent agent)).ctrl.memory agent =
            w.ctrl.memory agent := hMemory
      rw [hKept]
      rcases hBefore with hUnbound | hFirst
      · exact hUnbound
      · unfold BoundToFirst at hFirst
        rw [hMatch] at hFirst
        exact hFirst

theorem growingInv_step
    (w : World)
    (op : Op)
    (hInv : w.GrowingInv)
    (hLegal : w.GrowingRun op) :
    (w.step A op).GrowingInv := by
  cases op with
  | insert pid =>
      constructor
      · intro id hMem
        exact boundToFirst_insert pid hMem (hInv.first id hMem)
      · exact unbound_insert hInv.unbound pid
  | insertAgent agent =>
      have hAgents :
          (w.step A (.insertAgent agent)).ctrl.agents =
            w.ctrl.agents ++ [agent] :=
        Controller.insertAgent_agents agent w.ctrl
      have hOther : ∀ id, id ≠ agent →
          (w.step A (.insertAgent agent)).ctrl.memory id =
            w.ctrl.memory id :=
        fun _ hNe =>
          Controller.insertAgent_memory_ne hNe w.ctrl
      constructor
      · intro id hMem
        by_cases hId : id = agent
        · subst hId
          apply boundToFirst_insertAgent
          by_cases hOld : id ∈ w.ctrl.agents
          · exact Or.inr (hInv.first id hOld)
          · exact Or.inl (hInv.unbound id hOld)
        · have hOld : id ∈ w.ctrl.agents := by
            rw [hAgents, List.mem_append] at hMem
            rcases hMem with hOld | hNew
            · exact hOld
            · exact absurd (List.mem_singleton.mp hNew) hId
          have hSame :
              (w.step A
                  (.insertAgent agent)).firstAccepted id =
                w.firstAccepted id :=
            firstAccepted_congr w _
              (congrArg NodeList.nodes
                (Controller.insertAgent_identifiers agent
                  w.ctrl))
              (by rw [hOther id hId]) rfl
          unfold BoundToFirst
          rw [hSame, hOther id hId]
          exact hInv.first id hOld
      · exact unbound_insertAgent hInv.unbound agent
  | _ => cases hLegal

------------------------------------------------------------
-- Interleavings
------------------------------------------------------------

/-
  What a growing run leaves behind depends on the processes
  and agents it inserts, and not on their interleaving.
-/
theorem after_growing
    (w : World)
    (ops : List Op)
    (hRun : Runs.Along (step A) GrowingRun w ops) :
    let w' := Runs.after (step A) w ops
    w'.ctrl.identifiers =
        (insertedPids ops).foldl
          (fun l pid => l.emplaceBack A { pid := pid })
          w.ctrl.identifiers ∧
      w'.ctrl.agents =
        w.ctrl.agents ++ registeredAgents ops ∧
      (∀ id, (w'.ctrl.memory id).kind =
        (w.ctrl.memory id).kind) ∧
      w'.links = w.links := by
  induction ops generalizing w with
  | nil =>
      refine ⟨rfl, ?_, fun _ => rfl, rfl⟩
      simp [registeredAgents]
  | cons op ops ih =>
      rcases ih (w.step A op) hRun.2 with
        ⟨hIdentifiers, hAgents, hKind, hLinks⟩
      have hLegal := hRun.1
      cases op with
      | insert pid =>
          refine ⟨hIdentifiers, hAgents, ?_, hLinks⟩
          intro id
          exact (hKind id).trans
            (Controller.insert_memory_kind pid w.ctrl id)
      | insertAgent agent =>
          have hStepIdentifiers :
              (w.step A (.insertAgent agent)).ctrl.identifiers =
                w.ctrl.identifiers :=
            Controller.insertAgent_identifiers agent w.ctrl
          have hStepAgents :
              (w.step A (.insertAgent agent)).ctrl.agents =
                w.ctrl.agents ++ [agent] :=
            Controller.insertAgent_agents agent w.ctrl
          rw [hStepIdentifiers] at hIdentifiers
          rw [hStepAgents, List.append_assoc] at hAgents
          refine ⟨hIdentifiers, hAgents, ?_, hLinks⟩
          intro id
          exact (hKind id).trans
            (Controller.insertAgent_memory_kind agent id w.ctrl)
      | _ => cases hLegal

theorem growingInv_after
    {w : World}
    {ops : List Op}
    (hIdle : w.Idle)
    (hRun : Runs.Along (step A) GrowingRun w ops) :
    (Runs.after (step A) w ops).GrowingInv := by
  apply Runs.after_of_along
    (fun w op => growingInv_step w op) _ hRun
  refine ⟨?_, fun id _ => hIdle.unbound id⟩
  exact fun id hMem => absurd hMem (hIdle.not_mem id)

/-
  While no process goes, the registered agents are those
  that the run registers, every one of them that watches by
  name ends bound to the first element it accepts, and any
  two interleavings of the same insertions with the same
  registrations end with the same bindings.
-/
theorem registration_order
    (A : Allocator)
    (w : World)
    (hIdle : w.Idle) :
    (∀ ops, Runs.Along (step A) GrowingRun w ops →
      let w' := Runs.after (step A) w ops
      w'.ctrl.agents = registeredAgents ops ∧
        ∀ id ∈ registeredAgents ops, w'.IsExeName id →
          w'.BoundToFirst id) ∧
    (∀ ops₁ ops₂,
      Runs.Along (step A) GrowingRun w ops₁ →
      Runs.Along (step A) GrowingRun w ops₂ →
      insertedPids ops₁ = insertedPids ops₂ →
      (∀ id, id ∈ registeredAgents ops₁ ↔
        id ∈ registeredAgents ops₂) →
      let w₁ := Runs.after (step A) w ops₁
      let w₂ := Runs.after (step A) w ops₂
      w₁.ctrl.identifiers = w₂.ctrl.identifiers ∧
        ∀ id, (w₁.ctrl.memory id).pid =
          (w₂.ctrl.memory id).pid) := by
  constructor
  · intro ops hRun w'
    have hAgents : w'.ctrl.agents = registeredAgents ops := by
      have hGrown := (after_growing w ops hRun).2.1
      rw [hIdle.agents, List.nil_append] at hGrown
      exact hGrown
    refine ⟨hAgents, ?_⟩
    intro id hMem _
    apply (growingInv_after hIdle hRun).first id
    rw [← hAgents] at hMem
    exact hMem
  · intro ops₁ ops₂ hRun₁ hRun₂ hPids hAgents w₁ w₂
    have hInv₁ : w₁.GrowingInv := growingInv_after hIdle hRun₁
    have hInv₂ : w₂.GrowingInv := growingInv_after hIdle hRun₂
    rcases after_growing w ops₁ hRun₁ with
      ⟨hList₁, hReg₁, hKind₁, hLinks₁⟩
    rcases after_growing w ops₂ hRun₂ with
      ⟨hList₂, hReg₂, hKind₂, hLinks₂⟩
    have hList :
        w₁.ctrl.identifiers = w₂.ctrl.identifiers := by
      rw [hList₁, hList₂, hPids]
    refine ⟨hList, ?_⟩
    intro id
    have hMem :
        id ∈ w₁.ctrl.agents ↔ id ∈ w₂.ctrl.agents := by
      rw [hReg₁, hReg₂, hIdle.agents]
      simpa using hAgents id
    by_cases hIn : id ∈ w₁.ctrl.agents
    · have hFirst :
          w₁.firstAccepted id = w₂.firstAccepted id :=
        firstAccepted_congr w₂ w₁ (by rw [hList])
          ((hKind₁ id).trans (hKind₂ id).symm)
          (hLinks₁.trans hLinks₂.symm)
      have hBound₁ := hInv₁.first id hIn
      have hBound₂ := hInv₂.first id (hMem.mp hIn)
      unfold BoundToFirst at hBound₁ hBound₂
      rw [hBound₁, hBound₂, hFirst]
    · exact (hInv₁.unbound id hIn).trans
        (hInv₂.unbound id (fun hIn₂ =>
          hIn (hMem.mpr hIn₂))).symm

/-
  An agent that is registered late, and the same agent
  registered early, are bound to the first of two processes.
-/
theorem registration_order_sample :
    let late :=
      Runs.after (step (.above [])) gdmWorld
        [.insert 5, .insert 6, .insertAgent 1]
    let early :=
      Runs.after (step (.above [])) gdmWorld
        [.insertAgent 1, .insert 5, .insert 6]
    late.BoundToFirst 1 ∧ (late.ctrl.memory 1).pid = some 1 ∧
      (late.ctrl.memory 1).pid =
        (early.ctrl.memory 1).pid := by
  intro late early
  have hOrder :=
    registration_order (.above []) gdmWorld
      (idle_bare fun _ => rfl)
  have hFirst : late.BoundToFirst 1 :=
    (hOrder.1 [.insert 5, .insert 6, .insertAgent 1]
      ⟨trivial, trivial, trivial, trivial⟩).2 1
        (List.mem_singleton_self 1) ⟨_, rfl⟩
  have hAccepted :
      late.firstAccepted 1 = some ⟨1, { pid := 5 }⟩ := by
    decide +kernel
  have hAddr : (late.ctrl.memory 1).pid = some 1 := by
    unfold BoundToFirst at hFirst
    rw [hAccepted] at hFirst
    exact hFirst
  refine ⟨hFirst, hAddr, ?_⟩
  exact (hOrder.2
    [.insert 5, .insert 6, .insertAgent 1]
    [.insertAgent 1, .insert 5, .insert 6]
    ⟨trivial, trivial, trivial, trivial⟩
    ⟨trivial, trivial, trivial, trivial⟩
    rfl (fun _ => Iff.rfl)).2 1

end World

end UdjatProcess
