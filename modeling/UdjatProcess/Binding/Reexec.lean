import UdjatProcess.Binding.ExeName
import UdjatProcess.System.Lifetimes

/-
  A tracked process that runs another program
  (`Controller::handle_event` and `Controller::onInsert`).

  The event of an exec makes a new element of the list, which
  is offered to the unbound agents. The elements that the
  process has already stay, and with them the agents bound
  to them, whatever the process is called now. What was an
  agent once and is destroyed counts for nothing.

  Key definitions include:
    * `World.Act`
    * `Heap.act`
    * `Heap.FollowsExec`
    * `Heap.AcceptsExec`

  Key theorems include:
    * `Heap.follows_iff`
    * `Heap.follows_along_iff`
    * `Heap.binding_outlives_name`
-/

namespace UdjatProcess

namespace World

------------------------------------------------------------
-- Exec
------------------------------------------------------------

/-
  An operation, or the exec of a process: `/proc` shows the
  names in `links` and the event is handled.
-/
inductive Act where
| op (op : Op)
| exec (links : Links) (processPid processTgid : Pid)

/- One step of the world, or the two of an exec. -/
def act
    (A : Allocator)
    (w : World) : Act → World
| .op op => w.step A op
| .exec links processPid processTgid =>
    (w.step A (.links links)).step A
      (.event (.exec processPid processTgid))

/- An element of the process that an agent is bound to. -/
def BoundToPid (w : World) (id : AgentId) (pid : Pid) : Prop :=
  ∃ n ∈ w.ctrl.identifiers.nodes,
    n.val.pid = pid ∧ w.BoundTo id n

variable {A : Allocator} {w : World}
variable {links : Links} {pid tgid : Pid}
variable {id : AgentId}

/- The elements of the process after an exec. -/
theorem boundToPid_exec_iff :
    (w.act A (.exec links pid tgid)).BoundToPid id pid ↔
      ((w.act A (.exec links pid tgid)).ctrl.memory id).pid =
          some (w.ctrl.identifiers.fresh A) ∨
        ∃ n ∈ w.ctrl.identifiers.nodes, n.val.pid = pid ∧
          (w.act A (.exec links pid tgid)).BoundTo id n := by
  constructor
  · rintro ⟨n, hn, hPid, hBound⟩
    rcases List.mem_append.mp hn with hOld | hNew
    · exact Or.inr ⟨n, hOld, hPid, hBound⟩
    · rw [List.mem_singleton.mp hNew] at hBound
      exact Or.inl hBound
  · rintro (hFresh | ⟨n, hn, hPid, hBound⟩)
    · refine
        ⟨⟨w.ctrl.identifiers.fresh A, { pid := pid }⟩,
          ?_, rfl, hFresh⟩
      exact List.mem_append_right _ (List.mem_singleton_self _)
    · exact ⟨n, List.mem_append_left _ hn, hPid, hBound⟩

/-
  An agent that is bound to the process after the exec has
  accepted its name, or was bound before, or was left with
  the address of the new element.
-/
theorem boundToPid_exec_cases
    (hAfter :
      (w.act A (.exec links pid tgid)).BoundToPid id pid) :
    (w.ctrl.memory id).probe
          (UdjatProcess.exename links pid) = true ∨
      w.BoundToPid id pid ∨
      (w.ctrl.memory id).pid =
        some (w.ctrl.identifiers.fresh A) := by
  rcases insert_cases A (w.step A (.links links)) pid id with
    ⟨⟨_, _, hAccepts⟩, _⟩ | ⟨_, hSame⟩
  · exact Or.inl hAccepts
  · have hPid := congrArg Agent.pid hSame
    right
    rcases boundToPid_exec_iff.mp hAfter with
      hFresh | ⟨n, hn, hOf, hTo⟩
    · exact Or.inr (hPid.symm.trans hFresh)
    · exact Or.inl ⟨n, hn, hOf, hPid.symm.trans hTo⟩

/- An old pointer to the new element binds to it. -/
theorem boundToPid_exec_of_fresh
    (hFresh :
      (w.ctrl.memory id).pid =
        some (w.ctrl.identifiers.fresh A)) :
    (w.act A (.exec links pid tgid)).BoundToPid id pid := by
  rw [boundToPid_exec_iff]
  left
  rcases insert_cases A (w.step A (.links links)) pid id with
    ⟨_, hTo⟩ | ⟨_, hSame⟩
  · exact hTo
  · exact (congrArg Agent.pid hSame).trans hFresh

/- So does a pointer to an element that it has already. -/
theorem boundToPid_exec_of_bound
    (hBound : w.BoundToPid id pid) :
    (w.act A (.exec links pid tgid)).BoundToPid id pid := by
  rw [boundToPid_exec_iff]
  rcases hBound with ⟨n, hn, hPid, hTo⟩
  refine Or.inr ⟨n, hn, hPid, ?_⟩
  rcases insert_cases A (w.step A (.links links)) pid id with
    ⟨⟨_, hUnbound, _⟩, _⟩ | ⟨_, hSame⟩
  · exact absurd hUnbound (not_unbound_of_boundTo hTo)
  · exact (congrArg Agent.pid hSame).trans hTo

/- An agent that is bound when a process execs stays so. -/
theorem memory_exec_of_bound
    (hBound : w.BoundToPid id pid) :
    (w.act A (.exec links pid tgid)).ctrl.memory id =
      w.ctrl.memory id := by
  rcases hBound with ⟨n, _, _, hTo⟩
  rcases insert_cases A (w.step A (.links links)) pid id with
    ⟨⟨_, hUnbound, _⟩, _⟩ | ⟨_, hSame⟩
  · exact absurd hUnbound (not_unbound_of_boundTo hTo)
  · exact hSame

end World

------------------------------------------------------------
-- Living Agents
------------------------------------------------------------

namespace Heap

/- One step, with what becomes of the agents. -/
def act
    (A : Allocator)
    (s : Heap) : World.Act → Heap
| .op op => s.operate A op
| .exec links processPid processTgid =>
    (s.operate A (.links links)).operate A
      (.event (.exec processPid processTgid))

/-
  The agents follow the exec of a tracked process that gets
  another name: the registered ones that watch by name and
  are bound to it accept the name, and of the living ones,
  those that were bound to it and do not accept the name are
  unbound and have been told.
-/
def FollowsExec (A : Allocator) (s : Heap) : World.Act → Prop
| .op _ => True
| .exec links pid tgid =>
    s.world.ctrl.Tracks pid →
      exename links pid ≠ s.world.exename pid →
        let w' := (s.act A (.exec links pid tgid)).world
        (∀ id ∈ w'.ctrl.agents, w'.IsExeName id →
          w'.BoundToPid id pid →
            (w'.ctrl.memory id).probe (w'.exename pid) =
              true) ∧
        ∀ id ∈ s.alive, s.world.BoundToPid id pid →
          (s.world.ctrl.memory id).probe (w'.exename pid) =
              false →
            w'.Unbound id ∧
              (s.world.ctrl.memory id).updates <
                (w'.ctrl.memory id).updates

/-
  Every living agent that is bound to the process accepts
  the new name, and so does every registered one that
  watches by name and is bound to it, or has been left with
  the address that the next element gets.
-/
def AcceptsExec (A : Allocator) (s : Heap) : World.Act → Prop
| .op _ => True
| .exec links pid _ =>
    s.world.ctrl.Tracks pid →
      exename links pid ≠ s.world.exename pid →
        let name := exename links pid
        (∀ id ∈ s.alive, s.world.BoundToPid id pid →
          (s.world.ctrl.memory id).probe name = true) ∧
        ∀ id ∈ s.world.ctrl.agents, s.world.IsExeName id →
          s.world.BoundToPid id pid ∨
              (s.world.ctrl.memory id).pid =
                some (s.world.ctrl.identifiers.fresh A) →
            (s.world.ctrl.memory id).probe name = true

/-
  The agents follow the exec if and only if those bound to
  the process, and those bound to the new element by an old
  pointer, accept the new name.
-/
theorem follows_iff
    (A : Allocator)
    (s : Heap)
    (a : World.Act) :
    s.FollowsExec A a ↔ s.AcceptsExec A a := by
  cases a with
  | op op => exact Iff.rfl
  | exec links pid tgid =>
      let w := s.world
      let w' := w.act A (.exec links pid tgid)
      have hKind : ∀ id,
          (w'.ctrl.memory id).kind = (w.ctrl.memory id).kind :=
        fun id => Controller.insert_memory_kind pid w.ctrl id
      have hProbe : ∀ id name,
          (w'.ctrl.memory id).probe name =
            (w.ctrl.memory id).probe name :=
        fun id => Agent.probe_of_kind_eq (hKind id)
      have hName : ∀ id,
          w'.IsExeName id ↔ w.IsExeName id :=
        fun id => World.isExeName_of_kind_eq (hKind id)
      apply forall₂_congr
      intro hTracks hChanged
      constructor
      · rintro ⟨hBoundAfter, hBoundBefore⟩
        constructor
        · intro id hAlive hBound
          by_contra hNot
          rw [Bool.not_eq_true] at hNot
          have hUnbound : w'.Unbound id :=
            (hBoundBefore id hAlive hBound hNot).1
          unfold World.Unbound at hUnbound
          rw [World.memory_exec_of_bound hBound] at hUnbound
          rcases hBound with ⟨n, _, _, hTo⟩
          exact World.not_unbound_of_boundTo hTo hUnbound
        · intro id hMem hExe hEither
          refine (hProbe id _).symm.trans ?_
          apply hBoundAfter id hMem ((hName id).mpr hExe)
          rcases hEither with hBound | hFresh
          · exact World.boundToPid_exec_of_bound hBound
          · exact World.boundToPid_exec_of_fresh hFresh
      · rintro ⟨hBound, hRegistered⟩
        constructor
        · intro id hMem hExe hAfter
          refine (hProbe id _).trans ?_
          rcases World.boundToPid_exec_cases hAfter with
            hAccepts | hEither
          · exact hAccepts
          · exact hRegistered id hMem ((hName id).mp hExe)
              hEither
        · intro id hAlive hBefore hNot
          have hAccepts := hBound id hAlive hBefore
          exact absurd (hNot.symm.trans hAccepts)
            Bool.false_ne_true

/-
  In every run, with any agents alive at its start, the
  living agents follow every exec if and only if all that
  stay bound to the process accept its new name.
-/
theorem follows_along_iff
    (A : Allocator)
    (s : Heap)
    (acts : List World.Act) :
    Runs.Along (act A) (FollowsExec A) s acts ↔
      Runs.Along (act A) (AcceptsExec A) s acts := by
  apply Runs.along_iff
  intro s a
  exact follows_iff A s a

/- Every process runs the program of the given name. -/
def allRun (name : String) : Links :=
  fun _ => some name.toList

/-
  Agent 0 watches `sh` and is bound to process 5 when it
  execs `vi`. Agent 1, which watches `vi`, gets the new
  element, and agent 0 keeps the old one of a process that
  it does not accept.
-/
theorem binding_outlives_name :
    let memory : Memory := fun id =>
      { kind := .exeName (if id = 0 then "sh" else "vi").toList }
    let acts : List World.Act :=
      [.op (.insertAgent 0), .op (.insertAgent 1),
        .op (.event (.exec 5 5)), .exec (allRun "vi") 5 5]
    let start : Heap :=
      ⟨World.bare memory (allRun "sh"), [0, 1]⟩
    let s := Runs.after (act (.above [])) start acts
    s.world.ctrl.identifiers.nodes =
        [⟨1, { pid := 5 }⟩, ⟨2, { pid := 5 }⟩] ∧
      s.world.ctrl.memory 0 =
        { kind := .exeName "sh".toList
          pid := some 1
          updates := 1 } ∧
      s.world.ctrl.memory 1 =
        { kind := .exeName "vi".toList
          pid := some 2
          updates := 1 } ∧
      s.alive = [0, 1] ∧
      ¬ Runs.Along (act (.above [])) (FollowsExec (.above []))
        start acts := by
  intro memory acts start s
  have hBound : s.world.ctrl.memory 0 =
      { kind := .exeName "sh".toList
        pid := some 1
        updates := 1 } := by
    decide +kernel
  refine ⟨by decide +kernel, hBound, by decide +kernel, rfl, ?_⟩
  rintro ⟨_, _, _, hFollows, _⟩
  have hAfter :=
    (hFollows (by decide +kernel) (by decide +kernel)).1
  have hAccepts :=
    hAfter 0 (by decide +kernel) ⟨_, rfl⟩
      ⟨⟨1, { pid := 5 }⟩, by decide +kernel, rfl,
        congrArg Agent.pid hBound⟩
  exact absurd hAccepts (by decide +kernel)

end Heap

end UdjatProcess
