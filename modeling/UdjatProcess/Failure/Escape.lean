import UdjatProcess.System.World
import UdjatProcess.Agent.State

/-
  Exceptions at the functions declared `noexcept`
  (`agent/abstract.cc`, `agent/state.cc`, `refresh.cc`).

  `Controller::refresh` catches what reading a stat file
  throws. `Agent::getState` and the tests of the configured
  states do not, so what the first read of a state throws
  leaves them, and a pointer to an identifier that is gone
  has no value at all.

  Key definitions include:
    * `Returns`
    * `Controller.tryRefresh`
    * `Controller.refreshCall`
    * `World.Returns`
    * `World.ReadsSafely`

  Key theorems include:
    * `Controller.refreshCall_eq`
    * `Controller.agentState_returns_iff`
    * `World.returns_along_iff`
    * `World.state_escapes`
-/

------------------------------------------------------------
-- Calls That Return
------------------------------------------------------------

namespace UdjatProcess

/-
  The call has a meaning and returns a value: it follows no
  pointer to a removed element and throws nothing.
-/
def Returns {α : Type}
    (call : Option (Except StatError α)) : Prop :=
  ∃ v, call = some (.ok v)

/- What is done with the value afterwards is no matter. -/
theorem returns_map_iff
    {α β : Type}
    (f : α → β)
    (call : Option (Except StatError α)) :
    Returns (call.map fun result => result.map f) ↔
      Returns call := by
  unfold Returns
  constructor
  · rintro ⟨v, hCall⟩
    rcases Option.map_eq_some_iff.mp hCall with
      ⟨result, hResult, hMap⟩
    cases result with
    | error e => cases hMap
    | ok u => exact ⟨u, hResult⟩
  · rintro ⟨u, hCall⟩
    rw [hCall]
    exact ⟨f u, rfl⟩

/- An identifier throws on the first read only. -/
theorem Identifier.getState_ok_iff
    (file : StatFile)
    (self : Identifier) :
    (∃ out, self.getState file = .ok out) ↔
      self.state ≠ State.unread ∨ file.Readable := by
  rw [← Stat.set_ok_iff]
  unfold getState Stat.ofIdentifier
  by_cases hUnread : self.state = State.unread
  · rw [if_pos hUnread]
    cases hSet : Stat.set file with
    | ok stat => simp
    | error e => simp [hUnread]
  · rw [if_neg hUnread]
    simp [hUnread]

namespace Controller

theorem agentState_returns_iff
    (file : StatFile)
    (agent : AgentId)
    (self : Controller) :
    Returns (self.agentState file agent) ↔
      (self.memory agent).pid = none ∨
        ∃ n ∈ self.identifiers.nodes,
          (self.memory agent).pid = some n.addr ∧
            (n.val.state ≠ State.unread ∨ file.Readable) := by
  simp only [← Identifier.getState_ok_iff]
  constructor
  · rintro ⟨⟨state, self'⟩, hOk⟩
    rcases agentState_ok_cases hOk with
      ⟨hNone, _⟩ | ⟨n, hn, identifier, hPid, hGet, _⟩
    · exact Or.inl hNone
    · exact Or.inr ⟨n, hn, hPid, _, hGet⟩
  · rintro (hNone | ⟨n, hn, hPid, out, hGet⟩)
    · refine ⟨(State.dead, self), ?_⟩
      unfold agentState
      rw [hNone]
    · have hLookup := NodeList.lookup_of_mem hn
      unfold Returns agentState
      rw [hPid]
      simp [hLookup, hGet]

------------------------------------------------------------
-- The Update With Its Exceptions
------------------------------------------------------------

/-
  The list `pids` that the first pass builds, or what the
  pass throws.
-/
def entries (read : Reader) :
    List (Node Identifier) →
      Except StatError (List (Addr × ℚ))
| [] => .ok []
| n :: ns =>
    match Stat.ofPid (read n.addr n.val.pid) n.val.pid with
    | .error e => .error e
    | .ok stat =>
        let current := (n.val.sample stat).2
        (entries read ns).map fun rest =>
          (current.map fun c => (n.addr, c)).toList ++ rest

/- The block that `refresh` runs under `try`. -/
def tryRefresh
    (stat : SystemStat)
    (read : Reader)
    (self : Controller) :
    Controller × Except StatError Unit :=
  let sysusage := systemUsage stat self.system
  let self :=
    { self with system := systemAfter stat self.system }
  if self.cpuUsePerProcess then
    let pids := entries read self.identifiers.nodes
    let self :=
      { self with
        identifiers := self.identifiers.sweep (visit read) }
    match pids with
    | .error e => (self, .error e)
    | .ok pids =>
        let self := self.updateUsageByPid sysusage pids
        ({ self with pushed := self.pushed + 1 }, .ok ())
  else
    ({ self with pushed := self.pushed + 1 }, .ok ())

/-
  `Controller::refresh` as a call. Its handler takes every
  `exception`, from which both errors of `Stat::set` derive,
  and prints it.
-/
def refreshCall
    (stat : SystemStat)
    (read : Reader)
    (self : Controller) : Except StatError Controller :=
  match self.tryRefresh stat read with
  | (self, .ok ()) => .ok self
  | (self, .error _) => .ok self

/- The first pass throws if and only if it breaks off. -/
theorem entries_cases
    (read : Reader)
    (ns : List (Node Identifier)) :
    let pass := NodeList.sweepNodes (visit read) ns
    (pass.completed = true ∧
        entries read ns = .ok pass.emitted) ∨
      (pass.completed = false ∧
        ∃ e, entries read ns = .error e) := by
  induction ns with
  | nil => exact Or.inl ⟨rfl, rfl⟩
  | cons n ns ih =>
      cases hStat :
          Stat.ofPid (read n.addr n.val.pid) n.val.pid with
      | error e =>
          right
          simp [NodeList.sweepNodes, visit, entries, hStat]
      | ok stat =>
          rcases ih with ⟨hDone, hRest⟩ | ⟨hDone, e, hRest⟩
          · left
            simp [NodeList.sweepNodes, visit, entries, hStat,
              hDone, hRest, Except.map]
          · right
            simp [NodeList.sweepNodes, visit, entries, hStat,
              hDone, hRest, Except.map]

/- With or without an exception the block does its work. -/
theorem tryRefresh_fst
    (stat : SystemStat)
    (read : Reader)
    (self : Controller) :
    (self.tryRefresh stat read).1 =
      self.refresh stat read := by
  unfold tryRefresh refresh
  dsimp only
  split
  · rcases entries_cases read self.identifiers.nodes with
      ⟨hDone, hPids⟩ | ⟨hDone, e, hPids⟩
    · simp [hDone, hPids]
    · simp [hDone, hPids]
  · rfl

/- The call of `refresh` returns, whatever is read. -/
theorem refreshCall_eq
    (stat : SystemStat)
    (read : Reader)
    (self : Controller) :
    self.refreshCall stat read =
      .ok (self.refresh stat read) := by
  have hBlock := self.tryRefresh_fst stat read
  unfold refreshCall
  rcases hTry : self.tryRefresh stat read with ⟨self', result⟩
  rw [hTry] at hBlock
  rw [← hBlock]
  cases result <;> rfl

end Controller

------------------------------------------------------------
-- Runs
------------------------------------------------------------

namespace World

/-
  No exception leaves the functions that an operation calls
  and that must not throw. A state is asked for by the agent
  itself or by one of the tests.
-/
def Returns (w : World) : Op → Prop
| .getState agent file =>
    UdjatProcess.Returns (w.ctrl.agentState file agent) ∧
      (∀ own : ProcessState,
        UdjatProcess.Returns (own.test file agent w.ctrl)) ∧
      ∀ own : ProcessAvailable,
        UdjatProcess.Returns (own.test file agent w.ctrl)
| .refresh stat read =>
    ∃ ctrl, w.ctrl.refreshCall stat read = .ok ctrl
| _ => True

/-
  An agent that is asked for its state is unbound, or bound
  to an element of the list whose state is known already or
  whose stat file is absent or can be read.
-/
def ReadsSafely (w : World) : Op → Prop
| .getState agent file =>
    w.Unbound agent ∨
      ∃ n ∈ w.ctrl.identifiers.nodes, w.BoundTo agent n ∧
        (n.val.state ≠ State.unread ∨ file.Readable)
| _ => True

theorem returns_iff
    (w : World)
    (op : Op) :
    w.Returns op ↔ w.ReadsSafely op := by
  cases op with
  | getState agent file =>
      have hCall :=
        w.ctrl.agentState_returns_iff file agent
      constructor
      · intro hReturns
        exact hCall.mp hReturns.1
      · intro hSafe
        have hReturns := hCall.mpr hSafe
        refine ⟨hReturns, ?_, ?_⟩
        · intro own
          exact (returns_map_iff _ _).mpr hReturns
        · intro own
          exact (returns_map_iff _ _).mpr hReturns
  | refresh stat read =>
      exact iff_of_true
        ⟨_, w.ctrl.refreshCall_eq stat read⟩ trivial
  | _ => exact Iff.rfl

/-
  In every run, nothing escapes a call if and only if every
  state that is asked for can be had.
-/
theorem returns_along_iff
    (A : Allocator)
    (w : World)
    (ops : List Op) :
    Runs.Along (step A) Returns w ops ↔
      Runs.Along (step A) ReadsSafely w ops := by
  apply Runs.along_iff
  intro w op
  exact returns_iff w op

/-
  An agent that watches `a` is bound to process 5 the moment
  it starts. The process is gone when its state is read for
  the first time, and the error of the read goes through all
  three functions.
-/
theorem state_escapes :
    let memory : Memory := fun _ => { kind := .exeName ['a'] }
    let links : Links :=
      fun pid => if pid = 5 then some ['a'] else none
    let file : StatFile := .readFails 3
    let w :=
      Runs.after (step (.above [])) (bare memory links)
        [.insertAgent 0, .event (.exec 5 5)]
    w.ctrl.agentState file 0 =
        some (.error (.cantRead 3)) ∧
      (⟨{ pid := State.toPid State.running }⟩ :
          ProcessState).test file 0 w.ctrl =
        some (.error (.cantRead 3)) ∧
      (⟨true⟩ : ProcessAvailable).test file 0 w.ctrl =
        some (.error (.cantRead 3)) ∧
      ¬ Runs.Along (step (.above [])) Returns
        (bare memory links)
        [.insertAgent 0, .event (.exec 5 5),
          .getState 0 file] := by
  intro memory links file w
  have hState :
      w.ctrl.agentState file 0 =
        some (.error (.cantRead 3)) := by
    rfl
  refine ⟨hState, ?_, ?_, ?_⟩
  · unfold ProcessState.test
    rw [hState]
    rfl
  · unfold ProcessAvailable.test
    rw [hState]
    rfl
  · rintro ⟨_, _, hReturns, _⟩
    rcases hReturns.1 with ⟨v, hOk⟩
    have hBoth := hState.symm.trans hOk
    cases hBoth

end World

end UdjatProcess
