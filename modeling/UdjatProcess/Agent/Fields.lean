import UdjatProcess.Agent.State

/-
  Values of a process, and the states an agent is configured
  with (`agent/abstract.cc`, `agent/state.cc` and the end of
  `pid/stat.cc`).

  Each state node of the configuration makes one state. The
  factory keeps those on the state of the process in the
  list that `computeState` goes through; those on a value of
  the process it only returns.

  Key definitions include:
    * `Controller.getValue`
    * `FieldState.test`
    * `Agent.stateFactory`
    * `Agent.configure`
    * `Controller.computeState`

  Key theorems include:
    * `getField_fieldNames`
    * `Agent.configure_states`
    * `Agent.configure_addresses`
-/

namespace UdjatProcess

------------------------------------------------------------
-- Values
------------------------------------------------------------

/- `Agent::Field`. -/
inductive Field where
| rss
| vsize
| shared
deriving DecidableEq

/- `Agent::fieldNames`, each with the field at its place. -/
def fieldNames : List (Field × String) :=
  [ (.rss, "rss"),
    (.vsize, "VSize"),
    (.shared, "Shared") ]

/- What the factories of states throw. -/
structure FactoryError where
  errno : Option Nat
  what : String
deriving DecidableEq, Repr

/- `Agent::getField`, with `EINVAL` as the error. -/
def getField (name : CString) : Except FactoryError Field :=
  match fieldNames.find? fun entry =>
      strcasecmp name entry.2.toList with
  | some entry => .ok entry.1
  | none => .error ⟨some 22, "Invalid field name"⟩

/- Every name of the table stands for its field. -/
theorem getField_fieldNames :
    ∀ entry ∈ fieldNames,
      getField entry.2.toList = .ok entry.1 := by
  decide +kernel

namespace Stat

/- `Stat::getRSS`, for pages of the given size. -/
def getRSS (pgsize : UInt64) (self : Stat) : UInt64 :=
  self.rss.toUInt64 * pgsize

/- `Stat::getVSize`. -/
def getVSize (self : Stat) : UInt64 :=
  self.vsize

/- `Stat::getShared`, which always throws `ENOTSUP`. -/
def getShared (_ : Stat) : Except StatError UInt64 :=
  .error
    ⟨some 95,
      "Shared memory by process is not implemented"⟩

end Stat

/-
  `Agent::getValue`, with what the stat file holds. A
  pointer to no element has no result.
-/
def Controller.getValue
    (pgsize : UInt64)
    (file : StatFile)
    (field : Field)
    (agent : AgentId)
    (self : Controller) : Option (Except StatError UInt64) :=
  match (self.memory agent).pid with
  | none => some (.ok 0)
  | some a =>
      (self.identifiers.lookup a).map fun _ =>
        match Stat.ofIdentifier file with
        | .error e => .error e
        | .ok stat =>
            match field with
            | .rss => .ok (stat.getRSS pgsize)
            | .vsize => .ok stat.getVSize
            | .shared => stat.getShared

------------------------------------------------------------
-- States
------------------------------------------------------------

/- The class `Value` that `StateFactory` declares. -/
structure FieldState where
  field : Field
  fromBytes : UInt64
  toBytes : UInt64

/- `Value::test`. -/
def FieldState.test
    (pgsize : UInt64)
    (file : StatFile)
    (agent : AgentId)
    (ctrl : Controller)
    (self : FieldState) :
    Option (Except StatError (Bool × Controller)) :=
  (ctrl.getValue pgsize file self.field agent).map
    fun result => result.map fun value =>
      (decide (self.fromBytes ≤ value) &&
        decide (value ≤ self.toBytes), ctrl)

/- The classes derived from `Agent::State`. -/
inductive AgentState where
| process (own : ProcessState)
| available (own : ProcessAvailable)
| value (own : FieldState)

/- `test` of the state's class. -/
def AgentState.test
    (pgsize : UInt64)
    (file : StatFile)
    (agent : AgentId)
    (ctrl : Controller)
    (self : AgentState) :
    Option (Except StatError (Bool × Controller)) :=
  match self with
  | .process own => own.test file agent ctrl
  | .available own => own.test file agent ctrl
  | .value own => own.test pgsize file agent ctrl

/-
  A shared pointer to a state. Each object has an address of
  its own, so that equal states of two nodes are told apart.
-/
structure StatePtr where
  address : Nat
  state : AgentState

/- The state is one on a value of the process. -/
def StatePtr.isField (s : StatePtr) : Bool :=
  match s.state with
  | .value _ => true
  | _ => false

/- The attributes of a node in the configuration. -/
abbrev XmlNode := List (String × CString)

/- `node.attribute(name)`. -/
def nodeAttribute
    (name : String)
    (node : XmlNode) : Option CString :=
  (node.find? fun entry => entry.1 == name).map Prod.snd

/- What `parse_byte_range` makes of a node. -/
abbrev ByteRange :=
  XmlNode → Except FactoryError (UInt64 × UInt64)

namespace Agent

/- The states on the state of the process. -/
def processStateFactory
    (attr : CString) : Except FactoryError AgentState :=
  if strcasecmp attr "available".toList then
    .ok (.available ⟨true⟩)
  else if strcasecmp attr "not-available".toList then
    .ok (.available ⟨false⟩)
  else
    match ProcessState.new attr with
    | .ok own => .ok (.process own)
    | .error what => .error ⟨none, what⟩

/-
  `Agent::StateFactory`, for the address of a new object.
  Returns the pointer and the agent's `states` afterwards.
-/
def stateFactory
    (parseByteRange : ByteRange)
    (address : Nat)
    (node : XmlNode)
    (states : List StatePtr) :
    Except FactoryError (Option StatePtr × List StatePtr) :=
  match nodeAttribute "process-state" node with
  | some attr =>
      match processStateFactory attr with
      | .error e => .error e
      | .ok state =>
          let state : StatePtr := ⟨address, state⟩
          .ok (some state, states ++ [state])
  | none =>
      match nodeAttribute "field-name" node with
      | some name =>
          match getField name, parseByteRange node with
          | .error e, _ => .error e
          | .ok _, .error e => .error e
          | .ok field, .ok (fromBytes, toBytes) =>
              let state : StatePtr :=
                ⟨address, .value ⟨field, fromBytes, toBytes⟩⟩
              .ok (some state, states)
      | none => .ok (none, states)

/- The factory on one node after the other. -/
def configureFrom
    (parseByteRange : ByteRange) :
    Nat → List XmlNode → List StatePtr →
      Except FactoryError
        (List (Option StatePtr) × List StatePtr)
| _, [], states => .ok ([], states)
| address, node :: nodes, states =>
    match stateFactory parseByteRange address node states with
    | .error e => .error e
    | .ok (state, states) =>
        (configureFrom parseByteRange (address + 1) nodes
          states).map fun out => (state :: out.1, out.2)

/-
  The states of a new agent: what the factory returned for
  each node, and the agent's `states`.
-/
def configure
    (parseByteRange : ByteRange)
    (nodes : List XmlNode) :
    Except FactoryError
      (List (Option StatePtr) × List StatePtr) :=
  configureFrom parseByteRange 0 nodes []

end Agent

/-
  `Agent::computeState`: the state that applies, or none for
  the default of the base class, and the controller
  afterwards.
-/
def Controller.computeState
    (pgsize : UInt64)
    (file : StatFile)
    (agent : AgentId) :
    List StatePtr → Controller →
      Option (Except StatError (Option StatePtr × Controller))
| [], self => some (.ok (none, self))
| s :: states, self =>
    match s.state.test pgsize file agent self with
    | none => none
    | some (.error e) => some (.error e)
    | some (.ok (true, self)) => some (.ok (some s, self))
    | some (.ok (false, self)) =>
        computeState pgsize file agent states self

------------------------------------------------------------
-- Configuration
------------------------------------------------------------

namespace Agent

variable {parseByteRange : ByteRange}

theorem isField_processStateFactory
    {attr : CString}
    {state : AgentState}
    (hOk : processStateFactory attr = .ok state)
    (address : Nat) :
    (⟨address, state⟩ : StatePtr).isField = false := by
  unfold processStateFactory at hOk
  split at hOk
  · cases hOk
    rfl
  · split at hOk
    · cases hOk
      rfl
    · split at hOk
      · cases hOk
        rfl
      · cases hOk

/-
  A state the factory returns is at the given address, and
  is kept if and only if it is not one on a value.
-/
theorem stateFactory_spec
    {address : Nat}
    {node : XmlNode}
    {states states' : List StatePtr}
    {s : StatePtr}
    (hOk :
      stateFactory parseByteRange address node states =
        .ok (some s, states')) :
    s.address = address ∧
      states' =
        states ++ [s].filter fun s => !s.isField := by
  unfold stateFactory at hOk
  cases hState : nodeAttribute "process-state" node with
  | some attr =>
      simp only [hState] at hOk
      cases hNew : processStateFactory attr with
      | error e => simp [hNew] at hOk
      | ok state =>
          simp only [hNew, Except.ok.injEq, Prod.mk.injEq,
            Option.some.injEq] at hOk
          rcases hOk with ⟨hPtr, hKept⟩
          have hProcess :=
            isField_processStateFactory hNew address
          rw [hPtr] at hProcess hKept
          refine ⟨by rw [← hPtr], ?_⟩
          simp [← hKept, hProcess]
  | none =>
      simp only [hState] at hOk
      cases hName : nodeAttribute "field-name" node with
      | none => simp [hName] at hOk
      | some name =>
          simp only [hName] at hOk
          cases hField : getField name with
          | error e => simp [hField] at hOk
          | ok field =>
              cases hRange : parseByteRange node with
              | error e => simp [hField, hRange] at hOk
              | ok range =>
                  simp only [hField, hRange,
                    Except.ok.injEq, Prod.mk.injEq,
                    Option.some.injEq] at hOk
                  rcases hOk with ⟨hPtr, hKept⟩
                  refine ⟨by rw [← hPtr], ?_⟩
                  have hIs : s.isField = true := by
                    rw [← hPtr]
                    rfl
                  simp [← hKept, hIs]

/- The agent keeps the states that are not on a value. -/
theorem configureFrom_spec
    {address : Nat}
    {nodes : List XmlNode}
    {states states' configured : List StatePtr}
    (hOk :
      configureFrom parseByteRange address nodes states =
        .ok (configured.map some, states')) :
    configured.map StatePtr.address =
        List.range' address nodes.length ∧
      states' =
        states ++ configured.filter fun s => !s.isField := by
  induction nodes generalizing address states configured with
  | nil =>
      simp only [configureFrom, Except.ok.injEq,
        Prod.mk.injEq, List.nil_eq, List.map_eq_nil_iff] at hOk
      rcases hOk with ⟨hNone, hStates⟩
      simp [hNone, hStates]
  | cons node nodes ih =>
      unfold configureFrom at hOk
      cases hNode :
          stateFactory parseByteRange address node states with
      | error e => simp [hNode] at hOk
      | ok made =>
          rcases made with ⟨state, after⟩
          simp only [hNode] at hOk
          cases hRest :
              configureFrom parseByteRange (address + 1)
                nodes after with
          | error e => simp [hRest, Except.map] at hOk
          | ok out =>
              rcases out with ⟨rest, last⟩
              simp only [hRest, Except.map, Except.ok.injEq,
                Prod.mk.injEq] at hOk
              rcases hOk with ⟨hList, hLast⟩
              cases configured with
              | nil => cases hList
              | cons s configured =>
                  rw [List.map_cons, List.cons.injEq] at hList
                  rcases hList with ⟨hHead, hTail⟩
                  rw [hHead] at hNode
                  rw [hTail, hLast] at hRest
                  have hFirst := stateFactory_spec hNode
                  have hOthers := ih hRest
                  constructor
                  · rw [List.map_cons, hFirst.1, hOthers.1]
                    rfl
                  · rw [hOthers.2, hFirst.2,
                      List.append_assoc, ← List.filter_append]
                    rfl

/- The states of an agent are told apart by their addresses. -/
theorem configure_addresses
    {nodes : List XmlNode}
    {states configured : List StatePtr}
    (hOk :
      configure parseByteRange nodes =
        .ok (configured.map some, states)) :
    configured.map StatePtr.address =
      List.range' 0 nodes.length :=
  (configureFrom_spec hOk).1

theorem configure_states
    {nodes : List XmlNode}
    {states configured : List StatePtr}
    (hOk :
      configure parseByteRange nodes =
        .ok (configured.map some, states)) :
    states = configured.filter fun s => !s.isField := by
  have hStates := (configureFrom_spec hOk).2
  rw [List.nil_append] at hStates
  exact hStates

end Agent

end UdjatProcess
