import UdjatProcess.Library.NodeList
import UdjatProcess.Pid.Identifier

/-
  Agents that watch one process each (`agent/abstract.cc`,
  `agent/exename.cc` and `agent/pidfile.cc`).

  An agent holds a pointer to the identifier it is bound to,
  which is the address of an element of the controller's
  list, or null. It recognises a process by its executable
  name or looks it up by the number in a file.

  Key definitions include:
    * `Agent`
    * `Agent.probe`
    * `Agent.set`
    * `Agent.bindIfUnbound`
    * `Agent.unbindFrom`
    * `extractUnsigned`
-/

------------------------------------------------------------
-- Agents
------------------------------------------------------------

namespace UdjatProcess

/- The classes `ExeNameAgent` and `PidFileAgent`. -/
inductive Kind where
| exeName (exename : CString)
| pidFile (pidfile : CString)
deriving DecidableEq

/-
  `Process::Agent`. `updates` counts the calls of
  `updated(true)`, by which an agent reports a change.
-/
structure Agent where
  kind : Kind
  pid : Option Addr := none
  updates : Nat := 0
deriving DecidableEq

namespace Agent

/- `probe(const char *)` of the agent's class. -/
def probe (name : CString) (self : Agent) : Bool :=
  match self.kind with
  | .exeName exename => strcasecmp name exename
  | .pidFile _ => false

/- `probe(const Identifier &)`. -/
def probeIdentifier
    (links : Links)
    (ident : Identifier)
    (self : Agent) : Bool :=
  self.probe (exename links ident.pid)

/- `updated(true)`. -/
def updated (self : Agent) : Agent :=
  { self with updates := self.updates + 1 }

/- `Agent::set(Identifier *)`. -/
def set
    (pid : Option Addr)
    (self : Agent) : Agent :=
  if pid = self.pid then
    self
  else
    { self with pid := pid }.updated

/- What the controller does to an agent for a new process. -/
def bindIfUnbound
    (exec : CString)
    (a : Addr)
    (self : Agent) : Agent :=
  if self.pid.isNone && self.probe exec then
    self.set (some a)
  else
    self

/- What it does when the element at an address goes. -/
def unbindFrom
    (a : Addr)
    (self : Agent) : Agent :=
  if self.pid = some a then self.set none else self

@[simp] theorem set_kind
    (pid : Option Addr)
    (self : Agent) :
    (self.set pid).kind = self.kind := by
  unfold set updated
  split <;> rfl

@[simp] theorem set_pid
    (pid : Option Addr)
    (self : Agent) :
    (self.set pid).pid = pid := by
  unfold set updated
  split
  · next hEq => exact hEq.symm
  · rfl

/- What a probe accepts depends on the kind of agent only. -/
theorem probe_of_kind_eq
    {self other : Agent}
    (hKind : self.kind = other.kind)
    (name : CString) :
    self.probe name = other.probe name := by
  unfold probe
  rw [hKind]

@[simp] theorem bindIfUnbound_kind
    (exec : CString)
    (a : Addr)
    (self : Agent) :
    (self.bindIfUnbound exec a).kind = self.kind := by
  unfold bindIfUnbound
  split
  · exact set_kind _ _
  · rfl

/- The pointer after a process appeared. -/
theorem bindIfUnbound_pid
    (exec : CString)
    (a : Addr)
    (self : Agent) :
    (self.bindIfUnbound exec a).pid =
      if self.pid = none ∧ self.probe exec = true then
        some a
      else
        self.pid := by
  unfold bindIfUnbound
  simp only [Bool.and_eq_true, Option.isNone_iff_eq_none]
  split
  · exact set_pid _ _
  · rfl

/- A bound agent stays as it is when a process appears. -/
theorem bindIfUnbound_of_bound
    (exec : CString)
    (a b : Addr)
    (self : Agent)
    (hBound : self.pid = some b) :
    self.bindIfUnbound exec a = self := by
  simp [bindIfUnbound, hBound]

theorem bindIfUnbound_idempotent
    (exec : CString)
    (a : Addr)
    (self : Agent) :
    (self.bindIfUnbound exec a).bindIfUnbound exec a =
      self.bindIfUnbound exec a := by
  by_cases hBind : (self.pid.isNone && self.probe exec) = true
  · apply bindIfUnbound_of_bound exec a a
    simp [bindIfUnbound, hBind]
  · simp [bindIfUnbound, hBind]

theorem unbindFrom_idempotent
    (a : Addr)
    (self : Agent) :
    (self.unbindFrom a).unbindFrom a =
      self.unbindFrom a := by
  by_cases hBound : self.pid = some a
  · simp [unbindFrom, hBound]
  · simp [unbindFrom, hBound]

end Agent

------------------------------------------------------------
-- Pid Files
------------------------------------------------------------

/- `isspace` in the C locale. -/
def isSpace (c : Char) : Bool :=
  c == ' ' || c == '\t' || c == '\n' || c == '\r' ||
    c.toNat == 11 || c.toNat == 12

/- The value of a string of decimal digits. -/
def digitsValue (digits : CString) : Nat :=
  digits.foldl (fun n d => 10 * n + (d.toNat - 48)) 0

/-
  `stream >> value` for an `unsigned int` that was zero:
  blanks are skipped, a sign is allowed, a value out of
  range saturates and a missing one leaves zero.
-/
def extractUnsigned (text : CString) : UInt32 :=
  let body := text.dropWhile isSpace
  let negative := body.head? == some '-'
  let signed := negative || body.head? == some '+'
  let number := if signed then body.tail else body
  let value := digitsValue (number.takeWhile Char.isDigit)
  if 4294967295 < value then
    4294967295
  else if negative then
    0 - UInt32.ofNat value
  else
    UInt32.ofNat value

end UdjatProcess
