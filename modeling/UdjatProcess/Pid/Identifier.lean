import Mathlib.Data.Rat.Init
import Mathlib.Data.Rat.Defs
import UdjatProcess.Pid.Stat

/-
  A monitored process (`pid/identifier.cc`).

  An `Identifier` keeps the process number, the state last
  read and the CPU accounting of one process. Its executable
  name is read from the link `/proc/<pid>/exe` on demand.

  The C type `float` is read as the exact rationals together
  with one value for the result of `0 / 0`.

  Key definitions include:
    * `Usage`
    * `Identifier`
    * `Identifier.getState`
    * `exename`
    * `strcasecmp`
-/

------------------------------------------------------------
-- Character Strings
------------------------------------------------------------

namespace UdjatProcess

/- The bytes of a C string, each as a character. -/
abbrev CString := List Char

/- `strcasecmp(a,b) == 0` in the C locale. -/
def strcasecmp (a b : CString) : Bool :=
  a.map Char.toLower == b.map Char.toLower

/- `std::to_string` of an unsigned number. -/
def toDecimal (n : Nat) : CString :=
  Nat.toDigits 10 n

------------------------------------------------------------
-- Floating Point Shares
------------------------------------------------------------

/- A `float` that holds a share of the CPU. -/
inductive Usage where
| nan
| real (q : ℚ)
deriving DecidableEq

namespace Usage

/-
  The quotient of two numbers that are not negative; the
  code divides by zero only when both are zero.
-/
def quotient (x y : ℚ) : Usage :=
  if y = 0 then .nan else .real (x / y)

/- The truth value of a `float` in a condition. -/
def truthy : Usage → Bool
| .nan => true
| .real q => q ≠ 0

/- `(this * x) / y`. -/
def scale (u : Usage) (x y : ℚ) : Usage :=
  match u with
  | .nan => .nan
  | .real q => quotient (q * x) y

end Usage

------------------------------------------------------------
-- Identifiers
------------------------------------------------------------

/- `Identifier::cpu`. -/
structure Cpu where
  percent : Usage := .real 0
  last : UInt64 := 0
deriving DecidableEq

/- `Process::Identifier`. -/
structure Identifier where
  pid : Pid
  cpu : Cpu := {}
  state : State := State.unread
deriving DecidableEq

namespace Identifier

/- `Identifier::set(State)`. -/
def set
    (state : State)
    (self : Identifier) : Identifier :=
  if state = self.state then
    self
  else
    { self with state := state }

@[simp] theorem set_pid
    (state : State)
    (self : Identifier) :
    (self.set state).pid = self.pid := by
  unfold set
  split <;> rfl

@[simp] theorem set_cpu
    (state : State)
    (self : Identifier) :
    (self.set state).cpu = self.cpu := by
  unfold set
  split <;> rfl

@[simp] theorem set_state
    (state : State)
    (self : Identifier) :
    (self.set state).state = state := by
  unfold set
  split
  · next hEq => exact hEq.symm
  · rfl

/-
  `Identifier::getState`: an unread state is read once and
  kept. Returns the state and the identifier afterwards.
-/
def getState
    (file : StatFile)
    (self : Identifier) :
    Except StatError (State × Identifier) :=
  if self.state = State.unread then
    match Stat.ofIdentifier file with
    | .error e => .error e
    | .ok stat =>
        let self := self.set stat.state
        .ok (self.state, self)
  else
    .ok (self.state, self)

/- Reading the state changes nothing but the state. -/
theorem getState_keeps
    {file : StatFile}
    {self self' : Identifier}
    {state : State}
    (hOk : self.getState file = .ok (state, self')) :
    self'.pid = self.pid ∧ self'.cpu = self.cpu ∧
      self'.state = state := by
  unfold getState at hOk
  split at hOk
  · cases hStat : Stat.ofIdentifier file with
    | error e => simp [hStat] at hOk
    | ok stat =>
        simp only [hStat, Except.ok.injEq,
          Prod.mk.injEq] at hOk
        rcases hOk with ⟨hState, hSelf⟩
        subst hSelf
        exact ⟨set_pid _ _, set_cpu _ _, hState⟩
  · simp only [Except.ok.injEq, Prod.mk.injEq] at hOk
    rcases hOk with ⟨hState, hSelf⟩
    subst hSelf
    exact ⟨rfl, rfl, hState⟩

end Identifier

------------------------------------------------------------
-- Executable Names
------------------------------------------------------------

/- The targets of the links `/proc/<pid>/exe`. -/
abbrev Links := Pid → Option CString

/-
  `Identifier::exename`: the link's target, cut to the
  buffer, or a name made up from the process number when
  the link cannot be read.
-/
def exename (links : Links) (pid : Pid) : CString :=
  match links pid with
  | some (c :: name) => (c :: name).take 4095
  | _ => "pid".toList ++ toDecimal pid.toUInt32.toNat

end UdjatProcess
