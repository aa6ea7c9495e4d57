import Mathlib.Init

/-
  The contents of `/proc/<pid>/stat` (`pid/stat.cc` and
  `udjat/process/identifier.h`).

  `StatFile` is what an attempt to open, read and scan the
  file can come to, `Stat.set` what `Identifier::Stat::set`
  makes of it. The members of `Stat` have the widths of an
  LP64 target.

  Key definitions include:
    * `Stat`
    * `StatFile`
    * `Stat.set`
    * `Stat.ofPid`
    * `Stat.ofIdentifier`
-/

------------------------------------------------------------
-- Process Numbers And States
------------------------------------------------------------

namespace UdjatProcess

/- The C type `pid_t`. -/
abbrev Pid := Int32

/-
  `Identifier::State`, an enumeration over `uint8_t` that is
  cast from whatever character the kernel reports.
-/
abbrev State := UInt8

namespace State

def running : State := 'R'.toUInt8
def sleeping : State := 'S'.toUInt8
def waiting : State := 'D'.toUInt8
def zombie : State := 'Z'.toUInt8
def stopped : State := 'T'.toUInt8
def tracingStop : State := 't'.toUInt8
def paging : State := 'W'.toUInt8
def dead : State := 'X'.toUInt8
def deadCompat : State := 'x'.toUInt8
def wakekill : State := 'K'.toUInt8
def waking : State := 'W'.toUInt8
def parked : State := 'P'.toUInt8
def undefined : State := 0

/- The cast `(State) -1` that marks an unread state. -/
def unread : State := 255

end State

------------------------------------------------------------
-- Stat Members
------------------------------------------------------------

/- `Identifier::Stat`, with its initializers. -/
structure Stat where
  state : UInt8 := State.dead
  ppid : Int32 := 0
  pgrp : Int32 := 0
  session : Int32 := 0
  ttyNr : Int32 := 0
  tpgid : Int32 := 0
  flags : UInt32 := 0
  minflt : UInt64 := 0
  cminflt : UInt64 := 0
  majflt : UInt64 := 0
  cmajflt : UInt64 := 0
  utime : UInt64 := 0
  stime : UInt64 := 0
  cutime : Int64 := 0
  cstime : Int64 := 0
  priority : Int64 := 0
  nice : Int64 := 0
  numThreads : Int64 := 0
  itrealvalue : Int64 := 0
  starttime : UInt64 := 0
  vsize : UInt64 := 0
  rss : Int64 := 0
  rsslim : UInt64 := 0
  startcode : UInt64 := 0
  endcode : UInt64 := 0
  startstack : UInt64 := 0
  kstkesp : UInt64 := 0
  kstkeip : UInt64 := 0
  signal : UInt64 := 0
  blocked : UInt64 := 0
  sigignore : UInt64 := 0
  sigcatch : UInt64 := 0
  wchan : UInt64 := 0
  nswap : UInt64 := 0
  cnswap : UInt64 := 0
  exitSignal : Int32 := 0
  processor : Int32 := 0
  rtPriority : UInt32 := 0
  policy : UInt32 := 0
  blkioTicks : UInt64 := 0
  guestTime : UInt64 := 0
  cguestTime : Int64 := 0
  startData : UInt64 := 0
  endData : UInt64 := 0
  startBrk : UInt64 := 0
  argStart : UInt64 := 0
  argEnd : UInt64 := 0
  envStart : UInt64 := 0
  envEnd : UInt64 := 0
  exitCode : Int32 := 0
deriving DecidableEq

------------------------------------------------------------
-- Reading The File
------------------------------------------------------------

/-
  The exceptions of `Stat::set`: a `system_error` carries
  `errno`, a `runtime_error` only its text.
-/
structure StatError where
  errno : Option Nat
  what : String
deriving DecidableEq, Repr

namespace StatError

def cantOpen (errno : Nat) : StatError :=
  ⟨some errno, "Can't open /proc/pid/stat"⟩

def cantRead (errno : Nat) : StatError :=
  ⟨some errno, "Can't read /proc/pid/stat"⟩

def format (errno : Nat) : StatError :=
  ⟨some errno, "Format error on /proc/pid/stat"⟩

def parse : StatError :=
  ⟨none, "Error parsing /proc/pid/stat"⟩

end StatError

/- `ENOENT`. -/
def enoent : Nat := 2

/-
  What reading `/proc/<pid>/stat` can come to. The file is
  absent if `open` fails with `ENOENT`.
-/
inductive StatFile where
| absent
| openFails (errno : Nat) (other : errno ≠ enoent)
| readFails (errno : Nat)
| noName (errno : Nat)
| fewFields
| present (stat : Stat)

/- There is no file, or it was read. -/
def StatFile.Readable : StatFile → Prop
| .absent => True
| .present _ => True
| _ => False

namespace Stat

/-
  `Stat::set` on a default object: a file that does not
  exist leaves the initializers in place.
-/
def set : StatFile → Except StatError Stat
| .absent => .ok {}
| .openFails errno _ => .error (.cantOpen errno)
| .readFails errno => .error (.cantRead errno)
| .noName errno => .error (.format errno)
| .fewFields => .error .parse
| .present stat => .ok stat

/- It throws unless the file is readable. -/
theorem set_ok_iff (file : StatFile) :
    (∃ stat, set file = .ok stat) ↔ file.Readable := by
  cases file with
  | absent => exact iff_of_true ⟨_, rfl⟩ trivial
  | present stat => exact iff_of_true ⟨_, rfl⟩ trivial
  | _ => exact iff_of_false (by rintro ⟨_, hOk⟩; cases hOk) id

/- `Stat::Stat(pid_t)`. -/
def ofPid
    (file : StatFile)
    (pid : Pid) : Except StatError Stat :=
  if 0 < pid then set file else .ok {}

/- `Stat::Stat(const Identifier *)` on a live identifier. -/
def ofIdentifier
    (file : StatFile) : Except StatError Stat :=
  set file

end Stat

end UdjatProcess
