import UdjatProcess.Controller.Basic

/-
  Reading the process list from `/proc`
  (`controller/load.cc` and the start of
  `controller/init.cc`).

  Key definitions include:
    * `load`
    * `Controller.reload`
    * `Controller.create`
    * `Controller.onTimer`
-/

------------------------------------------------------------
-- Snapshots
------------------------------------------------------------

namespace UdjatProcess

/- A directory entry: is it a directory, and its name. -/
structure Dirent where
  isDir : Bool
  name : CString
deriving DecidableEq

/- What `opendir("/proc")` gives: `errno` or the entries. -/
abbrev ProcDir := Except Nat (List Dirent)

/- The `system_error` that `load` throws. -/
structure LoadError where
  errno : Nat
  what : String
deriving DecidableEq, Repr

def isNumeric (name : CString) : Bool :=
  name.all fun c => !(c < '0' || '9' < c)

/-
  `atoi` of a string of digits: the value saturates at the
  largest `long` and is cut to an `int`.
-/
def atoi (name : CString) : Pid :=
  Int32.ofNat (min (digitsValue name) 9223372036854775807)

/- `Controller::load`. -/
def load : ProcDir → Except LoadError (List Pid)
| .error errno => .error ⟨errno, "Can't open /proc"⟩
| .ok entries =>
    .ok ((entries.filter fun e =>
      e.isDir && isNumeric e.name).map fun e => atoi e.name)

/- The processes that a poll finds, none if it fails. -/
def snapshot (dir : ProcDir) : List Pid :=
  match load dir with
  | .ok pids => pids
  | .error _ => []

/- `search` in a list of process numbers. -/
def searchPids
    (entries : List Pid)
    (pid : Identifier) : Bool :=
  entries.any fun e => e == pid.pid

/- `search` in a list of identifiers. -/
def searchIdentifiers
    (entries : NodeList Identifier)
    (pid : Pid) : Bool :=
  entries.nodes.any fun n => n.val.pid == pid

@[simp] theorem searchPids_iff
    (entries : List Pid)
    (pid : Identifier) :
    searchPids entries pid = true ↔ pid.pid ∈ entries := by
  simp [searchPids]

------------------------------------------------------------
-- Polling
------------------------------------------------------------

namespace Controller

/- The part of `Controller::reload` under the lock. -/
def reconcile
    (A : Allocator)
    (links : Links)
    (current : List Pid)
    (self : Controller) : Controller :=
  let self :=
    { self with
      identifiers :=
        self.identifiers.removeIf fun entry =>
          !searchPids current entry }
  let current :=
    current.filter fun entry =>
      !searchIdentifiers self.identifiers entry
  current.foldl
    (fun self pid => self.insert A links pid) self

/- `Controller::reload`. -/
def reload
    (A : Allocator)
    (links : Links)
    (dir : ProcDir)
    (self : Controller) : Controller :=
  match load dir with
  | .ok current => self.reconcile A links current
  | .error _ =>
      { self with identifiers := self.identifiers.clear }

/-
  `Controller::on_timer`, up to the refresh that it hands to
  the thread pool.
-/
def onTimer
    (A : Allocator)
    (links : Links)
    (dir : ProcDir)
    (self : Controller) : Controller :=
  if self.fd < 0 then self.reload A links dir else self

------------------------------------------------------------
-- Construction
------------------------------------------------------------

/- The two counters that `System::Stat` reads. -/
structure SystemStat where
  running : UInt64
  idle : UInt64
deriving DecidableEq

/-
  `Controller::Controller`. `fd` is the netlink socket after
  the attempt to subscribe, negative when it failed. No
  agent is registered yet, so loading the processes binds
  none.
-/
def create
    (A : Allocator)
    (links : Links)
    (memory : Memory)
    (dir : ProcDir)
    (fd : Int)
    (cpuUsePerProcess : Bool)
    (stat : SystemStat) : Except LoadError Controller :=
  match load dir with
  | .error e => .error e
  | .ok pids =>
      let self : Controller :=
        { identifiers := .empty
          agents := []
          memory := memory
          fd := -1 }
      let self :=
        pids.foldl
          (fun self pid => self.insert A links pid) self
      .ok
        { self with
          fd := fd
          cpuUsePerProcess := cpuUsePerProcess
          system :=
            { self.system with
              running := stat.running
              idle := stat.idle } }

end Controller

end UdjatProcess
