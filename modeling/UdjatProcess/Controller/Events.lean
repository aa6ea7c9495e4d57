import UdjatProcess.Controller.Basic

/-
  Process events from the kernel connector
  (the switch in `Controller::handle_event`,
  `controller/init.cc`).

  A `ProcEvent` is a decoded `struct proc_event` of
  `linux/cn_proc.h`. The switch reads the process number of
  every event through the `exec` member of the union, which
  for an exit event is the first word of the `exit` member.

  Key definitions include:
    * `ProcEvent`
    * `ProcEvent.execProcessPid`
    * `Controller.handleEvent`
-/

namespace UdjatProcess

/-
  The kinds of events with the words that the kernel puts
  into the union; kinds without a case in the switch other
  than fork are told apart by their code only.
-/
inductive ProcEvent where
| fork (parentPid parentTgid childPid childTgid : Pid)
| exec (processPid processTgid : Pid)
| exit (processPid processTgid : Pid)
    (exitCode exitSignal : UInt32)
| other (what : UInt32) (firstWord : Pid)
deriving DecidableEq

namespace ProcEvent

/- `event_data.exec.process_pid`, whatever the event is. -/
def execProcessPid : ProcEvent → Pid
| fork parentPid _ _ _ => parentPid
| exec processPid _ => processPid
| exit processPid _ _ _ => processPid
| other _ firstWord => firstWord

end ProcEvent

namespace Controller

/- The switch in `Controller::handle_event`. -/
def handleEvent
    (A : Allocator)
    (links : Links)
    (ev : ProcEvent)
    (self : Controller) : Controller :=
  match ev with
  | .exec _ _ => self.insert A links ev.execProcessPid
  | .exit _ _ _ _ => self.remove ev.execProcessPid
  | _ => self

end Controller

end UdjatProcess
