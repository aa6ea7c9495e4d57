import UdjatProcess.Library.Runs
import UdjatProcess.Library.Relay
import UdjatProcess.Library.Registry
import UdjatProcess.Library.Scanf
import UdjatProcess.System.World
import UdjatProcess.Binding.PidFile
import UdjatProcess.Binding.ExeName
import UdjatProcess.Binding.Complete
import UdjatProcess.Binding.Order
import UdjatProcess.Binding.Reload
import UdjatProcess.Tracking.Tracked
import UdjatProcess.Tracking.Unique
import UdjatProcess.Tracking.Processes
import UdjatProcess.Tracking.Threads
import UdjatProcess.Tracking.Startup
import UdjatProcess.Counters.Fresh
import UdjatProcess.Usage.Percent
import UdjatProcess.System.Accounts
import UdjatProcess.Usage.Bounded
import UdjatProcess.Usage.Divisor
import UdjatProcess.Usage.Ledger
import UdjatProcess.Usage.Lost
import UdjatProcess.Usage.Reuse
import UdjatProcess.Failure.Vanish
import UdjatProcess.Failure.Escape
import UdjatProcess.Binding.Reexec
import UdjatProcess.Counters.Zombies
import UdjatProcess.Netlink.Receive
import UdjatProcess.Tracking.Reconcile
import UdjatProcess.Pid.StatText
import UdjatProcess.Pid.StatLine
import UdjatProcess.Netlink.Batch
import UdjatProcess.Netlink.Received
import UdjatProcess.Netlink.Decoded
import UdjatProcess.Failure.Silent
import UdjatProcess.Failure.Overrun
import UdjatProcess.Library.Lossy
import UdjatProcess.Tracking.Wire
import UdjatProcess.System.Monitor
import UdjatProcess.System.Refines
import UdjatProcess.Tracking.Reported
import UdjatProcess.System.Notices
import UdjatProcess.System.Lifetimes
import UdjatProcess.Library.Roster
import UdjatProcess.Tracking.Roster
import UdjatProcess.System.Procfs
import UdjatProcess.Binding.PidText
import UdjatProcess.Agent.Report
import UdjatProcess.System.Views
import UdjatProcess.Netlink.Subscribe
import UdjatProcess.Tracking.Sources
import UdjatProcess.Library.Pointwise
import UdjatProcess.System.Queries
import UdjatProcess.Library.Renaming
import UdjatProcess.System.Addresses
import UdjatProcess.Library.Rounding
import UdjatProcess.Netlink.Events
