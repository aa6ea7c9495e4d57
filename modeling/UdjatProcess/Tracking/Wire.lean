import UdjatProcess.Library.Lossy
import UdjatProcess.Netlink.Decoded
import UdjatProcess.Tracking.Processes

/-
  From the acts of processes to the tracked processes, by
  way of the bytes of datagrams (`Controller::handle_event`
  and the socket of `controller/init.cc`).

  Each act is reported by a message in a datagram of its
  own. The socket is set to `NETLINK_NO_ENOBUFS`, so that
  datagrams that do not fit its queue are lost and nobody
  is told. Datagrams of other senders may come in between.
  A process is wrongly tracked only as long as the last
  message about it was lost or is on its way.

  Key definitions include:
    * `Netlink.Report`
    * `World.receive`
    * `Processes.Sent`
    * `Processes.wire`
    * `Processes.reported`

  Key theorems include:
    * `World.receive_events`
    * `World.receive_report`
    * `World.receive_foreign`
    * `Processes.tracked_iff_of_current`
-/

namespace UdjatProcess

------------------------------------------------------------
-- Datagrams
------------------------------------------------------------

namespace Netlink

/- A message of which the handler reads the event. -/
structure Report where
  message : Message
  isRead : message.nlmsgType ≠ nlmsgNoop
  succeeds : ¬ Fails message.nlmsgType

/- The datagram of one message. -/
def Report.datagram (r : Report) : Datagram :=
  firstBytes [r.message] Message.size (by decide)

/- It holds the event of the message. -/
theorem Report.events_datagram
    (beyond : Bytes)
    (r : Report) :
    r.datagram.events beyond = [r.message.event] ∧
      nlmsgNoop ∉ typesRead r.datagram.messages := by
  have hReads : ReadsOn [r.message] := by
    apply readsOn_of_forall
    intro m hMem
    rw [List.mem_singleton.mp hMem]
    exact r.isRead
  have hFits : Message.size ≤ buffSize := by decide
  have hEvents :=
    Datagram.events_of_lies beyond rfl hReads
      (lies_firstBytes beyond [r.message] hFits)
  have hApplied : applied [r.message] = [r.message] := by
    rw [applied_cons, if_neg r.succeeds]
    split <;> rfl
  rw [hApplied] at hEvents
  exact ⟨hEvents.1, hEvents.2.1⟩

/- What `recvfrom` returned is not for the handler. -/
def Foreign : Except Nat Datagram → Prop
| .error _ => True
| .ok d => ¬ d.Accepted

end Netlink

namespace World

/-
  `handle_event` once, with turns enough for any datagram on
  which its loop returns.
-/
def receive
    (A : Allocator)
    (beyond : Netlink.Bytes)
    (received : Except Nat Netlink.Datagram)
    (w : World) : World :=
  match
    w.ctrl.handleDatagram A w.links beyond received
      (Netlink.buffSize + 1) with
  | some ctrl => { w with ctrl := ctrl }
  | none => w

/- A datagram is handled as the run of its events. -/
theorem receive_events
    (A : Allocator)
    (beyond : Netlink.Bytes)
    {d : Netlink.Datagram}
    (hReturns :
      d.Accepted →
        Netlink.nlmsgNoop ∉ Netlink.typesRead d.messages)
    (w : World) :
    w.receive A beyond (.ok d) =
      Runs.after (step A) w
        ((d.events beyond).map Op.event) := by
  have hTurns : d.messages.length < Netlink.buffSize + 1 :=
    Nat.lt_succ_of_le
      (Nat.le_trans (Netlink.length_messages_le d) d.fits)
  unfold receive
  rw [Controller.handleDatagram_events A w.links beyond
    hReturns hTurns]
  exact handleEvents_eq_after A w (d.events beyond)

/- That of a report is handled as the one event. -/
theorem receive_report
    (A : Allocator)
    (beyond : Netlink.Bytes)
    (r : Netlink.Report)
    (w : World) :
    w.receive A beyond (.ok r.datagram) =
      w.step A (.event r.message.event) := by
  have hEvents := r.events_datagram beyond
  rw [receive_events A beyond fun _ => hEvents.2, hEvents.1]
  rfl

/- A datagram of another sender, or none, changes nothing. -/
theorem receive_foreign
    (A : Allocator)
    (beyond : Netlink.Bytes)
    {received : Except Nat Netlink.Datagram}
    (hForeign : Netlink.Foreign received)
    (w : World) :
    w.receive A beyond received = w := by
  unfold receive
  cases received with
  | error errno => rfl
  | ok d =>
      rw [Controller.handleDatagram_of_not_accepted A w.links
        beyond hForeign]

end World

------------------------------------------------------------
-- The System
------------------------------------------------------------

namespace Processes

/- An act and the report that the kernel makes of it. -/
structure Sent where
  act : Act
  report : Netlink.Report
  carries : report.message.event = act.event

/-
  What the module does by itself, or what it receives from
  another sender.
-/
inductive Input where
| op (op : Op)
| receive (received : Except Nat Netlink.Datagram)

def Input.Quiet : Input → Prop
| .op o => o.Quiet
| .receive received => Netlink.Foreign received

/- The processes, their reports, and the module. -/
def wire
    (A : Allocator)
    (beyond : Netlink.Bytes) :
    Relay.Protocol Processes Sent Netlink.Report World
      Input where
  act live sent := live.act sent.act
  emit live sent :=
    if live.Possible sent.act then [sent.report] else []
  handle w r := w.receive A beyond (.ok r.datagram)
  work w
  | .op o => w.step A o
  | .receive received => w.receive A beyond received

/- The tracked processes follow the shown ones. -/
def reported
    (A : Allocator)
    (beyond : Netlink.Bytes) :
    Lossy.Reported (wire A beyond) Pid where
  replica :=
    { view := World.tracked
      track := fun t r =>
        Registry.replay t r.message.event.changes
      Good := fun w => 0 ≤ w.ctrl.fd
      Quiet := Input.Quiet
      good_handle := by
        intro w r hFd
        change 0 ≤ (w.receive A beyond (.ok r.datagram)).ctrl.fd
        rw [World.receive_report, World.step_fd]
        exact hFd
      good_work := by
        intro w i hFd hQuiet
        cases i with
        | op o =>
            change 0 ≤ (w.step A o).ctrl.fd
            rw [World.step_fd]
            exact hFd
        | receive received =>
            change 0 ≤ (w.receive A beyond received).ctrl.fd
            rw [World.receive_foreign A beyond hQuiet]
            exact hFd
      view_handle := by
        intro w r _
        change (w.receive A beyond (.ok r.datagram)).tracked = _
        rw [World.receive_report]
        exact World.tracked_event A w r.message.event
      view_work := by
        intro w i hFd hQuiet
        cases i with
        | op o => exact World.tracked_quiet A hFd hQuiet
        | receive received =>
            change (w.receive A beyond received).tracked = _
            rw [World.receive_foreign A beyond hQuiet] }
  changes r := r.message.event.changes
  shown := shown
  track_eq _ _ := rfl
  shown_act := by
    intro live sent
    change (live.act sent.act).shown = _
    rw [shown_act]
    unfold emit
    by_cases hPossible : live.Possible sent.act
    · simp [wire, hPossible, sent.carries]
    · simp [wire, hPossible]

/- The module after the load, with nothing on its way. -/
def loaded
    (pids : List Pid)
    (w : World) :
    Lossy.State Processes Netlink.Report World Pid where
  net := { source := atLoad pids, queue := [], replica := w }
  stale := ∅

/- Process 5 calls exec. -/
def sentExec : Sent where
  act := .exec 5
  report :=
    { message :=
        { nlmsgType := Netlink.nlmsgDone
          event := .exec 5 5
          rest := [0, 0, 0, 0]
          fills := rfl
          distinct := trivial }
      isRead := by decide
      succeeds := by decide }
  carries := rfl

end Processes

end UdjatProcess
