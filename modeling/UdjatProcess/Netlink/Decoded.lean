import UdjatProcess.Netlink.Batch
import UdjatProcess.System.World

/-
  What a datagram asks for, whatever its bytes are
  (`Controller::handle_event` in `controller/init.cc`).

  In the world, the loop of the handler is a run of event
  steps. Of a batch that is cut off, by the size of the
  buffer or before it was sent, the handler sees the whole
  messages and no part of the one that is cut.

  Key definitions include:
    * `Netlink.firstBytes`

  Key theorems include:
    * `Netlink.lies_firstBytes`
    * `World.handleDatagram_run`
    * `Controller.handleDatagram_firstBytes`
-/

namespace UdjatProcess

open Memory

------------------------------------------------------------
-- Batches That Are Cut Off
------------------------------------------------------------

namespace Netlink

/- So many bytes of a batch, from its start. -/
def firstBytes
    (ms : List Message)
    (k : Nat)
    (hFits : k ≤ buffSize) : Datagram where
  nlPid := 0
  bytes := (encodeBatch ms).take k
  fits := Nat.le_trans (List.length_take_le _ _) hFits

/- The whole messages among the first bytes of a batch. -/
theorem encodeBatch_take
    (ms : List Message)
    (n : Nat) :
    (encodeBatch ms).take (Message.size * n) =
      encodeBatch (ms.take n) := by
  induction n generalizing ms with
  | zero => rfl
  | succ n ih =>
      cases ms with
      | nil => rfl
      | cons m ms =>
          have hSplit :
              Message.size * (n + 1) =
                m.encode.length + Message.size * n := by
            rw [Message.length_encode, Nat.mul_succ,
              Nat.add_comm]
          unfold encodeBatch at ih ⊢
          rw [List.flatMap_cons, hSplit,
            List.take_length_add_append, ih,
            List.take_succ_cons, List.flatMap_cons]

theorem length_firstBytes
    (ms : List Message)
    (k : Nat)
    (hFits : k ≤ buffSize) :
    (firstBytes ms k hFits).bytes.length =
      min k (Message.size * ms.length) := by
  unfold firstBytes
  rw [List.length_take, length_encodeBatch]

/- The buffer holds the bytes of the batch that arrived. -/
theorem buffer_firstBytes
    (beyond : Bytes)
    (ms : List Message)
    {k : Nat}
    (hFits : k ≤ buffSize)
    {i : Nat}
    (hi : i < k) :
    (firstBytes ms k hFits).buffer beyond i =
      (encodeBatch ms).getD i 0 := by
  have hInside : i < buffSize := Nat.lt_of_lt_of_le hi hFits
  unfold Datagram.buffer firstBytes
  rw [if_pos hInside, List.getD_eq_getElem?_getD,
    List.getElem?_take_of_lt hi,
    ← List.getD_eq_getElem?_getD]

/- A message lies in its batch behind those before it. -/
theorem holds_of_batch
    (before : List Message)
    (m : Message)
    (after : List Message) :
    Holds
      (fun i => (encodeBatch (before ++ m :: after)).getD i 0)
      (Message.size * before.length) m.encode := by
  have hBatch :
      encodeBatch (before ++ m :: after) =
        encodeBatch before ++
          (m.encode ++ encodeBatch after) := by
    unfold encodeBatch
    rw [List.flatMap_append, List.flatMap_cons]
  have hHolds :=
    holds_getD (encodeBatch before)
      (m.encode ++ encodeBatch after) fun _ => 0
  rw [hBatch, ← length_encodeBatch]
  exact (holds_append_iff.mp hHolds).1

/- Each message of a batch says that it is of full size. -/
theorem nlmsgLen_encodeBatch
    {ms : List Message}
    {i : Nat}
    (hi : i < ms.length) :
    u32 (fun j => (encodeBatch ms).getD j 0)
        (Message.size * i) =
      UInt32.ofNat Message.size := by
  have hHolds :=
    holds_of_batch (ms.take i) ms[i] (ms.drop (i + 1))
  have hParts :
      ms.take i ++ ms[i] :: ms.drop (i + 1) = ms := by
    rw [List.getElem_cons_drop]
    exact List.take_append_drop i ms
  rw [hParts, List.length_take_of_le (Nat.le_of_lt hi)]
    at hHolds
  exact congrArg Header.nlmsgLen
    (Message.header_of_holds hHolds)

/-
  Behind the whole messages that arrived there is none that
  the loop takes for one: either less than a header is left,
  or the header says more than is left.
-/
theorem not_ok_of_firstBytes
    (beyond : Bytes)
    (ms : List Message)
    {k : Nat}
    (hFits : k ≤ buffSize) :
    let d := firstBytes ms k hFits
    let whole := ms.take (k / Message.size)
    ¬ (header (d.buffer beyond)
        (Message.size * whole.length)).Ok
      ((d.bytes.length : Int) -
        (Message.size * whole.length : Nat)) := by
  intro d whole hOk
  have hPositive : 0 < Message.size := by decide
  have hLength : d.bytes.length = _ :=
    length_firstBytes ms k hFits
  have hSplit := Nat.div_add_mod k Message.size
  have hRest := Nat.mod_lt k hPositive
  rcases Nat.lt_or_ge (k / Message.size) ms.length with
    hCut | hAll
  · have hWhole : whole.length = k / Message.size :=
      List.length_take_of_le (Nat.le_of_lt hCut)
    have hMore :
        Message.size * (k / Message.size) + Message.size ≤
          Message.size * ms.length := by
      rw [← Nat.mul_succ]
      exact Nat.mul_le_mul_left _ hCut
    rcases hOk with ⟨hRoom, _, hLeft⟩
    rw [hLength, hWhole] at hRoom hLeft
    unfold nlmsgHdrlen at hRoom
    have hSame :
        u32 (d.buffer beyond)
            (Message.size * (k / Message.size)) =
          u32 (fun i => (encodeBatch ms).getD i 0)
            (Message.size * (k / Message.size)) := by
      apply u32_congr
      intro i hi
      exact buffer_firstBytes beyond ms hFits (by omega)
    have hLen :
        (UInt32.ofNat Message.size).toNat = Message.size := rfl
    unfold header at hLeft
    rw [hSame, nlmsgLen_encodeBatch hCut, hLen] at hLeft
    omega
  · have hWhole : whole = ms := List.take_of_length_le hAll
    have hLong :
        Message.size * ms.length ≤ k := by
      have hLe := Nat.mul_le_mul_left Message.size hAll
      omega
    have hRoom := hOk.1
    rw [hLength, hWhole, Nat.min_eq_right hLong] at hRoom
    unfold nlmsgHdrlen at hRoom
    omega

/- The whole messages lie at the start of the buffer. -/
theorem holds_firstBytes
    (beyond : Bytes)
    (ms : List Message)
    {k : Nat}
    (hFits : k ≤ buffSize) :
    Holds ((firstBytes ms k hFits).buffer beyond) 0
      (encodeBatch (ms.take (k / Message.size))) := by
  rw [← encodeBatch_take]
  apply ((holds_getD [] (encodeBatch ms) fun _ => 0).take
    _).congr
  intro i _ hi
  refine (buffer_firstBytes beyond ms hFits ?_).symm
  have hTake :
      ((encodeBatch ms).take
        (Message.size * (k / Message.size))).length ≤
          Message.size * (k / Message.size) :=
    List.length_take_le _ _
  have hWhole :
      Message.size * (k / Message.size) ≤ k :=
    Nat.mul_div_le k Message.size
  rw [List.length_nil] at hi
  omega

/- They lie there, and nothing that is whole behind them. -/
theorem lies_firstBytes
    (beyond : Bytes)
    (ms : List Message)
    {k : Nat}
    (hFits : k ≤ buffSize) :
    let d := firstBytes ms k hFits
    Lies (d.buffer beyond) 0 d.bytes.length
      (ms.take (k / Message.size)) := by
  intro d
  have hLength : d.bytes.length = _ :=
    length_firstBytes ms k hFits
  refine ⟨holds_firstBytes beyond ms hFits, ?_, ?_⟩
  · rw [hLength]
    apply Int.ofNat_le.mpr
    exact Nat.le_min.mpr
      ⟨Nat.le_trans
        (Nat.mul_le_mul_left _ (List.length_take_le _ _))
        (Nat.mul_div_le k Message.size),
        Nat.mul_le_mul_left _ (List.length_take_le' _ _)⟩
  · rw [Nat.zero_add]
    exact not_ok_of_firstBytes beyond ms hFits

end Netlink

------------------------------------------------------------
-- The Handler
------------------------------------------------------------

/- In the world, each event is a step. -/
theorem World.handleEvents_eq_after
    (A : Allocator)
    (w : World)
    (evs : List ProcEvent) :
    (⟨Netlink.handleEvents A w.links evs w.ctrl, w.links⟩ :
        World) =
      Runs.after (World.step A) w (evs.map Op.event) := by
  induction evs generalizing w with
  | nil => rfl
  | cons ev evs ih =>
      exact ih (w.step A (.event ev))

/-
  Whatever a datagram is made of, its handling is a run of
  event steps, if the loop returns at all.
-/
theorem World.handleDatagram_run
    (A : Allocator)
    (beyond : Netlink.Bytes)
    {d : Netlink.Datagram}
    (hReturns :
      d.Accepted →
        Netlink.nlmsgNoop ∉ Netlink.typesRead d.messages)
    {fuel : Nat}
    (hFuel : d.bytes.length < fuel)
    (w : World) :
    (w.ctrl.handleDatagram A w.links beyond (.ok d) fuel).map
        (fun ctrl => (⟨ctrl, w.links⟩ : World)) =
      some (Runs.after (World.step A) w
        ((d.events beyond).map Op.event)) := by
  have hTurns : d.messages.length < fuel :=
    Nat.lt_of_le_of_lt (Netlink.length_messages_le d) hFuel
  rw [Controller.handleDatagram_events A w.links beyond
    hReturns hTurns w.ctrl, Option.map_some]
  congr 1
  exact w.handleEvents_eq_after A (d.events beyond)

/-
  The exec without a process number is a run of one step,
  whatever follows the buffer.
-/
theorem World.handleDatagram_run_sample :
    let w : World :=
      World.bare (fun _ => { kind := .exeName [] })
        fun _ => none
    (w.ctrl.handleDatagram (.above []) w.links (fun _ => 7)
        (.ok Controller.shortExec) 41).map
        (fun ctrl => (⟨ctrl, w.links⟩ : World)) =
      some (Runs.after (World.step (.above [])) w
        ((Controller.shortExec.events fun _ => 7).map
          Op.event)) := by
  intro w
  exact World.handleDatagram_run (.above []) (fun _ => 7)
    (by decide) (by decide) w

/-
  A batch of any length of which any number of bytes arrived
  has its whole messages handled, and nothing else is done,
  if no message of type `NLMSG_NOOP` comes before the first
  that breaks the loop.
-/
theorem Controller.handleDatagram_firstBytes
    (A : Allocator)
    (links : Links)
    (beyond : Netlink.Bytes)
    {ms : List Netlink.Message}
    {k : Nat}
    (hReads :
      Netlink.ReadsOn (ms.take (k / Netlink.Message.size)))
    (hFits : k ≤ Netlink.buffSize)
    {fuel : Nat}
    (hFuel : k / Netlink.Message.size < fuel)
    (self : Controller) :
    self.handleDatagram A links beyond
        (.ok (Netlink.firstBytes ms k hFits)) fuel =
      some
        ((Netlink.applied
          (ms.take (k / Netlink.Message.size))).foldl
            (Netlink.Message.apply A links) self) := by
  have hTurns :
      (ms.take (k / Netlink.Message.size)).length < fuel :=
    Nat.lt_of_le_of_lt (List.length_take_le _ _) hFuel
  exact handleDatagram_of_lies A links rfl hReads
    (Netlink.lies_firstBytes beyond ms hFits) hTurns self

/-
  Of 390 bytes of six messages the first five are whole.
  Process 5 comes and goes, the third message ends the loop,
  and what is behind it is not read.
-/
theorem Controller.handleDatagram_firstBytes_sample :
    let message (nlmsgType : UInt16) (pid : Pid) :
        Netlink.Message :=
      { nlmsgType := nlmsgType
        event := .exec pid pid
        rest := [0, 0, 0, 0]
        fills := rfl
        distinct := trivial }
    let exit : Netlink.Message :=
      { nlmsgType := 0
        event := .exit 5 5 0 17
        rest := [0, 0]
        fills := rfl
        distinct := trivial }
    let ms :=
      [message 0 5, exit, message Netlink.nlmsgDone 6,
        message Netlink.nlmsgNoop 7, message 0 8, message 0 9]
    emptyController.handleDatagram (.above [])
        (fun _ => none) (fun _ => 0)
        (.ok (Netlink.firstBytes ms 390 (by decide))) 6 =
      some (((emptyController.insert (.above [])
        (fun _ => none) 5).remove 5).insert (.above [])
          (fun _ => none) 6) := by
  intro message exit ms
  exact handleDatagram_firstBytes (.above []) (fun _ => none)
    (fun _ => 0) (by decide) (by decide) (by decide)
    emptyController

end UdjatProcess
