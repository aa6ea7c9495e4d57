import UdjatProcess.Netlink.Batch

/-
  The subscription to the process connector (the end of the
  constructor in `controller/init.cc`).

  The constructor opens a socket, binds it to the group of
  the process connector, and asks for the events of that
  group. The main loop watches the socket if all of this
  goes well. Otherwise the socket is closed, and what the
  kernel answered is written to the log.

  Key definitions include:
    * `Netlink.listenRequest`
    * `Netlink.subscribe`
    * `Netlink.Grants`

  Key theorems include:
    * `Netlink.listenRequest_read`
    * `Netlink.subscribe_of_grants`
    * `Netlink.subscribe_of_denied`
-/

namespace UdjatProcess

namespace Netlink

open Memory

------------------------------------------------------------
-- The Request
------------------------------------------------------------

def cnIdxProc : UInt32 := 1
def cnValProc : UInt32 := 1
def procCnMcastListen : UInt32 := 1

/- `sizeof(enum proc_cn_mcast_op)`. -/
def mcastOpSize : Nat := 4

/- `SEND_MESSAGE_LEN`. -/
def sendMessageLen : Nat :=
  nlmsgLength (cnMsgSize + mcastOpSize)

/-
  The part of `buff` that is sent: `struct nlmsghdr`,
  `struct cn_msg` and `PROC_CN_MCAST_LISTEN`.
-/
def listenRequest (getpid : UInt32) : List UInt8 :=
  (le32 (UInt32.ofNat sendMessageLen) ++ le16 nlmsgDone ++
      le16 0 ++ le32 0 ++ le32 getpid) ++
    (le32 cnIdxProc ++ le32 cnValProc ++ le32 0 ++ le32 0 ++
      le16 (UInt16.ofNat mcastOpSize) ++ le16 0) ++
    le32 procCnMcastListen

theorem length_listenRequest (getpid : UInt32) :
    (listenRequest getpid).length = sendMessageLen := by
  simp [listenRequest, sendMessageLen, nlmsgLength, cnMsgSize,
    mcastOpSize, nlmsgHdrlen]

/-
  The bytes that are sent are one whole message. It comes
  from the process, and has the operation for the connector.
-/
theorem listenRequest_read (getpid : UInt32) :
    let bytes := listenRequest getpid
    let b : Bytes := fun i => bytes.getD i 0
    headers b bytes.length 0 bytes.length =
        [⟨0, UInt32.ofNat sendMessageLen, nlmsgDone⟩] ∧
      u32 b 12 = getpid ∧
      u32 b nlmsgHdrlen = cnIdxProc ∧
      u32 b (nlmsgHdrlen + 4) = cnValProc ∧
      u16 b (nlmsgHdrlen + 16) = UInt16.ofNat mcastOpSize ∧
      u32 b evOffset = procCnMcastListen := by
  intro bytes b
  have hHolds : Holds b 0 (listenRequest getpid) :=
    holds_getD [] bytes fun _ => 0
  unfold listenRequest at hHolds
  simp only [holds_append_iff, List.length_append,
    length_le32, length_le16, Nat.zero_add,
    Nat.reduceAdd] at hHolds
  rcases hHolds with
    ⟨⟨⟨⟨⟨⟨hLen, hType⟩, _⟩, _⟩, hPid⟩,
      ⟨⟨⟨⟨⟨hIdx, hVal⟩, _⟩, _⟩, hData⟩, _⟩⟩, hOp⟩
  have hHeader :
      header b 0 =
        ⟨0, UInt32.ofNat sendMessageLen, nlmsgDone⟩ := by
    unfold header
    rw [u32_of_holds hLen, u16_of_holds hType]
  have hOk : (header b 0).Ok sendMessageLen := by
    rw [hHeader]
    decide
  have hSpace : (header b 0).space = sendMessageLen := by
    rw [hHeader]
    decide +kernel
  have hNone :
      ¬ (header b (0 + (header b 0).space)).Ok
        (sendMessageLen - (header b 0).space) := by
    intro hNext
    have hRoom := hNext.1
    rw [hSpace] at hRoom
    exact absurd hRoom (by decide)
  refine ⟨?_, u32_of_holds hPid, u32_of_holds hIdx,
    u32_of_holds hVal, u16_of_holds hData, u32_of_holds hOp⟩
  have hLength : bytes.length = 39 + 1 :=
    length_listenRequest getpid
  have hWhole : ((39 + 1 : Nat) : Int) = sendMessageLen := rfl
  rw [hLength, hWhole, headers_cons hOk,
    headers_of_not_ok hNone, hHeader]

------------------------------------------------------------
-- The Calls
------------------------------------------------------------

/- `struct sockaddr_nl`. -/
structure SockaddrNl where
  nlFamily : Nat
  nlGroups : UInt32
  nlPid : UInt32
deriving DecidableEq

/- A call into the kernel. -/
inductive Call where
| socket (domain type protocol : Nat)
| setsockopt (fd : Int) (level optname : Nat) (val : UInt32)
| bind (fd : Int) (addr : SockaddrNl)
| send (fd : Int) (bytes : List UInt8)
deriving DecidableEq

/- What a call returns, and `errno` behind it. -/
structure Answer where
  ret : Int
  errno : Nat

abbrev Kernel := Call → Answer

/- `PF_NETLINK`, `SOCK_DGRAM` and `NETLINK_CONNECTOR`. -/
def socketCall : Call := .socket 16 2 11

/- `SOL_NETLINK` and `NETLINK_NO_ENOBUFS`. -/
def setsockoptCall (fd : Int) : Call := .setsockopt fd 270 5 1

/- The address has the family `AF_NETLINK`. -/
def bindCall (getpid : UInt32) (fd : Int) : Call :=
  .bind fd ⟨16, cnIdxProc, getpid⟩

def sendCall (getpid : UInt32) (fd : Int) : Call :=
  .send fd (listenRequest getpid)

/- What is done with the socket. -/
inductive Act where
| call (call : Call)
| enable (fd : Int)
| close (fd : Int)
deriving DecidableEq

/-
  A line of the log: what stands before the description of
  `errno`, and what stands behind it.
-/
structure LogLine where
  before : String
  errno : Nat
  behind : String := ""
deriving DecidableEq

/- The `system_error` that the subscription throws. -/
structure SystemError where
  errno : Nat
  what : String
deriving DecidableEq

/- `e.what()`. -/
def SystemError.line (e : SystemError) : LogLine where
  before := e.what ++ ": "
  errno := e.errno

/- The `try` block, up to `enable`. -/
def connect
    (kernel : Kernel)
    (getpid : UInt32)
    (fd : Int) : List Act × Except SystemError Unit :=
  let bind := bindCall getpid fd
  let send := sendCall getpid fd
  if (kernel bind).ret < 0 then
    ([.call bind],
      .error ⟨(kernel bind).errno,
        "Can't bind process list connector"⟩)
  else if (kernel send).ret ≠ sendMessageLen then
    ([.call bind, .call send],
      .error ⟨(kernel send).errno,
        "Failed to send proc connector mcast ctl op"⟩)
  else
    ([.call bind, .call send], .ok ())

/- What the constructor makes of the socket. -/
structure Subscription where
  acts : List Act
  fd : Int
  enabled : Bool
  log : List LogLine
deriving DecidableEq

/-
  The constructor from `socket` on. `closed` is the value
  that `MainLoop::Handler::close` leaves in `fd`.
-/
def subscribe
    (kernel : Kernel)
    (getpid : UInt32)
    (closed : Int) : Subscription :=
  let fd := (kernel socketCall).ret
  if fd < 0 then
    { acts := [.call socketCall]
      fd := fd
      enabled := false
      log :=
        [⟨"Error '", (kernel socketCall).errno,
          "' creating netlink socket"⟩] }
  else
    let setsockopt := setsockoptCall fd
    let log :=
      if (kernel setsockopt).ret < 0 then
        [{ before := "Unable to setsockopt NETLINK_NO_ENOBUFS: "
           errno := (kernel setsockopt).errno }]
      else
        []
    let acts := [.call socketCall, .call setsockopt]
    match connect kernel getpid fd with
    | (calls, .ok ()) =>
        { acts := acts ++ calls ++ [.enable fd]
          fd := fd
          enabled := true
          log := log }
    | (calls, .error e) =>
        { acts := acts ++ calls ++ [.close fd]
          fd := closed
          enabled := false
          log := log ++ [e.line] }

------------------------------------------------------------
-- What Comes Of It
------------------------------------------------------------

/-
  The kernel opens the socket, binds it, and takes the whole
  request.
-/
def Grants (kernel : Kernel) (getpid : UInt32) : Prop :=
  let fd := (kernel socketCall).ret
  0 ≤ fd ∧ 0 ≤ (kernel (bindCall getpid fd)).ret ∧
    (kernel (sendCall getpid fd)).ret = sendMessageLen

instance (kernel : Kernel) (getpid : UInt32) :
    Decidable (Grants kernel getpid) := by
  unfold Grants
  infer_instance

variable {kernel : Kernel} {getpid : UInt32}

/- The block goes well if both calls do. -/
theorem connect_of_granted
    {fd : Int}
    (hBind : 0 ≤ (kernel (bindCall getpid fd)).ret)
    (hSend :
      (kernel (sendCall getpid fd)).ret = sendMessageLen) :
    connect kernel getpid fd =
      ([.call (bindCall getpid fd),
        .call (sendCall getpid fd)], .ok ()) := by
  unfold connect
  dsimp only
  rw [if_neg (Int.not_lt.mpr hBind),
    if_neg (not_not.mpr hSend)]

/- It throws if one of them does not. -/
theorem connect_of_denied
    {fd : Int}
    (hDenied :
      ¬ (0 ≤ (kernel (bindCall getpid fd)).ret ∧
        (kernel (sendCall getpid fd)).ret =
          sendMessageLen)) :
    ∃ calls e, connect kernel getpid fd = (calls, .error e) := by
  unfold connect
  dsimp only
  by_cases hBind : (kernel (bindCall getpid fd)).ret < 0
  · rw [if_pos hBind]
    exact ⟨_, _, rfl⟩
  · have hSend :
        (kernel (sendCall getpid fd)).ret ≠ sendMessageLen :=
      fun hWhole => hDenied ⟨Int.not_lt.mp hBind, hWhole⟩
    rw [if_neg hBind, if_pos hSend]
    exact ⟨_, _, rfl⟩

/- The socket that the kernel grants is watched. -/
theorem subscribe_of_grants
    (closed : Int)
    (hGrants : Grants kernel getpid) :
    let fd := (kernel socketCall).ret
    let s := subscribe kernel getpid closed
    s.enabled = true ∧ s.fd = fd ∧
      s.acts =
        [.call socketCall, .call (setsockoptCall fd),
          .call (bindCall getpid fd),
          .call (sendCall getpid fd), .enable fd] := by
  rcases hGrants with ⟨hSocket, hBind, hSend⟩
  unfold subscribe
  dsimp only
  rw [if_neg (Int.not_lt.mpr hSocket),
    connect_of_granted hBind hSend]
  exact ⟨rfl, rfl, rfl⟩

/-
  Otherwise no socket stays open: what was opened is closed
  in the end. The reason is in the log.
-/
theorem subscribe_of_denied
    {closed : Int}
    (hClosed : closed < 0)
    (hDenied : ¬ Grants kernel getpid) :
    let fd := (kernel socketCall).ret
    let s := subscribe kernel getpid closed
    s.enabled = false ∧ s.fd < 0 ∧ s.log ≠ [] ∧
      (0 ≤ fd → s.acts.getLast? = some (.close fd)) := by
  intro fd s
  by_cases hSocket : fd < 0
  · have hEq :
        s =
          { acts := [.call socketCall]
            fd := fd
            enabled := false
            log :=
              [⟨"Error '", (kernel socketCall).errno,
                "' creating netlink socket"⟩] } :=
      if_pos hSocket
    rw [hEq]
    exact ⟨rfl, hSocket, List.cons_ne_nil _ _,
      fun hOpen => absurd hOpen (Int.not_le.mpr hSocket)⟩
  · have hOpen := Int.not_lt.mp hSocket
    rcases connect_of_denied
        (fun hBoth => hDenied ⟨hOpen, hBoth⟩) with
      ⟨calls, e, hConnect⟩
    have hEq :
        ∃ log,
          s =
            { acts :=
                [.call socketCall,
                  .call (setsockoptCall fd)] ++
                  calls ++ [.close fd]
              fd := closed
              enabled := false
              log := log ++ [e.line] } := by
      unfold s subscribe
      dsimp only
      rw [if_neg hSocket, hConnect]
      exact ⟨_, rfl⟩
    rcases hEq with ⟨log, hEq⟩
    rw [hEq]
    exact ⟨rfl, hClosed,
      List.append_ne_nil_of_right_ne_nil log
        (List.cons_ne_nil _ _),
      fun _ => List.getLast?_concat⟩

end Netlink

end UdjatProcess
