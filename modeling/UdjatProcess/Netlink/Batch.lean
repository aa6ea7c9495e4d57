import UdjatProcess.Library.Memory
import UdjatProcess.Netlink.Events

/-
  Batches of process events (`linux/netlink.h`,
  `linux/connector.h`, `linux/cn_proc.h` and
  `Controller::handle_event` in `controller/init.cc`).

  The kernel puts each event into a message of full size,
  with all the members of the three nested headers. What the
  handler reads back from such messages are the events that
  were put in, in their order.

  Key definitions include:
    * `Netlink.Message`
    * `Netlink.Message.encode`
    * `Netlink.encodeBatch`
    * `Netlink.applied`

  Key theorems include:
    * `Netlink.u32_of_holds`
    * `Netlink.Message.decode_of_holds`
    * `Netlink.events_of_lies`
    * `Controller.handleDatagram_encodeBatch`
-/

namespace UdjatProcess

open Memory

------------------------------------------------------------
-- Bytes Of Words
------------------------------------------------------------

namespace Netlink

/- The bytes of a number, the lowest first. -/
def le16 (x : UInt16) : List UInt8 :=
  [x.toUInt8, (x >>> 8).toUInt8]

def le32 (x : UInt32) : List UInt8 :=
  le16 x.toUInt16 ++ le16 (x >>> 16).toUInt16

def le64 (x : UInt64) : List UInt8 :=
  le32 x.toUInt32 ++ le32 (x >>> 32).toUInt32

@[simp] theorem length_le16 (x : UInt16) :
    (le16 x).length = 2 := rfl

@[simp] theorem length_le32 (x : UInt32) :
    (le32 x).length = 4 := rfl

@[simp] theorem length_le64 (x : UInt64) :
    (le64 x).length = 8 := rfl

/- A number is its low half and its high half. -/
theorem glue_halves
    {n k : Nat}
    (hBound : n < 2 ^ k * 2 ^ k) :
    n % 2 ^ k |||
        (n >>> k % 2 ^ k) <<< k % (2 ^ k * 2 ^ k) = n := by
  have hLow : n % 2 ^ k < 2 ^ k :=
    Nat.mod_lt n (Nat.two_pow_pos k)
  have hHigh : n / 2 ^ k < 2 ^ k :=
    Nat.div_lt_of_lt_mul hBound
  have hWord : n / 2 ^ k * 2 ^ k < 2 ^ k * 2 ^ k :=
    Nat.mul_lt_mul_of_pos_right hHigh (Nat.two_pow_pos k)
  rw [Nat.shiftRight_eq_div_pow, Nat.mod_eq_of_lt hHigh,
    Nat.shiftLeft_eq, Nat.mod_eq_of_lt hWord, Nat.or_comm,
    ← Nat.shiftLeft_eq, ← Nat.shiftLeft_add_eq_or_of_lt hLow,
    Nat.shiftLeft_eq, Nat.mul_comm]
  exact Nat.div_add_mod n (2 ^ k)

theorem u16_of_holds
    {b : Bytes}
    {a : Nat}
    {x : UInt16}
    (hHolds : Holds b a (le16 x)) :
    u16 b a = x := by
  rcases hHolds with ⟨hLow, hHigh, _⟩
  unfold u16
  rw [hLow, hHigh]
  apply UInt16.toNat_inj.mp
  rw [UInt16.toNat_or, UInt16.toNat_shiftLeft]
  simp only [UInt8.toNat_toUInt16, UInt16.toNat_toUInt8,
    UInt16.toNat_shiftRight, UInt16.reduceToNat,
    Nat.reduceMod]
  exact glue_halves (UInt16.toNat_lt x)

theorem u32_of_holds
    {b : Bytes}
    {a : Nat}
    {x : UInt32}
    (hHolds : Holds b a (le32 x)) :
    u32 b a = x := by
  rcases holds_append_iff.mp hHolds with ⟨hLow, hHigh⟩
  rw [length_le16] at hHigh
  unfold u32
  rw [u16_of_holds hLow, u16_of_holds hHigh]
  apply UInt32.toNat_inj.mp
  rw [UInt32.toNat_or, UInt32.toNat_shiftLeft]
  simp only [UInt16.toNat_toUInt32, UInt32.toNat_toUInt16,
    UInt32.toNat_shiftRight, UInt32.reduceToNat,
    Nat.reduceMod]
  exact glue_halves (UInt32.toNat_lt x)

/- The words of a sequence, one after the other. -/
theorem u32_of_words
    {b : Bytes}
    {a : Nat}
    {ws : List UInt32}
    (hHolds : Holds b a (ws.flatMap le32))
    (i : Nat)
    (hi : i < ws.length) :
    u32 b (a + 4 * i) = ws[i] := by
  induction ws generalizing a i with
  | nil => exact absurd hi (Nat.not_lt_zero i)
  | cons w ws ih =>
      rw [List.flatMap_cons] at hHolds
      rcases holds_append_iff.mp hHolds with ⟨hFirst, hRest⟩
      cases i with
      | zero => exact u32_of_holds hFirst
      | succ i =>
          have hNext : a + 4 * (i + 1) = a + 4 + 4 * i := by
            omega
          rw [hNext]
          exact ih hRest i (Nat.lt_of_succ_lt_succ hi)

end Netlink

------------------------------------------------------------
-- Messages
------------------------------------------------------------

namespace ProcEvent

/- The member `what`. -/
def what : ProcEvent → UInt32
| fork _ _ _ _ => Netlink.procEventFork
| exec _ _ => Netlink.procEventExec
| exit _ _ _ _ => Netlink.procEventExit
| other what _ => what

/- The words of the union that belong to the event. -/
def words : ProcEvent → List UInt32
| fork parentPid parentTgid childPid childTgid =>
    [parentPid.toUInt32, parentTgid.toUInt32,
      childPid.toUInt32, childTgid.toUInt32]
| exec processPid processTgid =>
    [processPid.toUInt32, processTgid.toUInt32]
| exit processPid processTgid exitCode exitSignal =>
    [processPid.toUInt32, processTgid.toUInt32, exitCode,
      exitSignal]
| other _ firstWord => [firstWord.toUInt32]

/- An event of another kind has a code of its own. -/
def Distinct : ProcEvent → Prop
| other what _ =>
    what ≠ Netlink.procEventFork ∧
      what ≠ Netlink.procEventExec ∧
      what ≠ Netlink.procEventExit
| _ => True

end ProcEvent

namespace Netlink

/-
  A message as the kernel fills it in: the members of
  `struct nlmsghdr`, of `struct cn_msg` and of
  `struct proc_event`, but for the two lengths. `rest` are
  the words of the union behind those of the event.
-/
structure Message where
  nlmsgType : UInt16
  nlmsgFlags : UInt16 := 0
  nlmsgSeq : UInt32 := 0
  nlmsgPid : UInt32 := 0
  idx : UInt32 := 1
  val : UInt32 := 1
  seq : UInt32 := 0
  ack : UInt32 := 0
  flags : UInt16 := 0
  cpu : UInt32 := 0
  timestampNs : UInt64 := 0
  event : ProcEvent
  rest : List UInt32
  fills : event.words.length + rest.length = 6
  distinct : event.Distinct

namespace Message

/- The length of a message of full size. -/
def size : Nat :=
  nlmsgLength (cnMsgSize + procEventSize)

/- `struct nlmsghdr`. -/
def nlmsghdr (m : Message) : List UInt8 :=
  le32 (UInt32.ofNat size) ++ le16 m.nlmsgType ++
    le16 m.nlmsgFlags ++ le32 m.nlmsgSeq ++ le32 m.nlmsgPid

/- `struct cn_msg`. -/
def cnMsg (m : Message) : List UInt8 :=
  le32 m.idx ++ le32 m.val ++ le32 m.seq ++ le32 m.ack ++
    le16 (UInt16.ofNat procEventSize) ++ le16 m.flags

/- `struct proc_event`. -/
def procEvent (m : Message) : List UInt8 :=
  le32 m.event.what ++
    (le32 m.cpu ++ le64 m.timestampNs ++
      (m.event.words ++ m.rest).flatMap le32)

/- The bytes of a message. -/
def encode (m : Message) : List UInt8 :=
  m.nlmsghdr ++ m.cnMsg ++ m.procEvent

theorem length_nlmsghdr (m : Message) :
    m.nlmsghdr.length = nlmsgHdrlen := by
  simp [nlmsghdr, nlmsgHdrlen]

theorem length_cnMsg (m : Message) :
    m.cnMsg.length = cnMsgSize := by
  simp [cnMsg, cnMsgSize]

theorem length_flatMap_le32 (ws : List UInt32) :
    (ws.flatMap le32).length = 4 * ws.length := by
  induction ws with
  | nil => rfl
  | cons w ws ih =>
      rw [List.flatMap_cons, List.length_append, ih,
        length_le32, List.length_cons]
      omega

theorem length_encode (m : Message) :
    m.encode.length = size := by
  have hFills := m.fills
  unfold encode procEvent size nlmsgLength
  simp only [List.length_append, length_nlmsghdr,
    length_cnMsg, length_flatMap_le32, length_le32,
    length_le64, hFills]
  unfold procEventSize
  omega

variable {b : Bytes} {nlh : Nat} {m : Message}

/- The header reads back. -/
theorem header_of_holds (hHolds : Holds b nlh m.encode) :
    header b nlh =
      { pos := nlh
        nlmsgLen := UInt32.ofNat size
        nlmsgType := m.nlmsgType } := by
  unfold encode nlmsghdr at hHolds
  simp only [holds_append_iff, List.length_append,
    length_le32, length_le16] at hHolds
  have hLen := u32_of_holds hHolds.1.1.1.1.1.1
  have hType := u16_of_holds hHolds.1.1.1.1.1.2
  unfold header
  rw [hLen, hType]

/- A whole message is left where its bytes are. -/
theorem ok_of_holds
    (hHolds : Holds b nlh m.encode)
    {left : Int}
    (hLeft : size ≤ left) :
    (header b nlh).Ok left := by
  have hLen : (UInt32.ofNat size).toNat = size := rfl
  have hRoom : nlmsgHdrlen ≤ size := by decide
  unfold Header.Ok
  rw [header_of_holds hHolds, hLen]
  exact ⟨Int.le_trans (Int.ofNat_le.mpr hRoom) hLeft, hRoom,
    hLeft⟩

theorem space_of_holds (hHolds : Holds b nlh m.encode) :
    (header b nlh).space = size := by
  have hAligned :
      (nlmsgAlign (UInt32.ofNat size)).toNat = size := by
    decide +kernel
  unfold Header.space
  rw [header_of_holds hHolds]
  exact hAligned

/- So do the code of the event and its words. -/
theorem what_of_holds (hHolds : Holds b nlh m.encode) :
    what b nlh = m.event.what := by
  unfold encode procEvent at hHolds
  simp only [holds_append_iff, List.length_append,
    length_nlmsghdr, length_cnMsg] at hHolds
  exact u32_of_holds hHolds.2.1

theorem eventWord_of_holds
    (hHolds : Holds b nlh m.encode)
    {i : Nat}
    {w : UInt32}
    (hWord : m.event.words[i]? = some w) :
    eventWord b nlh i = w := by
  rcases List.getElem?_eq_some_iff.mp hWord with ⟨hi, hEq⟩
  unfold encode procEvent at hHolds
  simp only [holds_append_iff, List.length_append,
    length_nlmsghdr, length_cnMsg, length_le32,
    length_le64, List.flatMap_append] at hHolds
  rw [← hEq]
  exact u32_of_words hHolds.2.2.2.1 i hi

/- Decoding undoes encoding. -/
theorem decode_of_holds (hHolds : Holds b nlh m.encode) :
    decode b nlh = m.event := by
  have hWhat := what_of_holds hHolds
  have hDistinct := m.distinct
  have hWord :
      ∀ {i : Nat} {pid : Pid},
        m.event.words[i]? = some pid.toUInt32 →
          (eventWord b nlh i).toInt32 = pid := by
    intro i pid hIs
    rw [eventWord_of_holds hHolds hIs]
    exact Int32.toInt32_toUInt32 pid
  unfold decode
  dsimp only
  rw [hWhat]
  cases hEvent : m.event with
  | fork parentPid parentTgid childPid childTgid =>
      rw [hEvent] at hWord
      rw [hWord (i := 0) rfl, hWord (i := 1) rfl,
        hWord (i := 2) rfl, hWord (i := 3) rfl]
      rfl
  | exec processPid processTgid =>
      rw [hEvent] at hWord
      rw [hWord (i := 0) rfl, hWord (i := 1) rfl]
      rfl
  | exit processPid processTgid exitCode exitSignal =>
      have hCode :
          eventWord b nlh 2 = exitCode :=
        eventWord_of_holds hHolds (by rw [hEvent]; rfl)
      have hSignal :
          eventWord b nlh 3 = exitSignal :=
        eventWord_of_holds hHolds (by rw [hEvent]; rfl)
      rw [hEvent] at hWord
      rw [hWord (i := 0) rfl, hWord (i := 1) rfl, hCode,
        hSignal]
      rfl
  | other code firstWord =>
      rw [hEvent] at hWord hDistinct
      rcases hDistinct with ⟨hFork, hExec, hExit⟩
      rw [hWord (i := 0) rfl]
      simp [ProcEvent.what, hFork, hExec, hExit]

/- What the handler does for the event of a message. -/
def apply
    (A : Allocator)
    (links : Links)
    (ctrl : Controller)
    (m : Message) : Controller :=
  match m.event with
  | .exec processPid _ => ctrl.insert A links processPid
  | .exit processPid _ _ _ => ctrl.remove processPid
  | _ => ctrl

end Message

------------------------------------------------------------
-- Batches
------------------------------------------------------------

/-
  Messages one after the other. Their size is a multiple of
  four, so each of them ends where the next one may start.
-/
def encodeBatch (ms : List Message) : List UInt8 :=
  ms.flatMap Message.encode

theorem length_encodeBatch (ms : List Message) :
    (encodeBatch ms).length = Message.size * ms.length := by
  unfold encodeBatch
  induction ms with
  | nil => rfl
  | cons m ms ih =>
      rw [List.flatMap_cons, List.length_append, ih,
        Message.length_encode, List.length_cons, Nat.mul_succ,
        Nat.add_comm]

/-
  The messages up to and including the first of type
  `NLMSG_DONE`, without everything from the first of type
  `NLMSG_ERROR` or `NLMSG_OVERRUN`.
-/
def applied (ms : List Message) : List Message :=
  upToDone Message.nlmsgType
    (ms.takeWhile fun m => !Fails m.nlmsgType)

theorem applied_cons
    (m : Message)
    (ms : List Message) :
    applied (m :: ms) =
      if Fails m.nlmsgType then
        []
      else if m.nlmsgType = nlmsgDone then
        [m]
      else
        m :: applied ms := by
  unfold applied
  by_cases hFails : Fails m.nlmsgType
  · simp [hFails]
  · simp [hFails]

/- Handling the events is what the messages ask for. -/
theorem handleEvents_map
    (A : Allocator)
    (links : Links)
    (ms : List Message)
    (ctrl : Controller) :
    handleEvents A links (ms.map Message.event) ctrl =
      ms.foldl (Message.apply A links) ctrl := by
  unfold handleEvents
  rw [List.foldl_map]
  congr 1
  funext ctrl m
  unfold Controller.handleEvent Message.apply
  cases m.event <;> rfl

/-
  No message of type `NLMSG_NOOP` comes before the first
  that breaks the loop.
-/
def ReadsOn (ms : List Message) : Prop :=
  ∀ m ∈ ms.takeWhile fun m => !Breaks m.nlmsgType,
    m.nlmsgType ≠ nlmsgNoop

instance (ms : List Message) : Decidable (ReadsOn ms) := by
  unfold ReadsOn
  infer_instance

theorem readsOn_of_forall
    {ms : List Message}
    (hTypes : ∀ m ∈ ms, m.nlmsgType ≠ nlmsgNoop) :
    ReadsOn ms :=
  fun m hm => hTypes m (List.takeWhile_subset _ hm)

theorem readsOn_cons
    {m : Message}
    {ms : List Message}
    (hBreaks : ¬ Breaks m.nlmsgType) :
    ReadsOn (m :: ms) ↔
      m.nlmsgType ≠ nlmsgNoop ∧ ReadsOn ms := by
  unfold ReadsOn
  rw [List.takeWhile_cons, if_pos (by simp [hBreaks]),
    List.forall_mem_cons]

/- The rest of a batch, behind its first message. -/
theorem holds_encodeBatch_cons
    {b : Bytes}
    {nlh : Nat}
    {m : Message}
    {ms : List Message} :
    Holds b nlh (encodeBatch (m :: ms)) ↔
      Holds b nlh m.encode ∧
        Holds b (nlh + Message.size) (encodeBatch ms) := by
  unfold encodeBatch
  rw [List.flatMap_cons, holds_append_iff,
    Message.length_encode]

/-
  The messages that lie from `nlh` on, with `left` bytes to
  go, are those of the batch, and no other one follows.
-/
structure Lies
    (b : Bytes)
    (nlh : Nat)
    (left : Int)
    (ms : List Message) : Prop where
  holds : Holds b nlh (encodeBatch ms)
  room : ((Message.size * ms.length : Nat) : Int) ≤ left
  stop :
    ¬ (header b (nlh + Message.size * ms.length)).Ok
      (left - (Message.size * ms.length : Nat))

/- Behind the first message lie the others. -/
theorem Lies.tail
    {b : Bytes}
    {nlh : Nat}
    {left : Int}
    {m : Message}
    {ms : List Message}
    (hLies : Lies b nlh left (m :: ms)) :
    (header b nlh).Ok left ∧
      Lies b (nlh + Message.size) (left - Message.size) ms := by
  rcases hLies with ⟨hHolds, hRoom, hStop⟩
  rw [holds_encodeBatch_cons] at hHolds
  have hLength :
      Message.size * (m :: ms).length =
        Message.size + Message.size * ms.length := by
    rw [List.length_cons, Nat.mul_succ, Nat.add_comm]
  rw [hLength] at hRoom hStop
  push_cast at hRoom hStop
  refine ⟨Message.ok_of_holds hHolds.1 (by omega),
    hHolds.2, ?_, ?_⟩
  · push_cast
    omega
  · rw [Nat.add_assoc, Int.sub_sub]
    push_cast
    exact hStop

/- The loop steps from message to message. -/
theorem headers_of_lies
    {b : Bytes}
    {nlh : Nat}
    {left : Int}
    {m : Message}
    {ms : List Message}
    (hLies : Lies b nlh left (m :: ms))
    (fuel : Nat) :
    headers b (fuel + 1) nlh left =
      ⟨nlh, UInt32.ofNat Message.size, m.nlmsgType⟩ ::
        headers b fuel (nlh + Message.size)
          (left - Message.size) := by
  have hHolds := (holds_encodeBatch_cons.mp hLies.holds).1
  rw [headers_cons hLies.tail.1,
    Message.space_of_holds hHolds,
    Message.header_of_holds hHolds]

/- There is one header for each message. -/
theorem length_headers_of_lies
    {b : Bytes}
    {nlh fuel : Nat}
    {left : Int}
    {ms : List Message}
    (hLies : Lies b nlh left ms)
    (hFuel : ms.length ≤ fuel) :
    (headers b fuel nlh left).length = ms.length := by
  induction ms generalizing fuel nlh left with
  | nil =>
      have hNot : ¬ (header b nlh).Ok left := by
        simpa using hLies.stop
      rw [headers_of_not_ok hNot]
      rfl
  | cons m ms ih =>
      cases fuel with
      | zero => exact absurd hFuel (Nat.not_succ_le_zero _)
      | succ fuel =>
          rw [headers_of_lies hLies, List.length_cons,
            ih hLies.tail.2 (Nat.le_of_succ_le_succ hFuel)]
          rfl

/-
  The events that are read are those of the messages that
  apply.
-/
theorem events_of_lies
    {b : Bytes}
    {nlh fuel : Nat}
    {left : Int}
    {ms : List Message}
    (hReads : ReadsOn ms)
    (hLies : Lies b nlh left ms)
    (hFuel : ms.length ≤ fuel) :
    eventsAt b (headers b fuel nlh left) =
        (applied ms).map Message.event ∧
      nlmsgNoop ∉ typesRead (headers b fuel nlh left) := by
  induction ms generalizing fuel nlh left with
  | nil =>
      have hNot : ¬ (header b nlh).Ok left := by
        simpa using hLies.stop
      rw [headers_of_not_ok hNot]
      exact ⟨rfl, List.not_mem_nil⟩
  | cons m ms ih =>
      cases fuel with
      | zero => exact absurd hFuel (Nat.not_succ_le_zero _)
      | succ fuel =>
          have hDecode : decode b nlh = m.event :=
            Message.decode_of_holds
              (holds_encodeBatch_cons.mp hLies.holds).1
          have hBreaks :
              Breaks m.nlmsgType ↔
                Fails m.nlmsgType ∨
                  m.nlmsgType = nlmsgDone :=
            or_assoc.symm
          rw [headers_of_lies hLies, eventsAt_cons,
            typesRead_cons, applied_cons]
          dsimp only
          rw [hDecode]
          by_cases hFails : Fails m.nlmsgType
          · rw [if_pos (Or.inr hFails), if_pos hFails,
              if_pos (hBreaks.mpr (Or.inl hFails))]
            exact ⟨rfl, List.not_mem_nil⟩
          by_cases hDone : m.nlmsgType = nlmsgDone
          · have hRead : m.nlmsgType ≠ nlmsgNoop := by
              rw [hDone]
              decide
            rw [if_neg (not_or.mpr ⟨hRead, hFails⟩),
              if_neg hFails, if_pos hDone, if_pos hDone,
              if_pos (hBreaks.mpr (Or.inr hDone))]
            exact ⟨rfl, List.not_mem_nil⟩
          · have hGoesOn : ¬ Breaks m.nlmsgType := fun hIs =>
              (hBreaks.mp hIs).elim hFails hDone
            rw [readsOn_cons hGoesOn] at hReads
            have hRest :=
              ih hReads.2 hLies.tail.2
                (Nat.le_of_succ_le_succ hFuel)
            rw [if_neg (not_or.mpr ⟨hReads.1, hFails⟩),
              if_neg hFails, if_neg hDone, if_neg hDone,
              if_neg hGoesOn, hRest.1, List.mem_cons, not_or]
            exact ⟨rfl, Ne.symm hReads.1, hRest.2⟩

end Netlink

------------------------------------------------------------
-- Datagrams
------------------------------------------------------------

/-
  The events of a datagram of the kernel in which messages
  lie are theirs.
-/
theorem Netlink.Datagram.events_of_lies
    (beyond : Bytes)
    {d : Datagram}
    {ms : List Message}
    (hKernel : d.nlPid = 0)
    (hReads : ReadsOn ms)
    (hLies :
      Lies (d.buffer beyond) 0 d.bytes.length ms) :
    d.events beyond = (applied ms).map Message.event ∧
      nlmsgNoop ∉ typesRead d.messages ∧
      d.messages.length = ms.length := by
  have hRoom : Message.size * ms.length ≤ d.bytes.length :=
    Int.ofNat_le.mp hLies.room
  have hFuel : ms.length ≤ d.bytes.length :=
    Nat.le_trans
      (Nat.le_mul_of_pos_left _ (by decide)) hRoom
  have hEvents := Netlink.events_of_lies hReads hLies hFuel
  have hLength := length_headers_of_lies hLies hFuel
  rw [d.headers_buffer] at hEvents hLength
  refine ⟨?_, hEvents.2, hLength⟩
  unfold Datagram.events
  by_cases hAccepted : d.Accepted
  · rw [if_pos hAccepted]
    exact hEvents.1
  · have hEmpty : d.bytes.length = 0 := by
      by_contra hSome
      exact hAccepted ⟨Nat.pos_of_ne_zero hSome, hKernel⟩
    have hNone : ms = [] := by
      rw [hEmpty] at hFuel
      exact List.length_eq_zero_iff.mp (Nat.le_zero.mp hFuel)
    rw [if_neg hAccepted, hNone]
    rfl

namespace Controller

open Netlink

/- The handler does what they ask for, and nothing else. -/
theorem handleDatagram_of_lies
    (A : Allocator)
    (links : Links)
    {beyond : Bytes}
    {d : Datagram}
    {ms : List Message}
    (hKernel : d.nlPid = 0)
    (hReads : ReadsOn ms)
    (hLies :
      Lies (d.buffer beyond) 0 d.bytes.length ms)
    {fuel : Nat}
    (hFuel : ms.length < fuel)
    (self : Controller) :
    self.handleDatagram A links beyond (.ok d) fuel =
      some ((applied ms).foldl (Message.apply A links)
        self) := by
  rcases Datagram.events_of_lies beyond hKernel hReads
      hLies with
    ⟨hEvents, hReturns, hLength⟩
  rw [handleDatagram_events A links beyond
    (fun _ => hReturns) (hLength ▸ hFuel), hEvents]
  exact congrArg some (handleEvents_map A links _ self)

/-
  For every batch of events in messages of full size that
  fits the buffer, `handle_event` inserts the process of
  each `PROC_EVENT_EXEC` and removes that of each
  `PROC_EVENT_EXIT`, in their order, and does nothing else.
-/
theorem handleDatagram_encodeBatch
    (A : Allocator)
    (links : Links)
    (beyond : Bytes)
    {ms : List Message}
    (hTypes : ∀ m ∈ ms, m.nlmsgType ≠ nlmsgNoop)
    (hFits : (encodeBatch ms).length ≤ buffSize)
    {fuel : Nat}
    (hFuel : ms.length < fuel)
    (self : Controller) :
    self.handleDatagram A links beyond
        (.ok ⟨0, encodeBatch ms, hFits⟩) fuel =
      some ((applied ms).foldl (Message.apply A links)
        self) := by
  have hLies :
      Lies (Datagram.buffer beyond ⟨0, encodeBatch ms, hFits⟩)
        0 (encodeBatch ms).length ms := by
    refine ⟨?_, ?_, ?_⟩
    · apply (holds_getD [] _ fun _ => 0).congr
      intro i _ hi
      have hInside : i < buffSize := by
        simp only [List.length_nil] at hi
        omega
      exact (if_pos hInside).symm
    · exact Int.ofNat_le.mpr (length_encodeBatch ms).ge
    · rw [length_encodeBatch, Int.sub_self]
      exact fun hOk => absurd hOk.1 (by decide)
  exact handleDatagram_of_lies A links rfl
    (readsOn_of_forall hTypes) hLies hFuel self

/-
  Process 5 execs and exits in one datagram, and the message
  behind the last one is not read.
-/
theorem handleDatagram_encodeBatch_sample :
    let exec : Message :=
      { nlmsgType := 0
        event := .exec 5 5
        rest := [0, 0, 0, 0]
        fills := rfl
        distinct := trivial }
    let exit : Message :=
      { nlmsgType := nlmsgDone
        event := .exit 5 5 0 17
        rest := [0, 0]
        fills := rfl
        distinct := trivial }
    emptyController.handleDatagram (.above [])
        (fun _ => none) (fun _ => 0)
        (.ok
          { nlPid := 0
            bytes := encodeBatch [exec, exit, exec]
            fits := by
              rw [length_encodeBatch]
              decide })
        4 =
      some ((emptyController.insert (.above [])
        (fun _ => none) 5).remove 5) := by
  intro exec exit
  have hTypes :
      ∀ m ∈ [exec, exit, exec], m.nlmsgType ≠ nlmsgNoop := by
    decide
  exact handleDatagram_encodeBatch (.above [])
    (fun _ => none) (fun _ => 0) hTypes _ (by decide)
    emptyController

end Controller

end UdjatProcess
