import Mathlib.Data.Nat.Bitwise
import UdjatProcess.Controller.Events

/-
  Datagrams of the process connector, byte by byte
  (`linux/netlink.h`, `linux/connector.h` and
  `linux/cn_proc.h`).

  A datagram is a sequence of messages, each with a header
  that says how long it is. The macros of `netlink.h` step
  from header to header as long as a whole message is left.
  The layouts are those of a little-endian LP64 target.

  Key definitions include:
    * `Netlink.Datagram`
    * `Netlink.Header`
    * `Netlink.Header.Ok`
    * `Netlink.headers`
    * `Netlink.decode`

  Key theorems include:
    * `Netlink.nlmsgAlign_toNat`
    * `Netlink.Header.Ok.space`
    * `Netlink.headers_congr`
-/

namespace UdjatProcess

namespace Netlink

------------------------------------------------------------
-- Sizes
------------------------------------------------------------

/- `sizeof(struct nlmsghdr)` and `NLMSG_HDRLEN`. -/
def nlmsgHdrlen : Nat := 16

/- `sizeof(struct cn_msg)`. -/
def cnMsgSize : Nat := 20

/- `sizeof(struct proc_event)`. -/
def procEventSize : Nat := 40

/- `NLMSG_LENGTH`. -/
def nlmsgLength (len : Nat) : Nat :=
  len + nlmsgHdrlen

/- `NLMSG_SPACE`. -/
def nlmsgSpace (len : Nat) : Nat :=
  (nlmsgLength len + 3) / 4 * 4

/- `SEND_MESSAGE_SIZE`, with an enumeration as the data. -/
def sendMessageSize : Nat :=
  nlmsgSpace (nlmsgLength (cnMsgSize + 4))

/- `RECV_MESSAGE_SIZE`. -/
def recvMessageSize : Nat :=
  nlmsgSpace (nlmsgLength (cnMsgSize + procEventSize))

/- `BUFF_SIZE`. -/
def buffSize : Nat :=
  max (max sendMessageSize recvMessageSize) 1024

theorem buffSize_eq : buffSize = 1024 := by decide

------------------------------------------------------------
-- Words
------------------------------------------------------------

/- Memory from the start of the receive buffer. -/
abbrev Bytes := Nat → UInt8

/- The two bytes at an address as a number. -/
def u16 (b : Bytes) (a : Nat) : UInt16 :=
  (b a).toUInt16 ||| ((b (a + 1)).toUInt16 <<< 8)

/- The four bytes at an address as a number. -/
def u32 (b : Bytes) (a : Nat) : UInt32 :=
  (u16 b a).toUInt32 ||| ((u16 b (a + 2)).toUInt32 <<< 16)

theorem u16_congr
    {b b' : Bytes}
    {a : Nat}
    (hFirst : b a = b' a)
    (hSecond : b (a + 1) = b' (a + 1)) :
    u16 b a = u16 b' a := by
  unfold u16
  rw [hFirst, hSecond]

theorem u32_congr
    {b b' : Bytes}
    {a : Nat}
    (hSame : ∀ i < 4, b (a + i) = b' (a + i)) :
    u32 b a = u32 b' a := by
  have hLow : u16 b a = u16 b' a :=
    u16_congr (hSame 0 (by decide)) (hSame 1 (by decide))
  have hHigh : u16 b (a + 2) = u16 b' (a + 2) :=
    u16_congr (hSame 2 (by decide)) (hSame 3 (by decide))
  unfold u32
  rw [hLow, hHigh]

/- Clearing the two lowest bits. -/
theorem and_clear_eq
    {n : Nat}
    (hBound : n < 2 ^ 32) :
    n &&& (2 ^ 32 - 4) = n / 4 * 4 := by
  have hMask :
      ∀ i, (2 ^ 32 - 4).testBit i =
        (decide (2 ≤ i) && decide (i - 2 < 30)) := by
    intro i
    have hShift : 2 ^ 32 - 4 = (2 ^ 30 - 1) <<< 2 := by
      decide
    rw [hShift, Nat.testBit_shiftLeft,
      Nat.testBit_two_pow_sub_one]
  have hCleared : n / 4 * 4 = (n >>> 2) <<< 2 := by
    rw [Nat.shiftRight_eq_div_pow, Nat.shiftLeft_eq]
  rw [hCleared]
  apply Nat.eq_of_testBit_eq
  intro i
  rw [Nat.testBit_and, Nat.testBit_shiftLeft,
    Nat.testBit_shiftRight, hMask]
  by_cases hLow : 2 ≤ i
  · have hIndex : 2 + (i - 2) = i := Nat.add_sub_of_le hLow
    rw [hIndex]
    by_cases hHigh : i - 2 < 30
    · simp [hLow, hHigh]
    · have hLarge : 2 ^ 32 ≤ 2 ^ i :=
        Nat.pow_le_pow_right (by decide) (by omega)
      have hZero : n.testBit i = false :=
        Nat.testBit_lt_two_pow (hBound.trans_le hLarge)
      simp [hZero]
  · simp [hLow]

/- `NLMSG_ALIGN` of an `__u32`. -/
def nlmsgAlign (len : UInt32) : UInt32 :=
  (len + 4 - 1) &&& ~~~(4 - 1)

/- It rounds up to the next multiple of four. -/
theorem nlmsgAlign_toNat
    {len : UInt32}
    (hBound : len.toNat + 3 < 2 ^ 32) :
    (nlmsgAlign len).toNat = (len.toNat + 3) / 4 * 4 := by
  have hThree : len + 4 - 1 = len + 3 := by
    rw [UInt32.sub_eq_add_neg, UInt32.add_assoc]
    rfl
  have hSum : (len + 3).toNat = len.toNat + 3 := by
    rw [UInt32.toNat_add]
    exact Nat.mod_eq_of_lt hBound
  unfold nlmsgAlign
  rw [hThree, UInt32.toNat_and, hSum]
  exact and_clear_eq hBound

------------------------------------------------------------
-- Headers
------------------------------------------------------------

/-
  A message header: where it is and its members
  `nlmsg_len` and `nlmsg_type`.
-/
structure Header where
  pos : Nat
  nlmsgLen : UInt32
  nlmsgType : UInt16
deriving DecidableEq

def nlmsgNoop : UInt16 := 1
def nlmsgError : UInt16 := 2
def nlmsgDone : UInt16 := 3
def nlmsgOverrun : UInt16 := 4

/- The header that `nlh` points to. -/
def header (b : Bytes) (nlh : Nat) : Header where
  pos := nlh
  nlmsgLen := u32 b nlh
  nlmsgType := u16 b (nlh + 4)

namespace Header

/- `NLMSG_OK`, with the bytes that are left. -/
def Ok (len : Int) (h : Header) : Prop :=
  (nlmsgHdrlen : Int) ≤ len ∧
    nlmsgHdrlen ≤ h.nlmsgLen.toNat ∧
    (h.nlmsgLen.toNat : Int) ≤ len

instance (len : Int) (h : Header) :
    Decidable (h.Ok len) := by
  unfold Ok
  infer_instance

/- What `NLMSG_NEXT` moves on by. -/
def space (h : Header) : Nat :=
  (nlmsgAlign h.nlmsgLen).toNat

/-
  A message takes at least its header, and not more than is
  left but for the padding.
-/
theorem Ok.space
    {len : Int}
    {h : Header}
    (hOk : h.Ok len)
    (hBound : len ≤ buffSize) :
    nlmsgHdrlen ≤ h.space ∧ (h.space : Int) < len + 4 := by
  rcases hOk with ⟨hLen, hHeader, hLeft⟩
  rw [buffSize_eq] at hBound
  have hSmall : h.nlmsgLen.toNat + 3 < 2 ^ 32 := by omega
  unfold Header.space
  rw [nlmsgAlign_toNat hSmall]
  omega

end Header

/-
  The headers that the macros step through, at most so many,
  from `nlh` on with `len` bytes left.
-/
def headers (b : Bytes) : Nat → Nat → Int → List Header
| 0, _, _ => []
| fuel + 1, nlh, len =>
    let h := header b nlh
    if h.Ok len then
      h :: headers b fuel (nlh + h.space) (len - h.space)
    else
      []

theorem headers_cons
    {b : Bytes}
    {nlh : Nat}
    {len : Int}
    (hOk : (header b nlh).Ok len)
    (fuel : Nat) :
    headers b (fuel + 1) nlh len =
      header b nlh ::
        headers b fuel (nlh + (header b nlh).space)
          (len - (header b nlh).space) := by
  rw [headers]
  exact if_pos hOk

theorem headers_of_not_ok
    {b : Bytes}
    {nlh : Nat}
    {len : Int}
    (hNot : ¬ (header b nlh).Ok len)
    (fuel : Nat) :
    headers b fuel nlh len = [] := by
  cases fuel with
  | zero => rfl
  | succ fuel =>
      rw [headers]
      exact if_neg hNot

/- As many steps as bytes are left are enough. -/
theorem headers_of_le
    (b : Bytes)
    {fuel fuel' nlh : Nat}
    {len : Int}
    (hBound : len ≤ buffSize)
    (hFuel : len.toNat ≤ fuel)
    (hFuel' : len.toNat ≤ fuel') :
    headers b fuel nlh len = headers b fuel' nlh len := by
  induction fuel generalizing fuel' nlh len with
  | zero =>
      have hNot : ¬ (header b nlh).Ok len := by
        intro hOk
        have hRoom := hOk.1
        unfold nlmsgHdrlen at hRoom
        omega
      rw [headers_of_not_ok hNot, headers_of_not_ok hNot]
  | succ fuel ih =>
      by_cases hOk : (header b nlh).Ok len
      · have hSpace := hOk.space hBound
        have hRoom := hOk.1
        unfold nlmsgHdrlen at hSpace hRoom
        cases fuel' with
        | zero => omega
        | succ fuel' =>
            rw [headers_cons hOk, headers_cons hOk]
            congr 1
            apply ih
            · omega
            · omega
            · omega
      · rw [headers_of_not_ok hOk, headers_of_not_ok hOk]

/- Each message ends where the bytes that are left end. -/
theorem end_le_of_mem_headers
    {b : Bytes}
    {fuel nlh : Nat}
    {len : Int}
    {h : Header}
    (hMem : h ∈ headers b fuel nlh len) :
    (h.pos : Int) + h.nlmsgLen.toNat ≤ nlh + len := by
  induction fuel generalizing nlh len with
  | zero => cases hMem
  | succ fuel ih =>
      by_cases hOk : (header b nlh).Ok len
      · rw [headers_cons hOk] at hMem
        rcases List.mem_cons.mp hMem with hEq | hRest
        · have hLeft := hOk.2.2
          have hPos : (header b nlh).pos = nlh := rfl
          rw [hEq, hPos]
          omega
        · have hEnd := ih hRest
          push_cast at hEnd
          omega
      · rw [headers_of_not_ok hOk] at hMem
        cases hMem

/- They depend on the bytes that are left only. -/
theorem headers_congr
    {b b' : Bytes}
    {bound : Int}
    (hSame : ∀ i : Nat, (i : Int) < bound → b i = b' i)
    (fuel nlh : Nat)
    {len : Int}
    (hLeft : nlh + len ≤ bound) :
    headers b fuel nlh len = headers b' fuel nlh len := by
  induction fuel generalizing nlh len with
  | zero => rfl
  | succ fuel ih =>
      by_cases hRoom : (nlmsgHdrlen : Int) ≤ len
      · have hBytes :
            ∀ i < 6, b (nlh + i) = b' (nlh + i) := by
          intro i hi
          apply hSame
          unfold nlmsgHdrlen at hRoom
          omega
        have hHeader : header b nlh = header b' nlh := by
          have hLen : u32 b nlh = u32 b' nlh :=
            u32_congr fun i hi => hBytes i (by omega)
          have hType : u16 b (nlh + 4) = u16 b' (nlh + 4) :=
            u16_congr (hBytes 4 (by decide))
              (hBytes 5 (by decide))
          unfold header
          rw [hLen, hType]
        unfold headers
        simp only [hHeader]
        split
        · rw [ih]
          push_cast
          omega
        · rfl
      · have hNot : ∀ h : Header, ¬ h.Ok len :=
          fun h hOk => hRoom hOk.1
        unfold headers
        simp only [if_neg (hNot _)]

------------------------------------------------------------
-- Datagrams
------------------------------------------------------------

/-
  What `recvfrom` delivers: the port of the sender and the
  bytes, as many as the buffer has room for at most.
-/
structure Datagram where
  nlPid : UInt32
  bytes : List UInt8
  fits : bytes.length ≤ buffSize

namespace Datagram

/- `handle_event` goes on to read the messages. -/
def Accepted (d : Datagram) : Prop :=
  1 ≤ d.bytes.length ∧ d.nlPid = 0

instance (d : Datagram) : Decidable d.Accepted := by
  unfold Accepted
  infer_instance

/-
  Memory after the datagram is received: the buffer was
  cleared before, and what lies beyond it is not known.
-/
def buffer (beyond : Bytes) (d : Datagram) : Bytes :=
  fun i => if i < buffSize then d.bytes.getD i 0 else beyond i

/- The messages of a datagram. -/
def messages (d : Datagram) : List Header :=
  headers (fun i => d.bytes.getD i 0) d.bytes.length 0
    d.bytes.length

/- They do not depend on what lies beyond the buffer. -/
theorem headers_buffer
    (beyond : Bytes)
    (d : Datagram) :
    headers (d.buffer beyond) d.bytes.length 0
        d.bytes.length = d.messages := by
  have hSame :
      ∀ i : Nat, (i : Int) < d.bytes.length →
        d.buffer beyond i = d.bytes.getD i 0 := by
    intro i hi
    have hFits := d.fits
    have hInside : i < buffSize := by omega
    exact if_pos hInside
  exact headers_congr hSame d.bytes.length 0 (by simp)

end Datagram

------------------------------------------------------------
-- Events
------------------------------------------------------------

def procEventFork : UInt32 := 1
def procEventExec : UInt32 := 2
def procEventExit : UInt32 := 0x80000000

/- Where the `struct proc_event` of a message starts. -/
def evOffset : Nat := nlmsgHdrlen + cnMsgSize

/- `ev->what`. -/
def what (b : Bytes) (nlh : Nat) : UInt32 :=
  u32 b (nlh + evOffset)

/- The words of the union `ev->event_data`. -/
def eventWord (b : Bytes) (nlh i : Nat) : UInt32 :=
  u32 b (nlh + evOffset + 16 + 4 * i)

/- `ev->event_data.exec.process_pid`. -/
def processPid (b : Bytes) (nlh : Nat) : Pid :=
  (eventWord b nlh 0).toInt32

/- The event that a message holds, with all of its words. -/
def decode (b : Bytes) (nlh : Nat) : ProcEvent :=
  let pid (i : Nat) : Pid := (eventWord b nlh i).toInt32
  if what b nlh = procEventExec then
    .exec (pid 0) (pid 1)
  else if what b nlh = procEventExit then
    .exit (pid 0) (pid 1) (eventWord b nlh 2)
      (eventWord b nlh 3)
  else if what b nlh = procEventFork then
    .fork (pid 0) (pid 1) (pid 2) (pid 3)
  else
    .other (what b nlh) (pid 0)

end Netlink

end UdjatProcess
