import UdjatProcess.Library.Memory
import UdjatProcess.Netlink.Receive

/-
  The bytes that the handler reads of an event
  (`Controller::handle_event` in `controller/init.cc`).

  `NLMSG_OK` makes sure of the netlink header and of the
  length in it. The event lies behind two more headers, and
  whether the message is long enough for it is not looked
  at, so the event of a short message is made of what comes
  after the message.

  Key definitions include:
    * `Netlink.readEvent`
    * `Netlink.eventReads`
    * `Controller.ReadsReceived`
    * `Netlink.Header.Complete`

  Key theorems include:
    * `Netlink.value_readEvent`
    * `Netlink.body_congr`
    * `Netlink.visits_inside_iff`
    * `Controller.readsReceived_iff`
    * `Controller.event_unreceived`
-/

namespace UdjatProcess

open Memory

------------------------------------------------------------
-- Reading An Event
------------------------------------------------------------

namespace Netlink

/- `u16` and `u32`, byte by byte. -/
def peek16 (a : Nat) : Prog Nat UInt8 UInt16 :=
  .peek a fun low => .peek (a + 1) fun high =>
    .ret (low.toUInt16 ||| (high.toUInt16 <<< 8))

def peek32 (a : Nat) : Prog Nat UInt8 UInt32 :=
  (peek16 a).bind fun (low : UInt16) =>
    (peek16 (a + 2)).map fun (high : UInt16) =>
      low.toUInt32 ||| (high.toUInt32 <<< 16)

/- The switch on the event, with the members it looks at. -/
def readEvent
    (A : Allocator)
    (links : Links)
    (nlh : Nat)
    (ctrl : Controller) : Prog Nat UInt8 Controller :=
  (peek32 (nlh + evOffset)).bind fun what =>
    if what = procEventExec then
      (peek32 (nlh + evOffset + 16)).map fun processPid =>
        ctrl.insert A links processPid.toInt32
    else if what = procEventExit then
      (peek32 (nlh + evOffset + 16)).map fun processPid =>
        ctrl.remove processPid.toInt32
    else
      .ret ctrl

/- What one turn of the loop reads through `ev`. -/
def eventReads
    (A : Allocator)
    (links : Links)
    (b : Bytes)
    (s : Scan) : List Nat :=
  let h := header b s.nlh
  if h.Ok s.recvLen then
    if h.nlmsgType = nlmsgNoop then
      []
    else if h.nlmsgType = nlmsgError ∨
        h.nlmsgType = nlmsgOverrun then
      []
    else
      (readEvent A links s.nlh s.ctrl).reads b
  else
    []

theorem value_peek32
    (b : Bytes)
    (a : Nat) :
    (peek32 a).value b = u32 b a := by
  unfold peek32
  rw [Prog.value_bind, Prog.value_map]
  rfl

theorem mem_reads_peek32_iff
    (b : Bytes)
    (a i : Nat) :
    i ∈ (peek32 a).reads b ↔ a ≤ i ∧ i < a + 4 := by
  have hReads :
      (peek32 a).reads b = [a, a + 1, a + 2, a + 3] := by
    unfold peek32
    rw [Prog.reads_bind, Prog.reads_map]
    rfl
  rw [hReads]
  simp only [List.mem_cons, List.not_mem_nil, or_false]
  omega

/- The event is one of a process that starts or ends. -/
def ChangesList (what : UInt32) : Prop :=
  what = procEventExec ∨ what = procEventExit

instance (what : UInt32) : Decidable (ChangesList what) := by
  unfold ChangesList
  infer_instance

/- The program computes what the switch does. -/
theorem value_readEvent
    (A : Allocator)
    (links : Links)
    (b : Bytes)
    (nlh : Nat)
    (ctrl : Controller) :
    (readEvent A links nlh ctrl).value b =
      processMessage A links b nlh ctrl := by
  have hWhat : u32 b (nlh + evOffset) = what b nlh := rfl
  unfold readEvent processMessage
  rw [Prog.value_bind, value_peek32, hWhat]
  split
  · rw [Prog.value_map, value_peek32]
    rfl
  · split
    · rw [Prog.value_map, value_peek32]
      rfl
    · rfl

/- It looks at `what`, and at `process_pid` if need be. -/
theorem mem_reads_readEvent_iff
    (A : Allocator)
    (links : Links)
    (b : Bytes)
    (nlh : Nat)
    (ctrl : Controller)
    (i : Nat) :
    i ∈ (readEvent A links nlh ctrl).reads b ↔
      (nlh + evOffset ≤ i ∧ i < nlh + evOffset + 4) ∨
        ChangesList (what b nlh) ∧
          nlh + evOffset + 16 ≤ i ∧
          i < nlh + evOffset + 20 := by
  have hReads :
      (readEvent A links nlh ctrl).reads b =
        (peek32 (nlh + evOffset)).reads b ++
          if ChangesList (what b nlh) then
            (peek32 (nlh + evOffset + 16)).reads b
          else
            [] := by
    have hWhat : u32 b (nlh + evOffset) = what b nlh := rfl
    unfold readEvent ChangesList
    rw [Prog.reads_bind, value_peek32, hWhat]
    by_cases hExec : what b nlh = procEventExec
    · simp [hExec]
    · by_cases hExit : what b nlh = procEventExit
      · have hNe : procEventExit ≠ procEventExec := by decide
        simp [hExit, hNe]
      · simp [hExec, hExit, Prog.reads]
  rw [hReads, List.mem_append]
  apply or_congr
  · exact mem_reads_peek32_iff b _ i
  · by_cases hChanges : ChangesList (what b nlh)
    · rw [if_pos hChanges, mem_reads_peek32_iff]
      exact (and_iff_right hChanges).symm
    · rw [if_neg hChanges]
      exact iff_of_false List.not_mem_nil
        fun hRight => hChanges hRight.1

------------------------------------------------------------
-- Turns
------------------------------------------------------------

/-
  The turn reads its event from the bytes of the message,
  which have all been received.
-/
def Inside
    (A : Allocator)
    (links : Links)
    (b : Bytes)
    (received : Nat)
    (s : Scan) : Prop :=
  ∀ i ∈ eventReads A links b s,
    s.nlh ≤ i ∧
      i < s.nlh + (header b s.nlh).nlmsgLen.toNat ∧
      i < received

/-
  The message is long enough for `what`, and for
  `process_pid` if the event has one that is read.
-/
def Header.Complete (b : Bytes) (h : Header) : Prop :=
  evOffset + 4 ≤ h.nlmsgLen.toNat ∧
    (ChangesList (what b h.pos) →
      evOffset + 20 ≤ h.nlmsgLen.toNat)

instance (b : Bytes) (h : Header) :
    Decidable (h.Complete b) := by
  unfold Header.Complete
  infer_instance

/-
  The messages whose event is read: those up to and
  including the first of type `NLMSG_DONE`, without
  everything from the first that is not read.
-/
def eventHeaders (hs : List Header) : List Header :=
  upToDone Header.nlmsgType
    (hs.takeWhile fun h =>
      h.nlmsgType != nlmsgNoop && !Fails h.nlmsgType)

theorem eventHeaders_cons
    (h : Header)
    (hs : List Header) :
    eventHeaders (h :: hs) =
      if h.nlmsgType = nlmsgNoop ∨ Fails h.nlmsgType then
        []
      else if h.nlmsgType = nlmsgDone then
        [h]
      else
        h :: eventHeaders hs := by
  unfold eventHeaders
  by_cases hNoop : h.nlmsgType = nlmsgNoop
  · simp [hNoop]
  · by_cases hFails : Fails h.nlmsgType
    · simp [hFails]
    · simp [hNoop, hFails]

theorem mem_of_mem_eventHeaders
    {h : Header}
    {hs : List Header}
    (hMem : h ∈ eventHeaders hs) :
    h ∈ hs := by
  unfold eventHeaders upToDone at hMem
  apply List.takeWhile_subset _
  rcases List.mem_append.mp hMem with hBefore | hDone
  · exact List.takeWhile_subset _ hBefore
  · exact List.dropWhile_subset _ (List.mem_of_mem_take hDone)

variable {A : Allocator} {links : Links}
variable {b : Bytes} {s : Scan} {received : Nat}

/- A turn that reads no event reads nothing through `ev`. -/
theorem inside_of_not_read
    (hNot :
      (header b s.nlh).Ok s.recvLen →
        (header b s.nlh).nlmsgType = nlmsgNoop ∨
          Fails (header b s.nlh).nlmsgType) :
    Inside A links b received s := by
  have hNone : eventReads A links b s = [] := by
    unfold eventReads
    dsimp only
    split
    · next hOk =>
      split
      · rfl
      · next hNoop =>
        exact if_pos ((hNot hOk).resolve_left hNoop)
    · rfl
  intro i hi
  rw [hNone] at hi
  cases hi

theorem eventReads_of_read
    (A : Allocator)
    (links : Links)
    (hOk : (header b s.nlh).Ok s.recvLen)
    (hNoop : (header b s.nlh).nlmsgType ≠ nlmsgNoop)
    (hReads : ¬ Fails (header b s.nlh).nlmsgType) :
    eventReads A links b s =
      (readEvent A links s.nlh s.ctrl).reads b := by
  unfold eventReads
  rw [if_pos hOk, if_neg hNoop]
  exact if_neg hReads

/- One that does stays inside if the message is complete. -/
theorem inside_iff_complete
    (hOk : (header b s.nlh).Ok s.recvLen)
    (hNoop : (header b s.nlh).nlmsgType ≠ nlmsgNoop)
    (hReads : ¬ Fails (header b s.nlh).nlmsgType)
    (hLeft : (s.nlh : Int) + s.recvLen = received) :
    Inside A links b received s ↔
      (header b s.nlh).Complete b := by
  have hEvent := eventReads_of_read A links hOk hNoop hReads
  have hPos : (header b s.nlh).pos = s.nlh := rfl
  have hRoom := hOk.2.2
  unfold Inside Header.Complete
  rw [hEvent, hPos]
  simp only [mem_reads_readEvent_iff]
  constructor
  · intro hInside
    constructor
    · have hLast :=
        (hInside (s.nlh + evOffset + 3) (Or.inl (by omega))).2.1
      omega
    · intro hChanges
      have hLast :=
        (hInside (s.nlh + evOffset + 19)
          (Or.inr ⟨hChanges, by omega⟩)).2.1
      omega
  · rintro ⟨hWhat, hPid⟩ i (hIn | ⟨hChanges, hIn⟩)
    · omega
    · have hLong := hPid hChanges
      omega

/-
  The turns of the loop stay inside their messages if and
  only if the messages whose event is read are complete.
-/
theorem visits_inside_iff
    (A : Allocator)
    (links : Links)
    (fuel : Nat)
    (hLeft : (s.nlh : Int) + s.recvLen = received) :
    (∀ s' ∈ Loop.visits (body A links b) fuel s,
        Inside A links b received s') ↔
      ∀ h ∈ eventHeaders (headers b fuel s.nlh s.recvLen),
        h.Complete b := by
  induction fuel generalizing s with
  | zero =>
      exact iff_of_true (List.forall_mem_nil _)
        (List.forall_mem_nil _)
  | succ fuel ih =>
      rcases body_cases A links b s with
        ⟨hNot, hBody⟩ | ⟨hOk, hNoop, hBody⟩ |
          ⟨hOk, hBreaks, s', hBody⟩ |
          ⟨hOk, hNoop, hBreaks, hBody⟩
      · have hHeaders :
            headers b (fuel + 1) s.nlh s.recvLen = [] := by
          unfold headers
          exact if_neg hNot
        rw [Loop.visits_of_done hBody, hHeaders,
          List.forall_mem_singleton]
        exact iff_of_true
          (inside_of_not_read fun hOk => absurd hOk hNot)
          (List.forall_mem_nil _)
      · rw [headers_cons hOk, eventHeaders_cons,
          if_pos (Or.inl hNoop)]
        refine iff_of_true ?_ (List.forall_mem_nil _)
        intro s' hs'
        rw [Loop.eq_of_mem_visits_again_self hBody hs']
        exact inside_of_not_read fun _ => Or.inl hNoop
      · rw [Loop.visits_of_done hBody,
          List.forall_mem_singleton, headers_cons hOk,
          eventHeaders_cons]
        by_cases hFails : Fails (header b s.nlh).nlmsgType
        · rw [if_pos (Or.inr hFails)]
          exact iff_of_true
            (inside_of_not_read fun _ => Or.inr hFails)
            (List.forall_mem_nil _)
        · have hDone :
              (header b s.nlh).nlmsgType = nlmsgDone :=
            (or_assoc.mpr hBreaks).resolve_left hFails
          have hNoop :
              (header b s.nlh).nlmsgType ≠ nlmsgNoop := by
            rw [hDone]
            decide
          rw [if_neg (not_or.mpr ⟨hNoop, hFails⟩),
            if_pos hDone, List.forall_mem_singleton]
          exact inside_iff_complete hOk hNoop hFails hLeft
      · have hFails : ¬ Fails (header b s.nlh).nlmsgType :=
          fun hIs => hBreaks (or_assoc.mp (Or.inl hIs))
        have hNext :
            (header b s.nlh).nlmsgType ≠ nlmsgDone :=
          fun hIs => hBreaks (Or.inr (Or.inr hIs))
        rw [Loop.visits_of_again hBody, headers_cons hOk,
          eventHeaders_cons,
          if_neg (not_or.mpr ⟨hNoop, hFails⟩), if_neg hNext,
          List.forall_mem_cons, List.forall_mem_cons]
        apply and_congr
        · exact inside_iff_complete hOk hNoop hFails hLeft
        · apply ih
          push_cast
          omega

/-
  A turn that stays inside its message does the same on any
  memory with the same received bytes.
-/
theorem body_congr
    {b' : Bytes}
    (hSame : ∀ i < received, b i = b' i)
    (hLeft : (s.nlh : Int) + s.recvLen = received)
    (hInside : Inside A links b received s) :
    body A links b s = body A links b' s := by
  by_cases hRoom : (nlmsgHdrlen : Int) ≤ s.recvLen
  · have hHeader : header b s.nlh = header b' s.nlh := by
      unfold nlmsgHdrlen at hRoom
      have hLen : u32 b s.nlh = u32 b' s.nlh :=
        u32_congr fun i hi => hSame _ (by omega)
      have hType : u16 b (s.nlh + 4) = u16 b' (s.nlh + 4) :=
        u16_congr (hSame _ (by omega)) (hSame _ (by omega))
      unfold header
      rw [hLen, hType]
    unfold body
    by_cases hOk : (header b s.nlh).Ok s.recvLen
    · by_cases hNoop : (header b s.nlh).nlmsgType = nlmsgNoop
      · simp only [← hHeader, if_pos hOk, if_pos hNoop]
      · by_cases hFails : Fails (header b s.nlh).nlmsgType
        · unfold Fails at hFails
          simp only [← hHeader, if_pos hOk, if_neg hNoop,
            if_pos hFails]
        · have hReads :=
            eventReads_of_read A links hOk hNoop hFails
          have hEvent :
              processMessage A links b s.nlh s.ctrl =
                processMessage A links b' s.nlh s.ctrl := by
            rw [← value_readEvent, ← value_readEvent]
            apply Prog.value_congr
            intro i hi
            rw [← hReads] at hi
            exact hSame i (hInside i hi).2.2
          unfold Fails at hFails
          simp only [← hHeader, if_pos hOk, if_neg hNoop,
            if_neg hFails, hEvent]
    · simp only [← hHeader, if_neg hOk]
  · have hNot : ∀ h : Header, ¬ h.Ok s.recvLen :=
      fun h hOk => hRoom hOk.1
    unfold body
    simp only [if_neg (hNot _)]

/- So does the whole loop, if all of its turns stay inside. -/
theorem run_eq_of_inside
    {b' : Bytes}
    (hSame : ∀ i < received, b i = b' i)
    (hLeft : (s.nlh : Int) + s.recvLen = received)
    {fuel : Nat}
    (hInside :
      ∀ s' ∈ Loop.visits (body A links b) fuel s,
        Inside A links b received s') :
    Loop.run (body A links b) fuel s =
      Loop.run (body A links b') fuel s := by
  apply Loop.run_congr
  intro s' hs'
  have hKeeps :
      ∀ s next : Scan, (s.nlh : Int) + s.recvLen = received →
        body A links b s = .again next →
          (next.nlh : Int) + next.recvLen = received := by
    intro s next hHere hBody
    rcases body_cases A links b s with
      ⟨_, hIs⟩ | ⟨_, _, hIs⟩ | ⟨_, _, out, hIs⟩ |
        ⟨_, _, _, hIs⟩
    · rw [hIs] at hBody
      cases hBody
    · rw [hIs] at hBody
      cases hBody
      exact hHere
    · rw [hIs] at hBody
      cases hBody
    · rw [hIs] at hBody
      cases hBody
      push_cast
      omega
  have hLeft' := Loop.visits_inv hKeeps hLeft hs'
  exact body_congr hSame hLeft' (hInside s' hs')

/- Completeness is a matter of the received bytes. -/
theorem complete_congr
    {b' : Bytes}
    {h : Header}
    (hSame : ∀ i < received, b i = b' i)
    (hEnd : (h.pos : Int) + h.nlmsgLen.toNat ≤ received) :
    h.Complete b ↔ h.Complete b' := by
  unfold Header.Complete
  apply and_congr_right
  intro hLong
  have hWhat : what b h.pos = what b' h.pos :=
    u32_congr fun i hi => hSame _ (by omega)
  rw [hWhat]

end Netlink

------------------------------------------------------------
-- Datagrams
------------------------------------------------------------

namespace Controller

open Netlink

/- The turns of the handler's loop, so many at most. -/
def turns
    (A : Allocator)
    (links : Links)
    (beyond : Bytes)
    (d : Datagram)
    (fuel : Nat)
    (self : Controller) : List Scan :=
  if d.Accepted then
    Loop.visits (body A links (d.buffer beyond)) fuel
      ⟨0, d.bytes.length, self⟩
  else
    []

/-
  However long the handler runs, it reads events from bytes
  of their messages, all of which have been received.
-/
def ReadsReceived
    (A : Allocator)
    (links : Links)
    (beyond : Bytes)
    (d : Datagram)
    (self : Controller) : Prop :=
  ∀ fuel, ∀ s ∈ self.turns A links beyond d fuel,
    Inside A links (d.buffer beyond) d.bytes.length s

/-
  For every datagram, the handler reads received bytes only
  if and only if each message whose event it reads is long
  enough for `what`, and for `process_pid` where the event
  is that of a process that starts or ends.
-/
theorem readsReceived_iff
    (A : Allocator)
    (links : Links)
    (beyond : Bytes)
    (d : Datagram)
    (self : Controller) :
    self.ReadsReceived A links beyond d ↔
      (d.Accepted →
        ∀ h ∈ eventHeaders d.messages,
          h.Complete fun i => d.bytes.getD i 0) := by
  unfold ReadsReceived turns
  by_cases hAccepted : d.Accepted
  · have hFits : (d.bytes.length : Int) ≤ buffSize := by
      exact_mod_cast d.fits
    have hTurns :
        ∀ fuel, d.bytes.length ≤ fuel →
          ((∀ s ∈ Loop.visits
                (body A links (d.buffer beyond)) fuel
                ⟨0, d.bytes.length, self⟩,
              Inside A links (d.buffer beyond) d.bytes.length
                s) ↔
            ∀ h ∈ eventHeaders d.messages,
              h.Complete (d.buffer beyond)) := by
      intro fuel hFuel
      have hStable :
          headers (d.buffer beyond) fuel 0 d.bytes.length =
            headers (d.buffer beyond) d.bytes.length 0
              d.bytes.length :=
        headers_of_le _ hFits (by simpa using hFuel) (by simp)
      rw [visits_inside_iff A links fuel (by simp), hStable,
        d.headers_buffer]
    have hComplete :
        (∀ h ∈ eventHeaders d.messages,
            h.Complete (d.buffer beyond)) ↔
          ∀ h ∈ eventHeaders d.messages,
            h.Complete fun i => d.bytes.getD i 0 := by
      apply forall₂_congr
      intro h hMem
      have hEnd :=
        end_le_of_mem_headers (mem_of_mem_eventHeaders hMem)
      apply complete_congr _ (by simpa using hEnd)
      intro i hi
      exact if_pos (Nat.lt_of_lt_of_le hi d.fits)
    simp only [hAccepted, if_true, forall_const]
    rw [← hComplete]
    constructor
    · intro hAll
      exact (hTurns _ (Nat.le_refl _)).mp (hAll _)
    · intro hAll fuel s hs
      have hMore :
          fuel ≤ max fuel d.bytes.length :=
        Nat.le_max_left _ _
      exact (hTurns _ (Nat.le_max_right fuel _)).mpr hAll s
        (Loop.visits_subset hMore _ hs)
  · simp [hAccepted]

/-
  Where it does, what it makes of the datagram depends on
  nothing but the received bytes.
-/
theorem run_eq_of_readsReceived
    {A : Allocator}
    {links : Links}
    {beyond : Bytes}
    {d : Datagram}
    {self : Controller}
    (hAccepted : d.Accepted)
    (hReads : self.ReadsReceived A links beyond d)
    (b : Bytes)
    (hSame : ∀ i < d.bytes.length, d.bytes.getD i 0 = b i)
    (fuel : Nat) :
    self.handleDatagram A links beyond (.ok d) fuel =
      (Loop.run (body A links b) fuel
        ⟨0, d.bytes.length, self⟩).map Scan.ctrl := by
  have hBuffer :
      ∀ i < d.bytes.length, d.buffer beyond i = b i := by
    intro i hi
    rw [← hSame i hi]
    exact if_pos (Nat.lt_of_lt_of_le hi d.fits)
  have hTurns := hReads fuel
  unfold turns at hTurns
  rw [if_pos hAccepted] at hTurns
  rw [handleDatagram_of_accepted hAccepted,
    run_eq_of_inside hBuffer (by simp) hTurns]

/- A message that ends behind `what`, of an exec. -/
def shortExec : Datagram where
  nlPid := 0
  bytes :=
    [40, 0, 0, 0] ++ List.replicate 32 0 ++ [2, 0, 0, 0]
  fits := by decide

/-
  The event of a message of 40 bytes is an exec without a
  process number. The handler inserts process 0, from the
  bytes that the buffer had been cleared to.
-/
theorem event_unreceived :
    let links : Links := fun _ => none
    shortExec.Accepted ∧
      emptyController.handleDatagram (.above []) links
          (fun _ => 0) (.ok shortExec) 2 =
        some (emptyController.insert (.above []) links 0) ∧
      ¬ emptyController.ReadsReceived (.above []) links
          (fun _ => 0) shortExec := by
  intro links
  refine ⟨by decide, rfl, ?_⟩
  rw [readsReceived_iff]
  intro hComplete
  exact absurd (hComplete (by decide)) (by decide)

end Controller

end UdjatProcess
