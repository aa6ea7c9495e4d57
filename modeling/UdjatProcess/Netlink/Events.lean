import UdjatProcess.Netlink.Received

/-
  The loop of the handler as a run over events
  (`Controller::handle_event` in `controller/init.cc`).

  The handler does what the events ask for that lie in the
  messages it reads, in their order, each decoded where its
  header lies. A message is a turn of the loop, and one more
  turn finds the end.

  Key definitions include:
    * `Netlink.handleEvents`
    * `Netlink.eventsAt`
    * `Netlink.Datagram.events`

  Key theorems include:
    * `Netlink.body_of_ok`
    * `Netlink.run_events`
    * `Controller.handleDatagram_events`
-/

namespace UdjatProcess

------------------------------------------------------------
-- The Events Of A Datagram
------------------------------------------------------------

namespace Netlink

/- Handling events, one after the other. -/
def handleEvents
    (A : Allocator)
    (links : Links)
    (evs : List ProcEvent)
    (ctrl : Controller) : Controller :=
  evs.foldl (fun ctrl ev => ctrl.handleEvent A links ev) ctrl

/- The events of the messages that are read. -/
def eventsAt (b : Bytes) (hs : List Header) : List ProcEvent :=
  (eventHeaders hs).map fun h => decode b h.pos

/- The events that the handler reads in a datagram. -/
def Datagram.events
    (beyond : Bytes)
    (d : Datagram) : List ProcEvent :=
  if d.Accepted then
    eventsAt (d.buffer beyond) d.messages
  else
    []

theorem typesRead_cons
    (h : Header)
    (hs : List Header) :
    typesRead (h :: hs) =
      if Breaks h.nlmsgType then
        []
      else
        h.nlmsgType :: typesRead hs := by
  unfold typesRead
  by_cases hBreaks : Breaks h.nlmsgType
  · simp [hBreaks]
  · simp [hBreaks]

theorem eventsAt_cons
    (b : Bytes)
    (h : Header)
    (hs : List Header) :
    eventsAt b (h :: hs) =
      if h.nlmsgType = nlmsgNoop ∨ Fails h.nlmsgType then
        []
      else if h.nlmsgType = nlmsgDone then
        [decode b h.pos]
      else
        decode b h.pos :: eventsAt b hs := by
  unfold eventsAt
  rw [eventHeaders_cons]
  split_ifs <;> rfl

/- One turn of the loop, at a message that is not skipped. -/
theorem body_of_ok
    (A : Allocator)
    (links : Links)
    {b : Bytes}
    {s : Scan}
    (hOk : (header b s.nlh).Ok s.recvLen)
    (hType : (header b s.nlh).nlmsgType ≠ nlmsgNoop) :
    let h := header b s.nlh
    let ctrl := s.ctrl.handleEvent A links (decode b s.nlh)
    body A links b s =
      if Fails h.nlmsgType then
        .done s
      else if h.nlmsgType = nlmsgDone then
        .done { s with ctrl := ctrl }
      else
        .again
          { nlh := s.nlh + h.space
            recvLen := s.recvLen - h.space
            ctrl := ctrl } := by
  intro h ctrl
  unfold body Fails
  rw [if_pos hOk, if_neg hType, processMessage_eq]

/-
  With turns enough for the messages that the loop steps
  through, and no message of type `NLMSG_NOOP` to be read,
  it handles their events.
-/
theorem run_events
    (A : Allocator)
    (links : Links)
    (b : Bytes)
    {fuel : Nat}
    {s : Scan}
    (hTurns :
      (headers b fuel s.nlh s.recvLen).length < fuel)
    (hReturns :
      nlmsgNoop ∉ typesRead (headers b fuel s.nlh s.recvLen)) :
    (Loop.run (body A links b) fuel s).map Scan.ctrl =
      some (handleEvents A links
        (eventsAt b (headers b fuel s.nlh s.recvLen))
        s.ctrl) := by
  induction fuel generalizing s with
  | zero => exact absurd hTurns (Nat.not_lt_zero _)
  | succ fuel ih =>
      by_cases hOk : (header b s.nlh).Ok s.recvLen
      · rw [headers_cons hOk] at hTurns
        rw [headers_cons hOk, typesRead_cons] at hReturns
        rw [headers_cons hOk, eventsAt_cons]
        have hType :
            (header b s.nlh).nlmsgType ≠ nlmsgNoop := by
          intro hNoop
          have hGoesOn : ¬ Breaks nlmsgNoop := by decide
          rw [hNoop, if_neg hGoesOn] at hReturns
          exact hReturns List.mem_cons_self
        have hBody := body_of_ok A links hOk hType
        dsimp only at hBody
        by_cases hFails : Fails (header b s.nlh).nlmsgType
        · rw [if_pos hFails] at hBody
          rw [Loop.run_of_done hBody, if_pos (Or.inr hFails)]
          rfl
        · rw [if_neg hFails] at hBody
          rw [if_neg (not_or.mpr ⟨hType, hFails⟩)]
          by_cases hDone :
              (header b s.nlh).nlmsgType = nlmsgDone
          · rw [if_pos hDone] at hBody
            rw [Loop.run_of_done hBody, if_pos hDone]
            rfl
          · rw [if_neg hDone] at hBody
            have hBreaks :
                ¬ Breaks (header b s.nlh).nlmsgType := by
              rintro (hError | hOverrun | hIs)
              · exact hFails (Or.inl hError)
              · exact hFails (Or.inr hOverrun)
              · exact hDone hIs
            rw [if_neg hBreaks, List.mem_cons,
              not_or] at hReturns
            rw [Loop.run_of_again hBody, if_neg hDone,
              ih (Nat.lt_of_succ_lt_succ hTurns) hReturns.2]
            rfl
      · have hBody : body A links b s = .done s := by
          unfold body
          rw [if_neg hOk]
        rw [Loop.run_of_done hBody, headers_of_not_ok hOk]
        rfl

/- Fewer steps come to the first of the headers. -/
theorem headers_eq_take
    (b : Bytes)
    {fuel more : Nat}
    (hLe : fuel ≤ more)
    (nlh : Nat)
    (len : Int) :
    headers b fuel nlh len =
      (headers b more nlh len).take fuel := by
  induction fuel generalizing more nlh len with
  | zero => rfl
  | succ fuel ih =>
      cases more with
      | zero => exact absurd hLe (Nat.not_succ_le_zero _)
      | succ more =>
          by_cases hOk : (header b nlh).Ok len
          · rw [headers_cons hOk, headers_cons hOk,
              List.take_succ_cons,
              ih (Nat.le_of_succ_le_succ hLe)]
          · rw [headers_of_not_ok hOk, headers_of_not_ok hOk,
              List.take_nil]

theorem length_headers_le
    (b : Bytes)
    (fuel nlh : Nat)
    (len : Int) :
    (headers b fuel nlh len).length ≤ fuel := by
  rw [headers_eq_take b (Nat.le_refl fuel)]
  exact List.length_take_le _ _

/- More steps than there are messages find them all. -/
theorem headers_of_length_lt
    (d : Datagram)
    (beyond : Bytes)
    {fuel : Nat}
    (hFuel : d.messages.length < fuel) :
    headers (d.buffer beyond) fuel 0 d.bytes.length =
      d.messages := by
  have hFits : (d.bytes.length : Int) ≤ buffSize := by
    exact_mod_cast d.fits
  have hAll :
      headers (d.buffer beyond) (max fuel d.bytes.length) 0
          d.bytes.length = d.messages := by
    rw [← d.headers_buffer beyond]
    exact headers_of_le _ hFits (by omega) (by omega)
  rw [headers_eq_take _ (Nat.le_max_left fuel _), hAll,
    List.take_of_length_le hFuel.le]

theorem length_messages_le (d : Datagram) :
    d.messages.length ≤ d.bytes.length :=
  length_headers_le _ _ _ _

end Netlink

/- What is not accepted is not looked at. -/
theorem Controller.handleDatagram_of_not_accepted
    (A : Allocator)
    (links : Links)
    (beyond : Netlink.Bytes)
    {d : Netlink.Datagram}
    (hNot : ¬ d.Accepted)
    (fuel : Nat)
    (self : Controller) :
    self.handleDatagram A links beyond (.ok d) fuel =
      some self := by
  have hRefuses : d.bytes.length < 1 ∨ d.nlPid ≠ 0 := by
    by_contra hReads
    rw [not_or, Nat.not_lt, not_not] at hReads
    exact hNot hReads
  unfold handleDatagram
  exact if_pos hRefuses

/-
  A datagram without a message of type `NLMSG_NOOP` before
  the first that breaks the loop is handled event by event.
-/
theorem Controller.handleDatagram_events
    (A : Allocator)
    (links : Links)
    (beyond : Netlink.Bytes)
    {d : Netlink.Datagram}
    (hReturns :
      d.Accepted →
        Netlink.nlmsgNoop ∉ Netlink.typesRead d.messages)
    {fuel : Nat}
    (hFuel : d.messages.length < fuel)
    (self : Controller) :
    self.handleDatagram A links beyond (.ok d) fuel =
      some (Netlink.handleEvents A links (d.events beyond)
        self) := by
  unfold Netlink.Datagram.events
  by_cases hAccepted : d.Accepted
  · have hHeaders :=
      Netlink.headers_of_length_lt d beyond hFuel
    have hRun :=
      Netlink.run_events A links (d.buffer beyond)
        (s := ⟨0, d.bytes.length, self⟩)
        (by rw [hHeaders]; exact hFuel)
        (by rw [hHeaders]; exact hReturns hAccepted)
    rw [handleDatagram_of_accepted hAccepted,
      if_pos hAccepted, hRun, hHeaders]
  · rw [if_neg hAccepted]
    exact handleDatagram_of_not_accepted A links beyond
      hAccepted fuel self

end UdjatProcess
