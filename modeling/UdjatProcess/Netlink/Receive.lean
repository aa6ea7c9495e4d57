import UdjatProcess.Library.Loop
import UdjatProcess.Netlink.Datagram

/-
  The loop that reads the messages of a datagram
  (`Controller::handle_event` in `controller/init.cc`).

  The loop moves on to the next header at its end. A message
  of type `NLMSG_NOOP` continues the loop before that, so it
  is read again and again. The loop ends exactly when no
  such message comes before the first one that breaks it.

  Key definitions include:
    * `Netlink.processMessage`
    * `Netlink.body`
    * `Controller.handleDatagram`
    * `Netlink.Breaks`

  Key theorems include:
    * `Netlink.processMessage_eq`
    * `Netlink.body_cases`
    * `Netlink.loop_ends_iff`
    * `Controller.handleDatagram_returns_iff`
    * `Controller.noop_never_returns`
-/

namespace UdjatProcess

------------------------------------------------------------
-- The Loop
------------------------------------------------------------

namespace Netlink

/- The switch on the event of the message at `nlh`. -/
def processMessage
    (A : Allocator)
    (links : Links)
    (b : Bytes)
    (nlh : Nat)
    (ctrl : Controller) : Controller :=
  if what b nlh = procEventExec then
    ctrl.insert A links (processPid b nlh)
  else if what b nlh = procEventExit then
    ctrl.remove (processPid b nlh)
  else
    ctrl

/- It handles the event that the message holds. -/
theorem processMessage_eq
    (A : Allocator)
    (links : Links)
    (b : Bytes)
    (nlh : Nat)
    (ctrl : Controller) :
    processMessage A links b nlh ctrl =
      ctrl.handleEvent A links (decode b nlh) := by
  unfold processMessage decode
  dsimp only
  split
  · rfl
  · split
    · rfl
    · split <;> rfl

/- `nlh`, `recv_len` and the controller. -/
structure Scan where
  nlh : Nat
  recvLen : Int
  ctrl : Controller

/- The `while` loop over `NLMSG_OK` and `NLMSG_NEXT`. -/
def body
    (A : Allocator)
    (links : Links)
    (b : Bytes)
    (s : Scan) : Loop.Step Scan :=
  let h := header b s.nlh
  if h.Ok s.recvLen then
    if h.nlmsgType = nlmsgNoop then
      .again s
    else if h.nlmsgType = nlmsgError ∨
        h.nlmsgType = nlmsgOverrun then
      .done s
    else
      let s :=
        { s with
          ctrl := processMessage A links b s.nlh s.ctrl }
      if h.nlmsgType = nlmsgDone then
        .done s
      else
        .again
          { s with
            nlh := s.nlh + h.space
            recvLen := s.recvLen - h.space }
  else
    .done s

end Netlink

/-
  `Controller::handle_event`, for what `recvfrom` returned
  and so many turns of the loop at most.
-/
def Controller.handleDatagram
    (A : Allocator)
    (links : Links)
    (beyond : Netlink.Bytes)
    (received : Except Nat Netlink.Datagram)
    (fuel : Nat)
    (self : Controller) : Option Controller :=
  match received with
  | .error _ => some self
  | .ok d =>
      if d.bytes.length < 1 ∨ d.nlPid ≠ 0 then
        some self
      else
        (Loop.run (Netlink.body A links (d.buffer beyond))
          fuel ⟨0, d.bytes.length, self⟩).map
            Netlink.Scan.ctrl

------------------------------------------------------------
-- Termination
------------------------------------------------------------

namespace Netlink

/- Messages of this type end the loop. -/
def Breaks (nlmsgType : UInt16) : Prop :=
  nlmsgType = nlmsgError ∨ nlmsgType = nlmsgOverrun ∨
    nlmsgType = nlmsgDone

instance (nlmsgType : UInt16) :
    Decidable (Breaks nlmsgType) := by
  unfold Breaks
  infer_instance

/- Messages of these types end it before they are read. -/
def Fails (nlmsgType : UInt16) : Prop :=
  nlmsgType = nlmsgError ∨ nlmsgType = nlmsgOverrun

instance (nlmsgType : UInt16) :
    Decidable (Fails nlmsgType) := by
  unfold Fails
  infer_instance

/- Up to and including the first of type `NLMSG_DONE`. -/
def upToDone {α : Type}
    (typeOf : α → UInt16)
    (l : List α) : List α :=
  (l.takeWhile fun x => typeOf x != nlmsgDone) ++
    (l.dropWhile fun x => typeOf x != nlmsgDone).take 1

@[simp] theorem upToDone_nil {α : Type}
    (typeOf : α → UInt16) :
    upToDone typeOf [] = [] := rfl

@[simp] theorem upToDone_cons {α : Type}
    (typeOf : α → UInt16)
    (x : α)
    (l : List α) :
    upToDone typeOf (x :: l) =
      if typeOf x = nlmsgDone then
        [x]
      else
        x :: upToDone typeOf l := by
  unfold upToDone
  split
  · next hDone => simp [hDone]
  · next hNext => simp [hNext]

/- The types of messages before the first that breaks. -/
def typesRead (hs : List Header) : List UInt16 :=
  (hs.map Header.nlmsgType).takeWhile fun t => !Breaks t

/- What one turn of the loop can do. -/
theorem body_cases
    (A : Allocator)
    (links : Links)
    (b : Bytes)
    (s : Scan) :
    let h := header b s.nlh
    (¬ h.Ok s.recvLen ∧ body A links b s = .done s) ∨
    (h.Ok s.recvLen ∧ h.nlmsgType = nlmsgNoop ∧
      body A links b s = .again s) ∨
    (h.Ok s.recvLen ∧ Breaks h.nlmsgType ∧
      ∃ s', body A links b s = .done s') ∨
    (h.Ok s.recvLen ∧ h.nlmsgType ≠ nlmsgNoop ∧
      ¬ Breaks h.nlmsgType ∧
      body A links b s =
        .again
          { nlh := s.nlh + h.space
            recvLen := s.recvLen - h.space
            ctrl :=
              processMessage A links b s.nlh s.ctrl }) := by
  intro h
  by_cases hOk : h.Ok s.recvLen
  · by_cases hNoop : h.nlmsgType = nlmsgNoop
    · refine Or.inr (Or.inl ⟨hOk, hNoop, ?_⟩)
      unfold body
      rw [if_pos hOk, if_pos hNoop]
    · by_cases hFails : h.nlmsgType = nlmsgError ∨
          h.nlmsgType = nlmsgOverrun
      · refine Or.inr (Or.inr (Or.inl ⟨hOk, ?_, s, ?_⟩))
        · rcases hFails with hError | hOverrun
          · exact Or.inl hError
          · exact Or.inr (Or.inl hOverrun)
        · unfold body
          rw [if_pos hOk, if_neg hNoop, if_pos hFails]
      · by_cases hDone : h.nlmsgType = nlmsgDone
        · refine Or.inr (Or.inr (Or.inl
            ⟨hOk, Or.inr (Or.inr hDone),
              { s with
                ctrl :=
                  processMessage A links b s.nlh s.ctrl },
              ?_⟩))
          unfold body
          rw [if_pos hOk, if_neg hNoop, if_neg hFails]
          exact if_pos hDone
        · refine Or.inr (Or.inr (Or.inr
            ⟨hOk, hNoop, ?_, ?_⟩))
          · rintro (hError | hOverrun | hIs)
            · exact hFails (Or.inl hError)
            · exact hFails (Or.inr hOverrun)
            · exact hDone hIs
          · unfold body
            rw [if_pos hOk, if_neg hNoop, if_neg hFails]
            exact if_neg hDone
  · refine Or.inl ⟨hOk, ?_⟩
    unfold body
    rw [if_neg hOk]

/-
  With few enough bytes left, the loop ends if and only if
  it meets no message of type `NLMSG_NOOP` before it breaks.
-/
theorem loop_ends_iff
    (A : Allocator)
    (links : Links)
    (b : Bytes)
    (fuel : Nat)
    {s : Scan}
    (hBound : s.recvLen ≤ buffSize)
    (hFuel : s.recvLen.toNat ≤ fuel) :
    Loop.Ends (body A links b) s ↔
      nlmsgNoop ∉
        typesRead (headers b fuel s.nlh s.recvLen) := by
  induction fuel generalizing s with
  | zero =>
      have hNot : ¬ (header b s.nlh).Ok s.recvLen := by
        intro hOk
        have hRoom := hOk.1
        unfold nlmsgHdrlen at hRoom
        omega
      have hBody : body A links b s = .done s := by
        unfold body
        rw [if_neg hNot]
      refine iff_of_true (Loop.ends_of_done hBody) ?_
      exact List.not_mem_nil
  | succ fuel ih =>
      rcases body_cases A links b s with
        ⟨hNot, hBody⟩ | ⟨hOk, hNoop, hBody⟩ |
          ⟨hOk, hBreaks, s', hBody⟩ |
          ⟨hOk, hNoop, hBreaks, hBody⟩
      · refine iff_of_true (Loop.ends_of_done hBody) ?_
        simp [headers, hNot, typesRead]
      · refine iff_of_false
          (Loop.not_ends_of_again_self hBody) ?_
        have hGoesOn : ¬ Breaks nlmsgNoop := by decide
        simp [headers, hOk, typesRead, hNoop, hGoesOn]
      · refine iff_of_true (Loop.ends_of_done hBody) ?_
        simp [headers, hOk, typesRead, hBreaks]
      · have hSpace := hOk.space hBound
        unfold nlmsgHdrlen at hSpace
        have hNext :=
          ih (s :=
            { nlh := s.nlh + (header b s.nlh).space
              recvLen := s.recvLen - (header b s.nlh).space
              ctrl :=
                processMessage A links b s.nlh s.ctrl })
            (by dsimp only; omega) (by dsimp only; omega)
        rw [Loop.ends_iff_of_again hBody, hNext]
        simp [headers, hOk, typesRead, hBreaks,
          Ne.symm hNoop]

end Netlink

namespace Controller

theorem handleDatagram_of_accepted
    {A : Allocator}
    {links : Links}
    {beyond : Netlink.Bytes}
    {d : Netlink.Datagram}
    (hAccepted : d.Accepted)
    (fuel : Nat)
    (self : Controller) :
    self.handleDatagram A links beyond (.ok d) fuel =
      (Loop.run (Netlink.body A links (d.buffer beyond))
        fuel ⟨0, d.bytes.length, self⟩).map
          Netlink.Scan.ctrl := by
  have hReads :
      ¬ (d.bytes.length < 1 ∨ d.nlPid ≠ 0) := by
    rintro (hShort | hPid)
    · exact absurd hAccepted.1 (Nat.not_le.mpr hShort)
    · exact hPid hAccepted.2
  unfold handleDatagram
  exact if_neg hReads

/-
  For every datagram, `handle_event` returns if and only if
  the datagram is not accepted or has no message of type
  `NLMSG_NOOP` before the first of type `NLMSG_ERROR`,
  `NLMSG_OVERRUN` or `NLMSG_DONE`.
-/
theorem handleDatagram_returns_iff
    (A : Allocator)
    (links : Links)
    (beyond : Netlink.Bytes)
    (d : Netlink.Datagram)
    (self : Controller) :
    (∃ fuel self',
        self.handleDatagram A links beyond (.ok d) fuel =
          some self') ↔
      (d.Accepted →
        Netlink.nlmsgNoop ∉
          Netlink.typesRead d.messages) := by
  by_cases hAccepted : d.Accepted
  · have hFits : (d.bytes.length : Int) ≤ Netlink.buffSize := by
      exact_mod_cast d.fits
    have hLoop :=
      Netlink.loop_ends_iff A links (d.buffer beyond)
        d.bytes.length
        (s := ⟨0, d.bytes.length, self⟩) hFits (by simp)
    rw [d.headers_buffer] at hLoop
    simp only [handleDatagram_of_accepted hAccepted,
      Option.map_eq_some_iff, hAccepted, forall_const]
    rw [← hLoop]
    constructor
    · rintro ⟨fuel, _, out, hRun, _⟩
      exact ⟨fuel, out, hRun⟩
    · rintro ⟨fuel, out, hRun⟩
      exact ⟨fuel, out.ctrl, out, hRun, rfl⟩
  · have hRefuses : d.bytes.length < 1 ∨ d.nlPid ≠ 0 := by
      by_contra hNot
      rw [not_or, Nat.not_lt, not_not] at hNot
      exact hAccepted hNot
    unfold handleDatagram
    simp only [if_pos hRefuses]
    exact iff_of_true ⟨0, self, rfl⟩
      fun hIs => absurd hIs hAccepted

/- A header alone, of a message of type `NLMSG_NOOP`. -/
def noopDatagram : Netlink.Datagram where
  nlPid := 0
  bytes := [16, 0, 0, 0, 1, 0, 0, 0, 0, 0, 0, 0, 0, 0, 0, 0]
  fits := by decide

/- A controller without processes and agents. -/
def emptyController : Controller where
  identifiers := .empty
  agents := []
  memory := fun _ => { kind := .exeName [] }
  fd := 3

/- It is accepted, and the handler never returns. -/
theorem noop_never_returns :
    noopDatagram.Accepted ∧
      ¬ ∃ fuel self',
        emptyController.handleDatagram (.above [])
          (fun _ => none) (fun _ => 0) (.ok noopDatagram)
          fuel = some self' := by
  refine ⟨by decide, ?_⟩
  rintro ⟨fuel, self', hReturns⟩
  have hAccepted : noopDatagram.Accepted := by decide
  have hBody :
      Netlink.body (.above []) (fun _ => none)
          (noopDatagram.buffer fun _ => 0)
          ⟨0, 16, emptyController⟩ =
        .again ⟨0, 16, emptyController⟩ := by
    rfl
  rw [handleDatagram_of_accepted hAccepted,
    Option.map_eq_some_iff] at hReturns
  rcases hReturns with ⟨out, hRun, _⟩
  exact Loop.not_ends_of_again_self hBody ⟨fuel, out, hRun⟩

end Controller

end UdjatProcess
