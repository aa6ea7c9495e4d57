import UdjatProcess.Library.Runs

/-
  A source that reports its changes to a replica over a
  queue of events.

  The source acts and appends the events it emits to the
  queue, the replica takes them off one by one, and in
  between it does work of its own. A `View` is a part of the
  replica that only the handled events change. Whatever the
  interleaving, the view of a replica with an empty queue is
  the fold of all events emitted so far.

  Key definitions include:
    * `Relay.Protocol`
    * `Relay.step`
    * `Relay.emitted`
    * `Relay.View`

  Key theorems include:
    * `Relay.source_after`
    * `Relay.good_after`
    * `Relay.pending_after`
    * `Relay.view_of_drained`
    * `Relay.related_of_drained`
    * `Relay.exists_drained`
-/

------------------------------------------------------------
-- Protocols
------------------------------------------------------------

namespace Relay

/- What the source and the replica do. -/
structure Protocol (σ κ ε ρ ο : Type) where
  act : σ → κ → σ
  emit : σ → κ → List ε
  handle : ρ → ε → ρ
  work : ρ → ο → ρ

/- The source, the events on their way, and the replica. -/
structure State (σ ε ρ : Type) where
  source : σ
  queue : List ε
  replica : ρ

/- One move of the source, the queue or the replica. -/
inductive Move (κ ο : Type) where
| act (k : κ)
| deliver
| work (o : ο)

variable {σ κ ε ρ ο τ : Type}

/- One step of the system. -/
def step
    (P : Protocol σ κ ε ρ ο)
    (s : State σ ε ρ) :
    Move κ ο → State σ ε ρ
| .act k =>
    { s with
      source := P.act s.source k
      queue := s.queue ++ P.emit s.source k }
| .deliver =>
    match s.queue with
    | [] => s
    | e :: queue =>
        { s with
          queue := queue
          replica := P.handle s.replica e }
| .work o =>
    { s with replica := P.work s.replica o }

/- The source's own moves in a run. -/
def acts (moves : List (Move κ ο)) : List κ :=
  moves.filterMap fun
    | .act k => some k
    | _ => none

/- The events emitted by a sequence of source moves. -/
def emitted
    (P : Protocol σ κ ε ρ ο) :
    σ → List κ → List ε
| _, [] => []
| s, k :: ks => P.emit s k ++ emitted P (P.act s k) ks

@[simp] theorem acts_cons_act
    (k : κ)
    (moves : List (Move κ ο)) :
    acts (.act k :: moves) = k :: acts moves := rfl

@[simp] theorem acts_cons_deliver
    (moves : List (Move κ ο)) :
    acts (.deliver :: moves) = acts moves := rfl

theorem emitted_append
    (P : Protocol σ κ ε ρ ο)
    (s : σ)
    (first second : List κ) :
    emitted P s (first ++ second) =
      emitted P s first ++
        emitted P (first.foldl P.act s) second := by
  induction first generalizing s with
  | nil => rfl
  | cons k first ih =>
      rw [List.cons_append, emitted, emitted, ih,
        List.append_assoc, List.foldl_cons]

/- Nothing but the source's own moves changes the source. -/
theorem source_after
    (P : Protocol σ κ ε ρ ο)
    (s : State σ ε ρ)
    (moves : List (Move κ ο)) :
    (Runs.after (step P) s moves).source =
      (acts moves).foldl P.act s.source := by
  induction moves generalizing s with
  | nil => rfl
  | cons move moves ih =>
      rw [Runs.after_cons, ih]
      cases move with
      | act k => rfl
      | work o => rfl
      | deliver =>
          cases hQueue : s.queue with
          | nil => simp [step, hQueue]
          | cons e queue => simp [step, hQueue]

------------------------------------------------------------
-- Views
------------------------------------------------------------

/-
  A part of the replica that handling an event changes as
  `track` says and that quiet work leaves alone, as long as
  the replica is in good order.
-/
structure View
    (P : Protocol σ κ ε ρ ο)
    (τ : Type) where
  view : ρ → τ
  track : τ → ε → τ
  Good : ρ → Prop
  Quiet : ο → Prop
  good_handle : ∀ r e, Good r → Good (P.handle r e)
  good_work : ∀ r o, Good r → Quiet o → Good (P.work r o)
  view_handle :
    ∀ r e, Good r → view (P.handle r e) = track (view r) e
  view_work :
    ∀ r o, Good r → Quiet o → view (P.work r o) = view r

/- The replica's work in a run is all quiet. -/
def QuietRun
    {P : Protocol σ κ ε ρ ο}
    (V : View P τ)
    (moves : List (Move κ ο)) : Prop :=
  ∀ o, .work o ∈ moves → V.Quiet o

/- Deliveries and quiet work keep the replica in order. -/
theorem good_after
    {P : Protocol σ κ ε ρ ο}
    (V : View P τ)
    {s : State σ ε ρ}
    {moves : List (Move κ ο)}
    (hGood : V.Good s.replica)
    (hQuiet : QuietRun V moves) :
    V.Good (Runs.after (step P) s moves).replica := by
  induction moves generalizing s with
  | nil => exact hGood
  | cons move moves ih =>
      have hRest : QuietRun V moves := fun o hMem =>
        hQuiet o (List.mem_cons_of_mem _ hMem)
      rw [Runs.after_cons]
      cases move with
      | act k => exact ih hGood hRest
      | work o =>
          have hWork : V.Quiet o :=
            hQuiet o List.mem_cons_self
          exact ih (V.good_work s.replica o hGood hWork) hRest
      | deliver =>
          cases hQueue : s.queue with
          | nil =>
              have hStep : step P s .deliver = s := by
                simp [step, hQueue]
              rw [hStep]
              exact ih hGood hRest
          | cons e queue =>
              have hStep :
                  step P s .deliver =
                    { s with
                      queue := queue
                      replica := P.handle s.replica e } := by
                simp [step, hQueue]
              rw [hStep]
              exact ih (V.good_handle _ e hGood) hRest

/- The view once all events on their way are handled. -/
def pending
    {P : Protocol σ κ ε ρ ο}
    (V : View P τ)
    (s : State σ ε ρ) : τ :=
  s.queue.foldl V.track (V.view s.replica)

/-
  Delivery and quiet work leave the pending view alone, so
  it moves with the source only.
-/
theorem pending_after
    {P : Protocol σ κ ε ρ ο}
    (V : View P τ)
    {s : State σ ε ρ}
    {moves : List (Move κ ο)}
    (hGood : V.Good s.replica)
    (hQuiet : QuietRun V moves) :
    pending V (Runs.after (step P) s moves) =
      (emitted P s.source (acts moves)).foldl V.track
        (pending V s) := by
  induction moves generalizing s with
  | nil => rfl
  | cons move moves ih =>
      have hRest : QuietRun V moves := fun o hMem =>
        hQuiet o (List.mem_cons_of_mem _ hMem)
      rw [Runs.after_cons]
      cases move with
      | act k =>
          rw [ih (s := step P s (.act k)) hGood hRest]
          simp [step, pending, emitted, List.foldl_append]
      | work o =>
          have hWork : V.Quiet o :=
            hQuiet o List.mem_cons_self
          have hSame :
              pending V (step P s (.work o)) = pending V s := by
            simp only [step, pending]
            rw [V.view_work s.replica o hGood hWork]
          rw [ih (s := step P s (.work o))
            (V.good_work s.replica o hGood hWork) hRest, hSame]
          rfl
      | deliver =>
          cases hQueue : s.queue with
          | nil =>
              have hStep : step P s .deliver = s := by
                simp [step, hQueue]
              rw [hStep, ih hGood hRest]
              rfl
          | cons e queue =>
              have hStep :
                  step P s .deliver =
                    { s with
                      queue := queue
                      replica := P.handle s.replica e } := by
                simp [step, hQueue]
              rw [hStep, ih (V.good_handle _ e hGood) hRest]
              simp only [pending, hQueue, List.foldl_cons]
              rw [V.view_handle s.replica e hGood]
              rfl

/-
  A replica that starts without pending events and has
  handled all events shows the fold of those emitted.
-/
theorem view_of_drained
    {P : Protocol σ κ ε ρ ο}
    (V : View P τ)
    {s : State σ ε ρ}
    {moves : List (Move κ ο)}
    (hGood : V.Good s.replica)
    (hQuiet : QuietRun V moves)
    (hStart : s.queue = [])
    (hEnd : (Runs.after (step P) s moves).queue = []) :
    V.view (Runs.after (step P) s moves).replica =
      (emitted P s.source (acts moves)).foldl V.track
        (V.view s.replica) := by
  have hPending := pending_after V hGood hQuiet
  simpa [pending, hStart, hEnd] using hPending

/- A relation holds of the source and the pending view. -/
theorem related_foldl
    {P : Protocol σ κ ε ρ ο}
    (V : View P τ)
    {Rel : σ → τ → Prop}
    (hAct :
      ∀ s t k, Rel s t →
        Rel (P.act s k) ((P.emit s k).foldl V.track t))
    {s : σ}
    {t : τ}
    (hRel : Rel s t)
    (ks : List κ) :
    Rel (ks.foldl P.act s)
      ((emitted P s ks).foldl V.track t) := by
  induction ks generalizing s t with
  | nil => exact hRel
  | cons k ks ih =>
      rw [List.foldl_cons, emitted, List.foldl_append]
      exact ih (hAct s t k hRel)

/-
  The simulation rule. A relation between source and view
  that every move of the source keeps, together with the
  events it emits, holds of a system that starts and ends
  without pending events.
-/
theorem related_of_drained
    {P : Protocol σ κ ε ρ ο}
    (V : View P τ)
    {Rel : σ → τ → Prop}
    (hAct :
      ∀ s t k, Rel s t →
        Rel (P.act s k) ((P.emit s k).foldl V.track t))
    {s : State σ ε ρ}
    {moves : List (Move κ ο)}
    (hGood : V.Good s.replica)
    (hQuiet : QuietRun V moves)
    (hStart : s.queue = [])
    (hRel : Rel s.source (V.view s.replica))
    (hEnd : (Runs.after (step P) s moves).queue = []) :
    Rel (Runs.after (step P) s moves).source
      (V.view (Runs.after (step P) s moves).replica) := by
  rw [source_after,
    view_of_drained V hGood hQuiet hStart hEnd]
  exact related_foldl V hAct hRel (acts moves)

------------------------------------------------------------
-- Draining
------------------------------------------------------------

@[simp] theorem acts_append
    (first second : List (Move κ ο)) :
    acts (first ++ second) = acts first ++ acts second :=
  List.filterMap_append

theorem acts_map_act (ks : List κ) :
    acts (ks.map (Move.act (ο := ο))) = ks := by
  induction ks with
  | nil => rfl
  | cons k ks ih => rw [List.map_cons, acts_cons_act, ih]

theorem acts_deliveries (n : Nat) :
    acts (List.replicate n (.deliver : Move κ ο)) = [] := by
  induction n with
  | zero => rfl
  | succ n ih =>
      rw [List.replicate_succ, acts_cons_deliver, ih]

/- As many deliveries as there are events empty the queue. -/
theorem queue_after_deliveries
    (P : Protocol σ κ ε ρ ο)
    (queue : List ε)
    {s : State σ ε ρ}
    (hQueue : s.queue = queue) :
    (Runs.after (step P) s
      (List.replicate queue.length .deliver)).queue = [] := by
  induction queue generalizing s with
  | nil => simpa using hQueue
  | cons e queue ih =>
      rw [List.length_cons, List.replicate_succ,
        Runs.after_cons]
      apply ih
      simp [step, hQueue]

/- Every history of the source can be handled completely. -/
theorem exists_drained
    (P : Protocol σ κ ε ρ ο)
    (s : State σ ε ρ)
    (ks : List κ) :
    ∃ moves : List (Move κ ο),
      acts moves = ks ∧ (∀ o, .work o ∉ moves) ∧
        (Runs.after (step P) s moves).queue = [] := by
  let sent : List (Move κ ο) := ks.map .act
  let queue := (Runs.after (step P) s sent).queue
  let drain : List (Move κ ο) :=
    List.replicate queue.length .deliver
  refine ⟨sent ++ drain, ?_, ?_, ?_⟩
  · rw [acts_append, acts_deliveries, List.append_nil]
    exact acts_map_act ks
  · intro o hMem
    rcases List.mem_append.mp hMem with hSent | hDrain
    · rcases List.mem_map.mp hSent with ⟨k, _, hEq⟩
      cases hEq
    · cases List.eq_of_mem_replicate hDrain
  · rw [Runs.after_append]
    exact queue_after_deliveries P queue rfl

end Relay
