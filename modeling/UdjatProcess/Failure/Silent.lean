import UdjatProcess.Agent.Fields
import UdjatProcess.Failure.Escape

/-
  Configured states that can never apply
  (`Agent::StateFactory` and `Agent::computeState` in
  `agent/state.cc`).

  `computeState` goes through the states that the factory
  has kept. A state on a value of the process is not among
  them, so an agent that only such a state accepts is in the
  default state of the base class.

  Key definitions include:
    * `StatePtr.accepts`
    * `Controller.SameReading`
    * `FieldsFollow`

  Key theorems include:
    * `find?_filter_eq_iff`
    * `Controller.computeState_eq`
    * `Controller.computeState_first_iff`
    * `Controller.field_state_silent`
-/

namespace UdjatProcess

------------------------------------------------------------
-- First Matches
------------------------------------------------------------

/-
  A filter leaves the first match of a list what it is if
  and only if no match that it drops comes before all those
  that it keeps.
-/
theorem find?_filter_eq_iff {α : Type}
    (p q : α → Bool)
    (l : List α) :
    (l.filter p).find? q = l.find? q ↔
      ∀ before x later, l = before ++ x :: later →
        p x = false → q x = true →
          ∃ y ∈ before, p y = true ∧ q y = true := by
  rw [List.find?_filter]
  constructor
  · intro hSame before x later hSplit hDropped hMatch
    by_contra hNone
    have hBefore :
        (before.find? fun a => decide (p a = true ∧ q a = true)) =
          none := by
      rw [List.find?_eq_none]
      intro y hy hBoth
      exact hNone ⟨y, hy, of_decide_eq_true hBoth⟩
    rw [hSplit, List.find?_append, List.find?_append, hBefore,
      List.find?_cons_of_neg (by simp [hDropped]),
      List.find?_cons_of_pos hMatch, Option.none_or] at hSame
    cases hFirst : before.find? q with
    | none =>
        rw [hFirst, Option.none_or] at hSame
        have hKept := List.find?_some hSame
        simp [hDropped] at hKept
    | some z =>
        rw [hFirst, Option.some_or] at hSame
        have hKept := List.find?_some hSame
        exact hNone
          ⟨z, List.mem_of_find?_eq_some hFirst,
            of_decide_eq_true hKept⟩
  · intro hFollow
    cases hFirst : l.find? q with
    | none =>
        rw [List.find?_eq_none] at hFirst ⊢
        intro a ha hBoth
        exact hFirst a ha (of_decide_eq_true hBoth).2
    | some x =>
        rcases List.find?_eq_some_iff_append.mp hFirst with
          ⟨hMatch, before, later, hSplit, hBefore⟩
        rw [List.find?_eq_some_iff_append]
        refine ⟨?_, before, later, hSplit, ?_⟩
        · apply decide_eq_true
          refine ⟨?_, hMatch⟩
          by_contra hDropped
          rw [Bool.not_eq_true] at hDropped
          rcases hFollow before x later hSplit hDropped hMatch
            with ⟨y, hy, _, hEarlier⟩
          have hNot := hBefore y hy
          rw [hEarlier] at hNot
          cases hNot
        · intro a ha
          have hNot := hBefore a ha
          rw [Bool.not_eq_true'] at hNot
          simp [hNot]

------------------------------------------------------------
-- What The Tests See
------------------------------------------------------------

/- An identifier whose state was asked for answers again. -/
theorem Identifier.getState_again
    {file : StatFile}
    {self self' : Identifier}
    {state : State}
    (hOk : self.getState file = .ok (state, self')) :
    self'.getState file = .ok (state, self') := by
  have hState := (getState_keeps hOk).2.2
  unfold getState at hOk ⊢
  by_cases hUnread : self.state = State.unread
  · rw [if_pos hUnread] at hOk
    cases hStat : Stat.ofIdentifier file with
    | error e => simp [hStat] at hOk
    | ok stat =>
        simp only [hStat, Except.ok.injEq,
          Prod.mk.injEq] at hOk
        rcases hOk with ⟨hIs, hSelf⟩
        have hShown : stat.state = self'.state := by
          rw [← hSelf, set_state]
        have hKeeps : self'.set stat.state = self' :=
          if_pos hShown
        split
        · simp only [hKeeps]
          rw [hState]
        · rw [hState]
  · rw [if_neg hUnread] at hOk
    cases hOk
    rw [if_neg hUnread]

namespace Controller

/-
  An agent finds the same state and the same values in two
  controllers.
-/
structure SameReading
    (file : StatFile)
    (agent : AgentId)
    (first second : Controller) : Prop where
  state :
    ((first.agentState file agent).map
        fun result => result.map Prod.fst) =
      (second.agentState file agent).map
        fun result => result.map Prod.fst
  value :
    ∀ pgsize field,
      first.getValue pgsize file field agent =
        second.getValue pgsize file field agent

theorem SameReading.refl
    (file : StatFile)
    (agent : AgentId)
    (self : Controller) :
    SameReading file agent self self :=
  ⟨rfl, fun _ _ => rfl⟩

theorem SameReading.trans
    {file : StatFile}
    {agent : AgentId}
    {first second third : Controller}
    (hFirst : SameReading file agent first second)
    (hSecond : SameReading file agent second third) :
    SameReading file agent first third :=
  ⟨hFirst.state.trans hSecond.state,
    fun pgsize field =>
      (hFirst.value pgsize field).trans
        (hSecond.value pgsize field)⟩

/- To ask for a state does not change what is read. -/
theorem sameReading_of_agentState
    {file : StatFile}
    {agent : AgentId}
    {state : State}
    {self self' : Controller}
    (hOk :
      self.agentState file agent =
        some (.ok (state, self'))) :
    SameReading file agent self self' := by
  rcases agentState_ok_cases hOk with
    ⟨_, _, hSelf⟩ | ⟨n, hn, identifier, hPid, hGet, hSelf⟩
  · rw [hSelf]
    exact SameReading.refl file agent self
  · have hOld := NodeList.lookup_of_mem hn
    have hNew := NodeList.lookup_replace hn identifier
    have hAgain := Identifier.getState_again hGet
    have hPid' : (self'.memory agent).pid = some n.addr := by
      rw [hSelf]
      exact hPid
    have hList :
        self'.identifiers =
          self.identifiers.update n.addr
            fun _ => identifier := by
      rw [hSelf]
    constructor
    · rw [hOk]
      unfold agentState
      simp only [hPid', hList, hNew, Option.map_some, hAgain]
      rfl
    · intro pgsize field
      unfold getValue
      simp only [hPid, hPid', hList, hOld, hNew,
        Option.map_some]

end Controller

/-
  A call that answers with what another one says about a
  state, and leaves the same controller behind.
-/
def derived {α β γ : Type}
    (f : α → β)
    (call : Option (Except StatError (α × γ))) :
    Option (Except StatError (β × γ)) :=
  call.map fun result => result.map fun out =>
    (f out.1, out.2)

theorem fst_derived {α β γ : Type}
    (f : α → β)
    (call : Option (Except StatError (α × γ))) :
    ((derived f call).map
        fun result => result.map Prod.fst) =
      (call.map fun result => result.map Prod.fst).map
        fun result => result.map f := by
  cases call with
  | none => rfl
  | some result => cases result <;> rfl

theorem derived_ok {α β γ : Type}
    {f : α → β}
    {call : Option (Except StatError (α × γ))}
    {v : β}
    {c : γ}
    (hOk : derived f call = some (.ok (v, c))) :
    ∃ u, call = some (.ok (u, c)) := by
  rcases Option.map_eq_some_iff.mp hOk with
    ⟨result, hCall, hMap⟩
  cases result with
  | error e => cases hMap
  | ok out =>
      cases hMap
      exact ⟨out.1, hCall⟩

/- What the test says, without the controller afterwards. -/
def AgentState.verdict
    (pgsize : UInt64)
    (file : StatFile)
    (agent : AgentId)
    (ctrl : Controller)
    (self : AgentState) : Option (Except StatError Bool) :=
  (self.test pgsize file agent ctrl).map
    fun result => result.map Prod.fst

/- The test of the state accepts the agent. -/
def StatePtr.accepts
    (pgsize : UInt64)
    (file : StatFile)
    (agent : AgentId)
    (ctrl : Controller)
    (s : StatePtr) : Bool :=
  match s.state.verdict pgsize file agent ctrl with
  | some (.ok accepted) => accepted
  | _ => false

namespace AgentState

variable {pgsize : UInt64} {file : StatFile}
variable {agent : AgentId}

/- Two of the classes ask for the state of the agent. -/
theorem test_process
    (own : ProcessState)
    (ctrl : Controller) :
    (process own).test pgsize file agent ctrl =
      derived (fun state => state.toPid == own.state.pid)
        (ctrl.agentState file agent) := rfl

theorem test_available
    (own : ProcessAvailable)
    (ctrl : Controller) :
    (available own).test pgsize file agent ctrl =
      derived
        (fun state =>
          (state != State.dead &&
            state != State.deadCompat &&
            state != State.zombie &&
            state != State.stopped) == own.required)
        (ctrl.agentState file agent) := rfl

/- A test reads no more than the state and the values. -/
theorem verdict_congr
    {first second : Controller}
    (hSame :
      Controller.SameReading file agent first second)
    (self : AgentState) :
    self.verdict pgsize file agent first =
      self.verdict pgsize file agent second := by
  unfold verdict
  cases self with
  | process own =>
      rw [test_process, test_process, fst_derived,
        fst_derived, hSame.state]
  | available own =>
      rw [test_available, test_available, fst_derived,
        fst_derived, hSame.state]
  | value own =>
      unfold test FieldState.test
      dsimp only
      rw [hSame.value]
      cases second.getValue pgsize file own.field agent with
      | none => rfl
      | some result => cases result <;> rfl

theorem test_of_verdict
    {ctrl : Controller}
    {accepted : Bool}
    {self : AgentState}
    (hOk :
      self.verdict pgsize file agent ctrl =
        some (.ok accepted)) :
    ∃ ctrl', self.test pgsize file agent ctrl =
      some (.ok (accepted, ctrl')) := by
  rcases Option.map_eq_some_iff.mp hOk with
    ⟨result, hTest, hMap⟩
  cases result with
  | error e => cases hMap
  | ok out =>
      cases hMap
      exact ⟨out.2, hTest⟩

/- A test that returns leaves what is read as it was. -/
theorem sameReading_of_test
    {ctrl ctrl' : Controller}
    {accepted : Bool}
    {self : AgentState}
    (hOk :
      self.test pgsize file agent ctrl =
        some (.ok (accepted, ctrl'))) :
    Controller.SameReading file agent ctrl ctrl' := by
  cases self with
  | process own =>
      rw [test_process] at hOk
      rcases derived_ok hOk with ⟨state, hState⟩
      exact Controller.sameReading_of_agentState hState
  | available own =>
      rw [test_available] at hOk
      rcases derived_ok hOk with ⟨state, hState⟩
      exact Controller.sameReading_of_agentState hState
  | value own =>
      rcases Option.map_eq_some_iff.mp hOk with
        ⟨result, _, hMap⟩
      cases result with
      | error e => cases hMap
      | ok v =>
          cases hMap
          exact Controller.SameReading.refl file agent ctrl

end AgentState

------------------------------------------------------------
-- The State That Applies
------------------------------------------------------------

/-
  Each state on a value that accepts the agent comes after
  one on the state of the process that accepts it too.
-/
def FieldsFollow
    (pgsize : UInt64)
    (file : StatFile)
    (agent : AgentId)
    (ctrl : Controller)
    (configured : List StatePtr) : Prop :=
  ∀ before s later, configured = before ++ s :: later →
    s.isField = true →
      s.accepts pgsize file agent ctrl = true →
        ∃ t ∈ before, t.isField = false ∧
          t.accepts pgsize file agent ctrl = true

namespace Controller

variable {pgsize : UInt64} {file : StatFile}
variable {agent : AgentId}

/-
  The scan comes to the first state that accepts the agent,
  whatever the tests before it have made the controller
  remember.
-/
theorem computeState_eq
    {states : List StatePtr}
    {start self : Controller}
    (hSame : SameReading file agent start self)
    (hReturns :
      ∀ s ∈ states,
        Returns (s.state.test pgsize file agent start)) :
    ∃ self',
      self.computeState pgsize file agent states =
        some (.ok
          (states.find? fun s =>
            s.accepts pgsize file agent start, self')) := by
  induction states generalizing self with
  | nil => exact ⟨self, rfl⟩
  | cons s states ih =>
      rw [List.forall_mem_cons] at hReturns
      rcases hReturns with ⟨⟨⟨accepted, after⟩, hTest⟩, hRest⟩
      have hStart :
          s.state.verdict pgsize file agent start =
            some (.ok accepted) := by
        unfold AgentState.verdict
        rw [hTest]
        rfl
      have hAccepts :
          s.accepts pgsize file agent start = accepted := by
        unfold StatePtr.accepts
        rw [hStart]
      rw [AgentState.verdict_congr hSame] at hStart
      rcases AgentState.test_of_verdict hStart with
        ⟨next, hNow⟩
      unfold computeState
      rw [hNow]
      cases accepted with
      | true =>
          rw [List.find?_cons_of_pos hAccepts]
          exact ⟨next, rfl⟩
      | false =>
          rw [List.find?_cons_of_neg (by simp [hAccepts])]
          exact ih
            (hSame.trans (AgentState.sameReading_of_test hNow))
            hRest

/-
  For every sequence of nodes that the factory takes and
  every reading of the agent that raises no error,
  `computeState` finds the state of the first node whose
  test accepts the agent, or the default if there is none,
  if and only if each state on a value that accepts it comes
  after one on the state of the process that does.
-/
theorem computeState_first_iff
    {parseByteRange : ByteRange}
    {nodes : List XmlNode}
    {configured states : List StatePtr}
    (hConfigure :
      Agent.configure parseByteRange nodes =
        .ok (configured.map some, states))
    {self : Controller}
    (hReturns :
      ∀ s ∈ configured,
        Returns (s.state.test pgsize file agent self)) :
    (∃ self',
        self.computeState pgsize file agent states =
          some (.ok
            (configured.find? fun s =>
              s.accepts pgsize file agent self, self'))) ↔
      FieldsFollow pgsize file agent self configured := by
  have hKept := Agent.configure_states hConfigure
  have hScan :
      ∃ self',
        self.computeState pgsize file agent states =
          some (.ok
            (states.find? fun s =>
              s.accepts pgsize file agent self, self')) := by
    apply computeState_eq (SameReading.refl file agent self)
    intro s hs
    rw [hKept] at hs
    exact hReturns s (List.mem_filter.mp hs).1
  rcases hScan with ⟨self', hScan⟩
  have hFirst :=
    find?_filter_eq_iff (fun s : StatePtr => !s.isField)
      (fun s => s.accepts pgsize file agent self) configured
  rw [← hKept] at hFirst
  simp only [Bool.not_eq_false', Bool.not_eq_true'] at hFirst
  unfold FieldsFollow
  rw [← hFirst, hScan]
  constructor
  · rintro ⟨self'', hEq⟩
    exact (Prod.mk.inj
      (Except.ok.inj (Option.some.inj hEq))).1
  · intro hEq
    exact ⟨self', by rw [hEq]⟩

/- An agent that watches `a`, not bound to a process. -/
def unbound : Controller :=
  (World.bare (fun _ => { kind := .exeName ['a'] })
    fun _ => none).ctrl

/- A state for processes that are not there. -/
def notAvailable : XmlNode :=
  [("process-state", "not-available".toList)]

/- A state for a resident size in a range. -/
def smallRss : XmlNode :=
  [("field-name", "rss".toList)]

/- What the nodes are configured to, in that order. -/
def twoConfigured : List StatePtr :=
  [⟨0, .available ⟨false⟩⟩, ⟨1, .value ⟨.rss, 0, 100⟩⟩]

/- The state on the availability applies, the other follows. -/
theorem computeState_first_sample :
    ∃ self',
      unbound.computeState 4096 .absent 0
          [⟨0, .available ⟨false⟩⟩] =
        some (.ok
          (twoConfigured.find? fun s =>
            s.accepts 4096 .absent 0 unbound, self')) := by
  have hConfigure :
      Agent.configure (fun _ => .ok (0, 100))
          [notAvailable, smallRss] =
        .ok
          (twoConfigured.map some,
            [⟨0, .available ⟨false⟩⟩]) := by
    rfl
  have hReturns :
      ∀ s ∈ twoConfigured,
        Returns (s.state.test 4096 .absent 0 unbound) := by
    unfold twoConfigured
    rw [List.forall_mem_cons, List.forall_mem_singleton]
    exact ⟨⟨(true, unbound), rfl⟩, ⟨(true, unbound), rfl⟩⟩
  apply (computeState_first_iff hConfigure hReturns).mpr
  intro before s later hSplit hField _
  cases before with
  | nil =>
      rw [← (List.cons.inj hSplit).1] at hField
      cases hField
  | cons t before =>
      refine ⟨t, List.mem_cons_self, ?_⟩
      rw [← (List.cons.inj hSplit).1]
      exact ⟨rfl, rfl⟩

/-
  An agent with a state for a small resident size alone is
  not bound to a process. The test of the state accepts it,
  and `computeState` falls back on the default.
-/
theorem field_state_silent :
    let small : StatePtr := ⟨0, .value ⟨.rss, 0, 100⟩⟩
    Agent.configure (fun _ => .ok (0, 100)) [smallRss] =
        .ok ([some small], []) ∧
      small.state.test 4096 .absent 0 unbound =
        some (.ok (true, unbound)) ∧
      unbound.computeState 4096 .absent 0 [] =
        some (.ok (none, unbound)) ∧
      ¬ ∃ self',
        unbound.computeState 4096 .absent 0 [] =
          some (.ok
            ([small].find? fun s =>
              s.accepts 4096 .absent 0 unbound, self')) := by
  intro small
  refine ⟨rfl, rfl, rfl, ?_⟩
  rintro ⟨self', hFirst⟩
  have hNone :
      (none : Option StatePtr) =
        [small].find? fun s =>
          s.accepts 4096 .absent 0 unbound :=
    (Prod.mk.inj (Except.ok.inj
      (Option.some.inj hFirst))).1
  cases hNone

end Controller

end UdjatProcess
