import UdjatProcess.System.Notices
import UdjatProcess.Tracking.Roster

/-
  From the text of a pid file to a binding that lasts
  (`PidFileAgent::refresh` in `agent/pidfile.cc`,
  `Agent::set` in `agent/abstract.cc`).

  The file starts with a number, behind blanks and a sign at
  most: decimal digits of any length, of which the stream
  makes the largest number if they are out of range. Where
  it names a tracked process the agent is bound to the first
  element with that number, and stays bound to this element,
  whatever happens, until something drops the process from
  the list. Any other text leaves the agent as it was.

  Key definitions include:
    * `PidText`
    * `World.BoundAt`
    * `World.KeepsBinding`

  Key theorems include:
    * `PidText.extractUnsigned_text`
    * `PidText.exists_text`
    * `Controller.refreshPidFile_text`
    * `World.boundAt_step`
    * `World.follows_text`
-/

namespace UdjatProcess

------------------------------------------------------------
-- The Text
------------------------------------------------------------

/- The digits, what is in front of them, and what follows. -/
structure PidText where
  blanks : CString
  sign : Option Char
  digits : CString
  rest : CString
  onlyBlanks : ∀ c ∈ blanks, isSpace c = true
  signs : ∀ c ∈ sign, c = '+' ∨ c = '-'
  someDigit : digits ≠ []
  onlyDigits : ∀ c ∈ digits, c.isDigit = true
  stops : ∀ c ∈ rest.head?, c.isDigit = false

namespace PidText

def text (t : PidText) : CString :=
  t.blanks ++ (t.sign.toList ++ (t.digits ++ t.rest))

/-
  The number that the text stands for: one out of range is
  the largest, and a minus negates modulo `2^32`.
-/
def number (t : PidText) : UInt32 :=
  if 4294967295 < digitsValue t.digits then
    4294967295
  else if t.sign = some '-' then
    0 - UInt32.ofNat (digitsValue t.digits)
  else
    UInt32.ofNat (digitsValue t.digits)

/- The process number that it is taken for. -/
def pid (t : PidText) : Pid :=
  t.number.toInt32

/- A digit is neither a blank nor a sign. -/
theorem not_isSpace_of_isDigit
    {c : Char}
    (hDigit : c.isDigit = true) :
    isSpace c = false ∧ c ≠ '-' ∧ c ≠ '+' := by
  rw [Char.isDigit_iff_toNat] at hDigit
  have hOther :
      ∀ d : Char, d.toNat < 48 → c ≠ d := by
    intro d hLess hEq
    rw [hEq] at hDigit
    exact absurd hDigit.1 (Nat.not_le_of_lt hLess)
  refine ⟨?_, hOther '-' (by decide), hOther '+' (by decide)⟩
  unfold isSpace
  simp only [Bool.or_eq_false_iff, beq_eq_false_iff_ne]
  refine ⟨⟨⟨⟨⟨hOther ' ' ?_, hOther '\t' ?_⟩, hOther '\n' ?_⟩,
    hOther '\r' ?_⟩, ?_⟩, ?_⟩
  · decide
  · decide
  · decide
  · decide
  · exact Nat.ne_of_gt (Nat.lt_of_lt_of_le (by decide) hDigit.1)
  · exact Nat.ne_of_gt (Nat.lt_of_lt_of_le (by decide) hDigit.1)

/- There is a first digit. -/
theorem digits_eq_cons (t : PidText) :
    ∃ c digits, t.digits = c :: digits ∧
      c.isDigit = true := by
  rcases List.exists_cons_of_ne_nil t.someDigit with
    ⟨c, digits, hDigits⟩
  refine ⟨c, digits, hDigits, t.onlyDigits c ?_⟩
  rw [hDigits]
  exact List.mem_cons_self

/- The digits are taken up to what follows them. -/
theorem takeWhile_digits (t : PidText) :
    (t.digits ++ t.rest).takeWhile Char.isDigit =
      t.digits := by
  rw [List.takeWhile_append_of_pos t.onlyDigits]
  cases hRest : t.rest with
  | nil => simp
  | cons c rest =>
      have hStop : c.isDigit = false := by
        apply t.stops c
        rw [hRest]
        rfl
      simp [hStop]

/- Only the blanks are skipped. -/
theorem dropWhile_text (t : PidText) :
    t.text.dropWhile isSpace =
      t.sign.toList ++ (t.digits ++ t.rest) := by
  unfold text
  rw [List.dropWhile_append_of_pos t.onlyBlanks]
  cases hSign : t.sign with
  | none =>
      rcases t.digits_eq_cons with ⟨c, digits, hDigits, hDigit⟩
      rw [hDigits]
      simp [(not_isSpace_of_isDigit hDigit).1]
  | some c =>
      rcases t.signs c hSign with hPlus | hMinus
      · rw [hPlus]
        rfl
      · rw [hMinus]
        rfl

/- The number of the text is what the stream yields. -/
theorem extractUnsigned_text (t : PidText) :
    extractUnsigned t.text = t.number := by
  have hDigits := t.takeWhile_digits
  unfold extractUnsigned number
  rw [t.dropWhile_text]
  cases hSign : t.sign with
  | none =>
      rcases t.digits_eq_cons with ⟨c, digits, hCons, hDigit⟩
      have hHead := not_isSpace_of_isDigit hDigit
      have hFirst :
          (t.digits ++ t.rest).head? = some c := by
        rw [hCons]
        rfl
      simp [hFirst, hHead.2.1, hHead.2.2, hDigits]
  | some c =>
      rcases t.signs c hSign with hPlus | hMinus
      · simp [hPlus, hDigits]
      · simp [hMinus, hDigits]

/- A sign, digits and a rest make up the text. -/
theorem exists_of_split
    {text number : CString}
    (sign : Option Char)
    (hSigns : ∀ c ∈ sign, c = '+' ∨ c = '-')
    (hBody :
      text.dropWhile isSpace = sign.toList ++ number)
    (hDigits : number.takeWhile Char.isDigit ≠ []) :
    ∃ t : PidText, t.text = text := by
  have hStops :
      ∀ c ∈ (number.dropWhile Char.isDigit).head?,
        c.isDigit = false := by
    intro c hc
    have hStop := List.head?_dropWhile_not Char.isDigit number
    rw [Option.mem_def.mp hc] at hStop
    exact hStop
  let t : PidText :=
    { blanks := text.takeWhile isSpace
      sign := sign
      digits := number.takeWhile Char.isDigit
      rest := number.dropWhile Char.isDigit
      onlyBlanks := fun _ hc => List.mem_takeWhile_imp hc
      signs := hSigns
      someDigit := hDigits
      onlyDigits := fun _ hc => List.mem_takeWhile_imp hc
      stops := hStops }
  refine ⟨t, ?_⟩
  change text.takeWhile isSpace ++ (sign.toList ++ _) = text
  rw [List.takeWhile_append_dropWhile, ← hBody,
    List.takeWhile_append_dropWhile]

/- A text that yields a number is one of these. -/
theorem exists_text
    {text : CString}
    (hSome : extractUnsigned text ≠ 0) :
    ∃ t : PidText, t.text = text := by
  unfold extractUnsigned at hSome
  cases hBody : text.dropWhile isSpace with
  | nil =>
      rw [hBody] at hSome
      exact absurd rfl hSome
  | cons c tail =>
      rw [hBody] at hSome
      by_cases hSign : c = '+' ∨ c = '-'
      · apply exists_of_split (some c) _ hBody
        · intro hNone
          apply hSome
          rcases hSign with hPlus | hMinus
          · simp [hPlus, hNone, digitsValue]
          · simp [hMinus, hNone, digitsValue]
        · intro d hd
          rw [← Option.some.inj hd]
          exact hSign
      · rw [not_or] at hSign
        apply exists_of_split none _ hBody
        · intro hNone
          apply hSome
          simp [hSign.1, hSign.2, hNone, digitsValue]
        · exact fun d hd => absurd hd (Option.not_mem_none d)

end PidText

------------------------------------------------------------
-- The Binding
------------------------------------------------------------

namespace Controller

/- To unbind an agent that is not bound changes nothing. -/
theorem setAgent_none_of_free
    {agent : AgentId}
    {self : Controller}
    (hFree : (self.memory agent).pid = none) :
    self.setAgent agent none = self := by
  have hSame :
      ObjectStore.modify agent (Agent.set none) self.memory =
        self.memory := by
    unfold ObjectStore.modify Agent.set
    rw [hFree, if_pos rfl]
    exact Function.update_eq_self agent self.memory
  unfold setAgent
  rw [hSame]

/-
  An agent that is not bound looks for the process that the
  text names.
-/
theorem refreshPidFile_text
    (t : PidText)
    {agent : AgentId}
    {self : Controller}
    (hFree : (self.memory agent).pid = none) :
    self.refreshPidFile (some t.text) agent =
      if 0 < t.pid then
        self.setAgent agent (self.find t.pid)
      else
        self := by
  have hNull : (self.memory agent).pid.isNone = true := by
    rw [hFree]
    rfl
  unfold refreshPidFile
  rw [if_pos hNull]
  dsimp only
  rw [t.extractUnsigned_text]
  unfold PidText.pid
  by_cases hZero : t.number = 0
  · rw [if_neg (not_not.mpr hZero), hZero]
    rfl
  · rw [if_pos hZero]
    unfold setPid
    have hNotZero : t.number.toInt32 ≠ 0 :=
      fun hEq => hZero (congrArg Int32.toUInt32 hEq)
    split
    · next hNegative =>
      rw [if_neg (Int32.not_lt.mpr (Int32.le_of_lt hNegative))]
      exact setAgent_none_of_free hFree
    · next hNot =>
      have hPositive : 0 < t.number.toInt32 :=
        Int32.lt_of_le_of_ne (Int32.not_lt.mp hNot)
          (Ne.symm hNotZero)
      rw [if_pos hPositive]

/- No other text makes it look for anything. -/
theorem refreshPidFile_of_no_text
    {text : CString}
    (hNone : ∀ t : PidText, t.text ≠ text)
    (agent : AgentId)
    (self : Controller) :
    self.refreshPidFile (some text) agent = self := by
  have hZero : extractUnsigned text = 0 := by
    by_contra hSome
    rcases PidText.exists_text hSome with ⟨t, hText⟩
    exact hNone t hText
  unfold refreshPidFile
  dsimp only
  rw [hZero, if_neg (not_not.mpr rfl), ite_self]

end Controller

------------------------------------------------------------
-- Bindings That Last
------------------------------------------------------------

namespace World

/- The agent is bound to the element of the process there. -/
structure BoundAt
    (id : AgentId)
    (a : Addr)
    (pid : Pid)
    (w : World) : Prop where
  bound : (w.ctrl.memory id).pid = some a
  seated : (a, pid) ∈ w.seats

/-
  The operation keeps the process, and does not build,
  register or start the agent anew.
-/
def KeepsBinding
    (id : AgentId)
    (pid : Pid)
    (w : World) : Op → Prop
| .construct agent _ => agent ≠ id
| .insertAgent agent => agent ≠ id
| .start agent _ => agent ≠ id
| op => keepsPid w.ctrl.fd op pid = true

theorem KeepsBinding.keepsPid
    {id : AgentId}
    {pid : Pid}
    {w : World}
    {op : Op}
    (hKeeps : w.KeepsBinding id pid op) :
    keepsPid w.ctrl.fd op pid = true := by
  cases op with
  | construct _ _ => rfl
  | insertAgent _ => rfl
  | start _ _ => rfl
  | _ => exact hKeeps

/- The process is not that of another element there. -/
theorem pid_of_seated
    {w : World}
    {a : Addr}
    {pid : Pid}
    (hSeated : (a, pid) ∈ w.seats)
    {n : Node Identifier}
    (hn : n ∈ w.ctrl.identifiers.nodes)
    (hAddr : n.addr = a) :
    n.val.pid = pid := by
  rcases List.mem_map.mp hSeated with ⟨m, hm, hEq⟩
  have hSame : n = m :=
    NodeList.node_eq_of_addr_eq hn hm
      (hAddr.trans (congrArg Prod.fst hEq).symm)
  rw [hSame]
  exact congrArg Prod.snd hEq

/- A bound agent does not read its file. -/
theorem memory_refreshPidFile
    {id agent : AgentId}
    {a : Addr}
    {ctrl : Controller}
    (hBound : (ctrl.memory id).pid = some a)
    (file : Option CString) :
    (ctrl.refreshPidFile file agent).memory id =
      ctrl.memory id := by
  by_cases hEq : id = agent
  · have hNotNull :
        ¬ (ctrl.memory agent).pid.isNone = true := by
      rw [← hEq, hBound]
      exact Bool.false_ne_true
    unfold Controller.refreshPidFile
    rw [if_neg hNotNull]
  · rcases Controller.refreshPidFile_cases file agent ctrl with
      hSame | ⟨pid, _, hSet⟩
    · rw [hSame]
    · rw [hSet]
      exact Controller.setAgent_memory_ne hEq _ _

/- Processes that come do not disturb a bound agent. -/
theorem memory_foldl_insert
    {A : Allocator}
    {links : Links}
    {id : AgentId}
    {a : Addr}
    {ctrl : Controller}
    (hBound : (ctrl.memory id).pid = some a)
    (pids : List Pid) :
    (pids.foldl (fun ctrl pid => ctrl.insert A links pid)
        ctrl).memory id =
      ctrl.memory id := by
  rcases Controller.binds_foldl_insert (A := A) (L := links)
      pids ctrl id with
    hSame | ⟨hFree, _⟩
  · exact hSame
  · rw [hBound] at hFree
    cases hFree

theorem memory_reload
    {A : Allocator}
    {links : Links}
    {id : AgentId}
    {a : Addr}
    {ctrl : Controller}
    (hBound : (ctrl.memory id).pid = some a)
    (dir : ProcDir) :
    (ctrl.reload A links dir).memory id =
      ctrl.memory id := by
  have hKept :
      ((ctrl.keepOnly (snapshot dir)).memory id).pid =
        some a := hBound
  rw [Controller.reload_eq_reconcile, Controller.reconcile_eq]
  exact memory_foldl_insert hKept _

/- Other processes may go. -/
theorem memory_remove
    {id : AgentId}
    {a : Addr}
    {pid other : Pid}
    {w : World}
    (hAt : w.BoundAt id a pid)
    (hOther : (!(pid == other)) = true) :
    (w.ctrl.remove other).memory id = w.ctrl.memory id := by
  rw [Controller.remove_memory, if_neg]
  rintro ⟨_, n, hn, hPid, hAddr⟩
  have hSame : some n.addr = some a :=
    hAddr.symm.trans hAt.bound
  rw [pid_of_seated hAt.seated hn (Option.some.inj hSame)]
    at hPid
  rw [hPid, beq_self_eq_true] at hOther
  cases hOther

/- The pointer of the agent stays. -/
theorem pid_step_of_boundAt
    (A : Allocator)
    {id : AgentId}
    {a : Addr}
    {pid : Pid}
    {w : World}
    {op : Op}
    (hAt : w.BoundAt id a pid)
    (hKeeps : w.KeepsBinding id pid op) :
    ((w.step A op).ctrl.memory id).pid =
      (w.ctrl.memory id).pid := by
  have hBound := hAt.bound
  have hInsert :
      ∀ p, ((w.ctrl.insert A w.links p).memory id).pid =
        (w.ctrl.memory id).pid :=
    fun p => congrArg Agent.pid
      (memory_foldl_insert hBound [p])
  cases op with
  | links _ => rfl
  | event ev =>
      cases ev with
      | exec p _ => exact hInsert p
      | exit p _ _ _ =>
          exact congrArg Agent.pid (memory_remove hAt hKeeps)
      | fork _ _ _ _ => rfl
      | other _ _ => rfl
  | insert p => exact hInsert p
  | remove p =>
      exact congrArg Agent.pid (memory_remove hAt hKeeps)
  | construct agent kind =>
      exact congrArg Agent.pid
        (Function.update_of_ne (Ne.symm hKeeps) _ _)
  | insertAgent agent =>
      exact congrArg Agent.pid
        (Controller.insertAgent_memory_ne (Ne.symm hKeeps)
          w.ctrl)
  | removeAgent _ => rfl
  | start agent file =>
      change ((w.ctrl.start w.links file agent).memory id).pid
        = _
      rcases Controller.start_cases (L := w.links) file agent
          w.ctrl with ⟨_, hEq⟩ | hEq
      · rw [hEq, (Controller.startAgent_memory agent id
          w.ctrl).2, Controller.insertAgent_memory_ne
            (Ne.symm hKeeps)]
      · rw [hEq, memory_refreshPidFile hBound]
  | refreshAgent agent file =>
      change ((w.ctrl.refreshAgent file agent).memory id).pid
        = _
      rcases Controller.refreshAgent_cases file agent w.ctrl
        with hEq | hEq
      · rw [hEq]
      · rw [hEq, memory_refreshPidFile hBound]
  | reload dir =>
      exact congrArg Agent.pid (memory_reload hBound dir)
  | onTimer dir =>
      change ((w.ctrl.onTimer A w.links dir).memory id).pid = _
      unfold Controller.onTimer
      split
      · exact congrArg Agent.pid (memory_reload hBound dir)
      · rfl
  | refresh stat read =>
      exact congrArg (fun m : Memory => (m id).pid)
        (Controller.refresh_keeps stat read w.ctrl).2.1
  | updateAgents =>
      exact (Controller.memory_updateAgents w.ctrl id).1
  | getState agent file =>
      exact congrArg (fun m : Memory => (m id).pid)
        (cacheState_rest agent file w.ctrl).2.2.1

/-
  An operation that keeps the process leaves the agent bound
  to its element.
-/
theorem boundAt_step
    (A : Allocator)
    {id : AgentId}
    {a : Addr}
    {pid : Pid}
    (w : World)
    (op : Op)
    (hAt : w.BoundAt id a pid)
    (hKeeps : w.KeepsBinding id pid op) :
    (w.step A op).BoundAt id a pid := by
  refine ⟨(pid_step_of_boundAt A hAt hKeeps).trans
    hAt.bound, ?_⟩
  rcases seats_step A w op with ⟨added, hSeats, _⟩
  rw [hSeats]
  exact List.mem_append_left _
    (List.mem_filter.mpr ⟨hAt.seated, hKeeps.keepsPid⟩)

/- What reading the text comes to. -/
theorem step_text
    (A : Allocator)
    {w : World}
    {id : AgentId}
    (hFile : w.IsPidFile id)
    (hFree : w.Unbound id)
    (t : PidText) :
    w.step A (.refreshAgent id (some t.text)) =
      ⟨if 0 < t.pid then
          w.ctrl.setAgent id (w.ctrl.find t.pid)
        else
          w.ctrl,
        w.links⟩ := by
  rcases hFile with ⟨pidfile, hKind⟩
  rw [← Controller.refreshPidFile_text t hFree]
  simp only [step, operate, linksAfter,
    Controller.refreshAgent, hKind]

/- What any other text comes to. -/
theorem step_no_text
    (A : Allocator)
    {w : World}
    {id : AgentId}
    (hFile : w.IsPidFile id)
    {text : CString}
    (hNone : ∀ t : PidText, t.text ≠ text) :
    w.step A (.refreshAgent id (some text)) = w := by
  rcases hFile with ⟨pidfile, hKind⟩
  have hSame :=
    Controller.refreshPidFile_of_no_text hNone id w.ctrl
  simp only [step, operate, linksAfter,
    Controller.refreshAgent, hKind, hSame]

/- An agent that is set to a process reports. -/
theorem boundAt_of_setAgent
    {w : World}
    {id : AgentId}
    {a : Addr}
    {pid : Pid}
    (hFree : w.Unbound id)
    (hFind : w.ctrl.find pid = some a) :
    let w' : World := ⟨w.ctrl.setAgent id (some a), w.links⟩
    (w'.ctrl.memory id).updates =
        (w.ctrl.memory id).updates + 1 ∧
      w'.BoundAt id a pid := by
  intro w'
  have hMemory :
      w'.ctrl.memory id = (w.ctrl.memory id).set (some a) :=
    Controller.setAgent_memory_same id (some a) w.ctrl
  refine ⟨?_, ?_, ?_⟩
  · have hTold := Agent.told_set (some a) (w.ctrl.memory id)
    unfold Agent.Told at hTold
    rw [Agent.set_pid, hFree,
      if_neg (Option.some_ne_none a)] at hTold
    rw [hMemory]
    exact hTold
  · rw [hMemory, Agent.set_pid]
  · rcases Controller.find_spec hFind with
      ⟨n, hn, hAddr, hPid⟩
    rw [← hAddr, ← hPid]
    exact List.mem_map_of_mem hn

/-
  An agent with a pid file that is not bound reads the text.
  If this names a tracked process, the agent reports, and is
  bound to the first element of the process in every state
  of any run that keeps the process and does not start the
  agent anew. If it names none nothing changes, whatever it
  is.
-/
theorem follows_text
    {A : Allocator}
    {w : World}
    {id : AgentId}
    (hFile : w.IsPidFile id)
    (hFree : w.Unbound id)
    (text : CString) :
    let w' := w.step A (.refreshAgent id (some text))
    (∀ t : PidText, t.text = text →
      ∀ a, 0 < t.pid → w.ctrl.find t.pid = some a →
        (w'.ctrl.memory id).updates =
            (w.ctrl.memory id).updates + 1 ∧
          ∀ ops,
            Runs.Along (step A) (KeepsBinding id t.pid) w'
                ops →
              Runs.Always (step A) (BoundAt id a t.pid) w'
                ops) ∧
      ((∀ t : PidText, t.text = text →
          0 < t.pid → ¬ w.ctrl.Tracks t.pid) →
        w' = w) := by
  intro w'
  constructor
  · intro t hText a hPositive hFind
    have hStep := step_text A hFile hFree t
    rw [if_pos hPositive, hFind, hText] at hStep
    have hAt := boundAt_of_setAgent hFree hFind
    rw [← hStep] at hAt
    refine ⟨hAt.1, fun ops hKeeps => ?_⟩
    exact Runs.always_of_along
      (fun v op => boundAt_step A v op) hAt.2 hKeeps
  · intro hNot
    by_cases hSome : ∃ t : PidText, t.text = text
    · rcases hSome with ⟨t, hText⟩
      have hStep := step_text A hFile hFree t
      rw [hText] at hStep
      by_cases hPositive : 0 < t.pid
      · have hNone : w.ctrl.find t.pid = none :=
          (w.ctrl.find_none_iff t.pid).mpr
            (hNot t hText hPositive)
        rw [if_pos hPositive, hNone,
          Controller.setAgent_none_of_free hFree] at hStep
        exact hStep
      · rw [if_neg hPositive] at hStep
        exact hStep
    · exact step_no_text A hFile
        (fun t hText => hSome ⟨t, hText⟩)

/- A line ` +05`, and another line. -/
def twoLines : PidText where
  blanks := [' ']
  sign := some '+'
  digits := ['0', '5']
  rest := ['\n', '6', '\n']
  onlyBlanks := List.forall_mem_singleton.mpr rfl
  signs := by
    intro c hc
    exact Or.inl (Option.some.inj hc).symm
  someDigit := List.cons_ne_nil _ _
  onlyDigits :=
    List.forall_mem_cons.mpr
      ⟨rfl, List.forall_mem_singleton.mpr rfl⟩
  stops := by
    intro c hc
    cases hc
    rfl

/-
  The file has the two lines. Process 5 is tracked and keeps
  its element while process 6 comes and goes.
-/
theorem follows_text_sample :
    let ctrl :=
      { World.oneLoaded.ctrl with
        memory := fun _ => { kind := .pidFile [] } }
    let w : World := ⟨ctrl, fun _ => none⟩
    let w' :=
      w.step (.above [])
        (.refreshAgent 7 (some twoLines.text))
    Runs.Always (step (.above [])) (BoundAt 7 1 5) w'
      [.event (.exec 6 6), .event (.exit 6 6 0 0)] := by
  intro ctrl w w'
  have hFile : w.IsPidFile 7 := ⟨[], rfl⟩
  have hFollows :=
    follows_text (A := .above []) hFile rfl twoLines.text
  have hNumber : twoLines.pid = 5 := by decide
  have hBound := hFollows.1 twoLines rfl 1
  rw [hNumber] at hBound
  exact (hBound (by decide) (by decide)).2 _
    ⟨rfl, rfl, trivial⟩

end World

end UdjatProcess
