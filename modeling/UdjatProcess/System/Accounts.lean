import UdjatProcess.System.World

/-
  What the operations other than an update do to the CPU
  accounting.

  The account of an element is its address, its process
  number and the percentage and tick count it stores. An
  operation may drop accounts and append fresh ones, but
  changes none. A fresh account never has both the address
  and the process number of an earlier one, so the two
  together name one identifier for as long as it is there.
  The option and the system counters they leave alone.

  Key definitions include:
    * `Account`
    * `Controller.accounts`
    * `Account.Carried`
    * `Controller.meters`

  Key theorems include:
    * `Controller.accounts_insert`
    * `Controller.carried_reload`
    * `Controller.accounts_create`
    * `World.carried_step`
    * `World.meters_step`
-/

------------------------------------------------------------
-- Accounts
------------------------------------------------------------

namespace UdjatProcess

/- An identifier and its CPU accounting. -/
structure Account where
  addr : Addr
  pid : Pid
  cpu : Cpu
deriving DecidableEq

namespace Account

/- The account of an element. -/
def ofNode (n : Node Identifier) : Account where
  addr := n.addr
  pid := n.val.pid
  cpu := n.val.cpu

/- Both are accounts of the same identifier. -/
def Same (x y : Account) : Prop :=
  x.addr = y.addr ∧ x.pid = y.pid

/-
  Some of the accounts before, in their order, then fresh
  ones with nothing in them.
-/
def Carried (before after : List Account) : Prop :=
  ∃ kept fresh,
    after = kept ++ fresh ∧ kept.Sublist before ∧
      ∀ x ∈ fresh, x.cpu = {} ∧ ∀ y ∈ before, ¬ x.Same y

theorem Carried.refl (accounts : List Account) :
    Carried accounts accounts :=
  ⟨accounts, [], (List.append_nil _).symm,
    List.Sublist.refl _, by simp⟩

theorem carried_of_sublist
    {before after : List Account}
    (hSub : after.Sublist before) :
    Carried before after :=
  ⟨after, [], (List.append_nil _).symm, hSub, by simp⟩

/-
  An account afterwards is one from before, or it is fresh.
-/
theorem Carried.cases
    {before after : List Account}
    (hCarried : Carried before after)
    {x : Account}
    (hMem : x ∈ after) :
    x ∈ before ∨
      (x.cpu = {} ∧ ∀ y ∈ before, ¬ x.Same y) := by
  rcases hCarried with ⟨kept, fresh, hEq, hSub, hFresh⟩
  rw [hEq, List.mem_append] at hMem
  rcases hMem with hKept | hNew
  · exact Or.inl (hSub.subset hKept)
  · exact Or.inr (hFresh x hNew)

end Account

namespace Controller

variable {A : Allocator} {L : Links}

/- The accounts in list order. -/
def accounts (self : Controller) : List Account :=
  self.identifiers.nodes.map Account.ofNode

theorem accounts_of_identifiers_eq
    {self self' : Controller}
    (hEq : self'.identifiers = self.identifiers) :
    self'.accounts = self.accounts := by
  unfold accounts
  rw [hEq]

@[simp] theorem pids_of_accounts (self : Controller) :
    self.accounts.map Account.pid = self.pids := by
  unfold accounts pids
  rw [List.map_map]
  rfl

@[simp] theorem addrs_of_accounts (self : Controller) :
    self.accounts.map Account.addr =
      self.identifiers.addrs := by
  unfold accounts NodeList.addrs
  rw [List.map_map]
  rfl

@[simp] theorem accounts_insert
    (pid : Pid)
    (self : Controller) :
    (self.insert A L pid).accounts =
      self.accounts ++
        [⟨self.identifiers.fresh A, pid, {}⟩] := by
  simp [accounts, Account.ofNode]

@[simp] theorem accounts_remove
    (pid : Pid)
    (self : Controller) :
    (self.remove pid).accounts =
      self.accounts.filter fun x => !(x.pid == pid) := by
  simp only [accounts, remove_nodes, List.filter_map]
  rfl

theorem accounts_keepOnly
    (current : List Pid)
    (self : Controller) :
    (self.keepOnly current).accounts.Sublist
      self.accounts := by
  unfold accounts keepOnly
  exact List.filter_sublist.map _

/- Inserting processes appends fresh accounts of theirs. -/
theorem accounts_foldl_insert
    (pids : List Pid)
    (self : Controller) :
    ∃ fresh,
      (pids.foldl
          (fun self pid => self.insert A L pid)
          self).accounts =
        self.accounts ++ fresh ∧
      ∀ x ∈ fresh, x.cpu = {} ∧ x.pid ∈ pids := by
  induction pids generalizing self with
  | nil => exact ⟨[], by simp, by simp⟩
  | cons pid pids ih =>
      rcases ih (self.insert A L pid) with
        ⟨fresh, hEq, hFresh⟩
      refine ⟨⟨self.identifiers.fresh A, pid, {}⟩ :: fresh,
        ?_, ?_⟩
      · rw [List.foldl_cons, hEq, accounts_insert,
          List.append_assoc, List.singleton_append]
      · intro x hx
        rcases List.mem_cons.mp hx with hHead | hTail
        · rw [hHead]
          exact ⟨rfl, List.mem_cons_self⟩
        · rcases hFresh x hTail with ⟨hCpu, hPid⟩
          exact ⟨hCpu, List.mem_cons_of_mem _ hPid⟩

theorem carried_insert
    (pid : Pid)
    (self : Controller) :
    Account.Carried self.accounts
      (self.insert A L pid).accounts := by
  refine ⟨self.accounts, _, accounts_insert pid self,
    List.Sublist.refl _, ?_⟩
  intro x hx
  rw [List.mem_singleton.mp hx]
  refine ⟨rfl, ?_⟩
  rintro y hy ⟨hAddr, _⟩
  apply self.identifiers.fresh_not_mem A
  rw [← addrs_of_accounts]
  exact List.mem_map.mpr ⟨y, hy, hAddr.symm⟩

theorem carried_remove
    (pid : Pid)
    (self : Controller) :
    Account.Carried self.accounts
      (self.remove pid).accounts := by
  rw [accounts_remove]
  exact Account.carried_of_sublist List.filter_sublist

/-
  A poll may give a fresh account the address of one that it
  dropped, but only for a process that was not tracked.
-/
theorem carried_reload
    (dir : ProcDir)
    (self : Controller) :
    Account.Carried self.accounts
      (self.reload A L dir).accounts := by
  rw [reload_eq_reconcile, reconcile_eq]
  rcases accounts_foldl_insert (A := A) (L := L)
      ((snapshot dir).filter fun p => p ∉ self.pids)
      (self.keepOnly (snapshot dir)) with
    ⟨fresh, hEq, hFresh⟩
  refine ⟨_, fresh, hEq, accounts_keepOnly _ self, ?_⟩
  intro x hx
  rcases hFresh x hx with ⟨hCpu, hPid⟩
  refine ⟨hCpu, ?_⟩
  rintro y hy ⟨_, hSame⟩
  have hNot : x.pid ∉ self.pids := by
    simpa using (List.mem_filter.mp hPid).2
  apply hNot
  rw [hSame, ← pids_of_accounts]
  exact List.mem_map_of_mem hy

/- The constructor starts with fresh accounts. -/
theorem accounts_create
    {links : Links}
    {memory : Memory}
    {dir : ProcDir}
    {fd : Int}
    {cpuUsePerProcess : Bool}
    {stat : SystemStat}
    {ctrl : Controller}
    (hCreate :
      create A links memory dir fd cpuUsePerProcess stat =
        .ok ctrl) :
    ∀ x ∈ ctrl.accounts, x.cpu = {} := by
  unfold create at hCreate
  cases hLoad : load dir with
  | error e => simp [hLoad] at hCreate
  | ok pids =>
      rw [hLoad] at hCreate
      have hCtrl := Except.ok.inj hCreate
      rcases accounts_foldl_insert (A := A) (L := links) pids
          { identifiers := .empty
            agents := []
            memory := memory
            fd := -1 } with
        ⟨fresh, hEq, hFresh⟩
      have hAccounts : ctrl.accounts = fresh := by
        rw [← hCtrl]
        exact hEq
      intro x hx
      rw [hAccounts] at hx
      exact (hFresh x hx).1

end Controller

------------------------------------------------------------
-- Meters
------------------------------------------------------------

namespace Controller

variable {A : Allocator} {L : Links}

/- What only an update reads or writes beside the accounts. -/
def meters (self : Controller) : Bool × SystemUse :=
  (self.cpuUsePerProcess, self.system)

theorem meters_insertAgent
    (agent : AgentId)
    (self : Controller) :
    (self.insertAgent L agent).meters = self.meters := by
  rcases insertAgent_cases (L := L) agent self with
    ⟨n, _, hEq⟩ | ⟨_, hEq⟩
  · rw [hEq]
    rfl
  · rw [hEq]
    rfl

theorem meters_refreshPidFile
    (file : Option CString)
    (agent : AgentId)
    (self : Controller) :
    (self.refreshPidFile file agent).meters =
      self.meters := by
  rcases refreshPidFile_cases file agent self with
    hEq | ⟨pid, _, hEq⟩
  · rw [hEq]
  · rw [hEq]
    rfl

theorem meters_start
    (file : Option CString)
    (agent : AgentId)
    (self : Controller) :
    (self.start L file agent).meters = self.meters := by
  rcases start_cases (L := L) file agent self with
    ⟨_, hEq⟩ | hEq
  · rw [hEq]
    rcases startAgent_cases (L := L) agent self with
      hStart | hStart
    · rw [hStart, meters_insertAgent]
    · rw [hStart]
      exact meters_insertAgent agent self
  · rw [hEq, meters_refreshPidFile]

theorem meters_refreshAgent
    (file : Option CString)
    (agent : AgentId)
    (self : Controller) :
    (self.refreshAgent file agent).meters =
      self.meters := by
  rcases refreshAgent_cases file agent self with hEq | hEq
  · rw [hEq]
  · rw [hEq, meters_refreshPidFile]

theorem meters_foldl_insert
    (pids : List Pid)
    (self : Controller) :
    (pids.foldl
        (fun self pid => self.insert A L pid)
        self).meters =
      self.meters := by
  induction pids generalizing self with
  | nil => rfl
  | cons pid pids ih =>
      rw [List.foldl_cons, ih]
      rfl

theorem meters_reload
    (dir : ProcDir)
    (self : Controller) :
    (self.reload A L dir).meters = self.meters := by
  rw [reload_eq_reconcile, reconcile_eq, meters_foldl_insert]
  rfl

/- The constructor takes the option and the first sample. -/
theorem meters_create
    {links : Links}
    {memory : Memory}
    {dir : ProcDir}
    {fd : Int}
    {cpuUsePerProcess : Bool}
    {stat : SystemStat}
    {ctrl : Controller}
    (hCreate :
      create A links memory dir fd cpuUsePerProcess stat =
        .ok ctrl) :
    ctrl.meters =
      (cpuUsePerProcess,
        ⟨.real 0, stat.running, stat.idle⟩) := by
  unfold create at hCreate
  cases hLoad : load dir with
  | error e => simp [hLoad] at hCreate
  | ok pids =>
      rw [hLoad] at hCreate
      have hMeters :=
        meters_foldl_insert (A := A) (L := links) pids
          { identifiers := .empty
            agents := []
            memory := memory
            fd := -1 }
      have hSystem := congrArg Prod.snd hMeters
      have hCpu := congrArg SystemUse.cpu hSystem
      rw [← Except.ok.inj hCreate]
      simp only [meters] at hCpu ⊢
      rw [hCpu]

end Controller

------------------------------------------------------------
-- Steps
------------------------------------------------------------

/- The operation is an update. -/
def Op.Updates : Op → Prop
| .refresh _ _ => True
| _ => False

namespace World

/- Caching a state leaves the accounts alone. -/
theorem accounts_cacheState
    (agent : AgentId)
    (file : StatFile)
    (ctrl : Controller) :
    (cacheState agent file ctrl).accounts =
      ctrl.accounts := by
  unfold cacheState
  split
  · next state ctrl' hOk =>
    rcases Controller.agentState_ok_cases hOk with
      ⟨_, _, hSame⟩ | ⟨n, hn, identifier, _, hGet, hNew⟩
    · rw [hSame]
    · rw [hNew]
      rcases Identifier.getState_keeps hGet with
        ⟨hPid, hCpu, _⟩
      apply NodeList.map_nodes_replace_of_eq Account.ofNode hn
      simp [Account.ofNode, hPid, hCpu]
  · rfl

/- Every operation but an update carries the accounts over. -/
theorem carried_step
    (A : Allocator)
    (w : World)
    {op : Op}
    (hNot : ¬ op.Updates) :
    Account.Carried w.ctrl.accounts
      (w.step A op).ctrl.accounts := by
  have hSame :
      ∀ ctrl : Controller,
        ctrl.identifiers = w.ctrl.identifiers →
        Account.Carried w.ctrl.accounts ctrl.accounts := by
    intro ctrl hEq
    rw [Controller.accounts_of_identifiers_eq hEq]
    exact Account.Carried.refl _
  cases op with
  | event ev =>
      cases ev with
      | exec pid tgid =>
          exact Controller.carried_insert pid w.ctrl
      | exit pid tgid code signal =>
          exact Controller.carried_remove pid w.ctrl
      | fork _ _ _ _ => exact hSame _ rfl
      | other _ _ => exact hSame _ rfl
  | insert pid => exact Controller.carried_insert pid w.ctrl
  | remove pid => exact Controller.carried_remove pid w.ctrl
  | insertAgent agent =>
      exact hSame _ (Controller.insertAgent_identifiers _ _)
  | start agent file =>
      exact hSame _ (Controller.start_keeps _ _ _).1
  | refreshAgent agent file =>
      exact hSame _ (Controller.refreshAgent_keeps _ _ _).1
  | reload dir => exact Controller.carried_reload dir w.ctrl
  | onTimer dir =>
      change
        Account.Carried w.ctrl.accounts
          (w.ctrl.onTimer A w.links dir).accounts
      unfold Controller.onTimer
      split
      · exact Controller.carried_reload dir w.ctrl
      · exact Account.Carried.refl _
  | refresh stat read => exact absurd trivial hNot
  | getState agent file =>
      change
        Account.Carried w.ctrl.accounts
          (cacheState agent file w.ctrl).accounts
      rw [accounts_cacheState]
      exact Account.Carried.refl _
  | links _ => exact hSame _ rfl
  | construct _ _ => exact hSame _ rfl
  | removeAgent _ => exact hSame _ rfl
  | updateAgents => exact hSame _ rfl

/- And the meters. -/
theorem meters_step
    (A : Allocator)
    (w : World)
    {op : Op}
    (hNot : ¬ op.Updates) :
    (w.step A op).ctrl.meters = w.ctrl.meters := by
  cases op with
  | event ev => cases ev <;> rfl
  | insertAgent agent =>
      exact Controller.meters_insertAgent agent w.ctrl
  | start agent file =>
      exact Controller.meters_start file agent w.ctrl
  | refreshAgent agent file =>
      exact Controller.meters_refreshAgent file agent w.ctrl
  | reload dir => exact Controller.meters_reload dir w.ctrl
  | onTimer dir =>
      change
        (w.ctrl.onTimer A w.links dir).meters =
          w.ctrl.meters
      unfold Controller.onTimer
      split
      · exact Controller.meters_reload dir w.ctrl
      · rfl
  | refresh stat read => exact absurd trivial hNot
  | getState agent file =>
      change
        (cacheState agent file w.ctrl).meters = w.ctrl.meters
      unfold cacheState
      split
      · next state ctrl' hOk =>
        rcases Controller.agentState_ok_cases hOk with
          ⟨_, _, hSame⟩ | ⟨n, _, identifier, _, _, hNew⟩
        · rw [hSame]
        · rw [hNew]
          rfl
      · rfl
  | links _ => rfl
  | insert _ => rfl
  | remove _ => rfl
  | construct _ _ => rfl
  | removeAgent _ => rfl
  | updateAgents => rfl

/- No operation changes the option. -/
theorem cpuUsePerProcess_step
    (A : Allocator)
    (w : World)
    (op : Op) :
    (w.step A op).ctrl.cpuUsePerProcess =
      w.ctrl.cpuUsePerProcess := by
  by_cases hUpdates : op.Updates
  · cases op with
    | refresh stat read =>
        exact (Controller.refresh_keeps stat read w.ctrl).2.2.2
    | _ => cases hUpdates
  · exact congrArg Prod.fst (meters_step A w hUpdates)

end World

end UdjatProcess
