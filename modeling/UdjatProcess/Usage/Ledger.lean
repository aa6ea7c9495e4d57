import UdjatProcess.Library.Meter
import UdjatProcess.Library.Rounding
import UdjatProcess.System.Accounts
import UdjatProcess.Usage.Update

/-
  A record of what each identifier was sampled at and
  credited with.

  A `Ledger` runs beside the module. For each identifier it
  keeps the contents of all stat files that updates have
  read for it, and the usage that its entries in the list
  `pids` had, and it starts afresh when the identifier goes.
  The tick count that the module stores is that of the last
  sample, and the usages are those of a meter that takes a
  stored zero for no sample and keeps its credits as `float`
  values.

  Key definitions include:
    * `toFloat`
    * `Ledger`
    * `Ledger.step`
    * `Ledger.Balanced`

  Key theorems include:
    * `Controller.refresh_cases_at`
    * `Ledger.world_after`
    * `Ledger.balanced_step`
    * `Ledger.balanced_after`
-/

------------------------------------------------------------
-- One Update
------------------------------------------------------------

namespace UdjatProcess

/- The gain is the credit of a meter. -/
theorem Identifier.gain_eq_credit
    (stat : Stat)
    (self : Identifier) :
    self.gain stat =
      (Meter.credit self.cpu.last.toNat stat.time.toNat :
        ℚ) := by
  have hBoth :
      self.Gains stat ↔
        self.cpu.last.toNat ≠ 0 ∧
          self.cpu.last.toNat < stat.time.toNat :=
    and_congr (not_congr UInt64.toNat_inj.symm)
      UInt64.lt_iff_toNat_lt
  unfold gain Meter.credit
  by_cases hGains : self.Gains stat
  · have hLe : self.cpu.last ≤ stat.time :=
      UInt64.le_iff_toNat_le.mpr (hBoth.mp hGains).2.le
    rw [if_pos hGains, if_pos (hBoth.mp hGains),
      UInt64.toNat_sub_of_le _ _ hLe]
  · rw [if_neg hGains, if_neg fun h => hGains (hBoth.mpr h)]
    rfl

namespace Controller

/- The stat file that an update reads at an address. -/
def sampledAt
    (read : Reader)
    (self : Controller)
    (a : Addr) : Option Stat :=
  if self.cpuUsePerProcess then
    ((NodeList.reached (visit read)
      self.identifiers.nodes).find? fun n =>
        n.addr == a).bind fun n => (statOf read n).toOption
  else
    none

/- The ticks of the entry for an address, if there is one. -/
def creditedAt
    (read : Reader)
    (self : Controller)
    (a : Addr) : ℚ :=
  if self.cpuUsePerProcess then
    ((NodeList.sweepNodes (visit read)
      self.identifiers.nodes).emitted.lookup a).getD 0
  else
    0

/- The process that the element at an address stands for. -/
def pidAt (self : Controller) (a : Addr) : Option Pid :=
  (self.identifiers.lookup a).map fun n => n.val.pid

/- An element's address, process number and tick count. -/
def reading (n : Node Identifier) : Addr × Pid × UInt64 :=
  (n.addr, n.val.pid, n.val.cpu.last)

/- The readings after the first pass over the list. -/
theorem readings_sweep
    (read : Reader)
    (self : Controller) :
    (self.identifiers.sweep (visit read)).nodes.map reading =
      ((NodeList.reached (visit read)
          self.identifiers.nodes).map fun n =>
        (n.addr, n.val.pid,
          (((statOf read n).toOption.map Stat.time).getD
            n.val.cpu.last))) ++
      (self.identifiers.nodes.dropWhile
        fun n => (visit read n).isSome).map reading := by
  unfold NodeList.sweep
  dsimp only
  rw [NodeList.nodes_sweepNodes, List.map_append,
    List.map_map]
  congr 1
  apply List.map_congr_left
  intro n _
  cases hStat : statOf read n with
  | error e =>
      simp [reading, visit_of_error hStat, Except.toOption]
  | ok st =>
      simp [reading, visit_of_stat hStat, Except.toOption]

/-
  The readings after an update: the new tick count of the
  elements it reached, the old one of the others.
-/
theorem readings_refresh
    {self : Controller}
    {read : Reader}
    (hUse : self.cpuUsePerProcess = true)
    (stat : SystemStat) :
    (self.refresh stat read).identifiers.nodes.map reading =
      ((NodeList.reached (visit read)
          self.identifiers.nodes).map fun n =>
        (n.addr, n.val.pid,
          (((statOf read n).toOption.map Stat.time).getD
            n.val.cpu.last))) ++
      (self.identifiers.nodes.dropWhile
        fun n => (visit read n).isSome).map reading := by
  rw [← readings_sweep]
  rcases refresh_identifiers_cases stat read self with
    ⟨hOff, _⟩ | ⟨_, hEq | ⟨u, t, es, hEq⟩⟩
  · rw [hUse] at hOff
    cases hOff
  · rw [hEq]
  · rw [hEq]
    exact map_nodes_setPercents_of_keeps reading
      (fun _ _ => rfl) u t es _

/- An element that the update reaches is credited its gain. -/
theorem sampledAt_of_reached
    {self : Controller}
    {read : Reader}
    (hUse : self.cpuUsePerProcess = true)
    {n : Node Identifier}
    (hn :
      n ∈ NodeList.reached (visit read)
        self.identifiers.nodes) :
    ∃ st, statOf read n = .ok st ∧
      self.sampledAt read n.addr = some st ∧
      self.creditedAt read n.addr = n.val.gain st := by
  have hNodup := self.identifiers.nodup
  rcases (visit_isSome_iff read n).mp
      (NodeList.isSome_of_reached hn) with ⟨st, hStat⟩
  have hFind :
      (NodeList.reached (visit read)
        self.identifiers.nodes).find?
          (fun k => k.addr == n.addr) = some n :=
    NodeList.find?_addr_of_mem
      (hNodup.sublist
        ((NodeList.reached_sublist _ _).map _)) hn
  refine ⟨st, hStat, ?_, ?_⟩
  · simp [sampledAt, hUse, hFind, hStat, Except.toOption]
  · unfold creditedAt
    rw [if_pos hUse, NodeList.lookup_emitted _ hNodup hn,
      visit_of_stat hStat]
    exact Identifier.sample_credit st n.val

/- One that it does not reach is left out. -/
theorem sampledAt_of_rest
    {self : Controller}
    {read : Reader}
    (hUse : self.cpuUsePerProcess = true)
    {n : Node Identifier}
    (hn :
      n ∈ self.identifiers.nodes.dropWhile
        fun n => (visit read n).isSome) :
    self.sampledAt read n.addr = none ∧
      self.creditedAt read n.addr = 0 := by
  have hNodup := self.identifiers.nodup
  have hFind :
      (NodeList.reached (visit read)
        self.identifiers.nodes).find?
          (fun k => k.addr == n.addr) = none :=
    NodeList.find?_addr_eq_none
      (NodeList.not_mem_reached_of_rest _ hNodup hn)
  constructor
  · simp [sampledAt, hUse, hFind]
  · unfold creditedAt
    rw [if_pos hUse,
      NodeList.lookup_emitted_of_rest _ hNodup hn]
    rfl

/- Without the option nothing is read. -/
theorem sampledAt_of_off
    {self : Controller}
    (hOff : self.cpuUsePerProcess = false)
    (read : Reader)
    (a : Addr) :
    self.sampledAt read a = none ∧
      self.creditedAt read a = 0 := by
  simp [sampledAt, creditedAt, hOff]

/- An element is sampled and credited, or neither. -/
theorem sampledAt_cases
    {self : Controller}
    {n : Node Identifier}
    (hn : n ∈ self.identifiers.nodes)
    (read : Reader) :
    (∃ st, self.sampledAt read n.addr = some st ∧
        self.creditedAt read n.addr = n.val.gain st) ∨
      (self.sampledAt read n.addr = none ∧
        self.creditedAt read n.addr = 0) := by
  cases hUse : self.cpuUsePerProcess with
  | false => exact Or.inr (sampledAt_of_off hUse read n.addr)
  | true =>
      rcases NodeList.mem_reached_or_rest (visit read) hn with
        hReached | hRest
      · rcases sampledAt_of_reached hUse hReached with
          ⟨st, _, hBoth⟩
        exact Or.inl ⟨st, hBoth⟩
      · exact Or.inr (sampledAt_of_rest hUse hRest)

/-
  For each element after an update: it was sampled and
  credited with its gain, or neither.
-/
theorem refresh_cases_at
    {self : Controller}
    {read : Reader}
    {stat : SystemStat}
    {m : Node Identifier}
    (hm : m ∈ (self.refresh stat read).identifiers.nodes) :
    ∃ n ∈ self.identifiers.nodes,
      n.addr = m.addr ∧ n.val.pid = m.val.pid ∧
      ((∃ st, self.sampledAt read m.addr = some st ∧
          self.creditedAt read m.addr = n.val.gain st ∧
          m.val.cpu.last = st.time) ∨
        (self.sampledAt read m.addr = none ∧
          self.creditedAt read m.addr = 0 ∧
          m.val.cpu.last = n.val.cpu.last)) := by
  cases hUse : self.cpuUsePerProcess with
  | false =>
      rcases refresh_identifiers_cases stat read self with
        ⟨_, hEq⟩ | ⟨hOn, _⟩
      · rw [hEq] at hm
        rcases sampledAt_of_off hUse read m.addr with
          ⟨hSample, hCredit⟩
        exact ⟨m, hm, rfl, rfl,
          Or.inr ⟨hSample, hCredit, rfl⟩⟩
      · rw [hUse] at hOn
        cases hOn
  | true =>
      have hIn :
          reading m ∈
            (self.refresh stat read).identifiers.nodes.map
              reading :=
        List.mem_map_of_mem hm
      rw [readings_refresh hUse, List.mem_append] at hIn
      rcases hIn with hReached | hRest
      · rcases List.mem_map.mp hReached with ⟨n, hn, hEq⟩
        rcases sampledAt_of_reached hUse hn with
          ⟨st, hStat, hSample, hCredit⟩
        unfold reading at hEq
        rw [hStat] at hEq
        rcases Prod.mk.inj hEq with ⟨hAddr, hEq'⟩
        rcases Prod.mk.inj hEq' with ⟨hPid, hLast⟩
        rw [hAddr] at hSample hCredit
        exact ⟨n, (NodeList.reached_sublist _ _).subset hn,
          hAddr, hPid,
          Or.inl ⟨st, hSample, hCredit, hLast.symm⟩⟩
      · rcases List.mem_map.mp hRest with ⟨n, hn, hEq⟩
        rcases sampledAt_of_rest hUse hn with
          ⟨hSample, hCredit⟩
        unfold reading at hEq
        rcases Prod.mk.inj hEq with ⟨hAddr, hEq'⟩
        rcases Prod.mk.inj hEq' with ⟨hPid, hLast⟩
        rw [hAddr] at hSample hCredit
        exact ⟨n, (List.dropWhile_sublist _).subset hn,
          hAddr, hPid,
          Or.inr ⟨hSample, hCredit, hLast.symm⟩⟩

theorem pidAt_of_account
    {self : Controller}
    {x : Account}
    (hx : x ∈ self.accounts) :
    self.pidAt x.addr = some x.pid := by
  rcases List.mem_map.mp hx with ⟨n, hn, hEq⟩
  rw [← hEq]
  unfold pidAt Account.ofNode
  rw [NodeList.lookup_of_mem hn]
  rfl

theorem account_of_pidAt
    {self : Controller}
    {a : Addr}
    {pid : Pid}
    (hPid : self.pidAt a = some pid) :
    ∃ x ∈ self.accounts, x.addr = a ∧ x.pid = pid := by
  rcases Option.map_eq_some_iff.mp hPid with ⟨n, hLookup, hEq⟩
  rcases NodeList.lookup_spec hLookup with ⟨hn, hAddr⟩
  exact ⟨Account.ofNode n, List.mem_map_of_mem hn, hAddr, hEq⟩

end Controller

------------------------------------------------------------
-- The Ledger
------------------------------------------------------------

/-
  The conversion to `float`, which has 24 significant bits,
  of a number that is in the range of its exponents.
-/
def toFloat (x : ℚ) : ℚ :=
  Rounding.nearest 24 x

theorem toFloat_zero : toFloat 0 = 0 := by
  decide +kernel

/-
  The module, and for the identifier at each address what
  was read for it, newest first, and the usages that it was
  credited, all together.
-/
structure Ledger where
  world : World
  samples : Addr → List Stat
  credited : Addr → ℚ

namespace Ledger

/- Nothing was sampled yet. -/
def start (w : World) : Ledger where
  world := w
  samples := fun _ => []
  credited := fun _ => 0

/- The stat file that an operation reads at an address. -/
def sampleAt (s : Ledger) (a : Addr) : Op → Option Stat
| .refresh _ read => s.world.ctrl.sampledAt read a
| _ => none

/- The ticks that it credits there. -/
def creditAt (s : Ledger) (a : Addr) : Op → ℚ
| .refresh _ read => s.world.ctrl.creditedAt read a
| _ => 0

/- The member `usage` of the entry that it makes for them. -/
def usageAt (s : Ledger) (a : Addr) (op : Op) : ℚ :=
  toFloat (s.creditAt a op)

/- It leaves the identifier at the address where it is. -/
def Keeps
    (A : Allocator)
    (s : Ledger)
    (op : Op)
    (a : Addr) : Prop :=
  (s.world.step A op).ctrl.pidAt a = s.world.ctrl.pidAt a

instance
    (A : Allocator)
    (s : Ledger)
    (op : Op)
    (a : Addr) :
    Decidable (s.Keeps A op a) := by
  unfold Keeps
  infer_instance

def step
    (A : Allocator)
    (s : Ledger)
    (op : Op) : Ledger where
  world := s.world.step A op
  samples a :=
    (s.sampleAt a op).toList ++
      if s.Keeps A op a then s.samples a else []
  credited a :=
    s.usageAt a op +
      if s.Keeps A op a then s.credited a else 0

/- The ledger leaves the module to itself. -/
theorem world_after
    (A : Allocator)
    (s : Ledger)
    (ops : List Op) :
    (Runs.after (step A) s ops).world =
      Runs.after (World.step A) s.world ops := by
  induction ops generalizing s with
  | nil => rfl
  | cons op ops ih => exact ih (s.step A op)

/- The tick counts of a history of samples. -/
def ticks (samples : List Stat) : List Nat :=
  samples.map fun stat => stat.time.toNat

/-
  The module's accounting agrees with the ledger: it stores
  the last sample, and the usages are those of a meter.
-/
structure Balanced (s : Ledger) : Prop where
  last :
    ∀ x ∈ s.world.ctrl.accounts,
      x.cpu.last.toNat =
        Meter.latest (ticks (s.samples x.addr))
  credited :
    ∀ x ∈ s.world.ctrl.accounts,
      s.credited x.addr =
        Meter.credits toFloat (ticks (s.samples x.addr))

/- A fresh account has no samples and no credits. -/
theorem balanced_start
    {w : World}
    (hFresh : ∀ x ∈ w.ctrl.accounts, x.cpu = {}) :
    (start w).Balanced := by
  refine ⟨?_, ?_⟩
  · intro x hx
    rw [hFresh x hx]
    rfl
  · intro x hx
    rfl

/- An update keeps every identifier. -/
theorem keeps_refresh
    {A : Allocator}
    {s : Ledger}
    {stat : Controller.SystemStat}
    {read : Controller.Reader}
    {n m : Node Identifier}
    (hn : n ∈ s.world.ctrl.identifiers.nodes)
    (hm :
      m ∈ (s.world.ctrl.refresh stat
        read).identifiers.nodes)
    (hAddr : n.addr = m.addr)
    (hPid : n.val.pid = m.val.pid) :
    s.Keeps A (.refresh stat read) m.addr := by
  have hNew :
      Account.ofNode m ∈
        (s.world.ctrl.refresh stat read).accounts :=
    List.mem_map_of_mem hm
  have hOld :
      Account.ofNode n ∈ s.world.ctrl.accounts :=
    List.mem_map_of_mem hn
  have hAfter := Controller.pidAt_of_account hNew
  have hBefore := Controller.pidAt_of_account hOld
  simp only [Account.ofNode] at hAfter hBefore
  rw [hAddr, hPid] at hBefore
  exact hAfter.trans hBefore.symm

/- An update enters its samples and credits. -/
theorem balanced_refresh
    {A : Allocator}
    {s : Ledger}
    (hBalanced : s.Balanced)
    (stat : Controller.SystemStat)
    (read : Controller.Reader) :
    (s.step A (.refresh stat read)).Balanced := by
  have hEach :
      ∀ x ∈ (s.world.ctrl.refresh stat read).accounts,
        let s' := s.step A (.refresh stat read)
        x.cpu.last.toNat =
            Meter.latest (ticks (s'.samples x.addr)) ∧
          s'.credited x.addr =
            Meter.credits toFloat
              (ticks (s'.samples x.addr)) := by
    intro x hx
    rcases List.mem_map.mp hx with ⟨m, hm, hEq⟩
    subst hEq
    rcases Controller.refresh_cases_at hm with
      ⟨n, hn, hAddr, hPid, hCases⟩
    have hKeeps :=
      keeps_refresh (A := A) hn hm hAddr hPid
    have hAccount :
        Account.ofNode n ∈ s.world.ctrl.accounts :=
      List.mem_map_of_mem hn
    have hLast := hBalanced.last _ hAccount
    have hCredited := hBalanced.credited _ hAccount
    simp only [Account.ofNode] at hLast hCredited ⊢
    rw [hAddr] at hLast hCredited
    rcases hCases with
      ⟨st, hSample, hCredit, hTime⟩ | ⟨hSample, hCredit, hTime⟩
    · simp only [step, sampleAt, usageAt, creditAt, hSample,
        hCredit, hKeeps, if_true, Option.toList_some,
        List.singleton_append, ticks, List.map_cons,
        Meter.latest, Meter.credits_cons, hTime, true_and]
      rw [Identifier.gain_eq_credit, hLast, hCredited]
      rfl
    · simp only [step, sampleAt, usageAt, creditAt, hSample,
        hCredit, toFloat_zero, hKeeps, if_true,
        Option.toList_none, List.nil_append, hTime, zero_add]
      exact ⟨hLast, hCredited⟩
  exact ⟨fun x hx => (hEach x hx).1,
    fun x hx => (hEach x hx).2⟩

/- Other operations close accounts and open fresh ones. -/
theorem balanced_step
    (A : Allocator)
    {s : Ledger}
    (hBalanced : s.Balanced)
    (op : Op) :
    (s.step A op).Balanced := by
  by_cases hUpdates : op.Updates
  · cases op with
    | refresh stat read => exact balanced_refresh hBalanced _ _
    | _ => cases hUpdates
  · have hCarried := World.carried_step A s.world hUpdates
    have hSample : ∀ a, s.sampleAt a op = none := by
      intro a
      cases op with
      | refresh _ _ => exact absurd trivial hUpdates
      | _ => rfl
    have hCredit : ∀ a, s.creditAt a op = 0 := by
      intro a
      cases op with
      | refresh _ _ => exact absurd trivial hUpdates
      | _ => rfl
    have hEach :
        ∀ x ∈ (s.world.step A op).ctrl.accounts,
          x.cpu.last.toNat =
              Meter.latest
                (ticks ((s.step A op).samples x.addr)) ∧
            (s.step A op).credited x.addr =
              Meter.credits toFloat
                (ticks ((s.step A op).samples x.addr)) := by
      intro x hx
      have hAfter := Controller.pidAt_of_account hx
      simp only [step, usageAt, hSample, hCredit,
        toFloat_zero, Option.toList_none, List.nil_append,
        zero_add]
      rcases hCarried.cases hx with hOld | ⟨hCpu, hFresh⟩
      · have hBefore := Controller.pidAt_of_account hOld
        have hKeeps : s.Keeps A op x.addr :=
          hAfter.trans hBefore.symm
        rw [if_pos hKeeps, if_pos hKeeps]
        exact ⟨hBalanced.last x hOld,
          hBalanced.credited x hOld⟩
      · have hNot : ¬ s.Keeps A op x.addr := by
          intro hKeeps
          have hBefore := hKeeps.symm.trans hAfter
          rcases Controller.account_of_pidAt hBefore with
            ⟨y, hy, hAddr, hPid⟩
          exact hFresh y hy ⟨hAddr.symm, hPid.symm⟩
        rw [if_neg hNot, if_neg hNot, hCpu]
        exact ⟨rfl, rfl⟩
    exact ⟨fun x hx => (hEach x hx).1,
      fun x hx => (hEach x hx).2⟩

/- The accounting agrees with the ledger in every run. -/
theorem balanced_after
    (A : Allocator)
    {s : Ledger}
    (hBalanced : s.Balanced)
    (ops : List Op) :
    (Runs.after (step A) s ops).Balanced := by
  induction ops generalizing s with
  | nil => exact hBalanced
  | cons op ops ih => exact ih (balanced_step A hBalanced op)

end Ledger

end UdjatProcess
