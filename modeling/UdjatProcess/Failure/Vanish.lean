import UdjatProcess.System.World
import UdjatProcess.Usage.Update

/-
  A process that vanishes while an update reads it
  (`refresh.cc`, `pid/stat.cc`).

  A stat file that is gone when it is opened counts as that
  of a dead process. One that goes between open and read
  makes the read throw, and the exception ends the update at
  that process: those behind it are not read, no share is
  computed and the agents are not told. Other processes see
  no difference only where the update reads nothing or was
  going to end early in any case.

  Key definitions include:
    * `Controller.withFile`
    * `Controller.SameOthers`
    * `Controller.Throws`
    * `Controller.Unchanged`
    * `Controller.Masked`

  Key theorems include:
    * `Identifier.sample_eq_self_iff`
    * `Controller.sameOthers_iff`
    * `Controller.others_disturbed`
-/

------------------------------------------------------------
-- Samples That Change Nothing
------------------------------------------------------------

namespace UdjatProcess

/-
  A sample leaves an identifier as it is if it shows the
  cached state and the stored ticks, and its percentage is
  zero.
-/
theorem Identifier.sample_eq_self_iff
    (stat : Stat)
    (self : Identifier) :
    (self.sample stat).1 = self ↔
      stat.state = self.state ∧ stat.time = self.cpu.last ∧
        self.cpu.percent = .real 0 := by
  have hPid := sample_pid stat self
  have hState := sample_state stat self
  have hLast := sample_last stat self
  rcases sample_cases stat self with
    ⟨hGains, hPercent, _⟩ | ⟨_, hPercent, _⟩
  · have hNe : stat.time ≠ self.cpu.last := by
      intro hEq
      have hLess := UInt64.lt_iff_toNat_lt.mp hGains.2
      rw [hEq] at hLess
      exact Nat.lt_irrefl _ hLess
    constructor
    · intro hSame
      rw [hSame] at hLast
      exact absurd hLast.symm hNe
    · rintro ⟨_, hTime, _⟩
      exact absurd hTime hNe
  · constructor
    · intro hSame
      rw [hSame] at hState hLast hPercent
      exact ⟨hState.symm, hLast.symm, hPercent⟩
    · rintro ⟨hSameState, hSameLast, hSamePercent⟩
      rw [hSameState] at hState
      rw [hSameLast] at hLast
      rw [← hSamePercent] at hPercent
      rcases hSample : (self.sample stat).1 with
        ⟨pid, ⟨percent, last⟩, state⟩
      rcases self with ⟨pid', ⟨percent', last'⟩, state'⟩
      rw [hSample] at hPid hState hLast hPercent
      simp only at hPid hState hLast hPercent
      rw [hPid, hState, hLast, hPercent]

------------------------------------------------------------
-- Two Updates
------------------------------------------------------------

namespace Controller

/- What is read, but for one address. -/
def withFile
    (read : Reader)
    (a : Addr)
    (file : StatFile) : Reader :=
  fun b pid => if b = a then file else read b pid

/-
  Two updates left every identifier but the one at an
  address, the system counters and the notification alike.
-/
structure SameOthers
    (a : Addr)
    (first second : Controller) : Prop where
  others :
    (first.identifiers.nodes.filter fun n => n.addr != a) =
      second.identifiers.nodes.filter fun n => n.addr != a
  system : first.system = second.system
  pushed : first.pushed = second.pushed

/- Reading the file of the element throws. -/
def Throws (read : Reader) (n : Node Identifier) : Prop :=
  ∃ e, statOf read n = .error e

/- The file shows what the element has stored already. -/
def Unchanged (read : Reader) (n : Node Identifier) : Prop :=
  ∃ stat, statOf read n = .ok stat ∧
    stat.state = n.val.state ∧
    stat.time = n.val.cpu.last ∧
    n.val.cpu.percent = .real 0

/-
  The failure of an element between the given others does
  not show: nothing is read, or the update ends before it,
  or it ends behind it and nothing in between has changed.
-/
def Masked
    (read : Reader)
    (self : Controller)
    (before later : List (Node Identifier)) : Prop :=
  self.cpuUsePerProcess = false ∨
    (∃ n ∈ before, Throws read n) ∨
    ∃ between n rest, later = between ++ n :: rest ∧
      Throws read n ∧ ∀ m ∈ between, Unchanged read m

theorem throws_iff
    (read : Reader)
    (n : Node Identifier) :
    Throws read n ↔ visit read n = none := by
  unfold Throws
  cases hStat : statOf read n with
  | ok stat => simp [visit_of_stat hStat]
  | error e => simp [visit_of_error hStat]

theorem not_throws_iff
    (read : Reader)
    (n : Node Identifier) :
    ¬ Throws read n ↔ (visit read n).isSome := by
  rw [throws_iff, Option.isSome_iff_ne_none]

/- Other elements are read as before. -/
theorem visit_withFile
    {a : Addr}
    {n : Node Identifier}
    (hNe : n.addr ≠ a)
    (read : Reader)
    (file : StatFile) :
    visit (withFile read a file) n = visit read n := by
  unfold visit withFile
  rw [if_neg hNe]

theorem throws_withFile
    {a : Addr}
    {n : Node Identifier}
    (hNe : n.addr ≠ a)
    (read : Reader)
    (file : StatFile) :
    Throws (withFile read a file) n ↔ Throws read n := by
  rw [throws_iff, throws_iff, visit_withFile hNe]

theorem visit_withFile_of_error
    {k : Node Identifier}
    {file : StatFile}
    {e : StatError}
    (hPid : 0 < k.val.pid)
    (hFails : Stat.set file = .error e)
    (read : Reader) :
    visit (withFile read k.addr file) k = none := by
  simp [visit, withFile, Stat.ofPid, hPid, hFails]

theorem visit_withFile_absent
    (k : Node Identifier)
    (read : Reader) :
    visit (withFile read k.addr .absent) k =
      some (k.val.sample {}) := by
  have hStat :
      statOf (withFile read k.addr .absent) k = .ok {} := by
    unfold statOf withFile Stat.ofPid
    rw [if_pos rfl]
    split <;> rfl
  exact visit_of_stat hStat

theorem sweep_withFile
    {a : Addr}
    {ns : List (Node Identifier)}
    (hOthers : ∀ n ∈ ns, n.addr ≠ a)
    (read : Reader)
    (file : StatFile) :
    NodeList.sweepNodes (visit (withFile read a file)) ns =
      NodeList.sweepNodes (visit read) ns :=
  NodeList.sweepNodes_congr fun n hn =>
    visit_withFile (hOthers n hn) read file

theorem addr_ne_sweepNodes
    {read : Reader}
    {a : Addr}
    {ns : List (Node Identifier)}
    (hOthers : ∀ n ∈ ns, n.addr ≠ a) :
    ∀ n ∈ (NodeList.sweepNodes (visit read) ns).nodes,
      n.addr ≠ a := by
  intro n hn
  have hMem := List.mem_map_of_mem (f := Node.addr) hn
  rw [NodeList.addrs_sweepNodes] at hMem
  rcases List.mem_map.mp hMem with ⟨m, hm, hEq⟩
  rw [← hEq]
  exact hOthers m hm

/- A pass over unchanged elements changes none. -/
theorem sweep_eq_self_iff
    {read : Reader}
    {ns : List (Node Identifier)}
    (hAll : ∀ n ∈ ns, (visit read n).isSome) :
    (NodeList.sweepNodes (visit read) ns).nodes = ns ↔
      ∀ n ∈ ns, Unchanged read n := by
  rw [NodeList.nodes_of_sweep_completed _ _ hAll]
  have hEach :
      ∀ n ∈ ns,
        ((⟨n.addr, ((visit read n).map Prod.fst).getD n.val⟩ :
            Node Identifier) = n ↔ Unchanged read n) := by
    intro n hn
    rcases (visit_isSome_iff read n).mp (hAll n hn) with
      ⟨stat, hStat⟩
    have hSample :=
      Identifier.sample_eq_self_iff stat n.val
    rw [visit_of_stat hStat, Option.map_some,
      Option.getD_some]
    constructor
    · intro hEq
      exact ⟨stat, hStat,
        hSample.mp (congrArg Node.val hEq)⟩
    · rintro ⟨stat', hStat', hSame⟩
      rw [hStat, Except.ok.injEq] at hStat'
      subst hStat'
      rw [hSample.mpr hSame]
  constructor
  · intro hSame n hn
    have hMap := hSame.trans (List.map_id ns).symm
    exact (hEach n hn).mp
      (List.map_inj_left.mp hMap n hn)
  · intro hAllSame
    refine Eq.trans (List.map_congr_left ?_) (List.map_id ns)
    intro n hn
    exact (hEach n hn).mpr (hAllSame n hn)

/- Comparing two lists but for one element of each. -/
theorem filter_eq_iff
    {a : Addr}
    {k k' : Node Identifier}
    {later later' : List (Node Identifier)}
    (before : List (Node Identifier))
    (hk : k.addr = a)
    (hk' : k'.addr = a)
    (hLater : ∀ n ∈ later, n.addr ≠ a)
    (hLater' : ∀ n ∈ later', n.addr ≠ a) :
    ((before ++ k :: later).filter fun n => n.addr != a) =
        ((before ++ k' :: later').filter
          fun n => n.addr != a) ↔
      later = later' := by
  have hKeep :
      ∀ ns : List (Node Identifier),
        (∀ n ∈ ns, n.addr ≠ a) →
          (ns.filter fun n => n.addr != a) = ns := by
    intro ns hOthers
    rw [List.filter_eq_self]
    intro n hn
    simpa using hOthers n hn
  simp [List.filter_append, hk, hk', hKeep later hLater,
    hKeep later' hLater']

------------------------------------------------------------
-- The Two Updates Compared
------------------------------------------------------------

variable {self : Controller} {read : Reader}
variable {before later : List (Node Identifier)}
variable {k : Node Identifier}
variable {file : StatFile} {e : StatError}

/- No other element has the address of one in the list. -/
theorem addr_ne_of_split
    (hNodes : self.identifiers.nodes = before ++ k :: later) :
    (∀ n ∈ before, n.addr ≠ k.addr) ∧
      ∀ n ∈ later, n.addr ≠ k.addr := by
  have hNodup := self.identifiers.nodup
  rw [hNodes, List.map_append, List.map_cons] at hNodup
  rcases List.nodup_append.mp hNodup with ⟨_, hTail, hApart⟩
  have hNot := (List.nodup_cons.mp hTail).1
  constructor
  · intro n hn
    exact hApart n.addr (List.mem_map_of_mem hn) k.addr
      List.mem_cons_self
  · intro n hn hEq
    rw [← hEq] at hNot
    exact hNot (List.mem_map_of_mem hn)

/- A read that throws keeps the update from completing. -/
theorem not_completes_of_mem
    {n : Node Identifier}
    (hn : n ∈ self.identifiers.nodes)
    (hThrows : Throws read n) :
    ¬ self.Completes read := by
  intro hReads
  rcases hThrows with ⟨e, hError⟩
  rcases hReads n hn with ⟨stat, hStat⟩
  rw [hError] at hStat
  cases hStat

/- The failing element throws, the absent one does not. -/
theorem throws_withFile_of_error
    (hPid : 0 < k.val.pid)
    (hFails : Stat.set file = .error e) :
    Throws (withFile read k.addr file) k := by
  rw [throws_iff]
  exact visit_withFile_of_error hPid hFails read

/- The pass goes on behind an element without a file. -/
theorem nodes_sweepNodes_withFile_absent
    {ns : List (Node Identifier)}
    (hOthers : ∀ n ∈ ns, n.addr ≠ k.addr) :
    (NodeList.sweepNodes
        (visit (withFile read k.addr .absent))
        (k :: ns)).nodes =
      ⟨k.addr, (k.val.sample {}).1⟩ ::
        (NodeList.sweepNodes (visit read) ns).nodes := by
  simp [NodeList.sweepNodes, visit_withFile_absent,
    sweep_withFile hOthers]

/- It completes if no other element throws. -/
theorem completes_withFile_absent
    (hNodes : self.identifiers.nodes = before ++ k :: later)
    (hBefore : ∀ n ∈ before, (visit read n).isSome)
    (hLater : ∀ n ∈ later, (visit read n).isSome) :
    self.Completes (withFile read k.addr .absent) := by
  rcases addr_ne_of_split hNodes with ⟨hOthers, hBehind⟩
  intro n hn
  rw [← visit_isSome_iff]
  rw [hNodes, List.mem_append, List.mem_cons] at hn
  rcases hn with hIn | hEq | hIn
  · rw [visit_withFile (hOthers n hIn)]
    exact hBefore n hIn
  · rw [hEq, visit_withFile_absent]
    rfl
  · rw [visit_withFile (hBehind n hIn)]
    exact hLater n hIn

/- Without the option nothing is read. -/
theorem sameOthers_of_off
    (hUse : self.cpuUsePerProcess = false)
    (a : Addr)
    (stat : SystemStat)
    (read' : Reader) :
    SameOthers a (self.refresh stat read)
      (self.refresh stat read') := by
  unfold refresh
  simp only [hUse, Bool.false_eq_true, if_false]
  exact ⟨rfl, rfl, rfl⟩

/- The elements after an update that ends at one of them. -/
theorem refresh_nodes_of_fail
    {reads : Reader}
    {first rest : List (Node Identifier)}
    {n : Node Identifier}
    (hUse : self.cpuUsePerProcess = true)
    (hNodes : self.identifiers.nodes = first ++ n :: rest)
    (hFirst : ∀ m ∈ first, (visit reads m).isSome)
    (hThrows : Throws reads n)
    (stat : SystemStat) :
    (self.refresh stat reads).identifiers.nodes =
        (NodeList.sweepNodes (visit reads) first).nodes ++
          n :: rest ∧
      (self.refresh stat reads).pushed = self.pushed := by
  have hMem : n ∈ self.identifiers.nodes := by
    rw [hNodes]
    simp
  have hAfter :=
    refresh_of_not_completes hUse
      (not_completes_of_mem hMem hThrows) stat
  refine ⟨?_, hAfter.2⟩
  rw [hAfter.1]
  unfold NodeList.sweep
  dsimp only
  rw [hNodes]
  exact NodeList.nodes_sweepNodes_of_fail _ hFirst
    ((throws_iff _ n).mp hThrows) rest

/- The same, where the elements before are not disturbed. -/
theorem refresh_withFile_of_fail
    {a : Addr}
    {first rest : List (Node Identifier)}
    {n : Node Identifier}
    (hUse : self.cpuUsePerProcess = true)
    (hNodes : self.identifiers.nodes = first ++ n :: rest)
    (hApart : ∀ m ∈ first, m.addr ≠ a)
    (hFirst : ∀ m ∈ first, (visit read m).isSome)
    (hThrows : Throws (withFile read a file) n)
    (stat : SystemStat) :
    (self.refresh stat
        (withFile read a file)).identifiers.nodes =
        (NodeList.sweepNodes (visit read) first).nodes ++
          n :: rest ∧
      (self.refresh stat (withFile read a file)).pushed =
        self.pushed := by
  have hFirst' :
      ∀ m ∈ first,
        (visit (withFile read a file) m).isSome := by
    intro m hm
    rw [visit_withFile (hApart m hm)]
    exact hFirst m hm
  have hAfter :=
    refresh_nodes_of_fail hUse hNodes hFirst' hThrows stat
  rw [sweep_withFile hApart] at hAfter
  exact hAfter

/-
  Without its file the element is dead, and the update ends
  at the next one whose read throws.
-/
theorem refresh_absent_of_fail
    {between rest : List (Node Identifier)}
    {n : Node Identifier}
    (hUse : self.cpuUsePerProcess = true)
    (hNodes :
      self.identifiers.nodes =
        before ++ k :: (between ++ n :: rest))
    (hBefore : ∀ m ∈ before, (visit read m).isSome)
    (hBetween : ∀ m ∈ between, (visit read m).isSome)
    (hThrows : Throws read n)
    (stat : SystemStat) :
    (self.refresh stat
        (withFile read k.addr .absent)).identifiers.nodes =
        (NodeList.sweepNodes (visit read) before).nodes ++
          ⟨k.addr, (k.val.sample {}).1⟩ ::
            ((NodeList.sweepNodes (visit read) between).nodes ++
              n :: rest) ∧
      (self.refresh stat
          (withFile read k.addr .absent)).pushed =
        self.pushed := by
  rcases addr_ne_of_split hNodes with ⟨hOthers, hLater⟩
  have hApart : ∀ m ∈ between, m.addr ≠ k.addr :=
    fun m hm => hLater m (List.mem_append_left _ hm)
  have hNe : n.addr ≠ k.addr := hLater n (by simp)
  have hNodes' :
      self.identifiers.nodes =
        (before ++ k :: between) ++ n :: rest := by
    rw [hNodes, List.append_assoc, List.cons_append]
  have hBefore' :
      ∀ m ∈ before,
        (visit (withFile read k.addr .absent) m).isSome := by
    intro m hm
    rw [visit_withFile (hOthers m hm)]
    exact hBefore m hm
  have hFirst :
      ∀ m ∈ before ++ k :: between,
        (visit (withFile read k.addr .absent) m).isSome := by
    intro m hm
    rw [List.mem_append, List.mem_cons] at hm
    rcases hm with hIn | hEq | hIn
    · exact hBefore' m hIn
    · rw [hEq, visit_withFile_absent]
      rfl
    · rw [visit_withFile (hApart m hIn)]
      exact hBetween m hIn
  have hAfter :=
    refresh_nodes_of_fail hUse hNodes' hFirst
      ((throws_withFile hNe read .absent).mpr hThrows) stat
  rw [NodeList.nodes_sweepNodes_append _ hBefore',
    nodes_sweepNodes_withFile_absent hApart,
    sweep_withFile hOthers, List.append_assoc,
    List.cons_append] at hAfter
  exact hAfter

/- Where an element before throws the other is not reached. -/
theorem sameOthers_of_before
    (hUse : self.cpuUsePerProcess = true)
    (hNodes : self.identifiers.nodes = before ++ k :: later)
    (hThrows : ∃ n ∈ before, Throws read n)
    (stat : SystemStat)
    (file file' : StatFile) :
    SameOthers k.addr
      (self.refresh stat (withFile read k.addr file))
      (self.refresh stat (withFile read k.addr file')) := by
  have hOthers := (addr_ne_of_split hNodes).1
  have hFail : ∃ n ∈ before, visit read n = none := by
    rcases hThrows with ⟨n, hn, hThrow⟩
    exact ⟨n, hn, (throws_iff read n).mp hThrow⟩
  rcases NodeList.exists_first_fail _ hFail with
    ⟨first, n, rest, hSplit, hNone, hFirst⟩
  rw [hSplit] at hNodes hOthers
  have hApart : ∀ m ∈ first, m.addr ≠ k.addr :=
    fun m hm => hOthers m (List.mem_append_left _ hm)
  have hNe : n.addr ≠ k.addr := hOthers n (by simp)
  have hThrow := (throws_iff read n).mpr hNone
  rw [List.append_assoc, List.cons_append] at hNodes
  -- both updates end at the first of the throwing elements
  have hEnds :=
    fun file'' : StatFile =>
      refresh_withFile_of_fail hUse hNodes hApart hFirst
        ((throws_withFile hNe read file'').mpr hThrow) stat
  constructor
  · rw [(hEnds file).1, (hEnds file').1]
  · rw [refresh_system, refresh_system]
  · rw [(hEnds file).2, (hEnds file').2]

/-
  If no element before it throws and a later one does, the
  updates differ in the elements in between.
-/
theorem sameOthers_iff_of_later
    {between rest : List (Node Identifier)}
    {n : Node Identifier}
    (hUse : self.cpuUsePerProcess = true)
    (hNodes : self.identifiers.nodes = before ++ k :: later)
    (hPid : 0 < k.val.pid)
    (hFails : Stat.set file = .error e)
    (hBefore : ∀ m ∈ before, (visit read m).isSome)
    (hSplit : later = between ++ n :: rest)
    (hThrows : Throws read n)
    (hBetween : ∀ m ∈ between, (visit read m).isSome)
    (stat : SystemStat) :
    SameOthers k.addr
        (self.refresh stat (withFile read k.addr file))
        (self.refresh stat (withFile read k.addr .absent)) ↔
      ∀ m ∈ between, Unchanged read m := by
  subst hSplit
  rcases addr_ne_of_split hNodes with ⟨hOthers, hLater⟩
  have hFailing :=
    refresh_withFile_of_fail hUse hNodes hOthers hBefore
      (throws_withFile_of_error hPid hFails) stat
  have hAbsent :=
    refresh_absent_of_fail hUse hNodes hBefore hBetween
      hThrows stat
  -- all that is left to compare is what lies in between
  have hApart :
      ∀ m ∈ (NodeList.sweepNodes (visit read) between).nodes,
        m.addr ≠ k.addr :=
    addr_ne_sweepNodes
      fun m hm => hLater m (List.mem_append_left _ hm)
  have hLater' :
      ∀ m ∈
        (NodeList.sweepNodes (visit read) between).nodes ++
          n :: rest, m.addr ≠ k.addr := by
    intro m hm
    rcases List.mem_append.mp hm with hIn | hIn
    · exact hApart m hIn
    · exact hLater m (List.mem_append_right _ hIn)
  have hDead :
      (⟨k.addr, (k.val.sample {}).1⟩ :
        Node Identifier).addr = k.addr := rfl
  have hFilter :=
    filter_eq_iff
      (NodeList.sweepNodes (visit read) before).nodes
      rfl hDead hLater hLater'
  rw [← sweep_eq_self_iff hBetween]
  constructor
  · intro hSame
    have hOthersEq := hSame.others
    rw [hFailing.1, hAbsent.1, hFilter] at hOthersEq
    exact (List.append_cancel_right hOthersEq).symm
  · intro hUnchanged
    constructor
    · rw [hFailing.1, hAbsent.1, hFilter, hUnchanged]
    · rw [refresh_system, refresh_system]
    · rw [hFailing.2, hAbsent.2]

/-
  A failure at an element leaves the others as if its file
  had been absent exactly if it is masked.
-/
theorem sameOthers_iff
    (hNodes : self.identifiers.nodes = before ++ k :: later)
    (hPid : 0 < k.val.pid)
    (hFails : Stat.set file = .error e)
    (stat : SystemStat) :
    SameOthers k.addr
        (self.refresh stat (withFile read k.addr file))
        (self.refresh stat (withFile read k.addr .absent)) ↔
      Masked read self before later := by
  cases hUse : self.cpuUsePerProcess with
  | false =>
      exact iff_of_true (sameOthers_of_off hUse _ _ _)
        (Or.inl hUse)
  | true =>
      by_cases hEarly : ∃ n ∈ before, Throws read n
      · exact iff_of_true
          (sameOthers_of_before hUse hNodes hEarly _ _ _)
          (Or.inr (Or.inl hEarly))
      have hBefore :
          ∀ n ∈ before, (visit read n).isSome := by
        intro n hn
        rw [← not_throws_iff]
        exact fun hThrows => hEarly ⟨n, hn, hThrows⟩
      constructor
      · intro hSame
        by_cases hLate : ∃ n ∈ later, visit read n = none
        · rcases NodeList.exists_first_fail _ hLate with
            ⟨between, n, rest, hSplit, hNone, hBetween⟩
          have hThrows := (throws_iff read n).mpr hNone
          have hUnchanged :=
            (sameOthers_iff_of_later hUse hNodes hPid hFails
              hBefore hSplit hThrows hBetween stat).mp hSame
          exact Or.inr (Or.inr
            ⟨between, n, rest, hSplit, hThrows, hUnchanged⟩)
        · have hMem : k ∈ self.identifiers.nodes := by
            rw [hNodes]
            simp
          have hThrows :
              Throws (withFile read k.addr file) k :=
            throws_withFile_of_error hPid hFails
          have hFailing := not_completes_of_mem hMem hThrows
          have hPushed :=
            (refresh_of_not_completes hUse hFailing stat).2
          have hReads :=
            completes_withFile_absent hNodes hBefore
              fun n hn => Option.isSome_iff_ne_none.mpr
                fun hNone => hLate ⟨n, hn, hNone⟩
          have hPushed' := refresh_pushed_of_completes hReads stat
          rw [hSame.pushed, hPushed'] at hPushed
          omega
      · rintro (hOff | hThrows | hLate)
        · rw [hUse] at hOff
          cases hOff
        · exact absurd hThrows hEarly
        · rcases hLate with
            ⟨between, n, rest, hSplit, hThrows, hUnchanged⟩
          have hBetween :
              ∀ m ∈ between, (visit read m).isSome := by
            intro m hm
            rcases hUnchanged m hm with ⟨stat', hStat, _⟩
            exact (visit_isSome_iff read m).mpr ⟨_, hStat⟩
          exact (sameOthers_iff_of_later hUse hNodes hPid
            hFails hBefore hSplit hThrows hBetween
            stat).mpr hUnchanged

/- A host with the processes 5 and 6, just found. -/
def twoFound : Controller :=
  let memory : Memory := fun _ => { kind := .exeName [] }
  ((World.bare memory fun _ => none).ctrl.insert (.above [])
    (fun _ => none) 5).insert (.above []) (fun _ => none) 6

/- Both processes vanish while the update reads them. -/
theorem sameOthers_sample :
    SameOthers 1
      (twoFound.refresh ⟨10, 10⟩
        (withFile (fun _ _ => .readFails 3) 1 (.readFails 3)))
      (twoFound.refresh ⟨10, 10⟩
        (withFile (fun _ _ => .readFails 3) 1 .absent)) := by
  have hNodes :
      twoFound.identifiers.nodes =
        [] ++ ⟨1, { pid := 5 }⟩ :: [⟨2, { pid := 6 }⟩] := by
    decide +kernel
  have hFails :
      Stat.set (.readFails 3) = .error (.cantRead 3) := rfl
  apply (sameOthers_iff hNodes (by decide) hFails _).mpr
  refine Or.inr (Or.inr
    ⟨[], ⟨2, { pid := 6 }⟩, [], rfl, ⟨.cantRead 3, rfl⟩, ?_⟩)
  simp

/-
  Process 5 vanishes while it is read. Process 6 stays
  unread and the agents are not told; had the file of
  process 5 been absent, both would have been done.
-/
theorem others_disturbed :
    let read : Reader :=
      fun _ _ => .present { state := State.running, utime := 7 }
    let failing :=
      twoFound.refresh ⟨10, 10⟩ (withFile read 1 (.readFails 3))
    let absent :=
      twoFound.refresh ⟨10, 10⟩ (withFile read 1 .absent)
    failing.identifiers.nodes =
        [⟨1, { pid := 5 }⟩, ⟨2, { pid := 6 }⟩] ∧
      failing.pushed = 0 ∧
      absent.identifiers.nodes =
        [⟨1, { pid := 5, state := State.dead }⟩,
          ⟨2,
            { pid := 6
              cpu := { last := 7 }
              state := State.running }⟩] ∧
      absent.pushed = 1 ∧
      ¬ SameOthers 1 failing absent := by
  intro read failing absent
  refine ⟨by decide +kernel, by decide +kernel,
    by decide +kernel, by decide +kernel, ?_⟩
  intro hSame
  exact absurd hSame.pushed (by decide +kernel)

end Controller

end UdjatProcess
