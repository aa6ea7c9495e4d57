import UdjatProcess.System.Accounts
import UdjatProcess.Tracking.Tracked
import UdjatProcess.Usage.Update

/-
  CPU shares never exceed the whole (`refresh.cc`).

  An update sets some percentages to zero and keeps others
  from before, or replaces all of them by shares of one
  system usage. Other operations drop percentages and append
  zeros. So as long as no system usage is computed as a
  quotient by zero, the percentages in the list add up to
  one at most, whatever updates they come from.

  Key definitions include:
    * `Usage.Bounded`
    * `Controller.SharesBounded`
    * `World.DividesByZero`

  Key theorems include:
    * `Controller.bounded_refresh`
    * `World.bounded_step`
    * `World.sharesBounded_always`
-/

------------------------------------------------------------
-- Lists Of Percentages
------------------------------------------------------------

namespace UdjatProcess

namespace Usage

/- Numbers that make up no more than the whole. -/
def Bounded (usages : List Usage) : Prop :=
  ∃ parts, usages = parts.map .real ∧ Shares.Within 1 parts

theorem bounded_nil : Bounded [] :=
  ⟨[], rfl, Shares.Within.nil zero_le_one⟩

/- Each of them is a share of the CPU. -/
theorem Bounded.inUnit
    {usages : List Usage}
    (hBounded : Bounded usages)
    {u : Usage}
    (hMem : u ∈ usages) :
    u.InUnit := by
  rcases hBounded with ⟨parts, hEq, hWithin⟩
  rw [hEq] at hMem
  rcases List.mem_map.mp hMem with ⟨q, hq, hReal⟩
  exact ⟨q, hReal.symm, hWithin.nonneg q hq, hWithin.le hq⟩

theorem Bounded.sum_le
    {usages : List Usage}
    (hBounded : Bounded usages) :
    (usages.map value).sum ≤ 1 := by
  rcases hBounded with ⟨parts, hEq, hWithin⟩
  have hValues : (parts.map Usage.real).map value = parts := by
    rw [List.map_map]
    exact List.map_id parts
  rw [hEq, hValues]
  exact hWithin.sum_le

theorem Bounded.sublist
    {usages usages' : List Usage}
    (hBounded : Bounded usages)
    (hSub : usages'.Sublist usages) :
    Bounded usages' := by
  rcases hBounded with ⟨parts, hEq, hWithin⟩
  rw [hEq] at hSub
  rcases List.sublist_map_iff.mp hSub with
    ⟨parts', hParts, hEq'⟩
  exact ⟨parts', hEq', hWithin.sublist hParts⟩

theorem Bounded.append_zeros
    {usages zeros : List Usage}
    (hBounded : Bounded usages)
    (hZeros : ∀ u ∈ zeros, u = .real 0) :
    Bounded (usages ++ zeros) := by
  rcases hBounded with ⟨parts, hEq, hWithin⟩
  refine ⟨parts ++ zeros.map value, ?_, ?_⟩
  · rw [List.map_append, hEq, List.map_map]
    congr 1
    have hSame :
        zeros.map (Usage.real ∘ value) = zeros.map id := by
      apply List.map_congr_left
      intro u hu
      rw [hZeros u hu]
      rfl
    rw [hSame, List.map_id]
  · apply hWithin.append_zeros
    intro x hx
    rcases List.mem_map.mp hx with ⟨u, hu, hValue⟩
    rw [← hValue, hZeros u hu]
    rfl

/- Setting some of them to zero keeps the bound. -/
theorem Bounded.lower
    {usages usages' : List Usage}
    (hBounded : Bounded usages)
    (hLower :
      List.Forall₂ (fun u v => v = u ∨ v = .real 0)
        usages usages') :
    Bounded usages' := by
  rcases hBounded with ⟨parts, hEq, hWithin⟩
  subst hEq
  have hParts :
      ∃ parts', usages' = parts'.map .real ∧
        List.Forall₂ (fun x y => y = x ∨ y = 0)
          parts parts' := by
    clear hWithin
    induction parts generalizing usages' with
    | nil =>
        cases hLower
        exact ⟨[], rfl, List.Forall₂.nil⟩
    | cons x parts ih =>
        cases hLower with
        | @cons _ v _ vs hHead hTail =>
            rcases ih hTail with ⟨parts', hEq, hAll⟩
            rcases hHead with hSame | hZero
            · exact ⟨x :: parts', by simp [hSame, hEq],
                List.Forall₂.cons (Or.inl rfl) hAll⟩
            · exact ⟨0 :: parts', by simp [hZero, hEq],
                List.Forall₂.cons (Or.inr rfl) hAll⟩
  rcases hParts with ⟨parts', hEq, hAll⟩
  exact ⟨parts', hEq, hWithin.lower hAll⟩

end Usage

/- Dropped and fresh accounts keep the bound. -/
theorem Account.Carried.bounded
    {before after : List Account}
    (hCarried : Account.Carried before after)
    (hBounded :
      Usage.Bounded (before.map fun x => x.cpu.percent)) :
    Usage.Bounded (after.map fun x => x.cpu.percent) := by
  rcases hCarried with ⟨kept, fresh, hEq, hSub, hFresh⟩
  rw [hEq, List.map_append]
  apply (hBounded.sublist (hSub.map _)).append_zeros
  intro u hu
  rcases List.mem_map.mp hu with ⟨x, hx, hPercent⟩
  rw [← hPercent, (hFresh x hx).1]

------------------------------------------------------------
-- Updates
------------------------------------------------------------

namespace Controller

/- The percentages in list order. -/
def percents (self : Controller) : List Usage :=
  self.accounts.map fun x => x.cpu.percent

theorem percents_eq (self : Controller) :
    self.percents =
      self.identifiers.nodes.map fun n =>
        n.val.cpu.percent := by
  unfold percents accounts
  rw [List.map_map]
  rfl

/-
  Every percentage is between zero and one, and so is the
  sum of all of them.
-/
structure SharesBounded (ctrl : Controller) : Prop where
  each :
    ∀ n ∈ ctrl.identifiers.nodes, n.val.cpu.percent.InUnit
  total :
    (ctrl.identifiers.nodes.map fun n =>
      n.val.cpu.percent.value).sum ≤ 1

theorem sharesBounded_of_bounded
    {self : Controller}
    (hBounded : Usage.Bounded self.percents) :
    self.SharesBounded := by
  rw [percents_eq] at hBounded
  refine ⟨?_, ?_⟩
  · intro n hn
    exact hBounded.inUnit (List.mem_map.mpr ⟨n, hn, rfl⟩)
  · have hSum := hBounded.sum_le
    rw [List.map_map] at hSum
    exact hSum

/- The first pass alone sets some percentages to zero. -/
theorem lower_sweep
    (read : Reader)
    (ns : List (Node Identifier)) :
    List.Forall₂ (fun u v => v = u ∨ v = Usage.real 0)
      (ns.map fun n => n.val.cpu.percent)
      ((NodeList.sweepNodes (visit read) ns).nodes.map
        fun n => n.val.cpu.percent) := by
  rw [List.forall₂_map_left_iff, List.forall₂_map_right_iff]
  apply NodeList.forall₂_sweepNodes
  · intro n
    exact Or.inl rfl
  · intro n v out hVisit
    cases hStat : statOf read n with
    | error e =>
        rw [visit_of_error hStat] at hVisit
        cases hVisit
    | ok stat =>
        rw [visit_of_stat hStat, Option.some.injEq] at hVisit
        rcases Identifier.sample_cases stat n.val with
          ⟨_, hPercent, _⟩ | ⟨_, hPercent, _⟩
        · left
          rw [← hPercent, hVisit]
        · right
          rw [← hPercent, hVisit]

/- So does a complete update that has nothing to share. -/
theorem lower_settle
    {self : Controller}
    {read : Reader}
    {q total : ℚ}
    (hReads : self.Completes read)
    (hNone : q = 0 ∨ total = 0) :
    List.Forall₂ (fun u v => v = u ∨ v = Usage.real 0)
      (self.identifiers.nodes.map fun n => n.val.cpu.percent)
      (self.identifiers.nodes.map fun n =>
        (settle (.real q) total read n).cpu.percent) := by
  rw [List.forall₂_map_left_iff, List.forall₂_map_right_iff,
    List.forall₂_same]
  intro n hn
  rcases hReads n hn with ⟨stat, hStat⟩
  by_cases hGains : n.val.Gains stat
  · exact Or.inl
      (percent_settle_of_unshared hStat hGains hNone)
  · exact Or.inr
      (percent_settle_of_not_gains hStat hGains _ _)

/- One that shares replaces every percentage. -/
theorem percents_settle
    {self : Controller}
    {read : Reader}
    {q total : ℚ}
    (hReads : self.Completes read)
    (hUsage : q ≠ 0)
    (hTotal : total ≠ 0) :
    (self.identifiers.nodes.map fun n =>
        (settle (.real q) total read n).cpu.percent) =
      ((self.gains read).map (Shares.share q total)).map
        .real := by
  unfold gains
  rw [List.map_map, List.map_map]
  apply List.map_congr_left
  intro n hn
  rcases hReads n hn with ⟨stat, hStat⟩
  by_cases hGains : n.val.Gains stat
  · exact percent_settle_of_gains hStat hGains hUsage hTotal
  · rw [percent_settle_of_not_gains hStat hGains]
    have hZero : gainOf read n = 0 := by
      rw [gainOf_of_stat hStat]
      exact (Identifier.gain_eq_zero_iff _ _).mpr hGains
    simp [hZero]

/-
  An update keeps the bound, complete or not, if it does not
  divide by zero.
-/
theorem bounded_refresh
    {self : Controller}
    {stat : SystemStat}
    (hBounded : Usage.Bounded self.percents)
    (hDivides : ¬ DividesByZero stat self.system)
    (read : Reader) :
    Usage.Bounded (self.refresh stat read).percents := by
  rw [percents_eq] at hBounded ⊢
  cases hUse : self.cpuUsePerProcess with
  | false =>
      rcases refresh_identifiers_cases stat read self with
        ⟨_, hEq⟩ | ⟨hOn, _⟩
      · rw [hEq]
        exact hBounded
      · rw [hUse] at hOn
        cases hOn
  | true =>
      by_cases hReads : self.Completes read
      · have hNodes :=
          refresh_nodes_of_completes hUse hReads stat
        rw [systemUsage_real hDivides] at hNodes
        rw [hNodes, List.map_map]
        change
          Usage.Bounded
            (self.identifiers.nodes.map fun n =>
              (settle (.real (systemShare stat self.system))
                (self.gains read).sum read n).cpu.percent)
        by_cases hNone :
            systemShare stat self.system = 0 ∨
              (self.gains read).sum = 0
        · exact hBounded.lower (lower_settle hReads hNone)
        · rw [not_or] at hNone
          rw [percents_settle hReads hNone.1 hNone.2]
          refine ⟨_, rfl, ?_⟩
          apply (Shares.within_share
            (systemShare_nonneg _ _) _).mono
            (systemShare_le_one _ _)
          intro w hw
          rcases List.mem_map.mp hw with ⟨n, _, hGain⟩
          rw [← hGain]
          exact gainOf_nonneg read n
      · rw [(refresh_of_not_completes hUse hReads stat).1]
        exact hBounded.lower (lower_sweep read _)

end Controller

------------------------------------------------------------
-- Runs
------------------------------------------------------------

namespace World

/- The operation computes a system usage by zero. -/
def DividesByZero (w : World) : Op → Prop
| .refresh stat _ =>
    Controller.DividesByZero stat w.ctrl.system
| _ => False

theorem bounded_step
    (A : Allocator)
    {w : World}
    {op : Op}
    (hBounded : Usage.Bounded w.ctrl.percents)
    (hDivides : ¬ w.DividesByZero op) :
    Usage.Bounded (w.step A op).ctrl.percents := by
  by_cases hUpdates : op.Updates
  · cases op with
    | refresh stat read =>
        exact Controller.bounded_refresh hBounded hDivides read
    | _ => cases hUpdates
  · exact (carried_step A w hUpdates).bounded hBounded

/- The constructor starts with percentages of zero. -/
theorem bounded_create
    {A : Allocator}
    {links : Links}
    {memory : Memory}
    {dir : ProcDir}
    {fd : Int}
    {cpuUsePerProcess : Bool}
    {stat : Controller.SystemStat}
    {ctrl : Controller}
    (hCreate :
      Controller.create A links memory dir fd
        cpuUsePerProcess stat = .ok ctrl) :
    Usage.Bounded ctrl.percents := by
  rw [← List.nil_append ctrl.percents]
  apply Usage.bounded_nil.append_zeros
  intro u hu
  rcases List.mem_map.mp hu with ⟨x, hx, hPercent⟩
  rw [← hPercent, Controller.accounts_create hCreate x hx]

/-
  In every run from construction in which no update divides
  by zero, every percentage is between zero and one, and so
  is their sum, in every state.
-/
theorem sharesBounded_always
    {A : Allocator}
    {links : Links}
    {memory : Memory}
    {dir : ProcDir}
    {fd : Int}
    {cpuUsePerProcess : Bool}
    {stat : Controller.SystemStat}
    {ctrl : Controller}
    {ops : List Op}
    (hCreate :
      Controller.create A links memory dir fd
        cpuUsePerProcess stat = .ok ctrl)
    (hDivides :
      Runs.Along (step A) (fun w op => ¬ w.DividesByZero op)
        ⟨ctrl, links⟩ ops) :
    Runs.Always (step A) (fun w => w.ctrl.SharesBounded)
      ⟨ctrl, links⟩ ops := by
  have hStep :
      ∀ (w : World) (op : Op), Usage.Bounded w.ctrl.percents →
        ¬ w.DividesByZero op →
        Usage.Bounded (w.step A op).ctrl.percents :=
    fun _ _ hBounded hNot => bounded_step A hBounded hNot
  have hAlways :=
    Runs.always_of_along hStep (bounded_create hCreate) hDivides
  exact hAlways.mono fun _ hBounded =>
    Controller.sharesBounded_of_bounded hBounded

instance (w : World) (op : Op) :
    Decidable (w.DividesByZero op) := by
  cases op <;> dsimp only [DividesByZero] <;>
    infer_instance

/-
  Shares of one update, kept while the next one fails, and
  dropped with their process.
-/
theorem sharesBounded_sample :
    Runs.Always (step (.above []))
      (fun w => w.ctrl.SharesBounded) oneLoaded
      [.refresh ⟨10, 10⟩ fun _ _ => .present { utime := 10 },
        .insert 6,
        .refresh ⟨20, 20⟩ fun _ _ => .present { utime := 20 },
        .refresh ⟨30, 30⟩ fun _ _ => .readFails 3,
        .reload oneProcess,
        .remove 5] :=
  sharesBounded_always create_oneLoaded
    ⟨by decide +kernel, by decide +kernel, by decide +kernel,
      by decide +kernel, by decide +kernel, by decide +kernel,
      trivial⟩

end World

end UdjatProcess
