import UdjatProcess.Tracking.Tracked
import UdjatProcess.Usage.Ledger

/-
  Process numbers that are used again (`controller/load.cc`,
  `refresh.cc`).

  A poll compares process numbers only. When a process ends
  and another one starts under its number between two polls,
  the identifier stays, with the tick count of the process
  that is gone. The start time that the stat file shows
  would tell the two apart, but it is not looked at. So the
  next update subtracts the ticks of one process from those
  of another, unless the old count was zero or the new one
  is not above it.

  Key definitions include:
    * `Ledger.SameProcess`
    * `Ledger.NoTakeover`

  Key theorems include:
    * `Ledger.sameProcess_iff`
    * `Ledger.sameProcess_along_iff`
    * `Ledger.processes_mixed`
-/

------------------------------------------------------------
-- Credits Of One Process
------------------------------------------------------------

namespace UdjatProcess

namespace Ledger

/-
  What an operation credits is the difference of two samples
  of the same process, the new one and the one before it.
-/
def SameProcess (s : Ledger) (op : Op) : Prop :=
  ∀ x ∈ s.world.ctrl.accounts, s.creditAt x.addr op ≠ 0 →
    ∃ now before older,
      s.sampleAt x.addr op = some now ∧
      s.samples x.addr = before :: older ∧
      s.creditAt x.addr op =
        (now.time.toNat : ℚ) - before.time.toNat ∧
      now.starttime = before.starttime

/-
  A process that has taken over the number of a sampled one
  shows no more ticks than it, or that one had shown none.
-/
def NoTakeover (s : Ledger) (op : Op) : Prop :=
  ∀ x ∈ s.world.ctrl.accounts,
    ∀ now ∈ s.sampleAt x.addr op,
    ∀ before ∈ (s.samples x.addr).head?,
      now.starttime ≠ before.starttime →
      before.time = 0 ∨ now.time ≤ before.time

instance (s : Ledger) (op : Op) :
    Decidable (s.NoTakeover op) := by
  unfold NoTakeover
  infer_instance

/- An operation samples and credits an account, or neither. -/
theorem sampleAt_cases
    {s : Ledger}
    {x : Account}
    (hx : x ∈ s.world.ctrl.accounts)
    (op : Op) :
    (∃ now, s.sampleAt x.addr op = some now ∧
        s.creditAt x.addr op =
          (Meter.credit x.cpu.last.toNat now.time.toNat :
            ℚ)) ∨
      (s.sampleAt x.addr op = none ∧
        s.creditAt x.addr op = 0) := by
  cases op with
  | refresh stat read =>
      rcases List.mem_map.mp hx with ⟨n, hn, hEq⟩
      subst hEq
      rcases Controller.sampledAt_cases hn read with
        ⟨now, hSample, hCredit⟩ | hNone
      · left
        refine ⟨now, hSample, ?_⟩
        exact hCredit.trans
          (Identifier.gain_eq_credit now n.val)
      · exact Or.inr hNone
  | _ => exact Or.inr ⟨rfl, rfl⟩

/-
  With the accounting in balance, no two processes are mixed
  exactly if no number was taken over in that way.
-/
theorem sameProcess_iff
    {s : Ledger}
    (hBalanced : s.Balanced)
    (op : Op) :
    s.SameProcess op ↔ s.NoTakeover op := by
  constructor
  · intro hSame x hx now hNow before hHead hOther
    rcases List.head?_eq_some_iff.mp hHead with
      ⟨older, hBefore⟩
    by_contra hNot
    rw [not_or, UInt64.not_le] at hNot
    rcases hNot with ⟨hZero, hLess⟩
    have hLast := hBalanced.last x hx
    rw [hBefore] at hLast
    have hCredit :
        s.creditAt x.addr op =
          (Meter.credit before.time.toNat now.time.toNat :
            ℚ) := by
      rcases sampleAt_cases hx op with
        ⟨now', hNow', hCredit⟩ | ⟨hNone, _⟩
      · rw [hNow] at hNow'
        rw [hCredit, hLast, ← Option.some.inj hNow']
        rfl
      · rw [hNow] at hNone
        cases hNone
    have hLess' := UInt64.lt_iff_toNat_lt.mp hLess
    have hPos : before.time.toNat ≠ 0 := fun hEq =>
      hZero (UInt64.toNat_inj.mp hEq)
    have hCredited : s.creditAt x.addr op ≠ 0 := by
      rw [hCredit, Meter.credit_of_le hPos hLess'.le,
        Nat.cast_ne_zero]
      omega
    rcases hSame x hx hCredited with
      ⟨now', before', older', hNow', hBefore', _, hStart⟩
    rw [hNow, Option.some.injEq] at hNow'
    rw [hBefore, List.cons.injEq] at hBefore'
    rw [← hNow', ← hBefore'.1] at hStart
    exact hOther hStart
  · intro hNone x hx hCredited
    rcases sampleAt_cases hx op with
      ⟨now, hNow, hCredit⟩ | ⟨_, hZero⟩
    · have hLast := hBalanced.last x hx
      cases hSamples : s.samples x.addr with
      | nil =>
          rw [hSamples] at hLast
          have hStored : x.cpu.last.toNat = 0 := hLast
          rw [hCredit, hStored, Meter.credit_zero] at hCredited
          exact absurd rfl hCredited
      | cons before older =>
          rw [hSamples] at hLast
          have hStored :
              x.cpu.last.toNat = before.time.toNat := hLast
          rw [hStored] at hCredit
          have hGain :
              before.time.toNat ≠ 0 ∧
                before.time.toNat < now.time.toNat := by
            by_contra hNot
            rw [hCredit] at hCredited
            unfold Meter.credit at hCredited
            rw [if_neg hNot] at hCredited
            exact hCredited rfl
          refine ⟨now, before, older, hNow, rfl, ?_, ?_⟩
          · rw [hCredit,
              Meter.credit_of_le hGain.1 hGain.2.le,
              Nat.cast_sub hGain.2.le]
          · by_contra hOther
            have hHead :
                before ∈ (s.samples x.addr).head? := by
              rw [hSamples]
              rfl
            rcases hNone x hx now hNow before hHead hOther with
              hZero | hLe
            · rw [hZero] at hGain
              exact hGain.1 rfl
            · exact absurd hGain.2
                (not_lt.mpr (UInt64.le_iff_toNat_le.mp hLe))
    · exact absurd hZero hCredited

/-
  In every run from construction, every credit is the
  difference of two samples of the same process if and only
  if no number is taken over by a process with more ticks
  than the last sample, that being above zero.
-/
theorem sameProcess_along_iff
    {A : Allocator}
    {links : Links}
    {memory : Memory}
    {dir : ProcDir}
    {fd : Int}
    {cpuUsePerProcess : Bool}
    {stat : Controller.SystemStat}
    {ctrl : Controller}
    {ops : List Op}
    (hCreate :
      Controller.create A links memory dir fd
        cpuUsePerProcess stat = .ok ctrl) :
    Runs.Along (step A) SameProcess (start ⟨ctrl, links⟩)
        ops ↔
      Runs.Along (step A) NoTakeover (start ⟨ctrl, links⟩)
        ops := by
  have hStep :
      ∀ (s : Ledger) (op : Op), s.Balanced →
        (s.step A op).Balanced :=
    fun _ op hBalanced => balanced_step A hBalanced op
  have hIff :
      ∀ (s : Ledger) (op : Op), s.Balanced →
        (s.SameProcess op ↔ s.NoTakeover op) :=
    fun _ op hBalanced => sameProcess_iff hBalanced op
  exact Runs.along_congr hStep hIff
    (balanced_start (Controller.accounts_create hCreate)) ops

/- The constructor's result without a netlink socket. -/
def polled : World where
  ctrl := { World.oneLoaded.ctrl with fd := -1 }
  links := World.oneLoaded.links

theorem create_polled :
    Controller.create (.above []) (fun _ => none)
        (fun _ => { kind := .exeName [] }) World.oneProcess
        (-1) true ⟨0, 0⟩ =
      .ok polled.ctrl := rfl

/- A poll that finds process 5. -/
def poll : Op := .onTimer World.oneProcess

/- An update that reads its file. -/
def reading (starttime utime : UInt64) : Op :=
  .refresh ⟨utime, utime + 1⟩ fun _ _ =>
    .present { utime := utime, starttime := starttime }

/- The process that takes over has used less time. -/
theorem sameProcess_sample :
    Runs.Along (step (.above [])) SameProcess (start polled)
      [reading 100 10, poll, reading 200 4, poll,
        reading 200 9] :=
  (sameProcess_along_iff create_polled).mpr
    ⟨by decide +kernel, by decide +kernel, by decide +kernel,
      by decide +kernel, by decide +kernel, trivial⟩

/-
  A process with ten ticks ends, and another one starts
  under its number and has thirty when it is first read. It
  is credited twenty.
-/
theorem processes_mixed :
    let s :=
      Runs.after (step (.above [])) (start polled)
        [reading 100 10, poll]
    s.world.ctrl.fd < 0 ∧
      (s.samples 1).map Stat.starttime = [100] ∧
      (s.sampleAt 1 (reading 200 30)).map Stat.starttime =
        some 200 ∧
      s.creditAt 1 (reading 200 30) = 20 ∧
      ¬ Runs.Along (step (.above [])) SameProcess
        (start polled)
        [reading 100 10, poll, reading 200 30] := by
  intro s
  have hx :
      (⟨1, 5, ⟨.real 0, 10⟩⟩ : Account) ∈
        s.world.ctrl.accounts := by
    decide +kernel
  have hCredit : s.creditAt 1 (reading 200 30) = 20 := by
    decide +kernel
  have hBefore :
      s.samples 1 = [{ utime := 10, starttime := 100 }] := by
    decide +kernel
  have hNow :
      s.sampleAt 1 (reading 200 30) =
        some { utime := 30, starttime := 200 } := by
    decide +kernel
  refine ⟨by decide +kernel, by rw [hBefore]; rfl,
    by rw [hNow]; rfl, hCredit, ?_⟩
  intro hAlong
  have hSame : s.SameProcess (reading 200 30) := hAlong.2.2.1
  have hNe : s.creditAt 1 (reading 200 30) ≠ 0 := by
    rw [hCredit]
    decide +kernel
  rcases hSame _ hx hNe with
    ⟨now, before, older, hNow', hBefore', _, hStart⟩
  have hEq := Option.some.inj (hNow.symm.trans hNow')
  have hEq' :=
    (List.cons.inj (hBefore.symm.trans hBefore')).1
  rw [← hEq, ← hEq'] at hStart
  revert hStart
  decide

end Ledger

end UdjatProcess
