import UdjatProcess.Pid.StatText

/-
  The line that the kernel writes into `/proc/<pid>/stat`,
  read back by `Stat::set`.

  The fields are those of the table in `pid/stat.cc`. The
  name of the command may hold anything but a NUL, even what
  looks like the rest of the line; the last parenthesis ends
  it.

  Key definitions include:
    * `Stat.fields`
    * `Stat.line`

  Key theorems include:
    * `Stat.setPid_line`
-/

namespace UdjatProcess

namespace Stat

------------------------------------------------------------
-- The Line
------------------------------------------------------------

/- The fields (3) `state` to (52) `exit_code`. -/
def fields (s : Stat) : List (List UInt8) := [
  [s.state],
  Decimal.ofInt s.ppid.toInt,
  Decimal.ofInt s.pgrp.toInt,
  Decimal.ofInt s.session.toInt,
  Decimal.ofInt s.ttyNr.toInt,
  Decimal.ofInt s.tpgid.toInt,
  Decimal.ofNat s.flags.toNat,
  Decimal.ofNat s.minflt.toNat,
  Decimal.ofNat s.cminflt.toNat,
  Decimal.ofNat s.majflt.toNat,
  Decimal.ofNat s.cmajflt.toNat,
  Decimal.ofNat s.utime.toNat,
  Decimal.ofNat s.stime.toNat,
  Decimal.ofInt s.cutime.toInt,
  Decimal.ofInt s.cstime.toInt,
  Decimal.ofInt s.priority.toInt,
  Decimal.ofInt s.nice.toInt,
  Decimal.ofInt s.numThreads.toInt,
  Decimal.ofInt s.itrealvalue.toInt,
  Decimal.ofNat s.starttime.toNat,
  Decimal.ofNat s.vsize.toNat,
  Decimal.ofInt s.rss.toInt,
  Decimal.ofNat s.rsslim.toNat,
  Decimal.ofNat s.startcode.toNat,
  Decimal.ofNat s.endcode.toNat,
  Decimal.ofNat s.startstack.toNat,
  Decimal.ofNat s.kstkesp.toNat,
  Decimal.ofNat s.kstkeip.toNat,
  Decimal.ofNat s.signal.toNat,
  Decimal.ofNat s.blocked.toNat,
  Decimal.ofNat s.sigignore.toNat,
  Decimal.ofNat s.sigcatch.toNat,
  Decimal.ofNat s.wchan.toNat,
  Decimal.ofNat s.nswap.toNat,
  Decimal.ofNat s.cnswap.toNat,
  Decimal.ofInt s.exitSignal.toInt,
  Decimal.ofInt s.processor.toInt,
  Decimal.ofNat s.rtPriority.toNat,
  Decimal.ofNat s.policy.toNat,
  Decimal.ofNat s.blkioTicks.toNat,
  Decimal.ofNat s.guestTime.toNat,
  Decimal.ofInt s.cguestTime.toInt,
  Decimal.ofNat s.startData.toNat,
  Decimal.ofNat s.endData.toNat,
  Decimal.ofNat s.startBrk.toNat,
  Decimal.ofNat s.argStart.toNat,
  Decimal.ofNat s.argEnd.toNat,
  Decimal.ofNat s.envStart.toNat,
  Decimal.ofNat s.envEnd.toNat,
  Decimal.ofInt s.exitCode.toInt
]

/- The fields with single blanks, and a final newline. -/
def line
    (pid : Pid)
    (comm : List UInt8)
    (s : Stat) : List UInt8 :=
  List.intercalate [' '.toUInt8]
      (Decimal.ofInt pid.toInt ::
        (ascii "(" ++ comm ++ ascii ")") :: s.fields) ++
    ['\n'.toUInt8]

/- The line as one `read` returns it. -/
def lineBytes
    (pid : Pid)
    (comm : List UInt8)
    (s : Stat)
    (hLength : (line pid comm s).length ≤ 4095) : StatBytes :=
  ⟨line pid comm s, Nat.le_succ_of_le hLength⟩

------------------------------------------------------------
-- The Members
------------------------------------------------------------

/- The values that the arguments of `sscanf` stand for. -/
def values (s : Stat) : Scanf.Values members :=
  (s.state, s.ppid, s.pgrp, s.session, s.ttyNr, s.tpgid,
    s.flags, s.minflt, s.cminflt, s.majflt, s.cmajflt,
    s.utime, s.stime, s.cutime, s.cstime, s.priority, s.nice,
    s.numThreads, s.itrealvalue, s.starttime, s.vsize, s.rss,
    s.rsslim, s.startcode, s.endcode, s.startstack,
    s.kstkesp, s.kstkeip, s.signal, s.blocked, s.sigignore,
    s.sigcatch, s.wchan, s.nswap, s.cnswap, s.exitSignal,
    s.processor, s.rtPriority, s.policy, s.blkioTicks,
    s.guestTime, s.cguestTime, s.startData, s.endData,
    s.startBrk, s.argStart, s.argEnd, s.envStart, s.envEnd,
    s.exitCode, ())

/- All members are assigned. -/
theorem assign_values
    (s self : Stat) :
    Scanf.assign members s.values self = s := rfl

/- The one character among the members is the state. -/
set_option maxRecDepth 1024 in
theorem chars_values
    (s : Stat) :
    Scanf.chars members s.values = [s.state] := rfl

/- The fields are the members as they are written. -/
theorem renders_values
    (s : Stat) :
    Scanf.renders members s.values = s.fields := rfl

/- Words with blanks between them. -/
theorem intercalate_blank
    (word : List UInt8)
    (words : List (List UInt8)) :
    List.intercalate [32] (word :: words) =
      word ++ words.flatMap (32 :: ·) := by
  induction words generalizing word with
  | nil => simp [List.intercalate]
  | cons next words ih =>
      rw [List.intercalate_cons_cons, ih next,
        List.flatMap_cons]
      simp

/- The line, cut at the parenthesis behind the name. -/
theorem line_eq
    (pid : Pid)
    (comm : List UInt8)
    (s : Stat) :
    line pid comm s =
      (Decimal.ofInt pid.toInt ++ (32 :: ascii "(" ++ comm)) ++
        nameEnd :: (Scanf.print members s.values ++ [10]) := by
  have hBlank : ' '.toUInt8 = 32 := rfl
  have hNewline : '\n'.toUInt8 = 10 := rfl
  have hEnd : ascii ")" = [nameEnd] := by decide +kernel
  unfold line Scanf.print
  rw [hBlank, hNewline, hEnd, intercalate_blank,
    List.flatMap_cons, renders_values]
  simp only [List.append_assoc, List.cons_append,
    List.nil_append]

------------------------------------------------------------
-- Reading The Line
------------------------------------------------------------

/- A byte of the members that is neither part of a number. -/
theorem not_mem_print
    {s : Stat}
    {c : UInt8}
    (hState : s.state ≠ c)
    (hBlank : c ≠ 32)
    (hSign : c ≠ 45)
    (hDigit : Decimal.isDigit c = false) :
    c ∉ Scanf.print members s.values := by
  intro hMem
  rcases Scanf.mem_print hMem with
    hEq | hEq | hIs | hChar
  · exact hBlank hEq
  · exact hSign hEq
  · rw [hIs] at hDigit
    cases hDigit
  · rw [chars_values, List.mem_singleton] at hChar
    exact hState hChar.symm

/- The name ends at the last parenthesis of the line. -/
theorem nameEnd_not_mem
    {s : Stat}
    (hState : s.state ≠ nameEnd) :
    nameEnd ∉ Scanf.print members s.values ++ [10] := by
  rw [List.mem_append, not_or]
  constructor
  · exact not_mem_print hState (by decide) (by decide)
      (by decide)
  · decide

/- The line has no NUL. -/
theorem nul_not_mem_line
    {pid : Pid}
    {comm : List UInt8}
    {s : Stat}
    (hComm : (0 : UInt8) ∉ comm)
    (hState : s.state ≠ 0) :
    (0 : UInt8) ∉ line pid comm s := by
  have hPid : (0 : UInt8) ∉ Decimal.ofInt pid.toInt := by
    intro hMem
    rcases Decimal.mem_ofInt hMem with hSign | hDigit
    · exact absurd hSign (by decide)
    · exact absurd hDigit (by decide)
  have hOpen : (0 : UInt8) ∉ 32 :: ascii "(" := by
    decide +kernel
  have hPrint :
      (0 : UInt8) ∉ Scanf.print members s.values :=
    not_mem_print hState (by decide) (by decide) (by decide)
  have hEnd : (0 : UInt8) ≠ nameEnd := by decide
  rw [line_eq]
  simp only [List.mem_append, List.mem_cons] at hOpen ⊢
  rintro ((hMem | hMem | hMem) | hMem | hMem | hMem)
  · exact hPid hMem
  · exact hOpen hMem
  · exact hComm hMem
  · exact hEnd hMem
  · exact hPrint hMem
  · exact absurd hMem (by decide)

/- The members are read back from the line. -/
theorem scan_line
    {s : Stat}
    (hVisible : Scanf.isSpace s.state = false)
    (self : Stat) :
    Scanf.scan plan
        (Scanf.print members s.values ++ [10]) 0 self =
      (50, s) := by
  have hChars :
      ∀ c ∈ Scanf.chars members s.values,
        Scanf.isSpace c = false := by
    intro c hc
    rw [chars_values, List.mem_singleton] at hc
    rw [hc]
    exact hVisible
  have hStop :
      ∀ c ∈ [(10 : UInt8)].head?,
        Decimal.isDigit c = false := by
    intro c hc
    rw [← Option.mem_some.mp hc]
    decide
  have hYields := Scanf.yields_print hChars hStop
  rw [plan_eq, Scanf.scan_of_yields hYields 0 self,
    assign_values, length_members]
  rfl

/-
  `Stat::set` recovers every member from the line, whatever
  the buffer and the object held before.
-/
theorem setPid_line
    {files : List UInt8 → StatRead}
    {stack : Nat → UInt8}
    {pid : Pid}
    {comm : List UInt8}
    {written self : Stat}
    {errno : Nat}
    (hLength : (line pid comm written).length ≤ 4095)
    (hFile :
      files (path pid) =
        .content (lineBytes pid comm written hLength) errno)
    (hComm : (0 : UInt8) ∉ comm)
    (hNotNul : written.state ≠ 0)
    (hNotSpace : Scanf.isSpace written.state = false)
    (hNotEnd : written.state ≠ nameEnd) :
    (setPid files stack pid self).outcome = .ok () ∧
      (setPid files stack pid self).stat = written ∧
      ∀ i ∈ (setPid files stack pid self).accesses,
        i < bufferSize := by
  have hText :
      cstring (lineBytes pid comm written hLength).bytes =
        (Decimal.ofInt pid.toInt ++
          (32 :: ascii "(" ++ comm)) ++
        nameEnd ::
          (Scanf.print members written.values ++ [10]) := by
    have hNone :
        (0 : UInt8) ∉ line pid comm written :=
      nul_not_mem_line hComm hNotNul
    exact (cstring_of_no_nul hNone).trans
      (line_eq pid comm written)
  have hCall :
      setPid files stack pid self =
        scanContent stack
          (lineBytes pid comm written hLength) errno
          self := by
    unfold setPid
    rw [hFile]
  have hName := nameEnd_not_mem hNotEnd
  have hScan := scan_line hNotSpace self
  rw [hCall]
  refine ⟨?_, ?_, ?_⟩
  · rw [scanContent_of_name hText hName hScan]
    rfl
  · rw [scanContent_of_name hText hName hScan]
  · intro i hi
    exact Nat.lt_of_le_of_lt (accesses_le hi)
      (Nat.lt_succ_of_le hLength)

/-
  A name `) R 1 (`, the least and the greatest values, and an
  object that held something else.
-/
theorem setPid_line_sample :
    let written : Stat := {
      state := State.sleeping
      ppid := -2147483648
      flags := 4294967295
      utime := 18446744073709551615
      cutime := -9223372036854775808
      exitCode := 2147483647 }
    let received :=
      lineBytes 5 (ascii ") R 1 (") written
        (by decide +kernel)
    let call :=
      setPid (fun _ => .content received 0) (fun _ => 41) 5
        { state := State.zombie, vsize := 7 }
    call.outcome = .ok () ∧ call.stat = written ∧
      ∀ i ∈ call.accesses, i < bufferSize :=
  setPid_line (by decide +kernel) rfl (by decide +kernel)
    (by decide) (by decide) (by decide)

end Stat

end UdjatProcess
