import Mathlib.Logic.Function.Basic
import Mathlib.Data.List.TakeWhile
import UdjatProcess.Pid.Identifier
import UdjatProcess.Library.Memory
import UdjatProcess.Library.Scanf

/-
  The text of `/proc/<pid>/stat` (`pid/stat.cc`).

  `Stat.setPid` is `Identifier::Stat::set` on the bytes that
  `read` returns, with the places of its buffer that it
  writes and reads. `StatRead.file` is what these bytes come
  to for the rest of the module.

  Key definitions include:
    * `StatBytes`
    * `StatRead`
    * `Stat.members`
    * `Stat.scanContent`
    * `Stat.setPid`
    * `Stat.newOfPid`
    * `Stat.newOfIdentifier`
    * `StatRead.file`

  Key theorems include:
    * `Stat.plan_eq`
    * `Stat.scanContent_of_name`
    * `Stat.accesses_le`
    * `Stat.newOfPid_eq`
    * `Stat.newOfIdentifier_eq`
-/

namespace UdjatProcess

open Memory

------------------------------------------------------------
-- The Format
------------------------------------------------------------

namespace Stat

/- The format of `sscanf` in `Stat::set`. -/
def scanFormat : String :=
  " %c %d %d %d %d %d %u %lu %lu %lu %lu %lu" ++
  " %lu %ld %ld %ld %ld %ld %ld %llu %lu %ld" ++
  " %lu %lu %lu %lu %lu %lu %lu %lu %lu %lu %lu" ++
  " %lu %lu %d %d %u %u %llu %lu %ld %lu %lu" ++
  " %lu %lu %lu %lu %lu %d"

/- Its arguments, with the types of the members. -/
def members : List (Scanf.Cell Stat) := [
  ⟨.char, fun v s => { s with state := v }⟩,
  ⟨.int, fun v s => { s with ppid := v }⟩,
  ⟨.int, fun v s => { s with pgrp := v }⟩,
  ⟨.int, fun v s => { s with session := v }⟩,
  ⟨.int, fun v s => { s with ttyNr := v }⟩,
  ⟨.int, fun v s => { s with tpgid := v }⟩,
  ⟨.unsigned, fun v s => { s with flags := v }⟩,
  ⟨.unsignedLong, fun v s => { s with minflt := v }⟩,
  ⟨.unsignedLong, fun v s => { s with cminflt := v }⟩,
  ⟨.unsignedLong, fun v s => { s with majflt := v }⟩,
  ⟨.unsignedLong, fun v s => { s with cmajflt := v }⟩,
  ⟨.unsignedLong, fun v s => { s with utime := v }⟩,
  ⟨.unsignedLong, fun v s => { s with stime := v }⟩,
  ⟨.long, fun v s => { s with cutime := v }⟩,
  ⟨.long, fun v s => { s with cstime := v }⟩,
  ⟨.long, fun v s => { s with priority := v }⟩,
  ⟨.long, fun v s => { s with nice := v }⟩,
  ⟨.long, fun v s => { s with numThreads := v }⟩,
  ⟨.long, fun v s => { s with itrealvalue := v }⟩,
  ⟨.unsignedLongLong, fun v s => { s with starttime := v }⟩,
  ⟨.unsignedLong, fun v s => { s with vsize := v }⟩,
  ⟨.long, fun v s => { s with rss := v }⟩,
  ⟨.unsignedLong, fun v s => { s with rsslim := v }⟩,
  ⟨.unsignedLong, fun v s => { s with startcode := v }⟩,
  ⟨.unsignedLong, fun v s => { s with endcode := v }⟩,
  ⟨.unsignedLong, fun v s => { s with startstack := v }⟩,
  ⟨.unsignedLong, fun v s => { s with kstkesp := v }⟩,
  ⟨.unsignedLong, fun v s => { s with kstkeip := v }⟩,
  ⟨.unsignedLong, fun v s => { s with signal := v }⟩,
  ⟨.unsignedLong, fun v s => { s with blocked := v }⟩,
  ⟨.unsignedLong, fun v s => { s with sigignore := v }⟩,
  ⟨.unsignedLong, fun v s => { s with sigcatch := v }⟩,
  ⟨.unsignedLong, fun v s => { s with wchan := v }⟩,
  ⟨.unsignedLong, fun v s => { s with nswap := v }⟩,
  ⟨.unsignedLong, fun v s => { s with cnswap := v }⟩,
  ⟨.int, fun v s => { s with exitSignal := v }⟩,
  ⟨.int, fun v s => { s with processor := v }⟩,
  ⟨.unsigned, fun v s => { s with rtPriority := v }⟩,
  ⟨.unsigned, fun v s => { s with policy := v }⟩,
  ⟨.unsignedLongLong, fun v s => { s with blkioTicks := v }⟩,
  ⟨.unsignedLong, fun v s => { s with guestTime := v }⟩,
  ⟨.long, fun v s => { s with cguestTime := v }⟩,
  ⟨.unsignedLong, fun v s => { s with startData := v }⟩,
  ⟨.unsignedLong, fun v s => { s with endData := v }⟩,
  ⟨.unsignedLong, fun v s => { s with startBrk := v }⟩,
  ⟨.unsignedLong, fun v s => { s with argStart := v }⟩,
  ⟨.unsignedLong, fun v s => { s with argEnd := v }⟩,
  ⟨.unsignedLong, fun v s => { s with envStart := v }⟩,
  ⟨.unsignedLong, fun v s => { s with envEnd := v }⟩,
  ⟨.int, fun v s => { s with exitCode := v }⟩
]

theorem length_members : members.length = 50 := rfl

theorem parse_scanFormat :
    Scanf.parse scanFormat.toList =
      some (members.flatMap fun cell =>
        [.blank, .conv cell.type]) := by
  unfold scanFormat
  simp only [String.toList_append]
  rfl

/- The arguments fit the format. -/
theorem compile_scanFormat :
    Scanf.compile scanFormat.toList members =
      some (Scanf.spaced members) :=
  Scanf.compile_of_types parse_scanFormat

/- The format with its arguments. -/
def plan : List (Scanf.Step Stat) :=
  (Scanf.compile scanFormat.toList members).get
    (by rw [compile_scanFormat]; rfl)

theorem plan_eq : plan = Scanf.spaced members := by
  unfold plan
  simp only [compile_scanFormat, Option.get_some]

end Stat

------------------------------------------------------------
-- The Buffer
------------------------------------------------------------

/- `sizeof(buffer)` in `Stat::set`. -/
def bufferSize : Nat := 4096

/- What one `read` into the buffer can return. -/
structure StatBytes where
  bytes : List UInt8
  fits : bytes.length ≤ bufferSize

/-
  Opening the file and reading it once, with `errno` as it
  is when the function looks at it.
-/
inductive StatRead where
| openFails (errno : Nat)
| readFails (errno : Nat)
| content (received : StatBytes) (errno : Nat)

/- The characters of a string as bytes. -/
def ascii (s : String) : List UInt8 :=
  s.toList.map Char.toUInt8

/- The character behind the process name. -/
def nameEnd : UInt8 := ')'.toUInt8

/- The bytes before the first NUL. -/
def cstring (bytes : List UInt8) : List UInt8 :=
  bytes.takeWhile (· ≠ 0)

/-
  What a call of `Stat::set` comes to: the places of the
  buffer it writes or reads, how it returns, and the object
  it leaves behind.
-/
structure SetCall where
  accesses : List Nat
  outcome : Except StatError Unit
  stat : Stat

namespace Stat

/-
  The buffer, counted from its first byte, once `read` has
  filled its front and the terminator is written; the rest
  is what the stack held.
-/
def buffer
    (stack : Nat → UInt8)
    (received : StatBytes) : Nat → UInt8 :=
  Function.update
    (fun i => received.bytes.getD i (stack i))
    received.bytes.length 0

/- The bytes from a place of the buffer to the next NUL. -/
def readString
    (received : StatBytes)
    (a : Nat) : Prog Nat UInt8 (List UInt8) :=
  Prog.readUntil 0 (received.bytes.length + 1) a

/-
  `Stat::set` from the return of `read` on. The search and
  the scan both run up to the first NUL, which is the
  terminator at the latest.
-/
def scanContent
    (stack : Nat → UInt8)
    (received : StatBytes)
    (errno : Nat)
    (self : Stat) : SetCall :=
  let szBuffer := received.bytes.length
  -- `read` fills the places below `szBuffer`.
  let written := List.range szBuffer
  if szBuffer < 1 then
    ⟨written, .error (.cantRead errno), self⟩
  else
    -- The terminator goes to `buffer[szBuffer]`.
    let m := buffer stack received
    let line := readString received 0
    let seen := written ++ szBuffer :: line.reads m
    match lastIndex nameEnd (line.value m) with
    | none => ⟨seen, .error (.format errno), self⟩
    | some ptr =>
        let text := readString received (ptr + 1)
        let sz := Scanf.scan plan (text.value m) 0 self
        ⟨seen ++ text.reads m,
          if sz.1 ≠ 50 then .error .parse else .ok (),
          sz.2⟩

/- The path of the file. -/
def path (pid : Pid) : List UInt8 :=
  ascii "/proc/" ++ Decimal.ofInt pid.toInt ++ ascii "/stat"

/- `Stat::set(pid_t)`. -/
def setPid
    (files : List UInt8 → StatRead)
    (stack : Nat → UInt8)
    (pid : Pid)
    (self : Stat) : SetCall :=
  match files (path pid) with
  | .openFails errno =>
      if errno = enoent then
        ⟨[], .ok (), self⟩
      else
        ⟨[], .error (.cantOpen errno), self⟩
  | .readFails errno =>
      ⟨[], .error (.cantRead errno), self⟩
  | .content received errno =>
      scanContent stack received errno self

/- A default object, set; what is thrown passes through. -/
def setNew
    (files : List UInt8 → StatRead)
    (stack : Nat → UInt8)
    (pid : Pid) : Except StatError Stat :=
  let call := setPid files stack pid {}
  call.outcome.map fun _ => call.stat

/- `Stat::Stat(pid_t)`. -/
def newOfPid
    (files : List UInt8 → StatRead)
    (stack : Nat → UInt8)
    (pid : Pid) : Except StatError Stat :=
  if 0 < pid then setNew files stack pid else .ok {}

/- `Stat::Stat(const Identifier *)`. -/
def newOfIdentifier
    (files : List UInt8 → StatRead)
    (stack : Nat → UInt8)
    (info : Option Identifier) : Except StatError Stat :=
  match info with
  | some info => setNew files stack info.pid
  | none => .ok {}

end Stat

------------------------------------------------------------
-- Searching And Scanning
------------------------------------------------------------

namespace Stat

variable {stack : Nat → UInt8}
variable {received : StatBytes}

/- The received bytes and the terminator behind them. -/
theorem buffer_holds
    (stack : Nat → UInt8)
    (received : StatBytes) :
    Holds (buffer stack received) 0
      (received.bytes ++ [0]) := by
  have hBytes :
      Holds (fun i => received.bytes.getD i (stack i)) 0
        received.bytes :=
    holds_getD [] received.bytes stack
  rw [holds_append_iff]
  constructor
  · apply hBytes.congr
    intro i _ hTo
    rw [Nat.zero_add] at hTo
    unfold buffer
    rw [Function.update_of_ne (Nat.ne_of_lt hTo)]
  · refine ⟨?_, trivial⟩
    unfold buffer
    rw [Nat.zero_add, Function.update_self]

/- The bytes before the first NUL, and that NUL. -/
theorem cstring_append
    (bytes : List UInt8) :
    ∃ more, bytes ++ [0] = cstring bytes ++ 0 :: more := by
  induction bytes with
  | nil => exact ⟨[], rfl⟩
  | cons c bytes ih =>
      by_cases hNul : c = 0
      · exact ⟨bytes ++ [0], by simp [cstring, hNul]⟩
      · rcases ih with ⟨more, hEq⟩
        refine ⟨more, ?_⟩
        rw [List.cons_append, hEq]
        simp [cstring, hNul]

theorem zero_not_mem_cstring
    (bytes : List UInt8) : (0 : UInt8) ∉ cstring bytes := by
  intro hMem
  have hNotNul := List.mem_takeWhile_imp hMem
  simp at hNotNul

theorem cstring_of_no_nul
    {bytes : List UInt8}
    (hNone : (0 : UInt8) ∉ bytes) :
    cstring bytes = bytes := by
  unfold cstring
  rw [List.takeWhile_eq_self_iff]
  intro c hc
  have hNotNul : c ≠ 0 := fun hEq => hNone (hEq ▸ hc)
  exact decide_eq_true hNotNul

theorem length_cstring_le (bytes : List UInt8) :
    (cstring bytes).length ≤ bytes.length :=
  (List.takeWhile_sublist _).length_le

/- What is read where the text is split. -/
theorem readString_of_append
    (stack : Nat → UInt8)
    {pre post : List UInt8}
    (hText : cstring received.bytes = pre ++ post) :
    (readString received pre.length).value
          (buffer stack received) = post ∧
      (readString received pre.length).reads
          (buffer stack received) =
        List.range' pre.length (post.length + 1) := by
  rcases cstring_append received.bytes with ⟨more, hEq⟩
  have hLayout :
      received.bytes ++ [0] =
        pre ++ ((post ++ [0]) ++ more) := by
    rw [hEq, hText]
    simp only [List.append_assoc, List.cons_append,
      List.nil_append]
  have hHolds :
      Holds (buffer stack received) pre.length
        (post ++ [0]) := by
    have hAll := buffer_holds stack received
    rw [hLayout] at hAll
    have hRest := (holds_append_iff.mp hAll).2
    rw [Nat.zero_add] at hRest
    exact (holds_append_iff.mp hRest).1
  have hNone : (0 : UInt8) ∉ post := by
    intro hMem
    apply zero_not_mem_cstring received.bytes
    rw [hText]
    exact List.mem_append_right pre hMem
  have hFuel : post.length < received.bytes.length + 1 := by
    have hLe := length_cstring_le received.bytes
    rw [hText, List.length_append] at hLe
    omega
  exact Prog.readUntil_of_holds hHolds hNone hFuel

/- The whole text is what `strrchr` looks through. -/
theorem readString_zero
    (stack : Nat → UInt8)
    (received : StatBytes) :
    (readString received 0).value (buffer stack received) =
        cstring received.bytes ∧
      (readString received 0).reads
          (buffer stack received) =
        List.range ((cstring received.bytes).length + 1) := by
  rw [List.range_eq_range']
  exact readString_of_append stack (List.nil_append _).symm

/- Nothing was received. -/
theorem scanContent_of_nil
    {errno : Nat}
    {self : Stat}
    (hNil : received.bytes = []) :
    scanContent stack received errno self =
      ⟨[], .error (.cantRead errno), self⟩ := by
  unfold scanContent
  simp only [hNil, List.length_nil, Nat.zero_lt_one, if_true,
    List.range_zero]

/- There is no name in the text. -/
theorem scanContent_of_no_name
    {errno : Nat}
    {self : Stat}
    (hSome : received.bytes ≠ [])
    (hNone : nameEnd ∉ cstring received.bytes) :
    scanContent stack received errno self =
      ⟨List.range received.bytes.length ++
          received.bytes.length ::
            List.range
              ((cstring received.bytes).length + 1),
        .error (.format errno), self⟩ := by
  have hLength : ¬ received.bytes.length < 1 := by
    have hPos := List.length_pos_of_ne_nil hSome
    omega
  rcases readString_zero stack received with ⟨hLine, hSeen⟩
  unfold scanContent
  simp only [if_neg hLength, hLine, hSeen,
    lastIndex_eq_none hNone]

/- The text behind the name is scanned. -/
theorem scanContent_of_name
    {errno : Nat}
    {self : Stat}
    {pre post : List UInt8}
    {sz : Int}
    {read : Stat}
    (hText :
      cstring received.bytes = pre ++ nameEnd :: post)
    (hLast : nameEnd ∉ post)
    (hScan : Scanf.scan plan post 0 self = (sz, read)) :
    scanContent stack received errno self =
      ⟨List.range received.bytes.length ++
          received.bytes.length ::
            List.range
              ((cstring received.bytes).length + 1) ++
          List.range' (pre.length + 1) (post.length + 1),
        if sz ≠ 50 then .error .parse else .ok (),
        read⟩ := by
  have hLength : ¬ received.bytes.length < 1 := by
    have hLe := length_cstring_le received.bytes
    rw [hText, List.length_append, List.length_cons] at hLe
    omega
  have hSplit :
      cstring received.bytes = (pre ++ [nameEnd]) ++ post := by
    rw [hText, List.append_assoc]
    rfl
  rcases readString_zero stack received with ⟨hLine, hSeen⟩
  rcases readString_of_append stack hSplit with
    ⟨hRest, hReads⟩
  have hEnd : (pre ++ [nameEnd]).length = pre.length + 1 :=
    List.length_append
  rw [hEnd] at hRest hReads
  unfold scanContent
  simp only [if_neg hLength, hLine, hSeen]
  rw [hText, lastIndex_append pre hLast]
  simp only [hRest, hReads, hScan]

end Stat

------------------------------------------------------------
-- The Places Of The Buffer
------------------------------------------------------------

namespace Stat

variable {stack : Nat → UInt8}
variable {received : StatBytes}
variable {errno : Nat}
variable {self : Stat}

/- Nothing is touched behind the terminator. -/
theorem accesses_le
    {i : Nat}
    (hi :
      i ∈ (scanContent stack received errno self).accesses) :
    i ≤ received.bytes.length := by
  have hLe := length_cstring_le received.bytes
  by_cases hNil : received.bytes = []
  · rw [scanContent_of_nil hNil] at hi
    cases hi
  · rcases eq_append_last nameEnd
        (cstring received.bytes) with
      hNone | ⟨pre, post, hText, hLast⟩
    · rw [scanContent_of_no_name hNil hNone] at hi
      simp only [List.mem_append, List.mem_cons,
        List.mem_range] at hi
      omega
    · rcases hScan : Scanf.scan plan post 0 self with
        ⟨sz, read⟩
      rw [scanContent_of_name hText hLast hScan] at hi
      have hLength := congrArg List.length hText
      rw [List.length_append, List.length_cons] at hLength
      simp only [List.mem_append, List.mem_cons,
        List.mem_range, List.mem_range'_1] at hi
      omega

/- The terminator is written behind what was received. -/
theorem length_mem_accesses
    (hSome : received.bytes ≠ []) :
    received.bytes.length ∈
      (scanContent stack received errno self).accesses := by
  rcases eq_append_last nameEnd (cstring received.bytes) with
    hNone | ⟨pre, post, hText, hLast⟩
  · rw [scanContent_of_no_name hSome hNone]
    exact List.mem_append_right _ List.mem_cons_self
  · rcases hScan : Scanf.scan plan post 0 self with
      ⟨sz, read⟩
    rw [scanContent_of_name hText hLast hScan]
    exact List.mem_append_left _
      (List.mem_append_right _ List.mem_cons_self)

end Stat

------------------------------------------------------------
-- The Contents As The Module Sees Them
------------------------------------------------------------

/- What the text behind the name comes to. -/
def StatFile.ofText (text : List UInt8) : StatFile :=
  let sz := Scanf.scan Stat.plan text 0 {}
  if sz.1 ≠ 50 then .fewFields else .present sz.2

/- What the bytes come to. -/
def StatRead.file : StatRead → StatFile
| .openFails errno =>
    if hAbsent : errno = enoent then
      .absent
    else
      .openFails errno hAbsent
| .readFails errno => .readFails errno
| .content received errno =>
    if received.bytes = [] then
      .readFails errno
    else
      let text := cstring received.bytes
      match lastIndex nameEnd text with
      | none => .noName errno
      | some ptr => .ofText (text.drop (ptr + 1))

namespace Stat

theorem file_of_name
    {received : StatBytes}
    {errno : Nat}
    {pre post : List UInt8}
    {sz : Int}
    {read : Stat}
    (hText :
      cstring received.bytes = pre ++ nameEnd :: post)
    (hLast : nameEnd ∉ post)
    (hScan : Scanf.scan plan post 0 {} = (sz, read)) :
    (StatRead.content received errno).file =
      if sz ≠ 50 then .fewFields else .present read := by
  have hNil : ¬ received.bytes = [] := by
    intro hEq
    rw [hEq] at hText
    cases pre <;> cases hText
  have hDrop :
      (pre ++ nameEnd :: post).drop (pre.length + 1) =
        post := by
    rw [← List.drop_drop, List.drop_left]
    rfl
  unfold StatRead.file
  simp only [if_neg hNil, hText, lastIndex_append pre hLast,
    hDrop]
  unfold StatFile.ofText
  rw [hScan]

/- A constructed object, from the bytes of the file. -/
theorem scanContent_file
    (stack : Nat → UInt8)
    (received : StatBytes)
    (errno : Nat) :
    (scanContent stack received errno {}).outcome.map
        (fun _ => (scanContent stack received errno {}).stat) =
      set (StatRead.content received errno).file := by
  by_cases hNil : received.bytes = []
  · rw [scanContent_of_nil hNil]
    simp only [StatRead.file, if_pos hNil]
    rfl
  · rcases eq_append_last nameEnd
        (cstring received.bytes) with
      hNone | ⟨pre, post, hText, hLast⟩
    · rw [scanContent_of_no_name hNil hNone]
      simp only [StatRead.file, if_neg hNil,
        lastIndex_eq_none hNone]
      rfl
    · rcases hScan : Scanf.scan plan post 0 {} with
        ⟨sz, read⟩
      rw [scanContent_of_name hText hLast hScan,
        file_of_name hText hLast hScan]
      split <;> rfl

theorem setNew_eq
    (files : List UInt8 → StatRead)
    (stack : Nat → UInt8)
    (pid : Pid) :
    setNew files stack pid = set (files (path pid)).file := by
  unfold setNew setPid
  cases files (path pid) with
  | openFails errno =>
      by_cases hAbsent : errno = enoent
      · simp only [StatRead.file, dif_pos hAbsent,
          if_pos hAbsent]
        rfl
      · simp only [StatRead.file, dif_neg hAbsent,
          if_neg hAbsent]
        rfl
  | readFails errno => rfl
  | content received errno =>
      exact scanContent_file stack received errno

/-
  The constructors on the bytes are those that the rest of
  the module uses on the contents.
-/
theorem newOfPid_eq
    (files : List UInt8 → StatRead)
    (stack : Nat → UInt8)
    (pid : Pid) :
    newOfPid files stack pid =
      ofPid (files (path pid)).file pid := by
  unfold newOfPid
  rw [setNew_eq]
  rfl

theorem newOfIdentifier_eq
    (files : List UInt8 → StatRead)
    (stack : Nat → UInt8)
    (info : Identifier) :
    newOfIdentifier files stack (some info) =
      ofIdentifier (files (path info.pid)).file :=
  setNew_eq files stack info.pid

end Stat

end UdjatProcess
