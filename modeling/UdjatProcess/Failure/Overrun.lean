import UdjatProcess.Pid.StatLine

/-
  The buffer of `Stat::set` on arbitrary contents.

  `read` may fill the whole buffer, and then the terminator
  is written behind it. Below that length every place that
  is touched lies inside, and a call that returns normally
  leaves an object with all members taken from the text.

  Key definitions include:
    * `Stat.Recorded`
    * `Stat.Safe`

  Key theorems include:
    * `Stat.safe_iff`
-/

namespace UdjatProcess

namespace Stat

------------------------------------------------------------
-- Safe Contents
------------------------------------------------------------

/-
  The text after the last `)` before the first NUL yields
  all members of the object.
-/
def Recorded (received : StatBytes) (s : Stat) : Prop :=
  ∃ pre post,
    cstring received.bytes = pre ++ nameEnd :: post ∧
      nameEnd ∉ post ∧
      Scanf.Yields members post s.values

/- The file of the process is read as these bytes. -/
def Supplies
    (files : List UInt8 → StatRead)
    (pid : Pid)
    (received : StatBytes) : Prop :=
  ∃ errno, files (path pid) = .content received errno

/-
  What is expected of `Stat::set` on the bytes: it stays in
  the buffer, it returns normally just when all members are
  there, and neither it nor a constructor returns an object
  with less.
-/
structure Safe (received : StatBytes) : Prop where
  inside :
    ∀ files stack pid self,
      Supplies files pid received →
        ∀ i ∈ (setPid files stack pid self).accesses,
          i < bufferSize
  completes :
    ∀ files stack pid self,
      Supplies files pid received →
        ((setPid files stack pid self).outcome = .ok () ↔
          ∃ s, Recorded received s)
  filled :
    ∀ files stack pid self,
      Supplies files pid received →
        (setPid files stack pid self).outcome = .ok () →
          Recorded received
            (setPid files stack pid self).stat
  ofPid :
    ∀ files stack pid s,
      Supplies files pid received → 0 < pid →
        newOfPid files stack pid = .ok s →
          Recorded received s
  ofIdentifier :
    ∀ files stack info s,
      Supplies files info.pid received →
        newOfIdentifier files stack (some info) = .ok s →
          Recorded received s

------------------------------------------------------------
-- Complete Texts
------------------------------------------------------------

variable {stack : Nat → UInt8}
variable {received : StatBytes}
variable {errno : Nat}
variable {self : Stat}

/- What is recorded is what the object holds afterwards. -/
theorem scanContent_of_recorded
    {s : Stat}
    (hRecorded : Recorded received s) :
    (scanContent stack received errno self).outcome =
        .ok () ∧
      (scanContent stack received errno self).stat = s := by
  rcases hRecorded with ⟨pre, post, hText, hLast, hYields⟩
  have hScan :
      Scanf.scan plan post 0 self = (50, s) := by
    rw [plan_eq, Scanf.scan_of_yields hYields 0 self,
      assign_values, length_members]
    rfl
  rw [scanContent_of_name hText hLast hScan]
  exact ⟨rfl, rfl⟩

/- A call returns normally on a complete text only. -/
theorem recorded_of_ok
    (hOk :
      (scanContent stack received errno self).outcome =
        .ok ()) :
    ∃ s, Recorded received s := by
  by_cases hNil : received.bytes = []
  · rw [scanContent_of_nil hNil] at hOk
    cases hOk
  · rcases Memory.eq_append_last nameEnd
        (cstring received.bytes) with
      hNone | ⟨pre, post, hText, hLast⟩
    · rw [scanContent_of_no_name hNil hNone] at hOk
      cases hOk
    · rcases hScan : Scanf.scan plan post 0 self with
        ⟨sz, read⟩
      rw [scanContent_of_name hText hLast hScan] at hOk
      by_cases hFull : sz = 50
      · have hCount :
            (Scanf.scan (Scanf.spaced members) post 0
              self).1 = 50 := by
          rw [← plan_eq, hScan, hFull]
        rcases Scanf.scan_count_iff.mp hCount with
          ⟨vs, hYields⟩
        exact ⟨Scanf.assign members vs {}, pre, post, hText,
          hLast, hYields⟩
      · simp only [ne_eq, hFull, not_false_eq_true,
          if_true] at hOk
        cases hOk

/- The call on a file that supplies the bytes. -/
theorem setPid_of_supplies
    {files : List UInt8 → StatRead}
    {pid : Pid}
    (hSupplies : Supplies files pid received) :
    ∃ errno,
      setPid files stack pid self =
        scanContent stack received errno self := by
  rcases hSupplies with ⟨errno, hFile⟩
  refine ⟨errno, ?_⟩
  unfold setPid
  rw [hFile]

/- Normal returns and objects, for every length. -/
theorem setPid_ok_iff
    {files : List UInt8 → StatRead}
    {pid : Pid}
    (hSupplies : Supplies files pid received) :
    (setPid files stack pid self).outcome = .ok () ↔
      ∃ s, Recorded received s := by
  rcases setPid_of_supplies hSupplies with ⟨errno, hCall⟩
  rw [hCall]
  constructor
  · exact recorded_of_ok
  · rintro ⟨s, hRecorded⟩
    exact (scanContent_of_recorded hRecorded).1

theorem recorded_of_setPid
    {files : List UInt8 → StatRead}
    {pid : Pid}
    (hSupplies : Supplies files pid received)
    (hOk :
      (setPid files stack pid self).outcome = .ok ()) :
    Recorded received (setPid files stack pid self).stat := by
  rcases (setPid_ok_iff hSupplies).mp hOk with
    ⟨s, hRecorded⟩
  rcases setPid_of_supplies hSupplies with ⟨errno, hCall⟩
  rw [hCall, (scanContent_of_recorded hRecorded).2]
  exact hRecorded

theorem recorded_of_setNew
    {files : List UInt8 → StatRead}
    {pid : Pid}
    {s : Stat}
    (hSupplies : Supplies files pid received)
    (hOk : setNew files stack pid = .ok s) :
    Recorded received s := by
  unfold setNew at hOk
  cases hOutcome : (setPid files stack pid {}).outcome with
  | error e =>
      simp only [hOutcome, Except.map] at hOk
      cases hOk
  | ok u =>
      simp only [hOutcome, Except.map, Except.ok.injEq] at hOk
      rw [← hOk]
      exact recorded_of_setPid hSupplies hOutcome

------------------------------------------------------------
-- The Last Place Of The Buffer
------------------------------------------------------------

/-
  The function is safe on what leaves room for the
  terminator, and on nothing else.
-/
theorem safe_iff
    (received : StatBytes) :
    Safe received ↔ received.bytes.length < bufferSize := by
  constructor
  · intro hSafe
    by_cases hNil : received.bytes = []
    · rw [hNil]
      decide
    · have hCall :
          setPid (fun _ => .content received 0) (fun _ => 0)
              1 {} =
            scanContent (fun _ => 0) received 0 {} := rfl
      apply hSafe.inside (fun _ => .content received 0)
        (fun _ => 0) 1 {} ⟨0, rfl⟩
      rw [hCall]
      exact length_mem_accesses hNil
  · intro hRoom
    constructor
    · intro files stack pid self hSupplies i hi
      rcases setPid_of_supplies hSupplies with
        ⟨errno, hCall⟩
      rw [hCall] at hi
      exact Nat.lt_of_le_of_lt (accesses_le hi) hRoom
    · intro files stack pid self hSupplies
      exact setPid_ok_iff hSupplies
    · intro files stack pid self hSupplies hOk
      exact recorded_of_setPid hSupplies hOk
    · intro files stack pid s hSupplies hPid hOk
      unfold newOfPid at hOk
      rw [if_pos hPid] at hOk
      exact recorded_of_setNew hSupplies hOk
    · intro files stack info s hSupplies hOk
      exact recorded_of_setNew hSupplies hOk

/- A read that fills the buffer. -/
def fullRead : StatBytes :=
  ⟨List.replicate bufferSize 32,
    Nat.le_of_eq List.length_replicate⟩

/- The terminator is written to `buffer[4096]`. -/
theorem fullRead_overruns :
    4096 ∈
        (setPid (fun _ => .content fullRead 0)
          (fun _ => 0) 1 {}).accesses ∧
      ¬ Safe fullRead := by
  have hSome : fullRead.bytes ≠ [] :=
    List.cons_ne_nil _ _
  have hCall :
      setPid (fun _ => .content fullRead 0) (fun _ => 0)
          1 {} =
        scanContent (fun _ => 0) fullRead 0 {} := rfl
  have hLength : fullRead.bytes.length = 4096 :=
    List.length_replicate
  have hMem :
      4096 ∈
        (setPid (fun _ => .content fullRead 0)
          (fun _ => 0) 1 {}).accesses := by
    rw [hCall, ← hLength]
    exact length_mem_accesses hSome
  refine ⟨hMem, fun hSafe => ?_⟩
  have hInside :=
    hSafe.inside _ _ _ _ ⟨0, rfl⟩ 4096 hMem
  exact absurd hInside (Nat.lt_irrefl 4096)

end Stat

end UdjatProcess
