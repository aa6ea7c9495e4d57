import UdjatProcess.Pid.StatLine
import UdjatProcess.System.Accounts
import UdjatProcess.Tracking.Reconcile
import UdjatProcess.Tracking.Unique
import UdjatProcess.Usage.Update

/-
  A cycle of the timer, from the text in `/proc` to the
  table of the controller (`on_timer` in
  `controller/init.cc`, `controller/load.cc`, `refresh.cc`
  and `pid/stat.cc`).

  The kernel shows each process as a directory with a
  decimal name among other entries, and its numbers as a
  line of text. After a poll and an update the table holds
  just the processes that were listed, each with the state
  and the ticks that its line shows, whatever the table held
  before.

  Key definitions include:
    * `Procfs.Shown`
    * `Procfs.listing`
    * `Procfs.Serves`
    * `Procfs.PollingRun`

  Key theorems include:
    * `Procfs.load_listing`
    * `Procfs.rows_refresh`
    * `Procfs.cycle_mirrors`
-/

namespace UdjatProcess

------------------------------------------------------------
-- Decimal Names
------------------------------------------------------------

/- A number is read back from its digits. -/
theorem digitsValue_toDecimal (n : Nat) :
    digitsValue (toDecimal n) = n :=
  Nat.ofDigitChars_ten_toDigits

theorem isDigit_of_mem_toDecimal
    {n : Nat}
    {c : Char}
    (hc : c ∈ toDecimal n) : c.isDigit = true :=
  Nat.isDigit_of_mem_toDigits (by decide) (by decide) hc

theorem isNumeric_toDecimal (n : Nat) :
    isNumeric (toDecimal n) = true := by
  unfold isNumeric
  rw [List.all_eq_true]
  intro c hc
  have hDigit := isDigit_of_mem_toDecimal hc
  rw [Char.isDigit_iff_toNat] at hDigit
  simp only [Bool.not_eq_true', Bool.or_eq_false_iff,
    decide_eq_false_iff_not, Char.not_lt]
  exact hDigit

theorem atoi_toDecimal
    {pid : Pid}
    (hPositive : 0 ≤ pid) :
    atoi (toDecimal pid.toNatClampNeg) = pid := by
  have hLess := Int32.toNatClampNeg_lt pid
  unfold atoi
  rw [digitsValue_toDecimal, Nat.min_eq_left (by omega)]
  exact Int32.ofNat_toNatClampNeg pid hPositive

namespace Procfs

------------------------------------------------------------
-- What The Kernel Shows
------------------------------------------------------------

/-
  A process as `/proc` shows it: its number, the name of its
  command and what its line says. One `read` returns the
  line, the name has no NUL and the state is a letter.
-/
structure Shown where
  pid : Pid
  comm : List UInt8
  stat : Stat
  positive : 0 < pid
  oneRead : (Stat.line pid comm stat).length ≤ 4095
  named : (0 : UInt8) ∉ comm
  notNul : stat.state ≠ 0
  notSpace : Scanf.isSpace stat.state = false
  notEnd : stat.state ≠ nameEnd

/- An entry that is no process. -/
structure Other where
  entry : Dirent
  skipped : (entry.isDir && isNumeric entry.name) = false

/- What the directory holds. -/
inductive DirEntry where
| process (p : Shown)
| other (o : Other)

/- The entry as `readdir` returns it. -/
def DirEntry.dirent : DirEntry → Dirent
| .process p => ⟨true, toDecimal p.pid.toNatClampNeg⟩
| .other o => o.entry

def DirEntry.process? : DirEntry → Option Shown
| .process p => some p
| .other _ => none

/- The directory, and the processes in it. -/
def listing (entries : List DirEntry) : ProcDir :=
  .ok (entries.map DirEntry.dirent)

def processes (entries : List DirEntry) : List Shown :=
  entries.filterMap DirEntry.process?

/- The processes are loaded in order, and nothing else is. -/
theorem load_listing (entries : List DirEntry) :
    load (listing entries) =
      .ok ((processes entries).map Shown.pid) := by
  unfold load listing processes
  apply congrArg Except.ok
  induction entries with
  | nil => rfl
  | cons entry entries ih =>
      cases entry with
      | process p =>
          have hTaken :
              ((DirEntry.process p).dirent.isDir &&
                isNumeric (DirEntry.process p).dirent.name) =
                  true :=
            isNumeric_toDecimal p.pid.toNatClampNeg
          have hPid :
              atoi (DirEntry.process p).dirent.name = p.pid :=
            atoi_toDecimal (Int32.le_of_lt p.positive)
          rw [List.map_cons, List.filter_cons, if_pos hTaken,
            List.map_cons, ih, hPid]
          rfl
      | other o =>
          have hSkipped :
              ¬ ((DirEntry.other o).dirent.isDir &&
                isNumeric (DirEntry.other o).dirent.name) =
                  true := by
            rw [Bool.not_eq_true]
            exact o.skipped
          rw [List.map_cons, List.filter_cons,
            if_neg hSkipped, ih]
          rfl

theorem snapshot_listing (entries : List DirEntry) :
    snapshot (listing entries) =
      (processes entries).map Shown.pid := by
  unfold snapshot
  rw [load_listing]

/- The line of a process. -/
def Shown.bytes (p : Shown) : StatBytes :=
  Stat.lineBytes p.pid p.comm p.stat p.oneRead

/- The files hold the lines of the processes. -/
def Serves
    (files : List UInt8 → StatRead)
    (ps : List Shown) : Prop :=
  ∀ p ∈ ps, ∃ errno,
    files (Stat.path p.pid) = .content p.bytes errno

/- What an update makes of the files. -/
def reader
    (files : List UInt8 → StatRead) : Controller.Reader :=
  fun _ pid => (files (Stat.path pid)).file

/- The line is read as what the process shows. -/
theorem Shown.file_bytes
    (p : Shown)
    (errno : Nat) :
    (StatRead.content p.bytes errno).file =
      .present p.stat := by
  have hNone : (0 : UInt8) ∉ Stat.line p.pid p.comm p.stat :=
    Stat.nul_not_mem_line p.named p.notNul
  have hText :=
    (Stat.cstring_of_no_nul hNone).trans
      (Stat.line_eq p.pid p.comm p.stat)
  have hName := Stat.nameEnd_not_mem p.notEnd
  have hScan := Stat.scan_line p.notSpace {}
  rw [Stat.file_of_name hText hName hScan]
  rfl

theorem statOf_reader
    {files : List UInt8 → StatRead}
    {ps : List Shown}
    (hServes : Serves files ps)
    {p : Shown}
    (hp : p ∈ ps)
    {n : Node Identifier}
    (hPid : n.val.pid = p.pid) :
    Controller.statOf (reader files) n = .ok p.stat := by
  rcases hServes p hp with ⟨errno, hFile⟩
  unfold Controller.statOf reader Stat.ofPid
  rw [hPid, if_pos p.positive, hFile, p.file_bytes]
  rfl

------------------------------------------------------------
-- Rows Of The Table
------------------------------------------------------------

/- A process in the table, without its share. -/
def row (x : Identifier) : Pid × State × UInt64 :=
  (x.pid, x.state, x.cpu.last)

def Shown.row (p : Shown) : Pid × State × UInt64 :=
  (p.pid, p.stat.state, p.stat.time)

/- What an update stores is what it read. -/
theorem row_settle
    {read : Controller.Reader}
    {n : Node Identifier}
    {stat : Stat}
    (hStat : Controller.statOf read n = .ok stat)
    (sysusage : Usage)
    (total : ℚ) :
    row (Controller.settle sysusage total read n) =
      (n.val.pid, stat.state, stat.time) := by
  have hSample :
      row (n.val.sample stat).1 =
        (n.val.pid, stat.state, stat.time) := by
    unfold row
    rw [Identifier.sample_pid, Identifier.sample_state,
      Identifier.sample_last]
  unfold Controller.settle
  rw [Controller.visit_of_stat hStat]
  rcases hOut : n.val.sample stat with ⟨info, out⟩
  rw [hOut] at hSample
  cases out with
  | none => exact hSample
  | some usage =>
      dsimp only
      split
      · exact hSample
      · exact hSample

/-
  Where the table holds processes that are served, an update
  completes and stores their rows.
-/
theorem rows_refresh
    {files : List UInt8 → StatRead}
    {ps : List Shown}
    (hServes : Serves files ps)
    {ctrl : Controller}
    (hUse : ctrl.cpuUsePerProcess = true)
    (hShown : ∀ pid, ctrl.Tracks pid → pid ∈ ps.map Shown.pid)
    (stat : Controller.SystemStat) :
    ctrl.Completes (reader files) ∧
      ∀ x ∈ (ctrl.refresh stat (reader files)).identifiers.nodes,
        ∃ p ∈ ps, row x.val = p.row := by
  have hEach :
      ∀ n ∈ ctrl.identifiers.nodes, ∃ p ∈ ps,
        p.pid = n.val.pid := by
    intro n hn
    exact List.mem_map.mp
      (hShown _ ((ctrl.tracks_iff _).mpr ⟨n, hn, rfl⟩))
  have hReads : ctrl.Completes (reader files) := by
    intro n hn
    rcases hEach n hn with ⟨p, hp, hPid⟩
    exact ⟨p.stat, statOf_reader hServes hp hPid.symm⟩
  refine ⟨hReads, ?_⟩
  rw [Controller.refresh_nodes_of_completes hUse hReads]
  intro x hx
  rcases List.mem_map.mp hx with ⟨n, hn, hEq⟩
  rcases hEach n hn with ⟨p, hp, hPid⟩
  refine ⟨p, hp, ?_⟩
  rw [← hEq]
  have hStat := statOf_reader hServes hp hPid.symm
  rw [row_settle hStat]
  unfold Shown.row
  rw [hPid]

/-
  Rows with different process numbers, of just the processes
  that are listed, are the rows of these in some order.
-/
theorem rows_perm
    {nodes : List (Node Identifier)}
    {ps : List Shown}
    (hNodup : (nodes.map fun n => n.val.pid).Nodup)
    (hDistinct : (ps.map Shown.pid).Nodup)
    (hRows : ∀ n ∈ nodes, ∃ p ∈ ps, row n.val = p.row)
    (hAll : ∀ p ∈ ps, ∃ n ∈ nodes, n.val.pid = p.pid) :
    (nodes.map fun n => row n.val).Perm (ps.map Shown.row) := by
  have hRowsNodup : (nodes.map fun n => row n.val).Nodup := by
    apply List.Nodup.of_map Prod.fst
    rw [List.map_map]
    exact hNodup
  have hShownNodup : (ps.map Shown.row).Nodup := by
    apply List.Nodup.of_map Prod.fst
    rw [List.map_map]
    exact hDistinct
  rw [List.perm_ext_iff_of_nodup hRowsNodup hShownNodup]
  intro r
  rw [List.mem_map, List.mem_map]
  constructor
  · rintro ⟨n, hn, rfl⟩
    rcases hRows n hn with ⟨p, hp, hRow⟩
    exact ⟨p, hp, hRow.symm⟩
  · rintro ⟨p, hp, rfl⟩
    rcases hAll p hp with ⟨n, hn, hPid⟩
    rcases hRows n hn with ⟨q, hq, hRow⟩
    have hSamePid : q.pid = p.pid :=
      (congrArg Prod.fst hRow).symm.trans hPid
    have hSame : q = p :=
      List.inj_on_of_nodup_map hDistinct hq hp hSamePid
    rw [hSame] at hRow
    exact ⟨n, hn, hRow⟩

------------------------------------------------------------
-- Cycles
------------------------------------------------------------

/-
  What happens while the controller polls: no events and no
  other way in for a process, and snapshots that name no
  process twice.
-/
def PollingRun : Op → Prop
| .event _ => False
| .insert _ => False
| .reload dir => (snapshot dir).Nodup
| .onTimer dir => (snapshot dir).Nodup
| _ => True

/- What holds of the controller then. -/
structure PollingInv (w : World) : Prop where
  closed : w.ctrl.fd < 0
  reads : w.ctrl.cpuUsePerProcess = true
  distinct : w.ctrl.pids.Nodup

theorem pollingInv_step
    (A : Allocator)
    (w : World)
    (op : Op)
    (hInv : PollingInv w)
    (hOp : PollingRun op) :
    PollingInv (w.step A op) := by
  have hClean : w.CleanPolls op := by
    cases op with
    | reload dir => exact hOp
    | onTimer dir => exact hOp
    | _ => trivial
  have hNew : w.NewPid op := by
    cases op with
    | event ev => cases hOp
    | insert pid => cases hOp
    | _ => trivial
  refine ⟨?_, ?_, ?_⟩
  · rw [World.step_fd]
    exact hInv.closed
  · rw [World.cpuUsePerProcess_step]
    exact hInv.reads
  · exact (World.nodup_step_iff A hInv.distinct hClean).mpr
      hNew

theorem pollingInv_create
    {A : Allocator}
    {links : Links}
    {memory : Memory}
    {dir : ProcDir}
    {fd : Int}
    {stat : Controller.SystemStat}
    {ctrl : Controller}
    (hCreate :
      Controller.create A links memory dir fd true stat =
        .ok ctrl)
    (hClosed : fd < 0)
    (hDir : (snapshot dir).Nodup) :
    PollingInv ⟨ctrl, links⟩ := by
  have hFd := World.fd_create hCreate
  have hMeters := Controller.meters_create hCreate
  have hPids : ctrl.pids = snapshot dir := by
    unfold snapshot
    cases hLoad : load dir with
    | error e =>
        unfold Controller.create at hCreate
        rw [hLoad] at hCreate
        cases hCreate
    | ok pids => exact World.pids_create hLoad hCreate
  refine ⟨?_, congrArg Prod.fst hMeters, ?_⟩
  · change ctrl.fd < 0
    rw [hFd]
    exact hClosed
  · change ctrl.pids.Nodup
    rw [hPids]
    exact hDir

/- A turn of the timer tracks the listed processes. -/
theorem pollingInv_listing
    (A : Allocator)
    {w : World}
    (hInv : PollingInv w)
    {entries : List DirEntry}
    (hDistinct : ((processes entries).map Shown.pid).Nodup) :
    let w' := w.step A (.onTimer (listing entries))
    PollingInv w' ∧
      ∀ pid, w'.ctrl.Tracks pid ↔
        pid ∈ (processes entries).map Shown.pid := by
  intro w'
  have hSnapshot := snapshot_listing entries
  constructor
  · apply pollingInv_step A _ _ hInv
    change (snapshot (listing entries)).Nodup
    rw [hSnapshot]
    exact hDistinct
  · intro pid
    rw [← hSnapshot]
    change Controller.Tracks (Controller.onTimer _ _ _ _) _ ↔ _
    unfold Controller.onTimer
    rw [if_pos hInv.closed, Controller.reload_eq_reconcile]
    exact Controller.reconcile_tracks_iff _ _ _

/- An update of the listed processes stores their rows. -/
theorem mirrors_refresh
    {files : List UInt8 → StatRead}
    {ps : List Shown}
    (hServes : Serves files ps)
    (hDistinct : (ps.map Shown.pid).Nodup)
    {w : World}
    (hInv : PollingInv w)
    (hTracks :
      ∀ pid, w.ctrl.Tracks pid ↔ pid ∈ ps.map Shown.pid)
    (stat : Controller.SystemStat) :
    let ctrl := w.ctrl.refresh stat (reader files)
    (ctrl.identifiers.nodes.map fun n => row n.val).Perm
        (ps.map Shown.row) ∧
      ctrl.pushed = w.ctrl.pushed + 1 := by
  intro ctrl
  have hRefresh :=
    rows_refresh hServes hInv.reads
      (fun pid => (hTracks pid).mp) stat
  have hPids : ctrl.pids = w.ctrl.pids :=
    Controller.pids_refresh stat (reader files) w.ctrl
  refine ⟨?_,
    Controller.refresh_pushed_of_completes hRefresh.1 stat⟩
  apply rows_perm _ hDistinct hRefresh.2
  · intro p hp
    have hTracked : w.ctrl.Tracks p.pid :=
      (hTracks p.pid).mpr (List.mem_map_of_mem hp)
    unfold Controller.Tracks at hTracked
    rw [← hPids] at hTracked
    exact List.mem_map.mp hTracked
  · change ctrl.pids.Nodup
    rw [hPids]
    exact hInv.distinct

/-
  A controller without the kernel connector that reads each
  process, after any operations that bring no process but by
  a poll: the timer polls `/proc` and an update reads the
  lines of its processes. Then the update completes, and
  the table has one row for each listed process, with the
  state and the ticks of its line, and no other. So the
  counters count the listed processes.
-/
theorem cycle_mirrors
    {A : Allocator}
    {links : Links}
    {memory : Memory}
    {dir : ProcDir}
    {fd : Int}
    {stat stat' : Controller.SystemStat}
    {ctrl : Controller}
    {ops : List Op}
    {entries : List DirEntry}
    {files : List UInt8 → StatRead}
    (hCreate :
      Controller.create A links memory dir fd true stat =
        .ok ctrl)
    (hClosed : fd < 0)
    (hDir : (snapshot dir).Nodup)
    (hOps : ∀ op ∈ ops, PollingRun op)
    (hDistinct : ((processes entries).map Shown.pid).Nodup)
    (hServes : Serves files (processes entries)) :
    let before :=
      Runs.after (World.step A) ⟨ctrl, links⟩
        (ops ++ [.onTimer (listing entries)])
    let w := before.step A (.refresh stat' (reader files))
    (w.ctrl.identifiers.nodes.map fun n => row n.val).Perm
        ((processes entries).map Shown.row) ∧
      w.ctrl.pushed = before.ctrl.pushed + 1 ∧
      ∀ state,
        w.ctrl.count state =
          (processes entries).countP
            fun p => p.stat.state == state := by
  intro before w
  have hReached :
      PollingInv (Runs.after (World.step A) ⟨ctrl, links⟩ ops) :=
    Runs.after_of_along (fun v op => pollingInv_step A v op)
      (pollingInv_create hCreate hClosed hDir)
      (Runs.along_of_forall_mem hOps _)
  have hPolled :
      before =
        (Runs.after (World.step A) ⟨ctrl, links⟩ ops).step A
          (.onTimer (listing entries)) :=
    Runs.after_append _ _ _
  have hBefore := pollingInv_listing A hReached hDistinct
  rw [← hPolled] at hBefore
  have hMirrors :=
    mirrors_refresh hServes hDistinct hBefore.1 hBefore.2 stat'
  refine ⟨hMirrors.1, hMirrors.2, ?_⟩
  intro state
  have hCount :=
    hMirrors.1.countP_eq (p := fun r => r.2.1 == state)
  rw [List.countP_map, List.countP_map] at hCount
  exact hCount

/- Two processes. One has the name `) R 1 (`. -/
def asleep : Shown where
  pid := 5
  comm := ascii ") R 1 ("
  stat := { state := State.sleeping, utime := 40, stime := 2 }
  positive := by decide
  oneRead := by decide +kernel
  named := by decide +kernel
  notNul := by decide
  notSpace := by decide
  notEnd := by decide

def undead : Shown where
  pid := 71
  comm := ascii "sh"
  stat := { state := State.zombie }
  positive := by decide
  oneRead := by decide +kernel
  named := by decide +kernel
  notNul := by decide
  notSpace := by decide
  notEnd := by decide

/-
  The first is loaded and updated once, the second comes
  later, and the directory holds the entries `.` and `self`
  besides.
-/
theorem cycle_mirrors_sample :
    let dot : DirEntry := .other ⟨⟨true, ".".toList⟩, by decide⟩
    let link : DirEntry :=
      .other ⟨⟨false, "self".toList⟩, by decide⟩
    let entries :=
      [dot, .process undead, link, .process asleep]
    let files : List UInt8 → StatRead := fun path =>
      if path = Stat.path 5 then
        .content asleep.bytes 0
      else
        .content undead.bytes 0
    let ctrl :=
      { World.oneLoaded.ctrl with fd := -1 }
    let ops :=
      [.insertAgent 1, .refresh ⟨1, 1⟩ (reader files),
        .updateAgents]
    let w :=
      Runs.after (World.step (.above [])) ⟨ctrl, fun _ => none⟩
        (ops ++ [.onTimer (listing entries)])
    let w' := w.step (.above []) (.refresh ⟨9, 9⟩ (reader files))
    (w'.ctrl.identifiers.nodes.map fun n => row n.val).Perm
        ((processes entries).map Shown.row) ∧
      w'.ctrl.pushed = w.ctrl.pushed + 1 ∧
      ∀ state,
        w'.ctrl.count state =
          (processes entries).countP
            fun p => p.stat.state == state := by
  intro dot link entries files ctrl ops
  have hOps : ∀ op ∈ ops, PollingRun op := by
    simp [ops, PollingRun]
  have hServes : Serves files (processes entries) := by
    have hPaths : Stat.path 71 ≠ Stat.path 5 := by
      decide +kernel
    intro p hp
    have hEach : undead = p ∨ asleep = p := by
      simpa [entries, processes, DirEntry.process?] using hp
    rcases hEach with rfl | rfl
    · exact ⟨0, if_neg hPaths⟩
    · exact ⟨0, if_pos rfl⟩
  have hCreate :
      Controller.create (.above []) (fun _ => none)
        (fun _ => { kind := .exeName [] }) World.oneProcess
        (-1) true ⟨0, 0⟩ = .ok ctrl := rfl
  exact cycle_mirrors hCreate (by decide) (by decide) hOps
    (by decide) hServes

end Procfs

end UdjatProcess
