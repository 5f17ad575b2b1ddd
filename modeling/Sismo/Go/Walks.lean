import Sismo.Go.RowTable
import Sismo.Unwind.Modules
import Sismo.Unwind.RowLookup
import Sismo.Unwind.Walk

namespace Sismo.Go

open Unwind

/-! The walk of the pcsp tables against the walk of the rows built from them. -/

/-- A row can hold the frame size, or tells that there is none. -/
def Fits (size : Option Int) : Prop :=
  ∀ frameSize ∈ size, 0 ≤ frameSize ∧ frameSize ≤ 65527

instance : DecidablePred Fits := fun size => by
  unfold Fits
  infer_instance

theorem goUnwindRow_of_fits {pc : Nat} {frameSize : Int}
    (fits : Fits (some frameSize)) :
    goUnwindRow (pc, some frameSize) =
      { pc := pc
        cfaType := .rsp
        rbpType := .unchanged
        cfaOffset := frameSize.toNat + 8
        rbpOffset := 0 } := by
  have bounds := fits frameSize rfl
  unfold goUnwindRow
  dsimp only
  rw [if_neg (by omega), Int.toNat_add bounds.1 (by decide)]
  rfl

theorem goUnwindRow_of_not_fits (pc : Nat) {frameSize : Int}
    (large : ¬ Fits (some frameSize)) :
    (goUnwindRow (pc, some frameSize)).cfaType = .offsetDidNotFit ∧
      (goUnwindRow (pc, some frameSize)).rbpType = .unchanged := by
  have outside : ¬ (0 ≤ frameSize ∧ frameSize ≤ 65527) := by
    intro bounds
    apply large
    intro size member
    cases member
    exact bounds
  unfold goUnwindRow
  dsimp only
  rw [if_pos (by omega)]
  exact ⟨rfl, rfl⟩

/-! One step of the kernel's walk on such a row. -/

def Stops (mem : UserMemory) (maps : Maps) (run : UnwindRun)
    (frames : List Nat) : Prop :=
  ∃ final, unwindStep mem maps run = (final, true) ∧
    final.status ≠ .running ∧ final.frames = frames

section

variable {mem : UserMemory} {maps : Maps} {pid : Nat} {run : UnwindRun}
variable {regs : Registers} {pc : Nat} {frameSize : Int}

theorem frame_of_fits (fits : Fits (some frameSize)) {ra : Nat}
    (read : mem.read (u64 (regs.sp + frameSize.toNat)) = some ra) :
    Frame mem (goUnwindRow (pc, some frameSize)).wire regs
      (u64 (u64 (regs.sp + frameSize.toNat) + 8)) ra regs.bp := by
  rw [goUnwindRow_of_fits fits]
  refine ⟨.inl ⟨rfl, ?_⟩, .inl ⟨rfl, rfl⟩, ?_⟩
  · change _ = u64 (regs.sp + (frameSize.toNat + 8))
    unfold u64
    omega
  · have address : wrappingSub (u64 (u64 (regs.sp + frameSize.toNat) + 8)) 8 =
        u64 (regs.sp + frameSize.toNat) := by
      unfold wrappingSub u64
      omega
    rw [address]
    exact read

theorem stops_of_bottom (started : run.At pid regs)
    (covering : maps.rowAt pid regs.ip =
      some (goUnwindRow (pc, some frameSize)).wire)
    (fits : Fits (some frameSize)) (room : run.n < maxStack)
    (read : mem.read (u64 (regs.sp + frameSize.toNat)) = some 0) :
    Stops mem maps run (run.frames ++ [regs.ip]) := by
  refine ⟨{ unwindPushIp run with status := .done }, ?_, ?_, ?_⟩
  · rw [unwindStep_eq started covering,
      unwindRow_frame started (frame_of_fits fits read), if_pos room,
      if_pos rfl]
  · exact UnwindStatus.noConfusion
  · exact (frames_unwindPushIp room).trans (by rw [started.ip])

theorem stops_of_unreadable (started : run.At pid regs)
    (covering : maps.rowAt pid regs.ip =
      some (goUnwindRow (pc, some frameSize)).wire)
    (fits : Fits (some frameSize)) (room : run.n < maxStack)
    (read : mem.read (u64 (regs.sp + frameSize.toNat)) = none) :
    Stops mem maps run (run.frames ++ [regs.ip]) := by
  refine ⟨(unwindPushIp run).fail .read, ?_, UnwindStatus.noConfusion, ?_⟩
  · rw [unwindStep_eq started covering, goUnwindRow_of_fits fits]
    have sp : (unwindPushIp run).sp = regs.sp := by
      rw [unwindPushIp_eq room]
      exact started.sp
    have address : wrappingSub (u64 (regs.sp + (frameSize.toNat + 8))) 8 =
        u64 (regs.sp + frameSize.toNat) := by
      unfold wrappingSub u64
      omega
    simp [unwindRow, CompactUnwindRow.wire, room, unwindCaller, previousRsp, sp,
      address, read]
  · exact (frames_unwindPushIp room).trans (by rw [started.ip])

theorem stops_of_not_fits (started : run.At pid regs)
    (covering : maps.rowAt pid regs.ip =
      some (goUnwindRow (pc, some frameSize)).wire)
    (large : ¬ Fits (some frameSize)) (caller : 0 < run.n) :
    Stops mem maps run run.frames := by
  obtain ⟨cfaType, rbpType⟩ := goUnwindRow_of_not_fits pc large
  refine ⟨run.fail .cfa, ?_, UnwindStatus.noConfusion, rfl⟩
  rw [unwindStep_eq started covering]
  simp [unwindRow, CompactUnwindRow.wire, cfaType, rbpType,
    Nat.ne_of_gt caller]

theorem stops_of_endMarker (started : run.At pid regs)
    (covering : maps.rowAt pid regs.ip = some (goUnwindRow (pc, none)).wire)
    (caller : 0 < run.n) (room : run.n < maxStack) :
    Stops mem maps run (run.frames ++ [regs.ip]) := by
  refine ⟨{ unwindPushIp run with status := .done }, ?_,
    UnwindStatus.noConfusion, ?_⟩
  · rw [unwindStep_eq started covering]
    simp [unwindRow, CompactUnwindRow.wire, goUnwindRow, Nat.ne_of_gt caller]
  · exact (frames_unwindPushIp room).trans (by rw [started.ip])

/-- The walker has no rows for the page of a pc, or no mapping. -/
def Uncovered (maps : Maps) (pid ip : Nat) : Prop :=
  maps.unwindFindMapping pid ip = none ∨
    ∃ mapping, maps.unwindFindMapping pid ip = some mapping ∧
      mapping.begin ≤ ip ∧ ip < mapping.end_ ∧ mapping.type ≠ .anon ∧
      maps.lookupRow mapping ip = .noPage

theorem stops_of_leafGuess {err : UnwindError} (started : run.At pid regs)
    (step : unwindStep mem maps run = unwindLeafGuess mem run err)
    (caller : 0 < run.n) (room : run.n < maxStack) :
    Stops mem maps run (run.frames ++ [regs.ip]) := by
  refine ⟨(unwindPushIp run).fail err, ?_, UnwindStatus.noConfusion, ?_⟩
  · rw [step]
    unfold unwindLeafGuess
    dsimp only
    rw [if_neg fun guess => Nat.ne_of_gt caller guess.1, if_pos caller]
  · exact (frames_unwindPushIp room).trans (by rw [started.ip])

theorem stops_of_uncovered (started : run.At pid regs)
    (uncovered : Uncovered maps pid regs.ip) (caller : 0 < run.n)
    (room : run.n < maxStack) :
    Stops mem maps run (run.frames ++ [regs.ip]) := by
  obtain unmapped | ⟨mapping, found, above, below, file, noPage⟩ := uncovered
  · apply stops_of_leafGuess started _ caller room
    · exact .mapping
    · unfold unwindStep
      rw [started.pid_eq, started.ip, unmapped]
  · apply stops_of_leafGuess started _ caller room
    · exact .page
    · unfold unwindStep
      rw [started.pid_eq, started.ip, found]
      dsimp only
      rw [if_neg (by omega), if_neg file, noPage]

theorem unwindPushIp_full (full : run.n = maxStack) :
    unwindPushIp run = run := by
  unfold unwindPushIp
  rw [if_neg (Nat.not_lt.mpr full.ge)]

theorem unwindLeafGuess_full (full : run.n = maxStack) (err : UnwindError) :
    unwindLeafGuess mem run err = (run.fail err, true) := by
  have caller : run.n ≠ 0 := by
    rw [full]
    decide
  unfold unwindLeafGuess
  dsimp only
  rw [if_neg fun guess => caller guess.1, unwindPushIp_full full, ite_self]

theorem unwindRow_full (full : run.n = maxStack) (row : StackUnwindRow) :
    ∃ final, unwindRow mem run row = (final, true) ∧
      final.status ≠ .running ∧ final.frames = run.frames := by
  have caller : run.n ≠ 0 := by
    rw [full]
    decide
  unfold unwindRow
  rw [if_neg caller, if_neg caller, if_neg (Nat.not_lt.mpr full.ge),
    unwindPushIp_full full]
  split
  · exact ⟨_, rfl, UnwindStatus.noConfusion, rfl⟩
  · split
    · exact ⟨_, rfl, UnwindStatus.noConfusion, rfl⟩
    · split
      · exact ⟨_, rfl, UnwindStatus.noConfusion, rfl⟩
      · exact ⟨_, rfl, UnwindStatus.noConfusion, rfl⟩

/-- With the list full nothing more is written. -/
theorem stops_of_full (full : run.n = maxStack) :
    Stops mem maps run run.frames := by
  unfold Stops unwindStep
  split
  · rw [unwindLeafGuess_full full]
    exact ⟨_, rfl, UnwindStatus.noConfusion, rfl⟩
  · split
    · exact ⟨_, rfl, UnwindStatus.noConfusion, rfl⟩
    · split
      · exact ⟨_, rfl, UnwindStatus.noConfusion, rfl⟩
      · split
        · rw [unwindLeafGuess_full full]
          exact ⟨_, rfl, UnwindStatus.noConfusion, rfl⟩
        · exact ⟨_, rfl, UnwindStatus.noConfusion, rfl⟩
        · split
          · exact ⟨_, rfl, UnwindStatus.noConfusion, rfl⟩
          · exact unwindRow_full full _

end

/-! The two walks, frame by frame. -/

def GoPclntab.caller (go : GoPclntab) (moduleBaseAvma : Nat)
    (readStack : Nat → Option Nat) (pc sp : Nat) : Option (Nat × Nat) := do
  let frameSize ← go.frameSize (wrappingSub pc moduleBaseAvma)
  if frameSize < 0 then none
  else
    let callerSp := u64 (sp + frameSize.toNat)
    let ret ← readStack callerSp
    if ret = 0 then none else some (ret, u64 (callerSp + 8))

theorem GoPclntab.unwindLoop_succ (go : GoPclntab) (moduleBaseAvma : Nat)
    (readStack : Nat → Option Nat) (left pc sp : Nat) :
    go.unwindLoop moduleBaseAvma readStack (left + 1) pc sp =
      pc :: match go.caller moduleBaseAvma readStack pc sp with
        | none => []
        | some (ret, callerSp) =>
            go.unwindLoop moduleBaseAvma readStack left ret callerSp := by
  rw [GoPclntab.unwindLoop]
  unfold GoPclntab.caller
  cases go.frameSize (wrappingSub pc moduleBaseAvma) with
  | none => rfl
  | some frameSize =>
      dsimp only [Option.bind_eq_bind, Option.bind_some]
      split
      · rfl
      · cases readStack (u64 (sp + frameSize.toNat)) with
        | none => rfl
        | some ret =>
            dsimp only [Option.bind_some]
            split
            · rfl
            · rfl

section

variable (go : GoPclntab) (base : Nat) (maps : Maps) (pid : Nat)

/-- The walker uses the row of the Go image that covers the pc, and it carries
the frame size; without one the walker may have nothing for the pc at all. -/
def Carries (ip : Nat) (size : Option Int) : Prop :=
  (∃ pc, lastRowAtOrBelow go.pcspRows (wrappingSub ip base) = some (pc, size) ∧
    maps.rowAt pid ip = some (goUnwindRow (pc, size)).wire) ∨
  size = none ∧ Uncovered maps pid ip

end

theorem exists_of_lastRowAtOrBelow {rows : List (Nat × Option Int)}
    {addr : Nat} {row : Nat × Option Int}
    (last : lastRowAtOrBelow rows addr = some row) :
    ∃ before after, rows = before ++ row :: after ∧ row.1 ≤ addr ∧
      ∀ other ∈ after, addr < other.1 := by
  obtain ⟨below, filtered⟩ := List.getLast?_eq_some_iff.mp last
  obtain ⟨before, rest, rfl, -, filtered⟩ :=
    List.filter_eq_append_iff.mp filtered
  obtain ⟨skipped, after, rfl, -, found, none⟩ :=
    List.filter_eq_cons_iff.mp filtered
  refine ⟨before ++ skipped, after, (List.append_assoc _ _ _).symm,
    of_decide_eq_true found, fun other member => ?_⟩
  have above := List.filter_eq_nil_iff.mp none other member
  rwa [decide_eq_true_eq, Nat.not_le] at above

theorem goUnwindRow_pc (row : Nat × Option Int) :
    (goUnwindRow row).pc = row.1 := by
  obtain ⟨pc, size⟩ := row
  cases size with
  | none => rfl
  | some frameSize =>
      unfold goUnwindRow
      dsimp only
      split <;> rfl

theorem coveringRow_goUnwindRow {rows : List (Nat × Option Int)} {addr : Nat}
    {row : Nat × Option Int} (table : RowTable (rows.map goUnwindRow))
    (last : lastRowAtOrBelow rows addr = some row) :
    ∃ k, coveringRow (rows.map goUnwindRow) addr = some k ∧
      (rows.map goUnwindRow)[k]? = some (goUnwindRow row) := by
  obtain ⟨before, after, rfl, low, later⟩ := exists_of_lastRowAtOrBelow last
  have found : ((before ++ row :: after).map goUnwindRow)[before.length]? =
      some (goUnwindRow row) := by
    simp
  refine ⟨before.length, ?_, found⟩
  rw [coveringRow_eq_some_iff table.sorted]
  refine ⟨⟨_, found, goUnwindRow_pc row ▸ low⟩, ?_⟩
  intro j other above foundOther
  obtain ⟨m, rfl⟩ := Nat.exists_eq_add_of_lt above
  have shifted : before.length + m + 1 =
      (before.map goUnwindRow).length + (m + 1) := by
    rw [List.length_map]
    rfl
  rw [List.map_append, List.map_cons, shifted, List.getElem?_append_right
    (Nat.le_add_right _ _), Nat.add_sub_cancel_left,
    List.getElem?_cons_succ] at foundOther
  obtain ⟨later', member, rfl⟩ :=
    List.mem_map.mp (List.mem_of_getElem? foundOther)
  rw [goUnwindRow_pc]
  exact later later' member

section

variable {toPages : List CompactUnwindRow → List Page}

structure Loads (toPages : List CompactUnwindRow → List Page) (go : GoPclntab)
    (installs : List Install) (install : Install) (t : UnwindTables) : Prop where
  paging : Paging toPages
  loaded : Loaded toPages installs t
  disjoint : SegmentsDisjoint installs
  member : install ∈ installs
  wellFormed : install.WellFormed
  rows : install.rows = go.pcspRows.map goUnwindRow
  file : install.mappingType ≠ .anon

def InSegment (install : Install) (ip : Nat) : Prop :=
  ∃ range ∈ install.ranges, range.1 ≤ ip ∧ ip < range.2

/-- The table has a page for the pc, of fewer rows than the walker's search
tells apart. -/
def Paged (toPages : List CompactUnwindRow → List Page) (install : Install)
    (ip : Nat) : Prop :=
  ∃ page ∈ toPages install.rows,
    page.address = highPc (ip - install.loadAddress) ∧
      page.highIndex - page.lowIndex < 2 ^ 16

section

variable {go : GoPclntab} {installs : List Install} {install : Install}
  {t : UnwindTables} {ip : Nat}

theorem Loads.relative (loads : Loads toPages go installs install t)
    (segment : InSegment install ip) :
    wrappingSub ip install.loadAddress = ip - install.loadAddress ∧
      ip - install.loadAddress < 2 ^ 48 := by
  obtain ⟨range, inRanges, above, below⟩ := segment
  have bounds := loads.wellFormed.ranges range inRanges
  unfold wrappingSub u64
  omega

/-- In a page with rows the walker uses the covering row of the image. -/
theorem Loads.carries (loads : Loads toPages go installs install t)
    (segment : InSegment install ip) (paged : Paged toPages install ip)
    {size : Option Int}
    (agrees : (lastRowAtOrBelow go.pcspRows
      (ip - install.loadAddress)).map Prod.snd = some size) :
    Carries go install.loadAddress t.maps t.targetPid ip size := by
  obtain ⟨relative, fits⟩ := loads.relative segment
  obtain ⟨paging, loaded, disjoint, member, wellFormed, rows, file⟩ := loads
  obtain ⟨before, after, placed⟩ := List.append_of_mem member
  obtain ⟨range, inRanges, above, below⟩ := segment
  obtain ⟨page, member, address, small⟩ := paged
  obtain ⟨⟨pc, _⟩, last, rfl⟩ := Option.map_eq_some_iff.mp agrees
  have table := wellFormed.table
  obtain ⟨k, covering, found⟩ :=
    coveringRow_goUnwindRow (rows ▸ table) last
  rw [← rows] at covering found
  have count := coveringRow_eq_some.mp covering
  have pages := paging.pageRange table member fits address
  have low := pages.low_le
  have high := pages.le_high
  have installed := loaded.installed before install after placed
  have finished := bisectExhausts_of_lt
    (show rowsAtOrBelow install.rows (ip - install.loadAddress) -
      page.lowIndex ≤ page.highIndex - page.lowIndex by omega) small
  have lookup : t.maps.lookupRow (install.mapping range) ip =
      .found ((before.map (·.rows.length)).sum + k) := by
    rw [installed.lookupRow_eq rfl relative fits member address pages]
    by_cases previous : rowsAtOrBelow install.rows (ip - install.loadAddress) -
        page.lowIndex = 0
    · -- The covering row is in an earlier page, so the page is not the first.
      have notFirst : highPc (ip - install.loadAddress) ≠ 0 := by
        intro first
        have below := (lt_rowsAtOrBelow_iff (ip - install.loadAddress)
          table.sorted found).mp (by omega)
        have inPage := paging.inPage install.rows table page member k _ found
        have small := table.pc_lt _ (List.mem_of_getElem? found)
        rw [address, first, highPc_eq small] at inPage
        rw [highPc_eq fits] at first
        rw [pageSize_eq] at first inPage
        omega
      rw [if_pos (.inr previous), if_neg (by omega)]
      congr 1
      omega
    · rw [if_neg (by
        rw [show Maps.maxBinarySearchDepth = 16 + 1 from rfl, finished]
        simpa using previous)]
      congr 1
      omega
  refine .inl ⟨pc, relative ▸ last, ?_⟩
  have endLe := installed.end_le
  have room := installed.room
  have inside := (List.getElem?_eq_some_iff.mp found).1
  unfold Maps.rowAt
  rw [loaded.unwindFindMapping_eq disjoint (placed ▸ by simp) inRanges above
    below]
  dsimp only
  rw [if_pos ⟨above, below, file⟩, lookup]
  dsimp only
  unfold Maps.row
  rw [if_pos (by omega), installed.rows k _ found]

theorem Loads.unpaged (loads : Loads toPages go installs install t)
    (segment : InSegment install ip)
    (missing : ∀ page ∈ toPages install.rows,
      page.address ≠ highPc (ip - install.loadAddress)) :
    Uncovered t.maps t.targetPid ip := by
  obtain ⟨relative, -⟩ := loads.relative segment
  obtain ⟨before, after, placed⟩ := List.append_of_mem loads.member
  obtain ⟨range, inRanges, above, below⟩ := segment
  refine .inr ⟨install.mapping range, ?_, above, below, loads.file, ?_⟩
  · exact loads.loaded.unwindFindMapping_eq loads.disjoint loads.member inRanges
      above below
  · have installed := loads.loaded.installed before install after placed
    unfold Maps.lookupRow
    rw [show (install.mapping range).loadAddress = install.loadAddress from rfl,
      relative]
    dsimp only
    cases found : t.maps.pages.lookup ⟨(install.mapping range).executableId,
        highPc (ip - install.loadAddress)⟩ with
    | none => rfl
    | some value =>
        obtain ⟨page, member, address⟩ := installed.only _ _ found
        exact absurd address (missing page member)

end

variable (toPages) in
/-- The walker has at `ra - 1` what the host has at the return address: the
same frame size, or nothing to go on with where the host has none. -/
inductive SeesCaller (go : GoPclntab) (installs : List Install)
    (install : Install) (ra : Nat) : Prop
  | inText (segment : InSegment install (ra - 1))
      (paged : Paged toPages install (ra - 1))
      (inText : go.InText (ra - 1 - install.loadAddress))
      (same : go.frameSize (ra - 1 - install.loadAddress) =
        go.frameSize (wrappingSub ra install.loadAddress))
  | ended (segment : InSegment install (ra - 1))
      (paged : Paged toPages install (ra - 1))
      (marker : (lastRowAtOrBelow go.pcspRows
        (ra - 1 - install.loadAddress)).map Prod.snd = some none)
      (last : go.frameSize (wrappingSub ra install.loadAddress) = none)
  | unpaged (segment : InSegment install (ra - 1))
      (missing : ∀ page ∈ toPages install.rows,
        page.address ≠ highPc (ra - 1 - install.loadAddress))
      (last : go.frameSize (wrappingSub ra install.loadAddress) = none)
  | unmapped (outside : ∀ install ∈ installs, ∀ range ∈ install.ranges,
        range.1 ≤ ra - 1 → range.2 ≤ ra - 1)
      (last : go.frameSize (wrappingSub ra install.loadAddress) = none)

theorem Loads.carries_caller {go : GoPclntab} {installs : List Install}
    {install : Install} {t : UnwindTables} {ra : Nat}
    (loads : Loads toPages go installs install t) (tidy : go.Tidy)
    (sees : SeesCaller toPages go installs install ra) :
    Carries go install.loadAddress t.maps t.targetPid (ra - 1)
      (go.frameSize (wrappingSub ra install.loadAddress)) := by
  cases sees with
  | inText segment paged inText same =>
      rw [← same]
      exact loads.carries segment paged (tidy.agrees inText)
  | ended segment paged marker last =>
      rw [last]
      exact loads.carries segment paged marker
  | unpaged segment missing last =>
      exact .inr ⟨last, loads.unpaged segment missing⟩
  | unmapped outside last =>
      exact .inr ⟨last, .inl
        (loads.loaded.unwindFindMapping_eq_none loads.disjoint outside)⟩

end

def returnAddresses : List Nat → List Nat
  | [] => []
  | leaf :: callers => leaf :: callers.map (· + 1)

section

variable {go : GoPclntab} {base : Nat} {mem : UserMemory} {maps : Maps}
variable {pid : Nat} {tailCall : Nat → Bool}

theorem unwindResume_stops (linked : ∀ count, tailCall count = true)
    {run : UnwindRun} {frames : List Nat} {tailCalls iterations : Nat}
    (running : run.status = .running) (within : run.n ≤ maxStack)
    (position : run.n + iterations = framesPerProg * (tailCalls + 1))
    (stops : Stops mem maps run frames) :
    (unwindResume mem maps tailCall tailCalls iterations run).frames =
      frames := by
  obtain ⟨final, step, finished, listed⟩ := stops
  obtain ⟨tailCalls, left, -, resumed⟩ :=
    exists_unwindResume mem maps running linked within position
  rw [resumed, unwindResume_finish step finished]
  exact listed

variable (mem tailCall) in
/-- From the registers of a pc whose size fits, the walk goes on to the caller
that the frame size gives, or stops where there is none. -/
theorem unwindResume_fits (linked : ∀ count, tailCall count = true)
    {run : UnwindRun} {regs : Registers} {pc : Nat} {frameSize : Int}
    {tailCalls iterations : Nat} (started : run.At pid regs)
    (covering : maps.rowAt pid regs.ip =
      some (goUnwindRow (pc, some frameSize)).wire)
    (fits : Fits (some frameSize)) (room : run.n < maxStack)
    (position : run.n + iterations = framesPerProg * (tailCalls + 1)) {ra : Nat}
    (size : go.frameSize (wrappingSub ra base) = some frameSize) :
    match go.caller base mem.read ra regs.sp with
    | none =>
        (unwindResume mem maps tailCall tailCalls iterations run).frames =
          run.frames ++ [regs.ip]
    | some (ret, callerSp) =>
        ∃ next tailCalls' left,
          unwindResume mem maps tailCall tailCalls iterations run =
            unwindResume mem maps tailCall tailCalls' left next ∧
          next.n + left = framesPerProg * (tailCalls' + 1) ∧
          next.n = run.n + 1 ∧ next.frames = run.frames ++ [regs.ip] ∧
          ret ≠ 0 ∧ next.At pid ⟨ret - 1, callerSp, regs.bp⟩ := by
  unfold GoPclntab.caller
  rw [size]
  dsimp only [Option.bind_eq_bind, Option.bind_some]
  rw [if_neg (Int.not_lt.mpr (fits frameSize rfl).1)]
  cases read : mem.read (u64 (regs.sp + frameSize.toNat)) with
  | none =>
      exact unwindResume_stops linked started.status room.le position
        (stops_of_unreadable started covering fits room read)
  | some ret =>
      dsimp only [Option.bind_some]
      by_cases bottom : ret = 0
      · rw [if_pos bottom]
        exact unwindResume_stops linked started.status room.le position
          (stops_of_bottom started covering fits room (bottom ▸ read))
      · rw [if_neg bottom]
        dsimp only
        obtain ⟨tailCalls, left, position, resumed⟩ :=
          exists_unwindResume mem maps started.status linked room.le position
        obtain ⟨next, step, count, listed, nextStarted⟩ :=
          unwindStep_caller started covering (frame_of_fits fits read) bottom
            room
        refine ⟨next, tailCalls, left, ?_, by omega, count, listed, bottom,
          nextStarted⟩
        rw [resumed, unwindResume_step step]

/-- From a caller on, the kernel lists what the host does, up to the first
caller whose frame size does not fit. -/
theorem unwindResume_callers (linked : ∀ count, tailCall count = true)
    {left ra sp bp tailCalls iterations : Nat} {run : UnwindRun}
    (started : run.At pid ⟨ra - 1, sp, bp⟩) (caller : 0 < run.n)
    (count : run.n + left = maxStack)
    (position : run.n + iterations = framesPerProg * (tailCalls + 1))
    (carried : ∀ caller ∈ go.unwindLoop base mem.read left ra sp,
      Carries go base maps pid (caller - 1)
        (go.frameSize (wrappingSub caller base))) :
    (unwindResume mem maps tailCall tailCalls iterations run).frames =
      run.frames ++ ((go.unwindLoop base mem.read left ra sp).takeWhile
        fun caller =>
          Fits (go.frameSize (wrappingSub caller base))).map (· - 1) := by
  induction left generalizing ra sp bp tailCalls iterations run with
  | zero =>
      rw [unwindResume_stops linked started.status count.le position
        (stops_of_full count)]
      exact (List.append_nil _).symm
  | succ left induction =>
      have room : run.n < maxStack := by omega
      rw [GoPclntab.unwindLoop_succ] at carried ⊢
      have first := carried ra List.mem_cons_self
      rw [List.takeWhile_cons]
      cases size : go.frameSize (wrappingSub ra base) with
      | none =>
          have noCaller : go.caller base mem.read ra sp = none := by
            unfold GoPclntab.caller
            rw [size]
            rfl
          rw [noCaller, if_pos (by decide)]
          rw [size] at first
          apply unwindResume_stops linked started.status room.le position
          obtain ⟨pc, -, covering⟩ | ⟨-, uncovered⟩ := first
          · exact stops_of_endMarker started covering caller room
          · exact stops_of_uncovered started uncovered caller room
      | some frameSize =>
          rw [size] at first
          obtain ⟨pc, -, covering⟩ | ⟨impossible, -⟩ := first
          · by_cases fits : Fits (some frameSize)
            · rw [if_pos (decide_eq_true fits)]
              have walked := unwindResume_fits mem tailCall linked started
                covering fits room position size
              dsimp only at walked
              cases next : go.caller base mem.read ra sp with
              | none =>
                  rw [next] at walked
                  exact walked
              | some frame =>
                  obtain ⟨ret, callerSp⟩ := frame
                  rw [next] at walked carried
                  obtain ⟨run', tailCalls, iterations, resumed, position, n,
                    listed, -, started'⟩ := walked
                  dsimp only at carried ⊢
                  rw [resumed, induction started' (by omega) (by omega) position
                    fun other member =>
                      carried other (List.mem_cons_of_mem _ member), listed,
                    List.append_assoc]
                  rfl
            · rw [if_neg (by rwa [decide_eq_true_eq])]
              rw [unwindResume_stops linked started.status room.le position
                (stops_of_not_fits started covering fits caller)]
              exact (List.append_nil _).symm
          · cases impossible

theorem GoPclntab.unwindLoop_ne_zero (go : GoPclntab)
    {readStack : Nat → Option Nat} {left ra sp : Nat} (nonzero : ra ≠ 0) :
    ∀ caller ∈ go.unwindLoop base readStack left ra sp, caller ≠ 0 := by
  induction left generalizing ra sp with
  | zero =>
      intro caller member
      cases member
  | succ left induction =>
      intro caller member
      rw [GoPclntab.unwindLoop_succ] at member
      obtain rfl | member := List.mem_cons.mp member
      · exact nonzero
      · cases next : go.caller base readStack ra sp with
        | none =>
            rw [next] at member
            cases member
        | some frame =>
            rw [next] at member
            refine induction ?_ caller member
            unfold GoPclntab.caller at next
            simp only [Option.bind_eq_bind, Option.bind_eq_some_iff] at next
            obtain ⟨frameSize, -, next⟩ := next
            split at next
            · cases next
            · obtain ⟨ret, -, next⟩ := Option.bind_eq_some_iff.mp next
              split at next
              · cases next
              · next nonzero =>
                  cases next
                  exact nonzero

theorem map_pred_succ {list : List Nat} (nonzero : ∀ ra ∈ list, ra ≠ 0) :
    (list.map (· - 1)).map (· + 1) = list := by
  rw [List.map_map]
  conv_rhs => rw [← List.map_id list]
  apply List.map_congr_left
  intro ra member
  exact Nat.succ_pred (nonzero ra member)

/-- The walk of the kernel's program from the leaf's registers, its callers as
return addresses. -/
def kernelWalk (mem : UserMemory) (maps : Maps) (pid : Nat)
    (regs : Registers) : List Nat :=
  returnAddresses (unwindWalk mem maps (fun _ => true) 0
    (regs.start pid fun _ => 0)).frames

theorem kernelWalk_eq {regs : Registers} {frameSize : Int}
    (leaf : go.frameSize (wrappingSub regs.ip base) = some frameSize)
    (fits : Fits (some frameSize))
    (covered : Carries go base maps pid regs.ip (some frameSize))
    (carried : ∀ ra ∈ (go.unwind base regs.ip regs.sp mem.read maxStack).tail,
      Carries go base maps pid (ra - 1)
        (go.frameSize (wrappingSub ra base))) :
    kernelWalk mem maps pid regs = regs.ip ::
      (go.unwind base regs.ip regs.sp mem.read maxStack).tail.takeWhile
        fun ra => Fits (go.frameSize (wrappingSub ra base)) := by
  obtain ⟨pc, -, covering⟩ | ⟨impossible, -⟩ := covered
  · have started : (regs.start pid fun _ => 0).At pid regs :=
      ⟨rfl, rfl, rfl, rfl, rfl⟩
    have walked := unwindResume_fits mem (fun _ => true) (fun _ => rfl) started
      covering fits (show 0 < maxStack by decide)
      (show 0 + framesPerProg = framesPerProg * (0 + 1) from rfl) leaf
    have host : go.unwind base regs.ip regs.sp mem.read maxStack = _ :=
      go.unwindLoop_succ base mem.read 63 regs.ip regs.sp
    rw [host, List.tail_cons] at carried
    rw [host, List.tail_cons]
    unfold kernelWalk
    rw [unwindWalk_eq_resume]
    cases next : go.caller base mem.read regs.ip regs.sp with
    | none =>
        rw [next] at walked
        dsimp only at walked
        rw [walked]
        rfl
    | some frame =>
        obtain ⟨ret, callerSp⟩ := frame
        rw [next] at walked carried
        obtain ⟨run, tailCalls, left, resumed, position, count, listed, nonzero,
          started⟩ := walked
        dsimp only at carried ⊢
        rw [resumed, unwindResume_callers (fun _ => rfl) started (by omega)
          (show run.n + 63 = maxStack from count ▸ rfl) position carried, listed]
        change regs.ip :: List.map _ (List.map _ _) = _
        rw [map_pred_succ fun ra member => go.unwindLoop_ne_zero nonzero ra
          (List.takeWhile_subset _ member)]
  · cases impossible

end

theorem GoPclntab.inText_of_frameSize {go : GoPclntab} {addr : Nat}
    {frameSize : Int} (fits : addr < 2 ^ 64)
    (size : go.frameSize addr = some frameSize) : go.InText addr := by
  unfold GoPclntab.frameSize at size
  split at size
  · dsimp only [Option.bind_eq_bind, Option.bind_some] at size
    split at size
    · obtain ⟨row, found, -⟩ := Option.bind_eq_some_iff.mp size
      unfold GoPclntab.findFunc at found
      split at found
      · cases found
      · next inside =>
          unfold GoPclntab.InText GoPclntab.entry
          omega
    · cases size
  · cases size

/-- With the rows of tidy tables loaded, and the same frame sizes at each caller
on both sides, the two walks list the same frames up to the first caller whose
size does not fit. -/
theorem walks_agree {toPages : List CompactUnwindRow → List Page}
    {go : GoPclntab} {installs : List Install} {install : Install}
    {t : UnwindTables} {mem : UserMemory} {regs : Registers} {frameSize : Int}
    (tidy : go.Tidy) (loads : Loads toPages go installs install t)
    (leaf : go.frameSize (wrappingSub regs.ip install.loadAddress) =
      some frameSize)
    (fits : Fits (some frameSize)) (segment : InSegment install regs.ip)
    (paged : Paged toPages install regs.ip)
    (callers : ∀ ra ∈ (go.unwind install.loadAddress regs.ip regs.sp mem.read
      maxStack).tail, SeesCaller toPages go installs install ra) :
    let host := go.unwind install.loadAddress regs.ip regs.sp mem.read maxStack
    let fitting := host.tail.takeWhile fun ra =>
      Fits (go.frameSize (wrappingSub ra install.loadAddress))
    ((∀ ra ∈ host.tail,
        Fits (go.frameSize (wrappingSub ra install.loadAddress))) →
        kernelWalk mem t.maps t.targetPid regs = host) ∧
      regs.ip :: fitting <+: kernelWalk mem t.maps t.targetPid regs ∧
      kernelWalk mem t.maps t.targetPid regs <+: host := by
  obtain ⟨relative, small⟩ := loads.relative segment
  have covered : Carries go install.loadAddress t.maps t.targetPid regs.ip
      (some frameSize) := by
    apply loads.carries segment paged
    rw [relative] at leaf
    rw [← leaf]
    exact tidy.agrees (go.inText_of_frameSize (by omega) leaf)
  have host : go.unwind install.loadAddress regs.ip regs.sp mem.read maxStack =
      regs.ip :: (go.unwind install.loadAddress regs.ip regs.sp mem.read
        maxStack).tail := by
    have first := go.unwindLoop_succ install.loadAddress mem.read 63 regs.ip
      regs.sp
    rw [show go.unwind install.loadAddress regs.ip regs.sp mem.read
      maxStack = _ from first]
    rfl
  dsimp only
  rw [kernelWalk_eq leaf fits covered fun ra member =>
    loads.carries_caller tidy (callers ra member)]
  refine ⟨fun all => ?_, List.prefix_rfl, ?_⟩
  · rw [List.takeWhile_eq_self_iff.mpr fun ra member =>
      decide_eq_true (all ra member)]
    exact host.symm
  · rw [host, List.tail_cons, List.cons_prefix_cons]
    exact ⟨rfl, List.takeWhile_prefix _⟩

def goInstall (go : GoPclntab) (base : Nat) (ranges : List (Nat × Nat)) :
    Install where
  executableId := base
  loadAddress := base
  rows := go.pcspRows.map goUnwindRow
  ranges := ranges
  mappingType := .file

/-- The Go image can be put into the walker's tables, and the leaf's pc is in
one of its segments. -/
def Walkable (go : GoPclntab) (base : Nat) (ranges : List (Nat × Nat))
    (t : UnwindTables) (regs : Registers) : Prop :=
  (goInstall go base ranges).WellFormed ∧
    RoomFor pagesByHighPc t [goInstall go base ranges] ∧
    ∃ frameSize, go.frameSize (wrappingSub regs.ip base) = some frameSize ∧
      0 ≤ frameSize

/-- The same frames, the kernel's callers counted as return addresses. -/
def WalksAgree (go : GoPclntab) (base : Nat) (ranges : List (Nat × Nat))
    (t : UnwindTables) (mem : UserMemory) (regs : Registers) : Prop :=
  kernelWalk mem (installAll pagesByHighPc t [goInstall go base ranges]).maps
      t.targetPid regs =
    go.unwind base regs.ip regs.sp mem.read maxStack

def stackOf (words : List (Nat × Nat))
    (small : ∀ word ∈ words, word.1 < 2 ^ 63 ∧ word.2 < 2 ^ 64) :
    UserMemory where
  read address := words.lookup address
  user address value read := by
    obtain ⟨_, _, rfl, -⟩ := List.lookup_eq_some_iff.mp read
    exact (small (address, value) (by simp)).1
  word address value read := by
    obtain ⟨_, _, rfl, -⟩ := List.lookup_eq_some_iff.mp read
    exact (small (address, value) (by simp)).2

theorem large_parses : (GoPclntab.fromSection (GoPclntab.twoFunctions
    [18, 16, 0, 0xf2, 0xff, 7, 16, 0]) 0x401000 0x400000).isSome := by
  decide +kernel

/-- The frame size 65528 of the second function does not fit a row. -/
def large : GoPclntab := Option.get _ large_parses

/-- A section with one function, of three 64 KiB blocks and one frame size. -/
def longFunction : Bytes :=
  [0xf1, 0xff, 0xff, 0xff, 0, 0, 1, 8] ++ 1 :: List.replicate 47 0 ++
    0x6c :: List.replicate 7 0 ++ 0x48 :: List.replicate 7 0 ++
    [0, 0, 0, 0, 16, 0, 0, 0, 0, 0, 3, 0, 0, 0, 0, 0] ++
    List.replicate 20 0 ++ [18, 0x80, 0x80, 12, 0]

theorem long_parses :
    (GoPclntab.fromSection longFunction 0x401000 0x400000).isSome := by
  decide +kernel

def long : GoPclntab := Option.get _ long_parses

def loadedAt (go : GoPclntab) : Install :=
  goInstall go 0x10000 [(0x11000, 0x41000)]

theorem walkable_loadedAt (go : GoPclntab) (regs : Registers)
    (sorted : (go.pcspRows.map goUnwindRow).Pairwise
      fun first second => first.pc ≤ second.pc)
    (small : ∀ row ∈ go.pcspRows.map goUnwindRow, row.pc < 2 ^ 48)
    (room : (installRows pagesByHighPc { targetPid := 7 }
      (loadedAt go)).modulesLoaded = 1)
    (leaf : ∃ frameSize, go.frameSize (wrappingSub regs.ip 0x10000) =
      some frameSize ∧ 0 ≤ frameSize) :
    Walkable go 0x10000 [(0x11000, 0x41000)] { targetPid := 7 } regs := by
  refine ⟨⟨⟨sorted, small⟩, ?_⟩, ⟨room, trivial⟩, leaf⟩
  intro range member
  cases List.mem_singleton.mp member
  change 0x10000 ≤ 0x11000 ∧ 0x41000 ≤ 2 ^ 48
  decide

/-- The host stops after the return address at the entry of the second
function, by the wrong frame size; the kernel goes on by the first one's. -/
def boundaryStack : UserMemory :=
  stackOf [(0x7010, 0x11010), (0x7020, 5), (0x7028, 0)] (by decide)

/-- The host goes on from the frame whose size does not fit. -/
def largeStack : UserMemory :=
  stackOf [(0x7008, 0x11014), (0x17008, 5)] (by decide)

/-- The host goes on from a leaf in a block without a row; the kernel takes the
word on top of the stack for its return address. -/
def longStack : UserMemory :=
  stackOf [(0x7000, 5), (0x7008, 0x11014), (0x7018, 0)] (by decide)

/-- The two walks of a parsed table part from some leaf of it. -/
def WalksDiffer (go : GoPclntab) : Prop :=
  (∃ data textVaddr imageBase,
    GoPclntab.fromSection data textVaddr imageBase = some go) ∧
  ∃ base ranges pid mem regs,
    Walkable go base ranges { targetPid := pid } regs ∧
      ¬ WalksAgree go base ranges { targetPid := pid } mem regs

theorem walksDiffer_of_loadedAt {go : GoPclntab} (mem : UserMemory)
    (regs : Registers) (parses : ∃ data textVaddr imageBase,
      GoPclntab.fromSection data textVaddr imageBase = some go)
    (walkable : Walkable go 0x10000 [(0x11000, 0x41000)] { targetPid := 7 }
      regs)
    (differ : ¬ WalksAgree go 0x10000 [(0x11000, 0x41000)] { targetPid := 7 }
      mem regs) : WalksDiffer go :=
  ⟨parses, 0x10000, _, 7, mem, regs, walkable, differ⟩

/-- A return address at the end of its function, a frame size that does not fit,
and a block of the text without a row. -/
theorem not_walks_agree : WalksDiffer GoPclntab.bounded ∧
    WalksDiffer large ∧ WalksDiffer long := by
  refine ⟨walksDiffer_of_loadedAt boundaryStack ⟨0x11018, 0x7000, 0⟩
      ⟨_, _, _, (Option.some_get _).symm⟩ ?_ ?_,
    walksDiffer_of_loadedAt largeStack ⟨0x11004, 0x7000, 0⟩
      ⟨_, _, _, (Option.some_get _).symm⟩ ?_ ?_,
    walksDiffer_of_loadedAt longStack ⟨0x31000, 0x7000, 0⟩
      ⟨_, _, _, (Option.some_get _).symm⟩ ?_ ?_⟩
  · apply walkable_loadedAt
    · decide +kernel
    · decide +kernel
    · decide +kernel
    · exact ⟨16, by decide +kernel, by decide⟩
  · unfold WalksAgree
    decide +kernel
  · apply walkable_loadedAt
    · decide +kernel
    · decide +kernel
    · decide +kernel
    · exact ⟨8, by decide +kernel, by decide⟩
  · unfold WalksAgree
    decide +kernel
  · apply walkable_loadedAt
    · decide +kernel
    · decide +kernel
    · decide +kernel
    · exact ⟨8, by decide +kernel, by decide⟩
  · unfold WalksAgree
    decide +kernel

/-- A return address inside the second function, above the bottom. -/
def callStack : UserMemory :=
  stackOf [(0x7010, 0x11014), (0x7028, 0)] (by decide)

theorem loads_loadedAt {go : GoPclntab} {regs : Registers}
    (walkable : Walkable go 0x10000 [(0x11000, 0x41000)] { targetPid := 7 }
      regs) :
    Loads pagesByHighPc go [loadedAt go] (loadedAt go)
      (installAll pagesByHighPc { targetPid := 7 } [loadedAt go]) where
  paging := paging_pagesByHighPc
  loaded := by
    have ids : (([] ++ [loadedAt go]).map Install.executableId).Nodup :=
      List.nodup_singleton _
    have tables : ∀ install ∈ [loadedAt go], RowTable install.rows := by
      intro install member
      cases List.mem_singleton.mp member
      exact walkable.1.table
    have loaded := Loaded.append_installs paging_pagesByHighPc (Loaded.empty 7) ids
      tables walkable.2.1
    rwa [List.nil_append] at loaded
  disjoint := by
    refine ⟨fun install member range inRanges => ?_,
      fun first inFirst second inSecond range inRanges other inOther _ _ _ _ _ =>
        ?_⟩
    · cases List.mem_singleton.mp member
      cases List.mem_singleton.mp inRanges
      decide
    · cases List.mem_singleton.mp inFirst
      cases List.mem_singleton.mp inSecond
      cases List.mem_singleton.mp inRanges
      cases List.mem_singleton.mp inOther
      rfl
  member := List.mem_cons_self
  wellFormed := walkable.1
  rows := rfl
  file := by
    intro anon
    cases anon

theorem walks_agree_bounded :
    WalksAgree GoPclntab.bounded 0x10000 [(0x11000, 0x41000)]
      { targetPid := 7 } callStack ⟨0x11018, 0x7000, 0⟩ := by
  have size : ∀ pc ∈ [0x11018, 0x11014, 0x11013],
      GoPclntab.bounded.frameSize (wrappingSub pc 0x10000) = some 16 := by
    decide +kernel
  have walkable : Walkable GoPclntab.bounded 0x10000 [(0x11000, 0x41000)]
      { targetPid := 7 } ⟨0x11018, 0x7000, 0⟩ := by
    apply walkable_loadedAt
    · decide +kernel
    · decide +kernel
    · decide +kernel
    · exact ⟨16, size _ (by decide), by decide⟩
  have callers : (GoPclntab.bounded.unwind 0x10000 0x11018 0x7000
      callStack.read maxStack).tail = [0x11014] := by decide +kernel
  have paged : ∀ pc ∈ [0x11018, 0x11013],
      Paged pagesByHighPc (loadedAt GoPclntab.bounded) pc := by
    unfold Paged
    decide +kernel
  have segment : ∀ pc ∈ [0x11018, 0x11013],
      InSegment (loadedAt GoPclntab.bounded) pc := by
    unfold InSegment
    decide
  have fits : Fits (some 16) := by decide
  have pid : (installAll pagesByHighPc { targetPid := 7 }
      [loadedAt GoPclntab.bounded]).targetPid = 7 := by decide +kernel
  have same : GoPclntab.bounded.frameSize (0x11014 - 1 - 0x10000) =
      GoPclntab.bounded.frameSize (wrappingSub 0x11014 0x10000) := by
    decide +kernel
  have agree := @walks_agree pagesByHighPc GoPclntab.bounded
    [loadedAt GoPclntab.bounded] (loadedAt GoPclntab.bounded) _ callStack
    ⟨0x11018, 0x7000, 0⟩ 16
    (GoPclntab.regular_bounded.tidy GoPclntab.ascending_bounded)
    (loads_loadedAt walkable) (size _ (by decide)) fits (segment _ (by decide))
    (paged _ (by decide))
  rw [pid] at agree
  refine (agree ?_).1 ?_
  · intro ra member
    rw [show (loadedAt GoPclntab.bounded).loadAddress = 0x10000 from rfl,
      callers] at member
    cases List.mem_singleton.mp member
    exact .inText (segment 0x11013 (by decide)) (paged 0x11013 (by decide))
      (GoPclntab.inText_of_frameSize (by decide)
        (same.trans (size 0x11014 (by decide)))) same
  · intro ra member
    rw [show (loadedAt GoPclntab.bounded).loadAddress = 0x10000 from rfl,
      callers] at member
    cases List.mem_singleton.mp member
    rw [show (loadedAt GoPclntab.bounded).loadAddress = 0x10000 from rfl,
      size 0x11014 (by decide)]
    exact fits

end Sismo.Go
