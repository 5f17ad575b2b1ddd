import Sismo.Unwind.Step

namespace Sismo.Unwind

/-! The tail-call walk against the chain of frames on the stack. -/

def Maps.rowAt (maps : Maps) (pid ip : Nat) : Option StackUnwindRow :=
  match maps.unwindFindMapping pid ip with
  | none => none
  | some mapping =>
      if mapping.begin ≤ ip ∧ ip < mapping.end_ ∧ mapping.type ≠ .anon then
        match maps.lookupRow mapping ip with
        | .found index => maps.row index
        | _ => none
      else none

structure Registers where
  ip : Nat
  sp : Nat
  bp : Nat

/-- A frame's canonical frame address, return address and caller's rbp, as its
row and the memory give them. -/
structure Frame (mem : UserMemory) (row : StackUnwindRow) (regs : Registers)
    (cfa ra bp : Nat) : Prop where
  cfa_eq : (row.cfaType = .rsp ∧ cfa = u64 (regs.sp + row.cfaOffset)) ∨
    (row.cfaType = .rbp ∧ cfa = u64 (regs.bp + row.cfaOffset))
  bp_eq : (row.rbpType = .unchanged ∧ bp = regs.bp) ∨
    (row.rbpType = .offset ∧
      mem.read (wrappingAddSigned cfa row.rbpOffset) = some bp)
  returnAddress : mem.read (wrappingSub cfa 8) = some ra

inductive ChainEnd where
  | zeroReturnAddress | undefinedReturnAddress | unfinished
  deriving DecidableEq, Repr

/-- The pcs of the frames from the registers on: the leaf's own pc, then a pc
inside the call instruction of each caller. -/
inductive Chain (mem : UserMemory) (rowAt : Nat → Option StackUnwindRow) :
    Registers → List Nat → ChainEnd → Prop
  | unfinished {regs : Registers} : Chain mem rowAt regs [] .unfinished
  | undefined {regs : Registers} {row : StackUnwindRow}
      (covering : rowAt regs.ip = some row)
      (marked : row.rbpType = .undefinedReturnAddress)
      (covered : row.cfaType ≠ .endOfFdeMarker) :
      Chain mem rowAt regs [] .undefinedReturnAddress
  | bottom {regs : Registers} {row : StackUnwindRow} {cfa bp : Nat}
      (covering : rowAt regs.ip = some row)
      (frame : Frame mem row regs cfa 0 bp) :
      Chain mem rowAt regs [regs.ip] .zeroReturnAddress
  | caller {regs : Registers} {row : StackUnwindRow} {cfa ra bp : Nat}
      {pcs : List Nat} {ending : ChainEnd}
      (covering : rowAt regs.ip = some row)
      (frame : Frame mem row regs cfa ra bp) (nonzero : ra ≠ 0)
      (rest : Chain mem rowAt ⟨ra - 1, cfa, bp⟩ pcs ending) :
      Chain mem rowAt regs (regs.ip :: pcs) ending

def UnwindRun.frames (run : UnwindRun) : List Nat :=
  (List.range run.n).map run.pcs

@[simp] theorem frames_length (run : UnwindRun) :
    run.frames.length = run.n := by
  simp [UnwindRun.frames]

structure UnwindRun.At (run : UnwindRun) (pid : Nat) (regs : Registers) :
    Prop where
  status : run.status = .running
  pid_eq : run.pid = pid
  ip : run.ip = regs.ip
  sp : run.sp = regs.sp
  bp : run.bp = regs.bp

theorem unwindPushIp_eq {run : UnwindRun} (room : run.n < maxStack) :
    unwindPushIp run =
      { run with
        pcs := Function.update run.pcs run.n run.ip
        n := run.n + 1 } := by
  have inside : run.n &&& (maxStack - 1) = run.n := by
    rw [land_mask (show maxStack = 2 ^ 6 from rfl)]
    exact Nat.mod_eq_of_lt room
  rw [unwindPushIp, if_pos room, inside]

theorem frames_unwindPushIp {run : UnwindRun} (room : run.n < maxStack) :
    (unwindPushIp run).frames = run.frames ++ [run.ip] := by
  rw [unwindPushIp_eq room]
  simp only [UnwindRun.frames, List.range_succ, List.map_append,
    List.map_singleton, Function.update_self]
  congr 1
  apply List.map_congr_left
  intro i below
  exact Function.update_of_ne (List.mem_range.mp below).ne _ _

section

variable {mem : UserMemory} {maps : Maps} {pid : Nat} {run : UnwindRun}
variable {regs : Registers} {row : StackUnwindRow}

theorem unwindStep_eq (started : run.At pid regs)
    (covering : maps.rowAt pid regs.ip = some row) :
    unwindStep mem maps run = unwindRow mem run row := by
  rw [Maps.rowAt] at covering
  rw [unwindStep, started.pid_eq, started.ip]
  cases found : maps.unwindFindMapping pid regs.ip with
  | none => simp [found] at covering
  | some mapping =>
      simp only [found] at covering ⊢
      split at covering
      · next inside =>
          obtain ⟨above, below, notAnon⟩ := inside
          rw [if_neg (by omega), if_neg notAnon]
          cases lookup : maps.lookupRow mapping regs.ip with
          | noPage => simp [lookup] at covering
          | notFound => simp [lookup] at covering
          | found index =>
              simp only [lookup] at covering ⊢
              rw [covering]
      · cases covering

theorem Frame.cfa_ne_zero {cfa ra bp : Nat}
    (frame : Frame mem row regs cfa ra bp) : cfa ≠ 0 := by
  rintro rfl
  have below := mem.user _ _ frame.returnAddress
  simp only [wrappingSub, u64] at below
  omega

theorem unwindRow_frame {cfa ra bp : Nat} (started : run.At pid regs)
    (frame : Frame mem row regs cfa ra bp) :
    unwindRow mem run row =
      if run.n < maxStack then
        if ra = 0 then ({ unwindPushIp run with status := .done }, true)
        else
          ({ unwindPushIp run with ip := ra - 1, sp := cfa, bp := bp }, false)
      else (run.fail .truncated, true) := by
  have cfaType : row.cfaType ≠ .endOfFdeMarker ∧
      row.cfaType ≠ .offsetDidNotFit := by
    rcases frame.cfa_eq with ⟨rsp, _⟩ | ⟨rbp, _⟩
    · simp [rsp]
    · simp [rbp]
  have rbpType : row.rbpType ≠ .undefinedReturnAddress ∧
      row.rbpType ≠ .offsetDidNotFit ∧ row.rbpType ≠ .register ∧
      row.rbpType ≠ .expression := by
    rcases frame.bp_eq with ⟨unchanged, _⟩ | ⟨offset, _⟩
    · simp [unchanged]
    · simp [offset]
  rw [unwindRow, if_neg cfaType.1, if_neg rbpType.1,
    if_neg (not_or.mpr ⟨cfaType.2, rbpType.2.1⟩)]
  split
  · next room =>
      have pushed : (unwindPushIp run).sp = regs.sp ∧
          (unwindPushIp run).bp = regs.bp := by
        rw [unwindPushIp_eq room]
        exact ⟨started.sp, started.bp⟩
      have address : previousRsp mem (unwindPushIp run) row = .ok cfa := by
        rcases frame.cfa_eq with ⟨rsp, equal⟩ | ⟨rbp, equal⟩
        · simp [previousRsp, rsp, equal, pushed.1]
        · simp [previousRsp, rbp, equal, pushed.2]
      have callerBp : (if row.rbpType = .unchanged then
            some (unwindPushIp run).bp
          else mem.read (wrappingAddSigned cfa row.rbpOffset)) = some bp := by
        rcases frame.bp_eq with ⟨unchanged, equal⟩ | ⟨offset, read⟩
        · rw [if_pos unchanged, pushed.2, equal]
        · rw [if_neg (by simp [offset]), read]
      rw [unwindCaller, if_neg (not_or.mpr rbpType.2.2), address]
      simp only [if_neg frame.cfa_ne_zero, callerBp, frame.returnAddress]
  · rfl

theorem unwindStep_caller {cfa ra bp : Nat} (started : run.At pid regs)
    (covering : maps.rowAt pid regs.ip = some row)
    (frame : Frame mem row regs cfa ra bp) (nonzero : ra ≠ 0)
    (room : run.n < maxStack) :
    ∃ next, unwindStep mem maps run = (next, false) ∧ next.n = run.n + 1 ∧
      next.frames = run.frames ++ [regs.ip] ∧
      next.At pid ⟨ra - 1, cfa, bp⟩ := by
  refine ⟨{ unwindPushIp run with ip := ra - 1, sp := cfa, bp := bp }, ?_, ?_,
    ?_, ?_⟩
  · rw [unwindStep_eq started covering, unwindRow_frame started frame,
      if_pos room, if_neg nonzero]
  · rw [unwindPushIp_eq room]
  · exact (frames_unwindPushIp room).trans (by rw [started.ip])
  · rw [unwindPushIp_eq room]
    exact ⟨started.status, started.pid_eq, rfl, rfl, rfl⟩

theorem unwindRow_undefined
    (marked : row.rbpType = .undefinedReturnAddress)
    (covered : row.cfaType ≠ .endOfFdeMarker) :
    unwindRow mem run row = ({ run with status := .done }, true) := by
  rw [unwindRow, if_neg covered, if_pos marked]

end

/-! The driver, from any point of one of its programs. -/

section

variable {mem : UserMemory} {maps : Maps} {tailCall : Nat → Bool}
variable {tailCalls iterations : Nat} {run next : UnwindRun}

def unwindResume (mem : UserMemory) (maps : Maps) (tailCall : Nat → Bool)
    (tailCalls iterations : Nat) (run : UnwindRun) : UnwindRun :=
  let run := unwindLoop mem maps iterations run
  if run.status = .running then
    if run.n < maxStack ∧ tailCalls < maxTailCalls ∧
        tailCall (tailCalls + 1) = true then
      unwindWalk mem maps tailCall (tailCalls + 1) run
    else run.fail .truncated
  else run

theorem unwindWalk_eq_resume :
    unwindWalk mem maps tailCall tailCalls run =
      unwindResume mem maps tailCall tailCalls framesPerProg run := by
  rw [unwindWalk, unwindResume]

theorem unwindResume_step (stepped : unwindStep mem maps run = (next, false)) :
    unwindResume mem maps tailCall tailCalls (iterations + 1) run =
      unwindResume mem maps tailCall tailCalls iterations next := by
  rw [unwindResume, unwindLoop, stepped, unwindResume]

theorem unwindResume_finish (stepped : unwindStep mem maps run = (next, true))
    (finished : next.status ≠ .running) :
    unwindResume mem maps tailCall tailCalls (iterations + 1) run = next := by
  rw [unwindResume, unwindLoop, stepped]
  exact if_neg finished

/-- Every step so far wrote one pc, so that a program has iterations left for
the next frame or another program follows. -/
theorem exists_unwindResume (mem : UserMemory) (maps : Maps)
    (running : run.status = .running)
    (linked : ∀ count, tailCall count = true) (within : run.n ≤ maxStack)
    (position : run.n + iterations = framesPerProg * (tailCalls + 1)) :
    ∃ tailCalls' left, run.n + (left + 1) = framesPerProg * (tailCalls' + 1) ∧
      unwindResume mem maps tailCall tailCalls iterations run =
        unwindResume mem maps tailCall tailCalls' (left + 1) run := by
  simp only [framesPerProg, maxStack] at position within
  cases iterations with
  | zero =>
      refine ⟨tailCalls + 1, 6, by simp only [framesPerProg]; omega, ?_⟩
      rw [unwindResume, unwindLoop]
      simp only [running, ↓reduceIte, maxStack, maxTailCalls, linked, and_true]
      rw [if_pos (by omega), unwindWalk_eq_resume]
      rfl
  | succ left => exact ⟨tailCalls, left, position, rfl⟩

end

section

variable {mem : UserMemory} {maps : Maps} {pid : Nat} {tailCall : Nat → Bool}

theorem truncated_frames {run : UnwindRun} {ending : ChainEnd}
    (full : run.n = maxStack) (rest : List Nat) {pc : Nat} :
    (ending ≠ .unfinished → run.n + (pc :: rest).length ≤ maxStack →
      (run.fail .truncated).status = .done ∧
        (run.fail .truncated).frames = run.frames ++ pc :: rest) ∧
    (maxStack < run.n + (pc :: rest).length →
      (run.fail .truncated).status = .failed ∧
        (run.fail .truncated).err = .truncated ∧
        (run.fail .truncated).frames =
          (run.frames ++ pc :: rest).take maxStack) := by
  rw [List.length_cons]
  constructor
  · omega
  · intro _
    refine ⟨rfl, rfl, ?_⟩
    exact (List.take_left' ((frames_length run).trans full)).symm

/-- From the registers of a frame, the rest of the walk lists the rest of the
chain. -/
theorem unwindResume_chain (linked : ∀ count, tailCall count = true)
    {regs : Registers} {pcs : List Nat} {ending : ChainEnd}
    (chain : Chain mem (maps.rowAt pid) regs pcs ending)
    {tailCalls iterations : Nat} {run : UnwindRun}
    (started : run.At pid regs) (within : run.n ≤ maxStack)
    (position : run.n + iterations = framesPerProg * (tailCalls + 1)) :
    let final := unwindResume mem maps tailCall tailCalls iterations run
    (ending ≠ .unfinished → run.n + pcs.length ≤ maxStack →
      final.status = .done ∧ final.frames = run.frames ++ pcs) ∧
    (maxStack < run.n + pcs.length →
      final.status = .failed ∧ final.err = .truncated ∧
        final.frames = (run.frames ++ pcs).take maxStack) := by
  induction chain generalizing tailCalls iterations run with
  | unfinished =>
      refine ⟨fun ends => absurd rfl ends, fun long => ?_⟩
      rw [List.length_nil] at long
      omega
  | @undefined regs row covering marked covered =>
      obtain ⟨tailCalls, left, _, resumed⟩ :=
        exists_unwindResume mem maps started.status linked within position
      rw [resumed, unwindResume_finish
        ((unwindStep_eq started covering).trans
          (unwindRow_undefined marked covered)) (by simp)]
      constructor
      · intro _ _
        exact ⟨rfl, (List.append_nil _).symm⟩
      · intro long
        rw [List.length_nil] at long
        omega
  | @bottom regs row cfa bp covering frame =>
      obtain ⟨tailCalls, left, _, resumed⟩ :=
        exists_unwindResume mem maps started.status linked within position
      have stepped := (unwindStep_eq started covering).trans
        (unwindRow_frame started frame)
      rw [resumed]
      by_cases room : run.n < maxStack
      · rw [if_pos room, if_pos rfl] at stepped
        rw [unwindResume_finish stepped (by simp)]
        constructor
        · intro _ _
          exact ⟨rfl, started.ip ▸ frames_unwindPushIp room⟩
        · intro long
          simp at long
          omega
      · rw [if_neg room] at stepped
        rw [unwindResume_finish stepped (by simp [UnwindRun.fail])]
        exact truncated_frames (by omega) []
  | @caller regs row cfa ra bp pcs ending covering frame nonzero rest
      induction =>
      obtain ⟨tailCalls, left, position, resumed⟩ :=
        exists_unwindResume mem maps started.status linked within position
      rw [resumed]
      by_cases room : run.n < maxStack
      · obtain ⟨next, stepped, count, listed, nextStarted⟩ :=
          unwindStep_caller started covering frame nonzero room
        rw [unwindResume_step stepped]
        have walked := induction nextStarted (by omega)
          (show next.n + left = framesPerProg * (tailCalls + 1) by omega)
        rw [count, listed, List.append_assoc, List.singleton_append] at walked
        rw [List.length_cons]
        exact ⟨fun ends short => walked.1 ends (by omega),
          fun long => walked.2 (by omega)⟩
      · have stepped := (unwindStep_eq started covering).trans
          (unwindRow_frame started frame)
        rw [if_neg room] at stepped
        rw [unwindResume_finish stepped (by simp [UnwindRun.fail])]
        exact truncated_frames (by omega) _

end

section

variable (mem : UserMemory) (maps : Maps) {written : Nat → Nat}
variable {run : UnwindRun}

/-- At most as many pcs as the array holds, and nothing written outside it. -/
structure Bounded (written : Nat → Nat) (run : UnwindRun) : Prop where
  n_le : run.n ≤ maxStack
  outside : ∀ i, maxStack ≤ i → run.pcs i = written i

theorem Bounded.pushIp (bounded : Bounded written run) :
    Bounded written (unwindPushIp run) := by
  by_cases room : run.n < maxStack
  · rw [unwindPushIp_eq room]
    refine ⟨room, fun i above => ?_⟩
    exact (Function.update_of_ne (by omega) _ _).trans
      (bounded.outside i above)
  · rw [unwindPushIp, if_neg room]
    exact bounded

theorem Bounded.leafGuess (bounded : Bounded written run)
    (err : UnwindError) : Bounded written (unwindLeafGuess mem run err).1 := by
  unfold unwindLeafGuess
  dsimp only
  split
  · refine ⟨show 1 ≤ maxStack by decide, fun i above => ?_⟩
    have notFirst : i ≠ 0 := by
      rintro rfl
      exact absurd above (by decide)
    exact (Function.update_of_ne notFirst _ _).trans (bounded.outside i above)
  · split
    · exact ⟨bounded.pushIp.n_le, bounded.pushIp.outside⟩
    · exact ⟨bounded.n_le, bounded.outside⟩

/-- Going on to the caller writes no pc. -/
theorem unwindCaller_writes (run : UnwindRun) (row : StackUnwindRow) :
    (unwindCaller mem run row).1.n = run.n ∧
      (unwindCaller mem run row).1.pcs = run.pcs := by
  unfold unwindCaller
  split
  · exact ⟨rfl, rfl⟩
  · split
    · exact ⟨rfl, rfl⟩
    · split
      · exact ⟨rfl, rfl⟩
      · dsimp only
        split
        · exact ⟨rfl, rfl⟩
        · split
          · exact ⟨rfl, rfl⟩
          · split
            · exact ⟨rfl, rfl⟩
            · exact ⟨rfl, rfl⟩

theorem Bounded.row (bounded : Bounded written run) (row : StackUnwindRow) :
    Bounded written (unwindRow mem run row).1 := by
  unfold unwindRow
  split
  · split
    · exact bounded.leafGuess mem _
    · exact ⟨bounded.pushIp.n_le, bounded.pushIp.outside⟩
  · split
    · exact ⟨bounded.n_le, bounded.outside⟩
    · split
      · split
        · exact bounded.leafGuess mem _
        · exact ⟨bounded.n_le, bounded.outside⟩
      · split
        · have pushed := bounded.pushIp
          obtain ⟨count, pcs⟩ :=
            unwindCaller_writes mem (unwindPushIp run) row
          exact ⟨count ▸ pushed.n_le, pcs ▸ pushed.outside⟩
        · exact ⟨bounded.n_le, bounded.outside⟩

theorem Bounded.step (bounded : Bounded written run) :
    Bounded written (unwindStep mem maps run).1 := by
  unfold unwindStep
  split
  · exact bounded.leafGuess mem _
  · split
    · exact ⟨bounded.n_le, bounded.outside⟩
    · split
      · exact ⟨bounded.n_le, bounded.outside⟩
      · split
        · exact bounded.leafGuess mem _
        · exact ⟨bounded.n_le, bounded.outside⟩
        · split
          · exact ⟨bounded.n_le, bounded.outside⟩
          · exact bounded.row mem _

theorem Bounded.loop (bounded : Bounded written run) (iterations : Nat) :
    Bounded written (unwindLoop mem maps iterations run) := by
  induction iterations generalizing run with
  | zero => exact bounded
  | succ iterations induction =>
      have stepped := bounded.step mem maps
      rw [unwindLoop]
      split
      · next next finished =>
          rw [finished] at stepped
          exact stepped
      · next next continued =>
          rw [continued] at stepped
          exact induction stepped

theorem Bounded.walk (bounded : Bounded written run)
    (tailCall : Nat → Bool) (tailCalls : Nat) :
    Bounded written (unwindWalk mem maps tailCall tailCalls run) ∧
      (unwindWalk mem maps tailCall tailCalls run).status ≠ .running := by
  fun_induction unwindWalk mem maps tailCall tailCalls run with
  | case1 tailCalls run next running linked induction =>
      exact induction (bounded.loop mem maps _)
  | case2 tailCalls run next running stopped =>
      have looped := bounded.loop mem maps framesPerProg
      exact ⟨⟨looped.n_le, looped.outside⟩, by simp [UnwindRun.fail]⟩
  | case3 tailCalls run next finished => exact ⟨bounded.loop mem maps _, finished⟩

end

/-- The leaf's registers as the tick handler stores them for the walk. -/
def Registers.start (regs : Registers) (pid : Nat) (pcs : Nat → Nat) :
    UnwindRun where
  ip := regs.ip
  sp := regs.sp
  bp := regs.bp
  pid := pid
  pcs := pcs

/-- The walk lists the chain of frames, cut at 64, and halts inside its array
whatever the tables and the memory are. -/
theorem unwindWalk_refines_chain (mem : UserMemory) (maps : Maps) (pid : Nat)
    (regs : Registers) (pcs : Nat → Nat) :
    (∀ tailCall,
      let final := unwindWalk mem maps tailCall 0 (regs.start pid pcs)
      final.status ≠ .running ∧ final.n ≤ maxStack ∧
        ∀ i, maxStack ≤ i → final.pcs i = pcs i) ∧
    ∀ chain ending, Chain mem (maps.rowAt pid) regs chain ending →
      let final := unwindWalk mem maps (fun _ => true) 0 (regs.start pid pcs)
      (ending ≠ .unfinished → chain.length ≤ maxStack →
        final.status = .done ∧ final.frames = chain) ∧
      (maxStack < chain.length →
        final.status = .failed ∧ final.err = .truncated ∧
          final.frames = chain.take maxStack) := by
  constructor
  · intro tailCall
    have start : Bounded pcs (regs.start pid pcs) :=
      ⟨Nat.zero_le _, fun _ _ => rfl⟩
    obtain ⟨bounded, halted⟩ := start.walk mem maps tailCall 0
    exact ⟨halted, bounded.n_le, bounded.outside⟩
  · intro chain ending frames
    have started : (regs.start pid pcs).At pid regs := ⟨rfl, rfl, rfl, rfl, rfl⟩
    have position : (regs.start pid pcs).n + framesPerProg =
        framesPerProg * (0 + 1) := rfl
    have walked := unwindResume_chain (fun _ => rfl) frames started
      (Nat.zero_le _) position
    rw [← unwindWalk_eq_resume] at walked
    simpa [UnwindRun.frames, Registers.start] using walked

theorem zero_lt_rowPcs : 0 < 2 ^ 16 := by decide

/-- A frameless leaf and its caller with a frame pointer, the bottom of the
stack. -/
def twoFrameRows : Nat → StackUnwindRow
  | 0 => { pcLow := 0x1000, cfaType := .rsp, cfaOffset := 8 }
  | 1 =>
      { pcLow := 0x1100
        cfaType := .rbp
        rbpType := .offset
        cfaOffset := 16
        rbpOffset := -16 }
  | _ => { pcLow_lt := zero_lt_rowPcs }

def twoFrameMaps : Maps where
  rows := twoFrameRows
  pages := (∅ : HashMap PageKey PageValue).insert ⟨1, 0⟩ ⟨0, 2⟩
  execMappings := (∅ : HashMap ExecMappingsKey Mapping).insert
    (.new 7 0x1000 (32 + 52)) ⟨1, 0, 0x1000, 0x2000, .file⟩

def twoFrameRead (address : Nat) : Option Nat :=
  if address = 0x7000 then some 0x1111
  else if address = 0x7100 ∨ address = 0x7108 then some 0
  else none

def twoFrameMemory : UserMemory where
  read := twoFrameRead
  user address value read := by
    simp only [twoFrameRead] at read
    split at read
    · omega
    · split at read
      · omega
      · cases read
  word address value read := by
    simp only [twoFrameRead] at read
    split at read
    · cases read
      decide
    · split at read
      · cases read
        decide
      · cases read

theorem twoFrameChain :
    Chain twoFrameMemory (twoFrameMaps.rowAt 7) ⟨0x1010, 0x7000, 0x7100⟩
      [0x1010, 0x1110] .zeroReturnAddress := by
  have leaf : Frame twoFrameMemory (twoFrameRows 0)
      ⟨0x1010, 0x7000, 0x7100⟩ 0x7008 0x1111 0x7100 :=
    ⟨.inl ⟨rfl, rfl⟩, .inl ⟨rfl, rfl⟩, rfl⟩
  have caller : Frame twoFrameMemory (twoFrameRows 1)
      ⟨0x1110, 0x7008, 0x7100⟩ 0x7110 0 0 :=
    ⟨.inr ⟨rfl, rfl⟩, .inr ⟨rfl, rfl⟩, rfl⟩
  exact .caller (by decide) leaf (by decide) (.bottom (by decide) caller)

theorem unwindWalk_twoFrames :
    let final := unwindWalk twoFrameMemory twoFrameMaps (fun _ => true) 0
      (Registers.start ⟨0x1010, 0x7000, 0x7100⟩ 7 fun _ => 0)
    final.status = .done ∧ final.frames = [0x1010, 0x1110] :=
  ((unwindWalk_refines_chain twoFrameMemory twoFrameMaps 7
    ⟨0x1010, 0x7000, 0x7100⟩ fun _ => 0).2 _ _ twoFrameChain).1 (by decide)
    (by decide)

end Sismo.Unwind
