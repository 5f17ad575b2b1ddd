import Sismo.Views.Activity

namespace Sismo.Views.Activity

/-! The buckets' busy time against the time of the window. -/

namespace SchedTables

variable {tables : SchedTables} {upids : List Nat} {window : Window}

/-! ### No bucket has more than its cores' time -/

theorem runs_apart : tables.runs.Pairwise fun first second =>
    first.1.cpu = second.1.cpu → first.1.span.Apart second.1.span := by
  unfold runs
  rw [List.pairwise_filterMap]
  apply tables.sched_apart.imp
  intro first second apart run made run' made' same
  obtain ⟨⟨positive, -⟩, made⟩ := Option.ite_none_right_eq_some.mp made
  obtain ⟨⟨positive', -⟩, made'⟩ := Option.ite_none_right_eq_some.mp made'
  obtain ⟨thread, -, rfl⟩ := Option.map_eq_some_iff.mp made
  obtain ⟨thread', -, rfl⟩ := Option.map_eq_some_iff.mp made'
  exact apart same positive positive'

theorem runs_cpu {run : SchedSlice × Thread} (member : run ∈ tables.runs) :
    run.1.cpu ∈ tables.cpus := by
  obtain ⟨s, inSched, made⟩ := List.mem_filterMap.mp member
  obtain ⟨-, made⟩ := Option.ite_none_right_eq_some.mp made
  obtain ⟨thread, -, rfl⟩ := Option.map_eq_some_iff.mp made
  exact tables.sched_cpu s inSched

def onCpu (slices : List (SchedSlice × Thread)) (cpu : Nat) :
    List (SchedSlice × Thread) :=
  slices.filter fun run => run.1.cpu = cpu

theorem timeIn_le_cpus {slices : List (SchedSlice × Thread)}
    {cpus : List Nat} (known : ∀ run ∈ slices, run.1.cpu ∈ cpus)
    (lo hi : Int) : timeIn lo hi slices ≤
      (cpus.map fun cpu => timeIn lo hi (onCpu slices cpu)).sum := by
  induction slices with
  | nil =>
      exact List.sum_nonneg fun time member => by
        obtain ⟨cpu, -, rfl⟩ := List.mem_map.mp member
        exact timeIn_nonneg lo hi _
  | cons run slices induction =>
      have rest := induction fun other member =>
        known other (List.mem_cons_of_mem run member)
      have here := Span.overlap_nonneg lo hi run.1.span
      have step : ∀ cpu, timeIn lo hi (onCpu (run :: slices) cpu) =
          (if run.1.cpu = cpu then run.1.span.overlap lo hi else 0) +
            timeIn lo hi (onCpu slices cpu) := by
        intro cpu
        unfold onCpu timeIn
        rw [List.filter_cons]
        by_cases same : run.1.cpu = cpu
        · simp [same]
        · simp [same]
      have once : run.1.span.overlap lo hi ≤ (cpus.map fun cpu =>
          if run.1.cpu = cpu then run.1.span.overlap lo hi else 0).sum := by
        apply List.single_le_sum
        · intro time member
          obtain ⟨cpu, -, rfl⟩ := List.mem_map.mp member
          split
          · exact here
          · exact le_rfl
        · exact List.mem_map.mpr
            ⟨run.1.cpu, known run List.mem_cons_self, if_pos rfl⟩
      simp only [step]
      rw [List.sum_map_add]
      change run.1.span.overlap lo hi + timeIn lo hi slices ≤ _
      omega

theorem timeIn_runs_le {lo hi : Int} (forward : lo ≤ hi) :
    timeIn lo hi tables.runs ≤ (hi - lo) * tables.cpus.length := by
  apply (timeIn_le_cpus (fun _ => runs_cpu) lo hi).trans
  have each : ∀ time ∈ tables.cpus.map fun cpu =>
      timeIn lo hi (onCpu tables.runs cpu), time ≤ hi - lo := by
    intro time member
    obtain ⟨cpu, -, rfl⟩ := List.mem_map.mp member
    have apart : ((onCpu tables.runs cpu).map (·.1.span)).Pairwise
        Span.Apart := by
      rw [List.pairwise_map]
      apply (runs_apart.filter _).imp_of_mem
      intro first second inFirst inSecond apart
      apply apart
      exact (of_decide_eq_true (List.mem_filter.mp inFirst).2).trans
        (of_decide_eq_true (List.mem_filter.mp inSecond).2).symm
    have le := Span.sum_overlap_le apart forward
    rw [List.map_map] at le
    exact le
  have le := List.sum_le_card_nsmul _ _ each
  rw [List.length_map, nsmul_eq_mul, mul_comm] at le
  exact le

/-! ### The buckets together -/

variable (window) in
def boardEnd : Int := window.lo + window.numBuckets * window.width

variable (tables upids window) in
/-- All buckets have the window's busy time, each one its own, and none more
than its cores have. -/
structure ConservesTime : Prop where
  total : ((tables.board upids window).buckets.map (·.busyNs)).sum =
    timeIn window.lo window.hi tables.runs
  each : ∀ b ∈ (tables.board upids window).buckets,
    b.busyNs = timeIn b.startTs b.endTs tables.runs ∧
      b.busyNs ≤ (tables.board upids window).bucketWidthNs *
        (tables.board upids window).numCpus

theorem bucket_endTs (b : Nat) : (tables.bucket upids window b).endTs =
    window.lo + (b + 1) * window.width := by
  change window.lo + b * window.width + window.width = _
  rw [add_mul, one_mul, add_assoc]

theorem total_busyNs :
    ((tables.board upids window).buckets.map (·.busyNs)).sum =
      timeIn window.lo (boardEnd window) (tables.taken window) := by
  change (((List.range window.numBuckets).map
    (tables.bucket upids window)).map (·.busyNs)).sum = _
  rw [List.map_map, boardEnd, ← timeIn_steps]
  apply congrArg List.sum
  apply List.map_congr_left
  exact fun b member => busyNs_eq (List.mem_range.mp member)

theorem busyNs_le {b : Nat} (inside : b < window.numBuckets) :
    (tables.bucket upids window b).busyNs ≤
      window.width * tables.cpus.length := by
  have positive := @width_pos window
  have step : ((b : Int) + 1) * window.width =
      b * window.width + window.width := by rw [add_mul, one_mul]
  have le := @timeIn_runs_le tables (window.lo + b * window.width)
    (window.lo + (b + 1) * window.width) (by omega)
  have wide : window.lo + (b + 1) * window.width -
      (window.lo + b * window.width) = window.width := by omega
  have others := timeIn_nonneg (window.lo + b * window.width)
    (window.lo + (b + 1) * window.width) (tables.left window)
  rw [← @timeIn_split tables window, wide] at le
  rw [busyNs_eq inside]
  omega

theorem each_iff : (∀ b ∈ (tables.board upids window).buckets,
      b.busyNs = timeIn b.startTs b.endTs tables.runs) ↔
    timeIn window.lo (boardEnd window) (tables.left window) = 0 := by
  have bucket_iff : ∀ b < window.numBuckets,
      (tables.bucket upids window b).busyNs =
        timeIn (tables.bucket upids window b).startTs
          (tables.bucket upids window b).endTs tables.runs ↔
      timeIn (window.lo + b * window.width)
        (window.lo + (b + 1) * window.width) (tables.left window) = 0 := by
    intro b inside
    rw [bucket_endTs, busyNs_eq inside]
    change _ = timeIn (window.lo + b * window.width) _ _ ↔ _
    rw [← @timeIn_split tables window]
    omega
  have steps := @timeIn_steps window (tables.left window) window.numBuckets
  unfold boardEnd
  rw [← steps]
  constructor
  · intro all
    apply List.sum_eq_zero
    intro time member
    obtain ⟨b, inside, rfl⟩ := List.mem_map.mp member
    exact (bucket_iff b (List.mem_range.mp inside)).mp
      (all _ (List.mem_map_of_mem inside))
  · intro zero bucket member
    obtain ⟨b, inside, rfl⟩ := List.mem_map.mp member
    apply (bucket_iff b (List.mem_range.mp inside)).mpr
    have nonneg : ∀ time ∈ (List.range window.numBuckets).map fun b : Nat =>
        timeIn (window.lo + b * window.width)
          (window.lo + (b + 1) * window.width) (tables.left window),
        0 ≤ time := by
      intro time member
      obtain ⟨b, -, rfl⟩ := List.mem_map.mp member
      exact timeIn_nonneg _ _ _
    exact List.all_zero_of_le_zero_le_of_sum_eq_zero nonneg zero
      (List.mem_map.mpr ⟨b, inside, rfl⟩)

theorem lo_le_boardEnd : window.lo ≤ boardEnd window := by
  have forward := Int.mul_nonneg (Int.natCast_nonneg window.numBuckets)
    (@width_pos window).le
  unfold boardEnd
  omega

theorem conservesTime_iff : ConservesTime tables upids window ↔
    timeIn (min (boardEnd window) window.hi) (max (boardEnd window) window.hi)
      tables.runs = 0 := by
  have forward := @lo_le_boardEnd window
  have nonempty := window.nonempty
  have parts : ConservesTime tables upids window ↔
      timeIn window.lo (boardEnd window) (tables.taken window) =
        timeIn window.lo window.hi tables.runs ∧
      timeIn window.lo (boardEnd window) (tables.left window) = 0 := by
    rw [← @total_busyNs tables upids, ← @each_iff tables upids]
    constructor
    · exact fun conserves => ⟨conserves.total, fun b member =>
        (conserves.each b member).1⟩
    · refine fun both => ⟨both.1, fun bucket member =>
        ⟨both.2 bucket member, ?_⟩⟩
      obtain ⟨b, inside, rfl⟩ := List.mem_map.mp member
      exact busyNs_le (List.mem_range.mp inside)
  rw [parts]
  rcases Int.le_total (boardEnd window) window.hi with short | long
  · have within := @timeIn_split tables window
      window.lo (boardEnd window)
    have outside := @timeIn_left tables _ _ _ (le_refl window.lo) short
    have whole := timeIn_add forward short tables.runs
    rw [min_eq_left short, max_eq_right short]
    omega
  · have within := @timeIn_split tables window
      window.lo window.hi
    have outside := @timeIn_left tables _ _ _ (le_refl window.lo)
      (le_refl window.hi)
    have past := @timeIn_split tables window
      window.hi (boardEnd window)
    have taken_ := timeIn_add nonempty.le long (tables.taken window)
    have left_ := timeIn_add nonempty.le long (tables.left window)
    have nonneg := timeIn_nonneg window.hi (boardEnd window)
      (tables.taken window)
    have nonneg' := timeIn_nonneg window.hi (boardEnd window)
      (tables.left window)
    rw [min_eq_right long, max_eq_left long]
    omega

/-- The buckets conserve the running time exactly when no slice runs between
the end of the last bucket and the end of the window. -/
theorem activity_conserves_iff (tables : SchedTables) (upids : List Nat)
    (window : Window) : ConservesTime tables upids window ↔
      ∀ run ∈ tables.runs,
        run.1.span.overlap (min (boardEnd window) window.hi)
          (max (boardEnd window) window.hi) = 0 := by
  rw [conservesTime_iff, timeIn_eq_zero_iff]

/-! ### A run as long as the buckets and one instant more -/

def longRun : List SchedSlice := [⟨0, 161, 1, 0⟩]

theorem longRun_cpu : ∀ s ∈ longRun, s.cpu ∈ [0] := by decide

theorem longRun_apart : longRun.Pairwise fun first second =>
    first.cpu = second.cpu → 0 < first.dur → 0 < second.dur →
      first.span.Apart second.span := List.pairwise_singleton _ _

theorem longRun_utids : ([⟨1, some 1, false⟩].map Thread.utid).Nodup :=
  List.nodup_singleton 1

def longRunTables : SchedTables where
  sched := longRun
  threads := [⟨1, some 1, false⟩]
  cpus := [0]
  thread_utids := longRun_utids
  sched_cpu := longRun_cpu
  sched_apart := longRun_apart

theorem longRun_nonempty : (0 : Int) < 161 := by decide

theorem longRun_positive : 0 < 160 := by decide

def longRunWindow : Window :=
  ⟨0, 161, 160, longRun_nonempty, longRun_positive⟩

/-- Each of 160 buckets is one instant wide, and the last instant is lost. -/
theorem not_activity_conserves : ¬∀ (tables : SchedTables)
    (upids : List Nat) (window : Window),
    ConservesTime tables upids window := by
  intro all
  have lost := conservesTime_iff.mp (all longRunTables [] longRunWindow)
  have one : timeIn (min (boardEnd longRunWindow) longRunWindow.hi)
      (max (boardEnd longRunWindow) longRunWindow.hi)
      longRunTables.runs = 1 := by decide
  omega

end SchedTables

end Sismo.Views.Activity
