import Sismo.Lib.Intervals
import Sismo.Lib.Relational

namespace Sismo.Views.Activity

/-! The busy time of each bucket of the activity board. -/

structure SchedSlice where
  ts : Int
  dur : Int
  utid : Nat
  cpu : Nat
  deriving DecidableEq, Repr

structure Thread where
  utid : Nat
  upid : Option Nat
  isIdle : Bool
  deriving DecidableEq, Repr

def SchedSlice.span (s : SchedSlice) : Span := ⟨s.ts, s.ts + s.dur⟩

structure SchedTables where
  sched : List SchedSlice
  threads : List Thread
  cpus : List Nat
  thread_utids : (threads.map (·.utid)).Nodup
  sched_cpu : ∀ s ∈ sched, s.cpu ∈ cpus
  sched_apart : sched.Pairwise fun first second =>
    first.cpu = second.cpu → 0 < first.dur → 0 < second.dur →
      first.span.Apart second.span

structure Window where
  lo : Int
  hi : Int
  numBuckets : Nat
  nonempty : lo < hi
  positive : 0 < numBuckets

def Window.width (window : Window) : Int :=
  if (window.hi - window.lo).tdiv window.numBuckets > 0 then
    (window.hi - window.lo).tdiv window.numBuckets
  else 1

structure RunSpan where
  span : Span
  isPriv : Bool
  b0 : Int
  b1 : Int

structure ActivityBucket where
  startTs : Int
  endTs : Int
  busyNs : Int
  privBusyNs : Int

structure ActivityBoard where
  hasData : Bool
  numCpus : Nat
  bucketWidthNs : Int
  buckets : List ActivityBucket

namespace SchedTables

variable (tables : SchedTables) (upids : List Nat) (window : Window)

def threadOf (utid : Nat) : Option Thread :=
  tables.threads.find? (·.utid = utid)

def idle (utid : Nat) : Bool :=
  utid ∈ (tables.threads.filter (·.isIdle)).map (·.utid)

def isPriv (thread : Thread) : Bool :=
  upids = [] ∨ upids.any fun upid => sqlEq thread.upid (some upid)

def runs : List (SchedSlice × Thread) :=
  tables.sched.filterMap fun s =>
    if 0 < s.dur ∧ tables.idle s.utid = false then
      (tables.threadOf s.utid).map (s, ·)
    else none

def runSpan (run : SchedSlice × Thread) : RunSpan where
  span := run.1.span
  isPriv := isPriv upids run.2
  b0 := max 0 ((run.1.ts - window.lo).tdiv window.width)
  b1 := min (window.numBuckets - 1)
    ((run.1.ts + run.1.dur - 1 - window.lo).tdiv window.width)

def ps : List RunSpan :=
  (tables.runs.filter fun run =>
    run.1.ts < window.hi ∧ run.1.ts + run.1.dur > window.lo).map
    (runSpan upids window)

/-- What a slice is credited with in a bucket it is joined to. -/
def credit (b : Nat) (p : RunSpan) : Int :=
  min p.span.stop (window.lo + (b + 1) * window.width) -
    max p.span.start (window.lo + b * window.width)

def joined : List (Nat × RunSpan) :=
  (tables.ps upids window).flatMap fun p =>
    ((List.range window.numBuckets).filter fun b : Nat =>
      p.b0 ≤ (b : Int) ∧ (b : Int) ≤ p.b1).map (·, p)

def busy : List (Nat × Int) :=
  sumBy (·.1) (fun row => credit window row.1 row.2)
    (tables.joined upids window)

def privBusy : List (Nat × Int) :=
  sumBy (·.1) (fun row =>
    if row.2.isPriv then credit window row.1 row.2 else 0)
    (tables.joined upids window)

def slot (rows : List (Nat × Int)) (b : Nat) : Int :=
  ((rows.find? (·.1 = b)).map (·.2)).getD 0

def bucket (b : Nat) : ActivityBucket where
  startTs := window.lo + b * window.width
  endTs := window.lo + b * window.width + window.width
  busyNs := slot (tables.busy upids window) b
  privBusyNs := slot (tables.privBusy upids window) b

def board : ActivityBoard :=
  let buckets := (List.range window.numBuckets).map
    (tables.bucket upids window)
  { hasData := buckets.any (·.busyNs > 0)
    numCpus := tables.cpus.length
    bucketWidthNs := window.width
    buckets := buckets }

/-! ### The rows of a bucket -/

theorem slot_sumBy {α : Type} (key : α → Nat) (amount : α → Int)
    (rows : List α) (b : Nat) : slot (sumBy key amount rows) b =
      ((rows.filter fun row => key row = b).map amount).sum := by
  unfold slot
  cases found : (sumBy key amount rows).find? (·.1 = b) with
  | some row =>
      have here : row.1 = b := by simpa using List.find?_some found
      obtain ⟨-, total⟩ := mem_sumBy.mp (List.mem_of_find?_eq_some found)
      rw [← here]
      exact total
  | none =>
      have none_ : rows.filter (fun row => key row = b) = [] := by
        rw [List.filter_eq_nil_iff]
        intro row member here
        have group := (@mem_sumBy α Nat _ key amount rows _ _).mpr
          ⟨⟨row, member, of_decide_eq_true here⟩, rfl⟩
        have missing := List.find?_eq_none.mp found _ group
        simp at missing
      rw [none_]
      rfl

variable {tables upids window}

theorem width_pos : 0 < window.width := by
  unfold Window.width
  split
  · next positive => exact positive
  · decide

theorem tdiv_nonpos {a b : Int} (down : a ≤ 0) (up : 0 ≤ b) :
    a.tdiv b ≤ 0 := by
  have opposite := Int.tdiv_nonneg (show 0 ≤ -a by omega) up
  rw [Int.neg_tdiv] at opposite
  omega

theorem if_meets {ts te low high : Int} (long : ts < te) (wide : low < high) :
    (if ts < high ∧ low < te then min te high - max ts low else 0) =
      max 0 (min te high - max ts low) := by
  split
  · omega
  · omega

theorem credit_of_between {run : SchedSlice × Thread} {b : Nat}
    (inside : b < window.numBuckets) (long : 0 < run.1.dur)
    (late : run.1.ts + run.1.dur > window.lo) :
    (if (runSpan upids window run).b0 ≤ (b : Int) ∧
          (b : Int) ≤ (runSpan upids window run).b1 then
        credit window b (runSpan upids window run)
      else 0) =
      run.1.span.overlap (window.lo + b * window.width)
        (window.lo + (b + 1) * window.width) := by
  have positive := @width_pos window
  have step : ((b : Int) + 1) * window.width =
      b * window.width + window.width := by
    rw [add_mul, one_mul]
  have last : (b : Int) ≤ (runSpan upids window run).b1 ↔
      window.lo + b * window.width < run.1.ts + run.1.dur := by
    change (b : Int) ≤ min _ _ ↔ _
    rw [Int.tdiv_eq_ediv_of_nonneg (by omega), le_min_iff,
      Int.le_ediv_iff_mul_le positive]
    omega
  have first : (runSpan upids window run).b0 ≤ (b : Int) ↔
      run.1.ts < window.lo + (b + 1) * window.width := by
    change max 0 _ ≤ (b : Int) ↔ _
    have zero := Int.natCast_nonneg b
    have forward := Int.mul_nonneg zero positive.le
    by_cases early : run.1.ts ≤ window.lo
    · have low := tdiv_nonpos (show run.1.ts - window.lo ≤ 0 by omega)
        positive.le
      omega
    · have below := @Int.ediv_lt_iff_lt_mul (run.1.ts - window.lo) (b + 1) _
        positive
      rw [Int.tdiv_eq_ediv_of_nonneg (by omega), max_le_iff]
      omega
  simp only [first, last]
  exact if_meets (show run.1.ts < run.1.ts + run.1.dur by omega)
    (show window.lo + b * window.width <
      window.lo + (b + 1) * window.width by omega)

theorem sum_joined {α : Type} (rows : List α) (between : α → Nat → Bool)
    (amount : Nat → α → Int) {b n : Nat} (inside : b < n) :
    (((rows.flatMap fun p =>
        ((List.range n).filter (between p)).map (·, p)).filter
          fun row => row.1 = b).map fun row => amount row.1 row.2).sum =
      (rows.map fun p => if between p b then amount b p else 0).sum := by
  induction rows with
  | nil => rfl
  | cons p rows induction =>
      have once : (((List.range n).filter (between p)).map (·, p)).filter
          (fun row => row.1 = b) =
          if between p b then [(b, p)] else [] := by
        have keyed : ((fun row : Nat × α => decide (row.1 = b)) ∘ (·, p)) =
            (· == b) := by
          funext other
          exact (beq_eq_decide other b).symm
        rw [List.filter_map, keyed, List.filter_beq,
          (List.nodup_range.filter _).count]
        by_cases here : between p b = true
        · rw [if_pos here, if_pos (List.mem_filter.mpr
            ⟨List.mem_range.mpr inside, here⟩)]
          rfl
        · rw [if_neg here, if_neg fun member =>
            here (List.mem_filter.mp member).2]
          rfl
      rw [List.flatMap_cons, List.filter_append, List.map_append,
        List.sum_append, induction, once, List.map_cons, List.sum_cons]
      split
      · rw [List.map_singleton, List.sum_singleton]
      · rfl

variable (tables window) in
def taken : List (SchedSlice × Thread) :=
  tables.runs.filter fun run =>
    run.1.ts < window.hi ∧ run.1.ts + run.1.dur > window.lo

def timeIn (lo hi : Int) (slices : List (SchedSlice × Thread)) : Int :=
  (slices.map fun run => run.1.span.overlap lo hi).sum

theorem dur_pos {run : SchedSlice × Thread} (member : run ∈ tables.runs) :
    0 < run.1.dur := by
  obtain ⟨s, -, made⟩ := List.mem_filterMap.mp member
  obtain ⟨⟨positive, -⟩, made⟩ := Option.ite_none_right_eq_some.mp made
  obtain ⟨thread, -, rfl⟩ := Option.map_eq_some_iff.mp made
  exact positive

theorem busyNs_eq {b : Nat} (inside : b < window.numBuckets) :
    (tables.bucket upids window b).busyNs =
      timeIn (window.lo + b * window.width)
        (window.lo + (b + 1) * window.width) (tables.taken window) := by
  change slot (tables.busy upids window) b = _
  unfold busy
  rw [slot_sumBy]
  unfold joined
  rw [sum_joined (tables.ps upids window)
    (fun p b => p.b0 ≤ (b : Int) ∧ (b : Int) ≤ p.b1)
    (credit window) inside, ps, List.map_map]
  apply congrArg List.sum
  apply List.map_congr_left
  intro run member
  obtain ⟨known, here⟩ := List.mem_filter.mp member
  have late := (of_decide_eq_true here).2
  rw [← @credit_of_between upids window run b inside (dur_pos known) late]
  simp only [Function.comp_apply, decide_eq_true_eq]

/-! ### The time of all buckets -/

theorem timeIn_nonneg (lo hi : Int) (slices : List (SchedSlice × Thread)) :
    0 ≤ timeIn lo hi slices :=
  List.sum_nonneg fun time member => by
    obtain ⟨run, -, rfl⟩ := List.mem_map.mp member
    exact Span.overlap_nonneg lo hi _

theorem timeIn_add {lo mid hi : Int} (below : lo ≤ mid) (above : mid ≤ hi)
    (slices : List (SchedSlice × Thread)) :
    timeIn lo mid slices + timeIn mid hi slices = timeIn lo hi slices := by
  unfold timeIn
  rw [← List.sum_map_add]
  apply congrArg List.sum
  apply List.map_congr_left
  exact fun run _ => Span.overlap_add below above _

theorem timeIn_eq_zero_iff {lo hi : Int}
    {slices : List (SchedSlice × Thread)} :
    timeIn lo hi slices = 0 ↔
      ∀ run ∈ slices, run.1.span.overlap lo hi = 0 := by
  have spans := @Span.sum_overlap_eq_zero_iff (slices.map (·.1.span)) lo hi
  rw [List.map_map, List.forall_mem_map] at spans
  exact spans

theorem timeIn_steps (slices : List (SchedSlice × Thread)) (n : Nat) :
    ((List.range n).map fun b : Nat =>
        timeIn (window.lo + b * window.width)
          (window.lo + (b + 1) * window.width) slices).sum =
      timeIn window.lo (window.lo + n * window.width) slices := by
  induction slices with
  | nil =>
      simp [timeIn]
  | cons run slices induction =>
      unfold timeIn at induction ⊢
      simp only [List.map_cons, List.sum_cons]
      rw [List.sum_map_add, induction,
        Span.sum_overlap_steps _ _ width_pos]

variable (tables window) in
def left : List (SchedSlice × Thread) :=
  tables.runs.filter fun run => !decide
    (run.1.ts < window.hi ∧ run.1.ts + run.1.dur > window.lo)

theorem timeIn_split (lo hi : Int) :
    timeIn lo hi (tables.taken window) + timeIn lo hi (tables.left window) =
      timeIn lo hi tables.runs := by
  unfold taken left
  induction tables.runs with
  | nil => rfl
  | cons run runs induction =>
      unfold timeIn at induction ⊢
      rw [List.filter_cons, List.filter_cons, List.map_cons, List.sum_cons,
        ← induction]
      cases decide (run.1.ts < window.hi ∧
          run.1.ts + run.1.dur > window.lo) with
      | true => simp [add_assoc]
      | false => simp [add_left_comm]

theorem timeIn_left {lo hi : Int} (above : window.lo ≤ lo)
    (below : hi ≤ window.hi) : timeIn lo hi (tables.left window) = 0 := by
  rw [timeIn_eq_zero_iff]
  intro run member
  have out := (List.mem_filter.mp member).2
  simp only [Bool.not_eq_true', decide_eq_false_iff_not] at out
  unfold Span.overlap
  change max 0 (min (run.1.ts + run.1.dur) hi - max run.1.ts lo) = 0
  omega

end SchedTables

end Sismo.Views.Activity
