import Mathlib.Data.List.Pairwise
import Sismo.Lib.Sweep
import Sismo.Views.Activity

namespace Sismo.Views.Parallel

/-! How much of the running time has one, two to four, or more threads at
once. -/

structure Running where
  span : Span
  positive : span.start < span.stop

structure Bands where
  c1 : Int
  c24 : Int
  c5 : Int
  deriving DecidableEq, Repr

/-- `ev` -/
def events (running : List Running) : List Event :=
  running.map (fun r => ⟨r.span.start, 1⟩) ++
    running.map fun r => ⟨r.span.stop, -1⟩

/-- `ORDER BY t, d DESC` -/
def Before (first second : Event) : Prop :=
  first.t < second.t ∨ first.t = second.t ∧ second.d ≤ first.d

instance : DecidableRel Before :=
  fun _ _ => inferInstanceAs (Decidable (_ ∨ _))

instance : Std.Total Before := ⟨fun _ _ => by unfold Before; omega⟩

instance : IsTrans Event Before :=
  ⟨fun _ _ _ first second => by unfold Before at *; omega⟩

/-- An order of the events; those of one time and step may be in any. -/
structure SweepOrder (events : List Event) where
  order : List Event
  perm : order.Perm events
  sorted : order.Pairwise Before

def SweepOrder.stable (events : List Event) : SweepOrder events where
  order := events.insertionSort Before
  perm := List.perm_insertionSort _ _
  sorted := List.pairwise_insertionSort _ _

def bands {events : List Event} (sweep : SweepOrder events) : Bands :=
  let run := Sweep.rows 0 sweep.order
  { c1 := Sweep.timeIn (· = 1) run
    c24 := Sweep.timeIn (fun cc => 2 ≤ cc ∧ cc ≤ 4) run
    c5 := Sweep.timeIn (5 ≤ ·) run }

/-! ### The instants themselves -/

def depth (running : List Running) (t : Int) : Nat :=
  running.countP fun r => r.span.start ≤ t ∧ t < r.span.stop

def busyInstants (running : List Running) : Finset Int :=
  running.foldr (fun r instants => r.span.instants ∪ instants) ∅

def measure (running : List Running) (band : Nat → Bool) : Nat :=
  ((busyInstants running).filter fun t => band (depth running t) = true).card

section

variable {running : List Running}

theorem mem_busyInstants {t : Int} :
    t ∈ busyInstants running ↔ 0 < depth running t := by
  induction running with
  | nil => simp [busyInstants, depth]
  | cons r running induction =>
      unfold busyInstants depth at induction ⊢
      rw [List.foldr_cons, Finset.mem_union, induction, Span.mem_instants,
        List.countP_cons]
      split
      · next here =>
          have := of_decide_eq_true here
          omega
      · next apart =>
          have : ¬(r.span.start ≤ t ∧ t < r.span.stop) := fun here =>
            apart (decide_eq_true here)
          omega

theorem level_events (t : Int) :
    Sweep.level (events running) t = depth running t := by
  unfold Sweep.level events depth
  rw [List.filter_append, List.map_append, List.sum_append]
  induction running with
  | nil => rfl
  | cons r running induction =>
      have positive := r.positive
      rw [List.map_cons, List.map_cons, List.filter_cons, List.filter_cons,
        List.countP_cons]
      by_cases begun : r.span.start ≤ t
      · by_cases ended : r.span.stop ≤ t
        · have out : ¬(r.span.start ≤ t ∧ t < r.span.stop) := by omega
          rw [if_pos (decide_eq_true begun), if_pos (decide_eq_true ended),
            if_neg (by simpa using out), List.map_cons, List.map_cons,
            List.sum_cons, List.sum_cons]
          push_cast
          omega
        · have here : r.span.start ≤ t ∧ t < r.span.stop := by omega
          rw [if_pos (decide_eq_true begun), if_neg (by simpa using ended),
            if_pos (by simpa using here), List.map_cons, List.sum_cons]
          push_cast
          omega
      · have later : ¬r.span.stop ≤ t := by omega
        have out : ¬(r.span.start ≤ t ∧ t < r.span.stop) := by omega
        rw [if_neg (by simpa using begun), if_neg (by simpa using later),
          if_neg (by simpa using out)]
        push_cast
        omega

theorem level_perm {order events : List Event} (perm : order.Perm events)
    (t : Int) : Sweep.level order t = Sweep.level events t := by
  unfold Sweep.level
  exact ((perm.filter _).map _).sum_eq

/-- What runs at an instant has begun at an event before it and ends at one
after it. -/
theorem within_order {e : Event} {rest : List Event}
    (perm : (e :: rest).Perm (events running))
    (sorted : (e :: rest).Pairwise fun first second => first.t ≤ second.t)
    {t : Int} (busy : t ∈ busyInstants running) :
    e.t ≤ t ∧ t < ((e :: rest).getLast (List.cons_ne_nil e rest)).t := by
  obtain ⟨r, member, here⟩ :=
    List.countP_pos_iff.mp (mem_busyInstants.mp busy)
  obtain ⟨begun, ended⟩ := of_decide_eq_true here
  have start : (⟨r.span.start, 1⟩ : Event) ∈ e :: rest :=
    perm.mem_iff.mpr (List.mem_append_left _
      (List.mem_map_of_mem (f := fun r => (⟨r.span.start, 1⟩ : Event)) member))
  have stop : (⟨r.span.stop, -1⟩ : Event) ∈ e :: rest :=
    perm.mem_iff.mpr (List.mem_append_right _
      (List.mem_map_of_mem (f := fun r => (⟨r.span.stop, -1⟩ : Event)) member))
  constructor
  · rcases List.mem_cons.mp start with same | later
    · rw [← same]
      exact begun
    · exact ((List.pairwise_cons.mp sorted).1 _ later).trans begun
  · exact ended.trans_le
      (sorted.rel_getLast_of_rel_getLast_getLast stop le_rfl)

theorem timeIn_eq_measure (sweep : SweepOrder (events running))
    {band : Int → Bool} {inBand : Nat → Bool} (empty : inBand 0 = false)
    (same : ∀ n : Nat, band n = inBand n) :
    Sweep.timeIn band (Sweep.rows 0 sweep.order) =
      measure running inBand := by
  obtain ⟨order, perm, sorted⟩ := sweep
  have byTime : order.Pairwise fun first second => first.t ≤ second.t :=
    sorted.imp fun before => by
      unfold Before at before
      omega
  cases order with
  | nil =>
      have none_ : running = [] := by
        have size := perm.length_eq
        simp only [events, List.length_nil, List.length_append,
          List.length_map] at size
        exact List.length_eq_zero_iff.mp (by omega)
      subst none_
      rfl
  | cons e rest =>
      rw [Sweep.timeIn_rows byTime]
      unfold Sweep.instantsWhere measure
      congr 2
      ext t
      simp only [zero_add, level_perm perm, level_events, same,
        Finset.mem_filter, mem_between]
      constructor
      · rintro ⟨-, holds⟩
        refine ⟨mem_busyInstants.mpr (Nat.pos_of_ne_zero fun zero => ?_),
          holds⟩
        rw [zero, empty] at holds
        cases holds
      · rintro ⟨busy, holds⟩
        exact ⟨within_order perm byTime busy, holds⟩

theorem measure_add (first second : Nat → Bool)
    (apart : ∀ n, ¬(first n = true ∧ second n = true)) :
    measure running first + measure running second =
      measure running fun n => first n || second n := by
  unfold measure
  rw [← Finset.card_union_of_disjoint]
  · congr 1
    ext t
    simp only [Finset.mem_union, Finset.mem_filter, Bool.or_eq_true]
    exact and_or_left.symm
  · rw [Finset.disjoint_filter]
    exact fun t _ here there => apart _ ⟨here, there⟩

theorem measure_all {band : Nat → Bool} (all : ∀ n, 0 < n → band n = true) :
    measure running band = (busyInstants running).card := by
  unfold measure
  congr 1
  apply Finset.filter_true_of_mem
  exact fun t busy => all _ (mem_busyInstants.mp busy)

end

/-- The bands are the measures of the instants with one, two to four, and five
or more threads; together they are all instants at which one runs. No order of
equal events makes a difference. -/
theorem bands_exact (running : List Running)
    (sweep : SweepOrder (events running)) :
    (bands sweep).c1 = measure running (· = 1) ∧
    (bands sweep).c24 = measure running (fun n => 2 ≤ n ∧ n ≤ 4) ∧
    (bands sweep).c5 = measure running (5 ≤ ·) ∧
    (bands sweep).c1 + (bands sweep).c24 + (bands sweep).c5 =
      (busyInstants running).card ∧
    ∀ other : SweepOrder (events running), bands other = bands sweep := by
  have one : ∀ sweep : SweepOrder (events running),
      (bands sweep).c1 = measure running (· = 1) :=
    fun sweep => @timeIn_eq_measure running sweep (· = 1) (· = 1) rfl
      fun n => decide_eq_decide.mpr (by omega)
  have few : ∀ sweep : SweepOrder (events running),
      (bands sweep).c24 = measure running fun n => 2 ≤ n ∧ n ≤ 4 :=
    fun sweep => @timeIn_eq_measure running sweep
      (fun cc => 2 ≤ cc ∧ cc ≤ 4) (fun n => 2 ≤ n ∧ n ≤ 4) rfl
      fun n => decide_eq_decide.mpr (by omega)
  have many : ∀ sweep : SweepOrder (events running),
      (bands sweep).c5 = measure running (5 ≤ ·) :=
    fun sweep => @timeIn_eq_measure running sweep (5 ≤ ·) (5 ≤ ·) rfl
      fun n => decide_eq_decide.mpr (by omega)
  refine ⟨one sweep, few sweep, many sweep, ?_, fun other => ?_⟩
  · rw [one, few, many, ← Nat.cast_add, ← Nat.cast_add, measure_add,
      measure_add, measure_all]
    · intro n positive
      simp only [Bool.or_eq_true, decide_eq_true_eq]
      omega
    · intro n
      simp only [Bool.or_eq_true, decide_eq_true_eq]
      omega
    · intro n
      simp only [decide_eq_true_eq]
      omega
  · have same : ∀ first second : Bands, first.c1 = second.c1 →
        first.c24 = second.c24 → first.c5 = second.c5 → first = second := by
      rintro ⟨_, _, _⟩ ⟨_, _, _⟩ rfl rfl rfl
      rfl
    exact same _ _ ((one other).trans (one sweep).symm)
      ((few other).trans (few sweep).symm)
      ((many other).trans (many sweep).symm)

end Sismo.Views.Parallel
