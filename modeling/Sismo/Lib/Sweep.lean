import Mathlib.Algebra.BigOperators.Group.List.Basic
import Sismo.Lib.Intervals

namespace Sismo

/-! A sweep of events in the order of their times: the level is the sum of the
steps up to an instant, and each gap between events has one level. -/

/-- The level takes a step at a time. -/
structure Event where
  t : Int
  d : Int
  deriving DecidableEq, Repr

namespace Sweep

/-- An event with the sum up to it, and the time of the next event. -/
structure Row where
  t : Int
  cc : Int
  nt : Option Int
  deriving DecidableEq, Repr

/-- The rows of events in their order, from the sum before them. -/
def rows (before : Int) : List Event → List Row
  | [] => []
  | e :: rest =>
      ⟨e.t, before + e.d, rest.head?.map (·.t)⟩ :: rows (before + e.d) rest

def level (events : List Event) (t : Int) : Int :=
  ((events.filter (·.t ≤ t)).map (·.d)).sum

def timeIn (band : Int → Bool) (rows : List Row) : Int :=
  ((rows.filter fun row => row.nt.any (row.t < ·)).map fun row =>
    if band row.cc then row.nt.getD row.t - row.t else 0).sum

def instantsWhere (lo hi : Int) (holds : Int → Bool) : Nat :=
  ((between lo hi).filter fun t => holds t = true).card

theorem instantsWhere_add {lo mid hi : Int} (below : lo ≤ mid)
    (above : mid ≤ hi) (holds : Int → Bool) :
    instantsWhere lo mid holds + instantsWhere mid hi holds =
      instantsWhere lo hi holds := by
  unfold instantsWhere
  rw [← between_union_between below above, Finset.filter_union,
    Finset.card_union_of_disjoint]
  apply Finset.disjoint_filter_filter
  rw [Finset.disjoint_left]
  intro t before after
  rw [mem_between] at before after
  omega

theorem instantsWhere_congr {lo hi : Int} {holds holds' : Int → Bool}
    (same : ∀ t, lo ≤ t → t < hi → holds t = holds' t) :
    instantsWhere lo hi holds = instantsWhere lo hi holds' := by
  unfold instantsWhere
  congr 1
  apply Finset.filter_congr
  intro t inside
  rw [mem_between] at inside
  rw [same t inside.1 inside.2]

theorem instantsWhere_const {lo hi : Int} (forward : lo ≤ hi) (b : Bool) :
    (instantsWhere lo hi fun _ => b : Int) = if b then hi - lo else 0 := by
  unfold instantsWhere
  cases b with
  | false => simp
  | true =>
      rw [Finset.filter_true_of_mem fun _ _ => rfl, card_between]
      change ((hi - lo).toNat : Int) = hi - lo
      omega

theorem level_cons_of_le {e : Event} {t : Int} (early : e.t ≤ t)
    (rest : List Event) : level (e :: rest) t = e.d + level rest t := by
  unfold level
  rw [List.filter_cons, if_pos (decide_eq_true early), List.map_cons,
    List.sum_cons]

theorem level_eq_zero {events : List Event} {t : Int}
    (late : ∀ e ∈ events, t < e.t) : level events t = 0 := by
  unfold level
  rw [List.filter_eq_nil_iff.mpr fun e member => by
    simpa using late e member]
  rfl

/-- The gaps up to the last event, whose steps are taken one after another. -/
theorem timeIn_rows {e : Event} {rest : List Event}
    (sorted : (e :: rest).Pairwise fun first second => first.t ≤ second.t)
    (band : Int → Bool) (before : Int) :
    timeIn band (rows before (e :: rest)) =
      instantsWhere e.t ((e :: rest).getLast (List.cons_ne_nil e rest)).t
        fun t => band (before + level (e :: rest) t) := by
  induction rest generalizing e before with
  | nil => simp [timeIn, rows, instantsWhere]
  | cons f rest induction =>
      obtain ⟨first, later⟩ := List.pairwise_cons.mp sorted
      have step : e.t ≤ f.t := first f List.mem_cons_self
      have last : f.t ≤
          ((f :: rest).getLast (List.cons_ne_nil f rest)).t := by
        rcases List.mem_cons.mp
          (List.getLast_mem (List.cons_ne_nil f rest)) with same | member
        · rw [same]
        · exact (List.pairwise_cons.mp later).1 _ member
      have gap : timeIn band (rows before (e :: f :: rest)) =
          (if band (before + e.d) then f.t - e.t else 0) +
            timeIn band (rows (before + e.d) (f :: rest)) := by
        rw [rows, timeIn, List.filter_cons]
        by_cases apart : e.t < f.t
        · rw [if_pos (by simpa using apart), List.map_cons, List.sum_cons]
          rfl
        · have none_ : f.t - e.t = 0 := by omega
          rw [if_neg (by simpa using apart), none_, ite_self, zero_add]
          rfl
      have here : (instantsWhere e.t f.t fun t =>
          band (before + level (e :: f :: rest) t) : Int) =
          if band (before + e.d) then f.t - e.t else 0 := by
        rw [← instantsWhere_const step]
        congr 1
        apply instantsWhere_congr
        intro t above below
        rw [level_cons_of_le above, level_eq_zero, add_zero]
        intro g member
        rcases List.mem_cons.mp member with rfl | member
        · exact below
        · have := (List.pairwise_cons.mp later).1 g member
          omega
      have beyond : (instantsWhere f.t
          ((f :: rest).getLast (List.cons_ne_nil f rest)).t fun t =>
            band (before + level (e :: f :: rest) t)) =
          instantsWhere f.t
            ((f :: rest).getLast (List.cons_ne_nil f rest)).t fun t =>
              band (before + e.d + level (f :: rest) t) := by
        apply instantsWhere_congr
        intro t above _
        rw [level_cons_of_le (step.trans above), add_assoc]
      rw [gap, induction later, List.getLast_cons_cons,
        ← instantsWhere_add step last, Nat.cast_add, here, beyond]

end Sweep

end Sismo
