import Mathlib.Algebra.BigOperators.Group.List.Basic
import Mathlib.Algebra.Ring.Nat
import Mathlib.Data.List.MinMax

namespace Sismo

/-! The rows before and after another one in its partition of a table. -/

variable {α κ : Type*} {partition : α → κ} {order : α → Nat}

def lag [DecidableEq κ] (partition : α → κ) (order : α → Nat)
    (rows : List α) (row : α) : Option α :=
  (rows.filter fun other =>
    partition other = partition row ∧ order other < order row).argmax order

/-- The other row comes before this one, and none comes between them. -/
structure Precedes (partition : α → κ) (order : α → Nat) (rows : List α)
    (other row : α) : Prop where
  member : other ∈ rows
  same : partition other = partition row
  before : order other < order row
  last : ∀ middle ∈ rows, partition middle = partition row →
    order middle < order row → order middle ≤ order other

theorem precedes_of_lag [DecidableEq κ] {rows : List α} {row other : α}
    (found : lag partition order rows row = some other) :
    Precedes partition order rows other row := by
  have inFiltered := List.mem_filter.mp (List.argmax_mem found)
  rw [decide_eq_true_eq] at inFiltered
  refine ⟨inFiltered.1, inFiltered.2.1, inFiltered.2.2, ?_⟩
  intro middle member same before
  apply List.le_of_mem_argmax _ found
  exact List.mem_filter.mpr ⟨member, decide_eq_true ⟨same, before⟩⟩

theorem lag_eq_none_iff [DecidableEq κ] {rows : List α} {row : α} :
    lag partition order rows row = none ↔
      ∀ other ∈ rows, partition other = partition row →
        order row ≤ order other := by
  rw [lag, List.argmax_eq_none, List.filter_eq_nil_iff]
  simp only [decide_eq_true_eq, not_and, not_lt]

/-- With distinct orders in each partition one row at most precedes another. -/
theorem Precedes.unique {rows : List α} {row first second : α}
    (distinct : ∀ first ∈ rows, ∀ second ∈ rows,
      partition first = partition second → order first = order second →
      first = second)
    (left : Precedes partition order rows first row)
    (right : Precedes partition order rows second row) : first = second := by
  have le := left.last second right.member right.same right.before
  have ge := right.last first left.member left.same left.before
  exact distinct first left.member second right.member
    (left.same.trans right.same.symm) (Nat.le_antisymm ge le)

def lead [DecidableEq κ] (partition : α → κ) (order : α → Nat)
    (rows : List α) (row : α) : Option α :=
  (rows.filter fun other =>
    partition other = partition row ∧ order row < order other).argmin order

theorem lead_eq_none_iff [DecidableEq κ] {rows : List α} {row : α} :
    lead partition order rows row = none ↔
      ∀ other ∈ rows, partition other = partition row →
        order other ≤ order row := by
  rw [lead, List.argmin_eq_none, List.filter_eq_nil_iff]
  simp only [decide_eq_true_eq, not_and, not_lt]

/-- The other row is the first one after this. -/
theorem lead_eq_some [DecidableEq κ] {rows : List α} {row other : α}
    (found : lead partition order rows row = some other) :
    other ∈ rows ∧ partition other = partition row ∧
      order row < order other ∧
      ∀ later ∈ rows, partition later = partition row →
        order row < order later → order other ≤ order later := by
  have inFiltered := List.mem_filter.mp (List.argmin_mem found)
  rw [decide_eq_true_eq] at inFiltered
  refine ⟨inFiltered.1, inFiltered.2.1, inFiltered.2.2, ?_⟩
  intro later member same after
  apply List.le_of_mem_argmin _ found
  exact List.mem_filter.mpr ⟨member, decide_eq_true ⟨same, after⟩⟩

def rowNumber [DecidableEq κ] (partition : α → κ) (order : α → Nat)
    (rows : List α) (row : α) : Nat :=
  (rows.countP fun other =>
    partition other = partition row ∧ order other < order row) + 1

theorem rowNumber_lt [DecidableEq κ] {rows : List α} {first second : α}
    (member : first ∈ rows) (same : partition first = partition second)
    (before : order first < order second) :
    rowNumber partition order rows first <
      rowNumber partition order rows second := by
  apply Nat.succ_lt_succ
  rw [List.countP_eq_length_filter, List.countP_eq_length_filter]
  have sub : (rows.filter fun other => partition other = partition first ∧
      order other < order first) =
        (rows.filter fun other => partition other = partition second ∧
          order other < order second).filter fun other =>
            order other < order first := by
    rw [List.filter_filter]
    apply List.filter_congr
    intro other _
    rw [same]
    grind
  rw [sub]
  have smaller := List.length_filter_lt_length_iff_exists (p := fun other : α =>
    decide (order other < order first)) (l := rows.filter fun other =>
      decide (partition other = partition second ∧ order other < order second))
  apply smaller.mpr
  refine ⟨first, List.mem_filter.mpr ⟨member, ?_⟩, ?_⟩
  · exact decide_eq_true ⟨same, before⟩
  · simp

theorem sum_filter_eq_add (amount : α → Nat) {p q r : α → Bool}
    {rows : List α}
    (split : ∀ row ∈ rows, p row = (q row || r row))
    (apart : ∀ row ∈ rows, q row = true → r row = false) :
    ((rows.filter p).map amount).sum =
      ((rows.filter q).map amount).sum + ((rows.filter r).map amount).sum := by
  induction rows with
  | nil => rfl
  | cons row rest induction =>
      rw [List.forall_mem_cons] at split apart
      have rest := induction split.2 apart.2
      rw [List.filter_cons, List.filter_cons, List.filter_cons, split.1]
      cases head : q row with
      | true =>
          rw [apart.1 head, Bool.or_false, if_pos rfl, if_pos rfl,
            if_neg Bool.false_ne_true, List.map_cons, List.map_cons,
            List.sum_cons, List.sum_cons, rest, Nat.add_assoc]
      | false =>
          rw [Bool.false_or, if_neg Bool.false_ne_true]
          cases r row with
          | true =>
              rw [if_pos rfl, if_pos rfl, List.map_cons, List.map_cons,
                List.sum_cons, List.sum_cons, rest, Nat.add_left_comm]
          | false =>
              rw [if_neg Bool.false_ne_true, if_neg Bool.false_ne_true, rest]

theorem countP_eq_add {p q r : α → Bool} {rows : List α}
    (split : ∀ row ∈ rows, p row = (q row || r row))
    (apart : ∀ row ∈ rows, q row = true → r row = false) :
    rows.countP p = rows.countP q + rows.countP r := by
  have counts : ∀ p : α → Bool,
      rows.countP p = ((rows.filter p).map fun _ => 1).sum := by
    intro p
    rw [List.countP_eq_length_filter, List.map_const',
      List.sum_replicate_nat, Nat.mul_one]
  rw [counts p, counts q, counts r]
  exact sum_filter_eq_add _ split apart

theorem countP_place [DecidableEq κ] {rows : List α} {row : α}
    (distinct : rows.Pairwise fun first second =>
      partition first = partition second → order first ≠ order second)
    (member : row ∈ rows) :
    (rows.countP fun other =>
      partition other = partition row ∧ order other = order row) = 1 := by
  obtain ⟨before, after, rfl⟩ := List.append_of_mem member
  rw [List.pairwise_append, List.pairwise_cons] at distinct
  obtain ⟨_, ⟨later, _⟩, earlier⟩ := distinct
  rw [List.countP_append, List.countP_cons_of_pos (by simp)]
  have none : before.countP (fun other =>
      partition other = partition row ∧ order other = order row) = 0 := by
    rw [List.countP_eq_zero]
    intro other otherMem same
    obtain ⟨part, place⟩ := of_decide_eq_true same
    exact earlier other otherMem row List.mem_cons_self part place
  have noneLater : after.countP (fun other =>
      partition other = partition row ∧ order other = order row) = 0 := by
    rw [List.countP_eq_zero]
    intro other otherMem same
    obtain ⟨part, place⟩ := of_decide_eq_true same
    exact later other otherMem part.symm place.symm
  omega

theorem rowNumber_lead [DecidableEq κ] {rows : List α} {row other : α}
    (distinct : rows.Pairwise fun first second =>
      partition first = partition second → order first ≠ order second)
    (member : row ∈ rows)
    (found : lead partition order rows row = some other) :
    rowNumber partition order rows other =
      rowNumber partition order rows row + 1 := by
  obtain ⟨_, same, after, least⟩ := lead_eq_some found
  unfold rowNumber
  congr 1
  rw [← countP_place distinct member]
  apply countP_eq_add
  · intro between betweenMem
    have := least between betweenMem
    rw [same]
    grind
  · intro between _ before
    grind

end Sismo
