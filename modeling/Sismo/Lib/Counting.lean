import Mathlib.Algebra.BigOperators.Group.List.Basic
import Mathlib.Algebra.Order.Ring.Nat
import Mathlib.Data.List.Dedup
import Mathlib.Data.List.Sort

namespace Sismo

/-! Counts of rows in groups, and counts of pairs taken either way. -/

variable {α β κ : Type}

def countBy [DecidableEq κ] (keys : List κ) : List (κ × Nat) :=
  keys.dedup.map fun key => (key, keys.count key)

theorem mem_countBy [DecidableEq κ] {keys : List κ} {key : κ} {n : Nat} :
    (key, n) ∈ countBy keys ↔ key ∈ keys ∧ n = keys.count key := by
  unfold countBy
  rw [List.mem_map]
  constructor
  · rintro ⟨other, member, equal⟩
    cases equal
    exact ⟨List.mem_dedup.mp member, rfl⟩
  · rintro ⟨member, rfl⟩
    exact ⟨key, List.mem_dedup.mpr member, rfl⟩

/-- An order of groups by their counts, largest first; groups of one count may
be in any order. -/
structure CountOrder (κ : Type) where
  sort : List (κ × Nat) → List (κ × Nat)
  perm : ∀ groups, (sort groups).Perm groups
  descending : ∀ groups,
    (sort groups).Pairwise fun first second => second.2 ≤ first.2

def CountOrder.stable : CountOrder κ where
  sort groups := groups.insertionSort fun first second => second.2 ≤ first.2
  perm groups := List.perm_insertionSort _ groups
  descending groups := by
    have total : Std.Total fun first second : κ × Nat => second.2 ≤ first.2 :=
      ⟨fun first second => Nat.le_total second.2 first.2⟩
    have trans : IsTrans (κ × Nat) fun first second =>
        second.2 ≤ first.2 := ⟨fun _ _ _ first second => second.trans first⟩
    exact List.pairwise_insertionSort _ groups

theorem count_flatMap_map [DecidableEq κ] (rows : List α) (key : α → κ)
    (join : α → List β) (wanted : κ) :
    (rows.flatMap fun a => (join a).map fun _ => key a).count wanted =
      ((rows.filter fun a => key a = wanted).map fun a =>
        (join a).length).sum := by
  induction rows with
  | nil => rfl
  | cons a rows induction =>
      rw [List.flatMap_cons, List.count_append, induction, List.filter_cons,
        List.map_const']
      by_cases here : key a = wanted
      · rw [if_pos (decide_eq_true here), List.map_cons, List.sum_cons, here,
          List.count_replicate_self]
      · rw [if_neg (by simpa using here), List.count_replicate,
          if_neg (by simpa using here), Nat.zero_add]

theorem countP_eq_sum (rows : List α) (holds : α → Bool) :
    rows.countP holds = (rows.map fun a => if holds a then 1 else 0).sum := by
  induction rows with
  | nil => rfl
  | cons a rows induction =>
      rw [List.countP_cons, List.map_cons, List.sum_cons, induction,
        Nat.add_comm]

/-- Pairs are counted from either side. -/
theorem sum_countP_comm (first : List α) (second : List β)
    (related : α → β → Bool) :
    (first.map fun a => second.countP (related a)).sum =
      (second.map fun b => first.countP fun a => related a b).sum := by
  induction first with
  | nil =>
      rw [List.map_nil, List.sum_nil]
      exact (List.sum_eq_zero fun n member => by
        obtain ⟨_, _, rfl⟩ := List.mem_map.mp member
        rfl).symm
  | cons a first induction =>
      have step : ∀ b, (a :: first).countP (fun a => related a b) =
          (if related a b then 1 else 0) +
            first.countP fun a => related a b := by
        intro b
        rw [List.countP_cons, Nat.add_comm]
      rw [List.map_cons, List.sum_cons, induction]
      simp only [step]
      rw [List.sum_map_add, ← countP_eq_sum]

/-- A count over rows of which only some are counted. -/
theorem countP_and_mem [DecidableEq α] {all part : List α}
    (allNodup : all.Nodup) (partNodup : part.Nodup)
    (inside : ∀ a ∈ part, a ∈ all) (holds : α → Bool) :
    all.countP (fun a => holds a && decide (a ∈ part)) =
      part.countP holds := by
  have same : (all.filter fun a => decide (a ∈ part)).Perm part := by
    apply (List.perm_ext_iff_of_nodup (allNodup.filter _) partNodup).mpr
    intro a
    simp only [List.mem_filter, decide_eq_true_eq, and_iff_right_iff_imp]
    exact inside a
  rw [← same.countP_eq, List.countP_filter]

/-- Every row counts once at most exactly when the sum counts the rows. -/
theorem sum_eq_countP_iff (rows : List α) (times : α → Nat) :
    (rows.map times).sum = rows.countP (0 < times ·) ↔
      ∀ a ∈ rows, times a ≤ 1 := by
  induction rows with
  | nil => simp
  | cons a rows induction =>
      have le : rows.countP (0 < times ·) ≤ (rows.map times).sum := by
        clear induction
        induction rows with
        | nil => exact Nat.le_refl 0
        | cons b rows induction =>
            rw [List.countP_cons, List.map_cons, List.sum_cons]
            split
            · next positive =>
                have := of_decide_eq_true positive
                omega
            · omega
      rw [List.map_cons, List.sum_cons, List.countP_cons,
        List.forall_mem_cons, ← induction]
      split
      · next positive =>
          have := of_decide_eq_true positive
          omega
      · next zero =>
          have : ¬0 < times a := fun positive => zero (decide_eq_true positive)
          omega

theorem count_flatMap_modify [DecidableEq β] {list : List α} {i : Nat} {a : α}
    {f : α → α} (g : α → List β) (wanted : β) (found : list[i]? = some a) :
    ((list.modify i f).flatMap g).count wanted + (g a).count wanted =
      (list.flatMap g).count wanted + (g (f a)).count wanted := by
  induction list generalizing i with
  | nil => simp at found
  | cons first rest induction =>
      cases i with
      | zero =>
          cases found
          rw [List.modify_zero_cons, List.flatMap_cons, List.flatMap_cons,
            List.count_append, List.count_append]
          omega
      | succ i =>
          have later := induction found
          rw [List.modify_succ_cons, List.flatMap_cons, List.flatMap_cons,
            List.count_append, List.count_append]
          omega

theorem flatMap_modify_same {list : List α} {i : Nat} {f : α → α}
    {g : α → List β} (same : ∀ a, g (f a) = g a) :
    (list.modify i f).flatMap g = list.flatMap g := by
  induction list generalizing i with
  | nil => cases i <;> rfl
  | cons first rest induction =>
      cases i with
      | zero => rw [List.modify_zero_cons, List.flatMap_cons, same,
          List.flatMap_cons]
      | succ i => rw [List.modify_succ_cons, List.flatMap_cons, induction,
          List.flatMap_cons]

end Sismo
