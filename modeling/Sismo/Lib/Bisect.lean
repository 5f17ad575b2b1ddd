import Mathlib.Algebra.Order.Ring.Nat
import Mathlib.Data.List.TakeWhile
import Mathlib.Data.List.Pairwise

namespace Sismo

/-! Partition points of lists whose elements satisfy a predicate first and
fail it afterwards. -/

variable {α : Type*}

/-- Number of leading elements that satisfy the predicate. -/
def partitionPoint (p : α → Bool) (list : List α) : Nat :=
  (list.takeWhile p).length

theorem partitionPoint_eq_zero {p : α → Bool} {list : List α}
    (zero : partitionPoint p list = 0) :
    list = [] ∨ ∃ head tail, list = head :: tail ∧ p head = false := by
  cases list with
  | nil => exact .inl rfl
  | cons head tail =>
      right
      refine ⟨head, tail, rfl, ?_⟩
      cases holds : p head with
      | false => rfl
      | true => simp [partitionPoint, holds] at zero

/-- The element just before a positive partition point, with what stands on
either side of it. -/
theorem partitionPoint_succ {p : α → Bool} {list : List α} {n : Nat}
    (point : partitionPoint p list = n + 1) :
    ∃ before element after, list = before ++ element :: after ∧
      before.length = n ∧ p element = true ∧
      (after = [] ∨ ∃ head tail, after = head :: tail ∧ p head = false) := by
  have nonempty : list.takeWhile p ≠ [] := by
    intro empty
    simp [partitionPoint, empty] at point
  have decomposed : list.takeWhile p =
      (list.takeWhile p).dropLast ++ [(list.takeWhile p).getLast nonempty] :=
    (List.dropLast_concat_getLast nonempty).symm
  refine ⟨(list.takeWhile p).dropLast, (list.takeWhile p).getLast nonempty,
    list.dropWhile p, ?_, ?_, ?_, ?_⟩
  · calc
      list = list.takeWhile p ++ list.dropWhile p :=
        (List.takeWhile_append_dropWhile).symm
      _ = ((list.takeWhile p).dropLast ++
            [(list.takeWhile p).getLast nonempty]) ++ list.dropWhile p := by
        rw [← decomposed]
      _ = _ := by simp
  · have length := point
    simp only [partitionPoint] at length
    simp [length]
  · exact List.mem_takeWhile_imp (List.getLast_mem nonempty)
  · cases rest : list.dropWhile p with
    | nil => exact .inl rfl
    | cons head tail =>
        refine .inr ⟨head, tail, rfl, ?_⟩
        have stopped := List.head_dropWhile_not p (l := list) (by simp [rest])
        simpa [rest] using stopped

theorem partitionPoint_le_length (p : α → Bool) (list : List α) :
    partitionPoint p list ≤ list.length :=
  (List.takeWhile_sublist p).length_le

theorem lt_partitionPoint_iff {p : α → Bool} {list : List α}
    (sorted : list.Pairwise fun first second => p second = true → p first = true)
    {i : Nat} {element : α} (found : list[i]? = some element) :
    i < partitionPoint p list ↔ p element = true := by
  induction list generalizing i with
  | nil => simp at found
  | cons head tail induction =>
      obtain ⟨headSorted, tailSorted⟩ := List.pairwise_cons.mp sorted
      cases holds : p head with
      | false =>
          have failed : p element = false := by
            cases i with
            | zero =>
                cases found
                exact holds
            | succ i =>
                have inTail : element ∈ tail := List.mem_of_getElem? found
                by_contra isTrue
                have := headSorted element inTail (by simpa using isTrue)
                simp [holds] at this
          simp [partitionPoint, holds, failed]
      | true =>
          have point : partitionPoint p (head :: tail) =
              partitionPoint p tail + 1 := by simp [partitionPoint, holds]
          rw [point]
          cases i with
          | zero =>
              cases found
              simp [holds]
          | succ i =>
              rw [Nat.add_lt_add_iff_right]
              exact induction tailSorted found

/-! A bisection of an index range with a fixed number of iterations. -/

/-- The last index of the range whose element satisfies the predicate, or
`found` when none does; `none` when the iterations run out or an element is
missing. -/
def bisectLast (p : Nat → Option Bool) :
    (iterations : Nat) → (found : Option Nat) → (left right : Nat) → Option Nat
  | 0, _, _, _ => none
  | iterations + 1, found, left, right =>
      if right ≤ left then found
      else
        let mid := (left + right) / 2
        match p mid with
        | none => none
        | some true => bisectLast p iterations (some mid) (mid + 1) right
        | some false => bisectLast p iterations found left mid

/-- Whether the iterations run out on `n` elements of which the first `m`
satisfy the predicate. -/
def bisectExhausts : (iterations n m : Nat) → Bool
  | 0, _, _ => true
  | iterations + 1, n, m =>
      if n = 0 then false
      else if n / 2 < m then
        bisectExhausts iterations (n - n / 2 - 1) (m - n / 2 - 1)
      else bisectExhausts iterations (n / 2) m

theorem bisectLast_eq {p : Nat → Option Bool} (iterations : Nat)
    {found : Option Nat} {left right m : Nat} (le : left ≤ right)
    (within : m ≤ right - left)
    (sorted : ∀ i, left ≤ i → i < right →
      p i = some (decide (i < left + m))) :
    bisectLast p iterations found left right =
      if bisectExhausts iterations (right - left) m then none
      else if m = 0 then found
      else some (left + m - 1) := by
  induction iterations generalizing found left right m with
  | zero => rfl
  | succ iterations induction =>
      rw [bisectLast, bisectExhausts]
      by_cases empty : right ≤ left
      · have noElements : right - left = 0 := by omega
        have noMatches : m = 0 := by omega
        simp [empty, noElements, noMatches]
      · have someElements : right - left ≠ 0 := by omega
        have middle : (left + right) / 2 = left + (right - left) / 2 := by omega
        have atMiddle : p (left + (right - left) / 2) =
            some (decide ((right - left) / 2 < m)) := by
          rw [sorted _ (by omega) (by omega)]
          simp only [Nat.add_lt_add_iff_left]
        simp only [if_neg empty, if_neg someElements, middle, atMiddle]
        by_cases below : (right - left) / 2 < m
        · simp only [below, decide_true, ↓reduceIte]
          rw [@induction _ (left + (right - left) / 2 + 1) right
            (m - (right - left) / 2 - 1) (by omega) (by omega)]
          · have rest : right - (left + (right - left) / 2 + 1) =
                right - left - (right - left) / 2 - 1 := by omega
            rw [rest]
            split
            · rfl
            · rw [if_neg (show m ≠ 0 by omega)]
              split
              · congr 1
                omega
              · congr 1
                omega
          · intro i low high
            rw [sorted i (by omega) high]
            congr 2
            exact propext (by omega)
        · simp only [below, decide_false, ↓reduceIte]
          rw [@induction _ left (left + (right - left) / 2) m (by omega)
            (by omega)]
          · rw [Nat.add_sub_cancel_left]
          · intro i low high
            exact sorted i low (by omega)

/-- Seventeen iterations are enough for fewer than `2 ^ 16` elements. -/
theorem bisectExhausts_of_lt {iterations n m : Nat} (within : m ≤ n)
    (small : n < 2 ^ iterations) :
    bisectExhausts (iterations + 1) n m = false := by
  induction iterations generalizing n m with
  | zero =>
      have none : n = 0 := by omega
      simp [bisectExhausts, none]
  | succ iterations induction =>
      rw [bisectExhausts]
      split
      · rfl
      · rw [Nat.pow_succ] at small
        split
        · exact induction (by omega) (by omega)
        · exact induction (by omega) (by omega)

/-- On `2 ^ iterations` elements one more iteration falls short exactly where
at most one satisfies the predicate: every halving then keeps the first part. -/
theorem bisectExhausts_two_pow {iterations m : Nat}
    (within : m ≤ 2 ^ iterations) :
    bisectExhausts (iterations + 1) (2 ^ iterations) m = decide (m ≤ 1) := by
  induction iterations with
  | zero =>
      rcases Nat.le_one_iff_eq_zero_or_eq_one.mp within with rfl | rfl
      · rfl
      · rfl
  | succ iterations induction =>
      have pos := Nat.two_pow_pos iterations
      have half : 2 ^ (iterations + 1) / 2 = 2 ^ iterations := by
        rw [Nat.pow_succ, Nat.mul_div_cancel _ Nat.two_pos]
      rw [Nat.pow_succ] at within
      rw [bisectExhausts, if_neg (Nat.two_pow_pos _).ne', half]
      split
      · next above =>
          have rest : 2 ^ (iterations + 1) - 2 ^ iterations - 1 =
              2 ^ iterations - 1 := by
            rw [Nat.pow_succ]
            omega
          rw [rest, bisectExhausts_of_lt (by omega) (by omega),
            decide_eq_false (by omega)]
      · exact induction (by omega)

/-- A predicate closed downwards in a range holds of its first elements. -/
theorem exists_partition {p : Nat → Prop} {left n : Nat}
    (closed : ∀ i j, left ≤ i → i ≤ j → j < left + n → p j → p i) :
    ∃ m ≤ n, ∀ i, left ≤ i → i < left + n → (p i ↔ i < left + m) := by
  induction n with
  | zero =>
      refine ⟨0, Nat.le_refl 0, fun i low below => ?_⟩
      omega
  | succ n induction =>
      obtain ⟨m, within, split⟩ := induction fun i j low le below =>
        closed i j low le (by omega)
      by_cases last : p (left + n)
      · refine ⟨n + 1, Nat.le_refl _, fun i low below => ?_⟩
        exact iff_of_true (closed i _ low (by omega) (by omega) last) below
      · refine ⟨m, by omega, fun i low below => ?_⟩
        rcases Nat.lt_or_eq_of_le (show i ≤ left + n by omega) with less | rfl
        · exact split i low less
        · exact iff_of_false last (by omega)

end Sismo
