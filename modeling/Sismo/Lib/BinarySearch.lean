import Sismo.Lib.Bisect

namespace Sismo

theorem mergeSort_sorted {α : Type*} (key : α → Nat) (list : List α) :
    (list.mergeSort fun first second => key first ≤ key second).Pairwise
      fun first second => key first ≤ key second := by
  have sorted := @List.pairwise_mergeSort α
    (fun first second => decide (key first ≤ key second))
    (fun a b c => by
      simp only [decide_eq_true_eq]
      exact Nat.le_trans)
    (fun a b => by
      simp only [Bool.or_eq_true, decide_eq_true_eq]
      exact Nat.le_total _ _) list
  exact sorted.imp fun le => of_decide_eq_true le

/-! What a binary search of sorted keys may answer. Among equal keys it may
answer any of them. -/

inductive SearchAnswer where
  | ok (index : Nat)
  | err (index : Nat)

namespace SearchAnswer

/-- An answer is the index of the target, or the place where it would go. -/
def Of (keys : List Nat) (target : Nat) : SearchAnswer → Prop
  | ok index => keys[index]? = some target
  | err index => index ≤ keys.length ∧
      (∀ j key, j < index → keys[j]? = some key → key < target) ∧
      ∀ j key, index ≤ j → keys[j]? = some key → target < key

/-- The index of a greatest key at or below the target. -/
def atOrBelow : SearchAnswer → Option Nat
  | ok index => some index
  | err 0 => none
  | err (index + 1) => some index

/-- An index the search can arrive at: that of the target, or of the last key
below it when the target is not there. -/
def Lands (keys : List Nat) (target index : Nat) : Prop :=
  ∃ key, keys[index]? = some key ∧ (key = target ∨ key < target ∧
    ∀ next, keys[index + 1]? = some next → target < next)

variable {keys : List Nat} {target : Nat} {answer : SearchAnswer}

theorem Of.lands (of : answer.Of keys target) {index : Nat}
    (found : answer.atOrBelow = some index) : Lands keys target index := by
  cases answer with
  | ok i =>
      cases found
      exact ⟨target, of, .inl rfl⟩
  | err i =>
      cases i with
      | zero => cases found
      | succ i =>
          cases found
          obtain ⟨within, below, above⟩ := of
          have present := List.getElem?_eq_getElem
            (show index < keys.length by omega)
          exact ⟨_, present, .inr ⟨below index _ (Nat.lt_succ_self _) present,
            fun next => above (index + 1) next (Nat.le_refl _)⟩⟩

theorem Of.above (of : answer.Of keys target)
    (missing : answer.atOrBelow = none) : ∀ key ∈ keys, target < key := by
  intro key member
  cases answer with
  | ok i => cases missing
  | err i =>
      cases i with
      | zero =>
          obtain ⟨j, present⟩ := List.mem_iff_getElem?.mp member
          exact of.2.2 j key (Nat.zero_le j) present
      | succ i => cases missing

theorem getElem?_le (sorted : keys.Pairwise (· ≤ ·)) {i j first second : Nat}
    (le : i ≤ j) (atI : keys[i]? = some first)
    (atJ : keys[j]? = some second) : first ≤ second := by
  rcases Nat.lt_or_eq_of_le le with less | rfl
  · obtain ⟨iLt, rfl⟩ := List.getElem?_eq_some_iff.mp atI
    obtain ⟨jLt, rfl⟩ := List.getElem?_eq_some_iff.mp atJ
    exact List.pairwise_iff_getElem.mp sorted i j iLt jLt less
  · cases atI.symm.trans atJ
    exact Nat.le_refl _

/-- The key at such an index is the greatest one at or below the target. -/
theorem Lands.greatest (sorted : keys.Pairwise (· ≤ ·)) {index key : Nat}
    (lands : Lands keys target index) (present : keys[index]? = some key) :
    key ≤ target ∧ ∀ other ∈ keys, other ≤ target → other ≤ key := by
  obtain ⟨found, atIndex, near⟩ := lands
  cases present.symm.trans atIndex
  refine ⟨near.elim Eq.le fun less => less.1.le, fun other member le => ?_⟩
  rcases near with equal | ⟨_, next⟩
  · exact le.trans equal.ge
  · obtain ⟨j, atJ⟩ := List.mem_iff_getElem?.mp member
    rcases Nat.lt_or_ge index j with after | before
    · have within := (List.getElem?_eq_some_iff.mp atJ).1
      have here := List.getElem?_eq_getElem
        (show index + 1 < keys.length by omega)
      have := next _ here
      have := getElem?_le sorted after here atJ
      omega
    · exact getElem?_le sorted before atJ present

theorem Lands.exists_answer (sorted : keys.Pairwise (· ≤ ·)) {index : Nat}
    (lands : Lands keys target index) :
    ∃ answer : SearchAnswer, answer.Of keys target ∧
      answer.atOrBelow = some index := by
  obtain ⟨key, present, rfl | ⟨below, next⟩⟩ := lands
  · exact ⟨ok index, present, rfl⟩
  · have within := (List.getElem?_eq_some_iff.mp present).1
    refine ⟨err (index + 1), ⟨by omega, ?_, ?_⟩, rfl⟩
    · intro j other before otherPresent
      exact (getElem?_le sorted (Nat.le_of_lt_succ before) otherPresent
        present).trans_lt below
    · intro j other after otherPresent
      have here := List.getElem?_eq_getElem (show index + 1 < keys.length by
        have := (List.getElem?_eq_some_iff.mp otherPresent).1
        omega)
      exact (next _ here).trans_le (getElem?_le sorted after here otherPresent)

end SearchAnswer

structure BinarySearch where
  run : List Nat → Nat → SearchAnswer
  right : ∀ keys target, keys.Pairwise (· ≤ ·) → (run keys target).Of keys target

/-- The answer at the place of the first key that is not below the target. -/
def firstAtOrAbove (keys : List Nat) (target : Nat) : SearchAnswer :=
  let index := partitionPoint (· < target) keys
  if keys[index]? = some target then .ok index else .err index

theorem firstAtOrAbove_of (keys : List Nat) (target : Nat)
    (sorted : keys.Pairwise (· ≤ ·)) :
    (firstAtOrAbove keys target).Of keys target := by
  have partitioned : keys.Pairwise fun first second =>
      decide (second < target) = true → decide (first < target) = true :=
    sorted.imp fun le => by
      simp only [decide_eq_true_eq]
      exact le.trans_lt
  rw [firstAtOrAbove]
  split
  · next present => exact present
  · next other =>
      refine ⟨partitionPoint_le_length _ keys, ?_, ?_⟩
      · intro j key before present
        simpa using (lt_partitionPoint_iff partitioned present).mp before
      · intro j key after present
        have atLeast : ¬ key < target := by
          intro below
          have := (lt_partitionPoint_iff partitioned present).mpr
            (decide_eq_true below)
          omega
        refine lt_of_le_of_ne (Nat.not_lt.mp atLeast) ?_
        rintro rfl
        have within := (List.getElem?_eq_some_iff.mp present).1
        have here := List.getElem?_eq_getElem (after.trans_lt within)
        have low := SearchAnswer.getElem?_le sorted after here present
        have high : ¬ _ < target := fun below =>
          absurd ((lt_partitionPoint_iff partitioned here).mpr
            (decide_eq_true below)) (Nat.lt_irrefl _)
        rw [Nat.le_antisymm low (Nat.not_lt.mp high)] at here
        exact other here

def partitionSearch : BinarySearch where
  run := firstAtOrAbove
  right := firstAtOrAbove_of

end Sismo
