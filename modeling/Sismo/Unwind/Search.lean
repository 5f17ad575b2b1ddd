import Sismo.Unwind.Format

namespace Sismo.Unwind

/-! What the kernel's bounded search of a page's rows finds. -/

/-- A slice of the flat array that holds the rows of one 64 KiB page. -/
structure PageSlice (maps : Maps) (left right : Nat) : Prop where
  within : right ≤ maxRows
  length_le : right - left ≤ 65536
  sorted : ∀ i j, left ≤ i → i ≤ j → j < right →
    (maps.rows i).pcLow ≤ (maps.rows j).pcLow

/-- The last row of the slice at or below the target, or none. -/
def LastAtOrBelow (maps : Maps) (pcLow left right : Nat) : Option Nat → Prop
  | some index =>
      (left ≤ index ∧ index < right ∧ (maps.rows index).pcLow ≤ pcLow) ∧
        ∀ j, index < j → j < right → pcLow < (maps.rows j).pcLow
  | none => ∀ j, left ≤ j → j < right → pcLow < (maps.rows j).pcLow

/-- A full page's slice whose first row alone is at or below the target. -/
def FirstOfFullPage (maps : Maps) (pcLow left right : Nat) : Prop :=
  right - left = 65536 ∧ (maps.rows left).pcLow ≤ pcLow ∧
    pcLow < (maps.rows (left + 1)).pcLow

variable {maps : Maps} {pcLow left right m : Nat}

/-- The first `m` rows of the slice are those at or below the target. -/
def Splits (maps : Maps) (pcLow left right m : Nat) : Prop :=
  m ≤ right - left ∧ ∀ i, left ≤ i → i < right →
    ((maps.rows i).pcLow ≤ pcLow ↔ i < left + m)

variable (pcLow) in
theorem PageSlice.exists_splits (slice : PageSlice maps left right)
    (le : left ≤ right) : ∃ m, Splits maps pcLow left right m := by
  obtain ⟨n, rfl⟩ := Nat.exists_eq_add_of_le le
  obtain ⟨m, within, split⟩ :=
    @exists_partition (fun i => (maps.rows i).pcLow ≤ pcLow) left n
      fun i j low iLe below => (slice.sorted i j low iLe below).trans
  exact ⟨m, by omega, split⟩

theorem Splits.lastAtOrBelow (splits : Splits maps pcLow left right m) :
    LastAtOrBelow maps pcLow left right
      (if m = 0 then none else some (left + m - 1)) := by
  obtain ⟨within, split⟩ := splits
  split
  · intro j low below
    have := split j low below
    omega
  · refine ⟨⟨by omega, by omega, ?_⟩, fun j above below => ?_⟩
    · exact (split _ (by omega) (by omega)).mpr (by omega)
    · have := split j (by omega) below
      omega

theorem Splits.unwindSearch_eq (splits : Splits maps pcLow left right m)
    (slice : PageSlice maps left right) (le : left ≤ right) :
    maps.unwindSearch pcLow left right =
      if right - left = 65536 ∧ m ≤ 1 then none
      else if m = 0 then none
      else some (left + m - 1) := by
  obtain ⟨within, split⟩ := splits
  have lengthLe := slice.length_le
  have exhausts : bisectExhausts Maps.maxBinarySearchDepth (right - left) m =
      decide (right - left = 65536 ∧ m ≤ 1) := by
    rcases Nat.lt_or_eq_of_le lengthLe with less | full
    · rw [decide_eq_false (by omega)]
      exact @bisectExhausts_of_lt 16 _ _ within less
    · rw [full] at within ⊢
      simp only [true_and]
      exact @bisectExhausts_two_pow 16 _ within
  rw [Maps.unwindSearch, bisectLast_eq _ le within, exhausts]
  · simp only [decide_eq_true_eq]
  · intro i low below
    have inArray := slice.within
    rw [Maps.row, if_pos (by omega), Option.map_some]
    simp only [split i low below]

/-- The search is complete except for the first row of a full page: halving
65536 rows down to none takes all iterations and leaves none to notice it. -/
theorem unwindSearch_complete_iff (slice : PageSlice maps left right) :
    LastAtOrBelow maps pcLow left right
        (maps.unwindSearch pcLow left right) ↔
      ¬ FirstOfFullPage maps pcLow left right := by
  rcases Nat.lt_or_ge right left with empty | le
  · have none : maps.unwindSearch pcLow left right = none := by
      rw [Maps.unwindSearch, Maps.maxBinarySearchDepth, bisectLast,
        if_pos empty.le]
    rw [none]
    refine iff_of_true (fun j low below => ?_) fun full => ?_
    · omega
    · have := full.1
      omega
  · obtain ⟨m, splits⟩ := slice.exists_splits pcLow le
    have found := splits.lastAtOrBelow
    rw [splits.unwindSearch_eq slice le]
    obtain ⟨within, split⟩ := splits
    by_cases full : right - left = 65536
    · have first := split left (by omega) (by omega)
      have second := split (left + 1) (by omega) (by omega)
      have second := second.not
      rw [Nat.not_le] at second
      rw [FirstOfFullPage, first, second]
      simp only [full, true_and]
      by_cases one : m = 1
      · subst one
        refine iff_of_false (fun missed => ?_) (by omega)
        have := missed left (by omega) (by omega)
        omega
      · refine iff_of_true ?_ (by omega)
        by_cases none : m = 0
        · rw [if_pos (by omega)]
          rwa [if_pos none] at found
        · rwa [if_neg (by omega)]
    · rw [if_neg fun short => full short.1]
      exact iff_of_true found fun first => full first.1

theorem denseRow_lt (i : Nat) : i % 65536 < 2 ^ 16 :=
  Nat.mod_lt i (by decide)

def denseMaps : Maps where
  rows := fun i => { pcLow := i % 65536, pcLow_lt := denseRow_lt i }

theorem denseMaps_pageSlice {right : Nat} (le : right ≤ 65536) :
    PageSlice denseMaps 0 right where
  within := le.trans (by decide)
  length_le := le
  sorted := by
    intro i j _ iLe below
    rw [denseMaps]
    dsimp only
    omega

theorem unwindSearch_complete_three :
    LastAtOrBelow denseMaps 1 0 3 (denseMaps.unwindSearch 1 0 3) ↔
      ¬ FirstOfFullPage denseMaps 1 0 3 :=
  unwindSearch_complete_iff (denseMaps_pageSlice (by decide))

/-- The first address of a page with a row at every address is not found. -/
theorem not_unwindSearch_complete_dense :
    PageSlice denseMaps 0 65536 ∧
      ¬ LastAtOrBelow denseMaps 0 0 65536
        (denseMaps.unwindSearch 0 0 65536) := by
  refine ⟨denseMaps_pageSlice (Nat.le_refl _), fun complete => ?_⟩
  have missed : denseMaps.unwindSearch 0 0 65536 = none := by decide +kernel
  rw [missed] at complete
  exact Nat.not_lt_zero _ (complete 0 (Nat.le_refl 0) (by decide))

end Sismo.Unwind
