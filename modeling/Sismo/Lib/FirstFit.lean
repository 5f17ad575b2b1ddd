import Mathlib.Data.List.Basic

namespace Sismo

/-! First-fit packing: an item goes to the first lane in which it is clear of
every item already there. -/

namespace FirstFit

variable {α : Type*} (clear : α → α → Bool)

/-- The lanes with an empty one where `lane` is past the last. -/
def openLane (lanes : List (List α)) (lane : Nat) : List (List α) :=
  if lane < lanes.length then lanes else lanes ++ [[]]

def place (item : α) :
    (fuel : Nat) → List (List α) → (lane : Nat) → Option (List (List α) × Nat)
  | 0, _, _ => none
  | fuel + 1, lanes, lane =>
      let opened := openLane lanes lane
      if (opened.getD lane []).all (clear item) then
        some (opened.modify lane (· ++ [item]), lane)
      else place item fuel opened (lane + 1)

/-- The lanes hold what was placed in them, and every lane is used. -/
structure Packed (placed : List (α × Nat)) (lanes : List (List α)) : Prop where
  filled : ∀ lane, lanes.getD lane [] =
    (placed.filter (·.2 = lane)).map (·.1)
  within : ∀ entry ∈ placed, entry.2 < lanes.length
  used : ∀ lane < lanes.length, ∃ entry ∈ placed, entry.2 = lane
  few : lanes.length ≤ placed.length
  apart : placed.Pairwise fun first second =>
    first.2 = second.2 → clear second.1 first.1 = true

variable {clear}

theorem openLane_of_lt {lanes : List (List α)} {lane : Nat}
    (present : lane < lanes.length) : openLane lanes lane = lanes :=
  if_pos present

theorem getD_openLane (lanes : List (List α)) (lane other : Nat) :
    (openLane lanes lane).getD other [] = lanes.getD other [] := by
  unfold openLane
  split
  · rfl
  · rw [List.getD_eq_getElem?_getD, List.getD_eq_getElem?_getD,
      List.getElem?_append]
    split
    · rfl
    · next past =>
        rw [List.getElem?_eq_none (Nat.le_of_not_lt past)]
        cases other - lanes.length with
        | zero => rfl
        | succ _ => rfl

/-- A lane past the last is empty, so the search never goes beyond it. -/
theorem place_eq_some (item : α) {fuel : Nat} {lanes : List (List α)}
    {lane : Nat} (within : lane ≤ lanes.length)
    (enough : lanes.length < lane + fuel) :
    ∃ chosen ≤ lanes.length,
      place clear item fuel lanes lane =
        some ((openLane lanes chosen).modify chosen (· ++ [item]), chosen) ∧
      ∀ other ∈ lanes.getD chosen [], clear item other = true := by
  induction fuel generalizing lane with
  | zero =>
      rw [Nat.add_zero] at enough
      exact absurd within (Nat.not_le_of_lt enough)
  | succ fuel induction =>
      unfold place
      dsimp only
      rw [getD_openLane]
      split
      · next free =>
          exact ⟨lane, within, rfl, List.all_eq_true.mp free⟩
      · next occupied =>
          have present : lane < lanes.length := by
            apply Nat.lt_of_le_of_ne within
            intro last
            apply occupied
            rw [last, List.getD_eq_getElem?_getD,
              List.getElem?_eq_none (Nat.le_refl _)]
            rfl
          rw [openLane_of_lt present]
          exact induction present (by omega)

/-- More fuel does not change where an item goes. -/
theorem place_mono {item : α} {fuel more : Nat} (le : fuel ≤ more)
    {lanes : List (List α)} {lane : Nat} {result : List (List α) × Nat}
    (placed : place clear item fuel lanes lane = some result) :
    place clear item more lanes lane = some result := by
  induction fuel generalizing more lanes lane with
  | zero => cases placed
  | succ fuel induction =>
      obtain ⟨more, rfl⟩ := Nat.exists_eq_succ_of_ne_zero (n := more) (by omega)
      unfold place at placed ⊢
      dsimp only at placed ⊢
      split
      · next free => rwa [if_pos free] at placed
      · next occupied =>
          rw [if_neg occupied] at placed
          exact induction (Nat.le_of_succ_le_succ le) placed

theorem Packed.nil : Packed clear [] [] where
  filled _ := rfl
  within _ member := nomatch member
  used _ below := absurd below (Nat.not_lt_zero _)
  few := Nat.le_refl 0
  apart := List.Pairwise.nil

theorem length_openLane {lanes : List (List α)} {lane : Nat}
    (within : lane ≤ lanes.length) :
    (openLane lanes lane).length = max lanes.length (lane + 1) := by
  unfold openLane
  split
  · next present => exact (Nat.max_eq_left present).symm
  · next absent =>
      have last : lane = lanes.length := by omega
      rw [List.length_append, last]
      exact (Nat.max_eq_right (Nat.le_succ _)).symm

/-- Placing an item where it is clear keeps the lanes packed. -/
theorem Packed.place {placed : List (α × Nat)} {lanes : List (List α)}
    (packed : Packed clear placed lanes) {item : α} {chosen : Nat}
    (within : chosen ≤ lanes.length)
    (free : ∀ other ∈ lanes.getD chosen [], clear item other = true) :
    Packed clear (placed ++ [(item, chosen)])
      ((openLane lanes chosen).modify chosen (· ++ [item])) := by
  have length := length_openLane within
  have opened : chosen < (openLane lanes chosen).length := by omega
  refine ⟨?_, ?_, ?_, ?_, ?_⟩
  · intro lane
    rw [List.filter_append, List.map_append, ← packed.filled lane,
      List.getD_eq_getElem?_getD, List.getElem?_modify,
      ← getD_openLane lanes chosen lane, List.getD_eq_getElem?_getD]
    by_cases same : chosen = lane
    · subst same
      rw [List.getElem?_eq_getElem opened]
      simp
    · simp [same]
  · intro entry member
    rw [List.length_modify, length]
    rcases List.mem_append.mp member with before | added
    · exact Nat.lt_of_lt_of_le (packed.within entry before)
        (Nat.le_max_left _ _)
    · rw [List.mem_singleton.mp added]
      exact Nat.le_max_right _ _
  · intro lane below
    rw [List.length_modify, length] at below
    by_cases same : lane = chosen
    · exact ⟨(item, chosen), List.mem_append_right _ List.mem_cons_self,
        same.symm⟩
    · obtain ⟨entry, member, there⟩ := packed.used lane (by omega)
      exact ⟨entry, List.mem_append_left _ member, there⟩
  · have few := packed.few
    rw [List.length_modify, length, List.length_append, List.length_singleton]
    omega
  · apply List.pairwise_append.mpr
    refine ⟨packed.apart, List.pairwise_singleton _ _, ?_⟩
    intro first before second added same
    rw [List.mem_singleton.mp added] at same ⊢
    apply free
    rw [packed.filled]
    apply List.mem_map.mpr
    exact ⟨first, List.mem_filter.mpr ⟨before, decide_eq_true same⟩, rfl⟩

/-- The number of lanes is one more than the last lane used. -/
theorem Packed.length_eq {placed : List (α × Nat)} {lanes : List (List α)}
    (packed : Packed clear placed lanes) :
    (placed = [] ∧ lanes.length = 0) ∨
      ∃ last ∈ placed, lanes.length = last.2 + 1 ∧
        ∀ entry ∈ placed, entry.2 ≤ last.2 := by
  cases count : lanes.length with
  | zero =>
      refine .inl ⟨List.eq_nil_iff_forall_not_mem.mpr ?_, rfl⟩
      intro entry member
      have below := packed.within entry member
      omega
  | succ final =>
      obtain ⟨last, member, there⟩ := packed.used final (by omega)
      refine .inr ⟨last, member, by rw [there], ?_⟩
      intro entry member
      have below := packed.within entry member
      omega

end FirstFit

end Sismo
