import Mathlib.Data.List.Pairwise
import Sismo.Lib.Bisect
import Sismo.Lib.FindRange

namespace Sismo

/-! Lookups of an address among half-open ranges in the order of their starts.
The last range that starts at the address or below it is the one to test, as
long as it is not shadowed by one that ends earlier. -/

namespace Ranges

def Contains (range : Nat × Nat) (addr : Nat) : Prop :=
  range.1 ≤ addr ∧ addr < range.2

/-- What a range reaches: its end, or its start where it is empty. -/
def reach (range : Nat × Nat) : Nat := max range.1 range.2

section

variable {α : Type*} (range : α → Nat × Nat) (items : List α)

/-- The last range that starts at an address or below it, if it goes that
far. -/
def lastStarting (addr : Nat) : Option α :=
  match partitionPoint (fun item => decide ((range item).1 ≤ addr)) items with
  | 0 => none
  | i + 1 => items[i]?.filter fun item => decide (addr < (range item).2)

def StartSorted : Prop :=
  items.Pairwise fun a b => (range a).1 ≤ (range b).1

/-- No address is in two of the ranges. -/
def Apart : Prop :=
  items.Pairwise fun a b =>
    ∀ addr, Contains (range a) addr → ¬Contains (range b) addr

/-- Each range ends before the later ones start. -/
def InOrder : Prop :=
  items.Pairwise fun a b => (range a).2 ≤ (range b).1

/-- No range goes further than a later one does, unless the next one starts
by then. -/
def Unshadowed : Prop :=
  ∀ i j a b, i < j → items[i]? = some a → items[j]? = some b →
    (range a).2 ≤ reach (range b) ∨
      ∃ next, items[j + 1]? = some next ∧ (range next).1 ≤ reach (range b)

end

variable {α : Type*} {range : α → Nat × Nat} {items : List α} {addr : Nat}
  {item : α}

theorem pairwise_getElem? {r : α → α → Prop} (pairs : items.Pairwise r)
    {i j : Nat} {a b : α} (less : i < j) (first : items[i]? = some a)
    (second : items[j]? = some b) : r a b := by
  obtain ⟨below, rfl⟩ := List.getElem?_eq_some_iff.mp first
  obtain ⟨below', rfl⟩ := List.getElem?_eq_some_iff.mp second
  exact List.pairwise_iff_getElem.mp pairs i j below below' less

theorem StartSorted.le_of_lt (sorted : StartSorted range items) {i j : Nat}
    {a b : α} (le : i ≤ j) (first : items[i]? = some a)
    (second : items[j]? = some b) : (range a).1 ≤ (range b).1 := by
  rcases Nat.lt_or_eq_of_le le with less | rfl
  · exact pairwise_getElem? sorted less first second
  · rw [first] at second
    cases second
    exact Nat.le_refl _

theorem StartSorted.lt_point_iff (sorted : StartSorted range items)
    {i : Nat} (found : items[i]? = some item) :
    i < partitionPoint (fun item => decide ((range item).1 ≤ addr)) items ↔
      (range item).1 ≤ addr := by
  rw [lt_partitionPoint_iff ?_ found, decide_eq_true_iff]
  apply sorted.imp
  intro a b le low
  rw [decide_eq_true_iff] at low ⊢
  exact Nat.le_trans le low

theorem lastStarting_sound (found : lastStarting range items addr = some item) :
    item ∈ items ∧ Contains (range item) addr := by
  unfold lastStarting at found
  split at found
  · cases found
  · next i point =>
      obtain ⟨before, element, after, rfl, rfl, low, _⟩ :=
        partitionPoint_succ point
      obtain ⟨here, high⟩ := Option.filter_eq_some_iff.mp found
      rw [List.getElem?_append_right (Nat.le_refl _), Nat.sub_self,
        List.getElem?_cons_zero] at here
      cases here
      exact ⟨List.mem_append_right _ List.mem_cons_self,
        of_decide_eq_true low, of_decide_eq_true high⟩

theorem lastStarting_map {β : Type*} (f : β → α) (list : List β) (addr : Nat) :
    lastStarting range (list.map f) addr =
      (lastStarting (range ∘ f) list addr).map f := by
  unfold lastStarting
  have point : partitionPoint (fun item => decide ((range item).1 ≤ addr))
      (list.map f) =
      partitionPoint (fun b => decide (((range ∘ f) b).1 ≤ addr)) list := by
    unfold partitionPoint
    rw [List.takeWhile_map, List.length_map]
    rfl
  rw [point]
  split
  · rfl
  · rw [List.getElem?_map, Option.filter_map]
    rfl

theorem StartSorted.exists_last (sorted : StartSorted range items)
    (member : item ∈ items) (low : (range item).1 ≤ addr) :
    ∃ (k : Nat) (last : α), items[k]? = some last ∧ (range last).1 ≤ addr ∧
      lastStarting range items addr =
        (if addr < (range last).2 then some last else none) ∧
      ∀ (i : Nat) (a : α), items[i]? = some a →
        ((range a).1 ≤ addr ↔ i ≤ k) := by
  obtain ⟨i, found⟩ := List.mem_iff_getElem?.mp member
  have below := (sorted.lt_point_iff found).mpr low
  cases point : partitionPoint
      (fun item => decide ((range item).1 ≤ addr)) items with
  | zero => rw [point] at below; exact absurd below (Nat.not_lt_zero i)
  | succ k =>
      have within := partitionPoint_le_length
        (fun item => decide ((range item).1 ≤ addr)) items
      rw [point] at within
      have last := List.getElem?_eq_getElem (l := items) (i := k) within
      refine ⟨k, items[k], last, ?_, ?_, ?_⟩
      · apply (sorted.lt_point_iff last).mp
        rw [point]
        exact Nat.lt_succ_self k
      · unfold lastStarting
        rw [point]
        dsimp only
        rw [last, Option.filter_some]
        simp
      · intro j a there
        rw [← sorted.lt_point_iff there, point, Nat.lt_succ_iff]

theorem lastStarting_eq_some_of_unshadowed (sorted : StartSorted range items)
    (unshadowed : Unshadowed range items) (member : item ∈ items)
    (inside : Contains (range item) addr) :
    ∃ last, lastStarting range items addr = some last := by
  obtain ⟨k, last, there, low, result, starts⟩ :=
    sorted.exists_last member inside.1
  obtain ⟨i, found⟩ := List.mem_iff_getElem?.mp member
  refine ⟨last, ?_⟩
  rw [result, if_pos]
  by_contra short
  have reached : reach (range last) ≤ addr :=
    Nat.max_le.mpr ⟨low, Nat.le_of_not_lt short⟩
  rcases Nat.lt_or_eq_of_le ((starts i item found).mp inside.1) with less | rfl
  · rcases unshadowed i k item last less found there with ends | next
    · exact absurd inside.2 (Nat.not_lt_of_le (Nat.le_trans ends reached))
    · obtain ⟨after, follows, starts'⟩ := next
      have early := (starts (k + 1) after follows).mp
        (Nat.le_trans starts' reached)
      exact absurd early (Nat.not_succ_le_self k)
  · rw [found] at there
    cases there
    exact short inside.2

/-- The lookup finds a range wherever there is one exactly when no range is
shadowed. -/
theorem finds_iff_unshadowed (sorted : StartSorted range items) {top : Nat}
    (ends : ∀ item ∈ items, (range item).2 ≤ top) :
    (∀ addr < top, (∃ item ∈ items, Contains (range item) addr) →
      ∃ last, lastStarting range items addr = some last) ↔
      Unshadowed range items := by
  constructor
  · intro finds i j a b less first second
    by_contra shadowed
    obtain ⟨further, alone⟩ := not_or.mp shadowed
    have long := Nat.lt_of_not_le further
    have memberA := List.mem_of_getElem? first
    have low : (range a).1 ≤ (range b).1 :=
      sorted.le_of_lt (Nat.le_of_lt less) first second
    have inside : Contains (range a) (reach (range b)) :=
      ⟨Nat.le_trans low (Nat.le_max_left _ _), long⟩
    obtain ⟨found, isFound⟩ := finds (reach (range b))
      (Nat.lt_of_lt_of_le long (ends a memberA)) ⟨a, memberA, inside⟩
    obtain ⟨k, last, there, -, result, starts⟩ :=
      sorted.exists_last memberA inside.1
    have atLeast := (starts j b second).mp (Nat.le_max_left _ _)
    have same : j = k := by
      apply Nat.le_antisymm atLeast
      by_contra beyond
      have within := (List.getElem?_eq_some_iff.mp there).1
      have next := List.getElem?_eq_getElem (l := items) (i := j + 1)
        (by omega)
      exact alone ⟨_, next, (starts (j + 1) _ next).mpr (by omega)⟩
    subst same
    rw [second] at there
    cases there
    have ended : ¬reach (range b) < (range b).2 :=
      Nat.not_lt_of_le (Nat.le_max_right _ _)
    rw [result, if_neg ended] at isFound
    cases isFound
  · intro unshadowed addr _ ⟨item, member, inside⟩
    exact lastStarting_eq_some_of_unshadowed sorted unshadowed member inside

theorem Apart.unique (apart : Apart range items) {a b : α} (first : a ∈ items)
    (second : b ∈ items) (inFirst : Contains (range a) addr)
    (inSecond : Contains (range b) addr) : a = b := by
  obtain ⟨i, here⟩ := List.mem_iff_getElem?.mp first
  obtain ⟨j, there⟩ := List.mem_iff_getElem?.mp second
  rcases Nat.lt_trichotomy i j with less | rfl | more
  · exact absurd inSecond (pairwise_getElem? apart less here there _ inFirst)
  · rw [here] at there
    exact Option.some.inj there
  · exact absurd inFirst (pairwise_getElem? apart more there here _ inSecond)

theorem InOrder.apart (inOrder : InOrder range items) :
    Apart range items := by
  apply inOrder.imp
  intro a b ends addr inFirst inSecond
  have less := Nat.lt_of_lt_of_le inFirst.2 ends
  exact absurd inSecond.1 (Nat.not_le_of_lt less)

theorem InOrder.unshadowed (inOrder : InOrder range items) :
    Unshadowed range items := by
  intro i j a b less first second
  have ends : (range a).2 ≤ (range b).1 :=
    pairwise_getElem? inOrder less first second
  exact .inl (Nat.le_trans ends (Nat.le_max_left _ _))

theorem Apart.inOrder (apart : Apart range items)
    (sorted : StartSorted range items) (unshadowed : Unshadowed range items) :
    InOrder range items := by
  apply List.pairwise_iff_getElem.mpr
  intro i j below below' less
  have first := List.getElem?_eq_getElem below
  have second := List.getElem?_eq_getElem below'
  by_contra overlap
  have inside : Contains (range items[i]) (range items[j]).1 :=
    ⟨sorted.le_of_lt (Nat.le_of_lt less) first second,
      Nat.lt_of_not_le overlap⟩
  obtain ⟨last, found⟩ := lastStarting_eq_some_of_unshadowed sorted unshadowed
    (List.getElem_mem below) inside
  obtain ⟨k, final, there, -, result, starts⟩ :=
    sorted.exists_last (List.getElem_mem below) inside.1
  have after := (starts j _ second).mp (Nat.le_refl _)
  rw [found] at result
  split at result
  · next high =>
      cases result
      exact pairwise_getElem? apart (Nat.lt_of_lt_of_le less after) first there
        _ inside (lastStarting_sound found).2
  · cases result

/-- Ranges with an address each that are apart are in order. -/
theorem Apart.inOrder_of_nonempty (apart : Apart range items)
    (sorted : StartSorted range items)
    (nonempty : ∀ item ∈ items, (range item).1 < (range item).2) :
    InOrder range items := by
  apply List.pairwise_iff_getElem.mpr
  intro i j below below' less
  have first := List.getElem?_eq_getElem below
  have second := List.getElem?_eq_getElem below'
  by_contra overlap
  exact pairwise_getElem? apart less first second (range items[j]).1
    ⟨sorted.le_of_lt (Nat.le_of_lt less) first second,
      Nat.lt_of_not_le overlap⟩
    ⟨Nat.le_refl _, nonempty _ (List.getElem_mem below')⟩

theorem findRangeLoop_complete (sorted : StartSorted range items)
    (inOrder : InOrder range items) {k : Nat} (there : items[k]? = some item)
    (inside : Contains (range item) addr) {fuel lo hi : Nat} (low : lo ≤ k)
    (high : k < hi) (within : hi ≤ items.length) (enough : hi - lo < fuel) :
    ∃ found, findRangeLoop range items addr fuel lo hi = some found := by
  induction fuel generalizing lo hi with
  | zero => exact absurd enough (Nat.not_lt_zero _)
  | succ fuel induction =>
      unfold findRangeLoop
      rw [if_pos (Nat.lt_of_le_of_lt low high)]
      dsimp only
      have middle := List.getElem?_eq_getElem (l := items)
        (i := lo + (hi - lo) / 2) (by omega)
      rw [middle]
      dsimp only
      split
      · next above =>
          have left : k < lo + (hi - lo) / 2 := by
            by_contra right
            have starts := sorted.le_of_lt (Nat.le_of_not_lt right) middle there
            have := inside.1
            omega
          exact induction low left (by omega) (by omega)
      · split
        · next past =>
            have right : lo + (hi - lo) / 2 < k := by
              rcases Nat.lt_trichotomy k (lo + (hi - lo) / 2) with
                less | rfl | more
              · have ends : (range item).2 ≤ _ :=
                  pairwise_getElem? inOrder less there middle
                have := inside.2
                omega
              · rw [there] at middle
                have same := Option.some.inj middle
                rw [← same] at past
                exact absurd inside.2 (Nat.not_lt_of_le past)
              · exact more
            exact induction right high within (by omega)
        · exact ⟨_, rfl⟩

theorem findRange_eq_some_iff (sorted : StartSorted range items)
    (inOrder : InOrder range items) :
    findRange range items addr = some item ↔
      item ∈ items ∧ Contains (range item) addr := by
  constructor
  · exact findRange_sound
  · rintro ⟨member, inside⟩
    obtain ⟨k, there⟩ := List.mem_iff_getElem?.mp member
    have room : items.length - 0 < items.length + 1 := Nat.lt_succ_self _
    obtain ⟨found, isFound⟩ := findRangeLoop_complete sorted inOrder there
      inside (Nat.zero_le k) (List.getElem?_eq_some_iff.mp there).1
      (Nat.le_refl _) room
    obtain ⟨member', inside'⟩ := findRangeLoop_sound isFound
    rw [inOrder.apart.unique member member' inside inside']
    exact isFound

theorem lastStarting_eq_some_iff (sorted : StartSorted range items)
    (inOrder : InOrder range items) :
    lastStarting range items addr = some item ↔
      item ∈ items ∧ Contains (range item) addr := by
  constructor
  · exact lastStarting_sound
  · rintro ⟨member, inside⟩
    obtain ⟨last, found⟩ := lastStarting_eq_some_of_unshadowed sorted
      inOrder.unshadowed member inside
    obtain ⟨member', inside'⟩ := lastStarting_sound found
    rw [inOrder.apart.unique member member' inside inside']
    exact found

end Ranges

end Sismo
