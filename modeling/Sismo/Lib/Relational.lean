import Mathlib.Algebra.BigOperators.Group.List.Basic
import Mathlib.Algebra.Ring.Int.Defs
import Mathlib.Data.List.Dedup
import Mathlib.Data.List.Sort

namespace Sismo

/-! Joins, grouping and numbering of the rows of a query. -/

variable {α β κ : Type}

/-- Equality in a condition: a null equals nothing. -/
def sqlEq [DecidableEq α] : Option α → Option α → Bool
  | some first, some second => first = second
  | _, _ => false

@[simp] theorem sqlEq_iff [DecidableEq α] {first second : Option α} :
    sqlEq first second = true ↔ first = second ∧ second ≠ none := by
  cases first <;> cases second <;> simp [sqlEq]

/-- The rows joined to one, or a row of nulls. -/
def leftJoin (rows : List β) (on : β → Bool) : List (Option β) :=
  match rows.filter on with
  | [] => [none]
  | joined => joined.map some

/-- `row_number` over all rows in the order of a key. -/
def numbered [Ord κ] (key : α → κ) (rows : List α) : List (α × Nat) :=
  (rows.insertionSort fun first second =>
    (compare (key first) (key second)).isLE).zipIdx 1

def sumBy [DecidableEq κ] (key : α → κ) (amount : α → Int) (rows : List α) :
    List (κ × Int) :=
  (rows.map key).dedup.map fun group =>
    (group, ((rows.filter fun row => key row = group).map amount).sum)

/-! ### Numbers -/

section

variable [Ord κ] {key : α → κ} {rows : List α}

variable (key rows) in
theorem numbered_map_snd :
    (numbered key rows).map (·.2) = List.range' 1 rows.length := by
  unfold numbered
  rw [List.zipIdx_map_snd, List.length_insertionSort]

@[simp] theorem length_numbered : (numbered key rows).length = rows.length := by
  unfold numbered
  rw [List.length_zipIdx, List.length_insertionSort]

variable (key rows) in
theorem numbered_map_fst_perm : ((numbered key rows).map (·.1)).Perm rows := by
  unfold numbered
  rw [List.zipIdx_map_fst]
  exact List.perm_insertionSort _ _

theorem mem_of_mem_numbered {row : α × Nat} (member : row ∈ numbered key rows) :
    row.1 ∈ rows :=
  (numbered_map_fst_perm key rows).mem_iff.mp (List.mem_map_of_mem member)

theorem exists_mem_numbered {row : α} (member : row ∈ rows) :
    ∃ number, (row, number) ∈ numbered key rows := by
  obtain ⟨row', member', rfl⟩ :=
    List.mem_map.mp ((numbered_map_fst_perm key rows).mem_iff.mpr member)
  exact ⟨row'.2, member'⟩

theorem numbered_snd_mem {row : α × Nat} (member : row ∈ numbered key rows) :
    1 ≤ row.2 ∧ row.2 ≤ rows.length := by
  have inRange : row.2 ∈ List.range' 1 rows.length := by
    rw [← numbered_map_snd key rows]
    exact List.mem_map_of_mem member
  rw [List.mem_range'_1] at inRange
  omega

theorem numbered_snd_injective {first second : α × Nat}
    (firstMem : first ∈ numbered key rows)
    (secondMem : second ∈ numbered key rows) (same : first.2 = second.2) :
    first = second := by
  have nodup : ((numbered key rows).map (·.2)).Nodup := by
    rw [numbered_map_snd]
    exact List.nodup_range'
  exact List.inj_on_of_nodup_map nodup firstMem secondMem same

theorem numbered_map_nodup {γ : Type} {f : α → γ}
    (distinct : (rows.map f).Nodup) :
    ((numbered key rows).map fun row => f row.1).Nodup := by
  have perm := (numbered_map_fst_perm key rows).map f
  rw [List.map_map] at perm
  exact perm.nodup_iff.mpr distinct

end

/-! ### Joins with one row at most -/

section

variable {rows : List β} {on : β → Bool}

/-- One row at most satisfies the condition. -/
def AtMostOne (rows : List β) (on : β → Bool) : Prop :=
  rows.Pairwise fun first second => ¬(on first = true ∧ on second = true)

theorem atMostOne_of_key {γ : Type} {key : β → γ} (wanted : γ)
    (distinct : (rows.map key).Nodup)
    (determines : ∀ row ∈ rows, on row = true → key row = wanted) :
    AtMostOne rows on := by
  rw [List.Nodup, List.pairwise_map] at distinct
  apply List.Pairwise.imp_of_mem _ distinct
  rintro first second firstMem secondMem apart ⟨firstOn, secondOn⟩
  exact apart ((determines first firstMem firstOn).trans
    (determines second secondMem secondOn).symm)

theorem filter_eq_singleton (one : AtMostOne rows on) {row : β}
    (member : row ∈ rows) (here : on row = true) : rows.filter on = [row] := by
  induction rows with
  | nil => cases member
  | cons first rows ih =>
      obtain ⟨apart, rest⟩ := List.pairwise_cons.mp one
      rcases List.mem_cons.mp member with rfl | later
      · have others : rows.filter on = [] := by
          rw [List.filter_eq_nil_iff]
          exact fun other member there => apart other member ⟨here, there⟩
        rw [List.filter_cons_of_pos here, others]
      · have skipped : ¬on first = true := fun there =>
          apart row later ⟨there, here⟩
        rw [List.filter_cons_of_neg skipped]
        exact ih rest later

theorem mem_leftJoin {joined : Option β} : joined ∈ leftJoin rows on ↔
    (∃ row ∈ rows, on row = true ∧ joined = some row) ∨
      joined = none ∧ ∀ row ∈ rows, on row = false := by
  unfold leftJoin
  split
  · next empty =>
      simp only [List.filter_eq_nil_iff, Bool.not_eq_true] at empty
      rw [List.mem_singleton]
      constructor
      · exact fun isNone => .inr ⟨isNone, empty⟩
      · rintro (⟨row, member, here, _⟩ | ⟨isNone, _⟩)
        · rw [empty row member] at here
          cases here
        · exact isNone
  · next joins nonempty =>
      rw [List.mem_map]
      constructor
      · rintro ⟨row, member, rfl⟩
        obtain ⟨inRows, here⟩ := List.mem_filter.mp member
        exact .inl ⟨row, inRows, here, rfl⟩
      · rintro (⟨row, member, here, rfl⟩ | ⟨_, none⟩)
        · exact ⟨row, List.mem_filter.mpr ⟨member, here⟩, rfl⟩
        · exact absurd (List.filter_eq_nil_iff.mpr fun row member => by
            simp [none row member]) nonempty

theorem find?_key_iff {γ : Type} [DecidableEq γ] {key : β → γ}
    (distinct : (rows.map key).Nodup) {wanted : γ} {row : β} :
    rows.find? (fun row => key row = wanted) = some row ↔
      row ∈ rows ∧ key row = wanted := by
  constructor
  · intro found
    exact ⟨List.mem_of_find?_eq_some found, by
      simpa using List.find?_some found⟩
  · rintro ⟨member, rfl⟩
    cases found : rows.find? fun other => key other = key row with
    | none =>
        have missing := List.find?_eq_none.mp found row member
        simp at missing
    | some other =>
        have same : key other = key row := by
          simpa using List.find?_some found
        rw [List.inj_on_of_nodup_map distinct
          (List.mem_of_find?_eq_some found) member same]

theorem leftJoin_eq_singleton (one : AtMostOne rows on) :
    ∃ joined, leftJoin rows on = [joined] := by
  by_cases found : ∃ row ∈ rows, on row = true
  · obtain ⟨row, member, here⟩ := found
    exact ⟨some row, by rw [leftJoin, filter_eq_singleton one member here]; rfl⟩
  · have empty : rows.filter on = [] := by
      rw [List.filter_eq_nil_iff]
      exact fun row member here => found ⟨row, member, here⟩
    exact ⟨none, by rw [leftJoin, empty]⟩

theorem exists_mem_leftJoin (rows : List β) (on : β → Bool) :
    ∃ joined, joined ∈ leftJoin rows on := by
  by_cases found : ∃ row ∈ rows, on row = true
  · obtain ⟨row, member, here⟩ := found
    exact ⟨some row, mem_leftJoin.mpr (.inl ⟨row, member, here, rfl⟩)⟩
  · refine ⟨none, mem_leftJoin.mpr (.inr ⟨rfl, fun row member => ?_⟩)⟩
    exact Bool.eq_false_iff.mpr fun here => found ⟨row, member, here⟩

theorem map_flatMap_eq_self {rows : List α} {join : α → List β} {row : β → α}
    (single : ∀ a ∈ rows, (join a).map row = [a]) :
    (rows.flatMap join).map row = rows := by
  induction rows with
  | nil => rfl
  | cons a rows ih =>
      rw [List.flatMap_cons, List.map_append, single a List.mem_cons_self,
        ih fun b member => single b (List.mem_cons_of_mem _ member)]
      rfl

end

/-! ### Sums of groups -/

section

variable [DecidableEq κ] {key : α → κ} {amount : α → Int} {rows : List α}

theorem sum_groups {keys : List κ} (distinct : keys.Nodup)
    (covers : ∀ row ∈ rows, key row ∈ keys) :
    (keys.map fun group =>
        ((rows.filter fun row => key row = group).map amount).sum).sum =
      (rows.map amount).sum := by
  induction rows with
  | nil => simp
  | cons row rows ih =>
      have step : ∀ group,
          (((row :: rows).filter fun row => key row = group).map amount).sum =
            (if group = key row then amount row else 0) +
              ((rows.filter fun row => key row = group).map amount).sum := by
        intro group
        by_cases here : group = key row
        · rw [if_pos here, List.filter_cons, if_pos (by simpa using here.symm)]
          rfl
        · rw [if_neg here, List.filter_cons,
            if_neg (by simpa using fun same => here same.symm), zero_add]
      have once : (keys.map fun group =>
          if group = key row then amount row else 0).sum = amount row := by
        rw [List.sum_map_ite_eq, List.count_eq_one_of_mem distinct
          (covers row List.mem_cons_self)]
        simp
      simp only [step]
      rw [List.sum_map_add, once, ih fun row member =>
        covers row (List.mem_cons_of_mem _ member), List.map_cons,
        List.sum_cons]

theorem mem_sumBy {group : κ} {sum : Int} :
    (group, sum) ∈ sumBy key amount rows ↔ (∃ row ∈ rows, key row = group) ∧
      sum = ((rows.filter fun row => key row = group).map amount).sum := by
  unfold sumBy
  rw [List.mem_map]
  constructor
  · rintro ⟨other, member, equal⟩
    cases equal
    exact ⟨List.mem_map.mp (List.mem_dedup.mp member), rfl⟩
  · rintro ⟨inRows, rfl⟩
    exact ⟨group, List.mem_dedup.mpr (List.mem_map.mpr inRows), rfl⟩

theorem sumBy_map_fst : (sumBy key amount rows).map (·.1) =
    (rows.map key).dedup := by
  unfold sumBy
  rw [List.map_map]
  exact List.map_id _

theorem sumBy_nodup : ((sumBy key amount rows).map (·.1)).Nodup := by
  rw [sumBy_map_fst]
  exact List.nodup_dedup _

/-- The sums of the groups that a condition keeps. -/
theorem sum_sumBy (keep : κ → Bool) :
    (((sumBy key amount rows).filter fun group => keep group.1).map
      (·.2)).sum = ((rows.filter fun row => keep (key row)).map amount).sum := by
  have kept : ∀ row ∈ rows.filter fun row => keep (key row),
      key row ∈ (rows.map key).dedup.filter keep := by
    intro row member
    obtain ⟨inRows, kept⟩ := List.mem_filter.mp member
    exact List.mem_filter.mpr
      ⟨List.mem_dedup.mpr (List.mem_map_of_mem inRows), kept⟩
  rw [← sum_groups ((List.nodup_dedup _).filter _) kept]
  unfold sumBy
  rw [List.filter_map, List.map_map]
  congr 1
  apply List.map_congr_left
  intro group member
  have kept : keep group = true := (List.mem_filter.mp member).2
  simp only [Function.comp_apply, List.filter_filter]
  congr 2
  apply List.filter_congr
  intro row _
  by_cases here : key row = group
  · simp [here, kept]
  · simp [here]

end

end Sismo
