import Mathlib.Data.List.Sort

namespace Sismo

/-! The last element of a stably sorted list. Any stable sort gives the same
list; insertion sort is one. -/

variable {α : Type*} (le : α → α → Prop) [DecidableRel le]

/-- The greatest element, the last of those of one rank. -/
def greatest : List α → Option α
  | [] => none
  | a :: rest =>
      match greatest rest with
      | none => some a
      | some b => if le a b then some b else some a

variable {le}

theorem greatest_mem {list : List α} {a : α}
    (found : greatest le list = some a) : a ∈ list := by
  induction list with
  | nil => cases found
  | cons b rest induction =>
      unfold greatest at found
      split at found
      · cases found
        exact List.mem_cons_self
      · next c later =>
          split at found
          · cases found
            exact List.mem_cons_of_mem b (induction later)
          · cases found
            exact List.mem_cons_self

/-- An element that none after it reaches, and that reaches all before it. -/
theorem greatest_eq_some (before after : List α) {a : α}
    (reaches : ∀ b ∈ before, le b a) (unreached : ∀ b ∈ after, ¬ le a b) :
    greatest le (before ++ a :: after) = some a := by
  induction before with
  | nil =>
      rw [List.nil_append, greatest]
      split
      · rfl
      · next b later => exact if_neg (unreached b (greatest_mem later))
  | cons b rest induction =>
      rw [List.cons_append, greatest,
        induction fun c member => reaches c (List.mem_cons_of_mem b member)]
      exact if_pos (reaches b List.mem_cons_self)

theorem orderedInsert_of_forall_le {a : α} {list : List α}
    (least : ∀ b ∈ list, le a b) : list.orderedInsert le a = a :: list := by
  cases list with
  | nil => rfl
  | cons b rest =>
      exact List.orderedInsert_cons_of_le le rest (least b List.mem_cons_self)

variable [IsTrans α le]

theorem getLast?_orderedInsert (a : α) {list : List α}
    (sorted : list.Pairwise le) :
    (list.orderedInsert le a).getLast? =
      match list.getLast? with
      | none => some a
      | some b => if le a b then some b else some a := by
  induction list with
  | nil => rfl
  | cons b rest induction =>
      obtain ⟨below, sorted⟩ := List.pairwise_cons.mp sorted
      cases rest with
      | nil =>
          rw [List.orderedInsert_cons]
          split
          · next low => exact (if_pos low).symm
          · next high => exact (if_neg high).symm
      | cons c rest =>
          rw [List.getLast?_cons_cons, ← induction sorted,
            List.orderedInsert_cons]
          split
          · next low =>
              have low' : le a c :=
                IsTrans.trans _ _ _ low (below c List.mem_cons_self)
              rw [List.orderedInsert_cons_of_le le rest low',
                List.getLast?_cons_cons, List.getLast?_cons_cons,
                List.getLast?_cons_cons]
          · have nonempty : (c :: rest).orderedInsert le a ≠ [] := by
              intro empty
              have length := List.orderedInsert_length le (c :: rest) a
              rw [empty] at length
              cases length
            exact List.getLast?_cons_of_ne_nil nonempty

theorem filter_orderedInsert (p : α → Bool) {a : α} {list : List α}
    (sorted : list.Pairwise le) :
    (list.orderedInsert le a).filter p =
      if p a then (list.filter p).orderedInsert le a else list.filter p := by
  induction list with
  | nil =>
      rw [List.orderedInsert_nil, List.filter_cons]
      rfl
  | cons b rest induction =>
      obtain ⟨below, sorted⟩ := List.pairwise_cons.mp sorted
      by_cases low : le a b
      · have least : ∀ c ∈ (b :: rest).filter p, le a c := by
          intro c member
          obtain rfl | later := List.mem_cons.mp (List.mem_of_mem_filter member)
          · exact low
          · exact IsTrans.trans _ _ _ low (below c later)
        rw [List.orderedInsert_cons_of_le le rest low, List.filter_cons,
          orderedInsert_of_forall_le least]
      · rw [List.orderedInsert_of_not_le le rest low, List.filter_cons,
          List.filter_cons, induction sorted]
        split
        · split
          · exact (List.orderedInsert_of_not_le le _ low).symm
          · rfl
        · rfl

variable [Std.Total le]

/-- The sort does not depend on the elements left out. -/
theorem filter_insertionSort (p : α → Bool) (list : List α) :
    (list.insertionSort le).filter p = (list.filter p).insertionSort le := by
  induction list with
  | nil => rfl
  | cons a rest induction =>
      rw [List.insertionSort_cons,
        filter_orderedInsert p (List.pairwise_insertionSort le rest),
        induction, List.filter_cons]
      split <;> rfl

theorem getLast?_insertionSort (list : List α) :
    (list.insertionSort le).getLast? = greatest le list := by
  induction list with
  | nil => rfl
  | cons a rest induction =>
      rw [List.insertionSort_cons,
        getLast?_orderedInsert a (List.pairwise_insertionSort le rest),
        induction]
      rfl

end Sismo
