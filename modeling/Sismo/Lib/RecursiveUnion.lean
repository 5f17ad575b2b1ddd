import Mathlib.Data.List.Dedup
import Mathlib.Data.List.Perm.Subperm
import Mathlib.Logic.Relation

namespace Sismo

/-! `WITH RECURSIVE rows AS (rows UNION step)`. -/

variable {α : Type} [DecidableEq α]

/-- New rows are added to the rows until a round adds none. -/
def recursiveUnion (step : α → List α) : (rounds : Nat) → List α → List α
  | 0, rows => rows
  | rounds + 1, rows =>
      let fresh := (rows.flatMap step).dedup.filter (· ∉ rows)
      if fresh = [] then rows
      else recursiveUnion step rounds (rows ++ fresh)

namespace RecursiveUnion

variable {step : α → List α} {rows candidates : List α} {rounds : Nat}

def Steps (step : α → List α) : α → α → Prop :=
  Relation.ReflTransGen fun a b => b ∈ step a

theorem append_fresh_nodup (nodup : rows.Nodup) :
    (rows ++ (rows.flatMap step).dedup.filter (· ∉ rows)).Nodup := by
  apply nodup.append ((List.nodup_dedup _).filter _)
  intro a inRows inFresh
  simp only [List.mem_filter, decide_eq_true_eq] at inFresh
  exact inFresh.2 inRows

theorem mem_fresh {b : α} :
    b ∈ (rows.flatMap step).dedup.filter (· ∉ rows) ↔
      (∃ a ∈ rows, b ∈ step a) ∧ b ∉ rows := by
  simp only [List.mem_filter, List.mem_dedup, List.mem_flatMap,
    decide_eq_true_eq]

theorem nodup (start : rows.Nodup) :
    (recursiveUnion step rounds rows).Nodup := by
  induction rounds generalizing rows with
  | zero => exact start
  | succ rounds induction =>
      unfold recursiveUnion
      dsimp only
      split
      · exact start
      · exact induction (append_fresh_nodup start)

theorem subset {a : α} (member : a ∈ rows) :
    a ∈ recursiveUnion step rounds rows := by
  induction rounds generalizing rows with
  | zero => exact member
  | succ rounds induction =>
      unfold recursiveUnion
      dsimp only
      split
      · exact member
      · exact induction (List.mem_append_left _ member)

theorem sound {b : α} (member : b ∈ recursiveUnion step rounds rows) :
    ∃ a ∈ rows, Steps step a b := by
  induction rounds generalizing rows with
  | zero => exact ⟨b, member, .refl⟩
  | succ rounds induction =>
      unfold recursiveUnion at member
      dsimp only at member
      split at member
      · exact ⟨b, member, .refl⟩
      · obtain ⟨a, inside, path⟩ := induction member
        rcases List.mem_append.mp inside with known | fresh
        · exact ⟨a, known, path⟩
        · obtain ⟨⟨first, known, link⟩, _⟩ := mem_fresh.mp fresh
          exact ⟨first, known, .head link path⟩

/-- With a round for each candidate, the last one adds no row. -/
theorem closed (bounded : ∀ a ∈ candidates, ∀ b ∈ step a, b ∈ candidates)
    (start : rows.Nodup) (inside : ∀ a ∈ rows, a ∈ candidates)
    (enough : candidates.length ≤ rows.length + rounds) {a b : α}
    (member : a ∈ recursiveUnion step rounds rows) (link : b ∈ step a) :
    b ∈ recursiveUnion step rounds rows := by
  induction rounds generalizing rows with
  | zero =>
      have all : rows.Perm candidates :=
        (start.subperm inside).perm_of_length_le enough
      exact all.mem_iff.mpr (bounded a (inside a member) b link)
  | succ rounds induction =>
      unfold recursiveUnion at member ⊢
      dsimp only at member ⊢
      split at member
      · next nothing =>
          rw [if_pos nothing]
          by_contra missing
          have fresh := mem_fresh.mpr ⟨⟨a, member, link⟩, missing⟩
          rw [nothing] at fresh
          cases fresh
      · next something =>
          rw [if_neg something]
          apply induction (append_fresh_nodup start) _ _ member
          · intro c later
            rcases List.mem_append.mp later with known | fresh
            · exact inside c known
            · obtain ⟨⟨first, known, link⟩, _⟩ := mem_fresh.mp fresh
              exact bounded first (inside first known) c link
          · have grown := List.length_pos_of_ne_nil something
            rw [List.length_append]
            omega

theorem mem_iff (bounded : ∀ a ∈ candidates, ∀ b ∈ step a, b ∈ candidates)
    (start : rows.Nodup) (inside : ∀ a ∈ rows, a ∈ candidates)
    (enough : candidates.length ≤ rows.length + rounds) {b : α} :
    b ∈ recursiveUnion step rounds rows ↔ ∃ a ∈ rows, Steps step a b := by
  constructor
  · exact sound
  · rintro ⟨a, member, path⟩
    induction path with
    | refl => exact subset member
    | tail _ link induction =>
        exact closed bounded start inside enough induction link

end RecursiveUnion

end Sismo
