import Mathlib.Data.List.Basic

namespace Sismo

/-! What the parts of a fold are about, each taken from the state before it. -/

variable {σ : Type u} {α : Type v} {β : Type w}

def foldVisits (step : σ → α → σ) (visit : σ → α → List β) :
    σ → List α → List β
  | _, [] => []
  | state, part :: rest =>
      visit state part ++ foldVisits step visit (step state part) rest

variable {step : σ → α → σ} {visit : σ → α → List β}
  {invariant settled : σ → Prop} {good wanted : β → Prop}

variable (invariant) in
theorem foldl_keeps
    (keeps : ∀ state part, invariant state →
      (∀ seen ∈ visit state part, good seen) → invariant (step state part))
    {state : σ} {parts : List α} (holds : invariant state)
    (all : ∀ seen ∈ foldVisits step visit state parts, good seen) :
    invariant (parts.foldl step state) := by
  induction parts generalizing state with
  | nil => exact holds
  | cons part rest induction =>
      have here := keeps state part holds fun seen member =>
        all seen (List.mem_append_left _ member)
      exact induction here fun seen member =>
        all seen (List.mem_append_right _ member)

variable (settled) in
/-- What every part keeps, and brings about by a wanted visit, holds after a
fold that starts with it or has such a visit. -/
theorem foldl_settles
    (preserved : ∀ state part, invariant state → invariant (step state part))
    (settles : ∀ state part, invariant state →
      (∀ seen ∈ visit state part, good seen) →
      settled state ∨ (∃ seen ∈ visit state part, wanted seen) →
      settled (step state part))
    {state : σ} {parts : List α} (holds : invariant state)
    (all : ∀ seen ∈ foldVisits step visit state parts, good seen)
    (either : settled state ∨
      ∃ seen ∈ foldVisits step visit state parts, wanted seen) :
    settled (parts.foldl step state) := by
  induction parts generalizing state with
  | nil =>
      obtain already | ⟨seen, member, -⟩ := either
      · exact already
      · cases member
  | cons part rest induction =>
      have here := settles state part holds fun seen member =>
        all seen (List.mem_append_left _ member)
      have later : ∀ seen ∈ foldVisits step visit (step state part) rest,
          good seen := fun seen member =>
        all seen (List.mem_append_right _ member)
      apply induction (preserved state part holds) later
      obtain already | ⟨seen, member, sought⟩ := either
      · exact .inl (here (.inl already))
      · obtain now | after := List.mem_append.mp member
        · exact .inl (here (.inr ⟨seen, now, sought⟩))
        · exact .inr ⟨seen, after, sought⟩

end Sismo
