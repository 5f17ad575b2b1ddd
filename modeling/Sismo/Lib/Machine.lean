import Mathlib.Data.List.Induction

namespace Sismo

/-! Machines given by a partial step function, and the runs of one. -/

namespace Machine

variable {σ : Type u} {α : Type v}

def run (step : σ → α → Option σ) : σ → List α → Option σ
  | state, [] => some state
  | state, action :: rest =>
      match step state action with
      | none => none
      | some next => run step next rest

def Reachable (step : σ → α → Option σ) (initial state : σ) : Prop :=
  ∃ actions, run step initial actions = some state

/-- Every step of a run meets the condition in the state it starts from. -/
def Along (step : σ → α → Option σ) (condition : σ → α → Prop) :
    σ → List α → Prop
  | _, [] => True
  | state, action :: rest =>
      condition state action ∧
        ∀ next, step state action = some next → Along step condition next rest

variable {step : σ → α → Option σ} {condition : σ → α → Prop}

theorem run_cons {state final : σ} {action : α} {rest : List α} :
    run step state (action :: rest) = some final ↔
      ∃ next, step state action = some next ∧
        run step next rest = some final := by
  rw [run]
  cases stepped : step state action with
  | none => simp
  | some next => simp

theorem along_cons {state next : σ} {action : α} {rest : List α}
    (holds : condition state action) (stepped : step state action = some next)
    (remaining : Along step condition next rest) :
    Along step condition state (action :: rest) := by
  refine ⟨holds, fun other same => ?_⟩
  cases stepped.symm.trans same
  exact remaining

theorem run_append {state final : σ} {first second : List α} :
    run step state (first ++ second) = some final ↔
      ∃ middle, run step state first = some middle ∧
        run step middle second = some final := by
  induction first generalizing state with
  | nil => simp [run]
  | cons action rest induction =>
      rw [List.cons_append, run_cons]
      constructor
      · rintro ⟨next, stepped, remaining⟩
        obtain ⟨middle, reached, final⟩ := induction.mp remaining
        exact ⟨middle, run_cons.mpr ⟨next, stepped, reached⟩, final⟩
      · rintro ⟨middle, reached, final⟩
        obtain ⟨next, stepped, remaining⟩ := run_cons.mp reached
        exact ⟨next, stepped, induction.mpr ⟨middle, remaining, final⟩⟩

theorem along_of_forall {state : σ} {actions : List α}
    (always : ∀ state, ∀ action ∈ actions, condition state action) :
    Along step condition state actions := by
  induction actions generalizing state with
  | nil => trivial
  | cons action rest induction =>
      exact ⟨always state action List.mem_cons_self, fun next _ =>
        induction fun state other member =>
          always state other (List.mem_cons_of_mem action member)⟩

theorem along_append {state : σ} {first second : List α}
    (along : Along step condition state first)
    (remaining : ∀ middle, run step state first = some middle →
      Along step condition middle second) :
    Along step condition state (first ++ second) := by
  induction first generalizing state with
  | nil => exact remaining state rfl
  | cons action rest induction =>
      refine ⟨along.1, fun next stepped => ?_⟩
      exact induction (along.2 next stepped) fun middle reached =>
        remaining middle (run_cons.mpr ⟨next, stepped, reached⟩)

theorem Along.and {other : σ → α → Prop} {state : σ} {actions : List α}
    (first : Along step condition state actions)
    (second : Along step other state actions) :
    Along step (fun state action => condition state action ∧
      other state action) state actions := by
  induction actions generalizing state with
  | nil => trivial
  | cons action rest induction =>
      exact ⟨⟨first.1, second.1⟩, fun next stepped =>
        induction (first.2 next stepped) (second.2 next stepped)⟩

theorem Reachable.trans {initial state final : σ} {actions : List α}
    (reachable : Reachable step initial state)
    (reached : run step state actions = some final) :
    Reachable step initial final := by
  obtain ⟨before, start⟩ := reachable
  exact ⟨before ++ actions, run_append.mpr ⟨state, start, reached⟩⟩

/-- What holds at first and is kept by every step meeting the condition holds
after every run whose steps all meet it. -/
theorem run_invariant_along {invariant : σ → Prop}
    (preserved : ∀ state action next, invariant state →
      condition state action → step state action = some next →
      invariant next)
    {state final : σ} {actions : List α} (holds : invariant state)
    (along : Along step condition state actions)
    (reached : run step state actions = some final) : invariant final := by
  induction actions generalizing state with
  | nil =>
      cases reached
      exact holds
  | cons action rest induction =>
      obtain ⟨next, stepped, remaining⟩ := run_cons.mp reached
      exact induction (preserved state action next holds along.1 stepped)
        (along.2 next stepped) remaining

theorem Reachable.invariant {invariant : σ → Prop}
    (preserved : ∀ state action next, invariant state →
      step state action = some next → invariant next)
    {initial state : σ} (reachable : Reachable step initial state)
    (holds : invariant initial) : invariant state := by
  obtain ⟨actions, reached⟩ := reachable
  have always : Along step (fun _ _ => True) initial actions := by
    clear reached holds
    induction actions generalizing initial with
    | nil => trivial
    | cons action rest induction =>
        exact ⟨trivial, fun next _ => induction⟩
  exact run_invariant_along
    (fun state action next holds _ => preserved state action next holds)
    holds always reached

end Machine

end Sismo
