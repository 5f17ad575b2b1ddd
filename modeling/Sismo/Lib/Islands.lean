import Mathlib.Algebra.BigOperators.Group.List.Basic
import Mathlib.Algebra.Ring.Nat
import Sismo.Lib.Window

namespace Sismo

/-! Runs of one value at consecutive places of a partition, numbered by the
rows that start them. -/

variable {α κ β : Type*} {partition : α → κ} {order : α → Nat} {value : α → β}

def runningSum [DecidableEq κ] (partition : α → κ) (order : α → Nat)
    (rows : List α) (amount : α → Nat) (row : α) : Nat :=
  ((rows.filter fun other =>
    partition other = partition row ∧ order other ≤ order row).map amount).sum

/-- Whether a row starts a run: it is the first of its partition, its value is
new, or there is a gap before it. -/
def isNewRun [DecidableEq κ] [DecidableEq β] (partition : α → κ)
    (order : α → Nat) (value : α → β) (rows : List α) (row : α) : Nat :=
  match lag partition order rows row with
  | none => 1
  | some previous =>
      if value row ≠ value previous then 1
      else if order row - order previous ≠ 1 then 1
      else 0

def runId [DecidableEq κ] [DecidableEq β] (partition : α → κ)
    (order : α → Nat) (value : α → β) (rows : List α) (row : α) : Nat :=
  runningSum partition order rows (isNewRun partition order value rows) row

section

variable [DecidableEq κ] {rows : List α}

/-- What a running sum gains from one row to a later one. -/
theorem runningSum_le {amount : α → Nat} {first second : α}
    (same : partition first = partition second)
    (le : order first ≤ order second) :
    runningSum partition order rows amount second =
      runningSum partition order rows amount first +
        ((rows.filter fun other => partition other = partition first ∧
          order first < order other ∧ order other ≤ order second).map
            amount).sum := by
  apply sum_filter_eq_add
  · intro other _
    grind
  · intro other _ before
    grind

theorem runningSum_eq_iff {amount : α → Nat} {first second : α}
    (same : partition first = partition second)
    (le : order first ≤ order second) :
    runningSum partition order rows amount first =
        runningSum partition order rows amount second ↔
      ∀ row ∈ rows, partition row = partition first →
        order first < order row → order row ≤ order second →
        amount row = 0 := by
  rw [runningSum_le same le, Nat.left_eq_add,
    List.sum_eq_zero_iff_forall_eq_nat, List.forall_mem_map]
  simp only [List.mem_filter, decide_eq_true_eq]
  constructor
  · intro zero row member part after before
    exact zero row ⟨member, part, after, before⟩
  · rintro zero row ⟨member, part, after, before⟩
    exact zero row member part after before

/-- A row that does not start a run follows one with its value. -/
theorem isNewRun_eq_zero [DecidableEq β] {row : α}
    (old : isNewRun partition order value rows row = 0) :
    ∃ previous, Precedes partition order rows previous row ∧
      value row = value previous ∧ order row = order previous + 1 := by
  unfold isNewRun at old
  split at old
  · cases old
  · next previous found =>
      have precedes := precedes_of_lag found
      have before := precedes.before
      split_ifs at old with changed gap
      refine ⟨previous, precedes, ?_, ?_⟩
      · simpa using changed
      · omega

theorem isNewRun_of_follows [DecidableEq β]
    (distinct : ∀ first ∈ rows, ∀ second ∈ rows,
      partition first = partition second → order first = order second →
      first = second)
    {row previous : α} (member : previous ∈ rows)
    (part : partition previous = partition row)
    (follows : order row = order previous + 1)
    (same : value row = value previous) :
    isNewRun partition order value rows row = 0 := by
  unfold isNewRun
  split
  · next none =>
      have := lag_eq_none_iff.mp none previous member part
      omega
  · next found =>
      have precedes := precedes_of_lag found
      have latest := precedes.last previous member part (by omega)
      have before := precedes.before
      have equal := distinct _ precedes.member _ member
        (precedes.same.trans part.symm) (by omega)
      rw [equal, if_neg (by simpa using same), if_neg (by omega)]

variable (value) in
/-- Two rows of a partition are in one run when every place between them has a
row with the one value. -/
theorem runId_eq_iff [DecidableEq β]
    (distinct : ∀ first ∈ rows, ∀ second ∈ rows,
      partition first = partition second → order first = order second →
      first = second)
    {first second : α} (firstMem : first ∈ rows) (secondMem : second ∈ rows)
    (same : partition first = partition second)
    (le : order first ≤ order second) :
    runId partition order value rows first =
        runId partition order value rows second ↔
      ∀ place, order first ≤ place → place ≤ order second →
        ∃ row ∈ rows, partition row = partition first ∧
          order row = place ∧ value row = value first := by
  unfold runId
  rw [runningSum_eq_iff same le]
  constructor
  · intro old place after
    induction place, after using Nat.le_induction with
    | base => exact fun _ => ⟨first, firstMem, rfl, rfl, rfl⟩
    | succ place after induction =>
        intro before
        obtain ⟨here, hereMem, herePart, herePlace, hereValue⟩ :=
          induction (by omega)
        -- The first row after this place continues the run.
        cases found : lead partition order rows here with
        | none =>
            have last := lead_eq_none_iff.mp found second secondMem
              (same.symm.trans herePart.symm)
            omega
        | some next =>
            obtain ⟨nextMem, nextPart, nextAfter, least⟩ := lead_eq_some found
            have within := least second secondMem
              (same.symm.trans herePart.symm) (by omega)
            obtain ⟨previous, precedes, sameValue, nextPlace⟩ :=
              isNewRun_eq_zero (old next nextMem (nextPart.trans herePart)
                (by omega) within)
            have latest := precedes.last here hereMem nextPart.symm nextAfter
            have part := precedes.same.trans nextPart
            have notLater : order previous ≤ order here := by
              by_contra later
              have := least previous precedes.member part (by omega)
              have := precedes.before
              omega
            have equal := distinct previous precedes.member here hereMem part
              (Nat.le_antisymm notLater latest)
            refine ⟨next, nextMem, nextPart.trans herePart, ?_, ?_⟩
            · rw [nextPlace, equal, herePlace]
            · rw [sameValue, equal, hereValue]
  · intro filled row member part after before
    obtain ⟨here, hereMem, herePart, herePlace, hereValue⟩ :=
      filled (order row) after.le before
    obtain ⟨previous, previousMem, previousPart, previousPlace,
      previousValue⟩ := filled (order row - 1) (by omega) (by omega)
    have equal := distinct here hereMem row member (herePart.trans part.symm)
      herePlace
    subst equal
    exact isNewRun_of_follows distinct previousMem
      (previousPart.trans part.symm) (by omega)
      (hereValue.trans previousValue.symm)

end

end Sismo
