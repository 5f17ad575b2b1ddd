import Sismo.Retain.Capture

namespace Sismo.Retain

open Samples (Bytes UserFrame buildIdSize)
open ModuleRegistry

/-! What each part of the capture's retention can do. -/

namespace Capture

variable {numbers : DeviceNumbers} {world : World} {c next : Capture}
  {m : Mapping}

theorem notePath_frame (c : Capture) (id : Bytes) (path : String) :
    c.notePath id path = { c with
      buildIdPaths := (c.notePath id path).buildIdPaths } := by
  unfold notePath
  split
  · rfl
  · rfl

theorem isExact_iff {pid : Nat} {file : File} :
    isExact numbers m pid file = true ↔
      ∃ inode, file.metadata = some inode ∧
        namesInode numbers (m.key pid) inode = true := by
  unfold isExact
  cases file.metadata with
  | none => simp
  | some inode => simp

/-- An exact open fails, or reads the mapping's own file. -/
theorem openExactMapping_cases {exact : Option (File × Bytes)}
    (opened : c.openExactMapping numbers world m = (exact, next)) :
    ∃ reads, (exact = none ∧ next = { c with reads := reads }) ∨
      ∃ file, exact = some (file, file.buildId.getD []) ∧
        isExact numbers m c.targetPid file = true ∧
        next = { c with reads := reads }.note (.read m file) := by
  unfold openExactMapping openCandidate at opened
  cases first : (world.opens c.reads
      (.mapFile c.targetPid m.start m.end_)).filter
        (isExact numbers m c.targetPid) with
  | some file =>
      rw [first] at opened
      cases opened
      exact ⟨_, .inr ⟨file, rfl, (Option.filter_eq_some_iff.mp first).2, rfl⟩⟩
  | none =>
      rw [first] at opened
      dsimp only at opened
      cases second : (world.opens (c.reads + 1) (.path m.path)).filter
          (isExact numbers m c.targetPid) with
      | some file =>
          rw [second] at opened
          cases opened
          exact ⟨_, .inr
            ⟨file, rfl, (Option.filter_eq_some_iff.mp second).2, rfl⟩⟩
      | none =>
          rw [second] at opened
          cases opened
          exact ⟨_, .inl ⟨rfl, rfl⟩⟩

theorem identify_cases {exact : Option (File × Bytes)} {id : Bytes}
    (identified : c.identify numbers world m = (exact, id, next)) :
    ∃ reads,
      (c.mappingBuildIds.lookup (c.mappingKey m) = some id ∧ exact = none ∧
        next = c) ∨
      (c.mappingBuildIds.lookup (c.mappingKey m) = none ∧ exact = none ∧
        id = [] ∧ next = { c with reads := reads }) ∨
      ∃ file, c.mappingBuildIds.lookup (c.mappingKey m) = none ∧
        exact = some (file, file.buildId.getD []) ∧
        id = file.buildId.getD [] ∧
        isExact numbers m c.targetPid file = true ∧
        next = { c with
          reads := reads
          log := c.log ++ [.read m file]
          mappingBuildIds := c.mappingBuildIds.insert (c.mappingKey m) id } := by
  unfold identify at identified
  dsimp only at identified
  cases cached : c.mappingBuildIds.lookup (c.mappingKey m) with
  | some stored =>
      rw [cached] at identified
      cases identified
      exact ⟨0, .inl ⟨rfl, rfl, rfl⟩⟩
  | none =>
      rw [cached] at identified
      dsimp only at identified
      split at identified
      · cases opened : c.openExactMapping numbers world m with
        | mk result after =>
            rw [opened] at identified
            obtain ⟨reads, ⟨rfl, rfl⟩ | ⟨file, rfl, named, rfl⟩⟩ :=
              openExactMapping_cases opened
            · cases identified
              exact ⟨reads, .inr (.inl ⟨rfl, rfl, rfl, rfl⟩)⟩
            · cases identified
              exact ⟨reads, .inr (.inr ⟨file, rfl, rfl, rfl, named, rfl⟩)⟩
      · cases identified
        exact ⟨c.reads, .inr (.inl ⟨rfl, rfl, rfl, rfl⟩)⟩

end Capture

end Sismo.Retain
