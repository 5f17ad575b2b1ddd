import Sismo.Lib.Visits
import Sismo.Retain.CaptureSteps

namespace Sismo.Retain

open Samples (Bytes UserFrame buildIdSize)
open ModuleRegistry

/-! Where a step looks at the files of mappings, and what it finds there. -/

/-- A mapping that a step comes to, with the state that it has then. -/
inductive Visit where
  /-- The mapping is in a snapshot that is installed. -/
  | catalog (c : Capture) (m : Mapping)
  /-- The mapping has a raw pc, and is opened for it. -/
  | sample (c : Capture) (m : Mapping)

namespace Capture

variable (numbers : DeviceNumbers) (world : World)

/-- The mapped file as the next reads give it: by the target's mapping, or else
by its path. -/
def mappedFile (c : Capture) (m : Mapping) : Option File :=
  ((world.opens c.reads (.mapFile c.targetPid m.start m.end_)).filter
    (isExact numbers m c.targetPid)).or
      ((world.opens (c.reads + 1) (.path m.path)).filter
        (isExact numbers m c.targetPid))

def TakenFor (c : Capture) (m : Mapping) (id : Bytes) : Prop :=
  match c.mappingBuildIds.lookup (c.mappingKey m) with
  | some cached => cached = id
  | none => (c.mappedFile numbers world m).bind File.buildId = some id

instance (c : Capture) (m : Mapping) (id : Bytes) :
    Decidable (c.TakenFor numbers world m id) := by
  unfold TakenFor
  cases c.mappingBuildIds.lookup (c.mappingKey m) with
  | none => exact inferInstance
  | some cached => exact inferInstance

def scanVisits : Capture × Finset Bytes → List Mapping → List Visit :=
  foldVisits (catalog numbers world) fun state m => [.catalog state.1 m]

def installVisits (c : Capture) (maps : List Mapping) : List Visit :=
  scanVisits numbers world (c, c.pendingBuildIds) maps

def refreshVisits (c : Capture) (nowNs : Nat) (force : Bool) : List Visit :=
  if force = false ∧ wrappingSub nowNs c.lastMapsNs < retryNs then []
  else
    match world.maps c.reads with
    | none => []
    | some maps =>
        installVisits numbers world
          { c with
            mapsTried := true, lastMapsNs := nowNs, reads := c.reads + 1 }
          maps

def ensureVisits (c : Capture) (nowNs : Nat) : List Visit :=
  if c.mapsTried then [] else c.refreshVisits numbers world nowNs true

def observeVisits (c : Capture) (frames : List UserFrame) (nowNs : Nat) :
    List Visit :=
  let (marked, newlyObserved, unresolved) := c.markFrames frames
  if newlyObserved then marked.refreshVisits numbers world nowNs true
  else if unresolved then marked.refreshVisits numbers world nowNs false
  else []

def reparseVisits (c : Capture) (pc nowNs : Nat) (reparsed : Bool) :
    List Visit :=
  if (c.findMapping pc).isNone ∧ reparsed = false then
    c.refreshVisits numbers world nowNs false
  else []

def sampleVisits (c : Capture) (pid pc nowNs : Nat) : List Visit :=
  let c := c.note (.pc pid pc (c.maps.getD []))
  match c.findMapping pc with
  | none => []
  | some m => if c.isDue m nowNs then [.sample c m] else []

def frameVisits (pid nowNs : Nat) (state : Capture × Bool) :
    UserFrame → List Visit
  | .buildIdOffset _ _ => []
  | .rawIp pc =>
      if pc = 0 then []
      else
        let (c, reparsed) := state
        c.reparseVisits numbers world pc nowNs reparsed ++
          (c.reparse numbers world pc nowNs reparsed).sampleVisits pid pc nowNs

def observed (c : Capture) (frames : List UserFrame) (nowNs : Nat) : Capture :=
  let c := c.observeBuildIds numbers world frames nowNs
  if frames.any isRawIp then c.ensureMaps numbers world nowNs else c

def stackVisits (c : Capture) (frames : List UserFrame) (pid nowNs : Nat) :
    List Visit :=
  c.observeVisits numbers world frames nowNs ++
    (if frames.any isRawIp then
      (c.observeBuildIds numbers world frames nowNs).ensureVisits numbers world
        nowNs
    else []) ++
    foldVisits (resolveFrame numbers world pid nowNs)
      (frameVisits numbers world pid nowNs)
      (c.observed numbers world frames nowNs, false) frames

def visits (c : Capture) : Event → List Visit
  | .installMaps maps => c.installVisits numbers world maps
  | .refreshMaps nowNs force => c.refreshVisits numbers world nowNs force
  | .observeBuildIds frames nowNs =>
      c.observeVisits numbers world frames nowNs
  | .internCallstack frames pid nowNs =>
      c.stackVisits numbers world frames pid nowNs

variable {numbers world}

variable (numbers world) in
theorem openExactMapping_eq (c : Capture) (m : Mapping) :
    (c.openExactMapping numbers world m).1 =
      (c.mappedFile numbers world m).map fun file =>
        (file, file.buildId.getD []) := by
  unfold openExactMapping openCandidate mappedFile
  cases (world.opens c.reads (.mapFile c.targetPid m.start m.end_)).filter
      (isExact numbers m c.targetPid) with
  | some file => rfl
  | none =>
      cases second : (world.opens (c.reads + 1) (.path m.path)).filter
          (isExact numbers m c.targetPid) with
      | some file => simp [second]
      | none => simp [second]

theorem identify_takenFor {c : Capture} {m : Mapping} {id : Bytes}
    (demand : c.observedBuildIds ≠ ∅) (real : id ≠ []) :
    (c.identify numbers world m).2.1 = id ↔ c.TakenFor numbers world m id := by
  unfold identify TakenFor
  dsimp only
  cases c.mappingBuildIds.lookup (c.mappingKey m) with
  | some cached => exact Iff.rfl
  | none =>
      dsimp only
      rw [if_pos (.inl demand)]
      have opened := openExactMapping_eq numbers world c m
      generalize c.openExactMapping numbers world m = result at opened ⊢
      obtain ⟨result, next⟩ := result
      dsimp only at opened
      subst opened
      cases c.mappedFile numbers world m with
      | none =>
          constructor
          · intro empty
            exact absurd empty.symm real
          · intro some
            cases some
      | some file =>
          change file.buildId.getD [] = id ↔ file.buildId = some id
          cases file.buildId with
          | none =>
              constructor
              · intro empty
                exact absurd empty.symm real
              · intro some
                cases some
          | some other => exact Option.some_inj.symm

end Capture

end Sismo.Retain
