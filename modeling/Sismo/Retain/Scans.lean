import Sismo.Retain.History
import Sismo.Retain.Visits

namespace Sismo.Retain

open Samples (Bytes UserFrame buildIdSize)
open ModuleRegistry

/-! What a scan of the maps can change, and which ids it retains. -/

/-- Some mapping that carries the id is in the registry and needs no exact
retry. -/
def Retained (c : Capture) (id : Bytes) : Prop :=
  ∃ m, Note.identified m id ∈ c.log ∧
    c.modules.needsExactRetry (c.mappingKey m) id m.path = false ∧
    (c.modules.entries.lookup (c.mappingKey m)).isSome

def Note.carrier (id : Bytes) : Note → Option Mapping
  | .identified m other => if other = id then some m else none
  | _ => none

theorem Note.carrier_eq_some {id : Bytes} {note : Note} {m : Mapping} :
    note.carrier id = some m ↔ note = .identified m id := by
  cases note with
  | identified other otherId =>
      rw [Note.carrier, Option.ite_none_right_eq_some, Option.some_inj,
        Note.identified.injEq]
      exact And.comm
  | frame buildId => simp [Note.carrier]
  | pc pid pc maps => simp [Note.carrier]
  | read m file => simp [Note.carrier]

instance (c : Capture) (id : Bytes) : Decidable (Retained c id) :=
  decidable_of_iff (∃ m ∈ c.log.filterMap (Note.carrier id),
    c.modules.needsExactRetry (c.mappingKey m) id m.path = false ∧
      (c.modules.entries.lookup (c.mappingKey m)).isSome) (by
    simp [Retained, List.mem_filterMap, Note.carrier_eq_some])

/-- The id is retained, or a sample with it asks for a scan. -/
def Demanded (c : Capture) (pending : Finset Bytes) (id : Bytes) : Prop :=
  Retained c id ∨ c.buildIdPaths.lookup id = none ∨ id ∈ pending

instance (c : Capture) (pending : Finset Bytes) (id : Bytes) :
    Decidable (Demanded c pending id) :=
  inferInstanceAs (Decidable (_ ∨ _))

/-- A part of a scan, in which only some ids are shown. -/
structure Scan (shown : Bytes → Prop) (c next : Capture) : Prop where
  targetPid : next.targetPid = c.targetPid
  observed : next.observedBuildIds = c.observedBuildIds
  pending : next.pendingBuildIds = c.pendingBuildIds
  lastMapsNs : next.lastMapsNs = c.lastMapsNs
  modules : ModuleRegistry.Extends c.modules next.modules
  grows : c.log ⊆ next.log
  paths : ∀ id, next.buildIdPaths.lookup id = c.buildIdPaths.lookup id ∨
    shown id ∧ id.length = buildIdSize
  known : ∀ id, c.buildIdPaths.lookup id ≠ none →
    next.buildIdPaths.lookup id ≠ none

namespace Scan

variable {shown other : Bytes → Prop} {c middle next : Capture}

theorem refl (shown : Bytes → Prop) (c : Capture) : Scan shown c c where
  targetPid := rfl
  observed := rfl
  pending := rfl
  lastMapsNs := rfl
  modules := .refl _
  grows := List.Subset.refl _
  paths _ := .inl rfl
  known _ known := known

theorem trans (first : Scan shown c middle) (second : Scan shown middle next) :
    Scan shown c next where
  targetPid := second.targetPid.trans first.targetPid
  observed := second.observed.trans first.observed
  pending := second.pending.trans first.pending
  lastMapsNs := second.lastMapsNs.trans first.lastMapsNs
  modules := first.modules.trans second.modules
  grows := List.Subset.trans first.grows second.grows
  paths id := by
    obtain same | shown := second.paths id
    · exact (first.paths id).imp_left fun before => same.trans before
    · exact .inr shown
  known id before := second.known id (first.known id before)

theorem imp (weaker : ∀ id, shown id → other id) (scan : Scan shown c next) :
    Scan other c next :=
  { scan with
    paths := fun id => (scan.paths id).imp_right fun new =>
      ⟨weaker id new.1, new.2⟩ }

theorem mappingKey (scan : Scan shown c next) (m : Mapping) :
    next.mappingKey m = c.mappingKey m := by
  unfold Capture.mappingKey
  rw [scan.targetPid]

end Scan

theorem Retained.mono {c next : Capture} {id : Bytes} (retained : Retained c id)
    (pid : next.targetPid = c.targetPid) (grows : c.log ⊆ next.log)
    (extended : ModuleRegistry.Extends c.modules next.modules) :
    Retained next id := by
  obtain ⟨m, noted, settled, known⟩ := retained
  have key : next.mappingKey m = c.mappingKey m := by
    unfold Capture.mappingKey
    rw [pid]
  refine ⟨m, grows noted, ?_, ?_⟩
  · rw [key]
    exact needsExactRetry_of_extends extended settled
  · rw [key]
    obtain ⟨e, found⟩ := Option.isSome_iff_exists.mp known
    obtain ⟨later, found', -⟩ := extended.entry _ e found
    exact Option.isSome_iff_exists.mpr ⟨later, found'⟩

theorem Retained.later {shown : Bytes → Prop} {c next : Capture} {id : Bytes}
    (retained : Retained c id) (scan : Scan shown c next) : Retained next id :=
  retained.mono scan.targetPid scan.grows scan.modules

/-! ### The parts of a scan -/

section Parts

variable {numbers : DeviceNumbers} {world : World} {shown : Bytes → Prop}
  {c next : Capture} {m : Mapping}

theorem openExactMapping_scan {exact : Option (File × Bytes)}
    (opened : c.openExactMapping numbers world m = (exact, next)) :
    Scan shown c next := by
  obtain ⟨reads, ⟨-, rfl⟩ | ⟨file, -, -, rfl⟩⟩ :=
    Capture.openExactMapping_cases opened
  · exact { Scan.refl shown c with }
  · exact { Scan.refl shown c with grows := List.subset_append_left _ _ }

theorem identify_scan {exact : Option (File × Bytes)} {id : Bytes}
    (identified : c.identify numbers world m = (exact, id, next)) :
    Scan shown c next := by
  obtain ⟨reads, ⟨-, -, rfl⟩ | ⟨-, -, -, rfl⟩ | ⟨file, -, -, -, -, rfl⟩⟩ :=
    Capture.identify_cases identified
  · exact .refl shown _
  · exact { Scan.refl shown c with }
  · exact { Scan.refl shown c with grows := List.subset_append_left _ _ }

theorem notePath_lookup (c : Capture) (id : Bytes) (path : String)
    (other : Bytes) :
    (c.notePath id path).buildIdPaths.lookup other =
      if other = id ∧ id.length = buildIdSize ∧
          c.buildIdPaths.lookup id = none then some path
      else c.buildIdPaths.lookup other := by
  unfold Capture.notePath
  split
  · next new =>
      dsimp only
      rw [HashMap.lookup_insert_eq]
      by_cases same : other = id
      · rw [if_pos same, if_pos ⟨same, new⟩]
      · rw [if_neg same, if_neg fun both => same both.1]
  · next old => rw [if_neg fun both => old both.2]

theorem notePath_scan (c : Capture) (id : Bytes) (path : String) :
    Scan (· = id) c (c.notePath id path) := by
  have frame := Capture.notePath_frame c id path
  refine
    { targetPid := by rw [frame]
      observed := by rw [frame]
      pending := by rw [frame]
      lastMapsNs := by rw [frame]
      modules := by rw [frame]; exact .refl _
      grows := by rw [frame]; exact List.Subset.refl _
      paths := fun other => ?_
      known := fun other known => ?_ }
  · rw [notePath_lookup]
    split
    · next new => exact .inr ⟨new.1, by rw [new.1]; exact new.2.1⟩
    · exact .inl rfl
  · rw [notePath_lookup]
    split
    · simp
    · exact known

theorem identified_scan (c : Capture) (m : Mapping) (id : Bytes) :
    Scan (· = id) c (c.note (.identified m id)) :=
  { Scan.refl (· = id) c with grows := List.subset_append_left _ _ }

theorem register_scan (call : Call) {id : Bytes} {registry : ModuleRegistry}
    (applied : call.apply numbers c.modules = (id, registry)) (reads : Nat) :
    Scan shown c { c with modules := registry, reads := reads } :=
  { Scan.refl shown c with modules := apply_extends applied }

theorem registerMapping_scan {id : Bytes} {exact : Option (File × Bytes)} :
    Scan shown c (c.registerMapping numbers world m id exact) := by
  cases exact with
  | none =>
      exact register_scan
        (.registerExact (c.mappingKey m) id m.path
          (world.opens c.reads (.path m.path))) rfl (c.reads + 1)
  | some result =>
      exact register_scan
        (.registerExactFile (c.mappingKey m) result.2 m.path result.1)
        rfl c.reads

theorem registerMapping_cached {id : Bytes}
    {exact : Option (File × Bytes)} :
    (c.registerMapping numbers world m id exact).mappingBuildIds =
      c.mappingBuildIds := by
  cases exact with
  | none => rfl
  | some result => rfl

theorem retain_cached {id : Bytes} {exact : Option (File × Bytes)} :
    (c.retain numbers world m id exact).mappingBuildIds =
      c.mappingBuildIds := by
  unfold Capture.retain
  split
  · cases exact with
    | some result => exact registerMapping_cached
    | none =>
        obtain ⟨⟨result, after⟩, opened⟩ : ∃ result,
            c.openExactMapping numbers world m = result := ⟨_, rfl⟩
        rw [opened]
        obtain ⟨reads, ⟨-, rfl⟩ | ⟨file, -, -, rfl⟩⟩ :=
          Capture.openExactMapping_cases opened
        · exact registerMapping_cached
        · exact registerMapping_cached
  · rfl

theorem registerMapping_known {id : Bytes} {exact : Option (File × Bytes)} :
    ((c.registerMapping numbers world m id exact).modules.entries.lookup
      (c.mappingKey m)).isSome := by
  cases exact with
  | none =>
      obtain ⟨e, found, -⟩ := apply_settles
        (show (Call.registerExact (c.mappingKey m) id m.path
          (world.opens c.reads (.path m.path))).apply numbers c.modules = _
          from rfl)
      exact Option.isSome_iff_exists.mpr ⟨e, found⟩
  | some result =>
      obtain ⟨e, found, -⟩ := apply_settles
        (show (Call.registerExactFile (c.mappingKey m) result.2 m.path
          result.1).apply numbers c.modules = _ from rfl)
      exact Option.isSome_iff_exists.mpr ⟨e, found⟩

theorem retain_scan {id : Bytes} {exact : Option (File × Bytes)} :
    Scan shown c (c.retain numbers world m id exact) := by
  unfold Capture.retain
  split
  · cases exact with
    | some result => exact registerMapping_scan
    | none =>
        obtain ⟨⟨result, after⟩, opened⟩ : ∃ result,
            c.openExactMapping numbers world m = result := ⟨_, rfl⟩
        rw [opened]
        exact (openExactMapping_scan opened).trans registerMapping_scan
  · exact .refl shown c

/-- A mapping that the policy holds is in the registry after it could be
retained. -/
theorem retain_known {id : Bytes} {exact : Option (File × Bytes)}
    (held : c.modules.shouldHold m.path = true ∨
      (c.modules.entries.lookup (c.mappingKey m)).isSome) :
    ((c.retain numbers world m id exact).modules.entries.lookup
      (c.mappingKey m)).isSome := by
  have scan : Scan (fun _ => True) c (c.retain numbers world m id exact) :=
    retain_scan
  unfold Capture.retain at scan ⊢
  split at scan
  · next needed =>
      rw [if_pos needed]
      cases exact with
      | some result => exact registerMapping_known
      | none =>
          obtain ⟨⟨result, after⟩, opened⟩ : ∃ result,
              c.openExactMapping numbers world m = result := ⟨_, rfl⟩
          rw [opened]
          have scan : Scan (fun _ => True) c after :=
            openExactMapping_scan opened
          rw [← scan.mappingKey m]
          exact registerMapping_known
  · next needless =>
      rw [if_neg needless]
      obtain holds | known := held
      · unfold needsExactRetry at needless
        rw [if_pos holds] at needless
        cases found : c.modules.entries.lookup (c.mappingKey m) with
        | none =>
            rw [found] at needless
            exact absurd rfl needless
        | some e => rfl
      · exact known

end Parts

end Sismo.Retain
