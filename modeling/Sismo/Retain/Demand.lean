import Sismo.Retain.Scans

namespace Sismo.Retain

open Samples (Bytes UserFrame buildIdSize)
open ModuleRegistry

/-! The demand for a sampled build id is kept until its module is retained. -/

/-- The next sample with a frame of the id asks for a scan, and one is made if
the cooldown has passed. -/
def Retryable (numbers : DeviceNumbers) (world : World) (c : Capture)
    (id : Bytes) : Prop :=
  ∀ frames offset nowNs, UserFrame.buildIdOffset id offset ∈ frames →
    (c.markFrames frames).2.2 = true ∧
      (retryNs ≤ wrappingSub nowNs c.lastMapsNs →
        (c.observeBuildIds numbers world frames nowNs).lastMapsNs = nowNs)

/-- No demand is forgotten. -/
def KeepsDemand (numbers : DeviceNumbers) (world : World) (c : Capture) :
    Prop :=
  ∀ id ∈ c.observedBuildIds, Retained c id ∨ Retryable numbers world c id

/-! ### When a step keeps the demand for an id -/

section Conditions

variable (numbers : DeviceNumbers) (world : World) (id : Bytes)

/-- A mapping that is found to have the sampled id is one that the registry
knows or is to hold; and for one that a raw pc shows to have it, a descriptor
can be held, or is not needed. -/
def Visit.Takes : Visit → Prop
  | .catalog c m =>
      id ∈ c.observedBuildIds → c.TakenFor numbers world m id →
        c.modules.shouldHold m.path = true ∨
          (c.modules.entries.lookup (c.mappingKey m)).isSome = true
  | .sample c m =>
      ∀ file ∈ c.mappedFile numbers world m, file.buildId = some id →
        Retained c id ∨ id ∈ c.pendingBuildIds ∨
          c.modules.needsExactRetry (c.mappingKey m) id m.path = false ∨
          ∀ inode ∈ file.metadata, c.modules.HasRoom inode

def Visit.Shows : Visit → Prop
  | .catalog c m => id.length = buildIdSize ∧ c.TakenFor numbers world m id
  | .sample _ _ => False

instance : DecidablePred (Visit.Takes numbers world id)
  | .catalog _ _ => inferInstanceAs (Decidable (_ → _ → _))
  | .sample _ _ => inferInstanceAs (Decidable (∀ file ∈ _, _ → _))

instance : DecidablePred (Visit.Shows numbers world id)
  | .catalog _ _ => inferInstanceAs (Decidable (_ ∧ _))
  | .sample _ _ => inferInstanceAs (Decidable False)

def carriedBy : UserFrame → Bool
  | .buildIdOffset buildId _ => buildId = id
  | .rawIp _ => false

/-- An id that a frame carries for the first time is demanded already, or the
scan that is forced for it shows it. -/
def Answers (c : Capture) (frames : List UserFrame) (nowNs : Nat) : Prop :=
  frames.any (carriedBy id) = true → id ∉ c.observedBuildIds →
    Demanded c c.pendingBuildIds id ∨
      ∃ seen ∈ c.observeVisits numbers world frames nowNs,
        seen.Shows numbers world id

instance (c : Capture) (frames : List UserFrame) (nowNs : Nat) :
    Decidable (Answers numbers world id c frames nowNs) :=
  inferInstanceAs (Decidable (_ → _ → _))

def Meets (c : Capture) (event : Event) : Prop :=
  (∀ seen ∈ c.visits numbers world event, seen.Takes numbers world id) ∧
    match event with
    | .observeBuildIds frames nowNs | .internCallstack frames _ nowNs =>
        Answers numbers world id c frames nowNs
    | _ => True

instance (c : Capture) (event : Event) :
    Decidable (Meets numbers world id c event) := by
  unfold Meets
  cases event with
  | installMaps maps => exact inferInstance
  | refreshMaps nowNs force => exact inferInstance
  | observeBuildIds frames nowNs => exact inferInstance
  | internCallstack frames pid nowNs => exact inferInstance

def steps (c : Capture) (events : List Event) : List (Capture × Event) :=
  foldVisits (Capture.act numbers world) (fun c event => [(c, event)]) c events

end Conditions

/-! ### Scans -/

section Scans

variable {numbers : DeviceNumbers} {world : World} {c : Capture}
  {pending : Finset Bytes} {id : Bytes}

theorem catalog_scan {m : Mapping} {shown : Bytes}
    (shows : (c.identify numbers world m).2.1 = shown) :
    Scan (· = shown) c (Capture.catalog numbers world (c, pending) m).1 ∧
      (∀ other, other ≠ shown ∨ shown.length ≠ buildIdSize →
        (other ∈ (Capture.catalog numbers world (c, pending) m).2 ↔
          other ∈ pending)) ∧
      (shown ∈ c.observedBuildIds → shown.length = buildIdSize →
        c.modules.shouldHold m.path = true ∨
          (c.modules.entries.lookup (c.mappingKey m)).isSome = true →
        Demanded (Capture.catalog numbers world (c, pending) m).1
          (Capture.catalog numbers world (c, pending) m).2 shown) := by
  obtain ⟨⟨exact, id, middle⟩, identified⟩ : ∃ result,
      c.identify numbers world m = result := ⟨_, rfl⟩
  rw [identified] at shows
  cases shows
  have first : Scan (· = id) c middle := identify_scan identified
  have second : Scan (· = id) c
      ((middle.notePath id m.path).note (.identified m id)) :=
    (first.trans (notePath_scan middle id m.path)).trans
      (identified_scan _ m id)
  have noted : Note.identified m id ∈
      ((middle.notePath id m.path).note (.identified m id)).log :=
    List.mem_append_right _ List.mem_cons_self
  unfold Capture.catalog
  dsimp only
  rw [identified]
  dsimp only
  generalize (middle.notePath id m.path).note (.identified m id) = named
    at second noted ⊢
  have third : Scan (· = id) named
      (named.retain numbers world m id exact) := retain_scan
  split
  · split
    · next size =>
        split
        · refine ⟨second.trans third, fun other unlike => ?_,
            fun _ _ _ => .inr (.inr (Finset.mem_insert_self _ _))⟩
          have distinct : other ≠ id :=
            unlike.resolve_right fun other => other size
          simp [distinct]
        · next settled =>
            have settled := Bool.not_eq_true _ ▸ settled
            refine ⟨second.trans third, fun other unlike => ?_,
              fun _ _ held => .inl ⟨m, third.grows noted, ?_, ?_⟩⟩
            · have distinct : other ≠ id :=
                unlike.resolve_right fun other => other size
              simp [distinct]
            · rwa [third.mappingKey]
            · rw [third.mappingKey]
              apply retain_known
              refine held.imp (fun holds => ?_) fun known => ?_
              · rwa [shouldHold_of_extends second.modules]
              · obtain ⟨e, found⟩ := Option.isSome_iff_exists.mp known
                obtain ⟨later, found', -⟩ := second.modules.entry _ e found
                rw [second.mappingKey]
                exact Option.isSome_iff_exists.mpr ⟨later, found'⟩
    · next size =>
        exact ⟨second.trans third, fun _ _ => Iff.rfl,
          fun _ sized => absurd sized size⟩
  · next unsampled =>
      refine ⟨second, fun _ _ => Iff.rfl, fun observed size => ?_⟩
      have observed : id ∈ named.observedBuildIds := by
        rwa [second.observed]
      exact absurd (decide_eq_true (.inr ⟨size, observed⟩)) unsampled

/-- Every 20-byte id that is cached for a mapping has a path. -/
def CachedPaths (c : Capture) : Prop :=
  ∀ key id, c.mappingBuildIds.lookup key = some id →
    id.length = buildIdSize → c.buildIdPaths.lookup id ≠ none

theorem notePath_known (c : Capture) {id : Bytes} (path : String)
    (size : id.length = buildIdSize) :
    (c.notePath id path).buildIdPaths.lookup id ≠ none := by
  rw [notePath_lookup]
  split
  · simp
  · next old =>
      intro unknown
      exact old ⟨rfl, size, unknown⟩

theorem CachedPaths.later {shown : Bytes → Prop} {next : Capture}
    (cached : CachedPaths c) (scan : Scan shown c next)
    (same : next.mappingBuildIds = c.mappingBuildIds) : CachedPaths next := by
  intro key id found size
  rw [same] at found
  exact scan.known id (cached key id found size)

theorem CachedPaths.catalog {m : Mapping} (cached : CachedPaths c) :
    CachedPaths (Capture.catalog numbers world (c, pending) m).1 := by
  obtain ⟨⟨exact, id, middle⟩, identified⟩ : ∃ result,
      c.identify numbers world m = result := ⟨_, rfl⟩
  have named : CachedPaths
      ((middle.notePath id m.path).note (.identified m id)) := by
    intro key other found size
    have scan : Scan (fun _ => True) c middle := identify_scan identified
    have kept : ∀ other, c.buildIdPaths.lookup other ≠ none →
        (middle.notePath id m.path).buildIdPaths.lookup other ≠ none :=
      fun other known =>
        (notePath_scan middle id m.path).known other (scan.known other known)
    have stored : middle.mappingBuildIds.lookup key = some other := by
      rw [Capture.notePath_frame] at found
      exact found
    obtain ⟨reads, ⟨-, -, rfl⟩ | ⟨-, -, -, rfl⟩ | ⟨file, -, -, rfl, -, rfl⟩⟩ :=
      Capture.identify_cases identified
    · exact kept other (cached key other stored size)
    · exact kept other (cached key other stored size)
    · dsimp only at stored
      rw [HashMap.lookup_insert_eq] at stored
      split at stored
      · cases stored
        exact notePath_known _ _ size
      · exact kept other (cached key other stored size)
  unfold Capture.catalog
  dsimp only
  rw [identified]
  dsimp only
  generalize (middle.notePath id m.path).note (.identified m id) = after
    at named ⊢
  have retained : CachedPaths (after.retain numbers world m id exact) :=
    named.later (show Scan (fun _ => True) after _ from retain_scan)
      retain_cached
  split
  · split
    · split
      · exact retained
      · exact retained
    · exact retained
  · exact named

theorem Demanded.catalog {m : Mapping} (observed : id ∈ c.observedBuildIds)
    (takes : (Visit.catalog c m).Takes numbers world id)
    (either : Demanded c pending id ∨
      (Visit.catalog c m).Shows numbers world id) :
    Demanded (Capture.catalog numbers world (c, pending) m).1
      (Capture.catalog numbers world (c, pending) m).2 id := by
  have demand : c.observedBuildIds ≠ ∅ := Finset.ne_empty_of_mem observed
  obtain ⟨shown, shows⟩ : ∃ shown, (c.identify numbers world m).2.1 = shown :=
    ⟨_, rfl⟩
  obtain ⟨scan, kept, answered⟩ := catalog_scan shows
  have taken : id.length = buildIdSize →
      (shown = id ↔ c.TakenFor numbers world m id) := by
    intro size
    have real : id ≠ [] := by
      intro empty
      rw [empty] at size
      cases size
    rw [← shows]
    exact Capture.identify_takenFor demand real
  by_cases answers : id = shown ∧ shown.length = buildIdSize
  · obtain ⟨rfl, size⟩ := answers
    exact answered observed size (takes observed ((taken size).mp rfl))
  · have unlike : id ≠ shown ∨ shown.length ≠ buildIdSize :=
      Decidable.not_and_iff_not_or_not.mp answers
    obtain (retained | unknown | waiting) | ⟨size, here⟩ := either
    · exact .inl (retained.later scan)
    · refine .inr (.inl ?_)
      obtain same | ⟨rfl, size⟩ := scan.paths id
      · exact same.trans unknown
      · exact absurd ⟨rfl, size⟩ answers
    · exact .inr (.inr ((kept id unlike).mpr waiting))
    · cases (taken size).mpr here
      exact absurd ⟨rfl, size⟩ answers

theorem catalogs_scan (maps : List Mapping) (state : Capture × Finset Bytes) :
    Scan (fun _ => True) state.1
      (maps.foldl (Capture.catalog numbers world) state).1 := by
  induction maps generalizing state with
  | nil => exact .refl _ _
  | cons m rest induction =>
      obtain ⟨c, pending⟩ := state
      have here : Scan _ c (Capture.catalog numbers world (c, pending) m).1 :=
        (catalog_scan rfl).1
      exact (here.imp fun _ _ => trivial).trans (induction _)

/-- A whole snapshot keeps a demand, and answers it where it shows the id. -/
theorem installMaps_demanded {maps : List Mapping}
    (observed : id ∈ c.observedBuildIds)
    (takes : ∀ seen ∈ c.installVisits numbers world maps,
      seen.Takes numbers world id)
    (either : Demanded c c.pendingBuildIds id ∨
      ∃ seen ∈ c.installVisits numbers world maps,
        seen.Shows numbers world id) :
    Demanded (c.installMaps numbers world maps)
      (c.installMaps numbers world maps).pendingBuildIds id := by
  have step : ∀ (state : Capture × Finset Bytes) (m : Mapping),
      id ∈ state.1.observedBuildIds →
      id ∈ (Capture.catalog numbers world state m).1.observedBuildIds := by
    rintro ⟨c, pending⟩ m observed
    have scan : Scan _ c (Capture.catalog numbers world (c, pending) m).1 :=
      (catalog_scan rfl).1
    rwa [scan.observed]
  refine foldl_settles (fun state => Demanded state.1 state.2 id)
    step ?_ observed takes either
  rintro ⟨c, pending⟩ m observed takes either
  refine Demanded.catalog observed (takes _ List.mem_cons_self) ?_
  refine either.imp_right fun ⟨seen, member, shows⟩ => ?_
  rwa [List.mem_singleton.mp member] at shows

theorem refreshMaps_demanded {nowNs : Nat} {force : Bool}
    (observed : id ∈ c.observedBuildIds)
    (takes : ∀ seen ∈ c.refreshVisits numbers world nowNs force,
      seen.Takes numbers world id)
    (either : Demanded c c.pendingBuildIds id ∨
      ∃ seen ∈ c.refreshVisits numbers world nowNs force,
        seen.Shows numbers world id) :
    Demanded (c.refreshMaps numbers world nowNs force)
      (c.refreshMaps numbers world nowNs force).pendingBuildIds id := by
  unfold Capture.refreshVisits at takes either
  unfold Capture.refreshMaps
  split
  · next early =>
      rw [if_pos early] at either
      exact either.resolve_right fun ⟨seen, member, _⟩ => by cases member
  · next due =>
      rw [if_neg due] at takes either
      dsimp only
      cases read : world.maps c.reads with
      | none =>
          rw [read] at either
          exact either.resolve_right fun ⟨seen, member, _⟩ => by cases member
      | some maps =>
          rw [read] at takes either
          refine installMaps_demanded observed takes (either.imp_left ?_)
          intro demanded
          exact demanded

theorem refreshMaps_observed (nowNs : Nat) (force : Bool) :
    (c.refreshMaps numbers world nowNs force).observedBuildIds =
      c.observedBuildIds := by
  unfold Capture.refreshMaps
  split
  · rfl
  · dsimp only
    split
    · exact (catalogs_scan _ _).observed
    · rfl

theorem CachedPaths.installMaps (cached : CachedPaths c)
    (maps : List Mapping) :
    CachedPaths (c.installMaps numbers world maps) := by
  suffices cataloged : ∀ state : Capture × Finset Bytes,
      CachedPaths state.1 →
      CachedPaths (maps.foldl (Capture.catalog numbers world) state).1 from
    cataloged (c, c.pendingBuildIds) cached
  induction maps with
  | nil => exact fun _ cached => cached
  | cons m rest induction =>
      exact fun state cached => induction _ cached.catalog

theorem CachedPaths.refreshMaps (cached : CachedPaths c) (nowNs : Nat)
    (force : Bool) :
    CachedPaths (c.refreshMaps numbers world nowNs force) := by
  unfold Capture.refreshMaps
  split
  · exact cached
  · have scanning : CachedPaths { c with
        mapsTried := true, lastMapsNs := nowNs, reads := c.reads + 1 } :=
      cached
    dsimp only
    split
    · exact scanning.installMaps _
    · exact scanning

/-- A scan that is not held back by the cooldown sets the time of the last. -/
theorem refreshMaps_lastMapsNs {nowNs : Nat} {force : Bool}
    (due : force = true ∨ retryNs ≤ wrappingSub nowNs c.lastMapsNs) :
    (c.refreshMaps numbers world nowNs force).lastMapsNs = nowNs := by
  unfold Capture.refreshMaps
  split
  · next held =>
      obtain ⟨unforced, early⟩ := held
      obtain forced | late := due
      · rw [forced] at unforced
        cases unforced
      · exact absurd early (Nat.not_lt.mpr late)
  · dsimp only
    split
    · exact (catalogs_scan _ _).lastMapsNs
    · rfl

end Scans

/-! ### The frames of a sample -/

section Frames

variable {numbers : DeviceNumbers} {world : World} {c : Capture}

structure Marked (c : Capture) (frames : List UserFrame)
    (state : Capture × Bool × Bool) : Prop where
  frame : state.1 = { c with
    observedBuildIds := state.1.observedBuildIds
    log := state.1.log }
  grows : c.observedBuildIds ⊆ state.1.observedBuildIds
  log : ∃ added, state.1.log = c.log ++ added
  new : state.2.1 = false → state.1.observedBuildIds = c.observedBuildIds
  carried : ∀ id ∈ state.1.observedBuildIds, id ∈ c.observedBuildIds ∨
    ∃ offset, .buildIdOffset id offset ∈ frames
  unresolved : ∀ id offset, .buildIdOffset id offset ∈ frames →
    c.buildIdPaths.lookup id = none ∨ id ∈ c.pendingBuildIds →
    state.2.2 = true

theorem markFrames_marked (c : Capture) (frames : List UserFrame) :
    Marked c frames (c.markFrames frames) := by
  suffices general : ∀ seen (state : Capture × Bool × Bool),
      Marked c seen state →
      Marked c (seen ++ frames) (frames.foldl Capture.markFrame state) from
    general [] (c, false, false)
      { frame := rfl
        grows := Finset.Subset.refl _
        log := ⟨[], (List.append_nil _).symm⟩
        new := fun _ => rfl
        carried := fun _ old => .inl old
        unresolved := fun _ _ member => by cases member }
  induction frames with
  | nil =>
      intro seen state marked
      rwa [List.append_nil]
  | cons frame rest induction =>
      intro seen state marked
      rw [List.append_cons]
      apply induction
      cases frame with
      | rawIp pc =>
          refine { marked with
            unresolved := fun id offset member => ?_
            carried := fun id member => (marked.carried id member).imp_right
              fun ⟨offset, seen⟩ => ⟨offset, List.mem_append_left _ seen⟩ }
          rw [List.mem_append, List.mem_singleton] at member
          exact marked.unresolved id offset
            (member.resolve_right fun same => by cases same)
      | buildIdOffset buildId offset =>
          obtain ⟨before, newly, unresolved⟩ := state
          have frame : before = { c with
              observedBuildIds := before.observedBuildIds
              log := before.log } := marked.frame
          obtain ⟨added, log⟩ := marked.log
          refine
            { frame := ?_
              grows := marked.grows.trans (Finset.subset_insert _ _)
              log := ⟨added ++ [.frame buildId], ?_⟩
              new := fun old => ?_
              carried := fun id member => ?_
              unresolved := fun id offset' member wanted => ?_ }
          · unfold Capture.markFrame
            dsimp only
            rw [frame]
            rfl
          · rw [← List.append_assoc]
            exact congrArg (· ++ [Note.frame buildId]) log
          · obtain ⟨old, here⟩ := Bool.or_eq_false_iff.mp old
            have here : buildId ∈ before.observedBuildIds :=
              not_not.mp (of_decide_eq_false here)
            exact (Finset.insert_eq_of_mem here).trans (marked.new old)
          · obtain rfl | old := Finset.mem_insert.mp member
            · exact .inr ⟨offset,
                List.mem_append_right _ List.mem_cons_self⟩
            · exact (marked.carried id old).imp_right fun ⟨offset, seen⟩ =>
                ⟨offset, List.mem_append_left _ seen⟩
          · apply Bool.or_eq_true_iff.mpr
            rw [List.mem_append, List.mem_singleton] at member
            obtain seen | same := member
            · exact .inl (marked.unresolved id offset' seen wanted)
            · cases same
              refine .inr (decide_eq_true ?_)
              rw [frame]
              exact wanted

/-- An id without a path or with a pending module is retryable. -/
theorem retryable_of_wanted {id : Bytes}
    (wanted : c.buildIdPaths.lookup id = none ∨ id ∈ c.pendingBuildIds) :
    Retryable numbers world c id := by
  intro frames offset nowNs member
  have marked := markFrames_marked c frames
  have unresolved := marked.unresolved id offset member wanted
  refine ⟨unresolved, fun cooled => ?_⟩
  have last : (c.markFrames frames).1.lastMapsNs = c.lastMapsNs := by
    rw [marked.frame]
  unfold Capture.observeBuildIds
  dsimp only
  split
  · exact refreshMaps_lastMapsNs (.inl rfl)
  · exact refreshMaps_lastMapsNs (.inr (by rwa [last]))

end Frames

/-! ### The invariant -/

structure Demand (id : Bytes) (c : Capture) : Prop where
  cached : CachedPaths c
  kept : id ∈ c.observedBuildIds → Demanded c c.pendingBuildIds id

namespace Demand

variable {numbers : DeviceNumbers} {world : World} {c : Capture} {id : Bytes}

theorem initial (id : Bytes) (targetPid : Nat) (modules : ModuleRegistry) :
    Demand id { targetPid := targetPid, modules := modules } where
  cached key id found := by cases found
  kept observed := by cases observed

theorem installMaps {maps : List Mapping} (demand : Demand id c)
    (takes : ∀ seen ∈ c.installVisits numbers world maps,
      seen.Takes numbers world id) :
    Demand id (c.installMaps numbers world maps) := by
  refine ⟨demand.cached.installMaps maps, fun observed => ?_⟩
  have scan : Scan (fun _ => True) c (maps.foldl
      (Capture.catalog numbers world) (c, c.pendingBuildIds)).1 :=
    catalogs_scan maps (c, c.pendingBuildIds)
  have observed : id ∈ c.observedBuildIds := by
    rw [← scan.observed]
    exact observed
  exact installMaps_demanded observed takes (.inl (demand.kept observed))

theorem refreshMaps {nowNs : Nat} {force : Bool} (demand : Demand id c)
    (takes : ∀ seen ∈ c.refreshVisits numbers world nowNs force,
      seen.Takes numbers world id) :
    Demand id (c.refreshMaps numbers world nowNs force) := by
  refine ⟨demand.cached.refreshMaps nowNs force, fun observed => ?_⟩
  rw [refreshMaps_observed] at observed
  exact refreshMaps_demanded observed takes (.inl (demand.kept observed))

theorem observeBuildIds {frames : List UserFrame} {nowNs : Nat}
    (demand : Demand id c)
    (takes : ∀ seen ∈ c.observeVisits numbers world frames nowNs,
      seen.Takes numbers world id)
    (answers : Answers numbers world id c frames nowNs) :
    Demand id (c.observeBuildIds numbers world frames nowNs) := by
  have marked := markFrames_marked c frames
  unfold Answers at answers
  unfold Capture.observeVisits at takes answers
  unfold Capture.observeBuildIds
  obtain ⟨⟨after, newly, unresolved⟩, marks⟩ : ∃ result,
      c.markFrames frames = result := ⟨_, rfl⟩
  rw [marks] at marked takes answers ⊢
  have frame : after = { c with
      observedBuildIds := after.observedBuildIds, log := after.log } :=
    marked.frame
  have paths : after.buildIdPaths = c.buildIdPaths := by rw [frame]
  have pending : after.pendingBuildIds = c.pendingBuildIds := by rw [frame]
  have cached : CachedPaths after := by
    intro key id found size
    rw [frame] at found ⊢
    exact demand.cached key id found size
  have kept : Demanded c c.pendingBuildIds id →
      Demanded after after.pendingBuildIds id := by
    intro demanded
    rw [Demanded, paths, pending]
    refine demanded.imp_left fun retained => ?_
    obtain ⟨more, log⟩ := marked.log
    refine retained.mono (by rw [frame]) ?_ (by rw [frame]; exact .refl _)
    rw [show after.log = c.log ++ more from log]
    exact List.subset_append_left _ _
  dsimp only at takes answers ⊢
  split
  · next new =>
      rw [if_pos new] at takes answers
      refine ⟨cached.refreshMaps nowNs true, fun observed => ?_⟩
      rw [refreshMaps_observed] at observed
      refine refreshMaps_demanded observed takes ?_
      by_cases old : id ∈ c.observedBuildIds
      · exact .inl (kept (demand.kept old))
      · obtain ⟨offset, carried⟩ := (marked.carried id observed).resolve_left old
        have carries : frames.any (carriedBy id) = true :=
          List.any_eq_true.mpr ⟨_, carried, decide_eq_true rfl⟩
        exact (answers carries old).imp_left kept
  · next old =>
      rw [if_neg old] at takes
      have same : after.observedBuildIds = c.observedBuildIds :=
        marked.new (Bool.not_eq_true _ ▸ old)
      have marked : Demand id after := by
        refine ⟨cached, fun observed => ?_⟩
        rw [same] at observed
        exact kept (demand.kept observed)
      split
      · next unresolved =>
          rw [if_pos unresolved] at takes
          exact marked.refreshMaps takes
      · exact marked

/-- A part of a scan that shows nothing. -/
theorem silent {next : Capture} (demand : Demand id c)
    (scan : Scan (fun _ => False) c next)
    (same : next.mappingBuildIds = c.mappingBuildIds) : Demand id next := by
  refine ⟨demand.cached.later scan same, fun observed => ?_⟩
  rw [scan.observed] at observed
  rw [Demanded, scan.pending]
  have path := (scan.paths id).resolve_right fun shown => shown.1
  rw [path]
  exact (demand.kept observed).imp_left fun retained => retained.later scan

structure Learned (c : Capture) (m : Mapping) (id : Bytes) (next : Capture) :
    Prop where
  frame : next = { c with
    observedBuildIds := next.observedBuildIds
    buildIdPaths := next.buildIdPaths
    log := next.log }
  log : c.log ⊆ next.log
  noted : id.length = buildIdSize → Note.identified m id ∈ next.log
  observed : ∀ other ∈ next.observedBuildIds,
    other ∈ c.observedBuildIds ∨ other = id ∧ id.length = buildIdSize
  known : id.length = buildIdSize → next.buildIdPaths.lookup id ≠ none
  paths : ∀ other, next.buildIdPaths.lookup other =
      c.buildIdPaths.lookup other ∨
    other = id ∧ id.length = buildIdSize ∧ c.buildIdPaths.lookup id = none

theorem learn_learned (c : Capture) (m : Mapping) (id : Bytes) :
    Learned c m id (c.learn m id) := by
  unfold Capture.learn
  split
  · next size =>
      refine
        { frame := by rw [Capture.notePath_frame]; rfl
          log := by
            rw [Capture.notePath_frame]
            exact List.subset_append_left _ _
          noted := fun _ => List.mem_append_right _ List.mem_cons_self
          observed := fun other member => ?_
          known := fun _ => notePath_known _ _ size
          paths := fun other => ?_ }
      · rw [Capture.notePath_frame] at member
        exact (Finset.mem_insert.mp member).symm.imp_right fun same =>
          ⟨same, size⟩
      · refine (em _).elim (fun new => .inr new) fun old => .inl ?_
        exact (notePath_lookup _ _ _ _).trans (if_neg old)
  · next size =>
      exact
        { frame := rfl
          log := List.Subset.refl _
          noted := fun sized => absurd sized size
          observed := fun _ member => .inl member
          known := fun sized => absurd sized size
          paths := fun _ => .inl rfl }

theorem Learned.cachedPaths {taught : Capture} {m : Mapping} {shown : Bytes}
    (learned : Learned { c with
      mappingBuildIds :=
        c.mappingBuildIds.insert (c.mappingKey m) shown } m shown taught)
    (cached : CachedPaths c) : CachedPaths taught := by
  intro key other found size
  rw [learned.frame] at found
  dsimp only at found
  rw [HashMap.lookup_insert_eq] at found
  split at found
  · cases found
    exact learned.known size
  · obtain same | ⟨rfl, size, -⟩ := learned.paths other
    · rw [same]
      exact cached key other found size
    · exact learned.known size

/-- Learning the id of a mapped file and registering the file keep the demand,
if the file is taken. -/
theorem registerLearned {taught : Capture} {m : Mapping} {shown : Bytes}
    {file : File} (demand : Demand id c)
    (named : Capture.isExact numbers m c.targetPid file = true)
    (takes : shown = id → id.length = buildIdSize →
      Retained c id ∨ id ∈ c.pendingBuildIds ∨
      c.modules.needsExactRetry (c.mappingKey m) id m.path = false ∨
      ∀ inode ∈ file.metadata, c.modules.HasRoom inode)
    (learned : Learned { c with
      mappingBuildIds :=
        c.mappingBuildIds.insert (c.mappingKey m) shown } m shown taught) :
    Demand id (taught.registerMapping numbers world m shown
        (some (file, shown))) ∧
      (shown.length = buildIdSize →
        (taught.registerMapping numbers world m shown
          (some (file, shown))).buildIdPaths.lookup shown ≠ none) := by
  have scan : Scan (fun _ => False) taught
      (taught.registerMapping numbers world m shown (some (file, shown))) :=
    registerMapping_scan
  have same : (taught.registerMapping numbers world m shown
      (some (file, shown))).mappingBuildIds = taught.mappingBuildIds :=
    registerMapping_cached
  have known : ((taught.registerMapping numbers world m shown
      (some (file, shown))).modules.entries.lookup
        (taught.mappingKey m)).isSome :=
    registerMapping_known
  have modules : (taught.registerMapping numbers world m shown
      (some (file, shown))).modules =
        (taught.modules.registerExactFile numbers (taught.mappingKey m) shown
          m.path file).2 := rfl
  generalize taught.registerMapping numbers world m shown
    (some (file, shown)) = next at *
  have frame := learned.frame
  have path : ∀ other, next.buildIdPaths.lookup other =
      taught.buildIdPaths.lookup other :=
    fun other => (scan.paths other).resolve_right fun shown => shown.1
  have cached := learned.cachedPaths demand.cached
  refine ⟨⟨cached.later scan same, fun observed => ?_⟩, fun size => ?_⟩
  · rw [scan.observed] at observed
    have pending : next.pendingBuildIds = c.pendingBuildIds := by
      rw [scan.pending, frame]
    have retained : Retained c id → Retained next id := by
      intro retained
      have taught : Retained taught id :=
        retained.mono (by rw [frame]) learned.log (by rw [frame]; exact .refl _)
      exact taught.later scan
    rw [Demanded, pending]
    by_cases new : id = shown ∧ shown.length = buildIdSize
    · obtain ⟨rfl, size⟩ := new
      obtain before | waiting | settles := takes rfl size
      · exact .inl (retained before)
      · exact .inr (.inr waiting)
      · obtain ⟨inode, metadata, named⟩ := Capture.isExact_iff.mp named
        have key : taught.mappingKey m = c.mappingKey m := by
          rw [frame]
          rfl
        have unchanged : taught.modules = c.modules := by rw [frame]
        have settled : c.modules.needsExactRetry (c.mappingKey m) id m.path =
            false ∨ c.modules.HasRoom inode :=
          settles.imp_right fun room => room inode metadata
        refine .inl ⟨m, scan.grows (learned.noted size), ?_, ?_⟩
        · rw [scan.mappingKey, modules, unchanged, key]
          exact registerExactFile_settles metadata named settled
        · rwa [scan.mappingKey]
    · have before : id ∈ c.observedBuildIds :=
        (learned.observed id observed).resolve_right new
      refine (demand.kept before).imp retained fun wanted =>
        wanted.imp_left fun unknown => ?_
      rw [path]
      obtain same | ⟨equal, size, -⟩ := learned.paths id
      · exact same.trans unknown
      · exact absurd ⟨equal, size⟩ new
  · rw [path]
    exact learned.known size

theorem openSampled {next : Capture} {m : Mapping} {nowNs : Nat}
    {shown : Bytes} (demand : Demand id c)
    (takes : (Visit.sample c m).Takes numbers world id)
    (opened : c.openSampled numbers world m nowNs = (shown, next)) :
    Demand id next ∧ (shown.length = buildIdSize →
      next.buildIdPaths.lookup shown ≠ none) := by
  unfold Capture.openSampled at opened
  dsimp only at opened
  have file := Capture.openExactMapping_eq numbers world { c with
      mappingRetryNs := c.mappingRetryNs.insert (c.mappingKey m) nowNs } m
  obtain ⟨⟨exact, after⟩, first⟩ : ∃ result,
      Capture.openExactMapping numbers world
        { c with
          mappingRetryNs := c.mappingRetryNs.insert (c.mappingKey m) nowNs }
        m = result := ⟨_, rfl⟩
  rw [first] at opened file
  have tried : Demand id { c with
      mappingRetryNs := c.mappingRetryNs.insert (c.mappingKey m) nowNs } :=
    ⟨demand.cached, demand.kept⟩
  have scan : Scan (fun _ => False) { c with
      mappingRetryNs := c.mappingRetryNs.insert (c.mappingKey m) nowNs }
      after := openExactMapping_scan first
  have key : after.mappingKey m = c.mappingKey m := scan.mappingKey m
  obtain ⟨reads, ⟨rfl, rfl⟩ | ⟨file', rfl, named, rfl⟩⟩ :=
    Capture.openExactMapping_cases first
  · cases opened
    have read := tried.silent scan rfl
    exact ⟨read.silent registerMapping_scan registerMapping_cached,
      fun size => by cases size⟩
  · have read := tried.silent scan rfl
    dsimp only at opened
    cases opened
    refine read.registerLearned named (fun same size => ?_)
      (learn_learned _ m (file'.buildId.getD []))
    obtain ⟨mapped, found, equal⟩ := Option.map_eq_some_iff.mp file.symm
    cases equal
    have shows : file'.buildId = some id := by
      cases stored : file'.buildId with
      | none =>
          rw [stored] at same
          cases same
          cases size
      | some other =>
          rw [stored] at same
          exact congrArg some same
    refine (takes file' found shows).imp (fun retained => ?_) fun wanted => ?_
    · exact retained.mono rfl (List.subset_append_left _ _) (.refl _)
    · exact wanted

theorem observeMapping {next : Capture} {m : Mapping} {nowNs : Nat}
    {shown : Bytes} (demand : Demand id c)
    (takes : c.isDue m nowNs = true →
      (Visit.sample c m).Takes numbers world id)
    (observed : c.observeMapping numbers world m nowNs = (shown, next)) :
    Demand id next ∧ (shown.length = buildIdSize →
      next.buildIdPaths.lookup shown ≠ none) := by
  have marked : Demand id { c with
      observedMappings := insert (c.mappingKey m) c.observedMappings } :=
    ⟨demand.cached, demand.kept⟩
  unfold Capture.observeMapping at observed
  dsimp only at observed
  split at observed
  · next due => exact marked.openSampled (takes due) observed
  · cases observed
    refine ⟨marked, fun size => ?_⟩
    unfold Capture.cachedId at size ⊢
    cases cached : c.mappingBuildIds.lookup (c.mappingKey m) with
    | none =>
        rw [cached] at size
        cases size
    | some id =>
        rw [cached] at size
        exact demand.cached _ _ cached size

theorem resolveMapped {pid pc nowNs : Nat} {m : Mapping} (demand : Demand id c)
    (takes : c.isDue m nowNs = true →
      (Visit.sample c m).Takes numbers world id) :
    Demand id (c.resolveMapped numbers world pid pc nowNs m) := by
  obtain ⟨⟨shown, next⟩, observed⟩ : ∃ result,
      c.observeMapping numbers world m nowNs = result := ⟨_, rfl⟩
  obtain ⟨seen, known⟩ := demand.observeMapping takes observed
  have noted : next.notePath shown m.path = next := by
    unfold Capture.notePath
    exact if_neg fun new => known new.1 new.2
  unfold Capture.resolveMapped
  rw [observed]
  dsimp only
  rw [noted]
  split
  · exact seen
  · have registered : Scan (fun _ => False) next
        { next with modules := (next.modules.idFor (m.key pid) shown).2 } :=
      register_scan (.idFor (m.key pid) shown)
        (show Call.apply numbers next.modules _ = _ from rfl) next.reads
    exact seen.silent registered rfl

theorem resolveFrame {state : Capture × Bool} {pid nowNs : Nat}
    {frame : UserFrame} (demand : Demand id state.1)
    (takes : ∀ seen ∈ Capture.frameVisits numbers world pid nowNs state frame,
      seen.Takes numbers world id) :
    Demand id
      (Capture.resolveFrame numbers world pid nowNs state frame).1 := by
  cases frame with
  | buildIdOffset buildId offset => exact demand
  | rawIp pc =>
      obtain ⟨c, reparsed⟩ := state
      unfold Capture.frameVisits at takes
      unfold Capture.resolveFrame
      dsimp only at takes ⊢
      split
      · exact demand
      · next real =>
          rw [if_neg real] at takes
          have scanned : Demand id
              (c.reparse numbers world pc nowNs reparsed) := by
            have takes : ∀ seen ∈
                c.reparseVisits numbers world pc nowNs reparsed,
                seen.Takes numbers world id := fun seen member =>
              takes seen (List.mem_append_left _ member)
            unfold Capture.reparseVisits at takes
            unfold Capture.reparse
            split
            · next missing =>
                rw [if_pos missing] at takes
                exact Demand.refreshMaps demand takes
            · exact demand
          replace takes := fun seen member =>
            takes seen (List.mem_append_right _ member)
          generalize c.reparse numbers world pc nowNs reparsed = after
            at scanned takes ⊢
          have noted : Demand id
              (after.note (.pc pid pc (after.maps.getD []))) :=
            scanned.silent { Scan.refl (fun _ => False) after with
              grows := List.subset_append_left _ _ } rfl
          unfold Capture.sampleVisits at takes
          dsimp only at takes
          split
          · exact noted
          · next m found =>
              rw [found] at takes
              dsimp only at takes
              refine noted.resolveMapped fun due => ?_
              rw [if_pos due] at takes
              exact takes _ List.mem_cons_self

theorem internCallstack {frames : List UserFrame} {pid nowNs : Nat}
    (demand : Demand id c)
    (takes : ∀ seen ∈ c.stackVisits numbers world frames pid nowNs,
      seen.Takes numbers world id)
    (answers : Answers numbers world id c frames nowNs) :
    Demand id (c.internCallstack numbers world frames pid nowNs) := by
  unfold Capture.stackVisits at takes
  simp only [List.mem_append, or_imp, forall_and] at takes
  obtain ⟨⟨marks, ensures⟩, resolves⟩ := takes
  have observed := demand.observeBuildIds marks answers
  refine foldl_keeps (fun state => Demand id state.1)
    (fun state frame demand takes => Demand.resolveFrame demand takes) ?_
    resolves
  change Demand id (c.observed numbers world frames nowNs)
  unfold Capture.observed
  dsimp only
  split
  · next raw =>
      rw [if_pos raw] at ensures
      unfold Capture.ensureVisits at ensures
      unfold Capture.ensureMaps
      split
      · exact observed
      · next untried =>
          rw [if_neg untried] at ensures
          exact observed.refreshMaps ensures
  · exact observed

theorem act {event : Event} (demand : Demand id c)
    (meets : Meets numbers world id c event) :
    Demand id (c.act numbers world event) := by
  obtain ⟨takes, answers⟩ := meets
  cases event with
  | installMaps maps => exact demand.installMaps takes
  | refreshMaps nowNs force => exact demand.refreshMaps takes
  | observeBuildIds frames nowNs =>
      exact demand.observeBuildIds takes answers
  | internCallstack frames pid nowNs =>
      exact demand.internCallstack takes answers

end Demand

/-- In every run whose steps all meet the condition for an id, the id, once it
has been observed, is retained or retryable. -/
theorem demand_kept (numbers : DeviceNumbers) (world : World)
    (targetPid : Nat) (policy : KeepPolicy) (seed : BitVec 64)
    (events : List Event) (id : Bytes)
    (meets : ∀ step ∈ steps numbers world
      { targetPid := targetPid, modules := new policy seed } events,
      Meets numbers world id step.1 step.2)
    (observed : id ∈ (events.foldl (Capture.act numbers world)
      { targetPid := targetPid, modules := new policy seed }).observedBuildIds) :
    Retained (events.foldl (Capture.act numbers world)
        { targetPid := targetPid, modules := new policy seed }) id ∨
      Retryable numbers world (events.foldl (Capture.act numbers world)
        { targetPid := targetPid, modules := new policy seed }) id := by
  have demand : Demand id (events.foldl (Capture.act numbers world)
      { targetPid := targetPid, modules := new policy seed }) := by
    refine foldl_keeps _ ?_ (Demand.initial id targetPid (new policy seed)) meets
    intro c event demand meets
    exact demand.act (meets (c, event) List.mem_cons_self)
  exact (demand.kept observed).imp_right retryable_of_wanted

def toolId : Bytes := List.replicate 20 1

def libId : Bytes := List.replicate 20 2

def toolMap : Mapping := ⟨4096, 8192, 0, 4096, 8, 1, 42, "/home/tool"⟩

def libMap : Mapping := ⟨16384, 20480, 0, 16384, 8, 1, 43, "/home/lib"⟩

/-- Both files can be opened; the maps can be read but in some reads. -/
def unreadableWorld (unreadable : Nat → Bool) : World where
  opens _ name :=
    if name = .mapFile 7 4096 8192 then
      some ⟨5, some (2049, 42), some toolId⟩
    else if name = .mapFile 7 16384 20480 then
      some ⟨6, some (2049, 43), some libId⟩
    else none
  maps read := if unreadable read then none else some [toolMap, libMap]

/-- A frame of the tool, whose first scan fails, the next in the cooldown, a
frame of the tool again, and a raw pc in the library. -/
def retriedEvents : List Event :=
  [.observeBuildIds [.buildIdOffset toolId 0] 5000000000,
    .observeBuildIds [.buildIdOffset toolId 0] 5500000000,
    .observeBuildIds [.buildIdOffset toolId 0] 7000000000,
    .internCallstack [.rawIp 16400] 7 7000000001]

theorem demand_kept_retried :
    libId ∈ (retriedEvents.foldl
        (Capture.act smallDevices (unreadableWorld (· = 0)))
        { targetPid := 7, modules := new .all 0 }).observedBuildIds ∧
      (Retained (retriedEvents.foldl
          (Capture.act smallDevices (unreadableWorld (· = 0)))
          { targetPid := 7, modules := new .all 0 }) libId ∨
        Retryable smallDevices (unreadableWorld (· = 0))
          (retriedEvents.foldl
            (Capture.act smallDevices (unreadableWorld (· = 0)))
            { targetPid := 7, modules := new .all 0 }) libId) := by
  refine ⟨by decide, demand_kept smallDevices (unreadableWorld (· = 0)) 7 .all 0
    retriedEvents libId (by decide) (by decide)⟩

/-- The scan for the second id fails, when its path is known from the first. -/
theorem not_keepsDemand_unreadable :
    ¬ KeepsDemand smallDevices (unreadableWorld (0 < ·))
      ([.observeBuildIds [.buildIdOffset toolId 0] 5000000000,
        .observeBuildIds [.buildIdOffset libId 0] 7000000000].foldl
          (Capture.act smallDevices (unreadableWorld (0 < ·)))
          { targetPid := 7, modules := new .all 0 }) := by
  intro kept
  obtain ⟨m, noted, -, known⟩ | retryable := kept libId (by decide)
  · have noted : Note.identified m libId ∈
        [Note.frame toolId, .read toolMap ⟨5, some (2049, 42), some toolId⟩,
          .identified toolMap toolId,
          .read libMap ⟨6, some (2049, 43), some libId⟩,
          .identified libMap libId, .frame libId] := noted
    have other : libId ≠ toolId := by decide
    simp only [List.mem_cons, reduceCtorEq, Note.identified.injEq, other,
      and_false, and_true, List.not_mem_nil, or_false, false_or] at noted
    subst noted
    cases known
  · exact absurd (retryable [.buildIdOffset libId 0] 0 0
      List.mem_cons_self).1 (by decide)

end Sismo.Retain
