import Sismo.Retain.CaptureSteps
import Sismo.Retain.History

namespace Sismo.Retain

open Samples (Bytes UserFrame buildIdSize)
open ModuleRegistry

/-! Only modules that samples have shown reach the registry, under ids that were
read from their own files. -/

/-! ### What the notes say of a mapping and its id -/

section Notes

variable (numbers : DeviceNumbers) (target : Nat) (log : List Note)

/-- A raw pc of a user stack fell in a mapping with the key; the process is the
target or the one of the stack. -/
def Hit (key : ModuleKey) : Prop :=
  ∃ pid pc maps m, Note.pc pid pc maps ∈ log ∧ m ∈ maps ∧
    m.start ≤ pc ∧ pc < m.end_ ∧ (key = m.key target ∨ key = m.key pid)

def ReadAs (key : ModuleKey) (id : Bytes) : Prop :=
  ∃ m file, Note.read m file ∈ log ∧ m.key target = key ∧
    file.buildId.getD [] = id

/-- The id was carried by a frame of a user stack, or read for a mapping that
one hit. -/
def Observed (id : Bytes) : Prop :=
  Note.frame id ∈ log ∨ ∃ key, Hit target log key ∧ ReadAs target log key id

def Sampled (key : ModuleKey) : Prop :=
  Hit target log key ∨
    ∃ id, id.length = buildIdSize ∧ ReadAs target log key id ∧
      Observed target log id

/-- The id was read from a file whose device and inode are those of the key. -/
def ReadFromInode (key : ModuleKey) (id : Bytes) : Prop :=
  ∃ m file inode, Note.read m file ∈ log ∧ file.buildId = some id ∧
    file.metadata = some inode ∧ namesInode numbers key inode = true

end Notes

structure SampleDriven (numbers : DeviceNumbers) (c : Capture) : Prop where
  sampled : ∀ key e, c.modules.entries.lookup key = some e →
    Sampled c.targetPid c.log key
  exact : ∀ key e inode, c.modules.entries.lookup key = some e →
    e.inode = some inode → ∀ id ∈ e.buildId :: e.aliases,
      isSynthetic id = false → ReadFromInode numbers c.log key id

section Growth

variable {numbers : DeviceNumbers} {target : Nat} {log more : List Note}
  {key : ModuleKey} {id : Bytes}

theorem Hit.mono (grows : log ⊆ more) (hit : Hit target log key) :
    Hit target more key := by
  obtain ⟨pid, pc, maps, m, noted, about⟩ := hit
  exact ⟨pid, pc, maps, m, grows noted, about⟩

theorem ReadAs.mono (grows : log ⊆ more) (read : ReadAs target log key id) :
    ReadAs target more key id := by
  obtain ⟨m, file, noted, about⟩ := read
  exact ⟨m, file, grows noted, about⟩

theorem Observed.mono (grows : log ⊆ more) (observed : Observed target log id) :
    Observed target more id :=
  observed.imp (fun noted => grows noted) fun ⟨key, hit, read⟩ =>
    ⟨key, hit.mono grows, read.mono grows⟩

theorem Sampled.mono (grows : log ⊆ more) (sampled : Sampled target log key) :
    Sampled target more key :=
  sampled.imp (fun hit => hit.mono grows) fun ⟨id, size, read, observed⟩ =>
    ⟨id, size, read.mono grows, observed.mono grows⟩

theorem ReadFromInode.mono (grows : log ⊆ more)
    (read : ReadFromInode numbers log key id) :
    ReadFromInode numbers more key id := by
  obtain ⟨m, file, inode, noted, about⟩ := read
  exact ⟨m, file, inode, grows noted, about⟩

end Growth

/-! ### The invariant -/

/-- What the capture has cached and registered is what the notes say. -/
structure Driven (numbers : DeviceNumbers) (c : Capture) : Prop where
  /-- A file is read for a mapping only when it is the mapped one. -/
  reads : ∀ m file, Note.read m file ∈ c.log →
    ∃ inode, file.metadata = some inode ∧
      namesInode numbers (m.key c.targetPid) inode = true
  mappings : ∀ key ∈ c.observedMappings, Hit c.targetPid c.log key
  ids : ∀ id ∈ c.observedBuildIds, Observed c.targetPid c.log id
  cached : ∀ key id, c.mappingBuildIds.lookup key = some id →
    ReadAs c.targetPid c.log key id
  sampled : ∀ key e, c.modules.entries.lookup key = some e →
    Sampled c.targetPid c.log key
  exact : ∀ key e, c.modules.entries.lookup key = some e →
    ∀ id ∈ e.buildId :: e.aliases,
      isSynthetic id = true ∨ ReadFromInode numbers c.log key id

namespace Driven

variable {numbers : DeviceNumbers} {world : World} {c next : Capture}
  {m : Mapping}

theorem initial (targetPid : Nat) (policy : KeepPolicy) (seed : BitVec 64) :
    Driven numbers
      { targetPid := targetPid, modules := new policy seed } where
  reads m file noted := by cases noted
  mappings key member := by cases member
  ids id member := by cases member
  cached key id found := by cases found
  sampled key e found := by cases found
  exact key e found := by cases found

/-- A note that is no read can be added. -/
theorem note (driven : Driven numbers c) (note : Note)
    (read : ∀ m file, note = .read m file → ∃ inode,
      file.metadata = some inode ∧
        namesInode numbers (m.key c.targetPid) inode = true) :
    Driven numbers (c.note note) := by
  have grows : c.log ⊆ (c.note note).log := List.subset_append_left _ _
  refine
    { reads := fun m file noted => ?_
      mappings := fun key member => (driven.mappings key member).mono grows
      ids := fun id member => (driven.ids id member).mono grows
      cached := fun key id found => (driven.cached key id found).mono grows
      sampled := fun key e found => (driven.sampled key e found).mono grows
      exact := fun key e found id member =>
        (driven.exact key e found id member).imp_right
          fun read => read.mono grows }
  obtain old | new := List.mem_append.mp noted
  · exact driven.reads m file old
  · exact read m file (List.mem_singleton.mp new).symm

/-- A read for a mapping gives an id of the mapping's own inode. -/
theorem readFromInode (driven : Driven numbers c) {key : ModuleKey}
    {id : Bytes} (read : ReadAs c.targetPid c.log key id) (real : id ≠ []) :
    ReadFromInode numbers c.log key id := by
  obtain ⟨m, file, noted, rfl, same⟩ := read
  obtain ⟨inode, metadata, named⟩ := driven.reads m file noted
  refine ⟨m, file, inode, noted, ?_, metadata, named⟩
  cases stored : file.buildId with
  | none =>
      rw [stored] at same
      exact absurd same.symm real
  | some id =>
      rw [stored] at same
      exact congrArg some same

/-- A call on a sampled key, with no hint or an id read for it. -/
theorem register (driven : Driven numbers c) (call : Call) {id : Bytes}
    {registry : ModuleRegistry}
    (applied : call.apply numbers c.modules = (id, registry))
    (sampled : Sampled c.targetPid c.log call.key)
    (read : call.idHint ≠ [] →
      ReadFromInode numbers c.log call.key call.idHint) :
    Driven numbers { c with modules := registry } :=
  { driven with
    sampled := fun key e found => by
      obtain known | rfl := (apply_ids applied found).1
      · obtain ⟨e', stored⟩ := Option.isSome_iff_exists.mp known
        exact driven.sampled key e' stored
      · exact sampled
    exact := fun key e found id member => by
      obtain ⟨e', stored, known⟩ | synthetic | ⟨rfl, real, rfl⟩ :=
        (apply_ids applied found).2 id member
      · exact driven.exact key e' stored id known
      · exact .inl synthetic
      · exact .inr (read real) }

end Driven

namespace Driven

variable {numbers : DeviceNumbers} {world : World} {c next : Capture}
  {m : Mapping}

/-- What has been opened for a mapping, if anything, gave this id. -/
def Opened (c : Capture) (m : Mapping) (exact : Option (File × Bytes)) : Prop :=
  ∀ file id, exact = some (file, id) →
    ReadAs c.targetPid c.log (c.mappingKey m) id

theorem Opened.none : Opened c m none := by
  intro file id same
  cases same

def Known (c : Capture) (m : Mapping) (id : Bytes) : Prop :=
  id ≠ [] → ReadAs c.targetPid c.log (c.mappingKey m) id

theorem openExactMapping (driven : Driven numbers c)
    {exact : Option (File × Bytes)}
    (opened : c.openExactMapping numbers world m = (exact, next)) :
    Driven numbers next ∧ Opened next m exact ∧ c.log ⊆ next.log ∧
      next = { c with reads := next.reads, log := next.log } := by
  obtain ⟨reads, ⟨rfl, rfl⟩ | ⟨file, rfl, named, rfl⟩⟩ :=
    Capture.openExactMapping_cases opened
  · exact ⟨{ driven with }, .none, List.Subset.refl _, rfl⟩
  · have unread : Driven numbers { c with reads := reads } := { driven with }
    refine ⟨unread.note _ ?_, ?_, List.subset_append_left _ _, rfl⟩
    · intro m' file' same
      cases same
      exact Capture.isExact_iff.mp named
    · intro file' id same
      cases same
      exact ⟨m, file, List.mem_append_right _ List.mem_cons_self, rfl, rfl⟩

theorem identify (driven : Driven numbers c) {exact : Option (File × Bytes)}
    {id : Bytes} (identified : c.identify numbers world m = (exact, id, next)) :
    Driven numbers next ∧ Opened next m exact ∧ Known next m id ∧
      c.log ⊆ next.log := by
  obtain ⟨reads, ⟨cached, rfl, rfl⟩ | ⟨-, rfl, rfl, rfl⟩ |
    ⟨file, -, rfl, rfl, named, rfl⟩⟩ := Capture.identify_cases identified
  · exact ⟨driven, .none,
      fun _ => driven.cached _ _ cached, List.Subset.refl _⟩
  · exact ⟨{ driven with }, .none,
      fun real => absurd rfl real, List.Subset.refl _⟩
  · have unread : Driven numbers { c with reads := reads } := { driven with }
    have noted : Driven numbers
        ({ c with reads := reads }.note (.read m file)) := by
      apply unread.note
      intro m' file' same
      cases same
      exact Capture.isExact_iff.mp named
    have read : ReadAs c.targetPid (c.log ++ [.read m file]) (c.mappingKey m)
        (file.buildId.getD []) :=
      ⟨m, file, List.mem_append_right _ List.mem_cons_self, rfl, rfl⟩
    refine ⟨{ noted with cached := fun key id found => ?_ }, ?_, fun _ => read,
      List.subset_append_left _ _⟩
    · rw [HashMap.lookup_insert_eq] at found
      split at found
      · next equal =>
          cases found
          rw [equal]
          exact read
      · exact noted.cached key id found
    · intro file' id same
      cases same
      exact read

variable (world) in
theorem registerMapping (driven : Driven numbers c) {id : Bytes}
    {exact : Option (File × Bytes)}
    (sampled : Sampled c.targetPid c.log (c.mappingKey m))
    (known : Known c m id) (opened : Opened c m exact) :
    Driven numbers (c.registerMapping numbers world m id exact) := by
  cases exact with
  | none =>
      have registered := driven.register
        (.registerExact (c.mappingKey m) id m.path
          (world.opens c.reads (.path m.path)))
        rfl sampled fun real => driven.readFromInode (known real) real
      exact { registered with }
  | some result =>
      obtain ⟨file, exactId⟩ := result
      exact driven.register
        (.registerExactFile (c.mappingKey m) exactId m.path file)
        rfl sampled
        fun real => driven.readFromInode (opened file exactId rfl) real

variable (world) in
theorem retain (driven : Driven numbers c) {id : Bytes}
    {exact : Option (File × Bytes)}
    (sampled : Sampled c.targetPid c.log (c.mappingKey m))
    (known : Known c m id) (opened : Opened c m exact) :
    Driven numbers (c.retain numbers world m id exact) := by
  unfold Capture.retain
  split
  · cases exact with
    | some result => exact driven.registerMapping world sampled known opened
    | none =>
        cases reopened : c.openExactMapping numbers world m with
        | mk result after =>
            obtain ⟨driven, read, grows, same⟩ :=
              driven.openExactMapping reopened
            rw [same] at driven read ⊢
            exact driven.registerMapping world (sampled.mono grows)
              (fun real => (known real).mono grows) read
  · exact driven

theorem notePath (driven : Driven numbers c) (id : Bytes) (path : String) :
    Driven numbers (c.notePath id path) := by
  unfold Capture.notePath
  split
  · exact { driven with }
  · exact driven

theorem mappingWasSampled (driven : Driven numbers c) {id : Bytes}
    (known : Known c m id)
    (sampled : c.mappingWasSampled (c.mappingKey m) id = true) :
    Sampled c.targetPid c.log (c.mappingKey m) := by
  obtain hit | ⟨size, observed⟩ := of_decide_eq_true sampled
  · exact .inl (driven.mappings _ hit)
  · have real : id ≠ [] := by
      intro empty
      rw [empty] at size
      cases size
    exact .inr ⟨id, size, known real, driven.ids id observed⟩

theorem Known.grow {id : Bytes} (known : Known c m id)
    (pid : next.targetPid = c.targetPid) (grows : c.log ⊆ next.log) :
    Known next m id := by
  intro real
  unfold Capture.mappingKey
  rw [pid]
  exact (known real).mono grows

theorem Opened.grow {exact : Option (File × Bytes)} (opened : Opened c m exact)
    (pid : next.targetPid = c.targetPid) (grows : c.log ⊆ next.log) :
    Opened next m exact := by
  intro file id same
  unfold Capture.mappingKey
  rw [pid]
  exact (opened file id same).mono grows

theorem catalog {state : Capture × Finset Bytes}
    (driven : Driven numbers state.1) :
    Driven numbers (Capture.catalog numbers world state m).1 := by
  obtain ⟨c, pending⟩ := state
  obtain ⟨⟨exact, id, next⟩, identified⟩ :
      ∃ result, c.identify numbers world m = result := ⟨_, rfl⟩
  obtain ⟨read, opened, known, -⟩ := driven.identify identified
  unfold Capture.catalog
  dsimp only
  rw [identified]
  dsimp only
  have noted : Driven numbers
      ((next.notePath id m.path).note (.identified m id)) :=
    (read.notePath id m.path).note _ fun _ _ same => nomatch same
  have pid : ((next.notePath id m.path).note (.identified m id)).targetPid =
      next.targetPid := by
    rw [Capture.notePath_frame]
    rfl
  have grows : next.log ⊆
      ((next.notePath id m.path).note (.identified m id)).log := by
    rw [Capture.notePath_frame]
    exact List.subset_append_left _ _
  have known := known.grow pid grows
  have opened := opened.grow pid grows
  split
  · next sampled =>
      have retained := noted.retain world
        (noted.mappingWasSampled known sampled) known opened
      split
      · split
        · exact retained
        · exact retained
      · exact retained
  · exact noted

theorem installMaps (driven : Driven numbers c) (maps : List Mapping) :
    Driven numbers (c.installMaps numbers world maps) := by
  have cataloged : ∀ state : Capture × Finset Bytes,
      Driven numbers state.1 →
        Driven numbers (maps.foldl (Capture.catalog numbers world) state).1 := by
    induction maps with
    | nil => exact fun _ driven => driven
    | cons m rest induction =>
        exact fun state driven => induction _ driven.catalog
  exact { cataloged (c, c.pendingBuildIds) driven with }

theorem refreshMaps (driven : Driven numbers c) (nowNs : Nat) (force : Bool) :
    Driven numbers (c.refreshMaps numbers world nowNs force) := by
  unfold Capture.refreshMaps
  split
  · exact driven
  · have scanning : Driven numbers { c with
        mapsTried := true, lastMapsNs := nowNs, reads := c.reads + 1 } :=
      { driven with }
    dsimp only
    split
    · exact scanning.installMaps _
    · exact scanning

theorem ensureMaps (driven : Driven numbers c) (nowNs : Nat) :
    Driven numbers (c.ensureMaps numbers world nowNs) := by
  unfold Capture.ensureMaps
  split
  · exact driven
  · exact driven.refreshMaps nowNs true

theorem markFrames (driven : Driven numbers c) (frames : List UserFrame) :
    Driven numbers (c.markFrames frames).1 := by
  have marked : ∀ state : Capture × Bool × Bool, Driven numbers state.1 →
      Driven numbers (frames.foldl Capture.markFrame state).1 := by
    induction frames with
    | nil => exact fun _ driven => driven
    | cons frame rest induction =>
        intro state driven
        apply induction
        cases frame with
        | rawIp pc => exact driven
        | buildIdOffset buildId offset =>
            have noted := driven.note (.frame buildId)
              fun _ _ same => by cases same
            refine { noted with ids := fun id member => ?_ }
            obtain rfl | old := Finset.mem_insert.mp member
            · exact .inl (List.mem_append_right _ List.mem_cons_self)
            · exact noted.ids id old
  exact marked (c, false, false) driven

theorem observeBuildIds (driven : Driven numbers c) (frames : List UserFrame)
    (nowNs : Nat) :
    Driven numbers (c.observeBuildIds numbers world frames nowNs) := by
  have marked := driven.markFrames frames
  unfold Capture.observeBuildIds
  dsimp only
  split
  · exact marked.refreshMaps nowNs true
  · split
    · exact marked.refreshMaps nowNs false
    · exact marked

theorem learn (driven : Driven numbers c)
    (hit : Hit c.targetPid c.log (c.mappingKey m)) {id : Bytes}
    (read : ReadAs c.targetPid c.log (c.mappingKey m) id) :
    Driven numbers (c.learn m id) := by
  unfold Capture.learn
  split
  · have observed : Driven numbers
        { c with observedBuildIds := insert id c.observedBuildIds } :=
      { driven with
        ids := fun other member => by
          obtain rfl | old := Finset.mem_insert.mp member
          · exact .inr ⟨_, hit, read⟩
          · exact driven.ids other old }
    exact (observed.notePath id m.path).note _ fun _ _ same => by cases same
  · exact driven

theorem learn_frame (c : Capture) (m : Mapping) (id : Bytes) :
    (c.learn m id).targetPid = c.targetPid ∧ c.log ⊆ (c.learn m id).log := by
  unfold Capture.learn
  split
  · rw [Capture.notePath_frame]
    exact ⟨rfl, List.subset_append_left _ _⟩
  · exact ⟨rfl, List.Subset.refl _⟩

theorem registerMapping_frame (c : Capture) (m : Mapping) (id : Bytes)
    (exact : Option (File × Bytes)) :
    c.registerMapping numbers world m id exact = { c with
      reads := (c.registerMapping numbers world m id exact).reads
      modules := (c.registerMapping numbers world m id exact).modules } := by
  unfold Capture.registerMapping
  cases exact with
  | none => rfl
  | some result => rfl

theorem openSampled (driven : Driven numbers c) {nowNs : Nat} {id : Bytes}
    (hit : Hit c.targetPid c.log (c.mappingKey m))
    (opened : c.openSampled numbers world m nowNs = (id, next)) :
    Driven numbers next ∧ Known next m id ∧ next.targetPid = c.targetPid ∧
      c.log ⊆ next.log := by
  unfold Capture.openSampled at opened
  dsimp only at opened
  obtain ⟨⟨exact, after⟩, first⟩ : ∃ result,
      Capture.openExactMapping numbers world
        { c with
          mappingRetryNs := c.mappingRetryNs.insert (c.mappingKey m) nowNs }
        m = result := ⟨_, rfl⟩
  rw [first] at opened
  have tried : Driven numbers { c with
      mappingRetryNs := c.mappingRetryNs.insert (c.mappingKey m) nowNs } :=
    { driven with }
  obtain ⟨read, known, grows, same⟩ := tried.openExactMapping first
  have pid : after.targetPid = c.targetPid := by rw [same]
  have key : after.mappingKey m = c.mappingKey m := by
    rw [Capture.mappingKey, pid]
    rfl
  have hit : Hit after.targetPid after.log (after.mappingKey m) := by
    rw [key, pid]
    exact hit.mono grows
  cases exact with
  | none =>
      cases opened
      have registered := read.registerMapping world
        (.inl hit) (fun real : [] ≠ [] => absurd rfl real) .none
      rw [registerMapping_frame]
      rw [registerMapping_frame] at registered
      exact ⟨registered, fun real => absurd rfl real, pid, grows⟩
  | some result =>
      obtain ⟨file, buildId⟩ := result
      have named := known file buildId rfl
      dsimp only at opened
      have cached : Driven numbers { after with
          mappingBuildIds :=
            after.mappingBuildIds.insert (c.mappingKey m) buildId } :=
        { read with
          cached := fun other id found => by
            rw [HashMap.lookup_insert_eq] at found
            split at found
            · next equal =>
                cases found
                rw [equal, ← key]
                exact named
            · exact read.cached other id found }
      have learned := cached.learn hit named
      obtain ⟨pid', grows'⟩ := learn_frame { after with
        mappingBuildIds :=
          after.mappingBuildIds.insert (c.mappingKey m) buildId } m buildId
      generalize Capture.learn { after with
        mappingBuildIds :=
          after.mappingBuildIds.insert (c.mappingKey m) buildId } m buildId =
        taught at opened learned pid' grows'
      have pid' : taught.targetPid = after.targetPid := pid'
      have hit : Hit taught.targetPid taught.log (taught.mappingKey m) := by
        rw [Capture.mappingKey, pid']
        exact hit.mono grows'
      have named : ReadAs taught.targetPid taught.log (taught.mappingKey m)
          buildId := by
        rw [Capture.mappingKey, pid']
        exact named.mono grows'
      have namedOpened : Opened taught m (some (file, buildId)) := by
        intro _ _ same
        cases same
        exact named
      have registered := learned.registerMapping world (.inl hit)
        (fun _ => named) namedOpened
      rw [registerMapping_frame] at opened registered
      have grown := List.Subset.trans grows grows'
      cases opened
      exact ⟨registered, fun _ => named, pid'.trans pid, grown⟩

theorem observeMapping (driven : Driven numbers c) {nowNs : Nat} {id : Bytes}
    (hit : Hit c.targetPid c.log (c.mappingKey m))
    (observed : c.observeMapping numbers world m nowNs = (id, next)) :
    Driven numbers next ∧ Known next m id ∧ next.targetPid = c.targetPid ∧
      c.log ⊆ next.log := by
  have marked : Driven numbers { c with
      observedMappings := insert (c.mappingKey m) c.observedMappings } :=
    { driven with
      mappings := fun key member => by
        obtain rfl | old := Finset.mem_insert.mp member
        · exact hit
        · exact driven.mappings key old }
  unfold Capture.observeMapping at observed
  dsimp only at observed
  split at observed
  · exact marked.openSampled hit observed
  · cases observed
    refine ⟨marked, fun real => ?_, rfl, List.Subset.refl _⟩
    unfold Capture.cachedId at real ⊢
    cases cached : c.mappingBuildIds.lookup (c.mappingKey m) with
    | none =>
        rw [cached] at real
        exact absurd rfl real
    | some id => exact driven.cached _ _ cached

theorem resolveMapped (driven : Driven numbers c) {pid pc nowNs : Nat}
    (hit : Hit c.targetPid c.log (c.mappingKey m))
    (named : Hit c.targetPid c.log (m.key pid)) :
    Driven numbers (c.resolveMapped numbers world pid pc nowNs m) := by
  obtain ⟨⟨id, next⟩, observed⟩ : ∃ result,
      c.observeMapping numbers world m nowNs = result := ⟨_, rfl⟩
  obtain ⟨seen, known, same, grows⟩ := driven.observeMapping hit observed
  unfold Capture.resolveMapped
  rw [observed]
  dsimp only
  have noted := seen.notePath id m.path
  split
  · exact noted
  · have grown : c.log ⊆ (next.notePath id m.path).log := by
      rw [Capture.notePath_frame]
      exact grows
    have target : (next.notePath id m.path).targetPid = c.targetPid := by
      rw [Capture.notePath_frame]
      exact same
    refine noted.register (.idFor (m.key pid) id) rfl ?_ ?_
    · rw [target]
      exact .inl (named.mono grown)
    · intro real
      obtain ⟨m', file, inode, read, about⟩ :=
        seen.readFromInode (known real) real
      refine ⟨m', file, inode, ?_, about⟩
      rw [Capture.notePath_frame]
      exact read

theorem resolveFrame {state : Capture × Bool} (driven : Driven numbers state.1)
    (pid nowNs : Nat) (frame : UserFrame) :
    Driven numbers
      (Capture.resolveFrame numbers world pid nowNs state frame).1 := by
  cases frame with
  | buildIdOffset buildId offset => exact driven
  | rawIp pc =>
      obtain ⟨c, reparsed⟩ := state
      unfold Capture.resolveFrame
      dsimp only
      split
      · exact driven
      · have scanned : Driven numbers
            (c.reparse numbers world pc nowNs reparsed) := by
          unfold Capture.reparse
          split
          · exact driven.refreshMaps nowNs false
          · exact driven
        generalize c.reparse numbers world pc nowNs reparsed = after
          at scanned ⊢
        have noted := scanned.note (.pc pid pc (after.maps.getD []))
          fun _ _ same => by cases same
        split
        · exact noted
        · next m found =>
            obtain ⟨member, low, high⟩ := findRange_sound found
            have here : Note.pc pid pc (after.maps.getD []) ∈
                (after.note (.pc pid pc (after.maps.getD []))).log :=
              List.mem_append_right _ List.mem_cons_self
            exact noted.resolveMapped
              ⟨pid, pc, _, m, here, member, low, high, .inl rfl⟩
              ⟨pid, pc, _, m, here, member, low, high, .inr rfl⟩

theorem internCallstack (driven : Driven numbers c) (frames : List UserFrame)
    (pid nowNs : Nat) :
    Driven numbers (c.internCallstack numbers world frames pid nowNs) := by
  have resolved : ∀ state : Capture × Bool, Driven numbers state.1 →
      Driven numbers (frames.foldl
        (Capture.resolveFrame numbers world pid nowNs) state).1 := by
    induction frames with
    | nil => exact fun _ driven => driven
    | cons frame rest induction =>
        exact fun state driven => induction _ (driven.resolveFrame pid nowNs
          frame)
  have observed : Driven numbers (c.observeBuildIds numbers world frames
      nowNs) := driven.observeBuildIds frames nowNs
  unfold Capture.internCallstack
  dsimp only
  apply resolved
  dsimp only
  split
  · exact observed.ensureMaps nowNs
  · exact observed

theorem act (driven : Driven numbers c) (event : Event) :
    Driven numbers (c.act numbers world event) := by
  cases event with
  | installMaps maps => exact driven.installMaps maps
  | refreshMaps nowNs force => exact driven.refreshMaps nowNs force
  | observeBuildIds frames nowNs => exact driven.observeBuildIds frames nowNs
  | internCallstack frames pid nowNs =>
      exact driven.internCallstack frames pid nowNs

theorem run (driven : Driven numbers c) (events : List Event) :
    Driven numbers (events.foldl (Capture.act numbers world) c) := by
  induction events generalizing c with
  | nil => exact driven
  | cons event rest induction => exact induction (driven.act event)

end Driven

/-- After every sequence of map scans and samples, retention is driven by
samples. -/
theorem retention_sampleDriven (numbers : DeviceNumbers) (world : World)
    (targetPid : Nat) (policy : KeepPolicy) (seed : BitVec 64)
    (events : List Event) :
    SampleDriven numbers (events.foldl (Capture.act numbers world)
      { targetPid := targetPid, modules := new policy seed }) := by
  have driven : Driven numbers (events.foldl (Capture.act numbers world)
      { targetPid := targetPid, modules := new policy seed }) :=
    (Driven.initial targetPid policy seed).run events
  exact
    { sampled := driven.sampled
      exact := fun key e _ found _ id member real =>
        (driven.exact key e found id member).resolve_left (by simp [real]) }

/-- The ids of registered files without the exception of synthetic ones. -/
def RetainsOnlyReadIds (numbers : DeviceNumbers) (c : Capture) : Prop :=
  ∀ key e inode, c.modules.entries.lookup key = some e →
    e.inode = some inode → ∀ id ∈ e.buildId :: e.aliases,
      ReadFromInode numbers c.log key id

def toolMapping : Mapping := ⟨4096, 8192, 0, 4096, 8, 1, 42, "/home/tool"⟩

def plainWorld : World where
  opens _ name :=
    if name = .mapFile 7 4096 8192 then some ⟨5, some (2049, 42), none⟩
    else none
  maps _ := some [toolMapping]

/-- The file of a sampled mapping is held under a synthetic id. -/
theorem not_retainsOnlyReadIds_plainWorld :
    ¬ RetainsOnlyReadIds smallDevices
      (Capture.act smallDevices plainWorld
        { targetPid := 7, modules := new .all 0 }
        (.internCallstack [.rawIp 4100] 7 5)) := by
  intro only
  obtain ⟨m, file, inode, read, buildId, -⟩ :=
    only (toolMapping.key 7) _ (2049, 42) rfl rfl _ List.mem_cons_self
  have known : Note.read m file ∈
      [Note.identified toolMapping [], .pc 7 4100 [toolMapping],
        .read toolMapping ⟨5, some (2049, 42), none⟩] := read
  simp only [List.mem_cons, reduceCtorEq, Note.read.injEq, List.not_mem_nil,
    or_false, false_or] at known
  rw [known.2] at buildId
  cases buildId

end Sismo.Retain
