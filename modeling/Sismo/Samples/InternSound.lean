import Sismo.Samples.Agreement

namespace Sismo.Samples

/-! A writer that interns an item defines it for the reader. -/

variable {kbuildId : Bytes}

namespace Tables

variable {tables : Tables}

def Undefined (tables : Tables) : InternedEntry → Prop
  | .string field iid _ => (tables.strings field).lookup iid = none
  | .mapping iid _ => tables.mappings.lookup iid = none
  | .frame iid _ => tables.frames.lookup iid = none
  | .callstack iid _ => tables.callstacks.lookup iid = none

def put (tables : Tables) : InternedEntry → Tables
  | .string field iid bytes =>
      { tables with
        strings := Function.update tables.strings field
          ((tables.strings field).insert iid bytes) }
  | .mapping iid msg =>
      { tables with mappings := tables.mappings.insert iid msg }
  | .frame iid msg => { tables with frames := tables.frames.insert iid msg }
  | .callstack iid frameIids =>
      { tables with callstacks := tables.callstacks.insert iid frameIids }

theorem add_eq_put {entry : InternedEntry}
    (undefined : tables.Undefined entry) :
    tables.add entry = some (tables.put entry) := by
  cases entry <;>
    · simp only [Undefined] at undefined
      simp [add, put, define, undefined]

theorem le_put {entry : InternedEntry} (undefined : tables.Undefined entry) :
    tables.Le (tables.put entry) := by
  cases entry with
  | string field iid bytes =>
      refine ⟨fun other => ?_, .refl _, .refl _, .refl _⟩
      simp only [put]
      by_cases same : other = field
      · subst same
        rw [Function.update_self]
        exact .insert undefined bytes
      · rw [Function.update_of_ne same]
        exact .refl _
  | mapping iid msg =>
      exact ⟨fun _ => .refl _, .insert undefined msg, .refl _, .refl _⟩
  | frame iid msg =>
      exact ⟨fun _ => .refl _, .refl _, .insert undefined msg, .refl _⟩
  | callstack iid frameIids =>
      exact ⟨fun _ => .refl _, .refl _, .refl _, .insert undefined frameIids⟩

end Tables

/-! ### A definition of each kind keeps the agreement -/

section

variable {interner : Interner} {tables : Tables}

theorem Agrees.undefined_string (agrees : Agrees kbuildId interner tables)
    (field : StringField) (bytes : Bytes) :
    tables.Undefined (.string field (interner.strings field).next bytes) :=
  (agrees.strings field).next_undefined

theorem Agrees.string (agrees : Agrees kbuildId interner tables)
    (field : StringField) (bytes : Bytes) :
    Agrees kbuildId
      { interner with
        strings := Function.update interner.strings field
          ((interner.strings field).insert bytes) }
      (tables.put (.string field (interner.strings field).next bytes)) := by
  have le := Tables.le_put (agrees.undefined_string field bytes)
  refine ⟨fun other => ?_, agrees.mappings.imp fun _ _ => .mono le,
    agrees.frames.imp fun _ _ => .mono le,
    agrees.callstacks.imp fun _ _ => .mono le⟩
  simp only [Tables.put]
  by_cases same : other = field
  · subst same
    rw [Function.update_self, Function.update_self]
    exact (agrees.strings other).insert rfl
  · rw [Function.update_of_ne same, Function.update_of_ne same]
    exact agrees.strings other

theorem Agrees.undefined_mapping (agrees : Agrees kbuildId interner tables)
    (msg : MappingMsg) :
    tables.Undefined (.mapping interner.mappings.next msg) :=
  agrees.mappings.next_undefined

theorem Agrees.mapping (agrees : Agrees kbuildId interner tables)
    {key : MappingKey} {msg : MappingMsg}
    (means : MappingMeans kbuildId tables key msg) :
    Agrees kbuildId { interner with mappings := interner.mappings.insert key }
      (tables.put (.mapping interner.mappings.next msg)) := by
  have le := Tables.le_put (agrees.undefined_mapping msg)
  refine ⟨agrees.strings, ?_, agrees.frames.imp fun _ _ => .mono le,
    agrees.callstacks.imp fun _ _ => .mono le⟩
  exact (agrees.mappings.insert means).imp fun _ _ => .mono le

theorem Agrees.undefined_frame (agrees : Agrees kbuildId interner tables)
    (key : FrameKey) : tables.Undefined (.frame interner.frames.next key) :=
  agrees.frames.next_undefined

theorem Agrees.frame (agrees : Agrees kbuildId interner tables)
    {key : FrameKey} (means : (tables.decodeFrame key).isSome) :
    Agrees kbuildId { interner with frames := interner.frames.insert key }
      (tables.put (.frame interner.frames.next key)) := by
  have le := Tables.le_put (agrees.undefined_frame key)
  refine ⟨agrees.strings, agrees.mappings.imp fun _ _ => .mono le, ?_,
    agrees.callstacks.imp fun _ _ => .mono le⟩
  exact (agrees.frames.insert ⟨rfl, means⟩).imp fun _ _ => .mono le

theorem Agrees.undefined_callstack (agrees : Agrees kbuildId interner tables)
    (iids : List Nat) :
    tables.Undefined (.callstack interner.callstacks.next iids) :=
  agrees.callstacks.next_undefined

theorem Agrees.callstack (agrees : Agrees kbuildId interner tables)
    {iids : List Nat} (means : (tables.decodeFrames iids).isSome) :
    Agrees kbuildId
      { interner with callstacks := interner.callstacks.insert iids }
      (tables.put (.callstack interner.callstacks.next iids)) := by
  have le := Tables.le_put (agrees.undefined_callstack iids)
  refine ⟨agrees.strings, agrees.mappings.imp fun _ _ => .mono le,
    agrees.frames.imp fun _ _ => .mono le, ?_⟩
  exact (agrees.callstacks.insert ⟨rfl, means⟩).imp fun _ _ => .mono le

end

/-! ### Writers in the middle of a packet -/

/-- The interned data written so far takes the reader from its tables before
the packet to `tables`. -/
structure Writes (kbuildId : Bytes) (start : Tables) (w : Writer)
    (tables : Tables) : Prop where
  added : start.addAll w.idw = some tables
  agrees : Agrees kbuildId w.interner tables
  defined : ∀ entry ∈ w.idw, tables.defined entry = true

theorem Writes.begin {interner : Interner} {tables : Tables}
    (agrees : Agrees kbuildId interner tables) :
    Writes kbuildId tables { interner := interner } tables :=
  ⟨rfl, agrees, fun _ member => nomatch member⟩

theorem Writes.emit {start tables : Tables} {w : Writer}
    {interner : Interner} {entry : InternedEntry}
    (writes : Writes kbuildId start w tables)
    (undefined : tables.Undefined entry)
    (defined : tables.defined entry = true)
    (agrees : Agrees kbuildId interner (tables.put entry)) :
    Writes kbuildId start ({ w with interner := interner }.emit entry)
      (tables.put entry) where
  added := by
    have added := writes.added
    rw [Tables.addAll] at added ⊢
    rw [Writer.emit, List.foldlM_append, added, Option.bind_eq_bind,
      Option.bind_some, List.foldlM_cons, Tables.add_eq_put undefined]
    rfl
  agrees := agrees
  defined := by
    intro other member
    have le := Tables.le_put undefined
    rcases List.mem_append.mp member with old | new
    · exact Tables.defined_mono le (writes.defined other old)
    · rw [List.mem_singleton.mp new]
      exact Tables.defined_mono le defined

/-- From tables with `before`, the writer's step leads on to tables where its
result is as `after` says. -/
def Interns {α : Type} (kbuildId : Bytes) (before : Tables → Prop)
    (step : Writer → α × Writer) (after : Tables → α → Prop) : Prop :=
  ∀ start w tables, Writes kbuildId start w tables → before tables →
    ∃ later, Writes kbuildId start (step w).2 later ∧ tables.Le later ∧
      after later (step w).1

namespace Interns

variable {α β : Type} {before before' kept : Tables → Prop}
variable {step : Writer → α × Writer} {after after' : Tables → α → Prop}

theorem pure {value : α}
    (holds : ∀ tables, before tables → after tables value) :
    Interns kbuildId before (fun w => (value, w)) after :=
  fun _ _ tables writes ready =>
    ⟨tables, writes, .refl _, holds tables ready⟩

theorem imp (interns : Interns kbuildId before step after)
    (weaker : ∀ tables, before' tables → before tables)
    (stronger : ∀ tables value, after tables value → after' tables value) :
    Interns kbuildId before' step after' := by
  intro start w tables writes ready
  obtain ⟨later, written, le, holds⟩ :=
    interns start w tables writes (weaker tables ready)
  exact ⟨later, written, le, stronger _ _ holds⟩

/-- What stays true as the tables grow stays true over a step. -/
theorem keep (interns : Interns kbuildId (fun _ => True) step after)
    (stable : ∀ tables later : Tables, tables.Le later → kept tables →
      kept later) :
    Interns kbuildId kept step
      (fun tables value => after tables value ∧ kept tables) := by
  intro start w tables writes ready
  obtain ⟨later, written, le, holds⟩ := interns start w tables writes trivial
  exact ⟨later, written, le, holds, stable tables later le ready⟩

theorem bind {final : Tables → β → Prop}
    (first : Interns kbuildId before step after)
    (next : α → Writer → β × Writer)
    (second : ∀ value, Interns kbuildId (after · value) (next value) final) :
    Interns kbuildId before (fun w => next (step w).1 (step w).2) final := by
  intro start w tables writes ready
  obtain ⟨middle, written, le, holds⟩ := first start w tables writes ready
  obtain ⟨later, writtenLater, leLater, holdsLater⟩ :=
    second (step w).1 start (step w).2 middle written holds
  exact ⟨later, writtenLater, le.trans leLater, holdsLater⟩

end Interns

/-! ### Strings -/

def StringIs (field : StringField) (bytes : Bytes) (tables : Tables)
    (iid : Nat) : Prop :=
  iid ≠ 0 ∧ (tables.strings field).lookup iid = some bytes

theorem StringIs.mono {field : StringField} {bytes : Bytes}
    {tables later : Tables} {iid : Nat} (le : tables.Le later)
    (holds : StringIs field bytes tables iid) :
    StringIs field bytes later iid :=
  ⟨holds.1, le.strings field iid bytes holds.2⟩

theorem StringIs.stringAt {field : StringField} {bytes : Bytes}
    {tables : Tables} {iid : Nat} (holds : StringIs field bytes tables iid) :
    tables.stringAt field iid = some (some bytes) := by
  rw [Tables.stringAt, if_neg holds.1, holds.2, Option.map_some]

theorem internString_interns (field : StringField) (bytes : Bytes) :
    Interns kbuildId (fun _ => True) (·.internString field bytes)
      (StringIs field bytes) := by
  intro start w tables writes _
  unfold Writer.internString
  dsimp only
  split
  · next iid known =>
      obtain ⟨nonzero, content, defined, rfl⟩ :=
        (writes.agrees.strings field).known bytes iid known
      exact ⟨tables, writes, .refl _, nonzero, defined⟩
  · next unknown =>
      have undefined := writes.agrees.undefined_string field bytes
      refine ⟨_, writes.emit undefined rfl
        (writes.agrees.string field bytes), Tables.le_put undefined,
        (writes.agrees.strings field).next_pos.ne', ?_⟩
      simp only [Tables.put]
      rw [Function.update_self, HashMap.lookup_insert_eq, if_pos rfl]

theorem internBuildIdOpt_interns (raw : Bytes) :
    Interns kbuildId (fun _ => True) (·.internBuildIdOpt raw)
      fun tables iid =>
        tables.stringAt .buildId iid = some (optionalBuildId raw) := by
  unfold Writer.internBuildIdOpt optionalBuildId
  split
  · exact (internString_interns .buildId raw).imp (fun _ _ => trivial)
      fun _ _ => StringIs.stringAt
  · exact Interns.pure fun _ _ => rfl

/-! ### Mappings -/

structure SkipsMappings {α : Type} (step : Writer → α × Writer) : Prop where
  commutes : ∀ w mappings, step (w.setMappings mappings) =
    ((step w).1, (step w).2.setMappings mappings)
  keeps : ∀ w, (step w).2.interner.mappings = w.interner.mappings

theorem SkipsMappings.pure {α : Type} (value : α) :
    SkipsMappings fun w => (value, w) :=
  ⟨fun _ _ => rfl, fun _ => rfl⟩

theorem SkipsMappings.bind {α β : Type} {step : Writer → α × Writer}
    (first : SkipsMappings step) (next : α → Writer → β × Writer)
    (second : ∀ value, SkipsMappings (next value)) :
    SkipsMappings fun w => next (step w).1 (step w).2 where
  commutes w mappings := by
    rw [first.commutes, (second _).commutes]
  keeps w := by rw [(second _).keeps, first.keeps]

theorem internString_skipsMappings (field : StringField) (bytes : Bytes) :
    SkipsMappings (·.internString field bytes) where
  commutes w mappings := by
    unfold Writer.internString Writer.setMappings
    dsimp only
    split
    · rfl
    · rfl
  keeps w := by
    unfold Writer.internString
    dsimp only
    split
    · rfl
    · rfl

theorem internBuildIdOpt_skipsMappings (raw : Bytes) :
    SkipsMappings (·.internBuildIdOpt raw) := by
  unfold Writer.internBuildIdOpt
  split
  · exact internString_skipsMappings .buildId raw
  · exact .pure 0

theorem internMappingKey_interns {key : MappingKey}
    {message : Writer → MappingMsg × Writer} {mapping : DecodedMapping}
    {before : Tables → Prop} (skips : SkipsMappings message)
    (keyed : ∀ tables, before tables →
      key.decoded kbuildId tables = some mapping)
    (interns : Interns kbuildId before message
      fun tables msg => tables.decodeMapping msg = some mapping) :
    Interns kbuildId before (·.internMappingKey key message)
      fun tables iid => tables.mappingAt iid = some mapping := by
  intro start w tables writes ready
  unfold Writer.internMappingKey
  dsimp only
  split
  · next iid known =>
      obtain ⟨-, msg, defined, decoded, found, keyFound⟩ :=
        writes.agrees.mappings.known key iid known
      have same : decoded = mapping :=
        Option.some.inj (keyFound.symm.trans (keyed tables ready))
      refine ⟨tables, writes, .refl _, ?_⟩
      simp [Tables.mappingAt, defined, found, same]
  · obtain ⟨middle, written, le, found⟩ :=
      interns start w tables writes ready
    rw [skips.commutes, ← skips.keeps w]
    -- the definition follows the strings it names
    have means : MappingMeans kbuildId middle key (message w).1 :=
      ⟨mapping, found, MappingKey.decoded_mono le (keyed tables ready)⟩
    have undefined := written.agrees.undefined_mapping (message w).1
    have lePut := Tables.le_put undefined
    refine ⟨_, written.emit undefined (by simp [Tables.defined, found])
      (written.agrees.mapping means), le.trans lePut, ?_⟩
    have lookup : (middle.put (.mapping (message w).2.interner.mappings.next
        (message w).1)).mappings.lookup (message w).2.interner.mappings.next =
        some (message w).1 := by
      simp only [Tables.put]
      rw [HashMap.lookup_insert_eq, if_pos rfl]
    simp [Tables.mappingAt, lookup, Tables.decodeMapping_mono lePut found]

section

variable {path : Bytes} {buildId : Option Bytes}
variable {step : Writer → Nat × Writer} {mapping : DecodedMapping}

theorem moduleMapping_interns (key : MappingKey)
    (message : Nat → Nat → MappingMsg)
    (skips : SkipsMappings step)
    (interns : Interns kbuildId (fun _ => True) step
      fun tables iid => tables.stringAt .buildId iid = some buildId)
    (keyed : ∀ tables, key.decoded kbuildId tables = some mapping)
    (decodes : ∀ (tables : Tables) pathIid buildIdIid,
      (tables.strings .mappingPath).lookup pathIid = some path →
      tables.stringAt .buildId buildIdIid = some buildId →
      tables.decodeMapping (message pathIid buildIdIid) = some mapping) :
    Interns kbuildId (fun _ => True)
      (·.internMappingKey key fun w =>
        let (pathIid, w) := w.internPath path
        let (buildIdIid, w) := step w
        (message pathIid buildIdIid, w))
      fun tables iid => tables.mappingAt iid = some mapping := by
  let finish := fun pathIid buildIdIid (w : Writer) =>
    (message pathIid buildIdIid, w)
  let afterPath := fun pathIid w => finish pathIid (step w).1 (step w).2
  apply internMappingKey_interns
  · exact (internString_skipsMappings .mappingPath path).bind afterPath
      fun pathIid => skips.bind (finish pathIid) fun buildIdIid => .pure _
  · exact fun tables _ => keyed tables
  · refine (internString_interns .mappingPath path).bind afterPath
      fun pathIid => (interns.keep fun _ _ => StringIs.mono).bind
        (finish pathIid) fun buildIdIid => .pure fun tables holds => ?_
    exact decodes tables pathIid buildIdIid holds.2.2 holds.1

end

def userMapping (start end_ offset baseAvma : Nat) (path raw : Bytes) :
    DecodedMapping where
  buildId := optionalBuildId raw
  start := start
  end_ := end_
  loadBias := baseAvma
  exactOffset := offset
  path := some path
  addressSpace := .virtualAddress

theorem internMapping_interns (start end_ offset baseAvma : Nat)
    (path raw : Bytes) :
    Interns kbuildId (fun _ => True)
      (·.internMapping start end_ offset baseAvma path raw)
      fun tables iid => tables.mappingAt iid =
        some (userMapping start end_ offset baseAvma path raw) :=
  moduleMapping_interns
    (.virtual start end_ offset baseAvma path raw)
    (fun pathIid buildIdIid =>
      { buildId := buildIdIid
        start := start
        end_ := end_
        loadBias := baseAvma
        exactOffset := offset
        path := pathIid })
    (internBuildIdOpt_skipsMappings raw) (internBuildIdOpt_interns raw)
    (fun _ => rfl)
    (by
      intro tables pathIid buildIdIid path buildId
      simp [Tables.decodeMapping, path, buildId, userMapping])

def fileMapping (raw : Bytes) : DecodedMapping where
  buildId := some raw
  start := 0
  end_ := 0
  loadBias := 0
  exactOffset := 0
  path := none
  addressSpace := .fileOffset

theorem internBuildIdMapping_interns (raw path : Bytes) :
    Interns kbuildId (fun _ => True) (·.internBuildIdMapping raw path)
      fun tables iid => tables.mappingAt iid = some (fileMapping raw) :=
  moduleMapping_interns
    (.buildId raw)
    (fun pathIid buildIdIid =>
      { buildId := buildIdIid
        path := pathIid
        addressSpace := .fileOffset })
    (internString_skipsMappings .buildId raw)
    ((internString_interns .buildId raw).imp (fun _ holds => holds)
      fun _ _ => StringIs.stringAt)
    (fun _ => rfl)
    (by
      intro tables pathIid buildIdIid path buildId
      simp [Tables.decodeMapping, path, buildId, fileMapping])

def kernelMapping (kbuildId : Bytes) : DecodedMapping where
  buildId := optionalBuildId kbuildId
  start := 0
  end_ := 0
  loadBias := kernelSynthBase
  exactOffset := 0
  path := some (bytes "[kernel.kallsyms]")
  addressSpace := .virtualAddress

theorem internKernelMapping_interns :
    Interns kbuildId (fun _ => True) (·.internKernelMapping kbuildId)
      fun tables iid => tables.mappingAt iid =
        some (kernelMapping kbuildId) :=
  moduleMapping_interns
    .kernel
    (fun pathIid buildIdIid =>
      { buildId := buildIdIid
        loadBias := kernelSynthBase
        path := pathIid })
    (internBuildIdOpt_skipsMappings kbuildId)
    (internBuildIdOpt_interns kbuildId)
    (fun _ => rfl)
    (by
      intro tables pathIid buildIdIid path buildId
      simp [Tables.decodeMapping, path, buildId, kernelMapping])

def labelMapping (label : Bytes) : DecodedMapping where
  buildId := none
  start := 0
  end_ := 0
  loadBias := 0
  exactOffset := 0
  path := some label
  addressSpace := .virtualAddress

theorem internResidualMapping_interns (label : Bytes) :
    Interns kbuildId (fun _ => True) (·.internResidualMapping label)
      fun tables iid => tables.mappingAt iid = some (labelMapping label) := by
  refine (internString_interns .mappingPath label).bind
    (fun pathIid w => w.internMappingKey (.residual pathIid)
      fun w => ({ path := pathIid }, w)) fun pathIid => ?_
  apply internMappingKey_interns (.pure _)
  · intro tables holds
    simp [MappingKey.decoded, holds.2, labelMapping]
  · exact .pure fun tables holds => by
      simp [Tables.decodeMapping, Tables.stringAt, holds.2, labelMapping]

end Sismo.Samples
