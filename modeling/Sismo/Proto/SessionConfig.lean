import Sismo.Proto.SismoConfig

namespace Sismo.Proto

/-! The trace config of a session, and the data-source configs in it. -/

open Base128 Format ProtoReader

def modeRing : UInt32 := 0
def modeCapped : UInt32 := 1
def modeFile : UInt32 := 2

def kindTrackEvent : UInt32 := 0
def kindSismoVendor : UInt32 := 1
def kindLinuxFtrace : UInt32 := 2

def text (s : String) : Bytes := s.toUTF8.data.toList

structure DataSourceEntry where
  kind : UInt32
  name : Slice
  sismoConfig : Slice
  protovmMemoryLimitKb : UInt32

/-- Any kind but the two built-in ones is a vendor's. -/
def DataSourceEntry.IsVendor (entry : DataSourceEntry) : Prop :=
  entry.kind ≠ kindTrackEvent ∧ entry.kind ≠ kindLinuxFtrace

def encodeTrackEventConfig : Except Panic Slice := do
  let w ← ProtoWriter.new.writeString 2 (text "*")
  .ok w.toVec

def ftraceEvents : List Bytes :=
  [text "sched/sched_switch", text "sched/sched_waking",
    text "sched/sched_wakeup", text "sched/sched_process_exit",
    text "power/cpu_frequency", text "power/cpu_idle"]

def encodeFtraceConfig : Except Panic Slice := do
  let w ← ftraceEvents.foldlM (fun w e => w.writeString 1 e) ProtoWriter.new
  let compact ← ProtoWriter.new.writeUint32 1 1
  let w ← w.writeMessage 12 compact.bytes
  .ok w.toVec

namespace DataSourceEntry

/-- The entry as a `DataSourceConfig`. -/
def encode (entry : DataSourceEntry) : Except Panic Slice :=
  if entry.kind = kindTrackEvent then do
    let w ← ProtoWriter.new.writeString 1 (text "track_event")
    let config ← encodeTrackEventConfig
    let w ← w.writeMessage 113 config.val
    .ok w.toVec
  else if entry.kind = kindLinuxFtrace then do
    let w ← ProtoWriter.new.writeString 1 (text "linux.ftrace")
    let config ← encodeFtraceConfig
    let w ← w.writeMessage 100 config.val
    .ok w.toVec
  else do
    let w ← ProtoWriter.new.writeString 1 entry.name.val
    let w ← (
      if entry.sismoConfig.val ≠ [] then
        w.writeMessage 2000 entry.sismoConfig.val
      else .ok w)
    let w ← (
      if entry.protovmMemoryLimitKb > 0 then do
        let pvc ← ProtoWriter.new.writeUint32 1 entry.protovmMemoryLimitKb
        w.writeMessage 12 pvc.bytes
      else .ok w)
    .ok w.toVec

end DataSourceEntry

def encodeBufferConfig (sizeKb fillPolicy : UInt32) : Except Panic Slice := do
  let w ← ProtoWriter.new.writeUint32 1 sizeKb
  let w ← (if fillPolicy ≠ 0 then w.writeUint32 4 fillPolicy else .ok w)
  let w ← w.writeUint32 8 1
  .ok w.toVec

structure TraceParameters where
  mode : UInt32
  bufferSizeKb : UInt32
  durationMs : UInt32
  outputPath : Slice
  maxFileSizeBytes : UInt64
  sessionName : Slice

def writeMode (parameters : TraceParameters) (w : ProtoWriter) :
    Except Panic ProtoWriter :=
  if parameters.mode = modeRing then .ok w
  else if parameters.mode = modeCapped then
    w.writeUint32 3 parameters.durationMs
  else if parameters.mode = modeFile then do
    let w ← w.writeUint32 8 1
    let w ← w.writeUint64 10 parameters.maxFileSizeBytes
    let w ← w.writeUint32 9 1000
    w.writeString 29 parameters.outputPath.val
  else .ok w

def writeDataSource (w : ProtoWriter) (entry : DataSourceEntry) :
    Except Panic ProtoWriter := do
  let dsc ← entry.encode
  let ds ← ProtoWriter.new.writeMessage 1 dsc.val
  w.writeMessage 2 ds.bytes

def encodeTraceConfig (parameters : TraceParameters)
    (entries : List DataSourceEntry) : Except Panic Slice := do
  let fillPolicy := if parameters.mode = modeCapped then 2 else 1
  let buffer ← encodeBufferConfig parameters.bufferSizeKb fillPolicy
  let w ← ProtoWriter.new.writeMessage 1 buffer.val
  let w ← entries.foldlM writeDataSource w
  let w ← w.writeString 22 parameters.sessionName.val
  let w ← writeMode parameters w
  .ok w.toVec

/-! What the encoders write. -/

def dscTrackEventConfig : FieldNumber := field 113

def dscFtraceConfig : FieldNumber := field 100

def dscProtovmConfig : FieldNumber := field 12

def fieldFour : FieldNumber := field 4

def fieldEight : FieldNumber := field 8

def fieldNine : FieldNumber := field 9

def fieldTen : FieldNumber := field 10

def sessionNameField : FieldNumber := field 22

def outputPathField : FieldNumber := field 29

def ftraceWrites : List Write :=
  ftraceEvents.map (.string fieldOne) ++
    [.nested .writeMessage dscProtovmConfig [.uint32 fieldOne 1]]

def DataSourceEntry.writes (entry : DataSourceEntry) : List Write :=
  if entry.kind = kindTrackEvent then
    [.string fieldOne (text "track_event"),
      .nested .writeMessage dscTrackEventConfig [.string fieldTwo (text "*")]]
  else if entry.kind = kindLinuxFtrace then
    [.string fieldOne (text "linux.ftrace"),
      .nested .writeMessage dscFtraceConfig ftraceWrites]
  else
    .string fieldOne entry.name.val ::
      (fieldIf (entry.sismoConfig.val ≠ [])
          (.string dscSismoConfigField entry.sismoConfig.val) ++
        fieldIf (entry.protovmMemoryLimitKb > 0)
          (.nested .writeMessage dscProtovmConfig
            [.uint32 fieldOne entry.protovmMemoryLimitKb]))

def bufferWrites (sizeKb fillPolicy : UInt32) : List Write :=
  .uint32 fieldOne sizeKb ::
    (fieldIf (fillPolicy ≠ 0) (.uint32 fieldFour fillPolicy) ++
      [.uint32 fieldEight 1])

def modeWrites (parameters : TraceParameters) : List Write :=
  if parameters.mode = modeRing then []
  else if parameters.mode = modeCapped then
    [.uint32 fieldThree parameters.durationMs]
  else if parameters.mode = modeFile then
    [.uint32 fieldEight 1, .uint64 fieldTen parameters.maxFileSizeBytes,
      .uint32 fieldNine 1000, .string outputPathField parameters.outputPath.val]
  else []

def sourceWrites (entry : DataSourceEntry) : List Write :=
  [.nested .writeMessage fieldOne entry.writes]

def traceWrites (parameters : TraceParameters)
    (entries : List DataSourceEntry) : List Write :=
  .nested .writeMessage fieldOne (bufferWrites parameters.bufferSizeKb
      (if parameters.mode = modeCapped then 2 else 1)) ::
    (nestedEach fieldTwo sourceWrites entries ++
      .string sessionNameField parameters.sessionName.val ::
        modeWrites parameters)

section

open ProtoWriter

theorem bind_ok {α : Type} (x : Except Panic α) :
    (do
      let a ← x
      .ok a) = x := bind_pure x

theorem applyAll_map {α : Type} (write : α → Write) (list : List α)
    (w : ProtoWriter) :
    applyAll (list.map write) w =
      list.foldlM (fun w a => (write a).apply w) w := by
  induction list generalizing w with
  | nil => rfl
  | cons a rest induction =>
      rw [List.map_cons, applyAll, List.foldlM_cons]
      exact bind_congr induction

theorem encodeFtraceConfig_eq : encodeFtraceConfig = encoded ftraceWrites := by
  simp only [encoded, ftraceWrites, applyAll_append, applyAll_map, applyAll,
    Write.apply, bind_assoc, ok_bind]
  rfl

theorem DataSourceEntry.encode_eq (entry : DataSourceEntry) :
    entry.encode = encoded entry.writes := by
  unfold encode writes
  split
  · simp only [encodeTrackEventConfig, encoded, applyAll, Write.apply,
      bind_assoc, ok_bind]
    rfl
  · split
    · rw [encodeFtraceConfig_eq]
      simp only [encoded, applyAll, Write.apply, bind_assoc, ok_bind]
      rfl
    · simp only [encoded, applyAll, applyAll_append, applyAll_fieldIf,
        Write.apply, bind_assoc, ok_bind]
      rfl

theorem encodeBufferConfig_eq (sizeKb fillPolicy : UInt32) :
    encodeBufferConfig sizeKb fillPolicy =
      encoded (bufferWrites sizeKb fillPolicy) := by
  simp only [encoded, bufferWrites, applyAll, applyAll_append,
    applyAll_fieldIf, Write.apply, bind_assoc, ok_bind]
  rfl

theorem writeMode_eq (parameters : TraceParameters) (w : ProtoWriter) :
    writeMode parameters w = applyAll (modeWrites parameters) w := by
  unfold writeMode modeWrites
  split
  · rfl
  · split
    · exact (bind_ok _).symm
    · split
      · simp only [applyAll, Write.apply, bind_ok]
        rfl
      · rfl

theorem writeDataSource_eq : writeDataSource = fun w entry =>
    (Write.nested .writeMessage fieldTwo (sourceWrites entry)).apply w := by
  funext w entry
  unfold writeDataSource
  rw [entry.encode_eq]
  simp only [encoded, sourceWrites, applyAll, Write.apply, bind_assoc, ok_bind]
  rfl

theorem encodeTraceConfig_eq (parameters : TraceParameters)
    (entries : List DataSourceEntry) :
    encodeTraceConfig parameters entries =
      encoded (traceWrites parameters entries) := by
  unfold encodeTraceConfig
  dsimp only
  rw [encodeBufferConfig_eq, writeDataSource_eq]
  simp only [encoded, traceWrites, nestedEach, applyAll, applyAll_append,
    applyAll_map, writeMode_eq, Write.apply, bind_assoc, ok_bind]
  rfl

end

/-! No sub-message has a padded length. -/

theorem prefixFits_fieldIf {present : Prop} [Decidable present] {write : Write}
    (fits : write.PrefixFits) : PrefixFitsAll (fieldIf present write) :=
  prefixFitsAll_iff.mpr (forall_mem_fieldIf fun _ => fits)

theorem prefixFitsAll_append {front back : List Write}
    (first : PrefixFitsAll front) (second : PrefixFitsAll back) :
    PrefixFitsAll (front ++ back) :=
  prefixFitsAll_iff.mpr (List.forall_mem_append.mpr
    ⟨prefixFitsAll_iff.mp first, prefixFitsAll_iff.mp second⟩)

theorem ftraceWrites_fits : PrefixFitsAll ftraceWrites := by
  apply prefixFitsAll_append
  · apply prefixFitsAll_iff.mpr
    intro write member
    obtain ⟨e, _, rfl⟩ := List.mem_map.mp member
    trivial
  · exact ⟨⟨trivial, trivial⟩, trivial⟩

theorem writes_fits (entry : DataSourceEntry) : PrefixFitsAll entry.writes := by
  unfold DataSourceEntry.writes
  split
  · exact ⟨trivial, ⟨trivial, trivial⟩, trivial⟩
  · split
    · exact ⟨trivial, ftraceWrites_fits, trivial⟩
    · exact ⟨trivial, prefixFitsAll_append (prefixFits_fieldIf trivial)
        (prefixFits_fieldIf ⟨trivial, trivial⟩)⟩

theorem traceWrites_fits (parameters : TraceParameters)
    (entries : List DataSourceEntry) :
    PrefixFitsAll (traceWrites parameters entries) := by
  refine ⟨⟨trivial, prefixFitsAll_append (prefixFits_fieldIf trivial)
    ⟨trivial, trivial⟩⟩, prefixFitsAll_append ?_ ⟨trivial, ?_⟩⟩
  · apply prefixFitsAll_iff.mpr
    intro write member
    obtain ⟨entry, _, rfl⟩ := List.mem_map.mp member
    exact ⟨writes_fits entry, trivial⟩
  · unfold modeWrites
    split
    · trivial
    · split
      · exact ⟨trivial, trivial⟩
      · split
        · exact ⟨trivial, trivial, trivial, trivial, trivial⟩
        · trivial

/-! Reading the data sources. -/

/-- The slice has one data source for each config, in their order. -/
def Carries (out : Slice) (configs : List Slice) : Prop :=
  ∃ sources : List Slice,
    payloads fieldTwo out = .ok (sources.map (·.val)) ∧
    List.Forall₂ (fun source config =>
      payloads fieldOne source = .ok [config.val]) sources configs

theorem filterMap_payload_traceWrites (parameters : TraceParameters)
    (entries : List DataSourceEntry) :
    ((traceWrites parameters entries).map Write.item).filterMap
      (payload fieldTwo) =
      entries.map fun entry => encodeAll (sourceWrites entry) := by
  have mode : ((modeWrites parameters).map Write.item).filterMap
      (payload fieldTwo) = [] := by
    unfold modeWrites
    split
    · rfl
    · split
      · rfl
      · split <;> rfl
  have buffer (body : List Write) : payload fieldTwo
      (Write.nested .writeMessage fieldOne body).item = none := rfl
  have name (bytes : Bytes) : payload fieldTwo
      (Write.string sessionNameField bytes).item = none := rfl
  rw [traceWrites, List.map_cons, List.map_append, List.map_cons,
    List.filterMap_cons_none (buffer _), List.filterMap_append,
    filterMap_payload_nestedEach, List.filterMap_cons_none (name _), mode,
    List.append_nil]

theorem source_carries {entry : DataSourceEntry}
    (sized : (encodeAll (sourceWrites entry)).length ≤ isizeMax) :
    ∃ source config : Slice, source.val = encodeAll (sourceWrites entry) ∧
      entry.encode = .ok config ∧
      payloads fieldOne source = .ok [config.val] := by
  have inside : (encodeAll entry.writes).length ≤
      (encodeAll (sourceWrites entry)).length :=
    part_length_le List.mem_cons_self
  obtain ⟨source, -, same, fields⟩ | ⟨long, -⟩ :=
    @encoded_cases (sourceWrites entry) ⟨writes_fits entry, trivial⟩
  · obtain ⟨config, written, same', -⟩ | ⟨long, -⟩ :=
      encoded_cases (writes_fits entry)
    · refine ⟨source, config, same, entry.encode_eq.trans written, ?_⟩
      rw [fields.payloads, same']
      rfl
    · omega
  · omega

theorem sources_carry {entries : List DataSourceEntry}
    (sized : ∀ entry ∈ entries,
      (encodeAll (sourceWrites entry)).length ≤ isizeMax) :
    ∃ sources configs : List Slice,
      sources.map (·.val) =
        (entries.map fun entry => encodeAll (sourceWrites entry)) ∧
      entries.mapM DataSourceEntry.encode = .ok configs ∧
      List.Forall₂ (fun source config =>
        payloads fieldOne source = .ok [config.val]) sources configs := by
  induction entries with
  | nil => exact ⟨[], [], rfl, rfl, .nil⟩
  | cons entry rest induction =>
      obtain ⟨source, config, same, written, read⟩ :=
        source_carries (sized entry List.mem_cons_self)
      obtain ⟨sources, configs, same', written', read'⟩ :=
        induction fun e member => sized e (List.mem_cons_of_mem entry member)
      refine ⟨source :: sources, config :: configs, ?_, ?_, .cons read read'⟩
      · rw [List.map_cons, List.map_cons, same, same']
      · rw [List.mapM_cons, written, written']
        rfl

/-- The data-source configs are read back from the trace config, unless it
does not fit a vector. -/
theorem encodeTraceConfig_carries (parameters : TraceParameters)
    (entries : List DataSourceEntry) :
    (∃ out configs, encodeTraceConfig parameters entries = .ok out ∧
      entries.mapM DataSourceEntry.encode = .ok configs ∧
      Carries out configs) ∨
      isizeMax < (encodeAll (traceWrites parameters entries)).length ∧
        encodeTraceConfig parameters entries = .error .capacity := by
  rw [encodeTraceConfig_eq]
  obtain ⟨out, written, same, fields⟩ | full :=
    encoded_cases (traceWrites_fits parameters entries)
  · have sized : ∀ entry ∈ entries,
        (encodeAll (sourceWrites entry)).length ≤ isizeMax := by
      intro entry member
      have part : Write.nested .writeMessage fieldTwo (sourceWrites entry) ∈
          traceWrites parameters entries :=
        List.mem_cons_of_mem _ (List.mem_append_left _
          (List.mem_map_of_mem member))
      have bound := out.property
      rw [same] at bound
      exact (part_length_le part).trans bound
    obtain ⟨sources, configs, bodies, encodes, read⟩ := sources_carry sized
    refine .inl ⟨out, configs, written, encodes, sources, ?_, read⟩
    rw [fields.payloads, filterMap_payload_traceWrites, bodies]
  · exact .inr full

theorem configExtract_encode {entry : DataSourceEntry} {config : Slice}
    (vendor : entry.IsVendor) (written : entry.encode = .ok config) :
    configExtract config = .ok (
      if entry.sismoConfig.val = [] then none
      else some entry.sismoConfig.val) := by
  rw [entry.encode_eq] at written
  obtain ⟨bytes, written', -, fields⟩ | ⟨-, full⟩ :=
    encoded_cases (writes_fits entry)
  · rw [written] at written'
    cases written'
    rw [configExtract, fields.findMap]
    congr 1
    rw [DataSourceEntry.writes, if_neg vendor.1, if_neg vendor.2,
      List.map_cons, List.findSome?_cons, List.map_append,
      List.findSome?_append]
    have name : payload dscSismoConfigField
        (Write.string fieldOne entry.name.val).item = none := rfl
    have limit : ((fieldIf (entry.protovmMemoryLimitKb > 0)
        (.nested .writeMessage dscProtovmConfig
          [.uint32 fieldOne entry.protovmMemoryLimitKb])).map
        Write.item).findSome? (payload dscSismoConfigField) = none := by
      unfold fieldIf
      split
      · rfl
      · rfl
    rw [name, limit, Option.or_none]
    dsimp only
    unfold fieldIf
    by_cases empty : entry.sismoConfig.val = []
    · rw [if_neg (not_not_intro empty), if_pos empty]
      rfl
    · rw [if_pos empty, if_neg empty]
      rfl
  · rw [written] at full
    cases full

/-- A config survives the trace config: each decoder inverts its encoder, also
between other fields of the known wire types, and panics on no bytes; the data
sources of the trace config are read back in order, unless it does not fit a
vector; and a vendor's config bytes are found again in its data source. -/
theorem config_survives :
    (∀ targetPid intervalUs, RoundTrips (cpuEncode targetPid intervalUs)
      cpuDecode [1, 2] (targetPid, intervalUs)) ∧
    (∀ config, RoundTrips (heapEncode config) heapDecode [1, 2, 3] config) ∧
    (∀ config, RoundTrips (schedEncode config) schedDecode [1, 2, 3] config) ∧
    (∀ bytes, (∃ values, cpuDecode bytes = .ok values) ∧
      (∃ values, heapDecode bytes = .ok values) ∧
      (∃ values, schedDecode bytes = .ok values) ∧
      ∃ config, configExtract bytes = .ok config) ∧
    (∀ parameters entries,
      (∃ out configs, encodeTraceConfig parameters entries = .ok out ∧
        entries.mapM DataSourceEntry.encode = .ok configs ∧
        Carries out configs) ∨
      isizeMax < (encodeAll (traceWrites parameters entries)).length ∧
        encodeTraceConfig parameters entries = .error .capacity) ∧
    ∀ (entry : DataSourceEntry) config, entry.IsVendor →
      entry.encode = .ok config →
      configExtract config = .ok (
        if entry.sismoConfig.val = [] then none
        else some entry.sismoConfig.val) :=
  ⟨cpu_roundTrips, heap_roundTrips, sched_roundTrips, fun bytes =>
    ⟨eachVarintField_total _ _ bytes, eachVarintField_total _ _ bytes,
      eachVarintField_total _ _ bytes, configExtract_total bytes⟩,
    encodeTraceConfig_carries, fun _ _ vendor written =>
    configExtract_encode vendor written⟩

def heapSource : DataSourceEntry :=
  ⟨kindSismoVendor, ⟨text "heap", by decide⟩, ⟨[0x08, 0x2A], by decide⟩, 64⟩

theorem config_survives_heapSource :
    ∃ config, heapSource.encode = .ok config ∧
      configExtract config = .ok (some [0x08, 0x2A]) := by
  have vendor : heapSource.IsVendor := ⟨by decide, by decide⟩
  have tree : heapSource.writes =
      [.string fieldOne (text "heap"),
        .string dscSismoConfigField [0x08, 0x2A],
        .nested .writeMessage dscProtovmConfig [.uint32 fieldOne 64]] := rfl
  have size : (encodeAll heapSource.writes).length = 15 := by
    have name : (text "heap").length = 4 := rfl
    rw [tree]
    simp [encodeAll, Write.encode, tagBytes, lengthBytes, fieldOne,
      dscSismoConfigField, dscProtovmConfig, field_val, name, minimal_of_lt,
      minimal_of_le]
  obtain ⟨config, written, -⟩ | ⟨long, -⟩ :=
    encoded_cases (writes_fits heapSource)
  · rw [← heapSource.encode_eq] at written
    exact ⟨config, written,
      config_survives.2.2.2.2.2 heapSource config vendor written⟩
  · rw [size] at long
    exact absurd long (by decide)

/-- An empty group of field 9 hides the config behind it. -/
theorem config_behind_group :
    (∃ bytes, cpuEncode 42 0 = .ok bytes ∧ bytes.val = [0x08, 0x2A]) ∧
      cpuDecode ⟨[0x4B, 0x4C, 0x08, 0x2A], by decide⟩ = .ok (0, 0) := by
  have tree : encodeAll (cpuWrites 42 0) = [0x08, 0x2A] := by
    simp [cpuWrites, fieldIf, encodeAll, Write.encode, tagBytes,
      minimal_of_lt, fieldOne]
  refine ⟨?_, eachVarintField_unknown cpuField (0, 0) rfl
    ⟨by decide, by decide⟩⟩
  rw [cpuEncode_eq]
  obtain ⟨bytes, written, same, -⟩ | ⟨long, -⟩ :=
    @encoded_cases (cpuWrites 42 0) ⟨trivial, trivial⟩
  · exact ⟨bytes, written, same.trans tree⟩
  · rw [tree] at long
    exact absurd long (by decide)

end Sismo.Proto
