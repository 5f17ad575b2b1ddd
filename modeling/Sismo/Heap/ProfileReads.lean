import Sismo.Heap.ProfilePacket

namespace Sismo.Heap.ProfilePacket

/-! A packet is read back as the tables it was written from. -/

open Proto

/-! Every write of a message fits its prefix. -/

theorem writeInternedString_prefixFits (entry : UInt64 × Bytes) :
    PrefixFitsAll (writeInternedString entry) :=
  prefixFitsAll_iff.mpr (by simp [writeInternedString, Write.PrefixFits])

theorem writeMapping_prefixFits (m : Mapping) :
    PrefixFitsAll (writeMapping m) :=
  prefixFitsAll_iff.mpr (by simp [writeMapping, Write.PrefixFits])

theorem writeFrame_prefixFits (f : Frame) : PrefixFitsAll (writeFrame f) :=
  prefixFitsAll_iff.mpr (by simp [writeFrame, Write.PrefixFits])

theorem writeCallstack_prefixFits (cs : Callstack) :
    PrefixFitsAll (writeCallstack cs) :=
  prefixFitsAll_iff.mpr (by simp [writeCallstack, Write.PrefixFits])

theorem writeSample_prefixFits (sample : Sample) :
    PrefixFitsAll (writeSample sample) :=
  prefixFitsAll_iff.mpr (by simp [writeSample, Write.PrefixFits])

theorem writeProcessDump_prefixFits (pid : UInt32)
    (samplingInterval timestampNs : UInt64) (td : TraceData) :
    PrefixFitsAll (writeProcessDump pid samplingInterval timestampNs td) := by
  apply prefixFitsAll_iff.mpr
  intro write member
  rw [writeProcessDump, List.mem_append] at member
  rcases member with first | sample
  · simp only [List.mem_cons, List.not_mem_nil, or_false] at first
    rcases first with rfl | rfl | rfl | rfl <;> trivial
  · obtain ⟨s, _, rfl⟩ := List.mem_map.mp sample
    exact writeSample_prefixFits s

/-! Each message is read back. -/

theorem readInternedString_write {entry : UInt64 × Bytes}
    (sized : (encodeAll (writeInternedString entry)).length ≤ isizeMax) :
    (messageItems (encodeAll (writeInternedString entry))).bind
      readInternedString = some entry := by
  rw [messageItems_encodeAll (writeInternedString_prefixFits entry) sized]
  rfl

theorem readMapping_write {m : Mapping}
    (sized : (encodeAll (writeMapping m)).length ≤ isizeMax) :
    (messageItems (encodeAll (writeMapping m))).bind readMapping = some m := by
  rw [messageItems_encodeAll (writeMapping_prefixFits m) sized]
  rfl

theorem readFrame_write {f : Frame}
    (sized : (encodeAll (writeFrame f)).length ≤ isizeMax) :
    (messageItems (encodeAll (writeFrame f))).bind readFrame = some f := by
  rw [messageItems_encodeAll (writeFrame_prefixFits f) sized]
  rfl

theorem readSample_write {s : Sample}
    (sized : (encodeAll (writeSample s)).length ≤ isizeMax) :
    (messageItems (encodeAll (writeSample s))).bind readSample = some s := by
  rw [messageItems_encodeAll (writeSample_prefixFits s) sized]
  rfl

theorem readCallstack_write {cs : Callstack}
    (sized : (encodeAll (writeCallstack cs)).length ≤ isizeMax) :
    (messageItems (encodeAll (writeCallstack cs))).bind readCallstack =
      some cs := by
  rw [messageItems_encodeAll (writeCallstack_prefixFits cs) sized]
  have ids : ((cs.frameIids.map (Write.uint64 csFrameIds)).map
      Write.item).filterMap (varint csFrameIds) = cs.frameIids := by
    have each : ∀ id ∈ cs.frameIids, (varint csFrameIds ∘ Write.item ∘
        Write.uint64 csFrameIds) id = some id := fun _ _ => rfl
    rw [List.map_map, List.filterMap_map, List.filterMap_congr each]
    exact List.filterMap_some
  have iid : ((cs.frameIids.map (Write.uint64 csFrameIds)).map
      Write.item).filterMap (varint csIid) = [] := by
    rw [List.filterMap_eq_nil_iff]
    intro item member
    rw [List.map_map] at member
    obtain ⟨id, _, rfl⟩ := List.mem_map.mp member
    rfl
  rw [Option.bind_some, writeCallstack, List.map_cons, readCallstack,
    lastVarint, List.filterMap_cons, List.filterMap_cons, ids, iid]
  rfl

/-! The tables. -/

section

variable {pid : UInt32} {samplingInterval timestampNs : UInt64}
  {td : TraceData}

theorem submessages_eq {α β : Type} (field : FieldNumber)
    (tree : α → List Write)
    (decode : List (UInt32 × WireValue) → Option β) (means : α → β)
    (list : List α) {writes : List Write}
    (sized : (encodeAll writes).length ≤ isizeMax)
    (within : ∀ write ∈ nestedEach field tree list, write ∈ writes)
    (payloads : (writes.map Write.item).filterMap (payload field) =
      list.map fun a => encodeAll (tree a))
    (decodes : ∀ a ∈ list, (encodeAll (tree a)).length ≤ isizeMax →
      (messageItems (encodeAll (tree a))).bind decode = some (means a)) :
    submessages decode field (writes.map Write.item) =
      some (list.map means) := by
  rw [submessages, payloads]
  refine mapM_encodeAll list fun a member => decodes a member ?_
  exact (part_length_le (within _ (List.mem_map_of_mem member))).trans sized

theorem submessages_self {α : Type} (field : FieldNumber)
    (tree : α → List Write) (decode : List (UInt32 × WireValue) → Option α)
    (list : List α) {writes : List Write}
    (sized : (encodeAll writes).length ≤ isizeMax)
    (within : ∀ write ∈ nestedEach field tree list, write ∈ writes)
    (payloads : (writes.map Write.item).filterMap (payload field) =
      list.map fun a => encodeAll (tree a))
    (decodes : ∀ a, (encodeAll (tree a)).length ≤ isizeMax →
      (messageItems (encodeAll (tree a))).bind decode = some a) :
    submessages decode field (writes.map Write.item) = some list := by
  rw [submessages_eq field tree decode id list sized within payloads
    fun a _ => decodes a, List.map_id]

theorem readProcessDump_write
    (sized : (encodeAll (writeProcessDump pid samplingInterval timestampNs
      td)).length ≤ isizeMax) :
    (messageItems (encodeAll (writeProcessDump pid samplingInterval timestampNs
      td))).bind readProcessDump = some td.samples := by
  rw [messageItems_encodeAll (writeProcessDump_prefixFits _ _ _ _) sized]
  have payloads : ((writeProcessDump pid samplingInterval timestampNs
      td).map Write.item).filterMap (payload phsSamples) =
      td.samples.map fun s => encodeAll (writeSample s) := by
    rw [writeProcessDump, List.map_append, List.filterMap_append,
      filterMap_payload_nestedEach]
    rfl
  exact submessages_self phsSamples writeSample readSample td.samples sized
    (fun write member => List.mem_append_right _ member) payloads
    fun s => readSample_write

def TraceData.profile (td : TraceData) : Profile where
  strings := td.pool
  mappings := td.mappings
  frames := td.frames
  callstacks := td.callstacks
  samples := td.samples

theorem writeProfilePacket_prefixFits (write : Write)
    (member : write ∈ writeProfilePacket pid samplingInterval timestampNs td) :
    write.PrefixFits := by
  simp only [writeProfilePacket, nestedEach, List.mem_append, List.mem_map,
    List.mem_singleton] at member
  rcases member with ⟨entry, _, rfl⟩ | ⟨m, _, rfl⟩ | ⟨f, _, rfl⟩ | ⟨cs, _, rfl⟩ |
    rfl
  · exact writeInternedString_prefixFits entry
  · exact writeMapping_prefixFits m
  · exact writeFrame_prefixFits f
  · exact writeCallstack_prefixFits cs
  · exact writeProcessDump_prefixFits _ _ _ _

theorem readProfile_write
    (sized : (encodeAll (writeProfilePacket pid samplingInterval timestampNs
      td)).length ≤ isizeMax) :
    (messageItems (encodeAll (writeProfilePacket pid samplingInterval
      timestampNs td))).bind readProfile = some td.profile := by
  have payloads : ∀ field : FieldNumber,
      ((writeProfilePacket pid samplingInterval timestampNs td).map
        Write.item).filterMap (payload field) =
      ((nestedEach ppStrings writeInternedString td.pool).map
        Write.item).filterMap (payload field) ++
      (((nestedEach ppMappings writeMapping td.mappings).map
        Write.item).filterMap (payload field) ++
      (((nestedEach ppFrames writeFrame td.frames).map
        Write.item).filterMap (payload field) ++
      (((nestedEach ppCallstacks writeCallstack td.callstacks).map
        Write.item).filterMap (payload field) ++
      ((nestedEach ppProcessDumps (writeProcessDump pid samplingInterval
        timestampNs) [td]).map Write.item).filterMap (payload field)))) := by
    intro field
    simp only [writeProfilePacket, List.map_append, List.filterMap_append]
    rfl
  have strings := submessages_self ppStrings writeInternedString
    readInternedString td.pool sized
    (fun write member => List.mem_append_left _ member)
    (by
      rw [payloads]
      simp (disch := decide) only [filterMap_payload_nestedEach,
        filterMap_payload_other, List.append_nil])
    fun entry => readInternedString_write
  have mappings := submessages_self ppMappings writeMapping readMapping
    td.mappings sized
    (fun write member => by simp [writeProfilePacket, member])
    (by
      rw [payloads]
      simp (disch := decide) only [filterMap_payload_nestedEach,
        filterMap_payload_other, List.append_nil, List.nil_append])
    fun m => readMapping_write
  have frames := submessages_self ppFrames writeFrame readFrame td.frames sized
    (fun write member => by simp [writeProfilePacket, member])
    (by
      rw [payloads]
      simp (disch := decide) only [filterMap_payload_nestedEach,
        filterMap_payload_other, List.append_nil, List.nil_append])
    fun f => readFrame_write
  have callstacks := submessages_self ppCallstacks writeCallstack readCallstack
    td.callstacks sized
    (fun write member => by simp [writeProfilePacket, member])
    (by
      rw [payloads]
      simp (disch := decide) only [filterMap_payload_nestedEach,
        filterMap_payload_other, List.append_nil, List.nil_append])
    fun cs => readCallstack_write
  have dumps := submessages_eq ppProcessDumps
    (writeProcessDump pid samplingInterval timestampNs) readProcessDump
    TraceData.samples [td] sized
    (fun write member => by
      rw [List.mem_singleton.mp member]
      simp [writeProfilePacket])
    (by
      rw [payloads]
      simp (disch := decide) only [filterMap_payload_nestedEach,
        filterMap_payload_other, List.nil_append])
    fun other member small => by
      rw [List.mem_singleton.mp member] at small ⊢
      exact readProcessDump_write small
  rw [messageItems_encodeAll
    (prefixFitsAll_iff.mpr writeProfilePacket_prefixFits) sized,
    Option.bind_some, readProfile, strings, mappings, frames, callstacks, dumps]
  simp [TraceData.profile]

def packetWrites (pid : UInt32) (samplingInterval timestampNs : UInt64)
    (td : TraceData) : List Write :=
  wrapTracePacket timestampNs seqIncrementalStateCleared tpProfilePacket
    (writeProfilePacket pid samplingInterval timestampNs td)

theorem mem_packetWrites {write : Write} :
    write ∈ packetWrites pid samplingInterval timestampNs td ↔
      (timestampNs ≠ 0 ∧ write = .uint64 tpTimestamp timestampNs) ∨
      write = .uint32 tpSequenceFlags seqIncrementalStateCleared ∨
      write = .nested .writeMessage tpProfilePacket
        (writeProfilePacket pid samplingInterval timestampNs td) := by
  have flags : seqIncrementalStateCleared ≠ 0 := by decide
  rw [packetWrites, wrapTracePacket, if_pos flags]
  split
  · next nonzero => simp [nonzero]
  · next zero => simp [not_not.mp zero]

theorem packetWrites_prefixFits :
    PrefixFitsAll (packetWrites pid samplingInterval timestampNs td) := by
  refine prefixFitsAll_iff.mpr fun write member => ?_
  rcases mem_packetWrites.mp member with ⟨_, rfl⟩ | rfl | rfl
  · trivial
  · trivial
  · exact prefixFitsAll_iff.mpr writeProfilePacket_prefixFits

theorem readPacket_encodeAll
    (sized : (encodeAll (packetWrites pid samplingInterval timestampNs
      td)).length ≤ isizeMax) :
    readPacket (encodeAll (packetWrites pid samplingInterval timestampNs td)) =
      some [td.profile] := by
  rw [readPacket, messageItems_encodeAll packetWrites_prefixFits sized]
  refine submessages_eq tpProfilePacket
    (writeProfilePacket pid samplingInterval timestampNs) readProfile
    TraceData.profile [td] sized (fun write member => ?_) ?_
    fun other member small => ?_
  · rw [List.mem_singleton.mp member]
    exact mem_packetWrites.mpr (.inr (.inr rfl))
  · have flags : seqIncrementalStateCleared ≠ 0 := by decide
    rw [packetWrites, wrapTracePacket, if_pos flags]
    split <;> rfl
  · rw [List.mem_singleton.mp member] at small ⊢
    exact readProfile_write small

theorem lengths_le_encodeAll :
    td.strings.length + (td.mappings.length + (td.frames.length +
      td.callstacks.length)) ≤
      (encodeAll (packetWrites pid samplingInterval timestampNs td)).length := by
  have tables : td.strings.length + (td.mappings.length + (td.frames.length +
      (td.callstacks.length + 1))) =
      (writeProfilePacket pid samplingInterval timestampNs td).length := by
    simp only [writeProfilePacket, nestedEach, List.length_append,
      List.length_map, List.length_singleton, TraceData.pool,
      List.length_mapIdx]
  have writes := length_le_encodeAll
    (writeProfilePacket pid samplingInterval timestampNs td)
  have last : .nested .writeMessage tpProfilePacket
      (writeProfilePacket pid samplingInterval timestampNs td) ∈
      packetWrites pid samplingInterval timestampNs td :=
    mem_packetWrites.mpr (.inr (.inr rfl))
  have whole := part_length_le last
  omega

end

end Sismo.Heap.ProfilePacket
