import Sismo.Proto.Parts
import Sismo.Samples.StreamDecodes

namespace Sismo.Samples.Wire

/-! The bytes of the captures' packets. -/

open Base128 Proto

def seqIncrementalStateCleared : UInt32 := 1
def seqNeedsIncrementalState : UInt32 := 2
def builtinClockMonotonic : UInt32 := 3
def sampleScopeThread : UInt32 := 2

/-! ### The interned data -/

/-- The table of a string: `mapping_paths`, `build_ids` or
`function_names`. -/
def stringField : StringField → FieldNumber
  | .mappingPath => field 17
  | .buildId => field 16
  | .functionName => field 5

def internedString (iid : UInt64) (bytes : Bytes) : List Write :=
  [.uint64 (field 1) iid, .string (field 2) bytes]

section

variable (iid buildIdIid pathIid : UInt64)

def virtualMapping (start end_ baseAvma offset : UInt64) : List Write :=
  .uint64 (field 1) iid ::
    (fieldIf (buildIdIid ≠ 0) (.uint64 (field 2) buildIdIid) ++
      [.uint64 (field 4) start, .uint64 (field 5) end_,
        .uint64 (field 6) baseAvma, .uint64 (field 8) offset,
        .uint64 (field 7) pathIid, .uint32 (field 9) 0])

def buildIdMapping : List Write :=
  [.uint64 (field 1) iid, .uint64 (field 2) buildIdIid, .uint64 (field 4) 0,
    .uint64 (field 5) 0, .uint64 (field 6) 0, .uint64 (field 8) 0,
    .uint64 (field 7) pathIid, .uint32 (field 9) 1]

def kernelMapping : List Write :=
  .uint64 (field 1) iid ::
    (fieldIf (buildIdIid ≠ 0) (.uint64 (field 2) buildIdIid) ++
      [.uint64 (field 6) (UInt64.ofNat kernelSynthBase),
        .uint64 (field 7) pathIid, .uint32 (field 9) 0])

def residualMapping : List Write :=
  [.uint64 (field 1) iid, .uint64 (field 7) pathIid, .uint32 (field 9) 0]

/-! The macOS emitter's mappings have no address space. -/

def imageMapping (base end_ : UInt64) : List Write :=
  .uint64 (field 1) iid ::
    (fieldIf (buildIdIid ≠ 0) (.uint64 (field 2) buildIdIid) ++
      [.uint64 (field 4) base, .uint64 (field 5) end_, .uint64 (field 6) base,
        .uint64 (field 8) 0, .uint64 (field 7) pathIid])

def labelMapping : List Write :=
  [.uint64 (field 1) iid, .uint64 (field 7) pathIid]

end

def frame (iid mappingIid relPc nameIid : UInt64) : List Write :=
  .uint64 (field 1) iid ::
    (fieldIf (nameIid ≠ 0) (.uint64 (field 2) nameIid) ++
      [.uint64 (field 3) mappingIid, .uint64 (field 4) relPc])

def callstack (iid : UInt64) (frameIids : List UInt64) : List Write :=
  .uint64 (field 1) iid :: frameIids.map (.uint64 (field 2))

/-- The writes of an entry; each kind of mapping has its own writer. -/
inductive EntryWrites : InternedEntry → FieldNumber → List Write → Prop
  | string (table : StringField) (iid : UInt64) (bytes : Bytes) :
      EntryWrites (.string table iid.toNat bytes) (stringField table)
        (internedString iid bytes)
  | virtualMapping
      (iid buildIdIid pathIid start end_ baseAvma offset : UInt64) :
      EntryWrites
        (.mapping iid.toNat
          { buildId := buildIdIid.toNat
            start := start.toNat
            end_ := end_.toNat
            loadBias := baseAvma.toNat
            exactOffset := offset.toNat
            path := pathIid.toNat })
        (field 19)
        (virtualMapping iid buildIdIid pathIid start end_ baseAvma offset)
  | buildIdMapping (iid buildIdIid pathIid : UInt64) :
      EntryWrites
        (.mapping iid.toNat
          { buildId := buildIdIid.toNat
            path := pathIid.toNat
            addressSpace := .fileOffset })
        (field 19) (buildIdMapping iid buildIdIid pathIid)
  | kernelMapping (iid buildIdIid pathIid : UInt64) :
      EntryWrites
        (.mapping iid.toNat
          { buildId := buildIdIid.toNat
            loadBias := kernelSynthBase
            path := pathIid.toNat })
        (field 19) (kernelMapping iid buildIdIid pathIid)
  | residualMapping (iid pathIid : UInt64) :
      EntryWrites (.mapping iid.toNat { path := pathIid.toNat }) (field 19)
        (residualMapping iid pathIid)
  | imageMapping (iid buildIdIid pathIid base end_ : UInt64) :
      EntryWrites
        (.mapping iid.toNat
          { buildId := buildIdIid.toNat
            start := base.toNat
            end_ := end_.toNat
            loadBias := base.toNat
            path := pathIid.toNat })
        (field 19) (imageMapping iid buildIdIid pathIid base end_)
  | labelMapping (iid pathIid : UInt64) :
      EntryWrites (.mapping iid.toNat { path := pathIid.toNat }) (field 19)
        (labelMapping iid pathIid)
  | frame (iid mappingIid relPc nameIid : UInt64) :
      EntryWrites
        (.frame iid.toNat ⟨mappingIid.toNat, relPc.toNat, nameIid.toNat⟩)
        (field 6) (frame iid mappingIid relPc nameIid)
  | callstack (iid : UInt64) (frameIids : List UInt64) :
      EntryWrites (.callstack iid.toNat (frameIids.map UInt64.toNat)) (field 7)
        (callstack iid frameIids)

def InternedWrite (entry : InternedEntry) (write : Write) : Prop :=
  ∃ number tree, EntryWrites entry number tree ∧
    write = .nested .message number tree

/-! ### The packets -/

/-- `write_perf_defaults_packet`. -/
def perfDefaultsPacket (timebaseName : Bytes) (timebaseFreq : UInt64)
    (followers : List Bytes)
    (sampleScope timestampClockId sequenceFlags : UInt32) : List Write :=
  fieldIf (sequenceFlags ≠ 0) (.uint32 (field 13) sequenceFlags) ++
    [.nested .message (field 59)
      (fieldIf (timestampClockId ≠ 0) (.uint32 (field 58) timestampClockId) ++
        [.nested .message (field 12)
          (.nested .message (field 1)
            (fieldIf (timebaseFreq ≠ 0) (.uint64 (field 2) timebaseFreq) ++
              [.string (field 10) timebaseName]) ::
            (followers.map (fun name =>
              .nested .message (field 4) [.string (field 4) name]) ++
              fieldIf (sampleScope ≠ 0) (.uint32 (field 5) sampleScope)))])]

/-- `write_perf_sample`. -/
def perfSample (cpu pid tid : UInt32) (callstackIid timebaseCount : UInt64)
    (followerCounts : List UInt64) (dataAddress : UInt64)
    (dataSymbol : Option Bytes) : List Write :=
  [.uint32 (field 1) cpu, .uint32 (field 2) pid, .uint32 (field 3) tid] ++
    (fieldIf (callstackIid ≠ 0) (.uint64 (field 4) callstackIid) ++
      (fieldIf (timebaseCount ≠ 0) (.uint64 (field 6) timebaseCount) ++
        (followerCounts.map (.uint64 (field 7)) ++
          (fieldIf (dataAddress ≠ 0) (.uint64 (field 20) dataAddress) ++
            dataSymbol.toList.map (.string (field 21))))))

/-- `build_perf_sample_packet`. -/
def perfSamplePacket (ts : UInt64) (interned sample : List Write) :
    List Write :=
  [.uint64 (field 8) ts, .uint32 (field 13) seqNeedsIncrementalState] ++
    (fieldIf (encodeAll interned ≠ [])
      (.nested .writeMessage (field 12) interned) ++
      [.nested .message (field 66) sample])

inductive PacketWrites : Packet → List Write → Prop
  | defaults (timebase : Bytes) (followers : List Bytes) :
      PacketWrites (.defaults timebase followers)
        (perfDefaultsPacket timebase 0 followers sampleScopeThread
          builtinClockMonotonic seqIncrementalStateCleared)
  | sample (ts : UInt64) (cpu pid tid : UInt32)
      (callstackIid timebaseCount : UInt64) (followerCounts : List UInt64)
      (dataAddress : UInt64) (dataSymbol : Option Bytes)
      {entries : List InternedEntry} {interned : List Write}
      (written : List.Forall₂ InternedWrite entries interned) :
      PacketWrites
        (.sample
          { ts := ts.toNat
            cpu := cpu.toNat
            pid := pid.toNat
            tid := tid.toNat
            callstackIid := callstackIid.toNat
            timebaseCount := timebaseCount.toNat
            followerCounts := followerCounts.map UInt64.toNat
            dataAddress := dataAddress.toNat
            dataSymbol := dataSymbol }
          entries)
        (perfSamplePacket ts interned
          (perfSample cpu pid tid callstackIid timebaseCount followerCounts
            dataAddress dataSymbol))

/-- The bytes that the writer has of a packet, if it is shorter than
32 GiB. -/
def Emitted (packet : Packet) (bytes : Bytes) : Prop :=
  ∃ tree w, PacketWrites packet tree ∧ (encodeAll tree).length < 2 ^ 35 ∧
    applyAll tree .new = .ok w ∧ w.bytes = bytes

/-! ### The reader -/

def number (items : List (UInt32 × WireValue)) (at_ : FieldNumber) : Nat :=
  (lastVarint at_ items).toNat

def readString (table : StringField) (items : List (UInt32 × WireValue)) :
    InternedEntry :=
  .string table (number items (field 1))
    ((items.filterMap (payload (field 2))).getLast?.getD [])

def readMapping (items : List (UInt32 × WireValue)) : InternedEntry :=
  .mapping (number items (field 1))
    { buildId := number items (field 2)
      start := number items (field 4)
      end_ := number items (field 5)
      loadBias := number items (field 6)
      exactOffset := number items (field 8)
      path := number items (field 7)
      addressSpace :=
        if number items (field 9) = 1 then .fileOffset else .virtualAddress }

def readFrame (items : List (UInt32 × WireValue)) : InternedEntry :=
  .frame (number items (field 1))
    ⟨number items (field 3), number items (field 4), number items (field 2)⟩

def readCallstack (items : List (UInt32 × WireValue)) : InternedEntry :=
  .callstack (number items (field 1))
    ((items.filterMap (varint (field 2))).map UInt64.toNat)

def readEntry : UInt32 × WireValue → Option InternedEntry
  | (number, .len bytes) =>
      (messageItems bytes).bind fun items =>
        if number = 17 then some (readString .mappingPath items)
        else if number = 16 then some (readString .buildId items)
        else if number = 5 then some (readString .functionName items)
        else if number = 19 then some (readMapping items)
        else if number = 6 then some (readFrame items)
        else if number = 7 then some (readCallstack items)
        else none
  | _ => none

def readInterned (items : List (UInt32 × WireValue)) :
    Option (List InternedEntry) :=
  items.mapM readEntry

def readSample (ts : Nat) (items : List (UInt32 × WireValue)) :
    Option PerfSamplePacket :=
  some
    { ts := ts
      cpu := number items (field 1)
      pid := number items (field 2)
      tid := number items (field 3)
      callstackIid := number items (field 4)
      timebaseCount := number items (field 6)
      followerCounts :=
        (items.filterMap (varint (field 7))).map UInt64.toNat
      dataAddress := number items (field 20)
      dataSymbol := (items.filterMap (payload (field 21))).getLast? }

def readName (nameField : FieldNumber) (items : List (UInt32 × WireValue)) :
    Option Bytes :=
  (items.filterMap (payload nameField)).getLast?

def readSampleDefaults (items : List (UInt32 × WireValue)) :
    Option Packet := do
  let timebases ← submessages (readName (field 10)) (field 1) items
  let timebase ← timebases.getLast?
  let followers ← submessages (readName (field 4)) (field 4) items
  some (.defaults timebase followers)

def readDefaults (items : List (UInt32 × WireValue)) : Option Packet := do
  let defaults ← submessages readSampleDefaults (field 12) items
  defaults.getLast?

/-- A packet that clears incremental state has the defaults, another one a
sample and the data interned for it. -/
def readPacket (bytes : Bytes) : Option Packet := do
  let items ← messageItems bytes
  if number items (field 13) = 1 then
    let defaults ← submessages readDefaults (field 59) items
    defaults.getLast?
  else
    let interned ← submessages readInterned (field 12) items
    let samples ← submessages (readSample (number items (field 8))) (field 66)
      items
    let sample ← samples.getLast?
    some (.sample sample interned.flatten)

/-! ### Entries are read back -/

theorem number_items (tree : List Write) (at_ : FieldNumber) :
    number (tree.map Write.item) at_ =
      ((numbersOf at_ tree).getLast?.getD 0).toNat :=
  rfl

theorem readMapping_virtual
    (iid buildIdIid pathIid start end_ baseAvma offset : UInt64) :
    readMapping ((virtualMapping iid buildIdIid pathIid start end_ baseAvma
      offset).map Write.item) =
      .mapping iid.toNat
        { buildId := buildIdIid.toNat
          start := start.toNat
          end_ := end_.toNat
          loadBias := baseAvma.toNat
          exactOffset := offset.toNat
          path := pathIid.toNat } := by
  by_cases zero : buildIdIid = 0
  · subst zero
    rfl
  · have written : fieldIf (buildIdIid ≠ 0) (.uint64 (field 2) buildIdIid) =
        [.uint64 (field 2) buildIdIid] := if_pos zero
    rw [virtualMapping, written]
    rfl

theorem readMapping_kernel (iid buildIdIid pathIid : UInt64) :
    readMapping ((kernelMapping iid buildIdIid pathIid).map Write.item) =
      .mapping iid.toNat
        { buildId := buildIdIid.toNat
          loadBias := kernelSynthBase
          path := pathIid.toNat } := by
  by_cases zero : buildIdIid = 0
  · subst zero
    rfl
  · have written : fieldIf (buildIdIid ≠ 0) (.uint64 (field 2) buildIdIid) =
        [.uint64 (field 2) buildIdIid] := if_pos zero
    rw [kernelMapping, written]
    rfl

theorem readMapping_image (iid buildIdIid pathIid base end_ : UInt64) :
    readMapping ((imageMapping iid buildIdIid pathIid base end_).map
      Write.item) =
      .mapping iid.toNat
        { buildId := buildIdIid.toNat
          start := base.toNat
          end_ := end_.toNat
          loadBias := base.toNat
          path := pathIid.toNat } := by
  by_cases zero : buildIdIid = 0
  · subst zero
    rfl
  · have written : fieldIf (buildIdIid ≠ 0) (.uint64 (field 2) buildIdIid) =
        [.uint64 (field 2) buildIdIid] := if_pos zero
    rw [imageMapping, written]
    rfl

theorem readFrame_frame (iid mappingIid relPc nameIid : UInt64) :
    readFrame ((frame iid mappingIid relPc nameIid).map Write.item) =
      .frame iid.toNat ⟨mappingIid.toNat, relPc.toNat, nameIid.toNat⟩ := by
  by_cases zero : nameIid = 0
  · subst zero
    rfl
  · have written : fieldIf (nameIid ≠ 0) (.uint64 (field 2) nameIid) =
        [.uint64 (field 2) nameIid] := if_pos zero
    rw [frame, written]
    rfl

theorem readCallstack_callstack (iid : UInt64) (frameIids : List UInt64) :
    readCallstack ((callstack iid frameIids).map Write.item) =
      .callstack iid.toNat (frameIids.map UInt64.toNat) := by
  have first : numbersOf (field 1) (callstack iid frameIids) = [iid] := by
    simp +decide only [callstack, numbersOf_uint64, numbersOf_repeated,
      if_true, if_false]
  have second : numbersOf (field 2) (callstack iid frameIids) = frameIids := by
    simp +decide only [callstack, numbersOf_uint64, numbersOf_repeated,
      if_true, if_false]
  rw [readCallstack, number_items, first]
  change InternedEntry.callstack _
    ((numbersOf (field 2) (callstack iid frameIids)).map UInt64.toNat) = _
  rw [second]
  rfl

section

variable (cpu pid tid : UInt32) (callstackIid timebaseCount : UInt64)
  (followerCounts : List UInt64) (dataAddress : UInt64)
  (dataSymbol : Option Bytes)

theorem numbersOf_perfSample (at_ : FieldNumber) :
    numbersOf at_ (perfSample cpu pid tid callstackIid timebaseCount
      followerCounts dataAddress dataSymbol) =
      numbersOf at_ [.uint32 (field 1) cpu, .uint32 (field 2) pid,
        .uint32 (field 3) tid] ++
      ((if (field 4).val = at_.val ∧ callstackIid ≠ 0 then [callstackIid]
        else []) ++
      ((if (field 6).val = at_.val ∧ timebaseCount ≠ 0 then [timebaseCount]
        else []) ++
      ((if (field 7).val = at_.val then followerCounts else []) ++
      (if (field 20).val = at_.val ∧ dataAddress ≠ 0 then [dataAddress]
        else [])))) := by
  simp only [perfSample, numbersOf_append, numbersOf_unlessZero,
    numbersOf_repeated, numbersOf_strings, List.append_nil]

theorem payloadsOf_perfSample :
    payloadsOf (field 21) (perfSample cpu pid tid callstackIid timebaseCount
      followerCounts dataAddress dataSymbol) = dataSymbol.toList := by
  simp only [perfSample, payloadsOf_append, payloadsOf_unlessZero,
    payloadsOf_repeated, payloadsOf_strings, payloadsOf_uint32,
    payloadsOf_nil, List.nil_append, if_true]

theorem readSample_perfSample (ts : Nat) :
    readSample ts ((perfSample cpu pid tid callstackIid timebaseCount
      followerCounts dataAddress dataSymbol).map Write.item) =
      some
        { ts := ts
          cpu := cpu.toNat
          pid := pid.toNat
          tid := tid.toNat
          callstackIid := callstackIid.toNat
          timebaseCount := timebaseCount.toNat
          followerCounts := followerCounts.map UInt64.toNat
          dataAddress := dataAddress.toNat
          dataSymbol := dataSymbol } := by
  have follower : numbersOf (field 7) (perfSample cpu pid tid callstackIid
      timebaseCount followerCounts dataAddress dataSymbol) =
      followerCounts := by
    simp +decide only [numbersOf_perfSample, numbersOf_uint32, numbersOf_nil,
      if_true, if_false, false_and, List.append_nil, List.nil_append]
  have symbol : (payloadsOf (field 21) (perfSample cpu pid tid callstackIid
      timebaseCount followerCounts dataAddress dataSymbol)).getLast? =
      dataSymbol := by
    rw [payloadsOf_perfSample]
    cases dataSymbol with
    | none => rfl
    | some symbol => rfl
  rw [numbersOf] at follower
  rw [payloadsOf] at symbol
  simp +decide only [readSample, follower, symbol, number_items,
    numbersOf_perfSample, numbersOf_uint32, numbersOf_nil, if_true, if_false,
    false_and, true_and, List.append_nil, List.nil_append, last_unlessZero,
    List.getLast?_singleton, Option.getD_some, UInt32.toNat_toUInt64]

end

theorem readEntry_message {entry : InternedEntry} {number : FieldNumber}
    {tree : List Write} (writes : EntryWrites entry number tree)
    (short : (encodeAll tree).length < 2 ^ 35) :
    readEntry (Write.nested .message number tree).item = some entry := by
  rw [Write.item, readEntry, messageItems_of_length short, Option.bind_some]
  cases writes with
  | string table iid bytes => cases table <;> rfl
  | virtualMapping iid buildIdIid pathIid start end_ baseAvma offset =>
      exact congrArg some (readMapping_virtual iid buildIdIid pathIid start
        end_ baseAvma offset)
  | buildIdMapping iid buildIdIid pathIid => rfl
  | kernelMapping iid buildIdIid pathIid =>
      exact congrArg some (readMapping_kernel iid buildIdIid pathIid)
  | residualMapping iid pathIid => rfl
  | imageMapping iid buildIdIid pathIid base end_ =>
      exact congrArg some (readMapping_image iid buildIdIid pathIid base end_)
  | labelMapping iid pathIid => rfl
  | frame iid mappingIid relPc nameIid =>
      exact congrArg some (readFrame_frame iid mappingIid relPc nameIid)
  | callstack iid frameIids =>
      exact congrArg some (readCallstack_callstack iid frameIids)

theorem readInterned_writes {entries : List InternedEntry}
    {interned : List Write}
    (written : List.Forall₂ InternedWrite entries interned)
    (short : (encodeAll interned).length < 2 ^ 35) :
    readInterned (interned.map Write.item) = some entries := by
  rw [readInterned]
  induction written with
  | nil => rfl
  | @cons entry write entries interned first rest induction =>
      obtain ⟨number, tree, writes, rfl⟩ := first
      rw [encodeAll, List.length_append] at short
      have body := body_length_le .message number tree
      rw [List.map_cons, List.mapM_cons,
        readEntry_message writes (by omega), induction (by omega)]
      rfl

/-! ### Packets are read back -/

section

variable (ts : UInt64) (interned sample : List Write)

theorem sampleFlags : numbersOf (field 13)
    (perfSamplePacket ts interned sample) = [2] := by
  simp +decide only [perfSamplePacket, List.cons_append, List.nil_append,
    numbersOf_uint64, numbersOf_uint32, numbersOf_append, numbersOf_fieldIf,
    numbersOf_nested, numbersOf_nil, ite_self, if_true, if_false,
    List.append_nil]

theorem sampleTime : numbersOf (field 8)
    (perfSamplePacket ts interned sample) = [ts] := by
  simp +decide only [perfSamplePacket, List.cons_append, List.nil_append,
    numbersOf_uint64, numbersOf_uint32, numbersOf_append, numbersOf_fieldIf,
    numbersOf_nested, numbersOf_nil, ite_self, if_true, if_false,
    List.append_nil]

theorem sampleInterned : payloadsOf (field 12)
    (perfSamplePacket ts interned sample) =
      if encodeAll interned ≠ [] then [encodeAll interned] else [] := by
  simp +decide only [perfSamplePacket, List.cons_append, List.nil_append,
    payloadsOf_uint64, payloadsOf_uint32, payloadsOf_append,
    payloadsOf_fieldIf, payloadsOf_nested, payloadsOf_nil, if_true, if_false,
    List.append_nil]

theorem samplePayload : payloadsOf (field 66)
    (perfSamplePacket ts interned sample) = [encodeAll sample] := by
  simp +decide only [perfSamplePacket, List.cons_append, List.nil_append,
    payloadsOf_uint64, payloadsOf_uint32, payloadsOf_append,
    payloadsOf_fieldIf, payloadsOf_nested, payloadsOf_nil, ite_self, if_true,
    if_false]

theorem sampleShort
    (short : (encodeAll (perfSamplePacket ts interned sample)).length <
      2 ^ 35) :
    (encodeAll interned).length < 2 ^ 35 ∧
      (encodeAll sample).length < 2 ^ 35 := by
  constructor
  · by_cases empty : encodeAll interned = []
    · rw [empty]
      decide
    · have member : Write.nested .writeMessage (field 12) interned ∈
          perfSamplePacket ts interned sample := by
        simp [perfSamplePacket, fieldIf, empty]
      exact part_short short member
  · have member : Write.nested .message (field 66) sample ∈
        perfSamplePacket ts interned sample := by
      simp [perfSamplePacket]
    exact part_short short member

variable {ts interned sample}

theorem readPacket_sample {entries : List InternedEntry}
    {packet : PerfSamplePacket}
    (written : List.Forall₂ InternedWrite entries interned)
    (reads : readSample ts.toNat (sample.map Write.item) = some packet)
    (short : (encodeAll (perfSamplePacket ts interned sample)).length <
      2 ^ 35) :
    readPacket (encodeAll (perfSamplePacket ts interned sample)) =
      some (.sample packet entries) := by
  obtain ⟨internedShort, packetShort⟩ := sampleShort ts interned sample short
  have flags : number ((perfSamplePacket ts interned sample).map Write.item)
      (field 13) = 2 := by
    rw [number_items, sampleFlags]
    rfl
  have time : number ((perfSamplePacket ts interned sample).map Write.item)
      (field 8) = ts.toNat := by
    rw [number_items, sampleTime]
    rfl
  have data : (submessages readInterned (field 12)
      ((perfSamplePacket ts interned sample).map Write.item)).map
        List.flatten = some entries := by
    rw [submessages_items, sampleInterned]
    by_cases empty : encodeAll interned = []
    · have none : interned = [] := by
        have le := length_le_encodeAll interned
        rw [empty] at le
        exact List.eq_nil_of_length_eq_zero (Nat.le_zero.mp le)
      rw [none] at written
      cases written
      rw [if_neg (not_not.mpr empty)]
      rfl
    · rw [if_pos empty, List.mapM_cons, messageItems_of_length internedShort,
        Option.bind_some, readInterned_writes written internedShort]
      simp
  have samples : submessages (readSample ts.toNat) (field 66)
      ((perfSamplePacket ts interned sample).map Write.item) =
        some [packet] := by
    rw [submessages_items, samplePayload, List.mapM_cons,
      messageItems_of_length packetShort, Option.bind_some, reads]
    rfl
  obtain ⟨parts, read, rfl⟩ := Option.map_eq_some_iff.mp data
  rw [readPacket, messageItems_of_length short, Option.bind_eq_bind,
    Option.bind_some, flags, if_neg (by decide), read, time, samples]
  rfl

end

/-! The defaults, from the inside out. -/

def timebaseMessage (name : Bytes) : List Write :=
  [.string (field 10) name]

def followerMessage (name : Bytes) : List Write :=
  [.string (field 4) name]

def sampleDefaults (timebase : Bytes) (followers : List Bytes) : List Write :=
  .nested .message (field 1) (timebaseMessage timebase) ::
    (followers.map (fun name =>
      .nested .message (field 4) (followerMessage name)) ++
      [.uint32 (field 5) sampleScopeThread])

def packetDefaults (timebase : Bytes) (followers : List Bytes) : List Write :=
  [.uint32 (field 58) builtinClockMonotonic,
    .nested .message (field 12) (sampleDefaults timebase followers)]

section

variable (timebase : Bytes) (followers : List Bytes)

theorem perfDefaultsPacket_eq :
    perfDefaultsPacket timebase 0 followers sampleScopeThread
      builtinClockMonotonic seqIncrementalStateCleared =
      [.uint32 (field 13) seqIncrementalStateCleared,
        .nested .message (field 59) (packetDefaults timebase followers)] :=
  rfl

theorem payloadsOf_followers (at_ : FieldNumber) :
    payloadsOf at_ (followers.map fun name =>
      .nested .message (field 4) (followerMessage name)) =
      if (field 4).val = at_.val then
        followers.map fun name => encodeAll (followerMessage name)
      else [] := by
  induction followers with
  | nil => simp [payloadsOf_nil]
  | cons name rest induction =>
      rw [List.map_cons, payloadsOf_nested, induction]
      split_ifs
      · rfl
      · rfl

theorem readSampleDefaults_items
    (short : (encodeAll (sampleDefaults timebase followers)).length < 2 ^ 35) :
    readSampleDefaults ((sampleDefaults timebase followers).map Write.item) =
      some (.defaults timebase followers) := by
  have first : submessages (readName (field 10)) (field 1)
      ((sampleDefaults timebase followers).map Write.item) =
        some [timebase] := by
    have payloads : payloadsOf (field 1) (sampleDefaults timebase followers) =
        [timebase].map fun name => encodeAll (timebaseMessage name) := by
      rw [List.map_singleton]
      simp +decide only [sampleDefaults, payloadsOf_nested, payloadsOf_append,
        payloadsOf_followers, payloadsOf_uint32, payloadsOf_nil, if_true,
        if_false, List.append_nil]
    refine (submessages_parts .message short payloads ?_ ?_).trans
      (congrArg some (List.map_id _))
    · intro name member
      obtain rfl := List.mem_singleton.mp member
      exact List.mem_cons_self
    · intro name _ _
      rfl
  have others : submessages (readName (field 4)) (field 4)
      ((sampleDefaults timebase followers).map Write.item) =
        some followers := by
    have payloads : payloadsOf (field 4) (sampleDefaults timebase followers) =
        followers.map fun name => encodeAll (followerMessage name) := by
      simp +decide only [sampleDefaults, payloadsOf_nested, payloadsOf_append,
        payloadsOf_followers, payloadsOf_uint32, payloadsOf_nil, if_true,
        if_false, List.append_nil]
    refine (submessages_parts .message short payloads ?_ ?_).trans
      (congrArg some (List.map_id _))
    · intro name member
      exact List.mem_cons_of_mem _ (List.mem_append_left _
        (List.mem_map_of_mem member))
    · intro name _ _
      rfl
  rw [readSampleDefaults, first, others]
  rfl

theorem readPacket_defaults
    (short : (encodeAll (perfDefaultsPacket timebase 0 followers
      sampleScopeThread builtinClockMonotonic
      seqIncrementalStateCleared)).length < 2 ^ 35) :
    readPacket (encodeAll (perfDefaultsPacket timebase 0 followers
      sampleScopeThread builtinClockMonotonic seqIncrementalStateCleared)) =
      some (.defaults timebase followers) := by
  rw [perfDefaultsPacket_eq] at short ⊢
  have outerShort : (encodeAll (packetDefaults timebase followers)).length <
      2 ^ 35 :=
    part_short short (List.mem_cons_of_mem _ (List.mem_singleton_self _))
  have innerShort : (encodeAll (sampleDefaults timebase followers)).length <
      2 ^ 35 :=
    part_short outerShort (List.mem_cons_of_mem _ (List.mem_singleton_self _))
  have inner : readDefaults ((packetDefaults timebase followers).map
      Write.item) = some (.defaults timebase followers) := by
    rw [readDefaults, submessages_items]
    have payloads : payloadsOf (field 12) (packetDefaults timebase followers) =
        [encodeAll (sampleDefaults timebase followers)] := rfl
    rw [payloads, List.mapM_cons, messageItems_of_length innerShort,
      Option.bind_some, readSampleDefaults_items timebase followers innerShort]
    rfl
  rw [readPacket, messageItems_of_length short, Option.bind_eq_bind,
    Option.bind_some, submessages_items]
  have payloads : payloadsOf (field 59)
      [.uint32 (field 13) seqIncrementalStateCleared,
        .nested .message (field 59) (packetDefaults timebase followers)] =
      [encodeAll (packetDefaults timebase followers)] := rfl
  rw [payloads, List.mapM_cons, messageItems_of_length outerShort,
    Option.bind_some, inner]
  rfl

end

theorem emitted_encodeAll {packet : Packet} {tree : List Write}
    (writes : PacketWrites packet tree)
    (short : (encodeAll tree).length < 2 ^ 35) :
    Emitted packet (encodeAll tree) := by
  obtain ⟨w, applied, same⟩ := applyAll_of_length short
  exact ⟨tree, w, writes, short, applied, same⟩

theorem readPacket_emitted {packet : Packet} {bytes : Bytes}
    (emitted : Emitted packet bytes) : readPacket bytes = some packet := by
  obtain ⟨tree, w, writes, short, written, rfl⟩ := emitted
  rw [applied_encodeAll short written]
  cases writes with
  | defaults timebase followers =>
      exact readPacket_defaults timebase followers short
  | sample ts cpu pid tid callstackIid timebaseCount followerCounts dataAddress
      dataSymbol entriesWritten =>
      exact readPacket_sample entriesWritten
        (readSample_perfSample cpu pid tid callstackIid timebaseCount
          followerCounts dataAddress dataSymbol ts.toNat) short

theorem readPackets_emitted {packets : List Packet} {bytes : List Bytes}
    (emitted : List.Forall₂ Emitted packets bytes) :
    bytes.mapM readPacket = some packets := by
  induction emitted with
  | nil => rfl
  | cons first rest induction =>
      rw [List.mapM_cons, readPacket_emitted first, induction]
      rfl

/-- The bytes are read back as packets that decode to the stacks of the
samples. -/
def BytesDecode (kernel : KernelInfo) (written : List Bytes)
    (samples : List CapturedSample) : Prop :=
  ∃ shown, (written.mapM readPacket).bind decode = some shown ∧
    List.Forall₂ (StackShown kernel) samples shown

theorem bytesDecode_emitted {kernel : KernelInfo} {packets : List Packet}
    {written : List Bytes} {samples : List CapturedSample}
    (decodes : Decodes kernel packets samples)
    (emitted : List.Forall₂ Emitted packets written) :
    BytesDecode kernel written samples := by
  obtain ⟨shown, decoded, shows⟩ := decodes
  refine ⟨shown, ?_, shows⟩
  rw [readPackets_emitted emitted, Option.bind_some, decoded]

/-- Whatever records are handled and however sessions restart, as long as each
kernel address is less than 2 GiB above the kernel's base, the bytes of each
sequence's packets are read back as the stacks of its samples. -/
theorem bytes_decode_to_captured (config : CaptureConfig)
    (actions : List Action)
    (near : (actions.foldl Captured.act {}).Near config.kernel) :
    ∃ capture, Machine.run (act config) {} actions = some capture ∧
      ∀ oncpu offcpu, List.Forall₂ Emitted capture.oncpu oncpu →
        List.Forall₂ Emitted capture.offcpu offcpu →
        BytesDecode config.kernel oncpu
          (actions.foldl Captured.act {}).oncpu ∧
        BytesDecode config.kernel offcpu
          (actions.foldl Captured.act {}).offcpu := by
  obtain ⟨capture, ran⟩ :=
    (run_isSome (.empty config) ⟨nofun, nofun⟩ actions).mpr near
  have follows := run_follows config (.empty config) ran
  exact ⟨capture, ran, fun oncpu offcpu oncpuEmitted offcpuEmitted =>
    ⟨bytesDecode_emitted follows.oncpu oncpuEmitted,
      bytesDecode_emitted follows.offcpu offcpuEmitted⟩⟩

section

def exampleConfig : CaptureConfig where
  kernel := { kbase := 0, kbuildId := [] }
  activeSlots := [0]
  counterNames _ := [99]
  cacheMissFocus := false

def exampleMapping : ProcMapping where
  start := 4096
  end_ := 8192
  offset := 0
  baseAvma := 4096
  path := [47]

def exampleHost : HostView where
  maps := { mappings := [exampleMapping], residualLabel := fun _ => none }
  reparsedMaps := { mappings := [], residualLabel := fun _ => none }
  runtimeIsPython := false
  pythonBpf := false
  pythonFrames := []
  pathForBuildId _ _ := []
  observeMapping _ _ := []
  idFor _ _ _ := []
  jitName _ _ := none

def exampleRecord : SampleRec where
  ts := 300
  pid := 7
  tid := 8
  nrFrames := 1
  counters _ := 200
  stack := [⟨.ip, [], 4100⟩]

def exampleActions : List Action :=
  [.start, .record (.sample exampleRecord) exampleHost fun _ => []]

def exampleSample : PerfSamplePacket where
  ts := 300
  cpu := 0
  pid := 7
  tid := 8
  callstackIid := 1
  timebaseCount := 200
  followerCounts := []
  dataAddress := 0
  dataSymbol := none

def exampleEntries : List InternedEntry :=
  [.string .mappingPath 1 [47],
    .mapping 1 { start := 4096, end_ := 8192, loadBias := 4096, path := 1 },
    .frame 1 ⟨1, 4100, 0⟩, .callstack 1 [1]]

def examplePackets : List Packet :=
  [.defaults [99] [], .sample exampleSample exampleEntries]

theorem exampleActions_packets :
    (Machine.run (act exampleConfig) {} exampleActions).map
      (fun capture => (capture.oncpu, capture.offcpu)) =
      some (examplePackets, []) := by
  decide

def exampleInterned : List Write :=
  [.nested .message (field 17) (internedString 1 [47]),
    .nested .message (field 19) (virtualMapping 1 0 1 4096 8192 4096 0),
    .nested .message (field 6) (frame 1 1 4100 0),
    .nested .message (field 7) (callstack 1 [1])]

theorem exampleEntries_writes :
    List.Forall₂ InternedWrite exampleEntries exampleInterned :=
  .cons ⟨_, _, .string .mappingPath 1 [47], rfl⟩
    (.cons ⟨_, _, .virtualMapping 1 0 1 4096 8192 4096 0, rfl⟩
      (.cons ⟨_, _, .frame 1 1 4100 0, rfl⟩
        (.cons ⟨_, _, .callstack 1 [1], rfl⟩ .nil)))

theorem examplePackets_emitted : ∃ first second,
    List.Forall₂ Emitted examplePackets [first, second] := by
  refine ⟨_, _, .cons (emitted_encodeAll (.defaults [99] []) ?_)
    (.cons (emitted_encodeAll
      (.sample 300 0 7 8 1 200 [] 0 none exampleEntries_writes) ?_) .nil)⟩
  · simp +decide [perfDefaultsPacket, fieldIf, encodeAll, Write.encode,
      tagBytes, lengthBytes, minimal, padded_length, reservedLen, field]
  · simp +decide [perfSamplePacket, perfSample, exampleInterned,
      internedString, virtualMapping, frame, callstack, fieldIf, encodeAll,
      Write.encode, tagBytes, lengthBytes, minimal, padded_length, reservedLen,
      field]

/-- A sample of one mapped frame, from its bytes. -/
theorem bytes_decode_to_captured_example : ∃ first second,
    BytesDecode exampleConfig.kernel [first, second]
      (exampleActions.foldl Captured.act {}).oncpu := by
  have near : (exampleActions.foldl Captured.act {}).Near
      exampleConfig.kernel :=
    ⟨fun sample member pc _ known => absurd rfl known, nofun⟩
  obtain ⟨capture, ran, decodes⟩ :=
    bytes_decode_to_captured exampleConfig exampleActions near
  have packets := exampleActions_packets
  rw [ran, Option.map_some] at packets
  obtain ⟨oncpu, offcpu⟩ := Prod.mk.inj (Option.some.inj packets)
  obtain ⟨first, second, emitted⟩ := examplePackets_emitted
  exact ⟨first, second, (decodes [first, second] [] (oncpu ▸ emitted)
    (offcpu ▸ .nil)).1⟩

end

end Sismo.Samples.Wire
