import Sismo.Lib.Bisect
import Sismo.Lib.HashMap
import Sismo.Proto.Message

namespace Sismo.Heap.ProfilePacket

/-! The heap profile's packet: the interned tables of images and sites, and
their bytes. -/

open Proto

structure HeapImage where
  baseAvma : UInt64
  path : Bytes

/-- The images are in the order of their bases. -/
structure HeapImages where
  list : List HeapImage
  sorted : list.Pairwise fun first second => first.baseAvma ≤ second.baseAvma

structure HeapSite where
  pcs : List UInt64
  count : UInt64
  totalSize : UInt64
  freed : UInt64
  freeCount : UInt64

structure Mapping where
  iid : UInt64
  pathStringIid : UInt64
  start : UInt64
  stop : UInt64
  loadBias : UInt64
  deriving DecidableEq

structure Frame where
  iid : UInt64
  functionNameIid : UInt64
  mappingIid : UInt64
  relPc : UInt64
  deriving DecidableEq

structure Callstack where
  iid : UInt64
  frameIids : List UInt64
  deriving DecidableEq

structure Sample where
  callstackIid : UInt64
  selfAllocated : UInt64
  selfFreed : UInt64
  allocCount : UInt64
  freeCount : UInt64
  deriving DecidableEq

structure TraceData where
  strings : List Bytes
  mappings : List Mapping
  frames : List Frame
  callstacks : List Callstack
  samples : List Sample

def iidAt (index : Nat) : UInt64 := UInt64.ofNat (index + 1)

def mappingOf (index : Nat) (image : HeapImage) : Mapping where
  iid := iidAt index
  pathStringIid := iidAt index
  start := image.baseAvma
  stop := image.baseAvma
  loadBias := 0

/-- How many images lie before the first one above a pc. -/
def imagesBelow (images : List HeapImage) (pc : UInt64) : Nat :=
  partitionPoint (·.baseAvma ≤ pc) images

/-- The mapping of a pc and its base: the last image before, or the first
mapping and zero. -/
def mappingFor (images : List HeapImage) (pc : UInt64) : UInt64 × UInt64 :=
  let j := imagesBelow images pc
  match images[j - 1]? with
  | some image => if 0 < j then (UInt64.ofNat j, image.baseAvma) else (1, 0)
  | none => (1, 0)

structure Tables where
  strings : List Bytes
  frames : List Frame
  frameByPc : HashMap UInt64 UInt64

section

-- The name that the symbolizer has for a pc, "?" when it has none.
variable (resolveName : UInt64 → Bytes) (images : List HeapImage)

def internFrame (t : Tables) (pc : UInt64) : Tables × UInt64 :=
  match t.frameByPc.lookup pc with
  | some fid => (t, fid)
  | none =>
      let strings := t.strings ++ [resolveName pc]
      let mapping := mappingFor images pc
      let iid := iidAt t.frames.length
      let frame : Frame :=
        { iid := iid
          functionNameIid := UInt64.ofNat strings.length
          mappingIid := mapping.1
          relPc := pc - mapping.2 }
      ({ strings := strings
         frames := t.frames ++ [frame]
         frameByPc := t.frameByPc.insert pc iid }, iid)

def internFrames (t : Tables) : List UInt64 → Tables × List UInt64
  | [] => (t, [])
  | pc :: rest =>
      let first := internFrame resolveName images t pc
      let later := internFrames first.1 rest
      (later.1, first.2 :: later.2)

/-- The callstacks of sites, root first. -/
def internSites (t : Tables) : List HeapSite → Tables × List (List UInt64)
  | [] => (t, [])
  | site :: rest =>
      let stack := internFrames resolveName images t site.pcs.reverse
      let later := internSites stack.1 rest
      (later.1, stack.2 :: later.2)

def sampleOf (index : Nat) (site : HeapSite) : Sample where
  callstackIid := iidAt index
  selfAllocated := site.totalSize
  selfFreed := site.freed
  allocCount := site.count
  freeCount := site.freeCount

def buildTraceData (sites : List HeapSite) : TraceData :=
  let interned := internSites resolveName images
    { strings := images.map HeapImage.path, frames := [], frameByPc := ∅ } sites
  { strings := interned.1.strings
    mappings := images.mapIdx mappingOf
    frames := interned.1.frames
    callstacks := interned.2.mapIdx fun index frameIids =>
      { iid := iidAt index, frameIids := frameIids }
    samples := sites.mapIdx sampleOf }

end

/-! The writes of a packet. -/

theorem fieldNumber_one :
    1 ≤ (1 : UInt32).toNat ∧ (1 : UInt32).toNat < 2 ^ 29 := by
  decide

def tpTimestamp : FieldNumber := ⟨8, by decide, by decide⟩
def tpSequenceFlags : FieldNumber := ⟨13, by decide, by decide⟩
def tpProfilePacket : FieldNumber := ⟨37, by decide, by decide⟩

def seqIncrementalStateCleared : UInt32 := 1

def isIid : FieldNumber := ⟨1, fieldNumber_one⟩
def isStr : FieldNumber := ⟨2, by decide, by decide⟩

def mapIid : FieldNumber := ⟨1, fieldNumber_one⟩
def mapStart : FieldNumber := ⟨4, by decide, by decide⟩
def mapEnd : FieldNumber := ⟨5, by decide, by decide⟩
def mapLoadBias : FieldNumber := ⟨6, by decide, by decide⟩
def mapPathStringIds : FieldNumber := ⟨7, by decide, by decide⟩

def frameIid : FieldNumber := ⟨1, fieldNumber_one⟩
def frameFunctionNameId : FieldNumber := ⟨2, by decide, by decide⟩
def frameMappingId : FieldNumber := ⟨3, by decide, by decide⟩
def frameRelPc : FieldNumber := ⟨4, by decide, by decide⟩

def csIid : FieldNumber := ⟨1, fieldNumber_one⟩
def csFrameIds : FieldNumber := ⟨2, by decide, by decide⟩

def ppStrings : FieldNumber := ⟨1, fieldNumber_one⟩
def ppFrames : FieldNumber := ⟨2, by decide, by decide⟩
def ppCallstacks : FieldNumber := ⟨3, by decide, by decide⟩
def ppMappings : FieldNumber := ⟨4, by decide, by decide⟩
def ppProcessDumps : FieldNumber := ⟨5, by decide, by decide⟩

def phsPid : FieldNumber := ⟨1, fieldNumber_one⟩
def phsSamples : FieldNumber := ⟨2, by decide, by decide⟩
def phsTimestamp : FieldNumber := ⟨9, by decide, by decide⟩
def phsHeapName : FieldNumber := ⟨11, by decide, by decide⟩
def phsSamplingIntervalBytes : FieldNumber := ⟨12, by decide, by decide⟩

def hsCallstackId : FieldNumber := ⟨1, fieldNumber_one⟩
def hsSelfAllocated : FieldNumber := ⟨2, by decide, by decide⟩
def hsSelfFreed : FieldNumber := ⟨3, by decide, by decide⟩
def hsAllocCount : FieldNumber := ⟨5, by decide, by decide⟩
def hsFreeCount : FieldNumber := ⟨6, by decide, by decide⟩

def heapName : Bytes := [108, 105, 98, 99, 46, 109, 97, 108, 108, 111, 99]

def writeInternedString (entry : UInt64 × Bytes) : List Write :=
  [.uint64 isIid entry.1, .string isStr entry.2]

def writeMapping (m : Mapping) : List Write :=
  [.uint64 mapIid m.iid, .uint64 mapStart m.start, .uint64 mapEnd m.stop,
    .uint64 mapLoadBias m.loadBias, .uint64 mapPathStringIds m.pathStringIid]

def writeFrame (f : Frame) : List Write :=
  [.uint64 frameIid f.iid, .uint64 frameFunctionNameId f.functionNameIid,
    .uint64 frameMappingId f.mappingIid, .uint64 frameRelPc f.relPc]

def writeCallstack (cs : Callstack) : List Write :=
  .uint64 csIid cs.iid :: cs.frameIids.map (.uint64 csFrameIds)

def writeSample (s : Sample) : List Write :=
  [.uint64 hsCallstackId s.callstackIid, .uint64 hsSelfAllocated s.selfAllocated,
    .uint64 hsSelfFreed s.selfFreed, .uint64 hsAllocCount s.allocCount,
    .uint64 hsFreeCount s.freeCount]

def TraceData.pool (td : TraceData) : List (UInt64 × Bytes) :=
  td.strings.mapIdx fun index string => (iidAt index, string)

def writeProcessDump (pid : UInt32) (samplingInterval timestampNs : UInt64)
    (td : TraceData) : List Write :=
  [.uint64 phsPid pid.toUInt64, .uint64 phsTimestamp timestampNs,
    .string phsHeapName heapName,
    .uint64 phsSamplingIntervalBytes samplingInterval] ++
    nestedEach phsSamples writeSample td.samples

/-- `encode_profile_packet`. -/
def writeProfilePacket (pid : UInt32) (samplingInterval timestampNs : UInt64)
    (td : TraceData) : List Write :=
  nestedEach ppStrings writeInternedString td.pool ++
    (nestedEach ppMappings writeMapping td.mappings ++
      (nestedEach ppFrames writeFrame td.frames ++
        (nestedEach ppCallstacks writeCallstack td.callstacks ++
          [.nested .writeMessage ppProcessDumps
            (writeProcessDump pid samplingInterval timestampNs td)])))

def wrapTracePacket (timestampNs : UInt64) (sequenceFlags : UInt32)
    (payloadFieldTag : FieldNumber) (payload : List Write) : List Write :=
  (if timestampNs ≠ 0 then [.uint64 tpTimestamp timestampNs] else []) ++
    ((if sequenceFlags ≠ 0 then [.uint32 tpSequenceFlags sequenceFlags]
      else []) ++
      [.nested .writeMessage payloadFieldTag payload])

/-- `build_profile_packet`: the writer with the packet's bytes, unless they do
not fit a vector. -/
def buildProfilePacket (resolveName : UInt64 → Bytes) (pid : UInt32)
    (samplingInterval timestampNs : UInt64) (images : HeapImages)
    (sites : List HeapSite) : Except Panic ProtoWriter :=
  applyAll (wrapTracePacket timestampNs seqIncrementalStateCleared
    tpProfilePacket (writeProfilePacket pid samplingInterval timestampNs
      (buildTraceData resolveName images.list sites))) .new

/-! The packet as a reader has it. -/

/-- The interned tables and the samples of a packet. -/
structure Profile where
  strings : List (UInt64 × Bytes)
  mappings : List Mapping
  frames : List Frame
  callstacks : List Callstack
  samples : List Sample

def readInternedString (items : List (UInt32 × WireValue)) :
    Option (UInt64 × Bytes) :=
  some (lastVarint isIid items,
    (items.filterMap (payload isStr)).getLast?.getD [])

def readMapping (items : List (UInt32 × WireValue)) : Option Mapping :=
  some
    { iid := lastVarint mapIid items
      pathStringIid := lastVarint mapPathStringIds items
      start := lastVarint mapStart items
      stop := lastVarint mapEnd items
      loadBias := lastVarint mapLoadBias items }

def readFrame (items : List (UInt32 × WireValue)) : Option Frame :=
  some
    { iid := lastVarint frameIid items
      functionNameIid := lastVarint frameFunctionNameId items
      mappingIid := lastVarint frameMappingId items
      relPc := lastVarint frameRelPc items }

def readCallstack (items : List (UInt32 × WireValue)) : Option Callstack :=
  some
    { iid := lastVarint csIid items
      frameIids := items.filterMap (varint csFrameIds) }

def readSample (items : List (UInt32 × WireValue)) : Option Sample :=
  some
    { callstackIid := lastVarint hsCallstackId items
      selfAllocated := lastVarint hsSelfAllocated items
      selfFreed := lastVarint hsSelfFreed items
      allocCount := lastVarint hsAllocCount items
      freeCount := lastVarint hsFreeCount items }

def readProcessDump (items : List (UInt32 × WireValue)) :
    Option (List Sample) :=
  submessages readSample phsSamples items

def readProfile (items : List (UInt32 × WireValue)) : Option Profile := do
  let strings ← submessages readInternedString ppStrings items
  let mappings ← submessages readMapping ppMappings items
  let frames ← submessages readFrame ppFrames items
  let callstacks ← submessages readCallstack ppCallstacks items
  let dumps ← submessages readProcessDump ppProcessDumps items
  some
    { strings := strings
      mappings := mappings
      frames := frames
      callstacks := callstacks
      samples := dumps.flatten }

def readPacket (bytes : Bytes) : Option (List Profile) :=
  (messageItems bytes).bind (submessages readProfile tpProfilePacket)

end Sismo.Heap.ProfilePacket
