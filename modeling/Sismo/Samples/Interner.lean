import Sismo.Samples.Records
import Sismo.Lib.InternTable

namespace Sismo.Samples

/-! The interning of callstacks into a packet's interned data. -/

/-- The tables of interned strings: mapping paths, build ids and function
names. -/
inductive StringField where
  | mappingPath | buildId | functionName
  deriving DecidableEq, Repr

inductive AddressSpace where
  | virtualAddress | fileOffset
  deriving DecidableEq, Repr

/-- A field that is left out is 0. -/
structure MappingMsg where
  buildId : Nat := 0
  start : Nat := 0
  end_ : Nat := 0
  loadBias : Nat := 0
  exactOffset : Nat := 0
  path : Nat
  addressSpace : AddressSpace := .virtualAddress
  deriving DecidableEq, Repr

/-- A frame's function name, if any, its mapping and its address there; also
the key of its id. -/
structure FrameKey where
  mappingIid : Nat
  relPc : Nat
  nameIid : Nat
  deriving DecidableEq, Repr

inductive InternedEntry where
  | string (field : StringField) (iid : Nat) (bytes : Bytes)
  | mapping (iid : Nat) (msg : MappingMsg)
  | frame (iid : Nat) (msg : FrameKey)
  | callstack (iid : Nat) (frameIids : List Nat)
  deriving DecidableEq, Repr

inductive MappingKey where
  | virtual (start end_ offset baseAvma : Nat) (path buildId : Bytes)
  | buildId (buildId : Bytes)
  | kernel
  | residual (pathIid : Nat)
  deriving DecidableEq, Repr

structure Interner where
  strings : StringField → InternTable Bytes := fun _ => {}
  mappings : InternTable MappingKey := {}
  frames : InternTable FrameKey := {}
  callstacks : InternTable (List Nat) := {}

structure Writer where
  interner : Interner
  idw : List InternedEntry := []

/-- The base that kernel addresses are moved to. -/
def kernelSynthBase : Nat := 0xffffffff80000000

/-- An address that cannot be rebased is a bare kernel frame. -/
inductive KernelFrame where
  | rebased (relPc : Nat)
  | bare
  deriving DecidableEq, Repr

/-- The frame of a captured address: none where the sum panics. -/
def kernelFrame (kbase addr : Nat) : Option KernelFrame :=
  if kbase ≠ 0 ∧ kbase ≤ addr then
    if 2 ^ 64 ≤ addr - kbase + kernelSynthBase then none
    else some (.rebased (addr - kbase + kernelSynthBase))
  else some .bare

namespace Writer

def emit (w : Writer) (entry : InternedEntry) : Writer :=
  { w with idw := w.idw ++ [entry] }

def internString (w : Writer) (field : StringField) (bytes : Bytes) :
    Nat × Writer :=
  let table := w.interner.strings field
  match table.iids.lookup bytes with
  | some iid => (iid, w)
  | none =>
      let strings := Function.update w.interner.strings field
        (table.insert bytes)
      (table.next,
        { w with interner := { w.interner with strings := strings } }.emit
          (.string field table.next bytes))

def internPath (w : Writer) (path : Bytes) : Nat × Writer :=
  w.internString .mappingPath path

def internBuildId (w : Writer) (raw : Bytes) : Nat × Writer :=
  w.internString .buildId raw

def internFuncName (w : Writer) (name : Bytes) : Nat × Writer :=
  w.internString .functionName name

def internBuildIdOpt (w : Writer) (raw : Bytes) : Nat × Writer :=
  if raw ≠ [] then w.internBuildId raw else (0, w)

def setMappings (w : Writer) (mappings : InternTable MappingKey) : Writer :=
  { w with interner := { w.interner with mappings := mappings } }

def internMappingKey (w : Writer) (key : MappingKey)
    (message : Writer → MappingMsg × Writer) : Nat × Writer :=
  let table := w.interner.mappings
  match table.iids.lookup key with
  | some iid => (iid, w)
  | none =>
      let (msg, w) := message (w.setMappings (table.insert key))
      (table.next, w.emit (.mapping table.next msg))

def internMapping (w : Writer) (start end_ offset baseAvma : Nat)
    (path buildId : Bytes) : Nat × Writer :=
  w.internMappingKey (.virtual start end_ offset baseAvma path buildId)
    fun w =>
      let (pathIid, w) := w.internPath path
      let (buildIdIid, w) := w.internBuildIdOpt buildId
      ({ buildId := buildIdIid
         start := start
         end_ := end_
         loadBias := baseAvma
         exactOffset := offset
         path := pathIid }, w)

def internBuildIdMapping (w : Writer) (buildId path : Bytes) : Nat × Writer :=
  w.internMappingKey (.buildId buildId) fun w =>
    let (pathIid, w) := w.internPath path
    let (buildIdIid, w) := w.internBuildId buildId
    ({ buildId := buildIdIid
       path := pathIid
       addressSpace := .fileOffset }, w)

def internKernelMapping (w : Writer) (buildId : Bytes) : Nat × Writer :=
  w.internMappingKey .kernel fun w =>
    let (pathIid, w) := w.internPath (bytes "[kernel.kallsyms]")
    let (buildIdIid, w) := w.internBuildIdOpt buildId
    ({ buildId := buildIdIid
       loadBias := kernelSynthBase
       path := pathIid }, w)

/-- The mapping of a residual label is keyed by the label's path id. -/
def internResidualMapping (w : Writer) (label : Bytes) : Nat × Writer :=
  let (pathIid, w) := w.internPath label
  w.internMappingKey (.residual pathIid) fun w => ({ path := pathIid }, w)

def internFrame (w : Writer) (key : FrameKey) : Nat × Writer :=
  let table := w.interner.frames
  match table.iids.lookup key with
  | some iid => (iid, w)
  | none =>
      (table.next,
        { w with interner := { w.interner with
          frames := table.insert key } }.emit (.frame table.next key))

/-- The key is the concatenated bytes of the ids, which determine the ids. -/
def internCallstackIids (w : Writer) (frameIids : List Nat) : Nat × Writer :=
  let table := w.interner.callstacks
  match table.iids.lookup frameIids with
  | some iid => (iid, w)
  | none =>
      (table.next,
        { w with interner := { w.interner with
          callstacks := table.insert frameIids } }.emit
            (.callstack table.next frameIids))

end Writer

structure ProcMapping where
  start : Nat
  end_ : Nat
  offset : Nat
  baseAvma : Nat
  path : Bytes
  deriving DecidableEq, Repr

structure HostMaps where
  mappings : List ProcMapping
  residualLabel : Nat → Option Bytes

def HostMaps.find (maps : HostMaps) (pc : Nat) : Option ProcMapping :=
  maps.mappings.find? fun mapping => mapping.start ≤ pc ∧ pc < mapping.end_

/-- What the host reads from the target and its files while it handles one
sample; an answer may differ from frame to frame. -/
structure HostView where
  maps : HostMaps
  reparsedMaps : HostMaps
  runtimeIsPython : Bool
  pythonBpf : Bool
  pythonFrames : List Bytes
  pathForBuildId : (position : Nat) → Bytes → Bytes
  observeMapping : (position : Nat) → ProcMapping → Bytes
  idFor : (position : Nat) → ProcMapping → Bytes → Bytes
  jitName : (position : Nat) → (pc : Nat) → Option Bytes

/-- A user frame with the module coordinate it is interned under. -/
inductive ResolvedFrame where
  | buildId (buildId path : Bytes) (fileOffset : Nat)
  | virtual (mapping : ProcMapping) (buildId : Bytes) (pc : Nat)
  | residual (label : Bytes) (name : Option Bytes) (pc : Nat)
  deriving DecidableEq, Repr

def resolveMapped (host : HostView) (position : Nat) (mapping : ProcMapping)
    (pc : Nat) : ResolvedFrame :=
  let localId := host.observeMapping position mapping
  if localId.length = buildIdSize ∧ mapping.start ≤ pc ∧
      mapping.offset + (pc - mapping.start) < 2 ^ 64 then
    .buildId localId mapping.path (mapping.offset + (pc - mapping.start))
  else .virtual mapping (host.idFor position mapping localId) pc

/-- The coordinate of a frame, if it has one, and whether the maps were read
again by then: a sample reads them again at its first unmapped pc. -/
def resolveUserFrame (host : HostView) (reparsed : Bool) (position : Nat) :
    UserFrame → Option ResolvedFrame × Bool
  | .buildIdOffset buildId fileOffset =>
      (some (.buildId buildId (host.pathForBuildId position buildId)
        fileOffset), reparsed)
  | .rawIp pc =>
      if pc = 0 then (none, reparsed)
      else
        let reparsed := reparsed || (host.maps.find pc).isNone
        let maps := if reparsed then host.reparsedMaps else host.maps
        match maps.find pc with
        | some mapping => (some (resolveMapped host position mapping pc), reparsed)
        | none =>
            ((maps.residualLabel pc).map fun label =>
              .residual label (host.jitName position pc) pc, reparsed)

def resolveUserFrames (host : HostView) (reparsed : Bool) (position : Nat) :
    List UserFrame → List ResolvedFrame
  | [] => []
  | frame :: rest =>
      let (resolved, reparsed) := resolveUserFrame host reparsed position frame
      resolved.toList ++ resolveUserFrames host reparsed (position + 1) rest

def pyFrames (host : HostView) (pyNames : HashMap Nat Bytes)
    (rec : SampleRec) : List Bytes :=
  if host.runtimeIsPython then
    if host.pythonBpf then
      (rec.pyIds.take (min rec.nrPyFrames maxPyFrames)).filterMap
        pyNames.lookup
    else host.pythonFrames
  else []

namespace Writer

def internResolved (w : Writer) : ResolvedFrame → Nat × Writer
  | .buildId buildId path fileOffset =>
      let (mappingIid, w) := w.internBuildIdMapping buildId path
      w.internFrame ⟨mappingIid, fileOffset, 0⟩
  | .virtual mapping buildId pc =>
      let (mappingIid, w) := w.internMapping mapping.start mapping.end_
        mapping.offset mapping.baseAvma mapping.path buildId
      w.internFrame ⟨mappingIid, pc, 0⟩
  | .residual label name pc =>
      let (mappingIid, w) := w.internResidualMapping label
      let (nameIid, w) :=
        match name with
        | some name => w.internFuncName name
        | none => (0, w)
      w.internFrame ⟨mappingIid, pc, nameIid⟩

def internList {α : Type} (intern : Writer → α → Nat × Writer) :
    Writer → List α → List Nat × Writer
  | w, [] => ([], w)
  | w, item :: rest =>
      let (iid, w) := intern w item
      let (iids, w) := internList intern w rest
      (iid :: iids, w)

def internPyFrame (mappingIid : Nat) (w : Writer) (name : Bytes) :
    Nat × Writer :=
  let (nameIid, w) := w.internFuncName name
  w.internFrame ⟨mappingIid, 0, nameIid⟩

def internPyFrames (w : Writer) (names : List Bytes) : List Nat × Writer :=
  if names = [] then ([], w)
  else
    let (mappingIid, w) := w.internResidualMapping (bytes "[python]")
    internList (internPyFrame mappingIid) w names

end Writer

/-- What the recorder knows of the kernel: its base address, 0 when masked, and
its build id. -/
structure KernelInfo where
  kbase : Nat
  kbuildId : Bytes

def kernelFrames (kernel : KernelInfo) (rec : SampleRec) :
    Option (List KernelFrame) :=
  ((rec.kernelIds.take (min rec.nrKernelFrames maxKernelStack)).filter
    (· ≠ 0)).mapM (kernelFrame kernel.kbase)

namespace Writer

def internKernelFrame (kernel : KernelInfo) (w : Writer) (frame : KernelFrame) :
    Nat × Writer :=
  let (kmap, w) := w.internKernelMapping kernel.kbuildId
  match frame with
  | .rebased relPc => w.internFrame ⟨kmap, relPc, 0⟩
  | .bare =>
      let (nameIid, w) := w.internFuncName (bytes "[kernel]")
      w.internFrame ⟨kmap, 0, nameIid⟩

/-- Typed user frames leaf-first, the Python names of the sample and the kernel
frames as one callstack, root first; 0 when it is empty. -/
def internFrames (kernel : KernelInfo) (pyNames : HashMap Nat Bytes)
    (host : HostView) (userFrames : List UserFrame) (rec : SampleRec)
    (kernelFrames : List KernelFrame) (w : Writer) : Nat × Writer :=
  let (pyFids, w) := w.internPyFrames (pyFrames host pyNames rec)
  let (userFids, w) := internList internResolved w
    (resolveUserFrames host false 0 userFrames)
  let (kfids, w) := internList (internKernelFrame kernel) w kernelFrames
  let combined := (pyFids ++ userFids).reverse ++ kfids.reverse
  if combined = [] then (0, w) else w.internCallstackIids combined

/-- A panic over a kernel address comes before anything is emitted. -/
def internCallstack (kernel : KernelInfo) (pyNames : HashMap Nat Bytes)
    (host : HostView) (userFrames : List UserFrame) (rec : SampleRec)
    (w : Writer) : Option (Nat × Writer) := do
  let kernelFrames ← kernelFrames kernel rec
  some (w.internFrames kernel pyNames host userFrames rec kernelFrames)

end Writer

end Sismo.Samples
