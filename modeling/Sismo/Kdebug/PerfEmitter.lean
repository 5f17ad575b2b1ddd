import Mathlib.Data.List.Sort
import Sismo.Kdebug.KperfSample
import Sismo.Lib.Bisect
import Sismo.Python.Stack
import Sismo.Samples.Decoder

namespace Sismo.Kdebug

/-! The emitter of decoded stacks as interned sample packets: its table of
loaded modules and its interner. -/

open Samples (bytes StringField MappingMsg FrameKey InternedEntry Packet
  PerfSamplePacket)

structure Module where
  base : UInt64
  end_ : UInt64
  path : Bytes
  buildId : Bytes
  deriving DecidableEq, Repr

/-- The last module that starts at the pc or below it, if it goes that far. -/
def findModule (mods : List Module) (pc : UInt64) : Option Module :=
  match partitionPoint (fun m => decide (m.base ≤ pc)) mods with
  | 0 => none
  | i + 1 => mods[i]?.filter fun m => decide (pc < m.end_)

/-! ### Runtimes -/

inductive Runtime where
  | python | node | java
  deriving DecidableEq, Repr

def Runtime.name : Runtime → Bytes
  | .python => bytes "python"
  | .node => bytes "node"
  | .java => bytes "java"

def toAsciiLowercase (byte : UInt8) : UInt8 :=
  if 0x41 ≤ byte ∧ byte ≤ 0x5a then byte + 0x20 else byte

def baseName (path : Bytes) : Bytes :=
  (path.reverse.takeWhile (· ≠ 0x2f)).reverse

def runtimeOf (mainExe : Bytes) : Option Runtime :=
  let base := (baseName mainExe).map toAsciiLowercase
  if (bytes "python").isPrefixOf base then some .python
  else if (bytes "node").isPrefixOf base then some .node
  else if base = bytes "java" then some .java
  else none

def jitLabelOf : Option Runtime → Bytes
  | some runtime => bytes "[jit:" ++ runtime.name ++ bytes "]"
  | none => []

inductive PyState where
  | untried
  | absent
  | ready (rtAddr : UInt64) (offs : Python.PyDebugOffsets)
  deriving DecidableEq, Repr

/-- What the emitter reads of the target while it handles one sample: the
loaded images and the path of the main executable, the runtime in an image,
its memory and its map of generated code. -/
structure TargetView where
  images : List Module
  mainExe : Bytes
  armPython : List Module → PyState
  mem : Python.RemoteMem
  jitName : UInt32 → UInt64 → Option Bytes

def loadModules (view : TargetView) : List Module × Bytes :=
  (view.images.insertionSort fun first second => first.base ≤ second.base,
    view.mainExe)

/-! ### The interner -/

def u64Max : Nat := 2 ^ 64 - 1

/-- A mapping's key is its base, or `u64Max` less the id of its label. -/
structure Interner where
  strings : StringField → InternTable Bytes := fun _ => {}
  mappings : InternTable Nat := {}
  frames : InternTable FrameKey := {}
  callstacks : InternTable (List Nat) := {}

structure Writer where
  interner : Interner
  idw : List InternedEntry := []

namespace Writer

def emit (w : Writer) (entry : InternedEntry) : Writer :=
  { w with idw := w.idw ++ [entry] }

def internString (w : Writer) (field : StringField) (s : Bytes) :
    Nat × Writer :=
  let table := w.interner.strings field
  match table.iids.lookup s with
  | some iid => (iid, w)
  | none =>
      let strings := Function.update w.interner.strings field (table.insert s)
      (table.next,
        { w with interner := { w.interner with strings := strings } }.emit
          (.string field table.next s))

def newMapping (w : Writer) (key : Nat) (msg : MappingMsg) : Nat × Writer :=
  let table := w.interner.mappings
  (table.next,
    { w with interner := { w.interner with
      mappings := table.insert key } }.emit (.mapping table.next msg))

def internMapping (w : Writer) (m : Module) : Nat × Writer :=
  match w.interner.mappings.iids.lookup m.base.toNat with
  | some iid => (iid, w)
  | none =>
      let (pathIid, w) := w.internString .mappingPath m.path
      let (buildIid, w) :=
        if m.buildId ≠ [] then w.internString .buildId m.buildId else (0, w)
      w.newMapping m.base.toNat
        { buildId := buildIid
          start := m.base.toNat
          end_ := m.end_.toNat
          loadBias := m.base.toNat
          path := pathIid }

/-- A mapping for frames in no module has a label for its path. -/
def internResidualMapping (w : Writer) (label : Bytes) : Nat × Writer :=
  let (pathIid, w) := w.internString .mappingPath label
  let key := u64Max - pathIid
  match w.interner.mappings.iids.lookup key with
  | some iid => (iid, w)
  | none => w.newMapping key { path := pathIid }

def internFuncName (w : Writer) (name : Bytes) : Nat × Writer :=
  w.internString .functionName name

/-- The address of a frame is the pc itself, in every mapping. -/
def internFrame (w : Writer) (mappingIid pc nameIid : Nat) : Nat × Writer :=
  let table := w.interner.frames
  match table.iids.lookup ⟨mappingIid, pc, nameIid⟩ with
  | some iid => (iid, w)
  | none =>
      (table.next,
        { w with interner := { w.interner with
          frames := table.insert ⟨mappingIid, pc, nameIid⟩ } }.emit
            (.frame table.next ⟨mappingIid, pc, nameIid⟩))

/-- The key is the bytes of the ids, which determine the ids. -/
def internCallstack (w : Writer) (fids : List Nat) : Nat × Writer :=
  let table := w.interner.callstacks
  match table.iids.lookup fids with
  | some iid => (iid, w)
  | none =>
      (table.next,
        { w with interner := { w.interner with
          callstacks := table.insert fids } }.emit
            (.callstack table.next fids))

end Writer

/-! ### Emitting a sample -/

def kernelModule : Module where
  base := 0
  end_ := 0xffffffffffffffff
  path := bytes "[kernel]"
  buildId := []

/-- A user frame in its module, or in code that the runtime generated. -/
inductive Resolved where
  | image (m : Module) (pc : UInt64)
  | label (label : Bytes) (name : Option Bytes) (pc : UInt64)
  deriving DecidableEq, Repr

def resolveFrame (modules : List Module) (jitLabel : Bytes)
    (jitName : UInt64 → Option Bytes) (pc : UInt64) : Option Resolved :=
  if pc = 0 then none
  else
    match findModule modules pc with
    | some m => some (.image m pc)
    | none =>
        if jitLabel ≠ [] then some (.label jitLabel (jitName pc) pc) else none

structure SampleFrames where
  kernelFrames : List UInt64
  pyNames : List Bytes
  userFrames : List Resolved
  deriving DecidableEq, Repr

namespace Writer

def internList {α : Type} (intern : Writer → α → Nat × Writer) :
    Writer → List α → List Nat × Writer
  | w, [] => ([], w)
  | w, item :: rest =>
      let (iid, w) := intern w item
      let (iids, w) := internList intern w rest
      (iid :: iids, w)

def internKernelFrames (w : Writer) (kernelFrames : List UInt64) :
    List Nat × Writer :=
  if kernelFrames = [] then ([], w)
  else
    let (kmap, w) := w.internMapping kernelModule
    internList (fun w pc => w.internFrame kmap pc.toNat 0) w
      (kernelFrames.filter (· ≠ 0))

def internPyFrame (mapIid : Nat) (w : Writer) (name : Bytes) : Nat × Writer :=
  let (nameIid, w) := w.internFuncName name
  w.internFrame mapIid 0 nameIid

def internPyFrames (w : Writer) (names : List Bytes) : List Nat × Writer :=
  if names = [] then ([], w)
  else
    let (mapIid, w) := w.internResidualMapping (bytes "[python]")
    internList (internPyFrame mapIid) w names

def internResolved (w : Writer) : Resolved → Nat × Writer
  | .image m pc =>
      let (mappingIid, w) := w.internMapping m
      w.internFrame mappingIid pc.toNat 0
  | .label label name pc =>
      let (nameIid, w) :=
        match name with
        | some name => w.internFuncName name
        | none => (0, w)
      let (mapIid, w) := w.internResidualMapping label
      w.internFrame mapIid pc.toNat nameIid

/-- The callstack is root first; without frames its id is 0. -/
def internSample (w : Writer) (frames : SampleFrames) : Nat × Writer :=
  let (kernel, w) := w.internKernelFrames frames.kernelFrames
  let (python, w) := w.internPyFrames frames.pyNames
  let (user, w) := internList internResolved w frames.userFrames
  let fids := kernel ++ python ++ user
  if fids = [] then (0, w) else w.internCallstack fids.reverse

end Writer

structure PerfEmitter where
  modules : List Module
  interner : Interner
  needDefaults : Bool
  sinceReload : Nat
  runtime : Option Runtime
  jitLabel : Bytes
  py : PyState
  /-- What the data source was sent. -/
  packets : List Packet

namespace PerfEmitter

def new (view : TargetView) : PerfEmitter :=
  let (modules, mainExe) := loadModules view
  let runtime := runtimeOf mainExe
  { modules := modules
    interner := {}
    needDefaults := true
    sinceReload := 0
    runtime := runtime
    jitLabel := jitLabelOf runtime
    py := if runtime = some .python then .untried else .absent
    packets := [] }

def sendDefaults (timebaseName : Bytes) (e : PerfEmitter) : PerfEmitter :=
  if e.needDefaults then
    { e with
      interner := {}
      packets := e.packets ++ [.defaults timebaseName []]
      needDefaults := false }
  else e

def reload (view : TargetView) (e : PerfEmitter) : PerfEmitter :=
  let (modules, mainExe) := loadModules view
  let e := { e with modules := modules, sinceReload := 0 }
  let rt := runtimeOf mainExe
  if rt ≠ e.runtime then
    { e with
      runtime := rt
      jitLabel := jitLabelOf rt
      py := if rt = some .python then .untried else .absent }
  else if rt = some .python ∧ e.py = .absent then { e with py := .untried }
  else e

/-- A frame in no module, or an empty table, makes the modules be read again
once enough samples have passed. -/
def refresh (view : TargetView) (s : DecodedStack) (e : PerfEmitter) :
    PerfEmitter :=
  let e := { e with sinceReload := min (e.sinceReload + 1) u64Max }
  let retryAt := if e.modules = [] then 8 else 512
  let e : PerfEmitter :=
    if retryAt < e.sinceReload ∧ (e.modules = [] ∨
        ∃ pc ∈ s.frames, pc ≠ 0 ∧ findModule e.modules pc = none) then
      e.reload view
    else e
  if e.py = .untried then { e with py := view.armPython e.modules } else e

def frames (view : TargetView) (s : DecodedStack) (e : PerfEmitter) :
    SampleFrames where
  kernelFrames := s.kernelFrames
  pyNames :=
    match e.py with
    | .ready rtAddr offs => Python.walkPythonStackMem view.mem offs rtAddr
    | _ => []
  userFrames := s.frames.filterMap
    (resolveFrame e.modules e.jitLabel (view.jitName s.pid.toUInt32))

variable (timebaseName : Bytes) (tb : Timebase)

def emit (view : TargetView) (s : DecodedStack) (weightNs : UInt64)
    (e : PerfEmitter) : PerfEmitter :=
  let e := (e.sendDefaults timebaseName).refresh view s
  let (csIid, w) := Writer.internSample { interner := e.interner }
    (e.frames view s)
  let packet : PerfSamplePacket :=
    { ts := (s.tsTicks * tb.n / tb.d).toNat
      cpu := s.cpu.toNat
      pid := s.pid.toUInt32.toNat
      tid := s.tid.toUInt32.toNat
      callstackIid := csIid
      timebaseCount := weightNs.toNat
      followerCounts := []
      dataAddress := 0
      dataSymbol := none }
  { e with
    interner := w.interner
    packets := e.packets ++ [.sample packet w.idw] }

end PerfEmitter

structure Emission where
  view : TargetView
  sample : DecodedStack
  weightNs : UInt64

def emitAll (timebaseName : Bytes) (tb : Timebase) (e : PerfEmitter)
    (emissions : List Emission) : PerfEmitter :=
  emissions.foldl (fun e emission =>
    e.emit timebaseName tb emission.view emission.sample emission.weightNs) e

end Sismo.Kdebug
