import Sismo.Samples.Decoder

namespace Sismo.Samples

/-! The Linux capture: the records it handles and the packets it emits. -/

structure CaptureConfig where
  kernel : KernelInfo
  activeSlots : List Nat
  counterNames : Nat → Bytes
  cacheMissFocus : Bool

structure Capture where
  active : Bool := false
  needDefaults : Bool := false
  offcpuNeedDefaults : Bool := false
  interner : Interner := {}
  offcpuInterner : Interner := {}
  fileNames : HashMap Nat Bytes := ∅
  pyNames : HashMap Nat Bytes := ∅
  /-- The packets of the on-CPU sequence. -/
  oncpu : List Packet := []
  /-- The packets of the off-CPU sequence. -/
  offcpu : List Packet := []

inductive Record where
  | file (id : Nat) (name : Bytes)
  | pyframe (id : Nat) (name : Bytes)
  | offcpu (rec : SampleRec)
  | sample (rec : SampleRec)
  | sampleUnwind (urec : UnwindRec)

/-- A session starts or stops, or a record is drained. -/
inductive Action where
  | start
  | stop
  | record (record : Record) (host : HostView)
      (dataRegionLabel : Nat → Bytes)

/-- A name up to its first zero byte; the first definition of an id stays. -/
def learnName (names : HashMap Nat Bytes) (id : Nat) (name : Bytes) :
    HashMap Nat Bytes :=
  if (names.lookup id).isSome then names
  else names.insert id (name.takeWhile (· ≠ 0))

variable (config : CaptureConfig)

/-- The counters of a sample projected onto the active slots: the timebase
count and the follower counts. -/
def projectCounters (rec : SampleRec) : Nat × List Nat :=
  match config.activeSlots with
  | [] => (0, [])
  | slot :: followers => (rec.counters slot, followers.map rec.counters)

def oncpuDefaults : Packet :=
  match config.activeSlots with
  | [] => .defaults (bytes "cpu-clock") []
  | slot :: followers =>
      .defaults (config.counterNames slot) (followers.map config.counterNames)

def emitDefaults (c : Capture) : Capture :=
  { c with oncpu := c.oncpu ++ [oncpuDefaults config] }

def emitOffcpuDefaults (c : Capture) : Capture :=
  { c with offcpu := c.offcpu ++ [.defaults (bytes "off-cpu-ns") []] }

/-- With the cache focus, the region of the sampled data address is added. -/
def oncpuPacket (dataRegionLabel : Nat → Bytes) (rec : SampleRec)
    (callstackIid : Nat) : PerfSamplePacket :=
  let (timebaseCount, followerCounts) := projectCounters config rec
  if config.cacheMissFocus ∧ rec.dataAddr ≠ 0 then
    buildPerfSamplePacket rec callstackIid timebaseCount followerCounts
      rec.dataAddr (some (dataRegionLabel rec.dataAddr))
  else
    buildPerfSamplePacket rec callstackIid timebaseCount followerCounts 0 none

def emitOncpuSample (host : HostView) (dataRegionLabel : Nat → Bytes)
    (userFrames : List UserFrame) (rec : SampleRec) (c : Capture) :
    Option Capture := do
  let (callstackIid, w) ← Writer.internCallstack config.kernel c.pyNames host
    userFrames rec { interner := c.interner }
  some { c with
    interner := w.interner
    oncpu := c.oncpu ++
      [.sample (oncpuPacket config dataRegionLabel rec callstackIid) w.idw] }

/-- The off-CPU sequence has its own ids. -/
def emitOffcpuSample (host : HostView) (rec : SampleRec) (c : Capture) :
    Option Capture := do
  let c :=
    if c.offcpuNeedDefaults then
      emitOffcpuDefaults
        { c with offcpuNeedDefaults := false, offcpuInterner := {} }
    else c
  let userFrames := decodeUserFrames rec.stack rec.nrFrames
  let (callstackIid, w) ← Writer.internCallstack config.kernel c.pyNames host
    userFrames rec { interner := c.offcpuInterner }
  some { c with
    offcpuInterner := w.interner
    offcpu := c.offcpu ++
      [.sample (offcpuPacket c.fileNames rec callstackIid) w.idw] }

/-- The capture ready to emit an on-CPU sample, if a session is active. -/
def beginOncpuSample (c : Capture) : Option Capture :=
  if c.active = false then none
  else if c.needDefaults then
    some (emitDefaults config
      { c with needDefaults := false, interner := {} })
  else some c

/-- The raw chain of the walker, or the typed helper chain when it is empty. -/
def unwindFrames (urec : UnwindRec) : List UserFrame :=
  let walked := (urec.unwindStack.take (min urec.nrUnwindFrames maxStack)).filter
    (· ≠ 0)
  if walked = [] then decodeUserFrames urec.sample.stack urec.sample.nrFrames
  else walked.map .rawIp

/-- None where the thread panics, as in the rest of the pass. -/
def handle (host : HostView) (dataRegionLabel : Nat → Bytes) (c : Capture) :
    Record → Option Capture
  | .file id name =>
      some { c with fileNames := learnName c.fileNames id name }
  | .pyframe id name =>
      some { c with pyNames := learnName c.pyNames id name }
  | .offcpu rec =>
      if c.active then emitOffcpuSample config host rec c else some c
  | .sample rec =>
      match beginOncpuSample config c with
      | none => some c
      | some c =>
          emitOncpuSample config host dataRegionLabel
            (decodeUserFrames rec.stack rec.nrFrames) rec c
  | .sampleUnwind urec =>
      match beginOncpuSample config c with
      | none => some c
      | some c =>
          emitOncpuSample config host dataRegionLabel (unwindFrames urec)
            urec.sample c

def act (c : Capture) : Action → Option Capture
  | .start =>
      some { c with
        needDefaults := true, offcpuNeedDefaults := true, active := true }
  | .stop => some { c with active := false }
  | .record record host dataRegionLabel =>
      handle config host dataRegionLabel c record

end Sismo.Samples
