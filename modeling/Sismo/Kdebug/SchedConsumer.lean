import Mathlib.Logic.Function.Basic
import Sismo.Lib.HashMap

namespace Sismo.Kdebug

/-! The sched timeline consumer of the macOS kdebug ring. -/

abbrev Bytes := List UInt8

structure KdEvent where
  timestamp : UInt64 := 0
  arg1 : UInt64 := 0
  arg2 : UInt64 := 0
  arg3 : UInt64 := 0
  arg4 : UInt64 := 0
  arg5 : UInt64 := 0
  debugid : UInt32 := 0
  cpuid : UInt32 := 0
  deriving DecidableEq, Repr

namespace KdEvent

def code (e : KdEvent) : UInt32 :=
  (e.debugid &&& 0x0000fffc) >>> 2

def csc (e : KdEvent) : UInt32 :=
  (e.debugid >>> 16) &&& 0xffff

end KdEvent

/-- An entry of the thread map; `command` is padded with nuls. -/
structure KdThreadMap where
  thread : Nat
  pid : Int
  command : Bytes := []
  deriving DecidableEq, Repr

def KdThreadMap.commandBytes (t : KdThreadMap) : Bytes :=
  t.command.takeWhile (· ≠ 0)

def maxCpus : Nat := 256

/-- `DBG_MACH_SCHED`. -/
def schedCsc : UInt32 := ((1 : UInt32) <<< 8) ||| 0x40

def maxNewThreads : Nat := 256

def maxNewProcesses : Nat := 128

inductive TaskStateEnum where
  | runnable | running | interruptibleSleep | uninterruptibleSleep | stopped
  deriving DecidableEq, Repr

structure PendingSwitch where
  valid : Bool := false
  timestamp : UInt64 := 0
  outgoingTid : UInt64 := 0
  outgoingPri : UInt32 := 0
  incomingTid : UInt64 := 0
  incomingPri : UInt32 := 0
  deriving DecidableEq, Repr

/-- First-seen names: the pid and comm of each thread, the parent and path of
each process. -/
structure PtCache where
  threads : HashMap Nat (Int × Bytes) := ∅
  processes : HashMap Int (Int × Bytes) := ∅

def outgoingTaskState (stateBits : UInt32) : TaskStateEnum :=
  if stateBits &&& 0x02 ≠ 0 then .stopped
  else if stateBits &&& 0x01 ≠ 0 then
    if stateBits &&& 0x08 ≠ 0 then .uninterruptibleSleep
    else .interruptibleSleep
  else .runnable

structure Timebase where
  n : UInt64
  d : UInt64
  positive : d ≠ 0

/-! ### The process tree -/

/-- What the kernel says of a process and its threads at a refresh. -/
structure ProcInfo where
  threadName : Int → Nat → Option Bytes
  parentPid : Int → Option Int
  pidPath : Int → Option Bytes

/-- The name cache, and what it has learnt in this drain. -/
structure Staging where
  cache : PtCache
  newThreads : List (Nat × Int × Bytes) := []
  newProcesses : List (Int × Int × Bytes) := []

def PtCache.pidOf (cache : PtCache) (tid : Nat) : Option Int :=
  (cache.threads.lookup tid).map Prod.fst

def stageProcess (info : ProcInfo) (staging : Staging) (pid : Int) :
    Staging :=
  if (staging.cache.processes.lookup pid).isSome then staging
  else
    let ppid := (info.parentPid pid).getD 0
    let path := (info.pidPath pid).getD []
    { cache := { staging.cache with
        processes := staging.cache.processes.insert pid (ppid, path) }
      newThreads := staging.newThreads
      newProcesses :=
        if staging.newProcesses.length < maxNewProcesses then
          staging.newProcesses ++ [(pid, ppid, path)]
        else staging.newProcesses }

def stageThread (info : ProcInfo) (staging : Staging) (t : KdThreadMap) :
    Staging :=
  if t.thread = 0 ∨ t.pid ≤ 0 then staging
  else if staging.cache.pidOf t.thread = some t.pid then staging
  else
    let name := (info.threadName t.pid t.thread).getD t.commandBytes
    stageProcess info
      { cache := { staging.cache with
          threads := staging.cache.threads.insert t.thread (t.pid, name) }
        newThreads :=
          if staging.newThreads.length < maxNewThreads then
            staging.newThreads ++ [(t.thread, t.pid, name)]
          else staging.newThreads
        newProcesses := staging.newProcesses }
      t.pid

structure KernelProcessTree where
  processes : List (Int × Int × Bytes)
  threads : List (Nat × Int × Bytes)
  deriving DecidableEq, Repr

def refreshAndEmitTree (info : ProcInfo) (cache : PtCache)
    (threadMap : List KdThreadMap) : PtCache × Option KernelProcessTree :=
  let staging := threadMap.foldl (stageThread info) { cache := cache }
  if staging.newThreads = [] ∧ staging.newProcesses = [] then
    (staging.cache, none)
  else
    (staging.cache, some ⟨staging.newProcesses, staging.newThreads⟩)

/-! ### The switches -/

/-- What the two events of one switch say, apart from the names. -/
structure Switch where
  tsNs : UInt64
  cpu : UInt32
  outgoingTid : UInt64
  outgoingState : TaskStateEnum
  outgoingPri : UInt32
  incomingTid : UInt64
  incomingPri : UInt32
  deriving DecidableEq, Repr

structure TaskState where
  tsNs : UInt64
  cpu : UInt32
  comm : Bytes
  tid : UInt64
  state : TaskStateEnum
  prio : UInt32
  deriving DecidableEq, Repr

/-- `?` without a name. -/
def lookupComm (cache : PtCache) (tid : UInt64) : Bytes :=
  match cache.threads.lookup tid.toNat with
  | some (_, name) => if name = [] then [0x3f] else name
  | none => [0x3f]

def Switch.taskStates (switch : Switch) (cache : PtCache) : List TaskState :=
  [⟨switch.tsNs, switch.cpu, lookupComm cache switch.outgoingTid,
      switch.outgoingTid, switch.outgoingState, switch.outgoingPri⟩,
    ⟨switch.tsNs, switch.cpu, lookupComm cache switch.incomingTid,
      switch.incomingTid, .running, switch.incomingPri⟩]

abbrev Pending := UInt32 → PendingSwitch

section

variable (tb : Timebase)

def PendingSwitch.switch (slot : PendingSwitch) (e : KdEvent) : Switch where
  tsNs := slot.timestamp * tb.n / tb.d
  cpu := e.cpuid
  outgoingTid := slot.outgoingTid
  outgoingState := outgoingTaskState e.arg3.toUInt32
  outgoingPri := slot.outgoingPri
  incomingTid := slot.incomingTid
  incomingPri := slot.incomingPri

def onEvent (pending : Pending) (e : KdEvent) : Pending × Option Switch :=
  if e.csc ≠ schedCsc then (pending, none)
  else if maxCpus ≤ e.cpuid.toNat then (pending, none)
  else if e.code = 0x00 ∨ e.code = 0x02 then
    -- MACH_SCHED or MACH_STACK_HANDOFF.
    if e.arg5 = e.arg2 then (pending, none)
    else
      (Function.update pending e.cpuid
        { valid := true
          timestamp := e.timestamp
          outgoingTid := e.arg5
          outgoingPri := e.arg3.toUInt32
          incomingTid := e.arg2
          incomingPri := e.arg4.toUInt32 }, none)
  else if e.code = 0x20 then
    -- MACH_DISPATCH.
    let slot := pending e.cpuid
    let spent := Function.update pending e.cpuid { slot with valid := false }
    if slot.valid = false then (pending, none)
    else if slot.outgoingTid ≠ e.arg1 then (spent, none)
    else (spent, some (slot.switch tb e))
  else (pending, none)

def emitBatch (pending : Pending) : List KdEvent → Pending × List Switch
  | [] => (pending, [])
  | e :: rest =>
      let (pending, switch) := onEvent tb pending e
      let (pending, later) := emitBatch pending rest
      (pending, switch.toList ++ later)

structure SchedConsumer where
  pending : Pending := fun _ => {}
  cache : PtCache := {}

structure DrainPackets where
  tree : Option KernelProcessTree
  states : List TaskState

def onDrain (consumer : SchedConsumer) (info : ProcInfo)
    (events : List KdEvent) (threadMap : List KdThreadMap) :
    SchedConsumer × DrainPackets :=
  let (cache, tree) := refreshAndEmitTree info consumer.cache threadMap
  let (pending, switches) := emitBatch tb consumer.pending events
  (⟨pending, cache⟩, ⟨tree, switches.flatMap (·.taskStates cache)⟩)

structure Drain where
  info : ProcInfo
  events : List KdEvent
  threadMap : List KdThreadMap

def onDrains (consumer : SchedConsumer) :
    List Drain → SchedConsumer × List DrainPackets
  | [] => (consumer, [])
  | drain :: rest =>
      let (consumer, packets) :=
        onDrain tb consumer drain.info drain.events drain.threadMap
      let (consumer, later) := onDrains consumer rest
      (consumer, packets :: later)

end

end Sismo.Kdebug
