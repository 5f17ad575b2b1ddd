import Sismo.Kdebug.SchedConsumer

namespace Sismo.Kdebug

/-! The on-CPU and off-CPU consumers of the kperf records in the ring. -/

def dbgPerf : UInt32 := 0x25

def perfThreadinfo : UInt32 := 1

def perfTiData : UInt32 := 1

def perfCallstack : UInt32 := 2

def perfCsKdata : UInt32 := 3

def perfCsUdata : UInt32 := 4

def perfCsKhdr : UInt32 := 5

def perfCsUhdr : UInt32 := 6

def perfTimer : UInt32 := 3

def perfTmFire : UInt32 := 0

def perfLazy : UInt32 := 9

def perfLzWaitsample : UInt32 := 1

def maxFrames : Nat := 256

def classOf (debugid : UInt32) : UInt32 :=
  (debugid >>> 24) &&& 0xff

def subclassOf (debugid : UInt32) : UInt32 :=
  (debugid >>> 16) &&& 0xff

def codeOf (debugid : UInt32) : UInt32 :=
  (debugid >>> 2) &&& 0x3fff

def KdEvent.Is (e : KdEvent) (subclass code : UInt32) : Prop :=
  subclassOf e.debugid = subclass ∧ codeOf e.debugid = code

instance (e : KdEvent) (subclass code : UInt32) :
    Decidable (e.Is subclass code) :=
  inferInstanceAs (Decidable (_ ∧ _))

def KdEvent.pcs (e : KdEvent) : List UInt64 :=
  [e.arg1, e.arg2, e.arg3, e.arg4]

/-! ### The stacks under way -/

/-- A callstack that is still short of `want` frames. -/
structure PendingStack where
  want : Nat
  frames : List UInt64
  deriving DecidableEq, Repr

def pushPcs (p : PendingStack) (pcs : List UInt64) : PendingStack :=
  pcs.foldl (fun p pc =>
    if p.frames.length < p.want then { p with frames := p.frames ++ [pc] }
    else p) p

structure DecodedStack where
  pid : UInt64
  tid : UInt64
  cpu : UInt32
  tsTicks : UInt64
  frames : List UInt64
  kernelFrames : List UInt64
  deriving DecidableEq, Repr

def framePoolCap : Nat := 256

structure UserStacks where
  pidOf : HashMap UInt64 UInt64 := ∅
  building : HashMap UInt64 PendingStack := ∅
  buildingKernel : HashMap UInt64 PendingStack := ∅
  kernelDone : HashMap UInt64 (List UInt64) := ∅
  freeFrames : List (List UInt64) := []

namespace UserStacks

def onThreadinfo (userStacks : UserStacks) (tid pid : UInt64) : UserStacks :=
  { userStacks with pidOf := userStacks.pidOf.insert tid pid }

/-- A recycled buffer is cleared. -/
def takeBuf (userStacks : UserStacks) : UserStacks × List UInt64 :=
  ({ userStacks with freeFrames := userStacks.freeFrames.dropLast }, [])

def onUhdr (userStacks : UserStacks) (tid nframes : UInt64) : UserStacks :=
  let want := min nframes.toNat maxFrames
  let (userStacks, frames) := userStacks.takeBuf
  { userStacks with building := userStacks.building.insert tid ⟨want, frames⟩ }

def onUdata (userStacks : UserStacks) (tid : UInt64) (pcs : List UInt64) :
    UserStacks × Option (UInt64 × List UInt64) :=
  match userStacks.building.lookup tid with
  | none => (userStacks, none)
  | some p =>
      let p := pushPcs p pcs
      if p.frames.length < p.want then
        ({ userStacks with building := userStacks.building.insert tid p }, none)
      else
        ({ userStacks with building := userStacks.building.erase tid },
          some ((userStacks.pidOf.lookup tid).getD 0, p.frames))

def onKhdr (userStacks : UserStacks) (tid nframes : UInt64) : UserStacks :=
  let want := min nframes.toNat maxFrames
  let (userStacks, frames) := userStacks.takeBuf
  { userStacks with
    buildingKernel := userStacks.buildingKernel.insert tid ⟨want, frames⟩ }

def recycle (userStacks : UserStacks) (buf : List UInt64) : UserStacks :=
  if userStacks.freeFrames.length < framePoolCap then
    { userStacks with freeFrames := userStacks.freeFrames ++ [buf] }
  else userStacks

def onKdata (userStacks : UserStacks) (tid : UInt64) (pcs : List UInt64) :
    UserStacks :=
  match userStacks.buildingKernel.lookup tid with
  | none => userStacks
  | some p =>
      let p := pushPcs p pcs
      if p.frames.length < p.want then
        { userStacks with buildingKernel := userStacks.buildingKernel.insert tid p }
      else
        let parked :=
          { userStacks with
            buildingKernel := userStacks.buildingKernel.erase tid
            kernelDone := userStacks.kernelDone.insert tid p.frames }
        match userStacks.kernelDone.lookup tid with
        | some old => parked.recycle old
        | none => parked

def takeKernel (userStacks : UserStacks) (tid : UInt64) :
    UserStacks × List UInt64 :=
  ({ userStacks with kernelDone := userStacks.kernelDone.erase tid },
    (userStacks.kernelDone.lookup tid).getD [])

end UserStacks

/-! ### The consumers -/

/-- `pendingWait` has the ticks waited and the time of waking. -/
structure OffCpuConsumer where
  userStacks : UserStacks := {}
  pendingWait : HashMap UInt64 (UInt64 × UInt64) := ∅

/-- One record; `ticksToNs` makes the weight of the ticks waited. -/
def OffCpuConsumer.decode (ticksToNs : UInt64 → UInt64)
    (consumer : OffCpuConsumer) (e : KdEvent) :
    OffCpuConsumer × Option (DecodedStack × UInt64) :=
  let tid := e.arg5
  if classOf e.debugid ≠ dbgPerf then (consumer, none)
  else if e.Is perfLazy perfLzWaitsample then
    ({ consumer with
      pendingWait := consumer.pendingWait.insert tid (e.arg1, e.timestamp) },
      none)
  else if e.Is perfThreadinfo perfTiData then
    ({ consumer with
      userStacks := consumer.userStacks.onThreadinfo tid e.arg1 }, none)
  else if e.Is perfCallstack perfCsUhdr then
    ({ consumer with userStacks := consumer.userStacks.onUhdr tid e.arg2 }, none)
  else if e.Is perfCallstack perfCsUdata then
    let (userStacks, done) := consumer.userStacks.onUdata tid e.pcs
    match done with
    | none => ({ consumer with userStacks := userStacks }, none)
    | some (pid, frames) =>
        match consumer.pendingWait.lookup tid with
        | none => ({ consumer with userStacks := userStacks }, none)
        | some (waitTicks, tsTicks) =>
            ({ userStacks := userStacks
               pendingWait := consumer.pendingWait.erase tid },
              some (⟨pid, tid, e.cpuid, tsTicks, frames, []⟩,
                ticksToNs waitTicks))
  else (consumer, none)

/-- The buffer of an emitted sample goes back to the pool. -/
def OffCpuConsumer.recycle (consumer : OffCpuConsumer) :
    Option (DecodedStack × UInt64) → OffCpuConsumer
  | none => consumer
  | some (s, _) =>
      { consumer with userStacks := consumer.userStacks.recycle s.frames }

/-- The samples of a batch, each with its weight. -/
def OffCpuConsumer.onDrain (ticksToNs : UInt64 → UInt64)
    (consumer : OffCpuConsumer) :
    List KdEvent → OffCpuConsumer × List (DecodedStack × UInt64)
  | [] => (consumer, [])
  | e :: rest =>
      let (consumer, sample) := consumer.decode ticksToNs e
      let (consumer, later) := (consumer.recycle sample).onDrain ticksToNs rest
      (consumer, sample.toList ++ later)

/-- `pendingFire` has the time the timer fired. -/
structure OnCpuConsumer where
  userStacks : UserStacks := {}
  pendingFire : HashMap UInt64 UInt64 := ∅

def OnCpuConsumer.decode (consumer : OnCpuConsumer) (e : KdEvent) :
    OnCpuConsumer × Option DecodedStack :=
  let tid := e.arg5
  if classOf e.debugid ≠ dbgPerf then (consumer, none)
  else if e.Is perfTimer perfTmFire then
    ({ consumer with
      pendingFire := consumer.pendingFire.insert tid e.timestamp }, none)
  else if e.Is perfThreadinfo perfTiData then
    ({ consumer with
      userStacks := consumer.userStacks.onThreadinfo tid e.arg1 }, none)
  else if e.Is perfCallstack perfCsKhdr then
    ({ consumer with userStacks := consumer.userStacks.onKhdr tid e.arg2 }, none)
  else if e.Is perfCallstack perfCsKdata then
    ({ consumer with userStacks := consumer.userStacks.onKdata tid e.pcs }, none)
  else if e.Is perfCallstack perfCsUhdr then
    ({ consumer with userStacks := consumer.userStacks.onUhdr tid e.arg2 }, none)
  else if e.Is perfCallstack perfCsUdata then
    let (userStacks, done) := consumer.userStacks.onUdata tid e.pcs
    match done with
    | none => ({ consumer with userStacks := userStacks }, none)
    | some (pid, frames) =>
        match consumer.pendingFire.lookup tid with
        | none => ({ consumer with userStacks := userStacks }, none)
        | some tsTicks =>
            let (userStacks, kernelFrames) := userStacks.takeKernel tid
            ({ userStacks := userStacks
               pendingFire := consumer.pendingFire.erase tid },
              some ⟨pid, tid, e.cpuid, tsTicks, frames, kernelFrames⟩)
  else (consumer, none)

def OnCpuConsumer.recycle (consumer : OnCpuConsumer) :
    Option DecodedStack → OnCpuConsumer
  | none => consumer
  | some s =>
      let userStacks := consumer.userStacks.recycle s.frames
      { consumer with
        userStacks := if s.kernelFrames = [] then userStacks
          else userStacks.recycle s.kernelFrames }

def OnCpuConsumer.onDrain (consumer : OnCpuConsumer) :
    List KdEvent → OnCpuConsumer × List DecodedStack
  | [] => (consumer, [])
  | e :: rest =>
      let (consumer, sample) := consumer.decode e
      let (consumer, later) := (consumer.recycle sample).onDrain rest
      (consumer, sample.toList ++ later)

end Sismo.Kdebug
