import Sismo.Lib.HashMap
import Sismo.Lib.Word

namespace Sismo.Samples

/-! The records the kernel side sends and the sample packets of the trace. -/

abbrev Bytes := List UInt8

def bytes (text : String) : Bytes :=
  text.toUTF8.toList

def maxStack : Nat := 64

def maxKernelStack : Nat := 64

def maxPyFrames : Nat := 16

def buildIdSize : Nat := 20

inductive StackStatus where
  | empty | valid | ip
  | other (code : Int)
  deriving DecidableEq, Repr

structure StackBuildId where
  status : StackStatus
  buildId : Bytes
  offsetOrIp : Nat
  deriving DecidableEq, Repr

/-- Off-CPU samples carry the duration in `dataAddr` and the block identity in
counter slot 0. -/
structure SampleRec where
  ts : Nat := 0
  cpu : Nat := 0
  pid : Nat := 0
  tid : Nat := 0
  nrFrames : Nat := 0
  nrKernelFrames : Nat := 0
  nrPyFrames : Nat := 0
  dataAddr : Nat := 0
  counters : Nat → Nat := fun _ => 0
  stack : List StackBuildId := []
  kernelIds : List Nat := []
  pyIds : List Nat := []

structure UnwindRec where
  sample : SampleRec
  nrUnwindFrames : Nat
  unwindStack : List Nat

inductive UserFrame where
  | rawIp (pc : Nat)
  | buildIdOffset (buildId : Bytes) (fileOffset : Nat)
  deriving DecidableEq, Repr

def decodeUserFrames (entries : List StackBuildId) (count : Nat) :
    List UserFrame :=
  (entries.take (min count maxStack)).filterMap fun entry =>
    match entry.status with
    | .valid => some (.buildIdOffset entry.buildId entry.offsetOrIp)
    | .ip => some (.rawIp entry.offsetOrIp)
    | _ => none

/-- The fields of a `PerfSample` and its packet, the interned data apart; an id
or a number that is left out is 0. -/
structure PerfSamplePacket where
  ts : Nat
  cpu : Nat
  pid : Nat
  tid : Nat
  callstackIid : Nat
  timebaseCount : Nat
  followerCounts : List Nat
  dataAddress : Nat
  dataSymbol : Option Bytes
  deriving DecidableEq, Repr

def buildPerfSamplePacket (rec : SampleRec)
    (callstackIid timebaseCount : Nat) (followerCounts : List Nat)
    (dataAddress : Nat) (dataSymbol : Option Bytes) : PerfSamplePacket where
  ts := rec.ts
  cpu := rec.cpu
  pid := rec.pid
  tid := rec.tid
  callstackIid := callstackIid
  timebaseCount := timebaseCount
  followerCounts := followerCounts
  dataAddress := dataAddress
  dataSymbol := dataSymbol

/-- The packet of an off-CPU sample: the measured duration is its timebase
count. A block identity with bit 62 is a file id. -/
def offcpuPacket (fileNames : HashMap Nat Bytes) (rec : SampleRec)
    (callstackIid : Nat) : PerfSamplePacket :=
  let blockId := rec.counters 0
  let dataSymbol :=
    if blockId.testBit 62 then fileNames.lookup (blockId &&& 0x3fffffff)
    else none
  buildPerfSamplePacket rec callstackIid rec.dataAddr [] blockId dataSymbol

end Sismo.Samples
