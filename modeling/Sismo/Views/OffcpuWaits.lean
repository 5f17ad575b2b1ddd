import Mathlib.Algebra.BigOperators.Group.List.Basic
import Sismo.Samples.Records
import Sismo.Lib.Window

namespace Sismo.Views

open Samples

/-! The weights the views give off-CPU samples. -/

structure PerfSample where
  utid : Nat
  ts : Nat
  callsiteId : Option Nat
  dataAddress : Int
  dataSymbol : Option Bytes
  deriving DecidableEq, Repr

/-- A row of `counter` on a thread's `off-cpu-ns` track. -/
structure Counter where
  utid : Nat
  ts : Nat
  value : Nat
  deriving DecidableEq, Repr

structure Trace where
  perfSample : List PerfSample
  offCpuNs : List Counter

def toInt64 (n : Nat) : Int :=
  if n < 2 ^ 63 then n else n - 2 ^ 64

def importSample (packet : PerfSamplePacket) : PerfSample where
  utid := packet.tid
  ts := packet.ts
  callsiteId :=
    if packet.callstackIid = 0 then none else some packet.callstackIid
  dataAddress := toInt64 packet.dataAddress
  dataSymbol := packet.dataSymbol

def importCounter (packet : PerfSamplePacket) : Counter where
  utid := packet.tid
  ts := packet.ts
  value := packet.timebaseCount

def importTrace (onCpu : List PerfSample) (packets : List PerfSamplePacket) :
    Trace where
  perfSample := onCpu ++ packets.map importSample
  offCpuNs := packets.map importCounter

structure OffcpuRow where
  sample : PerfSample
  value : Nat
  deriving DecidableEq, Repr

def Trace.offcpuRows (trace : Trace) : List OffcpuRow :=
  trace.perfSample.flatMap fun sample =>
    (trace.offCpuNs.filter fun counter =>
      counter.utid = sample.utid ∧ counter.ts = sample.ts).map fun counter =>
        ⟨sample, counter.value⟩

/-- `max(0, coalesce(value - lag(value), 0))`. -/
def lagWait (rows : List OffcpuRow) (row : OffcpuRow) : Int :=
  match lag (·.sample.utid) (·.sample.ts) rows row with
  | none => max 0 0
  | some previous => max 0 ((row.value : Int) - previous.value)

def lagWaits (rows : List OffcpuRow) : List (PerfSample × Int) :=
  rows.map fun row => (row.sample, lagWait rows row)

/-- Positive and unnamed: a futex address. -/
def isLock (sample : PerfSample) : Bool :=
  0 < sample.dataAddress ∧ sample.dataSymbol = none

section

variable (priv : Nat → Bool) (trace : Trace)

/-- `_sismo_offcpu_waits`. -/
def offcpuWaits : List (PerfSample × Int) :=
  lagWaits (trace.offcpuRows.filter fun row => priv row.sample.utid)

/-- `_sismo_lock_waits`. -/
def lockWaits : List (PerfSample × Int) :=
  lagWaits (trace.offcpuRows.filter fun row =>
    priv row.sample.utid && isLock row.sample)

/-- The samples and values of `offCpuDurationStatement` and
`offCpuDurationStream`. -/
def offCpuDuration (where_ : PerfSample → Bool) : List (PerfSample × Int) :=
  (trace.offcpuRows.filter fun row =>
    row.sample.callsiteId.isSome && where_ row.sample).map fun row =>
      (row.sample, row.value)

end

end Sismo.Views
