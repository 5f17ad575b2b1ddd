import Mathlib.Data.List.Dedup
import Mathlib.Data.List.Sort
import Mathlib.Data.String.Basic
import Sismo.Lib.Islands
import Sismo.Views.OffcpuWaits

namespace Sismo.Views

/-! The slices of the stack timeline, stage by stage as the statement that
builds their table. -/

/-- `stack_profile_callsite`; the rank is any measure that falls along the
parents. -/
structure Callsites where
  parentId : Nat → Option Nat
  frameId : Nat → Nat
  rank : Nat → Nat
  rank_parent : ∀ callsite parent, parentId callsite = some parent →
    rank parent < rank callsite

structure ProfileFrame where
  frameName : Option String
  mapping : Option Nat
  relPc : Option Nat
  mappingName : Option String
  deriving DecidableEq, Repr

structure Profile where
  callsites : Callsites
  frames : Nat → ProfileFrame

/-! ### Samples and their frames -/

structure PrivSample where
  ts : Nat
  utid : Nat
  callsiteId : Nat
  deriving DecidableEq, Repr

def privSamples (priv : Nat → Bool) (samples : List PerfSample) :
    List PrivSample :=
  (samples.filter fun s => priv s.utid).filterMap fun s =>
    s.callsiteId.map fun callsiteId => ⟨s.ts, s.utid, callsiteId⟩

def Callsites.ancestors (callsites : Callsites) (current : Nat) : List Nat :=
  current ::
    match found : callsites.parentId current with
    | none => []
    | some parent => callsites.ancestors parent
termination_by callsites.rank current
decreasing_by exact callsites.rank_parent _ _ found

structure FrameAt where
  depth : Nat
  callsiteAtDepth : Nat
  frameId : Nat
  deriving DecidableEq, Repr

/-- The frames of a leaf; the root has depth 0. -/
def Callsites.framesOf (callsites : Callsites) (leaf : Nat) : List FrameAt :=
  let ancestors := (callsites.ancestors leaf).zipIdx
  let md := (ancestors.map fun a => a.2).foldr max 0
  ancestors.map fun a => ⟨md - a.2, a.1, callsites.frameId a.1⟩

structure SampleFrame where
  ts : Nat
  utid : Nat
  sampleIdx : Nat
  slotEnd : Option Nat
  frame : FrameAt
  profile : ProfileFrame
  deriving DecidableEq, Repr

def sampleIdx (samples : List PrivSample) (s : PrivSample) : Nat :=
  rowNumber (·.utid) (·.ts) samples s

def slotEnd (samples : List PrivSample) (s : PrivSample) : Option Nat :=
  (lead (·.utid) (·.ts) samples s).map (·.ts)

def sampleFrame (profile : Profile) (samples : List PrivSample)
    (s : PrivSample) (frame : FrameAt) : SampleFrame where
  ts := s.ts
  utid := s.utid
  sampleIdx := sampleIdx samples s
  slotEnd := slotEnd samples s
  frame := frame
  profile := profile.frames frame.frameId

def sampleFrames (profile : Profile) (samples : List PrivSample)
    (s : PrivSample) : List SampleFrame :=
  (profile.callsites.framesOf s.callsiteId).map
    (sampleFrame profile samples s)

def perSampleFrame (profile : Profile) (samples : List PrivSample) :
    List SampleFrame :=
  samples.flatMap (sampleFrames profile samples)

/-! ### Runs of one callsite -/

namespace SampleFrame

def lane (row : SampleFrame) : Nat × Nat :=
  (row.utid, row.frame.depth)

def runId (rows : List SampleFrame) (row : SampleFrame) : Nat :=
  Sismo.runId lane (·.sampleIdx) (·.frame.callsiteAtDepth) rows row

def group (rows : List SampleFrame) (row : SampleFrame) : (Nat × Nat) × Nat :=
  (row.lane, row.runId rows)

end SampleFrame

structure StackSlice where
  id : Nat
  ts : Nat
  dur : Int
  utid : Nat
  depth : Nat
  name : Option String
  frameId : Nat
  mappingId : Option Nat
  relPc : Nat
  mappingName : Option String
  deriving DecidableEq, Repr

def columnMin {α : Type} (column : α → Nat) (rows : List α) : Nat :=
  (rows.map column).min?.getD 0

def lastEnd (rows : List SampleFrame) : Nat :=
  (rows.filterMap (·.slotEnd)).max?.getD 0

/-- A slice is open when one of its samples has no end. -/
def sliceDur (rows : List SampleFrame) : Int :=
  if (rows.filterMap (·.slotEnd)).length < rows.length then -1
  else (lastEnd rows : Int) - columnMin (·.ts) rows

def sliceOf (key : (Nat × Nat) × Nat) (rows : List SampleFrame) :
    StackSlice where
  id := 0
  ts := columnMin (·.ts) rows
  dur := sliceDur rows
  utid := key.1.1
  depth := key.1.2
  name := (rows.filterMap (·.profile.frameName)).min?
  frameId := columnMin (·.frame.frameId) rows
  mappingId := (rows.filterMap (·.profile.mapping)).min?
  relPc := (rows.filterMap (·.profile.relPc)).min?.getD 0
  mappingName := (rows.filterMap (·.profile.mappingName)).min?

/-- `ORDER BY utid, ts, depth`. -/
def StackSlice.Before (first second : StackSlice) : Prop :=
  first.utid < second.utid ∨ first.utid = second.utid ∧
    (first.ts < second.ts ∨ first.ts = second.ts ∧
      first.depth ≤ second.depth)

instance : DecidableRel StackSlice.Before :=
  fun _ _ => inferInstanceAs (Decidable (_ ∨ _))

/-- One slice for each group, numbered in order from 1. -/
def stackSlices (profile : Profile) (samples : List PrivSample) :
    List StackSlice :=
  let rows := perSampleFrame profile samples
  let slices := ((rows.map (·.group rows)).dedup).map fun key =>
    sliceOf key (rows.filter fun row => row.group rows = key)
  ((slices.insertionSort StackSlice.Before).zipIdx 1).map fun slice =>
    { slice.1 with id := slice.2 }

def stackTable (priv : Nat → Bool) (profile : Profile)
    (samples : List PerfSample) : List StackSlice :=
  stackSlices profile (privSamples priv samples)

end Sismo.Views
