import Mathlib.Logic.Function.Basic
import Sismo.Lib.Machine
import Sismo.Samples.Capture
import Sismo.Sched.Waits

namespace Sismo.Sched

open Samples

/-! The ids the BPF programs give to files and to Python qualnames, and the
ring that carries their definitions and the samples that use them. -/

inductive IdKind where
  | file | pyframe
  deriving DecidableEq, Repr

/-- The capacity of `file_ids` and of `pyframe_ids`. -/
def IdKind.maxEntries : IdKind → Nat
  | .file => 32768
  | .pyframe => 16384

def IdKind.definition : IdKind → Nat → Bytes → Record
  | .file, id, name => .file id name
  | .pyframe, id, name => .pyframe id name

inductive Resolve where
  | idle
  | missed (key : Nat)
  | minted (key id : Nat)
  | published (key id : Nat)
  | reserved (key id slot : Nat)
  | returned (id : Nat)
  deriving DecidableEq, Repr

/-- A tick on a CPU: it walks the Python frames, into a record it has reserved
already when nothing is staged, or it has reserved the record it emits. -/
inductive Tick where
  | idle
  | walking (rec : SampleRec) (ids : List Nat) (slot : Option Nat)
  | emitting (slot : Nat)

structure State where
  ids : IdKind → HashMap Nat Nat := fun _ => ∅
  next : IdKind → Nat := fun _ => 0
  resolving : Nat × IdKind → Resolve := fun _ => .idle
  /-- The thread whose file read each CPU is in. -/
  reader : Nat → Nat := fun _ => 0
  ticks : Nat → Tick := fun _ => .idle
  /-- The thread each CPU switches in, and the record reserved for it. -/
  waking : Nat → Option (Nat × Nat) := fun _ => none
  waits : Waits := {}
  /-- Every record reserved so far, in the order of the ring. -/
  ring : List Record := []
  submitted : Nat → Bool := fun _ => false
  /-- The records the host has consumed: a prefix of the ring. -/
  consumed : Nat := 0
  /-- The keys for which ids were given, with the ids. -/
  minted : IdKind → List (Nat × Nat) := fun _ => []

namespace State

def setResolving (s : State) (owner : Nat × IdKind) (resolve : Resolve) :
    State :=
  { s with resolving := Function.update s.resolving owner resolve }

def reserve (s : State) (record : Record) : State :=
  { s with ring := s.ring ++ [record] }

def submit (s : State) (slot : Nat) : State :=
  { s with submitted := Function.update s.submitted slot true }

end State

/-- An update of a hash map that holds at most so many keys. -/
def mapUpdate (maxEntries : Nat) (map : HashMap Nat Nat) (key value : Nat) :
    HashMap Nat Nat :=
  if (map.lookup key).isSome ∨ map.entries.length < maxEntries then
    map.insert key value
  else map

/-- The lookup that `resolve_file` and `resolve_pyframe` begin with. -/
def resolveLookup (kind : IdKind) (cpu key : Nat) (s : State) : State :=
  s.setResolving (cpu, kind)
    (match (s.ids kind).lookup key with
      | some id => .returned id
      | none => .missed key)

/-- The steps after a lookup that finds nothing; the definition's record may
find no room in the ring. -/
inductive ResolveStep where
  | increment
  | update
  | reserve (name : Bytes) (room : Bool)
  | submit

/-- The id is given, put in the map, and only then defined. -/
def resolve (kind : IdKind) (cpu : Nat) (s : State) :
    ResolveStep → Option State
  | .increment =>
      match s.resolving (cpu, kind) with
      | .missed key =>
          let id := u32 (s.next kind + 1)
          let minted := (key, id) :: s.minted kind
          some
            ({ s with
              next := Function.update s.next kind (u64 (s.next kind + 1))
              minted := Function.update s.minted kind minted }.setResolving
                (cpu, kind) (.minted key id))
      | _ => none
  | .update =>
      match s.resolving (cpu, kind) with
      | .minted key id =>
          let ids := mapUpdate kind.maxEntries (s.ids kind) key id
          some
            ({ s with ids := Function.update s.ids kind ids }.setResolving
              (cpu, kind) (.published key id))
      | _ => none
  | .reserve name room =>
      match s.resolving (cpu, kind) with
      | .published key id =>
          if room then
            some ((s.reserve (kind.definition id name)).setResolving
              (cpu, kind) (.reserved key id s.ring.length))
          else some (s.setResolving (cpu, kind) (.returned id))
      | _ => none
  | .submit =>
      match s.resolving (cpu, kind) with
      | .reserved _ id slot =>
          some ((s.submit slot).setResolving (cpu, kind) (.returned id))
      | _ => none

/-- Keyed by the inode's address. -/
def resolveFile : Nat → State → ResolveStep → Option State :=
  resolve .file

/-- Keyed by the address of the qualname object. -/
def resolvePyframe : Nat → State → ResolveStep → Option State :=
  resolve .pyframe

def sampleWith (rec : SampleRec) (ids : List Nat) : SampleRec :=
  { rec with pyIds := ids, nrPyFrames := ids.length }

inductive Action where
  /-- `on_vfs_read` up to the lookup of the file. -/
  | readEnter (cpu tid inode : Nat)
  | resolveFile (cpu : Nat) (step : ResolveStep)
  /-- `on_vfs_read` tags the thread with the resolved id. -/
  | readTag (cpu : Nat)
  /-- Another hook; an evicted entry leaves as at the exit of its call. -/
  | hook (tid : Nat) (hook : WaitHook)
  /-- `on_sched_switch` for the thread switched out. -/
  | block (tid now : Nat) (ustack : List StackBuildId) (kids : List Nat)
  /-- The block was too short, or is evicted. -/
  | unblock (tid : Nat)
  /-- `offcpu_emit_wake` up to the reservation. -/
  | wake (cpu tid tgid now : Nat) (room : Bool)
  | wakeSubmit (cpu : Nat)
  /-- `on_tick` up to the walk of the Python frames. -/
  | tickEnter (cpu : Nat) (rec : SampleRec) (room : Bool)
  /-- `walk_python` looks a frame's qualname up. -/
  | walkFrame (cpu qual : Nat)
  | resolvePyframe (cpu : Nat) (step : ResolveStep)
  | takeFrame (cpu : Nat)
  /-- The end of `on_tick`, or `unwind_stage_emit` up to the reservation. -/
  | tickEmit (cpu : Nat) (unwound : Option (Nat × List Nat)) (room : Bool)
  | tickSubmit (cpu : Nat)
  /-- The host consumes the next record. -/
  | consume

variable (unwindEnabled : Bool)

def onVfsReadTag (s : State) (cpu : Nat) : Option State :=
  match s.resolving (cpu, .file) with
  | .returned id =>
      some
        ({ s with waits := s.waits.onVfsRead (s.reader cpu) id }.setResolving
          (cpu, .file) .idle)
  | _ => none

def offcpuEmitWake (s : State) (cpu tid tgid now : Nat) (room : Bool) :
    Option State :=
  match s.waking cpu, offcpuWake s.waits tid tgid cpu now with
  | none, some rec =>
      if room then
        let waking := Function.update s.waking cpu (some (tid, s.ring.length))
        some ({ s with waking := waking }.reserve (.offcpu rec))
      else some { s with waits := s.waits.clearBlock tid }
  | _, _ => none

def offcpuSubmitWake (s : State) (cpu : Nat) : Option State :=
  match s.waking cpu with
  | some (tid, slot) =>
      some
        ({ s with
          waits := s.waits.clearBlock tid
          waking := Function.update s.waking cpu none }.submit slot)
  | none => none

def State.setTick (s : State) (cpu : Nat) (tick : Tick) : State :=
  { s with ticks := Function.update s.ticks cpu tick }

/-- With unwinding off the sample's record is reserved before the Python frames
are walked; otherwise the sample is staged. -/
def onTickEnter (s : State) (cpu : Nat) (rec : SampleRec) (room : Bool) :
    Option State :=
  match s.ticks cpu with
  | .idle =>
      if unwindEnabled then some (s.setTick cpu (.walking rec [] none))
      else if room then
        some ((s.reserve (.sample (sampleWith rec []))).setTick cpu
          (.walking rec [] (some s.ring.length)))
      else some s
  | _ => none

def walkPythonFrame (s : State) (cpu qual : Nat) : Option State :=
  match s.ticks cpu, s.resolving (cpu, .pyframe) with
  | .walking _ ids _, .idle =>
      if ids.length < maxPyFrames then
        some (resolveLookup .pyframe cpu qual s)
      else none
  | _, _ => none

def walkPythonTake (s : State) (cpu : Nat) : Option State :=
  match s.ticks cpu, s.resolving (cpu, .pyframe) with
  | .walking rec ids slot, .returned id =>
      let ids := if id = 0 then ids else ids ++ [id]
      let ring :=
        match slot with
        | some slot => s.ring.set slot (.sample (sampleWith rec ids))
        | none => s.ring
      some
        (({ s with ring := ring }.setTick cpu
          (.walking rec ids slot)).setResolving (cpu, .pyframe) .idle)
  | _, _ => none

/-- The staged record, with the walker's chain if it was chosen. -/
def stagedRecord (rec : SampleRec) (unwound : Option (Nat × List Nat)) :
    Record :=
  match unwound with
  | some (nrUnwindFrames, unwindStack) =>
      .sampleUnwind ⟨rec, nrUnwindFrames, unwindStack⟩
  | none => .sample rec

def onTickEmit (s : State) (cpu : Nat) (unwound : Option (Nat × List Nat))
    (room : Bool) : Option State :=
  match s.ticks cpu, s.resolving (cpu, .pyframe) with
  | .walking _ _ (some slot), .idle =>
      some ((s.submit slot).setTick cpu .idle)
  | .walking rec ids none, .idle =>
      if room then
        some ((s.reserve (stagedRecord (sampleWith rec ids) unwound)).setTick
          cpu (.emitting s.ring.length))
      else some (s.setTick cpu .idle)
  | _, _ => none

def onTickSubmit (s : State) (cpu : Nat) : Option State :=
  match s.ticks cpu with
  | .emitting slot => some ((s.submit slot).setTick cpu .idle)
  | _ => none

/-- The consumer stops at a record that is not submitted yet. -/
def consume (s : State) : Option State :=
  if s.consumed < s.ring.length ∧ s.submitted s.consumed then
    some { s with consumed := s.consumed + 1 }
  else none

def step (s : State) : Action → Option State
  | .readEnter cpu tid inode =>
      if s.resolving (cpu, .file) = .idle then
        some (resolveLookup .file cpu inode
          { s with reader := Function.update s.reader cpu tid })
      else none
  | .resolveFile cpu step => resolveFile cpu s step
  | .readTag cpu => onVfsReadTag s cpu
  | .hook tid hook =>
      if hook.wellFormed then some { s with waits := s.waits.hook tid hook }
      else none
  | .block tid now ustack kids =>
      some { s with waits := s.waits.offcpuRecordBlock tid now ustack kids }
  | .unblock tid => some { s with waits := s.waits.clearBlock tid }
  | .wake cpu tid tgid now room => offcpuEmitWake s cpu tid tgid now room
  | .wakeSubmit cpu => offcpuSubmitWake s cpu
  | .tickEnter cpu rec room => onTickEnter unwindEnabled s cpu rec room
  | .walkFrame cpu qual => walkPythonFrame s cpu qual
  | .resolvePyframe cpu step => resolvePyframe cpu s step
  | .takeFrame cpu => walkPythonTake s cpu
  | .tickEmit cpu unwound room => onTickEmit s cpu unwound room
  | .tickSubmit cpu => onTickSubmit s cpu
  | .consume => consume s

/-! ### What is claimed of the ids -/

def carried : Record → List (IdKind × Nat)
  | .file _ _ => []
  | .pyframe _ _ => []
  | .offcpu rec => (fileId (rec.counters 0)).toList.map (IdKind.file, ·)
  | .sample rec =>
      (rec.pyIds.take (min rec.nrPyFrames maxPyFrames)).map
        (IdKind.pyframe, ·)
  | .sampleUnwind urec =>
      (urec.sample.pyIds.take (min urec.sample.nrPyFrames maxPyFrames)).map
        (IdKind.pyframe, ·)

def State.Defines (s : State) (place : Nat) (kind : IdKind) (id : Nat) :
    Prop :=
  ∃ name, s.ring[place]? = some (kind.definition id name)

/-- The host has consumed the definition of every id before the record that
uses it. -/
def DefinedBeforeUse (s : State) : Prop :=
  ∀ place record, place < s.consumed → s.ring[place]? = some record →
    ∀ kind id, (kind, id) ∈ carried record → id ≠ 0 →
      ∃ earlier < place, s.Defines earlier kind id

/-- No key has two ids. -/
def UniqueIds (s : State) : Prop :=
  ∀ kind key id other, (key, id) ∈ s.minted kind →
    (key, other) ∈ s.minted kind → id = other

end Sismo.Sched
