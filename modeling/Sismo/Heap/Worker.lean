import Sismo.Heap.Book
import Sismo.Lib.Machine

namespace Sismo.Heap.Worker

/-! The recorder's worker: the loop that drains the ring into the book and
emits a profile on every flush and stop. -/

abbrev Payload := List UInt8

def stackSnapshotBytes : Nat := 8192

def maxFrames : Nat := 32

def allocMetadataBytes : Nat := 328

def offSequence : Nat := 0

def offSampleSize : Nat := 16

def offAllocAddress : Nat := 24

def offStackPointer : Nat := 32

def offRegPc : Nat := 48

def offRegLr : Nat := 56

def offRegFp : Nat := 64

def freeBatchMagic : Nat := 0x53465245454e5452

def freeHeaderBytes : Nat := 16

def freeEntryBytes : Nat := 16

/-- Little endian. -/
def readU64 (slice : Payload) (off : Nat) : Nat :=
  ((slice.drop off).take 8).foldr (fun byte rest => byte.toNat + 256 * rest) 0

structure StackRegs where
  pc : Nat
  fp : Nat
  lr : Nat
  sp : Nat

section

/- The unwinder's walk over the copied stack. -/
variable (walkSnapshot : StackRegs → Payload → Nat → Nat → List Nat)

def processRecord (book : HeapBook UInt64) (slice : Payload) :
    HeapBook UInt64 :=
  if freeHeaderBytes ≤ slice.length ∧ readU64 slice 0 = freeBatchMagic then
    let num := readU64 slice 8
    let held := (slice.length - freeHeaderBytes) / freeEntryBytes
    (List.range (min num held)).foldl (fun book i =>
      let off := freeHeaderBytes + i * freeEntryBytes
      book.applyFree ⟨readU64 slice off, readU64 slice (off + 8)⟩) book
  else if slice.length < allocMetadataBytes + stackSnapshotBytes then book
  else
    let sp := readU64 slice offStackPointer
    let pcs := walkSnapshot
      ⟨readU64 slice offRegPc, readU64 slice offRegFp,
        readU64 slice offRegLr, sp⟩
      (slice.drop allocMetadataBytes) sp maxFrames
    let pcs := if pcs.isEmpty then [readU64 slice offAllocAddress] else pcs
    book.applyAlloc ⟨readU64 slice offSequence,
      readU64 slice offAllocAddress, readU64 slice offSampleSize,
      pcs.take maxFrames⟩

/-- The ring's records in ring order: those read, and those reserved behind
them, each with its bytes once it is published. -/
structure RingView where
  read : List Payload := []
  unread : List (Option Payload) := []
  deriving DecidableEq, Repr

def RingView.slots (ring : RingView) : List (Option Payload) :=
  ring.read.map some ++ ring.unread

inductive Handling where
  | interval | flush | stop
  deriving DecidableEq, Repr

/-- Where the worker is in its loop.  `before` is the ring as the drain under
way, or the one just ended, found it. -/
inductive Phase where
  | top
  | draining (handling : Handling) (batch : Nat) (before : RingView)
  | checkFlush
  | emitting (handling : Handling) (before : RingView)
  | checkStop
  | settling
  | checkExit
  | waiting
  | exited
  deriving DecidableEq, Repr

/-- A profile, with the ring before its drain and at the emission. -/
structure Emission where
  handling : Handling
  before : RingView
  after : RingView
  book : HeapBook UInt64

structure State where
  running : Bool := false
  exitRequested : Bool := false
  pendingFlusher : Bool := false
  pendingStopper : Bool := false
  ctrlFdOpen : Bool := true
  ring : RingView := {}
  book : HeapBook UInt64 := {}
  phase : Phase := .top
  emitted : List Emission := []

def Phase.afterDrain (before : RingView) : Handling → Phase
  | .interval => .checkFlush
  | .flush => .emitting .flush before
  | .stop => .emitting .stop before

/-- `drain_into`, one record a step. -/
def drainStep (s : State) (handling : Handling) (batch : Nat)
    (before : RingView) : State :=
  match s.ring.unread with
  | some slice :: unread =>
      let s := { s with
        book := processRecord walkSnapshot s.book slice
        ring := ⟨s.ring.read ++ [slice], unread⟩ }
      let batch := batch + 1
      if 4096 < batch then { s with phase := .afterDrain before handling }
      else { s with phase := .draining handling batch before }
  -- Nothing, or a record that is reserved and not published yet.
  | _ => { s with phase := .afterDrain before handling }

def emitProfile (s : State) (handling : Handling) (before : RingView) :
    State :=
  { s with emitted := s.emitted ++ [⟨handling, before, s.ring, s.book⟩] }

def workerStep (s : State) : Option State :=
  match s.phase with
  | .top =>
      if s.exitRequested then some { s with phase := .exited }
      else if s.running then
        some { s with phase := .draining .interval 0 s.ring }
      else some { s with phase := .checkFlush }
  | .draining handling batch before =>
      some (drainStep walkSnapshot s handling batch before)
  | .checkFlush =>
      if s.pendingFlusher then
        some { s with
          pendingFlusher := false
          phase := .draining .flush 0 s.ring }
      else some { s with phase := .checkStop }
  | .emitting handling before =>
      match handling with
      | .stop =>
          some { emitProfile s .stop before with
            running := false
            phase := .checkExit }
      | other =>
          some { emitProfile s other before with phase := .checkStop }
  | .checkStop =>
      if s.pendingStopper then
        if s.ctrlFdOpen then
          some { s with
            pendingStopper := false
            ctrlFdOpen := false
            phase := .settling }
        else
          some { s with
            pendingStopper := false
            phase := .draining .stop 0 s.ring }
      else some { s with phase := .checkExit }
  | .settling => some { s with phase := .draining .stop 0 s.ring }
  | .checkExit =>
      if s.exitRequested then some { s with phase := .exited }
      else some { s with phase := .waiting }
  | .waiting => some { s with phase := .top }
  | .exited => none

inductive Action where
  | reserve
  | publish (index : Nat) (slice : Payload)
  | onStart
  | onFlush
  | onStop
  | shutdown
  | worker
  deriving DecidableEq, Repr

/-- The target's threads reserve and publish, in any order, until it has seen
the detach; the trampolines come at any time. -/
def step (s : State) : Action → Option State
  | .reserve =>
      if s.ctrlFdOpen ∨ s.phase = .settling then
        some { s with
          ring := { s.ring with unread := s.ring.unread ++ [none] } }
      else none
  | .publish index slice =>
      if (s.ctrlFdOpen ∨ s.phase = .settling) ∧
          s.ring.unread[index]? = some none then
        some { s with
          ring :=
            { s.ring with unread := s.ring.unread.set index (some slice) } }
      else none
  | .onStart => some { s with running := true }
  | .onFlush => some { s with pendingFlusher := true }
  | .onStop => some { s with pendingStopper := true }
  | .shutdown => some { s with exitRequested := true }
  | .worker => workerStep walkSnapshot s

end

end Sismo.Heap.Worker
