import Mathlib.Logic.Function.Basic
import Sismo.Heap.Book
import Sismo.Lib.Machine

namespace Sismo.Heap.Shim

/-! The allocator shim while capture is enabled, run by any number of threads
against any real allocator.  A step is one access to what threads share: the
sequence counter, the ring's next slot, or the real allocator. -/

def freeBatchCap : Nat := 128

/-- A block of the real allocator.  `seq`, `queued` and `reallocFailed` are
ghost: the number of its record, whether a free of it has been queued, and
whether a realloc of it has failed. -/
structure Block where
  sampleSize : Nat
  pcs : List Nat
  busy : Bool := false
  seq : Option Nat := none
  queued : Bool := false
  reallocFailed : Bool := false
  deriving DecidableEq, Repr

inductive FreeCall where
  | free (ptr : Nat)
  | realloc (ptr sampleSize : Nat) (pcs : List Nat)
  deriving DecidableEq, Repr

def FreeCall.ptr : FreeCall → Nat
  | .free ptr => ptr
  | .realloc ptr _ _ => ptr

inductive Place where
  | idle
  | allocating (sampleSize : Nat) (pcs : List Nat)
  | memaligning (sampleSize : Nat) (pcs : List Nat)
  | recording (addr sampleSize : Nat) (pcs : List Nat)
  | stamping (addr sampleSize : Nat) (pcs : List Nat) (slot : Nat)
  | queueing (call : FreeCall)
  | flushing (call : Option FreeCall)
  | calling (call : FreeCall)
  deriving DecidableEq, Repr

inductive Slot where
  | reservedAlloc (addr : Nat)
  | alloc (record : AllocRecord)
  | frees (entries : List FreeEntry)
  deriving DecidableEq, Repr

/-- A record of the ring, with the value the sequence counter had when its slot
was reserved. -/
structure RingRecord where
  stamp : Nat
  slot : Slot
  deriving DecidableEq, Repr

/-- The ring holds its records in reservation order; `history` is ghost and
lists what was numbered. -/
structure State where
  nextSeq : Nat := 1
  blocks : Nat → Option Block
  places : Nat → Place := fun _ => .idle
  batches : Nat → List FreeEntry := fun _ => []
  ring : List RingRecord := []
  history : List HeapRecord := []

/-- Before the capture starts some blocks are allocated, none of them
sampled. -/
def State.initial (before : Nat → Bool) : State where
  blocks addr :=
    if addr ≠ 0 ∧ before addr then some { sampleSize := 0, pcs := [] } else none

namespace State

def setPlace (s : State) (t : Nat) (place : Place) : State :=
  { s with places := Function.update s.places t place }

def setBlock (s : State) (addr : Nat) (block : Option Block) : State :=
  { s with blocks := Function.update s.blocks addr block }

/-- `begin_write`, which fits. -/
def reserve (s : State) (slot : Slot) : State :=
  { s with ring := s.ring ++ [⟨s.nextSeq, slot⟩] }

/-- What the thread numbers with its increment of the sequence counter. -/
def number (s : State) (record : HeapRecord) : State :=
  { s with nextSeq := s.nextSeq + 1, history := s.history ++ [record] }

/-- The real allocator hands out a block, which the shim records if it is
sampled. -/
def allocate (s : State) (t ptr sampleSize : Nat) (pcs : List Nat) : State :=
  if sampleSize = 0 then
    (s.setBlock ptr (some { sampleSize := 0, pcs := pcs })).setPlace t .idle
  else
    (s.setBlock ptr (some
      { sampleSize := sampleSize, pcs := pcs, busy := true })).setPlace t
        (.recording ptr sampleSize pcs)

end State

/-- `sismo_malloc_shim`, `sismo_calloc_shim`, `sismo_valloc_shim` and
`sismo_aligned_alloc_shim` up to the real call. -/
def sampledAlloc (s : State) (t sampleSize : Nat) (pcs : List Nat) :
    Option State :=
  if s.places t = .idle then some (s.setPlace t (.allocating sampleSize pcs))
  else none

def sampledAllocResult (s : State) (t ptr : Nat) : Option State :=
  match s.places t with
  | .allocating sampleSize pcs =>
      if ptr = 0 then some (s.setPlace t .idle)
      else if s.blocks ptr = none then some (s.allocate t ptr sampleSize pcs)
      else none
  | _ => none

def posixMemalignShim (s : State) (t sampleSize : Nat) (pcs : List Nat) :
    Option State :=
  if s.places t = .idle then some (s.setPlace t (.memaligning sampleSize pcs))
  else none

def posixMemalignResult (s : State) (t rc ptr : Nat) : Option State :=
  match s.places t with
  | .memaligning sampleSize pcs =>
      if rc = 0 ∧ ptr ≠ 0 then
        if s.blocks ptr = none then some (s.allocate t ptr sampleSize pcs)
        else none
      else some (s.setPlace t .idle)
  | _ => none

/-- The program gives up a block it owns. -/
def claim (s : State) (t : Nat) (call : FreeCall) : Option State :=
  match s.blocks call.ptr with
  | some block =>
      if block.busy then none
      else some ((s.setBlock call.ptr (some { block with busy := true })).setPlace
        t (.queueing call))
  | none => none

def freeShim (s : State) (t ptr : Nat) : Option State :=
  if s.places t = .idle then
    if ptr = 0 then some s
    else claim s t (.free ptr)
  else none

def freeResult (s : State) (t : Nat) : Option State :=
  match s.places t with
  | .calling (.free ptr) => some ((s.setBlock ptr none).setPlace t .idle)
  | _ => none

def reallocShim (s : State) (t ptr sampleSize : Nat) (pcs : List Nat) :
    Option State :=
  if s.places t = .idle then
    if ptr = 0 then
      some (s.setPlace t (.calling (.realloc 0 sampleSize pcs)))
    else claim s t (.realloc ptr sampleSize pcs)
  else none

/-- A failed realloc leaves the old block allocated; a successful one frees it
and returns the same or another address. -/
def reallocResult (s : State) (t newPtr : Nat) : Option State :=
  match s.places t with
  | .calling (.realloc ptr sampleSize pcs) =>
      if newPtr = 0 then
        match s.blocks ptr with
        | some block =>
            some ((s.setBlock ptr (some { block with
              busy := false, reallocFailed := true })).setPlace t .idle)
        | none => some (s.setPlace t .idle)
      else
        let freed := if ptr = 0 then s else s.setBlock ptr none
        if freed.blocks newPtr = none then
          some (freed.allocate t newPtr sampleSize pcs)
        else none
  | _ => none

/-- `emit_alloc_record`: reserve a slot, then number and write the record. -/
def emitAllocRecord (s : State) (t : Nat) : Option State :=
  match s.places t with
  | .recording addr sampleSize pcs =>
      some ((s.reserve (.reservedAlloc addr)).setPlace t
        (.stamping addr sampleSize pcs s.ring.length))
  | .stamping addr sampleSize pcs slot =>
      match s.ring[slot]?, s.blocks addr with
      | some reserved, some block =>
          let record : AllocRecord := ⟨s.nextSeq, addr, sampleSize, pcs⟩
          let written := { s.number (.alloc record) with
            ring := s.ring.set slot { reserved with slot := .alloc record } }
          some ((written.setBlock addr (some { block with
            busy := false, seq := some s.nextSeq })).setPlace t .idle)
      | _, _ => none
  | _ => none

/-- `queue_free`: number the free and add it to the thread's batch, which is
flushed when it is full or its first entry is old. -/
def queueFree (s : State) (t : Nat) (stale : Bool) : Option State :=
  match s.places t with
  | .queueing call =>
      match s.blocks call.ptr with
      | some block =>
          let entry : FreeEntry := ⟨s.nextSeq, call.ptr⟩
          let entries := s.batches t ++ [entry]
          let queued := { s.number (.free entry) with
            batches := Function.update s.batches t entries }
          some ((queued.setBlock call.ptr (some { block with
            queued := true })).setPlace t
              (if freeBatchCap ≤ entries.length ∨
                  (stale = true ∧ 1 < entries.length)
                then .flushing (some call) else .calling call))
      | none => none
  | _ => none

/-- `flush_frees`: one slot for the whole batch. -/
def flushFrees (s : State) (t : Nat) : Option State :=
  match s.places t with
  | .flushing call =>
      let written := { s.reserve (.frees (s.batches t)) with
        batches := Function.update s.batches t [] }
      some (written.setPlace t
        (match call with
        | some call => .calling call
        | none => .idle))
  | _ => none

inductive Action where
  | alloc (t sampleSize : Nat) (pcs : List Nat)
  | allocResult (t ptr : Nat)
  | posixMemalign (t sampleSize : Nat) (pcs : List Nat)
  | posixMemalignResult (t rc ptr : Nat)
  | free (t ptr : Nat)
  | freeResult (t : Nat)
  | realloc (t ptr sampleSize : Nat) (pcs : List Nat)
  | reallocResult (t newPtr : Nat)
  | emit (t : Nat)
  | queue (t : Nat) (stale : Bool)
  | flush (t : Nat)
  /-- A thread that stops freeing has its last batch flushed. -/
  | lastFlush (t : Nat)
  deriving DecidableEq, Repr

def step (s : State) : Action → Option State
  | .alloc t sampleSize pcs => sampledAlloc s t sampleSize pcs
  | .allocResult t ptr => sampledAllocResult s t ptr
  | .posixMemalign t sampleSize pcs => posixMemalignShim s t sampleSize pcs
  | .posixMemalignResult t rc ptr => posixMemalignResult s t rc ptr
  | .free t ptr => freeShim s t ptr
  | .freeResult t => freeResult s t
  | .realloc t ptr sampleSize pcs => reallocShim s t ptr sampleSize pcs
  | .reallocResult t newPtr => reallocResult s t newPtr
  | .emit t => emitAllocRecord s t
  | .queue t stale => queueFree s t stale
  | .flush t => flushFrees s t
  | .lastFlush t =>
      if s.places t = .idle then some (s.setPlace t (.flushing none)) else none

/-! What the recorder makes of the ring. -/

def Slot.records : Slot → List HeapRecord
  | .reservedAlloc _ => []
  | .alloc record => [.alloc record]
  | .frees entries => entries.map .free

def delivered (s : State) : List HeapRecord :=
  s.ring.flatMap (·.slot.records)

def book (s : State) : HeapBook Nat :=
  ({} : HeapBook Nat).applyAll (delivered s)

/-- Every call has returned and every queued free has been flushed. -/
def Quiet (s : State) : Prop :=
  ∀ t, s.places t = .idle ∧ s.batches t = []

def sampledAt (s : State) (addr : Nat) : List (Nat × List Nat) :=
  match s.blocks addr with
  | some block =>
      if block.sampleSize = 0 then [] else [(block.sampleSize, block.pcs)]
  | none => []

/-- The live entries are exactly the sampled blocks still allocated. -/
def Accurate (s : State) : Prop :=
  ∀ addr, ((book s).liveAt addr).map (fun l => (l.sampleSize, l.pcs)) =
    sampledAt s addr

end Sismo.Heap.Shim
