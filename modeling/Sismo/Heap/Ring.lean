import Mathlib.Logic.Function.Basic
import Sismo.Lib.Machine
import Sismo.Lib.Word

namespace Sismo.Heap.Ring

/-! The shared-memory ring between the preload's writers and the recorder's
reader, one shared access a step. -/

def headerBytes : Nat := 8

def recordAlign : Nat := 8

structure Layout where
  size : Nat
  exponent : Nat
  power : size = 2 ^ exponent
  fits : exponent < 64

structure MetadataPage where
  spinlock : Nat := 0
  writePos : Nat := 0
  readPos : Nat := 0
  bytesWritten : Nat := 0
  numWritesSucceeded : Nat := 0
  numWritesOverflow : Nat := 0
  numReadsSucceeded : Nat := 0
  numReadsNodata : Nat := 0
  failedSpinlocks : Nat := 0
  deriving DecidableEq, Repr

/-- The data block, one byte for each offset below the ring's size. -/
abbrev Data := Nat → UInt8

namespace Layout

/-- Where the record at a free-running position starts in the data view. -/
def address (ring : Layout) (pos : Nat) : Nat :=
  pos &&& (ring.size - 1)

/-- The view continues in the mirror, which shows the same bytes again. -/
def loadByte (ring : Layout) (data : Data) (address : Nat) : UInt8 :=
  data (address % ring.size)

def storeByte (ring : Layout) (data : Data) (address : Nat) (byte : UInt8) :
    Data :=
  Function.update data (address % ring.size) byte

def loadU32 (ring : Layout) (data : Data) (address : Nat) : Nat :=
  (ring.loadByte data address).toNat +
    2 ^ 8 * (ring.loadByte data (address + 1)).toNat +
    2 ^ 16 * (ring.loadByte data (address + 2)).toNat +
    2 ^ 24 * (ring.loadByte data (address + 3)).toNat

def storeU32 (ring : Layout) (data : Data) (address value : Nat) : Data :=
  let data := ring.storeByte data address (UInt8.ofNat value)
  let data := ring.storeByte data (address + 1) (UInt8.ofNat (value / 2 ^ 8))
  let data := ring.storeByte data (address + 2) (UInt8.ofNat (value / 2 ^ 16))
  ring.storeByte data (address + 3) (UInt8.ofNat (value / 2 ^ 24))

end Layout

/-- Bytes a record of the payload length takes, its header included. -/
def total (payloadLen : Nat) : Nat :=
  alignUp (payloadLen + headerBytes) recordAlign

/-- Where a writer is in `begin_write`, the copy and `end_write`.  `ticket`
numbers the reservation. -/
inductive Writer where
  | idle
  | locking (payload : List UInt8) (spins : Nat)
  | swapping (payload : List UInt8) (spins : Nat)
  | backingOff (payload : List UInt8)
  | locked (payload : List UInt8)
  | loadedWrite (payload : List UInt8) (wr : Nat)
  | loadedRead (payload : List UInt8) (wr rd : Nat)
  | overflowed
  | zeroed (payload : List UInt8) (wr : Nat)
  | stored (payload : List UInt8) (wr ticket : Nat)
  | countedBytes (payload : List UInt8) (wr ticket : Nat)
  | countedWrite (payload : List UInt8) (wr ticket : Nat)
  | copying (payload : List UInt8) (wr ticket : Nat) (copied : List Nat)
  deriving DecidableEq, Repr

/-- Where the reader is in `begin_read`, the reading and `end_read`. -/
inductive Reader where
  | idle
  | loadedRead (rd : Nat)
  | loadedWrite (rd wr : Nat)
  | unpublished
  | holding (rd len : Nat) (bytes : List UInt8)
  | ending (rd len : Nat) (bytes : List UInt8)
  | counting
  deriving DecidableEq, Repr

/-- `reserved` and `published` are ghost: the payloads in reservation order and
the tickets whose header has been stored. -/
structure State where
  page : MetadataPage := {}
  data : Data := fun _ => 0
  writers : Nat → Writer := fun _ => .idle
  reader : Reader := .idle
  reserved : List (List UInt8) := []
  published : List Nat := []
  returned : List (List UInt8) := []

namespace State

def setWriter (s : State) (w : Nat) (writer : Writer) : State :=
  { s with writers := Function.update s.writers w writer }

/-- One failed attempt at the lock; every hundredth one backs off. -/
def spin (s : State) (w : Nat) (payload : List UInt8) (spins : Nat) : State :=
  let spins := spins + 1
  if 100 < spins then s.setWriter w (.backingOff payload)
  else s.setWriter w (.locking payload spins)

end State

variable (ring : Layout)

def beginWrite (s : State) (w : Nat) (payload : List UInt8) : Option State :=
  if s.writers w = .idle ∧ 0 < payload.length ∧ payload.length < 2 ^ 32 then
    -- A record larger than the ring gets a null pointer at once.
    if ring.size < total payload.length then some s
    else some (s.setWriter w (.locking payload 0))
  else none

/-- The next instruction of a writer inside `begin_write` or `end_write`. -/
def writerStep (s : State) (w : Nat) : Option State :=
  match s.writers w with
  | .idle => none
  | .locking payload spins =>
      if s.page.spinlock = 0 then
        some (s.setWriter w (.swapping payload spins))
      else some (s.spin w payload spins)
  | .swapping payload spins =>
      let taken := { s with page := { s.page with spinlock := 1 } }
      if s.page.spinlock = 0 then some (taken.setWriter w (.locked payload))
      else some (taken.spin w payload spins)
  | .backingOff payload =>
      some ({ s with page := { s.page with
        failedSpinlocks := u64 (s.page.failedSpinlocks + 1) } }.setWriter w
          (.locking payload 0))
  | .locked payload =>
      some (s.setWriter w (.loadedWrite payload s.page.writePos))
  | .loadedWrite payload wr =>
      some (s.setWriter w (.loadedRead payload wr s.page.readPos))
  | .loadedRead payload wr rd =>
      if ring.size < wrappingSub wr rd + total payload.length then
        some ({ s with page := { s.page with
          numWritesOverflow := u64 (s.page.numWritesOverflow + 1) } }.setWriter
            w .overflowed)
      else
        some ({ s with
          data := ring.storeU32 s.data (ring.address wr) 0 }.setWriter w
            (.zeroed payload wr))
  | .overflowed =>
      some ({ s with page := { s.page with spinlock := 0 } }.setWriter w .idle)
  | .zeroed payload wr =>
      some ({ s with
        page := { s.page with writePos := u64 (wr + total payload.length) }
        reserved := s.reserved ++ [payload] }.setWriter w
          (.stored payload wr s.reserved.length))
  | .stored payload wr ticket =>
      some ({ s with page := { s.page with
        bytesWritten := u64 (s.page.bytesWritten + payload.length) } }.setWriter
          w (.countedBytes payload wr ticket))
  | .countedBytes payload wr ticket =>
      some ({ s with page := { s.page with
        numWritesSucceeded := u64 (s.page.numWritesSucceeded + 1) } }.setWriter
          w (.countedWrite payload wr ticket))
  | .countedWrite payload wr ticket =>
      some ({ s with page := { s.page with spinlock := 0 } }.setWriter w
        (.copying payload wr ticket []))
  | .copying payload wr ticket copied =>
      if ∀ i < payload.length, i ∈ copied then
        some ({ s with
          data := ring.storeU32 s.data (ring.address wr) (u32 payload.length)
          published := ticket :: s.published }.setWriter w .idle)
      else none

def copyStep (s : State) (w index : Nat) : Option State :=
  match s.writers w with
  | .copying payload wr ticket copied =>
      match payload[index]? with
      | none => none
      | some byte =>
          some ({ s with
            data := ring.storeByte s.data
              (ring.address wr + headerBytes + index) byte }.setWriter w
                (.copying payload wr ticket (index :: copied)))
  | _ => none

def readerStep (s : State) : State :=
  match s.reader with
  | .idle => { s with reader := .loadedRead s.page.readPos }
  | .loadedRead rd => { s with reader := .loadedWrite rd s.page.writePos }
  | .loadedWrite rd wr =>
      if wr ≤ rd then
        { s with
          page := { s.page with
            numReadsNodata := u64 (s.page.numReadsNodata + 1) }
          reader := .idle }
      else
        let size := ring.loadU32 s.data (ring.address rd)
        if size = 0 then { s with reader := .unpublished }
        else { s with reader := .holding rd size [] }
  | .unpublished =>
      { s with
        page := { s.page with
          numReadsNodata := u64 (s.page.numReadsNodata + 1) }
        reader := .idle }
  | .holding rd len bytes =>
      if bytes.length < len then
        { s with
          reader := .holding rd len (bytes ++ [ring.loadByte s.data
            (ring.address rd + headerBytes + bytes.length)]) }
      else { s with reader := .ending s.page.readPos len bytes }
  | .ending rd len bytes =>
      { s with
        page := { s.page with readPos := u64 (rd + total len) }
        reader := .counting
        returned := s.returned ++ [bytes] }
  | .counting =>
      { s with
        page := { s.page with
          numReadsSucceeded := u64 (s.page.numReadsSucceeded + 1) }
        reader := .idle }

inductive Action where
  | beginWrite (writer : Nat) (payload : List UInt8)
  | writer (writer : Nat)
  | copy (writer index : Nat)
  | reader
  deriving DecidableEq, Repr

def step (s : State) : Action → Option State
  | .beginWrite w payload => beginWrite ring s w payload
  | .writer w => writerStep ring s w
  | .copy w index => copyStep ring s w index
  | .reader => some (readerStep ring s)

end Sismo.Heap.Ring
