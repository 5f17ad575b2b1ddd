import Mathlib.Data.List.Forall2
import Sismo.Samples.Interner

namespace Sismo.Samples

/-! The reader of a packet sequence: it collects the interned data of each
packet and forgets it at a packet that clears incremental state. -/

structure Tables where
  strings : StringField → HashMap Nat Bytes := fun _ => ∅
  mappings : HashMap Nat MappingMsg := ∅
  frames : HashMap Nat FrameKey := ∅
  callstacks : HashMap Nat (List Nat) := ∅

/-- The module of a frame. A file-offset mapping stands for the file with the
build id, wherever it was found. -/
structure DecodedMapping where
  buildId : Option Bytes
  start : Nat
  end_ : Nat
  loadBias : Nat
  exactOffset : Nat
  path : Option Bytes
  addressSpace : AddressSpace
  deriving DecidableEq, Repr

structure DecodedFrame where
  mapping : DecodedMapping
  relPc : Nat
  name : Option Bytes
  deriving DecidableEq, Repr

/-- A definition of an id that has the same one already, or none. -/
def define {α : Type} [DecidableEq α] (defs : HashMap Nat α) (iid : Nat)
    (content : α) : Option (HashMap Nat α) :=
  match defs.lookup iid with
  | none => some (defs.insert iid content)
  | some old => if old = content then some defs else none

namespace Tables

def add (tables : Tables) : InternedEntry → Option Tables
  | .string field iid bytes =>
      (define (tables.strings field) iid bytes).map fun defs =>
        { tables with strings := Function.update tables.strings field defs }
  | .mapping iid msg =>
      (define tables.mappings iid msg).map fun defs =>
        { tables with mappings := defs }
  | .frame iid msg =>
      (define tables.frames iid msg).map fun defs =>
        { tables with frames := defs }
  | .callstack iid frameIids =>
      (define tables.callstacks iid frameIids).map fun defs =>
        { tables with callstacks := defs }

/-- A string that may be left out. -/
def stringAt (tables : Tables) (field : StringField) (iid : Nat) :
    Option (Option Bytes) :=
  if iid = 0 then some none
  else ((tables.strings field).lookup iid).map some

def decodeMapping (tables : Tables) (msg : MappingMsg) :
    Option DecodedMapping := do
  let path ← (tables.strings .mappingPath).lookup msg.path
  let buildId ← tables.stringAt .buildId msg.buildId
  some
    { buildId := buildId
      start := msg.start
      end_ := msg.end_
      loadBias := msg.loadBias
      exactOffset := msg.exactOffset
      path := if msg.addressSpace = .fileOffset then none else some path
      addressSpace := msg.addressSpace }

def mappingAt (tables : Tables) (iid : Nat) : Option DecodedMapping := do
  let msg ← tables.mappings.lookup iid
  tables.decodeMapping msg

def decodeFrame (tables : Tables) (msg : FrameKey) : Option DecodedFrame := do
  let mapping ← tables.mappingAt msg.mappingIid
  let name ← tables.stringAt .functionName msg.nameIid
  some { mapping := mapping, relPc := msg.relPc, name := name }

def frameAt (tables : Tables) (iid : Nat) : Option DecodedFrame := do
  let msg ← tables.frames.lookup iid
  tables.decodeFrame msg

def decodeFrames (tables : Tables) (iids : List Nat) :
    Option (List DecodedFrame) :=
  iids.mapM tables.frameAt

def defined (tables : Tables) : InternedEntry → Bool
  | .string _ _ _ => true
  | .mapping _ msg => (tables.decodeMapping msg).isSome
  | .frame _ msg => (tables.decodeFrame msg).isSome
  | .callstack _ frameIids => (tables.decodeFrames frameIids).isSome

def addAll (tables : Tables) (entries : List InternedEntry) : Option Tables :=
  entries.foldlM add tables

/-- The stack of a sample; a sample without a callstack id has none. -/
def stackAt (tables : Tables) (callstackIid : Nat) :
    Option (List DecodedFrame) :=
  if callstackIid = 0 then some []
  else do
    let iids ← tables.callstacks.lookup callstackIid
    tables.decodeFrames iids

end Tables

/-- The defaults packet clears incremental state. -/
inductive Packet where
  | defaults (timebase : Bytes) (followers : List Bytes)
  | sample (packet : PerfSamplePacket) (interned : List InternedEntry)
  deriving DecidableEq, Repr

/-- The tables after a sample's interned data, and its stack; none when an id
is not defined, or defined twice with different contents. -/
def decodeSample (tables : Tables) (packet : PerfSamplePacket)
    (interned : List InternedEntry) : Option (Tables × List DecodedFrame) := do
  let tables ← tables.addAll interned
  if interned.all tables.defined then
    let stack ← tables.stackAt packet.callstackIid
    some (tables, stack)
  else none

/-- The tables, none before the first clear, and the stacks read so far. -/
structure Reader where
  tables : Option Tables := none
  decoded : List (List DecodedFrame) := []

def Reader.read (reader : Reader) : Packet → Option Reader
  | .defaults _ _ => some { reader with tables := some {} }
  | .sample packet interned => do
      let tables ← reader.tables
      let (tables, stack) ← decodeSample tables packet interned
      some { tables := some tables, decoded := reader.decoded ++ [stack] }

def readAll (packets : List Packet) : Option Reader :=
  packets.foldlM Reader.read {}

def decode (packets : List Packet) : Option (List (List DecodedFrame)) :=
  (readAll packets).map Reader.decoded

end Sismo.Samples
