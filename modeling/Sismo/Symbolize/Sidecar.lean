import Mathlib.Data.List.Sort
import Sismo.Lib.Utf8

namespace Sismo.Symbolize

/-! The source and disassembly records appended to a trace, and how the UI
reads them back. -/

abbrev Bytes := List UInt8

def maxChunkBytes : Nat := 192 * 1024

/-- The event name and the name of the key annotation. -/
inductive Sidecar where
  | src | asm
  deriving DecidableEq, Repr

/-- One packet: the instant event with its annotations. -/
structure Event where
  sidecar : Sidecar
  keyVal : Bytes
  text : Bytes
  chunk : Option Nat
  nchunks : Nat
  deriving DecidableEq, Repr

def writeChunks (sidecar : Sidecar) (keyVal payload : Bytes) (nchunks : Nat)
    (off i : Nat) : List Event :=
  if off < payload.length then
    let stop := min (off + maxChunkBytes) payload.length
    ⟨sidecar, keyVal, (payload.drop off).take (stop - off), some i,
      nchunks⟩ :: writeChunks sidecar keyVal payload nchunks stop (i + 1)
  else []
termination_by payload.length - off
decreasing_by
  simp only [maxChunkBytes]
  omega

def writeChunked (sidecar : Sidecar) (keyVal payload : Bytes) : List Event :=
  if payload.length ≤ maxChunkBytes then
    [⟨sidecar, keyVal, payload, none, 0⟩]
  else
    writeChunks sidecar keyVal payload
      ((payload.length + maxChunkBytes - 1) / maxChunkBytes) 0 0

/-- A payload written under a key; both are text. -/
structure Record where
  sidecar : Sidecar
  key : Bytes
  payload : Bytes
  validKey : Utf8.Valid key
  validPayload : Utf8.Valid payload

def Record.events (record : Record) : List Event :=
  writeChunked record.sidecar record.key record.payload

/-- The trace processor's string values: valid text is kept, and what replaces
a stray continuation byte is longer. -/
structure StringValues where
  keep : Bytes → Bytes
  keeps_valid : ∀ bytes, Utf8.Valid bytes → keep bytes = bytes
  never_shorter : ∀ bytes, bytes.length ≤ (keep bytes).length
  replaces : ∀ bytes, Utf8.StartsInside bytes →
    bytes.length < (keep bytes).length

/-- `coalesce(chunk, 0)`. -/
def Event.ordinal (e : Event) : Nat :=
  e.chunk.getD 0

def readChunked (values : StringValues) (slices : List Event)
    (sidecar : Sidecar) (key : Bytes) : Option Bytes :=
  let rows := (slices.filter fun e =>
    e.sidecar = sidecar ∧ values.keep e.keyVal = key).insertionSort
      fun first second => first.ordinal ≤ second.ordinal
  let parts := rows.map fun e => values.keep e.text
  if parts = [] then none else some parts.flatten

end Sismo.Symbolize
