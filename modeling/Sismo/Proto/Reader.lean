import Sismo.Proto.Writer

namespace Sismo.Proto

/-! The iterator over the fields of a protobuf message. -/

def Octets (n : Nat) := { bytes : Bytes // bytes.length = n }

inductive WireValue
  | varint (value : UInt64)
  | fixed64 (bytes : Octets 8)
  | len (bytes : Bytes)
  | fixed32 (bytes : Octets 4)

/-- The position stays inside the buffer, which is a slice. -/
structure ProtoReader where
  buf : Bytes
  pos : Nat
  bounded : pos ≤ buf.length
  sized : buf.length ≤ isizeMax

/-- A method of the reader: it panics, or returns a value or none. -/
def Reading (α : Type) :=
  ProtoReader → Except Panic (Option α × ProtoReader)

namespace Reading

variable {α β : Type}

/-- The `?` operator. -/
def bind (first : Reading α) (next : α → Reading β) : Reading β := fun r =>
  match first r with
  | .error panic => .error panic
  | .ok (none, r) => .ok (none, r)
  | .ok (some a, r) => next a r

instance : Monad Reading where
  pure a := fun r => .ok (some a, r)
  bind := bind

def none : Reading α := fun r => .ok (.none, r)

def ofOption (answer : Option α) : Reading α := fun r => .ok (answer, r)

def panic (panic : Panic) : Reading α := fun _ => .error panic

end Reading

def tryInto (n : Nat) (bytes : Bytes) : Option (Octets n) :=
  if size : bytes.length = n then some ⟨bytes, size⟩ else none

namespace ProtoReader

def new (buf : Bytes) (sized : buf.length ≤ isizeMax) : ProtoReader :=
  ⟨buf, 0, Nat.zero_le _, sized⟩

def unread (r : ProtoReader) : Bytes := r.buf.drop r.pos

def nextByte : Reading UInt8 := fun r =>
  if inside : r.pos < r.buf.length then
    match r.buf[r.pos]? with
    | none => .error .index
    | some b => .ok (some b, { r with pos := r.pos + 1, bounded := inside })
  else .ok (none, r)

/-- A shift by the width or more panics. -/
def shl (v : UInt64) (shift : Nat) : Reading UInt64 :=
  if shift < 64 then pure (v <<< UInt64.ofNat shift) else .panic .overflow

def readVarintLoop (value : UInt64) (shift : Nat) : Reading UInt64 := do
  let b ← nextByte
  let group ← shl (b &&& 0x7f).toUInt64 shift
  let value := value ||| group
  if b &&& 0x80 = 0 then pure value
  else if 64 ≤ shift + 7 then .none
  else readVarintLoop value (shift + 7)
termination_by 64 - shift

def readVarint : Reading UInt64 := readVarintLoop 0 0

def take (n : Nat) : Reading Bytes := fun r =>
  let stop := r.pos + n
  if 2 ^ 64 ≤ stop then .ok (none, r)
  else if outside : r.buf.length < stop then .ok (none, r)
  else if stop < r.pos ∨ r.buf.length < stop then .error .index
  else .ok (some ((r.buf.drop r.pos).take (stop - r.pos)),
    { r with pos := stop, bounded := Nat.not_lt.mp outside })

/-- The value after a tag; an unknown wire type stops the iteration. -/
def readValue (tag : UInt64) : Reading WireValue :=
  match (tag &&& 0x07).toNat with
  | 0 => do
      let value ← readVarint
      pure (.varint value)
  | 1 => do
      let bytes ← take 8 >>= fun bytes => .ofOption (tryInto 8 bytes)
      pure (.fixed64 bytes)
  | 2 => do
      let bytes ← readVarint >>= fun len => take len.toNat
      pure (.len bytes)
  | 5 => do
      let bytes ← take 4 >>= fun bytes => .ofOption (tryInto 4 bytes)
      pure (.fixed32 bytes)
  | _ => .none

def next : Reading (UInt32 × WireValue) := do
  let tag ← readVarint
  let value ← readValue tag
  pure ((tag >>> 3).toUInt32, value)

end ProtoReader

end Sismo.Proto
