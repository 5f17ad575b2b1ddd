import Mathlib.Algebra.Order.Ring.Nat
import Mathlib.Data.List.Basic

namespace Sismo.Proto

/-! The protobuf encoder over a growable buffer. -/

abbrev Bytes := List UInt8

def isizeMax : Nat := 2 ^ 63 - 1

/-- Width reserved for a sub-message length prefix. -/
def reservedLen : Nat := 5

theorem toNat_nextGroups (v : UInt64) : (v >>> 7).toNat = v.toNat / 128 := by
  rw [UInt64.toNat_shiftRight]
  exact Nat.shiftRight_eq_div_pow v.toNat 7

inductive Panic
  | capacity
  | index
  | overflow
  deriving DecidableEq, Repr

structure ProtoWriter where
  bytes : Bytes
  sized : bytes.length ≤ isizeMax

namespace ProtoWriter

def new : ProtoWriter := ⟨[], Nat.zero_le _⟩

def extend (w : ProtoWriter) (bytes : Bytes) : Except Panic ProtoWriter :=
  if fits : (w.bytes ++ bytes).length ≤ isizeMax then
    .ok ⟨w.bytes ++ bytes, fits⟩
  else .error .capacity

def push (w : ProtoWriter) (byte : UInt8) : Except Panic ProtoWriter :=
  w.extend [byte]

def store (w : ProtoWriter) (i : Nat) (byte : UInt8) :
    Except Panic ProtoWriter :=
  if i < w.bytes.length then
    .ok ⟨w.bytes.set i byte, by rw [List.length_set]; exact w.sized⟩
  else .error .index

def writeVarint (w : ProtoWriter) (v : UInt64) : Except Panic ProtoWriter :=
  if 0x80 ≤ v then do
    let w ← w.push ((v &&& 0x7f) ||| 0x80).toUInt8
    writeVarint w (v >>> 7)
  else w.push (v &&& 0x7f).toUInt8
termination_by v.toNat
decreasing_by
  next large =>
    have large : 128 ≤ v.toNat := large
    rw [toNat_nextGroups]
    omega

def writeTag (w : ProtoWriter) (field : UInt32) (wire : UInt8) :
    Except Panic ProtoWriter :=
  w.writeVarint ((field.toUInt64 <<< 3) ||| wire.toUInt64)

def writeUint64 (w : ProtoWriter) (field : UInt32) (value : UInt64) :
    Except Panic ProtoWriter := do
  let w ← w.writeTag field 0
  w.writeVarint value

def writeUint32 (w : ProtoWriter) (field : UInt32) (value : UInt32) :
    Except Panic ProtoWriter := do
  let w ← w.writeTag field 0
  w.writeVarint value.toUInt64

def writeInt32 (w : ProtoWriter) (field : UInt32) (value : Int32) :
    Except Panic ProtoWriter :=
  w.writeUint32 field value.toUInt32

def writeInt64 (w : ProtoWriter) (field : UInt32) (value : Int64) :
    Except Panic ProtoWriter :=
  w.writeUint64 field value.toUInt64

def writeString (w : ProtoWriter) (field : UInt32) (bytes : Bytes) :
    Except Panic ProtoWriter := do
  let w ← w.writeTag field 2
  let w ← w.writeVarint (UInt64.ofNat bytes.length)
  w.extend bytes

def writeMessage (w : ProtoWriter) (field : UInt32) (msg : Bytes) :
    Except Panic ProtoWriter := do
  let w ← w.writeTag field 2
  let w ← w.writeVarint (UInt64.ofNat msg.length)
  w.extend msg

def beginMessage (w : ProtoWriter) (field : UInt32) :
    Except Panic (Nat × ProtoWriter) := do
  let w ← w.writeTag field 2
  let marker := w.bytes.length
  let w ← w.extend (List.replicate reservedLen 0)
  .ok (marker, w)

/-- The debug assertion on the length is left out, as in a release build. -/
def endMessage (w : ProtoWriter) (marker : Nat) : Except Panic ProtoWriter :=
  if w.bytes.length < marker + reservedLen then .error .overflow
  else do
    let len := UInt64.ofNat (w.bytes.length - marker - reservedLen)
    let group (i : Nat) : UInt8 :=
      ((len >>> UInt64.ofNat (7 * i)) &&& 0x7f).toUInt8
    let w ← (List.range (reservedLen - 1)).foldlM
      (fun w i => w.store (marker + i) (group i ||| 0x80)) w
    w.store (marker + reservedLen - 1) (group (reservedLen - 1))

def message (w : ProtoWriter) (field : UInt32)
    (f : ProtoWriter → Except Panic ProtoWriter) :
    Except Panic ProtoWriter := do
  let (marker, w) ← w.beginMessage field
  let w ← f w
  w.endMessage marker

end ProtoWriter

/-! Trees of writes. -/

/-- Field numbers of the wire format. -/
def FieldNumber := { field : UInt32 // 1 ≤ field.toNat ∧ field.toNat < 2 ^ 29 }

/-- The three ways to write a sub-message. -/
inductive Nesting
  | beginEnd
  | message
  | writeMessage
  deriving DecidableEq, Repr

inductive Write
  | uint64 (field : FieldNumber) (value : UInt64)
  | uint32 (field : FieldNumber) (value : UInt32)
  | int32 (field : FieldNumber) (value : Int32)
  | int64 (field : FieldNumber) (value : Int64)
  | string (field : FieldNumber) (bytes : Bytes)
  | nested (how : Nesting) (field : FieldNumber) (body : List Write)

mutual

def Write.apply : Write → ProtoWriter → Except Panic ProtoWriter
  | .uint64 field value, w => w.writeUint64 field.val value
  | .uint32 field value, w => w.writeUint32 field.val value
  | .int32 field value, w => w.writeInt32 field.val value
  | .int64 field value, w => w.writeInt64 field.val value
  | .string field bytes, w => w.writeString field.val bytes
  | .nested .beginEnd field body, w => do
      let (marker, w) ← w.beginMessage field.val
      let w ← applyAll body w
      w.endMessage marker
  | .nested .message field body, w => w.message field.val (applyAll body)
  | .nested .writeMessage field body, w => do
      let inner ← applyAll body .new
      w.writeMessage field.val inner.bytes

def applyAll : List Write → ProtoWriter → Except Panic ProtoWriter
  | [], w => .ok w
  | write :: rest, w => do
      let w ← write.apply w
      applyAll rest w

end

end Sismo.Proto
