import Sismo.Tar.Header

namespace Sismo.Tar

/-! The archive writer over the files it reads and the file it writes. -/

structure Metadata where
  len : Nat
  /-- The modification time in whole seconds from the epoch, where known. -/
  modified : Option Int

/-- One source file: its metadata, whether it opens, and what the reads of it
give in turn. Any of them may fail. -/
structure Source where
  metadata : Option Metadata
  opens : Bool
  reads : List (Option Bytes)

structure Member where
  arcname : String
  src : String
  file : Source

/-- The archive's buffered file. `room` is the number of bytes it accepts before
a write fails, which comes after the disk's own limit by what the buffer holds. -/
structure Sink where
  creates : Bool
  room : Nat
  flushes : Bool
  room_lt : room < 2 ^ 63

/-- The seconds of the modification time, 0 where it is unknown or before the
epoch. -/
def mtimeOf (info : Metadata) : Nat :=
  (info.modified.bind fun t => if 0 ≤ t then some t.toNat else none).getD 0

def writeAll (sink : Sink) (out bytes : Bytes) : Fallible Error Bytes :=
  if out.length + bytes.length ≤ sink.room then .ok (out ++ bytes)
  else .err .io

def copyLoop (sink : Sink) : List (Option Bytes) → Bytes → Nat →
    Fallible Error (Bytes × Nat)
  | [], out, copied => .ok (out, copied)
  | none :: _, _, _ => .err .io
  | some [] :: _, out, copied => .ok (out, copied)
  | some (byte :: buf) :: reads, out, copied => do
      let out ← writeAll sink out (byte :: buf)
      let copied ← addWords copied (buf.length + 1)
      copyLoop sink reads out copied

def padding (copied : Nat) : Nat :=
  (block - copied % block) % block

/-- The file of a member after its header: its bytes, and zeros to the end of
the block. -/
def writeContents (sink : Sink) (m : Member) (size : Nat) (out : Bytes)
    (total : Nat) : Fallible Error (Bytes × Nat) :=
  if m.file.opens then do
    let (out, copied) ← copyLoop sink m.file.reads out 0
    if copied ≠ size then
      .err (.other (m.src ++ " changed size while tarring"))
    else
      let total ← addWords total copied
      let out ← writeAll sink out (zeros (padding copied))
      let total ← addWords total (padding copied)
      .ok (out, total)
  else .err .io

/-- One round of the loop of `write_tar`: the archive and its length after a
member. -/
def writeMember (sink : Sink) (m : Member) (out : Bytes) (total : Nat) :
    Fallible Error (Bytes × Nat) :=
  match m.file.metadata with
  | none => .err .io
  | some info => do
      let header ← headerFor m.arcname info.len (mtimeOf info)
      let out ← writeAll sink out header
      let total ← addWords total block
      writeContents sink m info.len out total

def writeMembers (sink : Sink) : List Member → Bytes → Nat →
    Fallible Error (Bytes × Nat)
  | [], out, total => .ok (out, total)
  | m :: members, out, total => do
      let (out, total) ← writeMember sink m out total
      writeMembers sink members out total

/-- `write_tar`: the archive, and the length it returns. -/
def writeTar (sink : Sink) (members : List Member) :
    Fallible Error (Bytes × Nat) :=
  if sink.creates then do
    let (out, total) ← writeMembers sink members [] 0
    let out ← writeAll sink out (zeros (2 * block))
    let total ← addWords total (2 * block)
    if sink.flushes then .ok (out, total) else .err .io
  else .err .io

end Sismo.Tar
