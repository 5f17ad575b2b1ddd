import Mathlib.Tactic.IntervalCases
import Sismo.Elf.File

namespace Sismo.Elf

/-! The recovery of `.eh_frame` from the program headers. -/

/-- The two's complement value of a number of `size` bytes. -/
def signed (size n : Nat) : Int :=
  if n < 256 ^ size / 2 then n else (n : Int) - 256 ^ size

def Slice.first (s : Slice) (size : Nat) : Option Nat :=
  if size ≤ s.len then some (s.numberAt size 0) else none

/-- The value of the pointer field in the forms that are handled. -/
def rawPtr (enc : Nat) (data : Slice) : Option Int :=
  match enc % 16 with
  | 0x00 | 0x04 => (data.first 8).map Int.ofNat
  | 0x03 => (data.first 4).map Int.ofNat
  | 0x0b => (data.first 4).map (signed 4)
  | 0x0c => (data.first 8).map (signed 8)
  | _ => none

/-- What the value is relative to: nothing, the field or the header. -/
def ptrBase (enc hdrVaddr : Nat) : Option Nat :=
  match enc / 16 % 8 with
  | 0 => some 0
  | 1 => some (hdrVaddr + 4)
  | 3 => some hdrVaddr
  | _ => none

def tryU64 (n : Int) : Option Nat :=
  if 0 ≤ n ∧ n < 2 ^ 64 then some n.toNat else none

/-- `decode_eh_frame_ptr`: none where the code panics. -/
def decodeEhFramePtr (hdr : Slice) (hdrVaddr : Nat) : Option (Option Nat) :=
  if hdr.len < 4 ∨ hdr.numberAt 1 0 ≠ 1 then some none
  else
    let enc := hdr.numberAt 1 1
    match hdr.get 4 hdr.len with
    | none => some none
    | some data =>
        if 2 ^ 64 ≤ hdrVaddr + 4 then none
        else
          some do
            let raw ← rawPtr enc data
            let base ← ptrBase enc hdrVaddr
            tryU64 (base + raw)

structure EhFrameSections where
  ehFrameHdr : Slice
  ehFrameHdrSvma : Nat × Nat
  ehFrame : Slice
  ehFrameSvma : Nat × Nat

def ElfFile.restOfLoad (elf : ElfFile) (load : Segment) (vaddr : Nat) :
    Option Slice := do
  let startOff ← checkedAdd (vaddr - load.vaddr) load.offset
  let endOff ← checkedAdd load.offset load.filesz
  let size ← checkedSub endOff startOff
  elf.read startOff size

section

-- The parser of the ELF headers.
variable (readHeaders : Slice → Option Headers)

/-- `fill_eh_frame_from_phdrs`: none where the code panics. -/
def fillEhFrameFromPhdrs (bytes : Slice) : Option (Option EhFrameSections) :=
  match ElfFile.parse readHeaders bytes with
  | none => some none
  | some elf =>
      match elf.segment ptGnuEhFrame with
      | none => some none
      | some hdr =>
          match elf.read hdr.offset hdr.filesz with
          | none => some none
          | some hdrBytes =>
              match decodeEhFramePtr hdrBytes hdr.vaddr with
              | none => none
              | some none => some none
              | some (some ehFrameVaddr) =>
                  match elf.loadContaining ehFrameVaddr with
                  | none => some none
                  | some load =>
                      match elf.restOfLoad load ehFrameVaddr with
                      | none => some none
                      | some ehFrame =>
                          if 2 ^ 64 ≤ ehFrameVaddr + ehFrame.len ∨
                              2 ^ 64 ≤ hdr.vaddr + hdr.filesz then none
                          else
                            some (some
                              { ehFrameHdr := hdrBytes
                                ehFrameHdrSvma :=
                                  (hdr.vaddr, hdr.vaddr + hdr.filesz)
                                ehFrame := ehFrame
                                ehFrameSvma := (ehFrameVaddr,
                                  ehFrameVaddr + ehFrame.len) })

end

/-! What the header points at, and the entries of an `.eh_frame`, by the format
and not by what the recovery reads. -/

inductive ByteOrder where
  | little
  | big
  deriving DecidableEq, Repr

/-- The order of a file's numbers, by its `EI_DATA`. -/
def ByteOrder.ofFile (file : Slice) : ByteOrder :=
  if file.data[5]? = some 2 then .big else .little

def ByteOrder.number : ByteOrder → List UInt8 → Nat
  | .little, bytes => leValue bytes
  | .big, bytes => leValue bytes.reverse

def unsignedValue (order : ByteOrder) (size : Nat) (bytes : List UInt8) :
    Option Int :=
  if size ≤ bytes.length then some (order.number (bytes.take size)) else none

def signedValue (order : ByteOrder) (size : Nat) (bytes : List UInt8) :
    Option Int :=
  if size ≤ bytes.length then
    some (BitVec.ofNat (8 * size) (order.number (bytes.take size))).toInt
  else none

/-- A LEB128 number: its bits, and how many there are. -/
def leb128 : List UInt8 → Option (Nat × Nat)
  | [] => none
  | b :: rest =>
      if b < 0x80 then some (b.toNat, 7)
      else (leb128 rest).map fun high =>
        (b.toNat % 128 + 128 * high.1, high.2 + 7)

/-- What a pointer's bytes stand for in each form of `DW_EH_PE`. -/
def formValue (order : ByteOrder) (form : Nat) (bytes : List UInt8) :
    Option Int :=
  match form with
  | 0x00 | 0x04 => unsignedValue order 8 bytes
  | 0x01 => (leb128 bytes).map fun leb => leb.1
  | 0x02 => unsignedValue order 2 bytes
  | 0x03 => unsignedValue order 4 bytes
  | 0x09 => (leb128 bytes).map fun leb => (BitVec.ofNat leb.2 leb.1).toInt
  | 0x0a => signedValue order 2 bytes
  | 0x0b => signedValue order 4 bytes
  | 0x0c => signedValue order 8 bytes
  | _ => none

/-- What `DW_EH_PE` makes a value relative to. -/
inductive RelativeTo (fieldVaddr hdrVaddr : Nat) : Nat → Nat → Prop where
  | absptr : RelativeTo fieldVaddr hdrVaddr 0x00 0
  | pcrel : RelativeTo fieldVaddr hdrVaddr 0x10 fieldVaddr
  | datarel : RelativeTo fieldVaddr hdrVaddr 0x30 hdrVaddr

/-- A header of version 1, as long as its fixed fields. -/
def Versioned (hdr : Slice) : Prop :=
  4 ≤ hdr.len ∧ hdr.numberAt 1 0 = 1

def ehFramePtrEnc (hdr : Slice) : Nat :=
  hdr.numberAt 1 1

structure FieldSum (order : ByteOrder) (hdr : Slice) (hdrVaddr : Nat)
    (sum : Int) : Prop where
  versioned : Versioned hdr
  added : ∃ value base,
    formValue order (ehFramePtrEnc hdr % 16) (hdr.data.drop 4) = some value ∧
    RelativeTo (hdrVaddr + 4) hdrVaddr (ehFramePtrEnc hdr / 16 % 8 * 16)
      base ∧
    base + value = sum

def entrySize (order : ByteOrder) (bytes : List UInt8) : Nat :=
  let length := order.number (bytes.take 4)
  if length = 0xffffffff then 12 + order.number ((bytes.drop 4).take 8)
  else 4 + length

theorem four_le_entrySize (order : ByteOrder) (bytes : List UInt8) :
    4 ≤ entrySize order bytes := by
  rw [entrySize]
  split <;> omega

/-- The length of the entries from the start on, with the terminator: four
bytes of zero in place of an entry's length. -/
def entriesLength (order : ByteOrder) (bytes : List UInt8) : Option Nat :=
  if bytes.length < 4 then none
  else if order.number (bytes.take 4) = 0 then some 4
  else
    (entriesLength order (bytes.drop (entrySize order bytes))).map
      (entrySize order bytes + ·)
termination_by bytes.length
decreasing_by
  have := four_le_entrySize order bytes
  rw [List.length_drop]
  omega

def ElfFile.bytesFrom (elf : ElfFile) (load : Segment) (vaddr : Nat) :
    List UInt8 :=
  ((elf.data.data.drop load.offset).take load.filesz).drop (vaddr - load.vaddr)

/-- A segment's part of the address space that is in the file. -/
def Segment.Backs (seg : Segment) (vaddr : Nat) : Prop :=
  seg.vaddr ≤ vaddr ∧ vaddr < seg.vaddr + seg.filesz

def ElfFile.Holds (elf : ElfFile) (order : ByteOrder) (vaddr word : Nat) :
    Prop :=
  ∃ load ∈ elf.loads, load.Backs vaddr ∧
    unsignedValue order 8 (elf.bytesFrom load vaddr) = some (word : Int)

/-- A header points at an address: sums are words, and the field may hold the
address of the pointer in place of the pointer. -/
def PointsAt (order : ByteOrder) (elf : ElfFile) (hdr : Slice)
    (hdrVaddr vaddr : Nat) : Prop :=
  ∃ sum, FieldSum order hdr hdrVaddr sum ∧
    if ehFramePtrEnc hdr < 0x80 then (vaddr : Int) = sum % 2 ^ 64
    else elf.Holds order (sum % 2 ^ 64).toNat vaddr

/-- The forms of the pointer field that `decode_eh_frame_ptr` handles. -/
def HandledForm (hdr : Slice) : Prop :=
  ehFramePtrEnc hdr % 16 ∈ [0x00, 0x03, 0x04, 0x0b, 0x0c]

instance (hdr : Slice) : Decidable (HandledForm hdr) :=
  inferInstanceAs (Decidable (_ ∈ _))

/-- The pointer field, in a handled form and taken as a little-endian pointer
that is direct, is the address: the sum does not wrap around. -/
structure DirectAt (hdr : Slice) (hdrVaddr vaddr : Nat) : Prop where
  handled : HandledForm hdr
  sum : FieldSum .little hdr hdrVaddr vaddr

/-- The PT_LOAD segments are in the file and in the address space, apart. -/
structure ElfFile.LaidOut (elf : ElfFile) : Prop where
  inFile : ∀ seg ∈ elf.loads, seg.offset + seg.filesz ≤ elf.data.len
  inSpace : ∀ seg ∈ elf.loads, seg.vaddr + seg.filesz ≤ 2 ^ 64
  apart : ∀ seg ∈ elf.loads, ∀ other ∈ elf.loads, ∀ vaddr,
    seg.Backs vaddr → other.Backs vaddr → seg = other

section

variable (readHeaders : Slice → Option Headers)

/-- The parsed file, its PT_GNU_EH_FRAME and the bytes of that. -/
structure HasHeader (file : Slice) (elf : ElfFile) (hdr : Segment)
    (hdrBytes : Slice) : Prop where
  parsed : ElfFile.parse readHeaders file = some elf
  first : elf.segment ptGnuEhFrame = some hdr
  bytes : elf.read hdr.offset hdr.filesz = some hdrBytes

/-- A well-formed file whose header points at the entries of `length` bytes
in a PT_LOAD. -/
structure HasEntries (file : Slice) (elf : ElfFile) (load : Segment)
    (vaddr length : Nat) : Prop where
  points : ∃ hdr hdrBytes, HasHeader readHeaders file elf hdr hdrBytes ∧
    PointsAt (.ofFile file) elf hdrBytes hdr.vaddr vaddr
  laidOut : elf.LaidOut
  loads : load ∈ elf.loads
  backs : load.Backs vaddr
  terminated : entriesLength (.ofFile file) (elf.bytesFrom load vaddr) =
    some length

/-- The recovery does not panic, and finds the entries of every well-formed
file. -/
structure Recovers (file : Slice) : Prop where
  safe : (fillEhFrameFromPhdrs readHeaders file).isSome
  entries : ∀ elf load vaddr length,
    HasEntries readHeaders file elf load vaddr length →
    ∃ info, fillEhFrameFromPhdrs readHeaders file = some (some info) ∧
      info.ehFrameSvma.1 = vaddr ∧ length ≤ info.ehFrame.len ∧
      info.ehFrame.data.take length =
        (elf.bytesFrom load vaddr).take length

/-- The sums of addresses that are reached are words, and a pointer at entries
is in a form that is handled, little-endian and direct. -/
structure Recoverable (file : Slice) : Prop where
  field : ∀ elf hdr hdrBytes, HasHeader readHeaders file elf hdr hdrBytes →
    Versioned hdrBytes → hdr.vaddr + 4 < 2 ^ 64
  ends : ∀ elf hdr hdrBytes, HasHeader readHeaders file elf hdr hdrBytes →
    ∀ vaddr, DirectAt hdrBytes hdr.vaddr vaddr →
    ∀ load, elf.loadContaining vaddr = some load →
    load.offset + load.filesz ≤ elf.data.len →
    load.vaddr + load.filesz < 2 ^ 64 ∧ hdr.vaddr + hdr.filesz < 2 ^ 64
  handled : ∀ elf hdr hdrBytes, HasHeader readHeaders file elf hdr hdrBytes →
    ∀ load vaddr length, HasEntries readHeaders file elf load vaddr length →
    DirectAt hdrBytes hdr.vaddr vaddr

end

theorem tryU64_eq_some {n : Int} {m : Nat} :
    tryU64 n = some m ↔ n = m ∧ m < 2 ^ 64 := by
  rw [tryU64]
  split
  · next fits =>
      rw [Option.some.injEq]
      omega
  · next wide =>
      refine iff_of_false (by simp) fun same => wide ?_
      omega

theorem Versioned.data {hdr : Slice} (versioned : Versioned hdr) :
    ∃ data, hdr.get 4 hdr.len = some data := by
  refine Option.isSome_iff_exists.mp (Slice.get_isSome_iff.mpr ?_)
  exact ⟨versioned.1, le_rfl⟩

/-- The decoder panics where the address of the field is not a word. -/
theorem decodeEhFramePtr_eq_none {hdr : Slice} {hdrVaddr : Nat} :
    decodeEhFramePtr hdr hdrVaddr = none ↔
      Versioned hdr ∧ 2 ^ 64 ≤ hdrVaddr + 4 := by
  rw [decodeEhFramePtr]
  split
  · next other =>
      refine iff_of_false (by simp) fun both => ?_
      rcases other with short | version
      · have := both.1.1
        omega
      · exact version both.1.2
  · next usual =>
      rw [not_or, not_lt, not_not] at usual
      obtain ⟨data, present⟩ := Versioned.data usual
      rw [present]
      dsimp only
      split
      · next wide => exact iff_of_true rfl ⟨usual, wide⟩
      · next fits => exact iff_of_false (by simp) fun both => fits both.2

theorem first_eq {data : Slice} (size : Nat) :
    (data.first size).map Int.ofNat =
      unsignedValue .little size data.data := by
  rw [Slice.first, unsignedValue, Slice.numberAt, List.drop_zero]
  by_cases short : size ≤ data.data.length
  · rw [if_pos short, if_pos (show size ≤ data.len from short)]
    rfl
  · rw [if_neg short, if_neg (show ¬size ≤ data.len from short)]
    rfl

/-- The two's complement value is that of the bit vector. -/
theorem signed_eq {size n : Nat} (pos : 0 < size) (small : n < 256 ^ size) :
    signed size n = (BitVec.ofNat (8 * size) n).toInt := by
  have power : 2 ^ (8 * size) = 256 ^ size := by
    rw [Nat.pow_mul]
  have even : 256 ^ size = 2 * (128 * 256 ^ (size - 1)) := by
    rw [← Nat.mul_assoc, ← Nat.pow_succ', Nat.succ_eq_add_one,
      Nat.sub_add_cancel pos]
  rw [signed, BitVec.toInt_eq_toNat_cond, BitVec.toNat_ofNat, power,
    Nat.mod_eq_of_lt small]
  have wide : (256 : Int) ^ size = (256 ^ size : Nat) := by push_cast; rfl
  have widePower : (2 : Int) ^ (8 * size) = (256 ^ size : Nat) := by
    rw [← power]
    push_cast
    rfl
  split <;> split <;> omega

theorem first_signed_eq {data : Slice} {size : Nat} (pos : 0 < size) :
    (data.first size).map (signed size) =
      signedValue .little size data.data := by
  rw [Slice.first, signedValue, Slice.numberAt, List.drop_zero]
  by_cases short : size ≤ data.data.length
  · rw [if_pos short, if_pos (show size ≤ data.len from short)]
    refine congrArg some (signed_eq pos ((leValue_lt _).trans_le ?_))
    exact Nat.pow_le_pow_right (by decide) (List.length_take_le _ _)
  · rw [if_neg short, if_neg (show ¬size ≤ data.len from short)]
    rfl

/-- In the forms it handles the decoder reads what the field stands for. -/
theorem rawPtr_eq_some {enc : Nat} {data : Slice} {raw : Int} :
    rawPtr enc data = some raw ↔
      enc % 16 ∈ [0x00, 0x03, 0x04, 0x0b, 0x0c] ∧
        formValue .little (enc % 16) data.data = some raw := by
  have small : enc % 16 < 16 := Nat.mod_lt _ (by decide)
  rw [rawPtr]
  generalize enc % 16 = form at small
  interval_cases form <;> simp [formValue, first_eq, first_signed_eq]

theorem ptrBase_eq_some {enc hdrVaddr base : Nat} :
    ptrBase enc hdrVaddr = some base ↔
      RelativeTo (hdrVaddr + 4) hdrVaddr (enc / 16 % 8 * 16) base := by
  have eighth : enc / 16 % 8 < 8 := Nat.mod_lt _ (by decide)
  rw [ptrBase]
  generalize enc / 16 % 8 = application at eighth
  constructor
  · intro relative
    split at relative
    · cases relative
      exact .absptr
    · cases relative
      exact .pcrel
    · cases relative
      exact .datarel
    · cases relative
  · generalize code : application * 16 = scaled
    rintro (_ | _ | _)
    · obtain rfl : application = 0 := by omega
      rfl
    · obtain rfl : application = 1 := by omega
      rfl
    · obtain rfl : application = 3 := by omega
      rfl

/-- The decoder finds the sum, where that is a word. -/
theorem decodeEhFramePtr_eq_some {hdr : Slice} {hdrVaddr vaddr : Nat}
    (fits : hdrVaddr + 4 < 2 ^ 64) :
    decodeEhFramePtr hdr hdrVaddr = some (some vaddr) ↔
      DirectAt hdr hdrVaddr vaddr ∧ vaddr < 2 ^ 64 := by
  rw [decodeEhFramePtr]
  split
  · next other =>
      refine iff_of_false (by simp) fun both => ?_
      have versioned := both.1.sum.versioned
      rcases other with short | version
      · have := versioned.1
        omega
      · exact version versioned.2
  · next usual =>
      rw [not_or, not_lt, not_not] at usual
      obtain ⟨data, present⟩ := Versioned.data usual
      have field : data.data = hdr.data.drop 4 := by
        rw [(Slice.get_eq_some present).2.2, List.take_of_length_le]
        rw [List.length_drop, Slice.len]
      rw [present]
      dsimp only
      rw [if_neg (by omega), Option.some.injEq]
      simp only [Option.bind_eq_bind, Option.bind_eq_some_iff,
        tryU64_eq_some, rawPtr_eq_some, ptrBase_eq_some, field]
      constructor
      · rintro ⟨raw, ⟨handled, value⟩, base, relative, sum, word⟩
        exact ⟨⟨handled, usual, raw, base, value, relative, sum⟩, word⟩
      · rintro ⟨⟨handled, _, raw, base, value, relative, sum⟩, word⟩
        exact ⟨raw, ⟨handled, value⟩, base, relative, sum, word⟩

section

variable {elf : ElfFile} {load : Segment} {vaddr : Nat}

theorem Segment.containsVaddr_iff (seg : Segment) (vaddr : Nat) :
    seg.containsVaddr vaddr = true ↔
      seg.Backs vaddr ∧ vaddr < 2 ^ 64 - 1 := by
  rw [Segment.containsVaddr, saturatingAdd, Segment.Backs, decide_eq_true_eq]
  omega

theorem ElfFile.loadContaining_spec
    (found : elf.loadContaining vaddr = some load) :
    load ∈ elf.loads ∧ load.Backs vaddr ∧ vaddr < 2 ^ 64 - 1 := by
  have holds := List.find?_some found
  rw [decide_eq_true_eq] at holds
  refine ⟨ElfFile.mem_loads.mpr ⟨List.mem_of_find?_eq_some found, holds.1⟩, ?_⟩
  exact (load.containsVaddr_iff vaddr).mp holds.2

theorem ElfFile.LaidOut.loadContaining_eq (laidOut : elf.LaidOut)
    (member : load ∈ elf.loads) (backs : load.Backs vaddr)
    (small : vaddr < 2 ^ 64 - 1) : elf.loadContaining vaddr = some load := by
  cases found : elf.loadContaining vaddr with
  | none =>
      have none := List.find?_eq_none.mp found load
        (ElfFile.mem_loads.mp member).1
      refine absurd ?_ none
      rw [decide_eq_true_eq]
      exact ⟨(ElfFile.mem_loads.mp member).2,
        (load.containsVaddr_iff vaddr).mpr ⟨backs, small⟩⟩
  | some other =>
      obtain ⟨among, also, _⟩ := ElfFile.loadContaining_spec found
      rw [laidOut.apart other among load member vaddr also backs]

theorem Segment.Backs.length (backs : load.Backs vaddr)
    (inFile : load.offset + load.filesz ≤ elf.data.len) :
    vaddr + (elf.bytesFrom load vaddr).length = load.vaddr + load.filesz := by
  have := backs.1
  have := backs.2
  have : elf.data.len = elf.data.data.length := rfl
  rw [ElfFile.bytesFrom, List.length_drop, List.length_take, List.length_drop]
  omega

theorem ElfFile.restOfLoad_eq_some (backs : load.Backs vaddr) {rest : Slice} :
    elf.restOfLoad load vaddr = some rest ↔
      load.offset + load.filesz ≤ elf.data.len ∧
        rest.data = elf.bytesFrom load vaddr := by
  have lower := backs.1
  have upper := backs.2
  have short := elf.data.len_lt
  rw [ElfFile.restOfLoad]
  simp only [Option.bind_eq_bind, Option.bind_eq_some_iff, checkedAdd_eq_some,
    checkedSub_eq_some]
  have data : ∀ inside : load.offset + load.filesz ≤ elf.data.len,
      (elf.data.get (vaddr - load.vaddr + load.offset)
        (load.offset + load.filesz)).map Slice.data =
        some (elf.bytesFrom load vaddr) := by
    intro inside
    rw [Slice.map_data_get (by omega) inside, ElfFile.bytesFrom,
      List.drop_take, List.drop_drop,
      Nat.add_comm load.offset (vaddr - load.vaddr)]
    congr 2
    omega
  constructor
  · rintro ⟨start, ⟨rfl, _⟩, stop, ⟨rfl, _⟩, size, ⟨_, rfl⟩, read⟩
    rw [ElfFile.read, show vaddr - load.vaddr + load.offset +
      (load.offset + load.filesz - (vaddr - load.vaddr + load.offset)) =
      load.offset + load.filesz by omega] at read
    have inside := (Slice.get_eq_some read).2.1
    have same := data inside
    rw [read, Option.map_some, Option.some.injEq] at same
    exact ⟨inside, same⟩
  · rintro ⟨inside, same⟩
    refine ⟨_, ⟨rfl, by omega⟩, _, ⟨rfl, by omega⟩, _, ⟨by omega, rfl⟩, ?_⟩
    rw [ElfFile.read, show vaddr - load.vaddr + load.offset +
      (load.offset + load.filesz - (vaddr - load.vaddr + load.offset)) =
      load.offset + load.filesz by omega]
    obtain ⟨found, read, bytes⟩ := Option.map_eq_some_iff.mp (data inside)
    rw [read, Slice.ext_data (bytes.trans same.symm)]

end

theorem entriesLength_bounds {order : ByteOrder} {bytes : List UInt8}
    {length : Nat} (terminated : entriesLength order bytes = some length) :
    4 ≤ length ∧ length ≤ bytes.length := by
  induction bytes using entriesLength.induct order generalizing length with
  | case1 bytes short =>
      rw [entriesLength, if_pos short] at terminated
      cases terminated
  | case2 bytes long zero =>
      rw [entriesLength, if_neg long, if_pos zero] at terminated
      cases terminated
      omega
  | case3 bytes long nonzero ih =>
      rw [entriesLength, if_neg long, if_neg nonzero,
        Option.map_eq_some_iff] at terminated
      obtain ⟨rest, later, rfl⟩ := terminated
      have bounds := ih later
      rw [List.length_drop] at bounds
      omega

section

variable {readHeaders : Slice → Option Headers} {file : Slice} {elf : ElfFile}
  {hdr : Segment} {hdrBytes : Slice} {load : Segment} {vaddr length : Nat}

theorem HasHeader.unique (header : HasHeader readHeaders file elf hdr hdrBytes)
    {hdr' : Segment} {hdrBytes' : Slice}
    (other : HasHeader readHeaders file elf hdr' hdrBytes') :
    hdr' = hdr ∧ hdrBytes' = hdrBytes := by
  cases header.first.symm.trans other.first
  cases header.bytes.symm.trans other.bytes
  exact ⟨rfl, rfl⟩

theorem fillEhFrameFromPhdrs_of_header
    (header : HasHeader readHeaders file elf hdr hdrBytes) :
    fillEhFrameFromPhdrs readHeaders file =
      match decodeEhFramePtr hdrBytes hdr.vaddr with
      | none => none
      | some none => some none
      | some (some ehFrameVaddr) =>
          match elf.loadContaining ehFrameVaddr with
          | none => some none
          | some load =>
              match elf.restOfLoad load ehFrameVaddr with
              | none => some none
              | some ehFrame =>
                  if 2 ^ 64 ≤ ehFrameVaddr + ehFrame.len ∨
                      2 ^ 64 ≤ hdr.vaddr + hdr.filesz then none
                  else
                    some (some
                      { ehFrameHdr := hdrBytes
                        ehFrameHdrSvma := (hdr.vaddr, hdr.vaddr + hdr.filesz)
                        ehFrame := ehFrame
                        ehFrameSvma := (ehFrameVaddr,
                          ehFrameVaddr + ehFrame.len) }) := by
  rw [fillEhFrameFromPhdrs, header.parsed]
  dsimp only
  rw [header.first]
  dsimp only
  rw [header.bytes]

/-- The recovery at a pointer into a segment that is in the file. -/
theorem fillEhFrameFromPhdrs_of_pointer
    (header : HasHeader readHeaders file elf hdr hdrBytes)
    (fits : hdr.vaddr + 4 < 2 ^ 64)
    (points : DirectAt hdrBytes hdr.vaddr vaddr)
    (found : elf.loadContaining vaddr = some load)
    (inFile : load.offset + load.filesz ≤ elf.data.len) :
    ∃ rest : Slice, rest.data = elf.bytesFrom load vaddr ∧
      fillEhFrameFromPhdrs readHeaders file =
        if 2 ^ 64 ≤ load.vaddr + load.filesz ∨
            2 ^ 64 ≤ hdr.vaddr + hdr.filesz then none
        else
          some (some
            { ehFrameHdr := hdrBytes
              ehFrameHdrSvma := (hdr.vaddr, hdr.vaddr + hdr.filesz)
              ehFrame := rest
              ehFrameSvma := (vaddr, vaddr + rest.len) }) := by
  obtain ⟨_, backs, small⟩ := ElfFile.loadContaining_spec found
  have decoded := (decodeEhFramePtr_eq_some fits).mpr
    ⟨points, small.trans (by decide)⟩
  let rest : Slice := ⟨elf.bytesFrom load vaddr, by
    have := backs.length inFile
    have := backs.1
    have := backs.2
    have := elf.data.len_lt
    omega⟩
  have read : elf.restOfLoad load vaddr = some rest :=
    (ElfFile.restOfLoad_eq_some backs).mpr ⟨inFile, rfl⟩
  have length : vaddr + rest.len = load.vaddr + load.filesz :=
    backs.length inFile
  refine ⟨rest, rfl, ?_⟩
  rw [fillEhFrameFromPhdrs_of_header header, decoded]
  dsimp only
  rw [found]
  dsimp only
  rw [read]
  dsimp only
  rw [length]

/-- The recovery panics only at a sum of addresses that is not a word. -/
theorem fillEhFrameFromPhdrs_isSome
    (recoverable : Recoverable readHeaders file) :
    (fillEhFrameFromPhdrs readHeaders file).isSome := by
  rw [Option.isSome_iff_ne_none]
  intro panics
  rw [fillEhFrameFromPhdrs] at panics
  split at panics
  · cases panics
  next elf parsed =>
  split at panics
  · cases panics
  next hdr first =>
  split at panics
  · cases panics
  next hdrBytes bytes =>
  have header : HasHeader readHeaders file elf hdr hdrBytes :=
    ⟨parsed, first, bytes⟩
  have field := recoverable.field elf hdr hdrBytes header
  split at panics
  · next decoded =>
      have wide := decodeEhFramePtr_eq_none.mp decoded
      have := field wide.1
      omega
  · cases panics
  next vaddr decoded =>
  have fits : hdr.vaddr + 4 < 2 ^ 64 := by
    by_contra wide
    have usual : Versioned hdrBytes := by
      by_contra other
      rw [decodeEhFramePtr, if_pos] at decoded
      · cases decoded
      · rw [Versioned] at other
        omega
    exact wide (field usual)
  have points := ((decodeEhFramePtr_eq_some fits).mp decoded).1
  split at panics
  · cases panics
  next load found =>
  obtain ⟨_, backs, _⟩ := ElfFile.loadContaining_spec found
  split at panics
  · cases panics
  next rest read =>
  obtain ⟨inFile, data⟩ := (ElfFile.restOfLoad_eq_some backs).mp read
  have length := backs.length inFile
  rw [← data] at length
  have ends := recoverable.ends elf hdr hdrBytes header vaddr points load found
    inFile
  rw [if_neg] at panics
  · cases panics
  · rw [Slice.len, length]
    omega

end

/-- The recovery keeps its promise exactly where the sums of addresses are
words and a pointer at entries is in a form that is handled. -/
theorem recovers_iff_recoverable (readHeaders : Slice → Option Headers)
    (file : Slice) :
    Recovers readHeaders file ↔ Recoverable readHeaders file := by
  constructor
  · intro recovers
    have field : ∀ elf hdr hdrBytes,
        HasHeader readHeaders file elf hdr hdrBytes →
        Versioned hdrBytes → hdr.vaddr + 4 < 2 ^ 64 := by
      intro elf hdr hdrBytes header usual
      by_contra wide
      have panics : fillEhFrameFromPhdrs readHeaders file = none := by
        rw [fillEhFrameFromPhdrs_of_header header,
          decodeEhFramePtr_eq_none.mpr ⟨usual, Nat.not_lt.mp wide⟩]
      have safe := recovers.safe
      rw [panics] at safe
      cases safe
    refine ⟨field, ?_, ?_⟩
    · intro elf hdr hdrBytes header vaddr points load found inFile
      obtain ⟨rest, _, result⟩ := fillEhFrameFromPhdrs_of_pointer header
        (field elf hdr hdrBytes header points.sum.versioned) points found inFile
      have safe := recovers.safe
      rw [result] at safe
      split at safe
      · cases safe
      · next words => omega
    · intro elf hdr hdrBytes header load vaddr length entries
      obtain ⟨info, result, starts, _⟩ :=
        recovers.entries elf load vaddr length entries
      rw [fillEhFrameFromPhdrs_of_header header] at result
      split at result
      · cases result
      · cases result
      next start decoded =>
      split at result
      · cases result
      split at result
      · cases result
      split at result
      · cases result
      cases result
      dsimp only at starts
      subst starts
      obtain ⟨_, _, other, _, encoded, _⟩ := entries.points
      obtain ⟨rfl, rfl⟩ := header.unique other
      have fits := field elf _ _ header encoded.versioned
      exact ((decodeEhFramePtr_eq_some fits).mp decoded).1
  · intro recoverable
    refine ⟨fillEhFrameFromPhdrs_isSome recoverable, ?_⟩
    intro elf load vaddr length entries
    obtain ⟨hdr, hdrBytes, header, _⟩ := entries.points
    have points := recoverable.handled elf hdr hdrBytes header load vaddr length
      entries
    have laidOut := entries.laidOut
    have inFile := laidOut.inFile load entries.loads
    have inSpace := laidOut.inSpace load entries.loads
    have bounds := entriesLength_bounds entries.terminated
    have spans := entries.backs.length inFile
    have found := laidOut.loadContaining_eq entries.loads entries.backs
      (by omega)
    obtain ⟨rest, data, result⟩ := fillEhFrameFromPhdrs_of_pointer header
      (recoverable.field elf hdr hdrBytes header points.sum.versioned) points found
      inFile
    have ends := recoverable.ends elf hdr hdrBytes header vaddr points load
      found inFile
    rw [if_neg (by omega)] at result
    refine ⟨_, result, rfl, ?_, ?_⟩
    · dsimp only
      rw [Slice.len, data]
      exact bounds.2
    · dsimp only
      rw [data]

/-- An ELF file of two program headers, that the reader of headers here takes
as it lies. -/
def readTwo (file : Slice) : Option Headers :=
  some (elfOf file 2).toHeaders

/-- A little-endian ELF header before its program headers. -/
def elfHeader (phnum : Nat) : List UInt8 :=
  [0x7f, 0x45, 0x4c, 0x46, 2, 1, 1, 0] ++ leBytes 8 0 ++ leBytes 2 3 ++
    leBytes 2 62 ++ leBytes 4 1 ++ leBytes 8 0 ++ leBytes 8 64 ++
    leBytes 8 0 ++ leBytes 4 0 ++ leBytes 2 64 ++ leBytes 2 56 ++
    leBytes 2 phnum ++ leBytes 2 64 ++ leBytes 2 0 ++ leBytes 2 0

def programHeader (pType offset vaddr size : Nat) : List UInt8 :=
  leBytes 4 pType ++ leBytes 4 4 ++ leBytes 8 offset ++ leBytes 8 vaddr ++
    leBytes 8 vaddr ++ leBytes 8 size ++ leBytes 8 size ++ leBytes 8 4

/-- A PT_LOAD of the whole file at 0x1000, one entry of an `.eh_frame` with its
terminator at 176, and behind it a header that points back at it,
`pcrel|sdata4`. -/
def pcrelEhFrame : Slice where
  data := (elfHeader 2 ++ programHeader ptLoad 0 0x1000 196 ++
      programHeader ptGnuEhFrame 188 0x10bc 8 ++
      [4, 0, 0, 0, 0, 0, 0, 0, 0, 0, 0, 0]) ++
    [1, 0x1b, 0xff, 0xff, 0xf0, 0xff, 0xff, 0xff]
  short := by simp [elfHeader, programHeader, length_leBytes]

def pcrelHdr : Slice where
  data := [1, 0x1b, 0xff, 0xff, 0xf0, 0xff, 0xff, 0xff]
  short := by simp

def pcrelLoad : Segment := .ofBytes (phdrAt pcrelEhFrame 0)

def pcrelSegment : Segment := .ofBytes (phdrAt pcrelEhFrame 1)

theorem loads_pcrelEhFrame : (elfOf pcrelEhFrame 2).loads = [pcrelLoad] := rfl

theorem len_pcrelEhFrame : pcrelEhFrame.len = 196 := by
  simp [Slice.len, pcrelEhFrame, elfHeader, programHeader, length_leBytes]

theorem hasHeader_pcrelEhFrame : HasHeader readTwo pcrelEhFrame
    (elfOf pcrelEhFrame 2) pcrelSegment pcrelHdr where
  parsed := rfl
  first := rfl
  bytes := by
    have read : (elfOf pcrelEhFrame 2).read pcrelSegment.offset
        pcrelSegment.filesz = pcrelEhFrame.get 188 196 := rfl
    have behind : pcrelEhFrame.data.drop 188 = pcrelHdr.data :=
      List.drop_left' (by simp [elfHeader, programHeader, length_leBytes])
    rw [read, Slice.get, if_pos (by rw [len_pcrelEhFrame]; decide)]
    refine congrArg some (Slice.ext_data ?_)
    exact (congrArg (List.take 8) behind).trans rfl

theorem fieldSum_pcrelHdr : FieldSum .little pcrelHdr 0x10bc 0x10b0 where
  versioned := ⟨by decide, by decide⟩
  added := ⟨-16, 0x10c0, by decide, .pcrel, by decide⟩

theorem FieldSum.eq_of_pcrelHdr {sum : Int}
    (field : FieldSum .little pcrelHdr 0x10bc sum) : sum = 0x10b0 := by
  obtain ⟨value, base, means, relative, rfl⟩ := field.added
  have means : some (-16) = some value := means
  have relative : RelativeTo 0x10c0 0x10bc 0x10 base := relative
  cases means
  cases relative
  rfl

theorem hasEntries_pcrelEhFrame : HasEntries readTwo pcrelEhFrame
    (elfOf pcrelEhFrame 2) pcrelLoad 0x10b0 12 where
  points := by
    refine ⟨pcrelSegment, pcrelHdr, hasHeader_pcrelEhFrame, 0x10b0,
      fieldSum_pcrelHdr, ?_⟩
    rw [if_pos (by decide)]
    rfl
  laidOut := by
    constructor
    · rw [loads_pcrelEhFrame]
      rintro seg member
      obtain rfl := List.mem_singleton.mp member
      exact Nat.le_of_eq (by rw [show (elfOf pcrelEhFrame 2).data.len = 196
        from len_pcrelEhFrame]; decide)
    · rw [loads_pcrelEhFrame]
      rintro seg member
      obtain rfl := List.mem_singleton.mp member
      decide
    · rw [loads_pcrelEhFrame]
      rintro seg member other among _ _ _
      rw [List.mem_singleton.mp member, List.mem_singleton.mp among]
  loads := by
    rw [loads_pcrelEhFrame]
    exact List.mem_singleton_self _
  backs := ⟨by decide, by decide⟩
  terminated := by
    have bytes : (elfOf pcrelEhFrame 2).bytesFrom pcrelLoad 0x10b0 =
        [4, 0, 0, 0, 0, 0, 0, 0, 0, 0, 0, 0] ++ pcrelHdr.data := rfl
    have order : ByteOrder.ofFile pcrelEhFrame = .little := rfl
    rw [bytes, order]
    simp [entriesLength, entrySize, ByteOrder.number, leValue, pcrelHdr]

/-- The usual encoding, with the entries below the header. -/
theorem recovers_pcrelEhFrame : Recovers readTwo pcrelEhFrame ∧
    HasEntries readTwo pcrelEhFrame (elfOf pcrelEhFrame 2) pcrelLoad
      0x10b0 12 := by
  refine ⟨(recovers_iff_recoverable readTwo pcrelEhFrame).mpr ?_,
    hasEntries_pcrelEhFrame⟩
  have known : ∀ {elf hdr hdrBytes},
      HasHeader readTwo pcrelEhFrame elf hdr hdrBytes →
      elf = elfOf pcrelEhFrame 2 ∧ hdr = pcrelSegment ∧
        hdrBytes = pcrelHdr := by
    intro elf hdr hdrBytes header
    have same := hasHeader_pcrelEhFrame.parsed.symm.trans header.parsed
    cases same
    obtain ⟨rfl, rfl⟩ := hasHeader_pcrelEhFrame.unique header
    exact ⟨rfl, rfl, rfl⟩
  constructor
  · intro elf hdr hdrBytes header _
    obtain ⟨_, rfl, _⟩ := known header
    decide
  · intro elf hdr hdrBytes header vaddr direct load found _
    obtain ⟨rfl, rfl, rfl⟩ := known header
    have member := (ElfFile.loadContaining_spec found).1
    rw [loads_pcrelEhFrame] at member
    obtain rfl := List.mem_singleton.mp member
    decide
  · intro elf hdr hdrBytes header load vaddr length entries
    obtain ⟨rfl, rfl, rfl⟩ := known header
    obtain ⟨hdr, hdrBytes, other, sum, field, points⟩ := entries.points
    obtain ⟨_, rfl, rfl⟩ := known other
    obtain rfl := FieldSum.eq_of_pcrelHdr field
    rw [if_pos (by decide)] at points
    obtain rfl : vaddr = 0x10b0 := by exact_mod_cast points
    exact ⟨by decide, fieldSum_pcrelHdr⟩

/-- A PT_GNU_EH_FRAME at the top of the address space, `pcrel|sdata4`. -/
def topEhFrame : Slice where
  data := elfHeader 1 ++ programHeader ptGnuEhFrame 120 0xfffffffffffffffe 12 ++
    [1, 0x1b, 3, 0x3b, 0, 0, 0, 0, 0, 0, 0, 0]
  short := by simp [elfHeader, programHeader, length_leBytes]

/-- The address of its pointer field is not a word. -/
theorem not_recovers_topEhFrame :
    ¬ Recovers (fun file => some (elfOf file 1).toHeaders) topEhFrame := by
  intro recovers
  have panics : (fillEhFrameFromPhdrs
      (fun file => some (elfOf file 1).toHeaders) topEhFrame).isSome =
        false := by decide +kernel
  rw [recovers.safe] at panics
  cases panics

end Sismo.Elf
