import Mathlib.Algebra.BigOperators.Group.List.Basic
import Mathlib.Algebra.Order.Ring.Nat
import Sismo.Lib.Buffer
import Sismo.Lib.Fallible

namespace Sismo.Tar

/-! The header block of one archive member, written and read. -/

abbrev Bytes := List UInt8

def block : Nat := 512

def maxOctal : Nat := 0o77777777777

inductive Error where
  | invalidInput (message : String)
  | other (message : String)
  | io

def bytesOf (text : String) : Bytes :=
  text.toUTF8.data.toList

def zeros (count : Nat) : Bytes :=
  List.replicate count 0

def octal (value : Nat) : Bytes :=
  (Nat.toDigits 8 value).map fun digit => UInt8.ofNat digit.toNat

/-- One numeric field: `width - 1` zero-padded digits and a NUL. It panics where
the digits are more. -/
def octalField (width value : Nat) : Fallible Error Bytes :=
  let s := (octal value).leftpad (width - 1) 48
  if s.length = width - 1 then .ok (s ++ [0]) else .panics

def byteSum (header : Bytes) : Nat :=
  (header.map UInt8.toNat).sum

def spaces : Bytes := List.replicate 8 32

/-- The header without its checksum: spaces stand in that field. -/
def unsummed (name sizeField mtimeField mode zero : Bytes) : Bytes :=
  let h := zeros block
  let h := patch h 0 name
  let h := patch h 100 mode
  let h := patch h 108 zero
  let h := patch h 116 zero
  let h := patch h 124 sizeField
  let h := patch h 136 mtimeField
  let h := patch h 156 [48]
  let h := patch h 257 [117, 115, 116, 97, 114, 0]
  let h := patch h 263 [48, 48]
  let h := patch h 329 zero
  let h := patch h 337 zero
  patch h 148 spaces

/-- The header with its checksum: 6 octal digits, a NUL and a space. -/
def checksummed (h : Bytes) : Fallible Error Bytes :=
  let s := (octal (byteSum h)).leftpad 6 48
  if s.length = 6 then
    let h := patch h 148 s
    let h := patch h 154 [0]
    .ok (patch h 155 [32])
  else .panics

def headerFor (name : String) (size mtime : Nat) : Fallible Error Bytes :=
  let nameBytes := bytesOf name
  if 100 < nameBytes.length then
    .err (.invalidInput ("tar member name too long: " ++ name))
  else if maxOctal < size then
    .err (.invalidInput ("tar member too large: " ++ name ++ " (" ++
      toString size ++ " bytes)"))
  else do
    let mode ← octalField 8 0o644
    let zero ← octalField 8 0
    let sizeField ← octalField 12 size
    let mtimeField ← octalField 12 mtime
    checksummed (unsummed nameBytes sizeField mtimeField mode zero)

/-! A strict reader of the format. -/

/-- The octal digits up to a NUL; nothing else may stand before it. -/
def readOctal : Nat → Bytes → Option Nat
  | _, [] => none
  | value, byte :: rest =>
      if byte = 0 then some value
      else if 48 ≤ byte ∧ byte ≤ 55 then
        readOctal (value * 8 + (byte.toNat - 48)) rest
      else none

structure Header where
  name : Bytes
  size : Nat
  mtime : Nat

/-- The header in a block, if its checksum, its magic and all its fields are
valid. -/
def readHeader (h : Bytes) : Option Header := do
  let sum ← readOctal 0 (slice h 148 8)
  let _mode ← readOctal 0 (slice h 100 8)
  let _uid ← readOctal 0 (slice h 108 8)
  let _gid ← readOctal 0 (slice h 116 8)
  let size ← readOctal 0 (slice h 124 12)
  let mtime ← readOctal 0 (slice h 136 12)
  let _devmajor ← readOctal 0 (slice h 329 8)
  let _devminor ← readOctal 0 (slice h 337 8)
  let name := (slice h 0 100).takeWhile (· ≠ 0)
  if h.length = block ∧ sum = byteSum (patch h 148 spaces) ∧
      slice h 156 1 = [48] ∧ slice h 257 6 = [117, 115, 116, 97, 114, 0] ∧
      slice h 263 2 = [48, 48] ∧ name ≠ [] then
    some ⟨name, size, mtime⟩
  else none

theorem octal_of_lt {value : Nat} (small : value < 8) :
    octal value = [UInt8.ofNat (48 + value)] := by
  rw [octal, Nat.toDigits_of_lt_base small]
  revert value
  decide

theorem octal_of_le {value : Nat} (large : 8 ≤ value) :
    octal value = octal (value / 8) ++ octal (value % 8) := by
  have low : value % 8 < 8 := Nat.mod_lt _ (by decide)
  rw [octal, Nat.toDigits_of_base_le (by decide) large, List.map_append,
    octal, octal, Nat.toDigits_of_lt_base low]

theorem readOctal_digit {digit value : Nat} (small : digit < 8)
    (rest : Bytes) : readOctal value (octal digit ++ rest) =
      readOctal (value * 8 + digit) rest := by
  have code : UInt8.ofNat (48 + digit) ≠ 0 ∧
      48 ≤ UInt8.ofNat (48 + digit) ∧ UInt8.ofNat (48 + digit) ≤ 55 ∧
      (UInt8.ofNat (48 + digit)).toNat - 48 = digit := by
    revert digit
    decide
  rw [octal_of_lt small, List.singleton_append, readOctal, if_neg code.1,
    if_pos ⟨code.2.1, code.2.2.1⟩, code.2.2.2]

theorem readOctal_octal (value : Nat) (rest : Bytes) :
    readOctal 0 (octal value ++ rest) = readOctal value rest := by
  induction value using Nat.strong_induction_on generalizing rest with
  | _ value induction =>
      obtain small | large := Nat.lt_or_ge value 8
      · rw [readOctal_digit small, Nat.zero_mul, Nat.zero_add]
      · rw [octal_of_le large, List.append_assoc, induction (value / 8)
          (by omega), readOctal_digit (Nat.mod_lt _ (by decide))]
        congr 1
        omega

theorem readOctal_replicate (count : Nat) (rest : Bytes) :
    readOctal 0 (List.replicate count 48 ++ rest) = readOctal 0 rest := by
  induction count with
  | zero => rfl
  | succ count induction =>
      rw [List.replicate_succ, List.cons_append, readOctal]
      exact induction

theorem readOctal_leftpad (width value : Nat) (rest : Bytes) :
    readOctal 0 ((octal value).leftpad width 48 ++ 0 :: rest) = some value := by
  rw [List.leftpad, List.append_assoc, readOctal_replicate, readOctal_octal,
    readOctal]
  rfl

theorem length_leftpad_octal {width value : Nat} (pos : 0 < width) :
    ((octal value).leftpad width 48).length = width ↔ value < 8 ^ width := by
  rw [List.length_leftpad, octal, List.length_map,
    ← Nat.length_toDigits_le_iff (by decide) pos]
  omega

theorem octalField_of_lt {width value : Nat} (pos : 0 < width)
    (fits : value < 8 ^ width) : octalField (width + 1) value =
      .ok ((octal value).leftpad width 48 ++ [0]) :=
  if_pos ((length_leftpad_octal pos).mpr fits)

theorem octalField_of_le {width value : Nat} (pos : 0 < width)
    (overflows : 8 ^ width ≤ value) :
    octalField (width + 1) value = .panics := by
  refine if_neg fun fits => ?_
  have := (length_leftpad_octal pos).mp fits
  omega

def summed (h s : Bytes) : Bytes :=
  patch (patch (patch h 148 s) 154 [0]) 155 [32]

structure Fields (h name sizeField mtimeField mode zero s : Bytes) : Prop where
  name_eq : slice h 0 name.length = name
  padding : slice h name.length (100 - name.length) =
    zeros (100 - name.length)
  mode_eq : slice h 100 8 = mode
  uid : slice h 108 8 = zero
  gid : slice h 116 8 = zero
  size : slice h 124 12 = sizeField
  mtime : slice h 136 12 = mtimeField
  sum : slice h 148 6 = s
  sumEnd : slice h 154 1 = [0]
  typeflag : slice h 156 1 = [48]
  magic : slice h 257 6 = [117, 115, 116, 97, 114, 0]
  version : slice h 263 2 = [48, 48]
  devmajor : slice h 329 8 = zero
  devminor : slice h 337 8 = zero

section

variable {name sizeField mtimeField mode zero s : Bytes}

theorem length_unsummed :
    (unsummed name sizeField mtimeField mode zero).length = 512 := by
  simp only [unsummed, length_patch, zeros, block, List.length_replicate]

/-- Every field stands where it was written: what is written later is apart. -/
theorem fields_summed (name_le : name.length ≤ 100)
    (size : sizeField.length = 12) (mtime : mtimeField.length = 12)
    (mode_eq : mode.length = 8) (zero_eq : zero.length = 8)
    (sum : s.length = 6) :
    Fields (summed (unsummed name sizeField mtimeField mode zero) s)
      name sizeField mtimeField mode zero s := by
  have slot : ∀ {h written : Bytes} {start width : Nat},
      written.length = width → h.length = 512 → start + width ≤ 512 →
        slice (patch h start written) start width = written := by
    rintro h written start width rfl whole inside
    exact slice_patch_self (whole ▸ inside)
  have blank : ∀ start size, start + size ≤ 512 →
      slice (zeros block) start size = zeros size := by
    intro start size inside
    rw [slice, zeros, List.drop_replicate, List.take_replicate, block, zeros]
    congr 1
    omega
  constructor <;>
    simp (disch := (try simp only [length_patch, zeros, block, spaces,
      List.length_replicate, List.length_cons, List.length_nil, *]) <;> omega)
      only [summed, unsummed, slice_patch_of_apart, slot, blank]

/-- Spaces in the place of the checksum give the header that was summed. -/
theorem patch_summed (sum : s.length = 6) :
    patch (summed (unsummed name sizeField mtimeField mode zero) s) 148 spaces =
      unsummed name sizeField mtimeField mode zero := by
  have wide : spaces.length = 8 := List.length_replicate
  rw [summed, patch_patch_of_covered (by omega) (by rw [wide]; decide),
    patch_patch_of_covered (by omega) (by rw [wide]; decide),
    patch_patch_of_covered (by omega) (by omega), unsummed,
    patch_patch_of_covered (by omega) (by omega)]

theorem byteSum_lt (h : Bytes) (whole : h.length = 512) :
    byteSum h < 8 ^ 6 := by
  have bound : ∀ l : Bytes, byteSum l ≤ l.length * 255 := by
    intro l
    induction l with
    | nil => exact Nat.le_refl 0
    | cons byte rest induction =>
        have low := byte.toNat_lt
        change byte.toNat + byteSum rest ≤ (rest.length + 1) * 255
        omega
  have := bound h
  omega

end

/-- A reader finds in the header what was written. -/
theorem Fields.readHeader_eq {h name sizeField mtimeField mode zero s : Bytes}
    (fields : Fields h name sizeField mtimeField mode zero s)
    (whole : h.length = block) (short : name.length ≤ 100) (named : name ≠ [])
    (unterminated : 0 ∉ name) {size mtime modeValue : Nat}
    (modeRead : readOctal 0 mode = some modeValue)
    (zeroRead : readOctal 0 zero = some 0)
    (sizeRead : readOctal 0 sizeField = some size)
    (mtimeRead : readOctal 0 mtimeField = some mtime)
    (sumRead : readOctal 0 (s ++ 0 :: slice h 155 1) =
      some (byteSum (patch h 148 spaces))) :
    readHeader h = some ⟨name, size, mtime⟩ := by
  have sumField : slice h 148 8 = s ++ 0 :: slice h 155 1 := by
    rw [slice_add h 148 7 1, slice_add h 148 6 1, fields.sum, fields.sumEnd,
      List.append_assoc, List.singleton_append]
  have nameField : (slice h 0 100).takeWhile (· ≠ 0) = name := by
    have split : slice h 0 100 = name ++ zeros (100 - name.length) := by
      have parts := slice_add h 0 name.length (100 - name.length)
      rw [Nat.add_sub_cancel' short, Nat.zero_add, fields.name_eq,
        fields.padding] at parts
      exact parts
    rw [split, List.takeWhile_append_of_pos]
    · cases 100 - name.length with
      | zero => exact List.append_nil name
      | succ count => exact List.append_nil name
    · intro byte member
      exact decide_eq_true fun zero => unterminated (zero ▸ member)
  rw [readHeader, sumField, sumRead, fields.mode_eq, modeRead, fields.uid,
    fields.gid, fields.devmajor, fields.devminor, zeroRead, fields.size,
    sizeRead, fields.mtime, mtimeRead, nameField]
  exact if_pos ⟨whole, rfl, fields.typeflag, fields.magic, fields.version,
    named⟩

structure Named (name : String) : Prop where
  nonempty : bytesOf name ≠ []
  short : (bytesOf name).length ≤ 100
  unterminated : 0 ∉ bytesOf name

/-- The header of a member whose size and time have 11 digits. -/
theorem headerFor_of_le {name : String} (named : Named name) {size mtime : Nat}
    (sized : size ≤ maxOctal) (timed : mtime ≤ maxOctal) :
    ∃ h, headerFor name size mtime = .ok h ∧ h.length = block ∧
      readHeader h = some ⟨bytesOf name, size, mtime⟩ := by
  have limit : maxOctal = 8 ^ 11 - 1 := rfl
  have padded : ∀ width value, value < 8 ^ width → 0 < width →
      ((octal value).leftpad width 48).length = width := by
    intro width value fits pos
    exact (length_leftpad_octal pos).mpr fits
  have field : ∀ width value, value < 8 ^ width → 0 < width →
      ((octal value).leftpad width 48 ++ [0]).length = width + 1 := by
    intro width value fits pos
    rw [List.length_append, padded width value fits pos]
    rfl
  generalize header : unsummed (bytesOf name)
    ((octal size).leftpad 11 48 ++ [0]) ((octal mtime).leftpad 11 48 ++ [0])
    ((octal 0o644).leftpad 7 48 ++ [0]) ((octal 0).leftpad 7 48 ++ [0]) = h
  have whole : h.length = 512 := by
    rw [← header]
    exact length_unsummed
  have digits := padded 6 (byteSum h) (byteSum_lt h whole) (by decide)
  have written : headerFor name size mtime =
      .ok (summed h ((octal (byteSum h)).leftpad 6 48)) := by
    rw [headerFor, if_neg (Nat.not_lt.mpr named.short),
      if_neg (Nat.not_lt.mpr sized),
      @octalField_of_lt 7 0o644 (by decide) (by decide),
      @octalField_of_lt 7 0 (by decide) (by decide),
      @octalField_of_lt 11 size (by decide) (by omega),
      @octalField_of_lt 11 mtime (by decide) (by omega)]
    simp only [Fallible.ok_bind]
    rw [header]
    exact if_pos digits
  refine ⟨_, written, ?_, ?_⟩
  · simp only [summed, length_patch]
    exact whole
  · have fields := fields_summed named.short
      (field 11 size (by omega) (by decide))
      (field 11 mtime (by omega) (by decide))
      (field 7 0o644 (by decide) (by decide))
      (field 7 0 (by decide) (by decide)) digits
    rw [header] at fields
    have restored : patch (summed h ((octal (byteSum h)).leftpad 6 48)) 148
        spaces = h := by
      subst header
      exact patch_summed digits
    refine fields.readHeader_eq ?_ named.short named.nonempty
      named.unterminated (readOctal_leftpad 7 0o644 [])
      (readOctal_leftpad 7 0 []) (readOctal_leftpad 11 size [])
      (readOctal_leftpad 11 mtime []) ?_
    · simp only [summed, length_patch]
      exact whole
    · rw [restored]
      exact readOctal_leftpad 6 (byteSum h) _

/-- A time of more digits panics. -/
theorem headerFor_of_late {name : String} (named : Named name)
    {size mtime : Nat} (sized : size ≤ maxOctal) (late : maxOctal < mtime) :
    headerFor name size mtime = .panics := by
  have limit : maxOctal = 8 ^ 11 - 1 := rfl
  rw [headerFor, if_neg (Nat.not_lt.mpr named.short),
    if_neg (Nat.not_lt.mpr sized),
    @octalField_of_lt 7 0o644 (by decide) (by decide),
    @octalField_of_lt 7 0 (by decide) (by decide),
    @octalField_of_lt 11 size (by decide) (by omega),
    @octalField_of_le 11 mtime (by decide) (by omega)]
  rfl

theorem headerFor_of_large {name : String} (named : Named name)
    {size mtime : Nat} (large : maxOctal < size) :
    ∃ error, headerFor name size mtime = .err error := by
  rw [headerFor, if_neg (Nat.not_lt.mpr named.short), if_pos large]
  exact ⟨_, rfl⟩

end Sismo.Tar
