import Sismo.Proto.Encoding
import Sismo.Proto.Fields

namespace Sismo.Proto

/-! Messages are read back level by level. -/

open Base128 Format

inductive Content
  | varint (value : UInt64)
  | bytes (bytes : Bytes)
  | message (fields : List (UInt32 × Content))

mutual

def Write.content : Write → UInt32 × Content
  | .uint64 field value => (field.val, .varint value)
  | .uint32 field value => (field.val, .varint value.toUInt64)
  | .int32 field value => (field.val, .varint value.toUInt32.toUInt64)
  | .int64 field value => (field.val, .varint value.toUInt64)
  | .string field bytes => (field.val, .bytes bytes)
  | .nested _ field body => (field.val, .message (contents body))

def contents : List Write → List (UInt32 × Content)
  | [] => []
  | write :: rest => write.content :: contents rest

end

mutual

/-- Iterating over the bytes yields the fields and consumes every byte. -/
inductive ReadsAs : Bytes → List (UInt32 × Content) → Prop
  | message {bytes : Bytes} {items : List (UInt32 × WireValue)}
      {fields : List (UInt32 × Content)} {last : ProtoReader}
      (sized : bytes.length ≤ isizeMax) :
      ProtoReader.collect (.new bytes sized) = .ok (items, last) →
      last.pos = bytes.length → ItemsAs items fields → ReadsAs bytes fields

inductive ItemsAs :
    List (UInt32 × WireValue) → List (UInt32 × Content) → Prop
  | nil : ItemsAs [] []
  | varint {field : UInt32} {value : UInt64}
      {items : List (UInt32 × WireValue)} {rest : List (UInt32 × Content)} :
      ItemsAs items rest →
      ItemsAs ((field, .varint value) :: items) ((field, .varint value) :: rest)
  | bytes {field : UInt32} {bytes : Bytes}
      {items : List (UInt32 × WireValue)} {rest : List (UInt32 × Content)} :
      ItemsAs items rest →
      ItemsAs ((field, .len bytes) :: items) ((field, .bytes bytes) :: rest)
  | message {field : UInt32} {bytes : Bytes}
      {fields : List (UInt32 × Content)}
      {items : List (UInt32 × WireValue)} {rest : List (UInt32 × Content)} :
      ReadsAs bytes fields → ItemsAs items rest →
      ItemsAs ((field, .len bytes) :: items) ((field, .message fields) :: rest)

end

/-! Iteration over any bytes. -/

namespace ProtoReader

theorem unread_full {r : ProtoReader} (nothing : r.unread = []) :
    r.pos = r.buf.length := by
  have size := r.unread_length
  have bounded := r.bounded
  rw [nothing] at size
  have size : 0 = r.buf.length - r.pos := size
  omega

theorem collect_ended {r later : ProtoReader}
    (read : next r = .ok (none, later)) : collect r = .ok ([], later) := by
  rw [collect]
  split
  · next read' => rw [read] at read'; cases read'
  · next read' => rw [read] at read'; cases read'; rfl
  · next read' => rw [read] at read'; cases read'

theorem collect_item {r later last : ProtoReader} {item : UInt32 × WireValue}
    {items : List (UInt32 × WireValue)}
    (read : next r = .ok (some item, later))
    (rest : collect later = .ok (items, last)) :
    collect r = .ok (item :: items, last) := by
  rw [collect]
  split
  · next read' => rw [read] at read'; cases read'
  · next read' => rw [read] at read'; cases read'
  · next read' => rw [read] at read'; cases read'; rw [rest]

/-- Iteration ends without a panic, at the first bytes that are no field. -/
theorem collect_reads (r : ProtoReader) :
    ∃ items last tail, collect r = .ok (items, last) ∧
      Many fieldFormat r.unread items tail ∧ Absent fieldFormat tail ∧
      last.buf = r.buf ∧ r.pos + items.length ≤ last.pos ∧
      (tail = [] → last.pos = r.buf.length) := by
  induction size : r.buf.length - r.pos using Nat.strongRecOn
    generalizing r with
  | ind size induction =>
      obtain ⟨answer, later, read, same, le, answers⟩ := satisfies_next r
      have bounded := later.bounded
      cases answers with
      | ended absent =>
          refine ⟨[], later, r.unread, collect_ended read, .nil, absent, same,
            le, fun nothing => ?_⟩
          have full := unread_full nothing
          rw [same] at bounded
          omega
      | read split field =>
          obtain ⟨-, forward⟩ := next_progress read
          obtain ⟨items, last, tail, rest, many, absent, same', le', whole⟩ :=
            induction (later.buf.length - later.pos)
              (by rw [same] at bounded ⊢; omega) later rfl
          refine ⟨_, last, tail, collect_item read rest, ?_, absent,
            same'.trans same, ?_, ?_⟩
          · rw [split]
            exact .cons field many
          · rw [List.length_cons]
            omega
          · rw [← same]
            exact whole

/-- Bytes that are one field after another are all read. -/
theorem collect_many {bytes : Bytes} {items : List (UInt32 × WireValue)}
    (sized : bytes.length ≤ isizeMax)
    (many : Many fieldFormat bytes items []) :
    ∃ last, collect (.new bytes sized) = .ok (items, last) ∧
      last.pos = bytes.length := by
  obtain ⟨items', last, tail, read, many', absent, -, -, whole⟩ :=
    collect_reads (.new bytes sized)
  obtain ⟨rfl, rfl⟩ := many.unique unambiguous_field absent_nil many' absent
  exact ⟨last, read, whole rfl⟩

end ProtoReader

/-! The written bytes are the fields, one after another. -/

def Write.item : Write → UInt32 × WireValue
  | .uint64 field value => (field.val, .varint value)
  | .uint32 field value => (field.val, .varint value.toUInt64)
  | .int32 field value => (field.val, .varint value.toUInt32.toUInt64)
  | .int64 field value => (field.val, .varint value.toUInt64)
  | .string field bytes => (field.val, .len bytes)
  | .nested _ field body => (field.val, .len (encodeAll body))

theorem minimal_varint {n : Nat} (fits : n < 2 ^ 64) :
    varintFormat (minimal n) (UInt64.ofNat n) :=
  ⟨minimal_length (show n < 128 ^ (9 + 1) by omega), n, minimal_numeral n,
    rfl⟩

theorem padded_varint {n : Nat} (fits : n < 2 ^ 35) :
    varintFormat (padded (reservedLen - 1) n) (UInt64.ofNat n) := by
  refine ⟨?_, n, padded_numeral (by unfold reservedLen; omega), rfl⟩
  rw [padded_length]
  decide

theorem tagBytes_field (field : FieldNumber) {wire : Nat} (low : wire < 8)
    {piece : Bytes} {value : WireValue}
    (payload : ∀ tag : UInt64, (tag &&& 0x07).toNat = wire →
      payloadFormat tag piece value) :
    fieldFormat (tagBytes field wire ++ piece) (field.val, value) := by
  obtain ⟨number, -, small⟩ := field
  have tag : (UInt64.ofNat (8 * number.toNat + wire)).toNat =
      8 * number.toNat + wire := by
    rw [UInt64.toNat_ofNat']
    exact Nat.mod_eq_of_lt (by omega)
  refine ⟨_, _, UInt64.ofNat (8 * number.toNat + wire), rfl,
    minimal_varint (by dsimp only; omega), value, payload _ ?_, ?_⟩
  · rw [UInt64.toNat_and, tag]
    exact (Nat.and_two_pow_sub_one_eq_mod _ 3).trans (by omega)
  · have number' : (UInt64.ofNat (8 * number.toNat + wire) >>> 3).toUInt32 =
        number := by
      apply UInt32.toNat_inj.mp
      rw [UInt64.toNat_toUInt32, UInt64.toNat_shiftRight, tag]
      change (8 * number.toNat + wire) >>> 3 % 2 ^ 32 = number.toNat
      rw [Nat.shiftRight_eq_div_pow]
      omega
    rw [number']

theorem field_varint (field : FieldNumber) (value : UInt64) :
    fieldFormat (tagBytes field 0 ++ minimal value.toNat)
      (field.val, .varint value) := by
  apply tagBytes_field field (by decide)
  intro tag wire
  have read := minimal_varint value.toNat_lt
  rw [UInt64.ofNat_toNat] at read
  unfold payloadFormat
  rw [wire]
  exact ⟨value, read, rfl⟩

theorem field_len (field : FieldNumber) {length bytes : Bytes}
    (sized : bytes.length ≤ isizeMax)
    (read : varintFormat length (UInt64.ofNat bytes.length)) :
    fieldFormat (tagBytes field 2 ++ (length ++ bytes))
      (field.val, .len bytes) := by
  apply tagBytes_field field (by decide)
  intro tag wire
  have whole : (UInt64.ofNat bytes.length).toNat = bytes.length := by
    unfold isizeMax at sized
    rw [UInt64.toNat_ofNat']
    exact Nat.mod_eq_of_lt (by omega)
  unfold payloadFormat
  rw [wire]
  exact ⟨bytes, ⟨length, bytes, _, rfl, read, whole.symm, rfl⟩, rfl⟩

theorem Write.encode_field (write : Write) (fits : write.PrefixFits)
    (sized : write.encode.length ≤ isizeMax) :
    fieldFormat write.encode write.item := by
  cases write with
  | uint64 field value => exact field_varint field value
  | uint32 field value => exact field_varint field value.toUInt64
  | int32 field value => exact field_varint field value.toUInt32.toUInt64
  | int64 field value => exact field_varint field value.toUInt64
  | string field bytes =>
      unfold Write.encode at sized ⊢
      simp only [List.length_append] at sized
      have small : bytes.length < 2 ^ 64 := by
        unfold isizeMax at sized
        omega
      exact field_len field (by omega) (minimal_varint small)
  | nested how field body =>
      have small : (encodeAll body).length ≤ isizeMax := by
        unfold Write.encode at sized
        simp only [List.length_append] at sized
        omega
      refine field_len field small ?_
      cases how with
      | beginEnd => exact padded_varint fits.1
      | message => exact padded_varint fits.1
      | writeMessage =>
          exact minimal_varint (by unfold isizeMax at small; omega)

theorem encodeAll_many (tree : List Write) (fits : PrefixFitsAll tree)
    (sized : (encodeAll tree).length ≤ isizeMax) :
    Many fieldFormat (encodeAll tree) (tree.map Write.item) [] := by
  induction tree with
  | nil => exact .nil
  | cons write rest induction =>
      unfold encodeAll at sized ⊢
      rw [List.length_append] at sized
      exact .cons (write.encode_field fits.1 (by omega))
        (induction fits.2 (by omega))

mutual

theorem Write.item_reads : (write : Write) → write.Fits →
    write.encode.length ≤ isizeMax →
    ∀ {items rest}, ItemsAs items rest →
      ItemsAs (write.item :: items) (write.content :: rest)
  | .uint64 _ _, _, _, _, _, later => .varint later
  | .uint32 _ _, _, _, _, _, later => .varint later
  | .int32 _ _, _, _, _, _, later => .varint later
  | .int64 _ _, _, _, _, _, later => .varint later
  | .string _ _, _, _, _, _, later => .bytes later
  | .nested _ _ body, fits, _, _, _, later =>
      .message (encodeAll_reads body fits.2
        (Nat.le_of_lt (Nat.lt_of_lt_of_le fits.1 (by decide)))) later

theorem encodeAll_items : (tree : List Write) → FitsAll tree →
    (encodeAll tree).length ≤ isizeMax →
    ItemsAs (tree.map Write.item) (contents tree)
  | [], _, _ => .nil
  | write :: rest, fits, sized => by
      unfold encodeAll at sized
      rw [List.length_append] at sized
      exact write.item_reads fits.1 (by omega)
        (encodeAll_items rest fits.2 (by omega))

theorem encodeAll_reads : (tree : List Write) → FitsAll tree →
    (encodeAll tree).length ≤ isizeMax →
    ReadsAs (encodeAll tree) (contents tree)
  | tree, fits, sized => by
      obtain ⟨last, read, whole⟩ :=
        ProtoReader.collect_many sized
          (encodeAll_many tree (FitsAll.prefixFits tree fits) sized)
      exact .message sized read whole (encodeAll_items tree fits sized)

end

/-- The reader inverts the writer on every tree of writes that fits a vector,
and on any bytes it ends without a panic, at the first bytes that are no
field, having taken at least one byte for each field. -/
theorem reader_inverts_writer :
    (∀ tree, FitsAll tree →
      (∃ w, applyAll tree .new = .ok w ∧ ReadsAs w.bytes (contents tree)) ∨
        isizeMax < (encodeAll tree).length ∧
          applyAll tree .new = .error .capacity) ∧
    (∀ (buf : Bytes) (sized : buf.length ≤ isizeMax), ∃ items last tail,
      ProtoReader.collect (.new buf sized) = .ok (items, last) ∧
        Many fieldFormat buf items tail ∧ Absent fieldFormat tail ∧
        items.length ≤ last.pos ∧ last.pos ≤ buf.length) ∧
    ∀ r, ∃ answer later, ProtoReader.next r = .ok (answer, later) ∧
      r.pos ≤ later.pos ∧ (answer.isSome → r.pos < later.pos) := by
  refine ⟨fun tree fits => ?_, fun buf sized => ?_, fun r => ?_⟩
  · obtain ⟨w, whole, written⟩ | ⟨long, full⟩ :=
      ProtoWriter.extend_cases .new (encodeAll tree)
    · have whole : w.bytes = encodeAll tree := whole
      refine .inl ⟨w, (applyAll_eq tree (FitsAll.prefixFits tree fits)
        .new).trans written, ?_⟩
      have sized := w.sized
      rw [whole] at sized ⊢
      exact encodeAll_reads tree fits sized
    · have long : isizeMax < 0 + (encodeAll tree).length := long
      rw [Nat.zero_add] at long
      exact .inr ⟨long, (applyAll_eq tree (FitsAll.prefixFits tree fits)
        .new).trans full⟩
  · obtain ⟨items, last, tail, read, many, absent, same, le, -⟩ :=
      ProtoReader.collect_reads (.new buf sized)
    have bounded := last.bounded
    rw [same] at bounded
    have le : 0 + items.length ≤ last.pos := le
    rw [Nat.zero_add] at le
    exact ⟨items, last, tail, read, many, absent, le, bounded⟩
  · obtain ⟨answer, later, read, -, le, -⟩ := ProtoReader.satisfies_next r
    refine ⟨answer, later, read, le, fun some => ?_⟩
    obtain ⟨item, rfl⟩ := Option.isSome_iff_exists.mp some
    exact (ProtoReader.next_progress read).2

def fieldOne : FieldNumber := ⟨1, by decide, by decide⟩

def nestedTree : List Write :=
  [.nested .message fieldOne [.uint64 fieldOne 150], .string fieldOne [104, 105]]

theorem encodeAll_nestedTree : encodeAll nestedTree =
    [10, 131, 128, 128, 128, 0, 8, 150, 1, 10, 2, 104, 105] := by
  simp [nestedTree, fieldOne, encodeAll, Write.encode, tagBytes, lengthBytes,
    minimal, padded, reservedLen]

/-- The tree is read back. -/
theorem reader_inverts_nestedTree :
    ∃ w, applyAll nestedTree .new = .ok w ∧
      ReadsAs w.bytes (contents nestedTree) := by
  have short : (encodeAll [.uint64 fieldOne 150]).length < 2 ^ 35 := by
    simp [fieldOne, encodeAll, Write.encode, tagBytes, minimal]
  have fits : FitsAll nestedTree := ⟨⟨short, trivial, trivial⟩, trivial, trivial⟩
  apply (reader_inverts_writer.1 nestedTree fits).resolve_right
  rw [encodeAll_nestedTree]
  intro full
  exact absurd full.1 (by decide)

end Sismo.Proto
