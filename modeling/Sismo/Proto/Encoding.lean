import Sismo.Lib.Base128
import Sismo.Proto.Writer

namespace Sismo.Proto

/-! The bytes of each write, without a buffer. -/

open Base128

def tagBytes (field : FieldNumber) (wire : Nat) : Bytes :=
  minimal (8 * field.val.toNat + wire)

def lengthBytes : Nesting → Nat → Bytes
  | .writeMessage, n => minimal n
  | .beginEnd, n | .message, n => padded (reservedLen - 1) n

mutual

def Write.encode : Write → Bytes
  | .uint64 field value => tagBytes field 0 ++ minimal value.toNat
  | .uint32 field value => tagBytes field 0 ++ minimal value.toNat
  | .int32 field value => tagBytes field 0 ++ minimal value.toUInt32.toNat
  | .int64 field value => tagBytes field 0 ++ minimal value.toUInt64.toNat
  | .string field bytes =>
      tagBytes field 2 ++ (minimal bytes.length ++ bytes)
  | .nested how field body =>
      tagBytes field 2 ++
        (lengthBytes how (encodeAll body).length ++ encodeAll body)

def encodeAll : List Write → Bytes
  | [] => []
  | write :: rest => write.encode ++ encodeAll rest

end

mutual

/-- Every sub-message body is shorter than 32 GiB. -/
def Write.Fits : Write → Prop
  | .nested _ _ body => (encodeAll body).length < 2 ^ 35 ∧ FitsAll body
  | _ => True

def FitsAll : List Write → Prop
  | [] => True
  | write :: rest => write.Fits ∧ FitsAll rest

end

mutual

/-- Every sub-message with a padded length is shorter than 32 GiB. -/
def Write.PrefixFits : Write → Prop
  | .nested .writeMessage _ body => PrefixFitsAll body
  | .nested _ _ body => (encodeAll body).length < 2 ^ 35 ∧ PrefixFitsAll body
  | _ => True

def PrefixFitsAll : List Write → Prop
  | [] => True
  | write :: rest => write.PrefixFits ∧ PrefixFitsAll rest

end

mutual

theorem Write.Fits.prefixFits : (write : Write) → write.Fits →
    write.PrefixFits
  | .uint64 _ _, _ => trivial
  | .uint32 _ _, _ => trivial
  | .int32 _ _, _ => trivial
  | .int64 _ _, _ => trivial
  | .string _ _, _ => trivial
  | .nested .beginEnd _ body, fits => ⟨fits.1, FitsAll.prefixFits body fits.2⟩
  | .nested .message _ body, fits => ⟨fits.1, FitsAll.prefixFits body fits.2⟩
  | .nested .writeMessage _ body, fits => FitsAll.prefixFits body fits.2

theorem FitsAll.prefixFits : (tree : List Write) → FitsAll tree →
    PrefixFitsAll tree
  | [], _ => trivial
  | write :: rest, fits =>
      ⟨Write.Fits.prefixFits write fits.1, FitsAll.prefixFits rest fits.2⟩

end

/-! Machine words as digits. -/

theorem toUInt8_low (v : UInt64) :
    (v &&& 0x7f).toUInt8 = UInt8.ofNat (v.toNat % 128) := by
  apply UInt8.toNat_inj.mp
  rw [UInt64.toNat_toUInt8, UInt64.toNat_and, toNat_group (by omega)]
  have low : v.toNat &&& 127 = v.toNat % 128 :=
    Nat.and_two_pow_sub_one_eq_mod v.toNat 7
  rw [show (0x7f : UInt64).toNat = 127 from rfl, low]
  omega

theorem low_or_high {n : Nat} (small : n < 128) :
    UInt8.ofNat n ||| 0x80 = UInt8.ofNat (n + 128) := by
  apply UInt8.toNat_inj.mp
  rw [UInt8.toNat_or, toNat_group (by omega), toNat_group (by omega)]
  have disjoint := Nat.two_pow_add_eq_or_of_lt (show n < 2 ^ 7 by omega) 1
  rw [Nat.or_comm, show (0x80 : UInt8).toNat = 2 ^ 7 * 1 from rfl, ← disjoint]
  omega

theorem toUInt8_high (v : UInt64) :
    ((v &&& 0x7f) ||| 0x80).toUInt8 = UInt8.ofNat (v.toNat % 128 + 128) := by
  rw [UInt64.toUInt8_or, toUInt8_low]
  exact low_or_high (Nat.mod_lt _ (by decide))

theorem toNat_tag {field : UInt32} {wire : UInt8}
    (small : field.toNat < 2 ^ 29) (low : wire.toNat < 8) :
    ((field.toUInt64 <<< 3) ||| wire.toUInt64).toNat =
      8 * field.toNat + wire.toNat := by
  have disjoint := Nat.two_pow_add_eq_or_of_lt (i := 3) low field.toNat
  rw [UInt64.toNat_or, UInt64.toNat_shiftLeft, UInt32.toNat_toUInt64,
    UInt8.toNat_toUInt64, show (3 : UInt64).toNat % 64 = 3 from rfl,
    Nat.shiftLeft_eq, Nat.mod_eq_of_lt (by omega), Nat.mul_comm, ← disjoint]

/-! The writer appends those bytes, if they still fit the buffer. -/

namespace ProtoWriter

variable (w : ProtoWriter)

theorem ok_bind {α β : Type} (a : α) (f : α → Except Panic β) :
    (Except.ok a >>= f) = f a := rfl

theorem extend_nil : w.extend [] = .ok w := by
  unfold extend
  have fits : (w.bytes ++ []).length ≤ isizeMax := by
    rw [List.append_nil]
    exact w.sized
  rw [dif_pos fits]
  congr
  exact List.append_nil _

theorem extend_cases (bytes : Bytes) :
    (∃ next : ProtoWriter, next.bytes = w.bytes ++ bytes ∧
      w.extend bytes = .ok next) ∨
      isizeMax < w.bytes.length + bytes.length ∧
        w.extend bytes = .error .capacity := by
  unfold extend
  rw [← List.length_append]
  split
  · exact .inl ⟨_, rfl, rfl⟩
  · next full => exact .inr ⟨Nat.not_le.mp full, rfl⟩

theorem extend_eq_error {bytes : Bytes}
    (long : isizeMax < w.bytes.length + bytes.length) :
    w.extend bytes = .error .capacity := by
  unfold extend
  rw [← List.length_append] at long
  exact dif_neg (Nat.not_le.mpr long)

theorem extend_eq_ok {bytes : Bytes} {next : ProtoWriter}
    (appended : next.bytes = w.bytes ++ bytes) :
    w.extend bytes = .ok next := by
  obtain ⟨bytes', sized⟩ := next
  cases appended
  exact dif_pos sized

theorem extend_extend (front back : Bytes) :
    (do let w ← w.extend front; w.extend back) = w.extend (front ++ back) := by
  obtain ⟨middle, same, appended⟩ | ⟨long, full⟩ := extend_cases w front
  · rw [appended, ok_bind]
    obtain ⟨next, same', appended'⟩ | ⟨long, full⟩ := extend_cases middle back
    · rw [appended']
      rw [same, List.append_assoc] at same'
      exact (extend_eq_ok w same').symm
    · rw [full]
      rw [same, List.length_append] at long
      refine (extend_eq_error w ?_).symm
      rw [List.length_append]
      omega
  · rw [full]
    refine (extend_eq_error w ?_).symm
    rw [List.length_append]
    omega

theorem writeVarint_eq (v : UInt64) :
    w.writeVarint v = w.extend (minimal v.toNat) := by
  induction w, v using writeVarint.induct with
  | case1 w v large induction =>
      have large' : 128 ≤ v.toNat := large
      rw [writeVarint, if_pos large, minimal_of_le large', ← toUInt8_high,
        ← toNat_nextGroups]
      refine Eq.trans ?_ (extend_extend w [_] _)
      apply bind_congr
      intro pushed
      exact induction pushed
  | case2 w v small =>
      have small' : v.toNat < 128 := Nat.not_le.mp small
      rw [writeVarint, if_neg small, minimal_of_lt small', toUInt8_low,
        Nat.mod_eq_of_lt small']
      rfl

theorem writeTag_eq (field : FieldNumber) {wire : UInt8}
    (low : wire.toNat < 8) :
    w.writeTag field.val wire = w.extend (tagBytes field wire.toNat) := by
  unfold writeTag tagBytes
  rw [writeVarint_eq, toNat_tag field.property.2 low]

theorem writeUint64_eq (field : FieldNumber) (value : UInt64) :
    w.writeUint64 field.val value =
      w.extend (tagBytes field 0 ++ minimal value.toNat) := by
  unfold writeUint64
  rw [writeTag_eq w field (by decide), ← extend_extend]
  apply bind_congr
  intro tagged
  exact writeVarint_eq tagged value

theorem writeUint32_eq (field : FieldNumber) (value : UInt32) :
    w.writeUint32 field.val value =
      w.extend (tagBytes field 0 ++ minimal value.toNat) := by
  unfold writeUint32
  rw [writeTag_eq w field (by decide), ← extend_extend]
  apply bind_congr
  intro tagged
  rw [writeVarint_eq, UInt32.toNat_toUInt64]

/-- A length that fits a buffer is not cut to 64 bits; a longer payload does
not fit anyway. -/
theorem extend_length (bytes : Bytes) :
    (do
      let w ← w.writeVarint (UInt64.ofNat bytes.length)
      w.extend bytes) =
      w.extend (minimal bytes.length ++ bytes) := by
  by_cases fits : bytes.length ≤ isizeMax
  · have whole : (UInt64.ofNat bytes.length).toNat = bytes.length := by
      unfold isizeMax at fits
      rw [UInt64.toNat_ofNat']
      exact Nat.mod_eq_of_lt (by omega)
    rw [writeVarint_eq, whole, extend_extend]
  · rw [writeVarint_eq, extend_extend]
    refine (extend_eq_error w ?_).trans (extend_eq_error w ?_).symm
    · rw [List.length_append]
      omega
    · rw [List.length_append]
      omega

theorem writeString_eq (field : FieldNumber) (bytes : Bytes) :
    w.writeString field.val bytes =
      w.extend (tagBytes field 2 ++ (minimal bytes.length ++ bytes)) := by
  unfold writeString
  rw [writeTag_eq w field (by decide), ← extend_extend]
  apply bind_congr
  intro tagged
  exact extend_length tagged bytes

/-! The length of a sub-message written in place. -/

theorem store_slot {w : ProtoWriter} {front slot back : Bytes} {i : Nat}
    (whole : w.bytes = front ++ slot ++ back) (byte : UInt8)
    (inside : i < slot.length) :
    ∃ next, w.store (front.length + i) byte = .ok next ∧
      next.bytes = front ++ slot.set i byte ++ back := by
  unfold store
  have bound : front.length + i < w.bytes.length := by
    rw [whole]
    simp only [List.length_append]
    omega
  rw [if_pos bound]
  refine ⟨_, rfl, ?_⟩
  change w.bytes.set (front.length + i) byte = _
  rw [whole, List.append_assoc, List.set_append_right _ _ (by omega),
    Nat.add_sub_cancel_left, List.set_append_left _ _ inside,
    ← List.append_assoc]

theorem toUInt8_group (n : Nat) {i : Nat} (fits : n < 2 ^ 64) (low : i < 9) :
    ((UInt64.ofNat n >>> UInt64.ofNat (7 * i)) &&& 0x7f).toUInt8 =
      UInt8.ofNat (n / 128 ^ i % 128) := by
  rw [toUInt8_low, UInt64.toNat_shiftRight, UInt64.toNat_ofNat',
    UInt64.toNat_ofNat', Nat.mod_eq_of_lt fits, Nat.shiftRight_eq_div_pow,
    Nat.mod_eq_of_lt (show 7 * i < 2 ^ 64 by omega),
    Nat.mod_eq_of_lt (show 7 * i < 64 by omega), Nat.pow_mul]

theorem padded_groups {n : Nat} (fits : n < 2 ^ 35) :
    padded (reservedLen - 1) n =
      [UInt8.ofNat (n / 128 ^ 0 % 128 + 128),
        UInt8.ofNat (n / 128 ^ 1 % 128 + 128),
        UInt8.ofNat (n / 128 ^ 2 % 128 + 128),
        UInt8.ofNat (n / 128 ^ 3 % 128 + 128),
        UInt8.ofNat (n / 128 ^ 4 % 128)] := by
  have last : n / 128 ^ 4 % 128 = n / 128 / 128 / 128 / 128 := by omega
  have third : n / 128 ^ 3 = n / 128 / 128 / 128 := by omega
  have second : n / 128 ^ 2 = n / 128 / 128 := by omega
  rw [last, third, second, Nat.pow_one, Nat.pow_zero, Nat.div_one]
  rfl

theorem endMessage_eq {w : ProtoWriter} {front body : Bytes}
    (whole : w.bytes = front ++ List.replicate reservedLen 0 ++ body)
    (short : body.length < 2 ^ 35) :
    ∃ next, w.endMessage front.length = .ok next ∧
      next.bytes = front ++ padded (reservedLen - 1) body.length ++ body := by
  have size : w.bytes.length =
      front.length + reservedLen + body.length := by
    rw [whole]
    simp only [List.length_append, List.length_replicate]
  have len : w.bytes.length - front.length - reservedLen = body.length := by
    omega
  have room : ¬ w.bytes.length < front.length + reservedLen := by
    omega
  have group : ∀ i, i < 5 → ((UInt64.ofNat body.length >>>
      UInt64.ofNat (7 * i)) &&& 0x7f).toUInt8 =
      UInt8.ofNat (body.length / 128 ^ i % 128) :=
    fun i low => toUInt8_group body.length (by omega) (by omega)
  have continued : ∀ i, i < 5 → ((UInt64.ofNat body.length >>>
      UInt64.ofNat (7 * i)) &&& 0x7f).toUInt8 ||| 0x80 =
      UInt8.ofNat (body.length / 128 ^ i % 128 + 128) := by
    intro i low
    rw [group i low]
    exact low_or_high (Nat.mod_lt _ (by decide))
  unfold endMessage
  dsimp only
  rw [if_neg room, len, padded_groups short]
  rw [show List.range (reservedLen - 1) = [0, 1, 2, 3] from rfl,
    show front.length + reservedLen - 1 = front.length + 4 from rfl,
    show reservedLen - 1 = 4 from rfl]
  simp only [List.foldlM_cons, List.foldlM_nil, bind_assoc, pure_bind]
  rw [continued 0 (by decide), continued 1 (by decide),
    continued 2 (by decide), continued 3 (by decide), group 4 (by decide)]
  obtain ⟨w₁, stored, whole⟩ := store_slot whole
    (UInt8.ofNat (body.length / 128 ^ 0 % 128 + 128))
    (show 0 < reservedLen by decide)
  rw [stored, ok_bind]
  obtain ⟨w₂, stored, whole⟩ := store_slot whole
    (UInt8.ofNat (body.length / 128 ^ 1 % 128 + 128))
    (show 1 < reservedLen by decide)
  rw [stored, ok_bind]
  obtain ⟨w₃, stored, whole⟩ := store_slot whole
    (UInt8.ofNat (body.length / 128 ^ 2 % 128 + 128))
    (show 2 < reservedLen by decide)
  rw [stored, ok_bind]
  obtain ⟨w₄, stored, whole⟩ := store_slot whole
    (UInt8.ofNat (body.length / 128 ^ 3 % 128 + 128))
    (show 3 < reservedLen by decide)
  rw [stored, ok_bind]
  exact store_slot whole (UInt8.ofNat (body.length / 128 ^ 4 % 128))
    (show 4 < reservedLen by decide)

theorem endMessage_extend (front : Bytes) {body : Bytes}
    (short : body.length < 2 ^ 35) :
    (do
      let inner ← w.extend (front ++ List.replicate reservedLen 0 ++ body)
      inner.endMessage (w.bytes.length + front.length)) =
      w.extend (front ++ (padded (reservedLen - 1) body.length ++ body)) := by
  have same : (front ++ (padded (reservedLen - 1) body.length ++ body)).length =
      (front ++ List.replicate reservedLen (0 : UInt8) ++ body).length := by
    simp only [List.length_append, List.length_replicate, padded_length,
      reservedLen]
    omega
  obtain ⟨inner, whole, appended⟩ | ⟨long, full⟩ :=
    extend_cases w (front ++ List.replicate reservedLen 0 ++ body)
  · rw [appended, ok_bind]
    rw [← List.append_assoc, ← List.append_assoc] at whole
    obtain ⟨next, closed, written⟩ := endMessage_eq whole short
    rw [List.length_append] at closed
    rw [closed]
    rw [List.append_assoc, List.append_assoc] at written
    exact (extend_eq_ok w written).symm
  · rw [full]
    rw [← same] at long
    exact (extend_eq_error w long).symm

theorem beginMessage_eq (field : FieldNumber) :
    w.beginMessage field.val = (do
      let inner ←
        w.extend (tagBytes field 2 ++ List.replicate reservedLen 0)
      .ok (w.bytes.length + (tagBytes field 2).length, inner)) := by
  have tag : w.writeTag field.val 2 = w.extend (tagBytes field 2) :=
    writeTag_eq w field (by decide)
  unfold beginMessage
  rw [tag, ← extend_extend, bind_assoc]
  obtain ⟨tagged, same, appended⟩ | ⟨-, full⟩ :=
    extend_cases w (tagBytes field 2)
  · rw [appended, ok_bind, ok_bind, same, List.length_append]
  · rw [full]
    rfl

/-- A sub-message written in place by what appends its body. -/
theorem message_eq (field : FieldNumber) {body : Bytes}
    {f : ProtoWriter → Except Panic ProtoWriter}
    (writes : ∀ w, f w = w.extend body) (short : body.length < 2 ^ 35) :
    w.message field.val f =
      w.extend (tagBytes field 2 ++
        (padded (reservedLen - 1) body.length ++ body)) := by
  unfold message
  rw [beginMessage_eq, bind_assoc]
  simp only [ok_bind, writes]
  rw [← endMessage_extend w _ short, ← extend_extend w _ body, bind_assoc]

end ProtoWriter

open ProtoWriter

mutual

theorem Write.apply_eq : (write : Write) → write.PrefixFits →
    ∀ w, write.apply w = w.extend write.encode
  | .uint64 field value, _, w => writeUint64_eq w field value
  | .uint32 field value, _, w => writeUint32_eq w field value
  | .int32 field value, _, w => writeUint32_eq w field value.toUInt32
  | .int64 field value, _, w => writeUint64_eq w field value.toUInt64
  | .string field bytes, _, w => writeString_eq w field bytes
  | .nested .beginEnd field body, fits, w =>
      message_eq w field (applyAll_eq body fits.2) fits.1
  | .nested .message field body, fits, w =>
      message_eq w field (applyAll_eq body fits.2) fits.1
  | .nested .writeMessage field body, fits, w => by
      have inner := applyAll_eq body fits .new
      unfold Write.apply
      rw [inner]
      obtain ⟨next, same, written⟩ | ⟨long, full⟩ :=
        extend_cases .new (encodeAll body)
      · have same : next.bytes = encodeAll body := same
        rw [written, ok_bind, same]
        exact writeString_eq w field (encodeAll body)
      · -- A body that does not fit its own buffer does not fit this one.
        have long : isizeMax < 0 + (encodeAll body).length := long
        rw [full]
        refine (extend_eq_error w ?_).symm
        unfold Write.encode
        simp only [List.length_append, lengthBytes]
        omega

theorem applyAll_eq : (tree : List Write) → PrefixFitsAll tree →
    ∀ w, applyAll tree w = w.extend (encodeAll tree)
  | [], _, w => (extend_nil w).symm
  | write :: rest, fits, w => by
      have first := write.apply_eq fits.1 w
      unfold applyAll encodeAll
      rw [first, ← extend_extend]
      apply bind_congr
      intro next
      exact applyAll_eq rest fits.2 next

end

end Sismo.Proto
