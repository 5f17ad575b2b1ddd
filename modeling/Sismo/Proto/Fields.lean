import Sismo.Lib.Base128
import Sismo.Lib.Format
import Sismo.Proto.Reader

namespace Sismo.Proto

/-! The formats that the reader accepts. -/

open Base128 Format

/-- At most ten bytes; the bits from the 65th on are lost. -/
def varintFormat : Format UInt8 UInt64 := fun piece v =>
  piece.length ≤ 10 ∧ ∃ n, Numeral piece n ∧ v = UInt64.ofNat n

def octetsFormat (n : Nat) : Format UInt8 (Octets n) := fun piece octets =>
  piece = octets.val

def payloadFormat (tag : UInt64) : Format UInt8 WireValue :=
  match (tag &&& 0x07).toNat with
  | 0 => varintFormat.map .varint
  | 1 => (octetsFormat 8).map .fixed64
  | 2 => (varintFormat.andThen fun len => exactly len.toNat).map .len
  | 5 => (octetsFormat 4).map .fixed32
  | _ => never

def fieldFormat : Format UInt8 (UInt32 × WireValue) :=
  varintFormat.andThen fun tag =>
    (payloadFormat tag).map fun value => ((tag >>> 3).toUInt32, value)

theorem unambiguous_varint : Unambiguous varintFormat := by
  intro first second rest more v w read read' same
  obtain ⟨-, n, numeral, rfl⟩ := read
  obtain ⟨-, m, numeral', rfl⟩ := read'
  obtain ⟨rfl, rfl⟩ := numeral.unique numeral' same
  exact ⟨rfl, rfl⟩

theorem unambiguous_octets (n : Nat) : Unambiguous (octetsFormat n) := by
  intro first second rest more v w read read' same
  obtain ⟨bytes, size⟩ := v
  obtain ⟨bytes', size'⟩ := w
  cases read
  cases read'
  obtain ⟨rfl, -⟩ := List.append_inj same (size.trans size'.symm)
  exact ⟨rfl, rfl⟩

theorem unambiguous_payload (tag : UInt64) :
    Unambiguous (payloadFormat tag) := by
  unfold payloadFormat
  split
  · exact unambiguous_varint.map _
  · exact (unambiguous_octets 8).map _
  · exact (unambiguous_varint.andThen fun len =>
      unambiguous_exactly len.toNat).map _
  · exact (unambiguous_octets 4).map _
  · exact unambiguous_never

theorem unambiguous_field : Unambiguous fieldFormat :=
  unambiguous_varint.andThen fun tag => (unambiguous_payload tag).map _

theorem varint_ne_nil {piece : Bytes} {v : UInt64}
    (read : varintFormat piece v) : piece ≠ [] := by
  obtain ⟨-, n, numeral, -⟩ := read
  exact numeral.ne_nil

theorem field_ne_nil {piece : Bytes} {item : UInt32 × WireValue}
    (read : fieldFormat piece item) : piece ≠ [] := by
  obtain ⟨front, back, tag, rfl, readTag, -⟩ := read
  exact List.append_ne_nil_of_left_ne_nil (varint_ne_nil readTag) back

theorem absent_nil : Absent fieldFormat [] := by
  intro piece item read front
  exact field_ne_nil read (List.prefix_nil.mp front)

/-! The reader never panics, and reads exactly those formats. -/

namespace ProtoReader

variable {α β : Type} {r later : ProtoReader}

/-- The method answers as a reader of the format, and moves forward only. -/
def Satisfies (m : Reading α) (format : Format UInt8 α) : Prop :=
  ∀ r, ∃ answer later, m r = .ok (answer, later) ∧ later.buf = r.buf ∧
    r.pos ≤ later.pos ∧ format.Answers r.unread answer later.unread

theorem Satisfies.bind {m : Reading α} {next : α → Reading β}
    {format : Format UInt8 α} {format' : α → Format UInt8 β}
    (first : Satisfies m format) (once : Unambiguous format)
    (second : ∀ a, Satisfies (next a) (format' a)) :
    Satisfies (m >>= next) (format.andThen format') := by
  intro r
  obtain ⟨answer, middle, read, same, le, answers⟩ := first r
  cases answer with
  | none =>
      refine ⟨none, middle, ?_, same, le, answers.andThen_ended _⟩
      change Reading.bind m next r = _
      rw [Reading.bind, read]
  | some a =>
      obtain ⟨answer, later, read', same', le', answers'⟩ := second a middle
      refine ⟨answer, later, ?_, same'.trans same, le.trans le',
        answers.andThen once answers'⟩
      change Reading.bind m next r = _
      rw [Reading.bind, read]
      exact read'

theorem Satisfies.map {m : Reading α} {format : Format UInt8 α}
    (first : Satisfies m format) (f : α → β) :
    Satisfies (m >>= fun a => pure (f a)) (format.map f) := by
  intro r
  obtain ⟨answer, later, read, same, le, answers⟩ := first r
  refine ⟨answer.map f, later, ?_, same, le, answers.map f⟩
  change Reading.bind m _ r = _
  rw [Reading.bind, read]
  cases answer with
  | none => rfl
  | some a => rfl

theorem satisfies_none : Satisfies (.none : Reading α) never := by
  intro r
  exact ⟨none, r, rfl, rfl, Nat.le_refl _, .ended fun _ _ read => read.elim⟩

theorem nextByte_cases (r : ProtoReader) :
    r.unread = [] ∧ nextByte r = .ok (none, r) ∨
      ∃ b later, r.unread = b :: later.unread ∧
        nextByte r = .ok (some b, later) ∧ later.buf = r.buf ∧
        r.pos ≤ later.pos := by
  unfold nextByte
  by_cases inside : r.pos < r.buf.length
  · rw [dif_pos inside, List.getElem?_eq_getElem inside]
    have unread : r.unread = r.buf[r.pos] :: r.buf.drop (r.pos + 1) :=
      List.drop_eq_getElem_cons inside
    exact .inr ⟨_, ⟨r.buf, r.pos + 1, inside, r.sized⟩, unread, rfl, rfl,
      Nat.le_succ _⟩
  · rw [dif_neg inside]
    exact .inl ⟨List.drop_eq_nil_of_le (Nat.not_lt.mp inside), rfl⟩

theorem shl_eq {v : UInt64} {shift : Nat} (inside : shift < 64) :
    shl v shift = pure (v <<< UInt64.ofNat shift) := if_pos inside

theorem high_iff (b : UInt8) : b &&& 0x80 = 0 ↔ b.toNat < 128 := by
  have split : ∀ i : Fin 256, i.val &&& 128 = i.val / 128 * 128 := by
    decide +kernel
  have bits : (b &&& 0x80).toNat = b.toNat / 128 * 128 := by
    rw [UInt8.toNat_and]
    exact split ⟨b.toNat, b.toNat_lt⟩
  rw [← UInt8.toNat_inj, bits]
  change b.toNat / 128 * 128 = 0 ↔ _
  omega

theorem toNat_group_low (b : UInt8) :
    (b &&& 0x7f).toUInt64.toNat = b.toNat % 128 := by
  rw [UInt8.toNat_toUInt64, UInt8.toNat_and]
  exact Nat.and_two_pow_sub_one_eq_mod b.toNat 7

/-- The value after one more group. -/
theorem or_group {value : UInt64} {k : Nat} (b : UInt8) (inside : k ≤ 9)
    (low : value.toNat < 2 ^ (7 * k)) :
    value ||| ((b &&& 0x7f).toUInt64 <<< UInt64.ofNat (7 * k)) =
      UInt64.ofNat (value.toNat + 2 ^ (7 * k) * (b.toNat % 128)) := by
  have split : 2 ^ 64 = 2 ^ (7 * k) * 2 ^ (64 - 7 * k) := by
    rw [← Nat.pow_add]
    congr 1
    omega
  -- The group's bits that do not fit are lost; the others stay in place.
  have kept : b.toNat % 128 * 2 ^ (7 * k) % 2 ^ 64 =
      2 ^ (7 * k) * (b.toNat % 128 % 2 ^ (64 - 7 * k)) := by
    rw [split, Nat.mul_comm, Nat.mul_mod_mul_left]
  have disjoint := Nat.two_pow_add_eq_or_of_lt low
    (b.toNat % 128 % 2 ^ (64 - 7 * k))
  have whole : (value ||| ((b &&& 0x7f).toUInt64 <<<
      UInt64.ofNat (7 * k))).toNat =
      b.toNat % 128 * 2 ^ (7 * k) % 2 ^ 64 + value.toNat := by
    rw [UInt64.toNat_or, UInt64.toNat_shiftLeft, toNat_group_low,
      UInt64.toNat_ofNat', Nat.mod_eq_of_lt (show 7 * k < 2 ^ 64 by omega),
      Nat.mod_eq_of_lt (show 7 * k < 64 by omega), Nat.shiftLeft_eq, kept,
      Nat.or_comm, ← disjoint]
  have bound := UInt64.toNat_lt (value ||| ((b &&& 0x7f).toUInt64 <<<
    UInt64.ofNat (7 * k)))
  apply UInt64.toNat_inj.mp
  rw [whole] at bound ⊢
  rw [UInt64.toNat_ofNat', Nat.mul_comm (2 ^ (7 * k))]
  generalize b.toNat % 128 * 2 ^ (7 * k) = group at bound ⊢
  omega

/-- What the loop reads after `k` groups with the value `value`. -/
def loopFormat (value : UInt64) (k : Nat) : Format UInt8 UInt64 :=
  fun piece v => piece.length + k ≤ 10 ∧ ∃ n, Numeral piece n ∧
    v = UInt64.ofNat (value.toNat + 2 ^ (7 * k) * n)

theorem readVarintLoop_nil {value : UInt64} {shift : Nat}
    (nothing : nextByte r = .ok (none, r)) :
    readVarintLoop value shift r = .ok (none, r) := by
  rw [readVarintLoop]
  change Reading.bind nextByte _ r = _
  rw [Reading.bind, nothing]

theorem readVarintLoop_cons (value : UInt64) (k : Nat) {b : UInt8}
    (read : nextByte r = .ok (some b, later)) (inside : k ≤ 9)
    (low : value.toNat < 2 ^ (7 * k)) :
    readVarintLoop value (7 * k) r =
      if b.toNat < 128 then
        .ok (some (UInt64.ofNat (value.toNat + 2 ^ (7 * k) * b.toNat)), later)
      else if k = 9 then .ok (none, later)
      else readVarintLoop
        (UInt64.ofNat (value.toNat + 2 ^ (7 * k) * (b.toNat - 128)))
        (7 * (k + 1)) later := by
  rw [readVarintLoop]
  change Reading.bind nextByte _ r = _
  rw [Reading.bind, read]
  dsimp only
  rw [shl_eq (by omega)]
  change (if b &&& 0x80 = 0 then _ else _ : Reading UInt64) later = _
  rw [or_group b inside low]
  by_cases last : b.toNat < 128
  · rw [if_pos ((high_iff b).mpr last), if_pos last, Nat.mod_eq_of_lt last]
    rfl
  · have group : b.toNat % 128 = b.toNat - 128 := by
      have := b.toNat_lt
      omega
    rw [if_neg fun zero => last ((high_iff b).mp zero), if_neg last, group]
    by_cases full : k = 9
    · rw [if_pos full, if_pos (by omega)]
      rfl
    · rw [if_neg full, if_neg (by omega), Nat.mul_succ]

theorem absent_loop_nil (value : UInt64) (k : Nat) :
    Absent (loopFormat value k) [] := by
  intro piece v read front
  obtain ⟨-, n, numeral, -⟩ := read
  exact numeral.ne_nil (List.prefix_nil.mp front)

theorem absent_loop_full {value : UInt64} {b : UInt8} (high : 128 ≤ b.toNat)
    (rest : Bytes) : Absent (loopFormat value 9) (b :: rest) := by
  intro piece v read front
  obtain ⟨short, n, numeral, -⟩ := read
  obtain ⟨more, same⟩ := front
  cases numeral with
  | last low =>
      cases same
      omega
  | more _ numeral =>
      have long := List.length_pos_iff.mpr numeral.ne_nil
      rw [List.length_cons] at short
      omega

theorem loopFormat_cons {value : UInt64} {k : Nat} {b : UInt8}
    (high : 128 ≤ b.toNat) {piece : Bytes} {v : UInt64}
    (fits : value.toNat + 2 ^ (7 * k) * (b.toNat - 128) < 2 ^ 64) :
    loopFormat value k (b :: piece) v ↔
      loopFormat
        (UInt64.ofNat (value.toNat + 2 ^ (7 * k) * (b.toNat - 128)))
        (k + 1) piece v := by
  have advance : ∀ n, value.toNat + 2 ^ (7 * k) * (b.toNat - 128 + 128 * n) =
      (UInt64.ofNat (value.toNat + 2 ^ (7 * k) * (b.toNat - 128))).toNat +
        2 ^ (7 * (k + 1)) * n := by
    intro n
    rw [UInt64.toNat_ofNat', Nat.mod_eq_of_lt fits, Nat.mul_add,
      Nat.mul_succ 7 k, Nat.pow_add, Nat.add_assoc, Nat.mul_assoc]
  unfold loopFormat
  rw [List.length_cons, Nat.add_right_comm, ← Nat.add_assoc]
  apply and_congr_right
  intro _
  constructor
  · rintro ⟨n, numeral, rfl⟩
    cases numeral with
    | last low => omega
    | @more _ _ n _ numeral => exact ⟨n, numeral, by rw [advance]⟩
  · rintro ⟨n, numeral, rfl⟩
    exact ⟨_, numeral.more high, by rw [advance]⟩

theorem answers_loop_cons {value : UInt64} {k : Nat} {b : UInt8}
    (high : 128 ≤ b.toNat) {rest tail : Bytes} {answer : Option UInt64}
    (fits : value.toNat + 2 ^ (7 * k) * (b.toNat - 128) < 2 ^ 64)
    (answers : (loopFormat
        (UInt64.ofNat (value.toNat + 2 ^ (7 * k) * (b.toNat - 128)))
        (k + 1)).Answers rest answer tail) :
    (loopFormat value k).Answers (b :: rest) answer tail := by
  cases answers with
  | @read piece _ _ same read =>
      subst same
      exact .read rfl ((loopFormat_cons high fits).mpr read)
  | ended absent =>
      refine .ended fun piece v read front => ?_
      obtain ⟨more, same⟩ := front
      cases piece with
      | nil =>
          obtain ⟨-, n, numeral, -⟩ := read
          exact numeral.ne_nil rfl
      | cons first piece =>
          cases same
          exact absent piece v ((loopFormat_cons high fits).mp read) ⟨more, rfl⟩

theorem loopFormat_last {value : UInt64} {k : Nat} {b : UInt8}
    (last : b.toNat < 128) (inside : k ≤ 9) :
    loopFormat value k [b]
      (UInt64.ofNat (value.toNat + 2 ^ (7 * k) * b.toNat)) :=
  ⟨by rw [List.length_singleton]; omega, b.toNat, .last last, rfl⟩

theorem loop_room {value : UInt64} {k : Nat} (b : UInt8)
    (low : value.toNat < 2 ^ (7 * k)) :
    value.toNat + 2 ^ (7 * k) * (b.toNat - 128) < 2 ^ (7 * (k + 1)) := by
  have group : b.toNat - 128 ≤ 127 := by
    have := b.toNat_lt
    omega
  have le := Nat.mul_le_mul_left (2 ^ (7 * k)) group
  rw [Nat.mul_succ, Nat.pow_add]
  omega

theorem satisfies_readVarintLoop {left k : Nat} (inside : k + left = 9)
    {value : UInt64} (low : value.toNat < 2 ^ (7 * k)) :
    Satisfies (readVarintLoop value (7 * k)) (loopFormat value k) := by
  induction left generalizing k value with
  | zero =>
      intro r
      obtain rfl : k = 9 := inside
      obtain ⟨empty, nothing⟩ | ⟨b, later, unread, read, same, le⟩ :=
        nextByte_cases r
      · rw [empty]
        exact ⟨none, r, readVarintLoop_nil nothing, rfl, Nat.le_refl _,
          .ended (absent_loop_nil value 9)⟩
      · rw [readVarintLoop_cons _ _ read (Nat.le_refl 9) low, unread]
        split
        · next last =>
            exact ⟨_, later, rfl, same, le,
              .read rfl (loopFormat_last last (Nat.le_refl 9))⟩
        · next high =>
            exact ⟨none, later, rfl, same, le,
              .ended (absent_loop_full (Nat.not_lt.mp high) _)⟩
  | succ left induction =>
      intro r
      obtain ⟨empty, nothing⟩ | ⟨b, later, unread, read, same, le⟩ :=
        nextByte_cases r
      · rw [empty]
        exact ⟨none, r, readVarintLoop_nil nothing, rfl, Nat.le_refl _,
          .ended (absent_loop_nil value k)⟩
      · rw [readVarintLoop_cons _ _ read (by omega) low, unread]
        split
        · next last =>
            exact ⟨_, later, rfl, same, le,
              .read rfl (loopFormat_last last (by omega))⟩
        · next high =>
            have room := loop_room b low
            have fits : 2 ^ (7 * (k + 1)) ≤ 2 ^ 64 :=
              Nat.pow_le_pow_right (by decide) (by omega)
            rw [if_neg (by omega)]
            have low' : (UInt64.ofNat (value.toNat +
                2 ^ (7 * k) * (b.toNat - 128))).toNat < 2 ^ (7 * (k + 1)) := by
              rw [UInt64.toNat_ofNat', Nat.mod_eq_of_lt (by omega)]
              exact room
            obtain ⟨answer, last, read', same', le', answers⟩ :=
              induction (by omega) low' later
            exact ⟨answer, last, read', same'.trans same, le.trans le',
              answers_loop_cons (Nat.not_lt.mp high) (by omega) answers⟩

theorem loopFormat_zero : loopFormat 0 0 = varintFormat := by
  funext piece v
  unfold loopFormat varintFormat
  rw [Nat.add_zero, Nat.mul_zero, Nat.pow_zero]
  simp only [UInt64.toNat_zero, Nat.zero_add, Nat.one_mul]

theorem satisfies_readVarint : Satisfies readVarint varintFormat := by
  rw [← loopFormat_zero]
  exact satisfies_readVarintLoop (Nat.zero_add 9) (by decide)

theorem unread_length (r : ProtoReader) :
    r.unread.length = r.buf.length - r.pos := List.length_drop

theorem satisfies_take (n : Nat) : Satisfies (take n) (exactly n) := by
  intro r
  have sized := r.sized
  have bounded := r.bounded
  have size := r.unread_length
  unfold isizeMax at sized
  have absent : r.buf.length < r.pos + n → Absent (exactly n) r.unread := by
    intro outside piece a read front
    obtain ⟨length, -⟩ := read
    have le := front.length_le
    omega
  unfold take
  dsimp only
  by_cases overflow : 2 ^ 64 ≤ r.pos + n
  · rw [if_pos overflow]
    exact ⟨none, r, rfl, rfl, Nat.le_refl _, .ended (absent (by omega))⟩
  · rw [if_neg overflow]
    by_cases outside : r.buf.length < r.pos + n
    · rw [dif_pos outside]
      exact ⟨none, r, rfl, rfl, Nat.le_refl _, .ended (absent outside)⟩
    · rw [dif_neg outside, if_neg (by omega), Nat.add_sub_cancel_left]
      refine ⟨_, _, rfl, rfl, Nat.le_add_right _ _, ?_⟩
      have split : r.unread =
          r.unread.take n ++ r.buf.drop (r.pos + n) := by
        rw [← List.drop_drop]
        exact (List.take_append_drop n r.unread).symm
      have length : (r.unread.take n).length = n := by
        rw [List.length_take]
        omega
      exact .read split ⟨length, rfl⟩

theorem satisfies_takeOctets (n : Nat) :
    Satisfies (take n >>= fun bytes => .ofOption (tryInto n bytes))
      (octetsFormat n) := by
  intro r
  obtain ⟨answer, later, read, same, le, answers⟩ := satisfies_take n r
  have whole : (take n >>= fun bytes => .ofOption (tryInto n bytes)) r =
      .ok (answer.bind (tryInto n), later) := by
    change Reading.bind (take n) _ r = _
    rw [Reading.bind, read]
    cases answer with
    | none => rfl
    | some bytes => rfl
  refine ⟨_, later, whole, same, le, ?_⟩
  cases answers with
  | @read piece _ bytes split taken =>
      obtain ⟨length, rfl⟩ := taken
      have octets : tryInto n bytes = some ⟨bytes, length⟩ := dif_pos length
      rw [Option.bind_some, octets]
      exact .read split rfl
  | ended absent =>
      refine .ended fun piece octets read front => ?_
      obtain ⟨bytes, length⟩ := octets
      cases read
      exact absent bytes bytes ⟨length, rfl⟩ front

theorem satisfies_readValue (tag : UInt64) :
    Satisfies (readValue tag) (payloadFormat tag) := by
  unfold readValue payloadFormat
  generalize (tag &&& 0x07).toNat = wire
  match wire with
  | 0 => exact satisfies_readVarint.map _
  | 1 => exact (satisfies_takeOctets 8).map _
  | 2 =>
      exact (satisfies_readVarint.bind unambiguous_varint fun len =>
        satisfies_take len.toNat).map _
  | 5 => exact (satisfies_takeOctets 4).map _
  | 3 | 4 | _ + 6 => exact satisfies_none

theorem satisfies_next : Satisfies next fieldFormat :=
  satisfies_readVarint.bind unambiguous_varint fun tag =>
    (satisfies_readValue tag).map _

/-- Each field takes at least one byte. -/
theorem next_progress {item : UInt32 × WireValue}
    (read : next r = .ok (some item, later)) :
    later.buf = r.buf ∧ r.pos < later.pos := by
  obtain ⟨answer, last, same, buf, le, answers⟩ := satisfies_next r
  rw [read] at same
  cases same
  refine ⟨buf, Nat.lt_of_le_of_ne le fun stuck => ?_⟩
  cases answers with
  | read split field =>
      have unread : later.unread = r.unread := by
        unfold unread
        rw [buf, stuck]
      rw [unread] at split
      exact field_ne_nil field (List.self_eq_append_left.mp split)

/-- The fields that iteration yields, and the reader at its end. -/
def collect (r : ProtoReader) :
    Except Panic (List (UInt32 × WireValue) × ProtoReader) :=
  match _read : next r with
  | .error panic => .error panic
  | .ok (none, later) => .ok ([], later)
  | .ok (some item, later) =>
      match collect later with
      | .error panic => .error panic
      | .ok (items, last) => .ok (item :: items, last)
termination_by r.buf.length - r.pos
decreasing_by
  obtain ⟨same, forward⟩ := next_progress _read
  have bounded := later.bounded
  rw [same] at bounded ⊢
  omega

end ProtoReader

end Sismo.Proto
