import Mathlib.Data.List.Basic

namespace Sismo.Utf16

/-! Strings of 16-bit units, and their UTF-8. -/

def High (unit : Nat) : Prop :=
  0xd800 ≤ unit ∧ unit < 0xdc00

def Low (unit : Nat) : Prop :=
  0xdc00 ≤ unit ∧ unit < 0xe000

instance (unit : Nat) : Decidable (High unit) :=
  inferInstanceAs (Decidable (_ ∧ _))

instance (unit : Nat) : Decidable (Low unit) :=
  inferInstanceAs (Decidable (_ ∧ _))

def combine (high low : Nat) : Nat :=
  0x10000 + ((high - 0xd800) * 1024 + (low - 0xdc00))

/-- The UTF-8 of a code point, U+FFFD where it is no character. -/
def pointUtf8 (point : Nat) : List UInt8 :=
  String.utf8EncodeChar
    (if point.isValidChar then Char.ofNat point else '\uFFFD')

/-- The UTF-8 of a string, with U+FFFD for every surrogate without a partner. -/
def toUtf8 : List Nat → List UInt8
  | [] => []
  | [unit] => pointUtf8 unit
  | unit :: next :: rest =>
      if High unit ∧ Low next then pointUtf8 (combine unit next) ++ toUtf8 rest
      else pointUtf8 unit ++ toUtf8 (next :: rest)

def Paired : List Nat → Prop
  | [] => True
  | [unit] => ¬ High unit
  | unit :: next :: rest => (High unit → Low next) ∧ Paired (next :: rest)

def ofChar (c : Char) : List Nat :=
  if c.toNat < 0x10000 then [c.toNat]
  else [0xd800 + (c.toNat - 0x10000) / 1024, 0xdc00 + (c.toNat - 0x10000) % 1024]

theorem toUtf8_of_not_high {unit : Nat} (plain : ¬ High unit)
    (rest : List Nat) : toUtf8 (unit :: rest) = pointUtf8 unit ++ toUtf8 rest := by
  cases rest with
  | nil => exact (List.append_nil _).symm
  | cons next rest => exact if_neg fun both => plain both.1

theorem paired_of_not_high {unit : Nat} (plain : ¬ High unit)
    (rest : List Nat) : Paired (unit :: rest) ↔ Paired rest := by
  cases rest with
  | nil => exact iff_of_true plain trivial
  | cons next rest => exact and_iff_right (absurd · plain)

theorem toUtf8_of_pair {high low : Nat} (first : High high) (second : Low low)
    (rest : List Nat) : toUtf8 (high :: low :: rest) =
      pointUtf8 (combine high low) ++ toUtf8 rest :=
  if_pos ⟨first, second⟩

theorem not_high_of_low {unit : Nat} (low : Low unit) : ¬ High unit := by
  intro high
  have := low.1
  have := high.2
  omega

theorem paired_of_pair {high low : Nat} (second : Low low) (rest : List Nat) :
    Paired (high :: low :: rest) ↔ Paired rest := by
  refine (and_iff_right fun _ => second).trans ?_
  exact paired_of_not_high (not_high_of_low second) rest

theorem length_pointUtf8 (point : Nat) :
    1 ≤ (pointUtf8 point).length ∧ (pointUtf8 point).length ≤ 4 := by
  rw [pointUtf8, String.length_utf8EncodeChar]
  exact ⟨Char.utf8Size_pos _, Char.utf8Size_le_four _⟩

theorem toNat_ofNat {point : Nat} (valid : point.isValidChar) :
    (Char.ofNat point).toNat = point := by
  rw [Char.ofNat, dif_pos valid]
  rfl

/-- A unit from U+0800 on has three bytes, as has U+FFFD. -/
theorem length_pointUtf8_of_large {unit : Nat} (large : 0x800 ≤ unit)
    (word : unit < 0x10000) : (pointUtf8 unit).length = 3 := by
  rw [pointUtf8, String.length_utf8EncodeChar]
  split
  · next valid =>
      have same := toNat_ofNat valid
      rw [Char.toNat] at same
      rw [Char.utf8Size]
      rw [if_neg, if_neg, if_pos]
      all_goals
        rw [UInt32.le_iff_toNat_le, same, UInt32.toNat_ofNatLT]
        omega
  · rfl

/-- A character's units are its UTF-8, whatever follows. -/
theorem toUtf8_ofChar (c : Char) (rest : List Nat) :
    toUtf8 (ofChar c ++ rest) = String.utf8EncodeChar c ++ toUtf8 rest ∧
      (Paired (ofChar c ++ rest) ↔ Paired rest) := by
  have point : pointUtf8 c.toNat = String.utf8EncodeChar c := by
    have valid : c.toNat.isValidChar := c.valid
    rw [pointUtf8, if_pos valid, Char.ofNat_toNat]
  have valid : c.toNat < 0xd800 ∨ 0xdfff < c.toNat ∧ c.toNat < 0x110000 :=
    c.valid
  rw [ofChar]
  split
  · next small =>
      have plain : ¬ High c.toNat := by
        rintro ⟨low, high⟩
        omega
      exact ⟨(toUtf8_of_not_high plain rest).trans (by rw [point]),
        paired_of_not_high plain rest⟩
  · next large =>
      have high : High (0xd800 + (c.toNat - 0x10000) / 1024) := by
        refine ⟨?_, ?_⟩ <;> omega
      have low : Low (0xdc00 + (c.toNat - 0x10000) % 1024) := by
        refine ⟨?_, ?_⟩ <;> omega
      have whole : combine (0xd800 + (c.toNat - 0x10000) / 1024)
          (0xdc00 + (c.toNat - 0x10000) % 1024) = c.toNat := by
        unfold combine
        omega
      refine ⟨?_, paired_of_pair low rest⟩
      rw [List.cons_append, List.singleton_append, toUtf8_of_pair high low,
        whole, point]

end Sismo.Utf16
