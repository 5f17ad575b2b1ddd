import Mathlib.Data.List.Basic
import Mathlib.Tactic.SplitIfs

namespace Sismo.Utf8

/-! UTF-8 byte strings, and where they may be cut. -/

def encode (chars : List Char) : List UInt8 :=
  chars.flatMap String.utf8EncodeChar

def Valid (bytes : List UInt8) : Prop :=
  ∃ chars, encode chars = bytes

def StartsInside (bytes : List UInt8) : Prop :=
  ∃ byte rest, bytes = byte :: rest ∧ ¬byte.IsUTF8FirstByte

/-! A decoder that replaces what is not a character. -/

def isContinuation (byte : UInt8) : Bool :=
  byte &&& 0xc0 = 0x80

def secondOfThree (first byte : UInt8) : Bool :=
  if first = 0xe0 then 0xa0 ≤ byte ∧ byte ≤ 0xbf
  else if first = 0xed then 0x80 ≤ byte ∧ byte ≤ 0x9f
  else 0x80 ≤ byte ∧ byte ≤ 0xbf

def secondOfFour (first byte : UInt8) : Bool :=
  if first = 0xf0 then 0x90 ≤ byte ∧ byte ≤ 0xbf
  else if first = 0xf4 then 0x80 ≤ byte ∧ byte ≤ 0x8f
  else 0x80 ≤ byte ∧ byte ≤ 0xbf

/-- Whether a character starts here, and how many bytes it, or what could have
been one, has; 0 stands for a byte that is missing. -/
def scanChar (first : UInt8) (rest : List UInt8) : Bool × Nat :=
  let next := fun i => rest.getD i 0
  if first < 0x80 then (true, 1)
  else if 0xc2 ≤ first ∧ first ≤ 0xdf then
    if isContinuation (next 0) then (true, 2) else (false, 1)
  else if 0xe0 ≤ first ∧ first ≤ 0xef then
    if secondOfThree first (next 0) = false then (false, 1)
    else if isContinuation (next 1) then (true, 3)
    else (false, 2)
  else if 0xf0 ≤ first ∧ first ≤ 0xf4 then
    if secondOfFour first (next 0) = false then (false, 1)
    else if isContinuation (next 1) = false then (false, 2)
    else if isContinuation (next 2) then (true, 4)
    else (false, 3)
  else (false, 1)

theorem scanChar_pos (first : UInt8) (rest : List UInt8) :
    0 < (scanChar first rest).2 := by
  unfold scanChar
  dsimp only
  split_ifs <;> exact Nat.succ_pos _

/-- U+FFFD. -/
def replacement : List UInt8 := [0xef, 0xbf, 0xbd]

/-- `String::from_utf8_lossy`. -/
def lossy : List UInt8 → List UInt8
  | [] => []
  | first :: rest =>
      let whole := (scanChar first rest).1
      let count := (scanChar first rest).2
      (if whole then (first :: rest).take count else replacement) ++
        lossy ((first :: rest).drop count)
termination_by bytes => bytes.length
decreasing_by
  have := scanChar_pos first rest
  rw [List.length_drop, List.length_cons]
  omega

/-- A character is its own byte, or all its bytes are from 0x80 on. -/
theorem ascii_or_large {c : Char} {byte : UInt8}
    (member : byte ∈ String.utf8EncodeChar c) :
    byte.toNat = c.toNat ∨ 128 ≤ byte.toNat := by
  have large : ∀ n, 128 ≤ n → n < 256 → 128 ≤ (UInt8.ofNat n).toNat := by
    intro n low high
    rw [UInt8.toNat_ofNat_of_lt' high]
    exact low
  have value : c.val.toNat = c.toNat := rfl
  unfold String.utf8EncodeChar at member
  dsimp only at member
  rw [value] at member
  split_ifs at member with one two three
  · rw [List.mem_singleton.mp member, UInt8.toNat_ofNat_of_lt']
    · exact .inl rfl
    · change c.toNat < 256
      omega
  all_goals
    simp only [List.mem_cons, List.not_mem_nil, or_false] at member
    right
  · obtain rfl | rfl := member <;> exact large _ (by omega) (by omega)
  · obtain rfl | rfl | rfl := member <;> exact large _ (by omega) (by omega)
  · obtain rfl | rfl | rfl | rfl := member <;>
      exact large _ (by omega) (by omega)

theorem valid_nil : Valid [] :=
  ⟨[], rfl⟩

theorem not_startsInside_nil : ¬StartsInside [] := by
  rintro ⟨_, _, impossible, _⟩
  cases impossible

theorem valid_append {first second : List UInt8} (left : Valid first)
    (right : Valid second) : Valid (first ++ second) := by
  obtain ⟨chars, rfl⟩ := left
  obtain ⟨more, rfl⟩ := right
  exact ⟨chars ++ more, List.flatMap_append⟩

theorem Valid.not_startsInside {bytes : List UInt8} (valid : Valid bytes) :
    ¬StartsInside bytes := by
  obtain ⟨chars, rfl⟩ := valid
  rintro ⟨byte, rest, starts, inside⟩
  cases chars with
  | nil => cases starts
  | cons c chars =>
      have positive : 0 < (String.utf8EncodeChar c).length := by
        rw [String.length_utf8EncodeChar]
        exact c.utf8Size_pos
      obtain ⟨head, tail, char⟩ := List.exists_cons_of_length_pos positive
      have first : (String.utf8EncodeChar c)[0] = byte := by
        rw [encode, List.flatMap_cons, char] at starts
        cases starts
        simp [char]
      rw [← first] at inside
      exact inside (UInt8.isUTF8FirstByte_getElem_utf8EncodeChar.mpr rfl)

/-- A cut that does not fall inside a character leaves two valid strings. -/
theorem valid_of_cut {chars : List Char} {first second : List UInt8}
    (whole : encode chars = first ++ second)
    (outside : ¬StartsInside second) : Valid first ∧ Valid second := by
  induction chars generalizing first with
  | nil =>
      obtain ⟨rfl, rfl⟩ := List.append_eq_nil_iff.mp whole.symm
      exact ⟨valid_nil, valid_nil⟩
  | cons c chars induction =>
      have joined : String.utf8EncodeChar c ++ encode chars =
          first ++ second := whole
      rcases List.append_eq_append_iff.mp joined with
        ⟨later, firstEq, rest⟩ | ⟨tail, char, secondEq⟩
      · obtain ⟨left, right⟩ := induction rest
        rw [firstEq]
        exact ⟨valid_append ⟨[c], by simp [encode]⟩ left, right⟩
      · cases tail with
        | nil =>
            rw [List.append_nil] at char
            rw [← char, secondEq]
            exact ⟨⟨[c], by simp [encode]⟩, ⟨chars, rfl⟩⟩
        | cons byte tail =>
            cases first with
            | nil => exact ⟨valid_nil, ⟨c :: chars, whole⟩⟩
            | cons head first =>
                -- The cut is inside the character.
                refine absurd ⟨byte, tail ++ encode chars, secondEq, ?_⟩ outside
                intro isFirst
                have within : (head :: first).length <
                    (String.utf8EncodeChar c).length := by
                  simp [char]
                have here : (String.utf8EncodeChar c)[
                    (head :: first).length] = byte := by
                  simp [char]
                rw [← here] at isFirst
                have zero := UInt8.isUTF8FirstByte_getElem_utf8EncodeChar.mp
                  isFirst
                cases zero

theorem Valid.cut {first second : List UInt8}
    (valid : Valid (first ++ second)) (outside : ¬StartsInside second) :
    Valid first ∧ Valid second := by
  obtain ⟨chars, whole⟩ := valid
  exact valid_of_cut whole outside

end Sismo.Utf8
