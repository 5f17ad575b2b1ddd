import Sismo.Lib.Fallible
import Sismo.Lib.Text
import Sismo.Lib.Utf16
import Sismo.Lib.Utf8

namespace Sismo.V8

/-! The strings in the inspector's JSON messages, unescaped to UTF-8. -/

open Utf16

abbrev Bytes := List UInt8

def getRange (rest : Bytes) (start size : Nat) : Option Bytes :=
  if start + size ≤ rest.length then some ((rest.drop start).take size)
  else none

/-- A number of 16 bits in hexadecimal. Bytes that are no UTF-8 are no digits
either. -/
def parseU16Hex (s : Bytes) : Option Nat :=
  fromStrRadix 16 0x10000 (s.map UInt8.toNat)

def shortEscape (letter : UInt8) : Option UInt8 :=
  if letter = 34 then some 34
  else if letter = 92 then some 92
  else if letter = 47 then some 47
  else if letter = 98 then some 0x08
  else if letter = 102 then some 0x0c
  else if letter = 110 then some 10
  else if letter = 114 then some 13
  else if letter = 116 then some 9
  else none

/-- The UTF-8 for the rest of a `\u` escape, and how many bytes it takes: an
error where the code returns `None`. It panics where the number behind a high
surrogate is below U+DC00. -/
def unicodeEscape (rest : Bytes) : Fallible Unit (Bytes × Nat) :=
  match (getRange rest 0 4).bind parseU16Hex with
  | none => .err ()
  | some hi =>
      if 0xd800 ≤ hi ∧ hi < 0xdc00 then
        if getRange rest 4 2 = some [92, 117] then
          match (getRange rest 6 4).bind parseU16Hex with
          | none => .err ()
          | some lo =>
              if lo < 0xdc00 then .panics
              else .ok (pointUtf8 (0x10000 +
                ((hi - 0xd800) <<< 10 ||| (lo - 0xdc00))), 10)
        else .err ()
      else .ok (pointUtf8 hi, 4)

def escape : Bytes → Fallible Unit (Bytes × Nat)
  | [] => .err ()
  | letter :: rest =>
      match shortEscape letter with
      | some unescaped => .ok ([unescaped], 1)
      | none =>
          if letter = 117 then do
            let (bytes, used) ← unicodeEscape rest
            .ok (bytes, used + 1)
          else .err ()

/-- The loop of `extract_json_string` on the rest of the message. -/
def unescape (rest out : Bytes) : Fallible Unit Bytes :=
  match rest with
  | [] => .err ()
  | byte :: rest =>
      if byte = 34 then .ok out
      else if byte = 92 then
        match escape rest with
        | .ok (bytes, used) => unescape (rest.drop used) (out ++ bytes)
        | .err _ => .err ()
        | .panics => .panics
      else unescape rest (out ++ [byte])
termination_by rest.length
decreasing_by
  all_goals
    simp only [List.length_cons, List.length_drop]
    omega

def find (needle : Bytes) : Bytes → Option Nat
  | [] => none
  | byte :: rest =>
      if needle.isPrefixOf (byte :: rest) then some 0
      else (find needle rest).map (· + 1)

def extractJsonString (msg key : Bytes) : Fallible Unit Bytes :=
  match find key msg with
  | none => .err ()
  | some place =>
      let rest := msg.drop (place + key.length)
      match find [34] rest with
      | none => .err ()
      | some opening => unescape (rest.drop (opening + 1)) []

/-! The ways to write a string in JSON. -/

structure HexDigit where
  byte : UInt8
  value : Nat
  digit : digitOf 16 byte.toNat = some value

def shortEscapes : List (UInt8 × UInt8) :=
  [(34, 34), (92, 92), (47, 47), (98, 8), (102, 12), (110, 10), (114, 13),
    (116, 9)]

/-- A character as itself, or an escape. -/
inductive Token where
  | raw (c : Char) (plain : 0x20 ≤ c.toNat ∧ c ≠ '"' ∧ c ≠ '\\')
  | short (letter unit : UInt8) (known : (letter, unit) ∈ shortEscapes)
  | unicode (a b c d : HexDigit)

namespace Token

def bytes : Token → Bytes
  | raw c _ => String.utf8EncodeChar c
  | short letter _ _ => [92, letter]
  | unicode a b c d => [92, 117, a.byte, b.byte, c.byte, d.byte]

def units : Token → List Nat
  | raw c _ => ofChar c
  | short _ unit _ => [unit.toNat]
  | unicode a b c d =>
      [((a.value * 16 + b.value) * 16 + c.value) * 16 + d.value]

end Token

def textOf (tokens : List Token) : Bytes :=
  tokens.flatMap Token.bytes

def stringOf (tokens : List Token) : List Nat :=
  tokens.flatMap Token.units

/-! One token at a time. -/

section

variable {tail out : Bytes}

theorem unescape_plain {bytes : Bytes}
    (plain : ∀ byte ∈ bytes, byte ≠ 34 ∧ byte ≠ 92) :
    unescape (bytes ++ tail) out = unescape tail (out ++ bytes) := by
  induction bytes generalizing out with
  | nil => rw [List.nil_append, List.append_nil]
  | cons byte bytes induction =>
      rw [List.forall_mem_cons] at plain
      rw [List.cons_append, unescape, if_neg plain.1.1, if_neg plain.1.2,
        induction plain.2, List.append_assoc, List.singleton_append]

/-- No byte of another character is a quote or a backslash. -/
theorem raw_bytes {c : Char} (plain : 0x20 ≤ c.toNat ∧ c ≠ '"' ∧ c ≠ '\\') :
    ∀ byte ∈ String.utf8EncodeChar c, byte ≠ 34 ∧ byte ≠ 92 := by
  intro byte member
  have other : ∀ d : Char, d.toNat < 128 → c ≠ d →
      byte ≠ UInt8.ofNat d.toNat := by
    rintro d ascii apart rfl
    have value : (UInt8.ofNat d.toNat).toNat = d.toNat :=
      UInt8.toNat_ofNat_of_lt' (Nat.lt_trans ascii (by decide))
    obtain same | large := Utf8.ascii_or_large member
    · exact apart (Char.toNat_inj.mp (same.symm.trans value))
    · omega
  exact ⟨other '"' (by decide) plain.2.1, other '\\' (by decide) plain.2.2⟩

theorem shortEscape_of_mem {letter unit : UInt8}
    (known : (letter, unit) ∈ shortEscapes) :
    shortEscape letter = some unit ∧ letter ≠ 117 ∧
      String.utf8EncodeChar (Char.ofNat unit.toNat) = [unit] ∧
      unit.toNat < 128 := by
  simp only [shortEscapes, List.mem_cons, Prod.mk.injEq, List.not_mem_nil,
    or_false] at known
  obtain ⟨rfl, rfl⟩ | ⟨rfl, rfl⟩ | ⟨rfl, rfl⟩ | ⟨rfl, rfl⟩ | ⟨rfl, rfl⟩ |
    ⟨rfl, rfl⟩ | ⟨rfl, rfl⟩ | ⟨rfl, rfl⟩ := known <;> decide

theorem HexDigit.value_lt (digit : HexDigit) : digit.value < 16 := by
  have found := digit.digit
  unfold digitOf at found
  obtain ⟨small, same⟩ := Option.ite_none_right_eq_some.mp found
  exact Option.some.inj same ▸ small

theorem HexDigit.ne_plus (digit : HexDigit) : digit.byte.toNat ≠ 43 := by
  intro plus
  have found := digit.digit
  rw [plus] at found
  cases found

theorem parseU16Hex_digits (a b c d : HexDigit) :
    parseU16Hex [a.byte, b.byte, c.byte, d.byte] =
      some (((a.value * 16 + b.value) * 16 + c.value) * 16 + d.value) := by
  have := a.value_lt
  have := b.value_lt
  have := c.value_lt
  have := d.value_lt
  have step : ∀ (digit : HexDigit) (n : Nat) (rest : List Nat),
      n * 16 + digit.value < 0x10000 →
        readDigits 16 0x10000 n (digit.byte.toNat :: rest) =
          readDigits 16 0x10000 (n * 16 + digit.value) rest := by
    intro digit n rest small
    rw [readDigits, digit.digit]
    exact if_pos small
  change readDigits 16 0x10000 0 (if a.byte.toNat = 43 then _ else
    [a.byte.toNat, b.byte.toNat, c.byte.toNat, d.byte.toNat]) = _
  rw [if_neg a.ne_plus, step a 0 _ (by omega), step b _ _ (by omega),
    step c _ _ (by omega), step d _ [] (by omega), Nat.zero_mul, Nat.zero_add]
  rfl

theorem getRange_append {before bytes : Bytes} :
    getRange (before ++ bytes ++ tail) before.length bytes.length =
      some bytes := by
  rw [getRange, if_pos, List.append_assoc, List.drop_left, List.take_left]
  rw [List.length_append, List.length_append]
  omega

/-- What stands for a unit of a `\u` escape. -/
def unitOf (a b c d : HexDigit) : Nat :=
  ((a.value * 16 + b.value) * 16 + c.value) * 16 + d.value

theorem unitOf_lt (a b c d : HexDigit) : unitOf a b c d < 0x10000 := by
  have := a.value_lt
  have := b.value_lt
  have := c.value_lt
  have := d.value_lt
  unfold unitOf
  omega

theorem hex_first (a b c d : HexDigit) :
    (getRange (a.byte :: b.byte :: c.byte :: d.byte :: tail) 0 4).bind
      parseU16Hex = some (unitOf a b c d) := by
  have range := @getRange_append tail [] [a.byte, b.byte, c.byte, d.byte]
  change getRange (a.byte :: b.byte :: c.byte :: d.byte :: tail) 0 4 = _ at range
  rw [range]
  exact parseU16Hex_digits a b c d

theorem unicodeEscape_of_not_high {a b c d : HexDigit}
    (plain : ¬ High (unitOf a b c d)) :
    unicodeEscape (a.byte :: b.byte :: c.byte :: d.byte :: tail) =
      .ok (pointUtf8 (unitOf a b c d), 4) := by
  rw [unicodeEscape, hex_first]
  exact if_neg plain

/-- Behind a high surrogate, the code wants `\u`. -/
theorem unicodeEscape_of_other {a b c d : HexDigit}
    (high : High (unitOf a b c d)) (other : tail.take 2 ≠ [92, 117]) :
    unicodeEscape (a.byte :: b.byte :: c.byte :: d.byte :: tail) = .err () := by
  have missing : getRange (a.byte :: b.byte :: c.byte :: d.byte :: tail) 4 2 ≠
      some [92, 117] := by
    rw [getRange]
    split
    · exact fun same => other (Option.some.inj same)
    · exact fun same => Option.some_ne_none _ same.symm
  rw [unicodeEscape, hex_first]
  exact (if_pos high).trans (if_neg missing)

theorem unicodeEscape_of_high {a b c d e f g h : HexDigit}
    (high : High (unitOf a b c d)) :
    unicodeEscape (a.byte :: b.byte :: c.byte :: d.byte :: 92 :: 117 ::
      e.byte :: f.byte :: g.byte :: h.byte :: tail) =
      if unitOf e f g h < 0xdc00 then .panics
      else .ok (pointUtf8 (0x10000 + ((unitOf a b c d - 0xd800) <<< 10 |||
        (unitOf e f g h - 0xdc00))), 10) := by
  have letters := @getRange_append
    (e.byte :: f.byte :: g.byte :: h.byte :: tail)
    [a.byte, b.byte, c.byte, d.byte] [92, 117]
  have digits := @getRange_append tail
    [a.byte, b.byte, c.byte, d.byte, 92, 117] [e.byte, f.byte, g.byte, h.byte]
  have second : (getRange (a.byte :: b.byte :: c.byte :: d.byte :: 92 :: 117 ::
      e.byte :: f.byte :: g.byte :: h.byte :: tail) 6 4).bind parseU16Hex =
      some (unitOf e f g h) :=
    (congrArg (·.bind parseU16Hex) digits).trans (parseU16Hex_digits e f g h)
  rw [unicodeEscape, hex_first]
  refine (if_pos high).trans ((if_pos letters).trans ?_)
  rw [second]

/-- The two surrogates of a pair are put together. -/
theorem combine_eq {high low : Nat} (second : Low low) :
    0x10000 + ((high - 0xd800) <<< 10 ||| (low - 0xdc00)) =
      combine high low := by
  have := second.1
  have := second.2
  rw [← Nat.shiftLeft_add_eq_or_of_lt (by omega), Nat.shiftLeft_eq]
  rfl

theorem unescape_of_escape {rest bytes : Bytes} {used : Nat}
    (escaped : escape rest = .ok (bytes, used)) :
    unescape (92 :: rest) out = unescape (rest.drop used) (out ++ bytes) := by
  rw [unescape, if_neg (by decide), if_pos rfl, escaped]

theorem unescape_not_ok {rest : Bytes}
    (fails : ∀ result, escape rest ≠ .ok result) (chunk : Bytes) :
    unescape (92 :: rest) out ≠ .ok chunk := by
  rw [unescape, if_neg (by decide), if_pos rfl]
  cases escaped : escape rest with
  | ok result => exact absurd escaped (fails result)
  | err error => exact fun same => by cases same
  | panics => exact fun same => by cases same

theorem escape_unicode {rest bytes : Bytes} {used : Nat}
    (escaped : unicodeEscape rest = .ok (bytes, used)) :
    escape (117 :: rest) = .ok (bytes, used + 1) := by
  rw [escape, escaped]
  rfl

theorem escape_not_ok {rest : Bytes}
    (fails : ∀ result, unicodeEscape rest ≠ .ok result)
    (result : Bytes × Nat) : escape (117 :: rest) ≠ .ok result := by
  rw [escape]
  cases escaped : unicodeEscape rest with
  | ok result => exact absurd escaped (fails result)
  | err error => exact fun same => by cases same
  | panics => exact fun same => by cases same

def Token.EscapedHigh (token : Token) : Prop :=
  ∃ a b c d, token = .unicode a b c d ∧ High (unitOf a b c d)

theorem unescape_token {token : Token} (plain : ¬ token.EscapedHigh) :
    unescape (token.bytes ++ tail) out =
        unescape tail (out ++ toUtf8 token.units) ∧
      ∀ rest, toUtf8 (token.units ++ rest) =
          toUtf8 token.units ++ toUtf8 rest ∧
        (Paired (token.units ++ rest) ↔ Paired rest) := by
  cases token with
  | raw c character =>
      have alone := (toUtf8_ofChar c []).1
      rw [List.append_nil, toUtf8, List.append_nil] at alone
      simp only [Token.bytes, Token.units]
      rw [alone]
      exact ⟨unescape_plain (raw_bytes character), toUtf8_ofChar c⟩
  | short letter unit known =>
      obtain ⟨escaped, -, utf8, ascii⟩ := shortEscape_of_mem known
      have plain : ¬ High unit.toNat := fun high => by
        have := high.1
        omega
      have point : pointUtf8 unit.toNat = [unit] := by
        rw [pointUtf8, if_pos (.inl (by omega)), utf8]
      have used : escape (letter :: tail) = .ok ([unit], 1) := by
        rw [escape, escaped]
      refine ⟨(unescape_of_escape used).trans ?_, fun rest => ⟨?_, ?_⟩⟩
      · simp only [Token.units, toUtf8, point]
        rfl
      · exact toUtf8_of_not_high plain rest
      · exact paired_of_not_high plain rest
  | unicode a b c d =>
      have plain : ¬ High (unitOf a b c d) := fun high =>
        plain ⟨a, b, c, d, rfl, high⟩
      have used := escape_unicode (@unicodeEscape_of_not_high tail a b c d plain)
      refine ⟨(unescape_of_escape used).trans rfl, fun rest => ⟨?_, ?_⟩⟩
      · exact toUtf8_of_not_high plain rest
      · exact paired_of_not_high plain rest

/-- A token of another kind neither begins with `\u` nor with a low
surrogate. -/
theorem take_two_of_other {token : Token}
    (other : ∀ a b c d, token ≠ .unicode a b c d) :
    (token.bytes ++ tail).take 2 ≠ [92, 117] ∧
      ∃ unit units, token.units = unit :: units ∧ ¬ Low unit := by
  cases token with
  | raw c plain =>
      obtain ⟨byte, more, bytes⟩ := List.exists_cons_of_length_pos
        (String.length_utf8EncodeChar c ▸ c.utf8Size_pos)
      have first := (raw_bytes plain byte (bytes ▸ List.mem_cons_self)).2
      have valid : c.toNat < 0xd800 ∨ 0xdfff < c.toNat ∧ c.toNat < 0x110000 :=
        c.valid
      constructor
      · rw [Token.bytes, bytes]
        exact fun same => first (List.cons.inj same).1
      · rw [Token.units, ofChar]
        split
        · refine ⟨c.toNat, [], rfl, fun low => ?_⟩
          have := low.1
          have := low.2
          omega
        · refine ⟨_, _, rfl, fun low => ?_⟩
          have := low.1
          omega
  | short letter unit known =>
      obtain ⟨-, letterNe, -, ascii⟩ := shortEscape_of_mem known
      refine ⟨fun same => letterNe ?_, unit.toNat, [], rfl, fun low => ?_⟩
      · cases same
        rfl
      · have := low.1
        omega
  | unicode a b c d => exact absurd rfl (other a b c d)

/-- A string without lone high surrogates is unescaped to its UTF-8. Of any
other one, something is lost. -/
def Unescapes (tokens : List Token) (after out : Bytes) : Prop :=
  (Paired (stringOf tokens) → unescape (textOf tokens ++ 34 :: after) out =
    .ok (out ++ toUtf8 (stringOf tokens))) ∧
  (¬ Paired (stringOf tokens) →
    ∀ chunk, unescape (textOf tokens ++ 34 :: after) out = .ok chunk →
      chunk.length < out.length + (toUtf8 (stringOf tokens)).length)

section

variable {tokens rest : List Token} {after : Bytes} {a b c d : HexDigit}

theorem textOf_cons (token : Token) : textOf (token :: rest) ++ tail =
    token.bytes ++ (textOf rest ++ tail) := by
  rw [textOf, List.flatMap_cons, List.append_assoc]
  rfl

theorem stringOf_cons (token : Token) :
    stringOf (token :: rest) = token.units ++ stringOf rest :=
  List.flatMap_cons

theorem Unescapes.of_token {token : Token} (plain : ¬ token.EscapedHigh)
    (next : Unescapes rest after (out ++ toUtf8 token.units)) :
    Unescapes (token :: rest) after out := by
  obtain ⟨step, utf8⟩ := @unescape_token (textOf rest ++ 34 :: after) out token
    plain
  rw [Unescapes, List.append_assoc, List.length_append] at next
  rw [Unescapes, textOf_cons, stringOf_cons, step, (utf8 (stringOf rest)).1,
    (utf8 (stringOf rest)).2, List.length_append]
  refine ⟨next.1, fun lone chunk same => ?_⟩
  have := next.2 lone chunk same
  omega

/-- Where the escape of a high surrogate is refused, the string has none. -/
theorem Unescapes.of_refused
    (lone : ¬ Paired (unitOf a b c d :: stringOf rest))
    (refused : ∀ result, unicodeEscape (a.byte :: b.byte :: c.byte :: d.byte ::
      (textOf rest ++ 34 :: after)) ≠ .ok result) :
    Unescapes (.unicode a b c d :: rest) after out := by
  refine ⟨fun paired => absurd paired lone, fun _ chunk same => ?_⟩
  rw [textOf_cons] at same
  exact absurd same (unescape_not_ok (escape_not_ok refused) chunk)

theorem Unescapes.of_high (high : High (unitOf a b c d))
    (next : ∀ second others, rest = second :: others →
      ∀ out, Unescapes others after out) :
    Unescapes (.unicode a b c d :: rest) after out := by
  cases rest with
  | nil =>
      refine .of_refused (not_not.mpr high) fun result same => ?_
      have quote : ((34 : UInt8) :: after).take 2 ≠ [92, 117] := fun same => by
        cases same
      have refused := @unicodeEscape_of_other (34 :: after) a b c d high quote
      cases refused.symm.trans same
  | cons second others =>
      by_cases other : ∀ e f g h, second ≠ .unicode e f g h
      · obtain ⟨letters, unit, units, first, notLow⟩ :=
          @take_two_of_other (textOf others ++ 34 :: after) second other
        refine .of_refused ?_ fun result same => ?_
        · rw [stringOf_cons, first]
          exact fun paired => notLow (paired.1 high)
        · rw [textOf_cons, unicodeEscape_of_other high letters] at same
          cases same
      · obtain ⟨e, f, g, h, rfl⟩ : ∃ e f g h, second = .unicode e f g h := by
          simpa using other
        have next := next _ others rfl (out ++ pointUtf8 (0x10000 +
          ((unitOf a b c d - 0xd800) <<< 10 ||| (unitOf e f g h - 0xdc00))))
        have escaped := @unicodeEscape_of_high (textOf others ++ 34 :: after)
          a b c d e f g h high
        obtain below | above := Nat.lt_or_ge (unitOf e f g h) 0xdc00
        · rw [if_pos below] at escaped
          refine .of_refused ?_ fun result same => ?_
          · refine fun paired => ?_
            have low : Low (unitOf e f g h) := paired.1 high
            have := low.1
            omega
          · cases escaped.symm.trans same
        · rw [if_neg (by omega)] at escaped
          have step : unescape (textOf (.unicode a b c d ::
              .unicode e f g h :: others) ++ 34 :: after) out =
              unescape (textOf others ++ 34 :: after) (out ++ pointUtf8 (0x10000 +
                ((unitOf a b c d - 0xd800) <<< 10 |||
                  (unitOf e f g h - 0xdc00)))) := by
            rw [textOf_cons]
            exact unescape_of_escape (escape_unicode escaped)
          rw [Unescapes, step]
          change (Paired (unitOf a b c d :: unitOf e f g h :: stringOf others) →
            _ = Fallible.ok (out ++ toUtf8 (unitOf a b c d ::
              unitOf e f g h :: stringOf others))) ∧
            (¬ Paired (unitOf a b c d :: unitOf e f g h :: stringOf others) →
              ∀ chunk, _ → _ < out.length + (toUtf8 (unitOf a b c d ::
                unitOf e f g h :: stringOf others)).length)
          rw [Unescapes, List.append_assoc, List.length_append] at next
          obtain low | large := Nat.lt_or_ge (unitOf e f g h) 0xe000
          · have low : Low (unitOf e f g h) := ⟨above, low⟩
            rw [combine_eq low] at next ⊢
            rw [toUtf8_of_pair high low, paired_of_pair low, List.length_append]
            refine ⟨next.1, fun lone chunk same => ?_⟩
            have := next.2 lone chunk same
            omega
          · have apart : ¬ Low (unitOf e f g h) := fun low => by
              have := low.2
              omega
            have plain : ¬ High (unitOf e f g h) := fun high => by
              have := high.2
              omega
            refine ⟨fun paired => absurd (paired.1 high) apart, ?_⟩
            intro _ chunk same
            have small := (length_pointUtf8 (0x10000 +
              ((unitOf a b c d - 0xd800) <<< 10 |||
                (unitOf e f g h - 0xdc00)))).2
            have first := length_pointUtf8_of_large
              (show 0x800 ≤ unitOf a b c d from Nat.le_trans (by decide) high.1)
              (unitOf_lt a b c d)
            have second := length_pointUtf8_of_large
              (show 0x800 ≤ unitOf e f g h from Nat.le_trans (by decide) large)
              (unitOf_lt e f g h)
            rw [toUtf8, if_neg (fun both => apart both.2),
              toUtf8_of_not_high plain, List.length_append,
              List.length_append, first, second]
            by_cases paired : Paired (stringOf others)
            · rw [next.1 paired] at same
              cases same
              rw [List.length_append, List.length_append]
              omega
            · have := next.2 paired chunk same
              omega

end

theorem unescape_text (tokens : List Token) (after : Bytes) :
    Unescapes tokens after out := by
  -- By the number of tokens: a pair of escapes takes two of them.
  induction count : tokens.length using Nat.strong_induction_on
    generalizing tokens out with
  | _ count induction =>
      cases tokens with
      | nil =>
          refine ⟨fun _ => ?_, fun lone => absurd trivial lone⟩
          rw [textOf, List.flatMap_nil, List.nil_append, unescape, if_pos rfl]
          exact congrArg _ (List.append_nil out).symm
      | cons token rest =>
          by_cases escaped : token.EscapedHigh
          · obtain ⟨a, b, c, d, rfl, high⟩ := escaped
            refine .of_high high fun second others same out => ?_
            refine induction others.length ?_ others rfl
            rw [← count, same]
            exact Nat.lt_succ_of_lt (Nat.lt_succ_self _)
          · refine .of_token escaped (induction rest.length ?_ rest rfl)
            exact count ▸ Nat.lt_succ_self _

end

end Sismo.V8
