import Mathlib.Data.List.Destutter

namespace Sismo

/-! Lines and words of a text, numbers in it, and lists without repeated
keys. -/

def words {α : Type*} (isSeparator : α → Bool) (text : List α) :
    List (List α) :=
  (text.splitOnP isSeparator).filter (!·.isEmpty)

/-- A text up to the first separator and behind it. -/
def splitOnce {α : Type*} [DecidableEq α] (separator : α) :
    List α → Option (List α × List α)
  | [] => none
  | c :: rest =>
      if c = separator then some ([], rest)
      else (splitOnce separator rest).map fun parts => (c :: parts.1, parts.2)

/-- The Unicode characters that separate words. -/
def isWhitespace (c : Char) : Bool :=
  let n := c.toNat
  (9 ≤ n ∧ n ≤ 13) ∨ n = 0x20 ∨ n = 0x85 ∨ n = 0xa0 ∨ n = 0x1680 ∨
    (0x2000 ≤ n ∧ n ≤ 0x200a) ∨ n = 0x2028 ∨ n = 0x2029 ∨ n = 0x202f ∨
    n = 0x205f ∨ n = 0x3000

/-- A line without the carriage return at its end. -/
def stripReturn (line : List Char) : List Char :=
  if line.getLast? = some '\r' then line.dropLast else line

/-- The lines of a text; the last one need not be ended, and then keeps a
carriage return. -/
def lines (text : List Char) : List (List Char) :=
  let pieces := text.splitOnP (· = '\n')
  pieces.dropLast.map stripReturn ++
    pieces.getLast?.toList.filter fun last => !last.isEmpty

def digitOf (radix code : Nat) : Option Nat :=
  let digit :=
    if 48 ≤ code ∧ code ≤ 57 then code - 48
    else if 97 ≤ code ∧ code ≤ 122 then code - 87
    else if 65 ≤ code ∧ code ≤ 90 then code - 55
    else radix
  if digit < radix then some digit else none

/-- The digits read onto a number, none where it reaches the bound. -/
def readDigits (radix bound : Nat) : Nat → List Nat → Option Nat
  | n, [] => some n
  | n, code :: rest =>
      match digitOf radix code with
      | none => none
      | some digit =>
          if n * radix + digit < bound then
            readDigits radix bound (n * radix + digit) rest
          else none

/-- An unsigned number below a bound, in a radix up to 36: digits, perhaps
after a plus sign. -/
def fromStrRadix (radix bound : Nat) (codes : List Nat) : Option Nat :=
  match codes with
  | [] => none
  | [code] => readDigits radix bound 0 [code]
  | code :: rest =>
      readDigits radix bound 0 (if code = 43 then rest else code :: rest)

theorem lines_ended {list : List (List Char)}
    (unbroken : ∀ line ∈ list, '\n' ∉ line) :
    lines (list.flatMap fun line => line ++ ['\n']) =
      list.map stripReturn := by
  have pieces : (list.flatMap fun line => line ++ ['\n']).splitOnP
      (· = '\n') = list ++ [[]] := by
    induction list with
    | nil => rfl
    | cons line rest induction =>
        rw [List.flatMap_cons, List.append_assoc, List.singleton_append,
          List.splitOnP_append_cons_of_forall_mem _ '\n' (by simp),
          induction fun other member =>
            unbroken other (List.mem_cons_of_mem line member),
          List.cons_append]
        intro c member
        simp only [decide_eq_false_iff_not]
        rintro rfl
        exact unbroken line List.mem_cons_self member
  rw [lines, pieces, List.getLast?_concat, List.dropLast_concat]
  exact List.append_nil _

theorem splitOnce_append {α : Type*} [DecidableEq α] {separator : α}
    {front : List α} (free : separator ∉ front) (rest : List α) :
    splitOnce separator (front ++ separator :: rest) = some (front, rest) := by
  induction front with
  | nil => exact if_pos rfl
  | cons c front induction =>
      rw [List.mem_cons, not_or] at free
      rw [List.cons_append, splitOnce, if_neg (Ne.symm free.1),
        induction free.2]
      rfl

theorem digitOf_digitChar :
    ∀ digit < 16, digitOf 16 (Nat.digitChar digit).toNat = some digit := by
  decide

theorem readDigits_concat (radix bound code : Nat) (codes : List Nat) :
    ∀ first, readDigits radix bound first (codes ++ [code]) =
      (readDigits radix bound first codes).bind fun n =>
        readDigits radix bound n [code] := by
  induction codes with
  | nil => exact fun first => rfl
  | cons other codes induction =>
      intro first
      rw [List.cons_append, readDigits, readDigits]
      split
      · rfl
      · split
        · exact induction _
        · rfl

theorem readDigits_toDigits {n bound : Nat} (small : n < bound) :
    readDigits 16 bound 0 ((Nat.toDigits 16 n).map Char.toNat) = some n := by
  induction n using Nat.strongRecOn with
  | ind n induction =>
      by_cases single : n < 16
      · rw [Nat.toDigits_of_lt_base single, List.map_singleton, readDigits,
          digitOf_digitChar n single]
        dsimp only
        rw [Nat.zero_mul, Nat.zero_add, if_pos small, readDigits]
      · rw [Nat.not_lt] at single
        have below : n / 16 < n := by omega
        rw [Nat.toDigits_of_base_le (by decide) single, List.map_append,
          List.map_singleton, readDigits_concat,
          induction (n / 16) below (Nat.lt_trans below small),
          Option.bind_some, readDigits,
          digitOf_digitChar (n % 16) (Nat.mod_lt n (by decide))]
        dsimp only
        have whole : n / 16 * 16 + n % 16 = n := by omega
        rw [whole, if_pos small, readDigits]

theorem exists_digitChar {n : Nat} {c : Char} (member : c ∈ Nat.toDigits 16 n) :
    ∃ digit < 16, c = Nat.digitChar digit := by
  induction n using Nat.strongRecOn with
  | ind n induction =>
      by_cases single : n < 16
      · rw [Nat.toDigits_of_lt_base single, List.mem_singleton] at member
        exact ⟨n, single, member⟩
      · rw [Nat.toDigits_of_base_le (by decide) (Nat.not_lt.mp single),
          List.mem_append, List.mem_singleton] at member
        rcases member with above | last
        · exact induction (n / 16) (by omega) above
        · exact ⟨n % 16, Nat.mod_lt n (by decide), last⟩

theorem fromStrRadix_toDigits {n bound : Nat} (small : n < bound) :
    fromStrRadix 16 bound ((Nat.toDigits 16 n).map Char.toNat) = some n := by
  have plain : ∀ code ∈ (Nat.toDigits 16 n).map Char.toNat, code ≠ 43 := by
    intro code member
    obtain ⟨c, inDigits, rfl⟩ := List.mem_map.mp member
    obtain ⟨digit, small, rfl⟩ := exists_digitChar inDigits
    have unsigned : ∀ digit < 16, (Nat.digitChar digit).toNat ≠ 43 := by
      decide
    exact unsigned digit small
  have read := readDigits_toDigits small
  unfold fromStrRadix
  split
  · next none => simp at none
  · next code single => rwa [single] at read
  · next code rest _ several =>
      rw [several] at read plain
      rwa [if_neg (plain code List.mem_cons_self)]

/-! A list of sorted keys, without the elements that repeat the key before. -/

variable {α : Type*} (key : α → Nat)

def dedupByKey (list : List α) : List α :=
  list.destutter fun first second => key first ≠ key second

variable {key} {list : List α}

theorem dedupByKey_sublist : List.Sublist (dedupByKey key list) list :=
  List.destutter_sublist _ list

theorem dedupByKey_sorted
    (sorted : list.Pairwise fun first second => key first ≤ key second) :
    (dedupByKey key list).Pairwise fun first second =>
      key first < key second := by
  have le := sorted.sublist (@dedupByKey_sublist α key list)
  have apart := List.isChain_destutter
    (fun first second : α => key first ≠ key second) list
  have less : (dedupByKey key list).IsChain
      fun first second => key first < key second := by
    rw [List.isChain_iff_getElem] at apart ⊢
    intro i within
    have ordered := List.pairwise_iff_getElem.mp le i (i + 1) (by omega)
      within (by omega)
    exact lt_of_le_of_ne ordered (apart i within)
  have : IsTrans α fun first second => key first < key second :=
    ⟨fun _ _ _ => lt_trans⟩
  exact List.isChain_iff_pairwise.mp less

theorem exists_mem_destutter' (last : α) {a : α}
    (member : a ∈ last :: list) :
    ∃ b ∈ list.destutter' (fun first second => key first ≠ key second) last,
      key b = key a := by
  induction list generalizing last a with
  | nil =>
      rw [List.mem_singleton] at member
      exact ⟨last, List.mem_destutter' _ _ _, member ▸ rfl⟩
  | cons c rest induction =>
      by_cases same : key last = key c
      · rw [List.destutter'_cons_neg _ (not_not.mpr same)]
        rcases List.mem_cons.mp member with rfl | later
        · exact induction _ List.mem_cons_self
        · rcases List.mem_cons.mp later with rfl | later
          · obtain ⟨b, present, equal⟩ := induction last List.mem_cons_self
            exact ⟨b, present, equal.trans same⟩
          · exact induction last (List.mem_cons_of_mem _ later)
      · rw [List.destutter'_cons_pos _ same]
        rcases List.mem_cons.mp member with rfl | later
        · exact ⟨a, List.mem_cons_self, rfl⟩
        · obtain ⟨b, present, equal⟩ := induction c later
          exact ⟨b, List.mem_cons_of_mem _ present, equal⟩

theorem exists_mem_dedupByKey {a : α} (member : a ∈ list) :
    ∃ b ∈ dedupByKey key list, key b = key a := by
  cases list with
  | nil => cases member
  | cons c rest => exact exists_mem_destutter' c member

end Sismo
