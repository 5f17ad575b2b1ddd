import Mathlib.Algebra.Order.Ring.Nat

namespace Sismo

/-! Numbers as byte strings, lowest byte first, and as bit strings, highest bit
first. -/

/-- The number a byte string spells. -/
def leValue : List UInt8 → Nat
  | [] => 0
  | b :: rest => b.toNat + 256 * leValue rest

/-- The `n` lowest bytes of a number. -/
def leBytes : Nat → Nat → List UInt8
  | 0, _ => []
  | n + 1, value => UInt8.ofNat value :: leBytes n (value / 256)

/-- The word of `n` bytes with its bytes in the other order. -/
def swapBytes (n value : Nat) : Nat :=
  leValue (leBytes n value).reverse

theorem length_leBytes (n value : Nat) : (leBytes n value).length = n := by
  induction n generalizing value with
  | zero => rfl
  | succ n induction => rw [leBytes, List.length_cons, induction]

theorem leBytes_leValue (bytes : List UInt8) :
    leBytes bytes.length (leValue bytes) = bytes := by
  induction bytes with
  | nil => rfl
  | cons b rest induction =>
      have small := b.toNat_lt
      have low : UInt8.ofNat (b.toNat + 256 * leValue rest) = b := by
        apply UInt8.toNat_inj.mp
        rw [UInt8.toNat_ofNat']
        omega
      have high : (b.toNat + 256 * leValue rest) / 256 = leValue rest := by
        omega
      rw [List.length_cons, leBytes, leValue, low, high, induction]

theorem leValue_leBytes {n value : Nat} (small : value < 256 ^ n) :
    leValue (leBytes n value) = value := by
  induction n generalizing value with
  | zero => exact (Nat.lt_one_iff.mp small).symm
  | succ n induction =>
      rw [leBytes, leValue, induction]
      · exact Nat.mod_add_div value 256
      · rw [Nat.pow_succ] at small
        omega

theorem leBytes_swapBytes (n value : Nat) :
    leBytes n (swapBytes n value) = (leBytes n value).reverse := by
  have same := leBytes_leValue (leBytes n value).reverse
  rwa [List.length_reverse, length_leBytes] at same

theorem leValue_lt (bytes : List UInt8) :
    leValue bytes < 256 ^ bytes.length := by
  induction bytes with
  | nil => exact Nat.one_pos
  | cons b rest induction =>
      have small := b.toNat_lt
      rw [leValue, List.length_cons, Nat.pow_succ]
      omega

/-- Consecutive 64-bit words, as they lie in memory. -/
def leWords (words : List UInt64) : List UInt8 :=
  words.flatMap fun word => leBytes 8 word.toNat

theorem length_leWords (words : List UInt64) :
    (leWords words).length = 8 * words.length := by
  induction words with
  | nil => rfl
  | cons word words induction =>
      rw [leWords, List.flatMap_cons, List.length_append, length_leBytes,
        List.length_cons, ← leWords, induction, Nat.mul_succ, Nat.add_comm]

theorem leValue_word {words : List UInt64} {i : Nat} {word : UInt64}
    (found : words[i]? = some word) (rest : List UInt8) :
    leValue (((leWords words ++ rest).drop (8 * i)).take 8) =
      word.toNat := by
  induction words generalizing i with
  | nil => simp at found
  | cons first words induction =>
      rw [leWords, List.flatMap_cons, ← leWords, List.append_assoc]
      cases i with
      | zero =>
          cases found
          rw [Nat.mul_zero, List.drop_zero,
            List.take_left' (length_leBytes 8 _)]
          exact leValue_leBytes word.toNat_lt
      | succ i =>
          rw [Nat.mul_succ, Nat.add_comm, ← List.drop_drop,
            List.drop_left' (length_leBytes 8 _)]
          exact induction found

def wordBits : Nat → Nat → List Bool
  | 0, _ => []
  | width + 1, value => value.testBit width :: wordBits width value

theorem length_wordBits (width value : Nat) :
    (wordBits width value).length = width := by
  induction width with
  | zero => rfl
  | succ width induction => rw [wordBits, List.length_cons, induction]

theorem wordBits_eq_iff {width first second : Nat} :
    wordBits width first = wordBits width second ↔
      ∀ i < width, first.testBit i = second.testBit i := by
  induction width with
  | zero => simp [wordBits]
  | succ width induction =>
      rw [wordBits, wordBits, List.cons.injEq, induction]
      constructor
      · intro ⟨top, rest⟩ i below
        rcases Nat.lt_succ_iff_lt_or_eq.mp below with less | rfl
        · exact rest i less
        · exact top
      · intro all
        exact ⟨all width (Nat.lt_succ_self _),
          fun i below => all i (Nat.lt_succ_of_lt below)⟩

theorem wordBits_append (high low value : Nat) :
    wordBits (high + low) value =
      wordBits high (value / 2 ^ low) ++ wordBits low value := by
  induction high with
  | zero => rw [Nat.zero_add, wordBits, List.nil_append]
  | succ high induction =>
      rw [Nat.succ_add, wordBits, wordBits, induction, List.cons_append,
        Nat.testBit_div_two_pow, Nat.add_comm]

theorem take_wordBits {count width : Nat} (le : count ≤ width) (value : Nat) :
    (wordBits width value).take count =
      wordBits count (value / 2 ^ (width - count)) := by
  obtain ⟨low, rfl⟩ := Nat.exists_eq_add_of_le le
  rw [wordBits_append, Nat.add_sub_cancel_left]
  exact List.take_left' (length_wordBits count _)

theorem wordBits_injective {width first second : Nat}
    (firstFits : first < 2 ^ width) (secondFits : second < 2 ^ width)
    (same : wordBits width first = wordBits width second) :
    first = second := by
  apply Nat.eq_of_testBit_eq
  intro i
  rcases Nat.lt_or_ge i width with below | above
  · exact wordBits_eq_iff.mp same i below
  · have power := Nat.pow_le_pow_right Nat.two_pos above
    rw [Nat.testBit_lt_two_pow (firstFits.trans_le power),
      Nat.testBit_lt_two_pow (secondFits.trans_le power)]

def byteBits (b : UInt8) : List Bool :=
  wordBits 8 b.toNat

theorem flatMap_byteBits (n value : Nat) :
    (leBytes n value).reverse.flatMap byteBits = wordBits (8 * n) value := by
  induction n generalizing value with
  | zero => rfl
  | succ n induction =>
      have low : byteBits (UInt8.ofNat value) = wordBits 8 value := by
        apply wordBits_eq_iff.mpr
        intro i below
        rw [UInt8.toNat_ofNat']
        exact (Nat.testBit_mod_two_pow value 8 i).trans (by simp [below])
      have byte : 2 ^ 8 = 256 := rfl
      rw [leBytes, List.reverse_cons, List.flatMap_append, induction,
        Nat.mul_succ, wordBits_append, List.flatMap_singleton, low, byte]

end Sismo
