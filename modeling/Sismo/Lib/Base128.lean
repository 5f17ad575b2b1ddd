import Mathlib.Algebra.Order.Ring.Nat
import Mathlib.Data.List.Basic

namespace Sismo.Base128

/-! Base-128 numerals, least significant group first: seven bits of the number
in each byte, and the high bit set in every byte but the last. -/

inductive Numeral : List UInt8 → Nat → Prop
  | last {b : UInt8} : b.toNat < 128 → Numeral [b] b.toNat
  | more {b : UInt8} {rest : List UInt8} {n : Nat} : 128 ≤ b.toNat →
      Numeral rest n → Numeral (b :: rest) (b.toNat - 128 + 128 * n)

def minimal (n : Nat) : List UInt8 :=
  if n < 128 then [UInt8.ofNat n]
  else UInt8.ofNat (n % 128 + 128) :: minimal (n / 128)

/-- The numeral of `width + 1` bytes. -/
def padded : (width : Nat) → Nat → List UInt8
  | 0, n => [UInt8.ofNat n]
  | width + 1, n => UInt8.ofNat (n % 128 + 128) :: padded width (n / 128)

theorem minimal_of_lt {n : Nat} (small : n < 128) :
    minimal n = [UInt8.ofNat n] := by
  rw [minimal, if_pos small]

theorem minimal_of_le {n : Nat} (large : 128 ≤ n) :
    minimal n = UInt8.ofNat (n % 128 + 128) :: minimal (n / 128) := by
  rw [minimal, if_neg (Nat.not_lt.mpr large)]

theorem toNat_group {n : Nat} (small : n < 256) :
    (UInt8.ofNat n).toNat = n := by
  rw [UInt8.toNat_ofNat']
  exact Nat.mod_eq_of_lt small

theorem Numeral.step {rest : List UInt8} {n : Nat}
    (numeral : Numeral rest (n / 128)) :
    Numeral (UInt8.ofNat (n % 128 + 128) :: rest) n := by
  have group := toNat_group (show n % 128 + 128 < 256 by omega)
  have numeral := numeral.more (by omega :
    128 ≤ (UInt8.ofNat (n % 128 + 128)).toNat)
  rw [group] at numeral
  have same : n % 128 + 128 - 128 + 128 * (n / 128) = n := by omega
  rwa [same] at numeral

theorem Numeral.group {n : Nat} (small : n < 128) :
    Numeral [UInt8.ofNat n] n := by
  have group := toNat_group (show n < 256 by omega)
  have numeral : Numeral [UInt8.ofNat n] (UInt8.ofNat n).toNat :=
    .last (by omega)
  rwa [group] at numeral

theorem minimal_numeral (n : Nat) : Numeral (minimal n) n := by
  induction n using minimal.induct with
  | case1 n small =>
      rw [minimal_of_lt small]
      exact .group small
  | case2 n large induction =>
      rw [minimal_of_le (Nat.not_lt.mp large)]
      exact induction.step

theorem padded_numeral {width n : Nat} (fits : n < 128 ^ (width + 1)) :
    Numeral (padded width n) n := by
  induction width generalizing n with
  | zero => exact .group (by simpa using fits)
  | succ width induction =>
      apply Numeral.step
      apply induction
      rw [Nat.pow_succ] at fits
      exact Nat.div_lt_of_lt_mul (by omega)

theorem padded_length (width n : Nat) :
    (padded width n).length = width + 1 := by
  induction width generalizing n with
  | zero => rfl
  | succ width induction => exact congrArg Nat.succ (induction (n / 128))

theorem minimal_length {width n : Nat} (fits : n < 128 ^ (width + 1)) :
    (minimal n).length ≤ width + 1 := by
  induction width generalizing n with
  | zero => rw [minimal_of_lt (by simpa using fits)]; rfl
  | succ width induction =>
      by_cases small : n < 128
      · rw [minimal_of_lt small]
        exact Nat.le_add_left 1 _
      · rw [minimal_of_le (Nat.not_lt.mp small)]
        rw [Nat.pow_succ] at fits
        exact Nat.succ_le_succ (induction (Nat.div_lt_of_lt_mul (by omega)))

theorem Numeral.ne_nil {bytes : List UInt8} {n : Nat}
    (numeral : Numeral bytes n) : bytes ≠ [] := by
  cases numeral with
  | last _ => exact List.cons_ne_nil _ _
  | more _ _ => exact List.cons_ne_nil _ _

/-- A numeral ends at its first byte without the high bit. -/
theorem Numeral.unique {first second rest more : List UInt8} {n m : Nat}
    (read : Numeral first n) (read' : Numeral second m)
    (same : first ++ rest = second ++ more) : first = second ∧ n = m := by
  induction read generalizing second m with
  | last low =>
      cases read' with
      | last _ =>
          cases same
          exact ⟨rfl, rfl⟩
      | more high _ =>
          cases same
          omega
  | more high numeral induction =>
      cases read' with
      | last low =>
          cases same
          omega
      | more _ numeral' =>
          obtain ⟨rfl, tail⟩ := List.cons_eq_cons.mp same
          obtain ⟨rfl, rfl⟩ := induction numeral' tail
          exact ⟨rfl, rfl⟩

end Sismo.Base128
