import Mathlib.Data.Nat.ModEq
import Mathlib.Tactic.Ring

namespace Sismo

/-! Unsigned machine words as natural numbers, and offsets into a ring. -/

def u64 (n : Nat) : Nat :=
  n % 2 ^ 64

def u32 (n : Nat) : Nat :=
  n % 2 ^ 32

def wrappingSub (a b : Nat) : Nat :=
  u64 (a + 2 ^ 64 - b)

/-- A signed offset, sign-extended, added to a word. -/
def wrappingAddSigned (a : Nat) (offset : Int) : Nat :=
  ((a + offset) % 2 ^ 64).toNat

def alignUp (n a : Nat) : Nat :=
  (n + a - 1) / a * a

theorem u64_lt (n : Nat) : u64 n < 2 ^ 64 :=
  Nat.mod_lt _ (Nat.two_pow_pos 64)

theorem u64_of_lt {n : Nat} (fits : n < 2 ^ 64) : u64 n = n :=
  Nat.mod_eq_of_lt fits

theorem u64_add (a b : Nat) : u64 (u64 a + b) = u64 (a + b) := by
  simp [u64]

/-- The wrapped difference of two free-running positions is their distance. -/
theorem wrappingSub_u64 {a b : Nat} (le : b ≤ a) (near : a - b < 2 ^ 64)
    (fits : b < 2 ^ 64) : wrappingSub (u64 a) b = a - b := by
  simp only [wrappingSub, u64]
  omega

theorem le_alignUp (n : Nat) {a : Nat} (pos : 0 < a) : n ≤ alignUp n a := by
  rw [alignUp]
  have := Nat.div_add_mod (n + a - 1) a
  have := Nat.mod_lt (n + a - 1) pos
  rw [Nat.mul_comm]
  omega

theorem mod_of_u64 {size : Nat} (divides : size ∣ 2 ^ 64) (n : Nat) :
    u64 n % size = n % size :=
  Nat.mod_mod_of_dvd n divides

/-- Different positions of one window of the ring's size have different
offsets. -/
theorem offset_ne {size a b : Nat} (low : Nat) (lowA : low ≤ a)
    (highA : a < low + size) (lowB : low ≤ b) (highB : b < low + size)
    (distinct : a ≠ b) : a % size ≠ b % size := by
  intro same
  rcases Nat.lt_or_gt_of_ne distinct with less | greater
  · have divides := (Nat.modEq_iff_dvd' less.le).mp same
    have := Nat.le_of_dvd (by omega) divides
    omega
  · have divides := (Nat.modEq_iff_dvd' greater.le).mp same.symm
    have := Nat.le_of_dvd (by omega) divides
    omega

theorem land_mask {size exponent : Nat} (power : size = 2 ^ exponent)
    (n : Nat) : n &&& (size - 1) = n % size := by
  subst power
  exact Nat.and_two_pow_sub_one_eq_mod n exponent

end Sismo
