import Mathlib.Data.Nat.ModEq
import Mathlib.Logic.Function.Basic

namespace Sismo.Mixing

/-! Mixers of words that lose nothing: shifts folded in, odd factors, and
counters that step by an odd constant. -/

variable {w : Nat}

theorem eq_zero_of_eq_ushiftRight {z : BitVec w} {k : Nat} (pos : 0 < k)
    (same : z = z >>> k) : z = 0#w := by
  have shifted : z.toNat = z.toNat / 2 ^ k := by
    rw [← Nat.shiftRight_eq_div_pow, ← BitVec.toNat_ushiftRight, ← same]
  have small : z.toNat = 0 := by
    by_contra positive
    have less : z.toNat / 2 ^ k < z.toNat :=
      Nat.div_lt_self (Nat.pos_of_ne_zero positive)
        (Nat.one_lt_two_pow (Nat.ne_of_gt pos))
    omega
  exact BitVec.eq_of_toNat_eq (small.trans BitVec.toNat_zero.symm)

theorem xor_ushiftRight_injective {k : Nat} (pos : 0 < k) :
    Function.Injective fun z : BitVec w => z ^^^ (z >>> k) := by
  intro x y same
  have difference : x ^^^ y = (x ^^^ y) >>> k := by
    rw [BitVec.ushiftRight_xor_distrib]
    calc x ^^^ y
        = (x ^^^ (x >>> k)) ^^^ (x >>> k) ^^^ y := by
          rw [BitVec.xor_assoc x, BitVec.xor_self, BitVec.xor_zero]
      _ = (y ^^^ (y >>> k)) ^^^ (x >>> k) ^^^ y := by
          rw [show x ^^^ (x >>> k) = y ^^^ (y >>> k) from same]
      _ = (x >>> k) ^^^ (y >>> k) := by
          rw [BitVec.xor_comm y, BitVec.xor_assoc, BitVec.xor_assoc,
            BitVec.xor_comm y, BitVec.xor_assoc, BitVec.xor_self,
            BitVec.xor_zero, BitVec.xor_comm]
  have zero := eq_zero_of_eq_ushiftRight pos difference
  exact BitVec.xor_eq_zero_iff.mp zero

theorem mul_injective (c inverse : BitVec w) (unit : c * inverse = 1#w) :
    Function.Injective fun z : BitVec w => z * c := by
  intro x y same
  have scaled : x * c * inverse = y * c * inverse :=
    congrArg (· * inverse) same
  rwa [BitVec.mul_assoc, BitVec.mul_assoc, unit, BitVec.mul_one,
    BitVec.mul_one] at scaled

/-- A counter with an odd step comes back only after all words. -/
theorem counter_injective {seed : BitVec w} (c inverse : BitVec w)
    (unit : c * inverse = 1#w) {m n : Nat} (firstFits : m < 2 ^ w)
    (secondFits : n < 2 ^ w)
    (same : seed + BitVec.ofNat w m * c = seed + BitVec.ofNat w n * c) :
    m = n := by
  have counts : BitVec.ofNat w m = BitVec.ofNat w n :=
    mul_injective c inverse unit ((BitVec.add_right_inj seed).mp same)
  have values := congrArg BitVec.toNat counts
  rwa [BitVec.toNat_ofNat, BitVec.toNat_ofNat, Nat.mod_eq_of_lt firstFits,
    Nat.mod_eq_of_lt secondFits] at values

end Sismo.Mixing
