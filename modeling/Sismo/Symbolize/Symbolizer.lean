import Mathlib.Algebra.Order.Ring.Nat
import Mathlib.Data.List.MinMax

namespace Sismo.Symbolize

/-! The symbolizer over modules that have names-only sources. -/

/-- A source of names: the name of the symbol at an address relative to the
module, and the offset in it. None outside where the code panics. -/
abbrev SymbolSource := Nat → Option (Option (String × Nat))

def firstAnswer : List SymbolSource → SymbolSource
  | [], _ => some none
  | source :: rest, rel =>
      match source rel with
      | none => none
      | some none => firstAnswer rest rel
      | some (some answer) => some (some answer)

structure SymModule where
  baseAvma : Nat
  endAvma : Nat
  fallbacks : List SymbolSource

def resolve (modules : List SymModule) (avma : Nat) :
    Option (Option (String × Nat)) :=
  match modules.find? fun m => m.baseAvma ≤ avma ∧ avma < m.endAvma with
  | none => some none
  | some m => firstAnswer m.fallbacks (avma - m.baseAvma)

def endOf (addresses : List Nat) (default : Nat) : Nat :=
  min (addresses.max?.getD default + 1) (2 ^ 64 - 1)

/-- A sampled address is in the range, unless it is the last word. -/
theorem lt_endOf {addresses : List Nat} {default address : Nat}
    (member : address ∈ addresses) :
    address < endOf addresses default ↔ address < 2 ^ 64 - 1 := by
  have le : address ≤ addresses.max?.getD default := by
    obtain ⟨greatest, found⟩ := Option.isSome_iff_exists.mp
      (List.isSome_max?_of_mem member)
    rw [found]
    exact (List.max?_eq_some_iff.mp found).2 address member
  rw [endOf]
  omega

theorem resolve_single {m : SymModule} {avma : Nat}
    (above : m.baseAvma ≤ avma) :
    resolve [m] avma =
      if avma < m.endAvma then firstAnswer m.fallbacks (avma - m.baseAvma)
      else some none := by
  rw [resolve, List.find?_singleton]
  by_cases inside : avma < m.endAvma
  · rw [if_pos inside, if_pos (by simp [above, inside])]
  · rw [if_neg inside, if_neg (by simp [inside])]

end Sismo.Symbolize
