import Mathlib.Data.List.Sort
import Sismo.Elf.File
import Sismo.Lib.Ranges

namespace Sismo.Symbolize

/-! The addresses that the unwind tables of a file describe. -/

open Elf (saturatingAdd)

/-- An entry of `.eh_frame`: of an FDE its initial address and length, if it
can be parsed. -/
inductive CieOrFde where
  | cie
  | fde (parsed : Option (Nat × Nat))
  deriving DecidableEq, Repr

structure FdeCoverage where
  ranges : List (Nat × Nat)
  deriving DecidableEq, Repr

namespace FdeCoverage

def StartsFirst (r s : Nat × Nat) : Prop := r.1 ≤ s.1

instance : DecidableRel StartsFirst := fun r s =>
  inferInstanceAs (Decidable (r.1 ≤ s.1))

/-- The range of an entry, cut at the end of the address space. -/
def entryRange : CieOrFde → Option (Nat × Nat)
  | .fde (some (start, len)) => some (start, saturatingAdd start len)
  | _ => none

/-- The coverage by the entries before the first that is in error; none of
them without the section. -/
def fromObject (entries : Option (List CieOrFde)) : FdeCoverage :=
  ⟨((entries.getD []).filterMap entryRange).insertionSort StartsFirst⟩

def covers (c : FdeCoverage) (svma : Nat) : Bool :=
  match partitionPoint (fun r => decide (r.1 ≤ svma)) c.ranges with
  | 0 => false
  | j + 1 => c.ranges[j]?.any fun r => decide (svma < r.2)

/-- `covers` says whether an address is in some range. -/
def Exact (c : FdeCoverage) : Prop :=
  ∀ svma, c.covers svma = true ↔ ∃ r ∈ c.ranges, Ranges.Contains r svma

end FdeCoverage

end Sismo.Symbolize
