import Sismo.Lib.Bisect
import Sismo.Lib.HashMap
import Sismo.Lib.Word

namespace Sismo.Unwind

/-! The row, page and mapping formats the loader and the kernel walker share,
and the kernel's lookups in them. -/

def maxRows : Nat := 2 * 1024 * 1024

def maxPages : Nat := 65536

def maxMappings : Nat := 4096

inductive CfaType where
  | rbp | rsp | unsupExp | plt1 | plt2 | derefAndAdd | endOfFdeMarker
  | unsupRegisterOffset | offsetDidNotFit
  | other (code : Nat)
  deriving DecidableEq, Repr

inductive RbpType where
  | unchanged | offset | register | expression | undefinedReturnAddress
  | offsetDidNotFit
  | other (code : Nat)
  deriving DecidableEq, Repr

/-- A row as the converter emits it, with its full object-relative pc. -/
structure CompactUnwindRow where
  pc : Nat
  cfaType : CfaType := .rsp
  rbpType : RbpType := .unchanged
  cfaOffset : Nat := 8
  rbpOffset : Int := 0
  deriving DecidableEq, Repr

structure StackUnwindRow where
  pcLow : Nat := 0
  pcLow_lt : pcLow < 2 ^ 16 := by decide
  cfaType : CfaType := .other 0
  rbpType : RbpType := .unchanged
  cfaOffset : Nat := 0
  rbpOffset : Int := 0
  deriving DecidableEq, Repr

/-- A row as a new table has it. -/
def StackUnwindRow.zeroed : StackUnwindRow := {}

def highPc (addr : Nat) : Nat :=
  addr &&& 0x0000FFFFFFFF0000

def lowPc (addr : Nat) : Nat :=
  addr &&& 0x000000000000FFFF

def pageSize : Nat := 2 ^ 16

def previousPage (address : Nat) : Nat :=
  wrappingSub address pageSize

theorem lowPc_eq (addr : Nat) : lowPc addr = addr % pageSize :=
  Nat.and_two_pow_sub_one_eq_mod addr 16

theorem lowPc_lt (addr : Nat) : lowPc addr < 2 ^ 16 := by
  rw [lowPc_eq]
  exact Nat.mod_lt addr (Nat.two_pow_pos 16)

def CompactUnwindRow.wire (row : CompactUnwindRow) : StackUnwindRow where
  pcLow := lowPc row.pc
  pcLow_lt := lowPc_lt row.pc
  cfaType := row.cfaType
  rbpType := row.rbpType
  cfaOffset := row.cfaOffset
  rbpOffset := row.rbpOffset

structure PageKey where
  executableId : Nat
  fileOffset : Nat
  deriving DecidableEq, Repr

/-- A range of the flat array; the high index is exclusive. -/
structure PageValue where
  lowIndex : Nat
  highIndex : Nat
  deriving DecidableEq, Repr

inductive MappingType where
  | file | anon | vdso
  deriving DecidableEq, Repr

structure Mapping where
  executableId : Nat
  loadAddress : Nat
  begin : Nat
  end_ : Nat
  type : MappingType
  deriving DecidableEq, Repr

/-- An LPM trie key: the prefix length and the bits it covers, the process id
and below it the leading bits of the address. -/
structure ExecMappingsKey where
  prefixLen : Nat
  pid : Nat
  data : Nat
  deriving DecidableEq, Repr

def ExecMappingsKey.new (pid address prefixLen : Nat) : ExecMappingsKey where
  prefixLen := prefixLen
  pid := pid
  data := address / 2 ^ (96 - prefixLen)

structure Maps where
  rows : Nat → StackUnwindRow := fun _ => .zeroed
  pages : HashMap PageKey PageValue := ∅
  execMappings : HashMap ExecMappingsKey Mapping := ∅

namespace Maps

def row (maps : Maps) (index : Nat) : Option StackUnwindRow :=
  if index < maxRows then some (maps.rows index) else none

/-- The value of the longest prefix of the address that has an entry. -/
def unwindFindMapping (maps : Maps) (pid pc : Nat) : Option Mapping :=
  (List.range 65).reverse.findSome? fun length =>
    maps.execMappings.lookup (.new pid pc (32 + length))

def maxBinarySearchDepth : Nat := 17

/-- The last row of the range whose low pc bits are not above the given ones.
Row indices stay far below 2³¹, so that their u32 sum does not wrap. -/
def unwindSearch (maps : Maps) (pcLow left right : Nat) : Option Nat :=
  bisectLast (fun mid => (maps.row mid).map fun row => row.pcLow ≤ pcLow)
    maxBinarySearchDepth none left right

inductive RowLookup where
  | noPage
  | notFound
  | found (index : Nat)
  deriving DecidableEq, Repr

def lookupRow (maps : Maps) (mapping : Mapping) (ip : Nat) : RowLookup :=
  let objectRelativePc := wrappingSub ip mapping.loadAddress
  let objectRelativePcHigh := highPc objectRelativePc
  let objectRelativePcLow := lowPc objectRelativePc
  match maps.pages.lookup ⟨mapping.executableId, objectRelativePcHigh⟩ with
  | none => .noPage
  | some page =>
      match maps.unwindSearch objectRelativePcLow page.lowIndex
          page.highIndex with
      | some index => .found index
      | none =>
          -- The pc may precede this page's first row: the covering row is then
          -- the last row of the range just below.
          if page.lowIndex = 0 then .notFound
          else
            match maps.row (page.lowIndex - 1) with
            | none => .notFound
            | some previousRow =>
                if u64 (previousPage objectRelativePcHigh + previousRow.pcLow) <
                    objectRelativePc
                then .found (page.lowIndex - 1)
                else .notFound

end Maps

theorem highPc_eq {addr : Nat} (fits : addr < 2 ^ 48) :
    highPc addr = addr / pageSize * pageSize := by
  have mask : 0x0000FFFFFFFF0000 = (2 ^ 32 - 1) <<< 16 := by decide
  rw [highPc, mask, pageSize, ← Nat.shiftRight_eq_div_pow,
    ← Nat.shiftLeft_eq]
  apply Nat.eq_of_testBit_eq
  intro i
  rw [Nat.testBit_and, Nat.testBit_shiftLeft, Nat.testBit_shiftLeft,
    Nat.testBit_two_pow_sub_one, Nat.testBit_shiftRight]
  by_cases low : 16 ≤ i
  · simp only [low, decide_true, Bool.true_and,
      Nat.add_sub_cancel' low]
    by_cases high : i - 16 < 32
    · simp [high]
    · have zero : addr.testBit i = false := by
        apply Nat.testBit_lt_two_pow
        exact lt_of_lt_of_le fits (Nat.pow_le_pow_right (by decide) (by omega))
      simp [zero]
  · simp [low]

end Sismo.Unwind
