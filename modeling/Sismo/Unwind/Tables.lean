import Mathlib.Data.List.Dedup
import Mathlib.Logic.Function.Basic
import Sismo.Unwind.Format

namespace Sismo.Unwind

/-! The loader of the walker's maps. -/

/-- A page of one module's rows: its high pc bits and index range. -/
structure Page where
  address : Nat
  lowIndex : Nat
  highIndex : Nat
  deriving DecidableEq, Repr

def trailingZeros (n : Nat) : Nat :=
  ((List.range 64).find? (n.testBit ·)).getD 64

def blockBits (curr high : Nat) : Nat :=
  min (trailingZeros curr) (Nat.log2 (high - curr + 1))

/-- The range as power-of-two aligned blocks, each with its prefix length. -/
def summarizeAddressRange (low high : Nat) : List (Nat × Nat) :=
  if low ≤ high then
    (low, 64 - blockBits low high) ::
      summarizeAddressRange (low + 2 ^ blockBits low high) high
  else []
termination_by high + 1 - low
decreasing_by
  have := Nat.two_pow_pos (blockBits low high)
  omega

theorem summarizeAddressRange_block {low : Nat} (bits : Nat)
    (aligned : blockBits low (low + 2 ^ bits - 1) = bits) :
    summarizeAddressRange low (low + 2 ^ bits - 1) = [(low, 64 - bits)] := by
  have := Nat.two_pow_pos bits
  rw [summarizeAddressRange, if_pos (by omega), aligned, summarizeAddressRange,
    if_neg (by omega)]

/-- `bpf_map_update_elem`: a new key is refused when the map is full. -/
def updateElem {κ α : Type} [DecidableEq κ] (maxEntries : Nat)
    (map : HashMap κ α) (key : κ) (value : α) : Option (HashMap κ α) :=
  if (map.lookup key).isSome ∨ map.keys.length < maxEntries then
    some (map.insert key value)
  else none

structure UnwindTables where
  maps : Maps := {}
  nextRow : Nat := 0
  targetPid : Nat
  loaded : List Nat := []
  modulesLoaded : Nat := 0
  rowsLoaded : Nat := 0

structure Install where
  executableId : Nat
  loadAddress : Nat
  rows : List CompactUnwindRow
  ranges : List (Nat × Nat)
  mappingType : MappingType
  deriving DecidableEq, Repr

def writeRows (rows : Nat → StackUnwindRow) (start : Nat) :
    List CompactUnwindRow → Nat → StackUnwindRow
  | [] => rows
  | row :: rest =>
      writeRows (Function.update rows start row.wire) (start + 1) rest

/-- The entries are inserted one by one up to the first that is refused. -/
def updateAll {κ α : Type} [DecidableEq κ] (maxEntries : Nat) :
    HashMap κ α → List (κ × α) → HashMap κ α × Bool
  | map, [] => (map, true)
  | map, (key, value) :: rest =>
      match updateElem maxEntries map key value with
      | none => (map, false)
      | some next => updateAll maxEntries next rest

def Install.pageEntries (install : Install) (pages : List Page)
    (start : Nat) : List (PageKey × PageValue) :=
  pages.map fun page =>
    (⟨install.executableId, page.address⟩,
      ⟨start + page.lowIndex, start + page.highIndex⟩)

def Install.mapping (install : Install) (range : Nat × Nat) : Mapping where
  executableId := install.executableId
  loadAddress := install.loadAddress
  begin := range.1
  end_ := range.2
  type := install.mappingType

def Install.mappingEntries (install : Install) (pid : Nat) :
    List (ExecMappingsKey × Mapping) :=
  install.ranges.flatMap fun range =>
    (summarizeAddressRange range.1 (range.2 - 1)).map fun block =>
      (.new pid block.1 (32 + block.2), install.mapping range)

section

-- The paging of a sorted row table, which the converter crate provides.
variable (toPages : List CompactUnwindRow → List Page)

def installRows (t : UnwindTables) (install : Install) : UnwindTables :=
  if install.rows = [] ∨ maxRows < t.nextRow + install.rows.length then t
  else
    let start := t.nextRow
    let t := { t with
      maps := { t.maps with rows := writeRows t.maps.rows start install.rows }
      nextRow := start + install.rows.length }
    let (pages, inserted) := updateAll maxPages t.maps.pages
      (install.pageEntries (toPages install.rows) start)
    let t := { t with maps := { t.maps with pages := pages } }
    if inserted = false then t
    else
      let (execMappings, inserted) := updateAll maxMappings t.maps.execMappings
        (install.mappingEntries t.targetPid)
      let t := { t with maps := { t.maps with execMappings := execMappings } }
      if inserted = false then t
      else { t with
        modulesLoaded := t.modulesLoaded + 1
        rowsLoaded := t.rowsLoaded + install.rows.length }

def installAll (t : UnwindTables) (installs : List Install) : UnwindTables :=
  installs.foldl (installRows toPages) t

/-- Every install of the sequence finds room. -/
def RoomFor : UnwindTables → List Install → Prop
  | _, [] => True
  | t, install :: rest =>
      (installRows toPages t install).modulesLoaded = t.modulesLoaded + 1 ∧
        RoomFor (installRows toPages t install) rest

end

end Sismo.Unwind
