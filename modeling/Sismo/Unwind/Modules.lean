import Mathlib.Data.List.Perm.Basic
import Sismo.Symbolize.ProcMaps
import Sismo.Unwind.Tables

namespace Sismo.Unwind

/-! The loading of the tables of every module in a maps snapshot. -/

/-- A file path is absolute. -/
inductive LineName where
  | file (path : String)
  | vdso
  | other
  deriving DecidableEq, Repr

structure Line where
  start : Nat
  end_ : Nat
  exec : Bool
  name : LineName
  deriving DecidableEq, Repr

def Line.ofFile (line : Line) : Bool :=
  match line.name with
  | .file _ => true
  | _ => false

structure ProcMapping where
  start : Nat
  end_ : Nat
  baseAvma : Nat
  path : String
  deriving DecidableEq, Repr

/-- The file's lowest mapping, executable or not. -/
def baseAvma (lines : List Line) (path : String) : Nat :=
  ((lines.filter (·.name = .file path)).map Line.start).min?.getD 0

def fileMapping (lines : List Line) (line : Line) : Option ProcMapping :=
  match line.name with
  | .file path =>
      if line.exec then
        some ⟨line.start, line.end_, baseAvma lines path, path⟩
      else none
  | _ => none

/-- The executable file-backed mappings, as `parse_text` gives them. -/
def fileMappings (lines : List Line) : List ProcMapping :=
  lines.filterMap (fileMapping lines)

def vdsoRange (lines : List Line) : Option (Nat × Nat) :=
  (lines.find? (·.name = .vdso)).map fun line => (line.start, line.end_)

/-! ### The lines and the text they come from -/

section

open Symbolize

def pathOf (path : List UInt8) : String :=
  String.ofList (path.map fun b => Char.ofNat b.toNat)

def lineOf (m : ProcMaps.Line) : Line :=
  ⟨m.start, m.stop, m.exec, .file (pathOf m.path)⟩

def mappingOf (m : ProcMaps.Mapping) : ProcMapping :=
  ⟨m.start, m.stop, m.baseAvma, pathOf m.path⟩

/-- The lines with a path are those `parse_line` finds in the text. -/
def LinesOf (raw : List UInt8) (lines : List Line) : Prop :=
  lines.filter Line.ofFile = (ProcMaps.mapsLines raw).map lineOf

theorem pathOf_injective : Function.Injective pathOf := by
  intro first second same
  have bytes := String.ofList_injective same
  refine List.map_injective_iff.mpr (fun a b equal => ?_) bytes
  have small (byte : UInt8) :
      (Char.ofNat byte.toNat).toNat = byte.toNat := by
    have valid : byte.toNat.isValidChar := .inl (by
      have := byte.toNat_lt
      omega)
    rw [Char.ofNat, dif_pos valid]
    rfl
  exact UInt8.toNat_inj.mp
    ((small a).symm.trans ((congrArg Char.toNat equal).trans (small b)))

variable {raw : List UInt8} {lines : List Line}

theorem LinesOf.mem_iff (linesOf : LinesOf raw lines) {line : Line}
    {path : List UInt8} :
    line ∈ lines ∧ line.name = .file (pathOf path) ↔
      ∃ m ∈ ProcMaps.mapsLines raw, m.path = path ∧ lineOf m = line := by
  constructor
  · rintro ⟨member, name⟩
    have kept : line ∈ lines.filter Line.ofFile :=
      List.mem_filter.mpr ⟨member, by rw [Line.ofFile, name]⟩
    rw [linesOf] at kept
    obtain ⟨m, among, rfl⟩ := List.mem_map.mp kept
    exact ⟨m, among, pathOf_injective (LineName.file.inj name), rfl⟩
  · rintro ⟨m, among, rfl, rfl⟩
    have kept : lineOf m ∈ lines.filter Line.ofFile := by
      rw [linesOf]
      exact List.mem_map_of_mem among
    exact ⟨List.mem_of_mem_filter kept, rfl⟩

theorem LinesOf.baseAvma_eq (linesOf : LinesOf raw lines)
    {path : List UInt8} {base : Nat}
    (lowest : ProcMaps.Lowest ProcMaps.Line.start
      (ProcMaps.mapsLines raw) (·.path = path) base) :
    baseAvma lines (pathOf path) = base := by
  have least : ((lines.filter (·.name = .file (pathOf path))).map
      Line.start).min? = some base := by
    simp only [List.min?_eq_some_iff, List.mem_map, List.mem_filter,
      decide_eq_true_eq, linesOf.mem_iff]
    obtain ⟨m, among, samePath, rfl⟩ := lowest.attained
    refine ⟨⟨_, ⟨m, among, samePath, rfl⟩, rfl⟩, ?_⟩
    rintro _ ⟨_, ⟨other, inside, also, rfl⟩, rfl⟩
    exact lowest.le other inside also
  rw [baseAvma, least, Option.getD_some]

theorem fileMappings_parseText (buildIdFor : List UInt8 → List UInt8)
    (linesOf : LinesOf raw lines) :
    (ProcMaps.parseText buildIdFor raw).map (List.map mappingOf) =
      some (fileMappings lines) := by
  obtain ⟨maps, parsed, kept⟩ :=
    ProcMaps.parseText_spec buildIdFor raw
  have taken : ∀ list : List ProcMaps.Line, ∀ kept,
      List.Forall₂ (ProcMaps.KeptOf buildIdFor
        (ProcMaps.mapsLines raw)) (list.filter ProcMaps.Line.exec)
        kept →
      kept.map mappingOf =
        (list.map lineOf).filterMap (fileMapping lines) := by
    intro list
    induction list with
    | nil =>
        intro kept all
        cases all
        rfl
    | cons m rest induction =>
        intro kept all
        rw [List.map_cons, List.filterMap_cons]
        cases exec : m.exec with
        | false =>
            rw [List.filter_cons_of_neg (by simp [exec])] at all
            simpa [fileMapping, lineOf, exec] using induction kept all
        | true =>
            rw [List.filter_cons_of_pos exec] at all
            obtain ⟨first, later, keptOf, others, rfl⟩ :=
              List.forall₂_cons_left_iff.mp all
            have base := linesOf.baseAvma_eq keptOf.base
            have same : fileMapping lines (lineOf m) = some (mappingOf first) := by
              simp only [fileMapping, lineOf, exec, if_true, mappingOf, base,
                keptOf.range.1, keptOf.range.2.1, keptOf.file.1]
            rw [same, List.map_cons, induction later others]
  rw [parsed, Option.map_some, taken _ maps kept, ← linesOf, fileMappings,
    List.filterMap_filter]
  congr 2
  funext line
  unfold Line.ofFile fileMapping
  cases line.name <;> rfl

end

/-- What the loader reads of a file: the frame sizes of a Go binary's pcsp
tables, the ELF type, and the converter's rows. -/
structure ElfFile where
  pcspRows : Option (List (Nat × Option Int)) := none
  eType : Option Nat := none
  compactUnwindInfo : Option (List CompactUnwindRow) := none

/-- The maps of the process and the files at their paths, at one moment. -/
structure Snapshot where
  lines : List Line
  files : String → ElfFile

def goUnwindRow : Nat × Option Int → CompactUnwindRow
  | (pc, none) =>
      { pc := pc
        cfaType := .endOfFdeMarker
        rbpType := .unchanged
        cfaOffset := 0
        rbpOffset := 0 }
  | (pc, some frameSize) =>
      if frameSize < 0 ∨ 65535 < frameSize + 8 then
        { pc := pc
          cfaType := .offsetDidNotFit
          rbpType := .unchanged
          cfaOffset := 0
          rbpOffset := 0 }
      else
        { pc := pc
          cfaType := .rsp
          rbpType := .unchanged
          cfaOffset := (frameSize + 8).toNat
          rbpOffset := 0 }

def goUnwindRows (file : ElfFile) : Option (List CompactUnwindRow) :=
  match file.pcspRows with
  | none => none
  | some [] => none
  | some segs => some (segs.map goUnwindRow)

def elfLoadBias (file : ElfFile) (baseAvma : Nat) : Option Nat :=
  match file.eType with
  | some 2 => some 0
  | some 3 => some baseAvma
  | _ => none

/-- The rows of a file and the load address they are relative to. A Go
binary's rows are image-relative whatever its ELF type. -/
def moduleRows (file : ElfFile) (baseAvma : Nat) :
    Option (List CompactUnwindRow × Nat) :=
  match goUnwindRows file with
  | some rows => some (rows, baseAvma)
  | none => do
      let bias ← elfLoadBias file baseAvma
      let rows ← file.compactUnwindInfo
      some (rows, bias)

/-- The install that loading a module ends in, if its tables can be built. -/
def loadModule (files : String → ElfFile) (baseAvma : Nat)
    (segs : List ProcMapping) : Option Install := do
  let first ← segs.head?
  let tables ← moduleRows (files first.path) baseAvma
  some
    { executableId := baseAvma
      loadAddress := tables.2
      rows := tables.1
      ranges := segs.map fun seg => (seg.start, seg.end_)
      mappingType := .file }

/-- The recorder's own vDSO: its base by the auxiliary vector, its range by the
maps, and the rows of a leading part of it. -/
structure OwnVdso where
  base : Nat
  range : Option (Nat × Nat)
  compactUnwindInfo : (span : Nat) → Option (List CompactUnwindRow)

def loadVdso (own : OwnVdso) (range : Nat × Nat) : Option Install := do
  let (ownStart, ownEnd) ← own.range
  if own.base ≠ ownStart ∨ ownEnd ≤ ownStart then none
  else
    let rows ← own.compactUnwindInfo
      (min (range.2 - range.1) (ownEnd - ownStart))
    some
      { executableId := range.1
        loadAddress := range.1
        rows := rows
        ranges := [range]
        mappingType := .vdso }

structure Image where
  base : Nat
  install : Option Install
  deriving DecidableEq

def Snapshot.moduleBases (snapshot : Snapshot) : List Nat :=
  ((fileMappings snapshot.lines).map ProcMapping.baseAvma).dedup

def Snapshot.moduleImage (snapshot : Snapshot) (base : Nat) : Image where
  base := base
  install := loadModule snapshot.files base
    ((fileMappings snapshot.lines).filter (·.baseAvma = base))

def Snapshot.vdsoImage (snapshot : Snapshot) (own : OwnVdso) : List Image :=
  (vdsoRange snapshot.lines).toList.map fun range =>
    { base := range.1, install := loadVdso own range }

/-- The images in the order the loader visits them: the modules in some order,
the vDSO last. -/
def Snapshot.images (snapshot : Snapshot) (own : OwnVdso) (order : List Nat) :
    List Image :=
  order.map snapshot.moduleImage ++ snapshot.vdsoImage own

section

variable (toPages : List CompactUnwindRow → List Page)

/-- A base is visited once; that no tables can be built is remembered too. -/
def loadImage (t : UnwindTables) (image : Image) : UnwindTables :=
  if image.base ∈ t.loaded then t
  else
    let t := { t with loaded := image.base :: t.loaded }
    match image.install with
    | none => t
    | some install => installRows toPages t install

/-- The modules are visited in the order of a hash map. -/
def loadAll (own : OwnVdso) (t : UnwindTables)
    (action : Snapshot × List Nat) : Option UnwindTables :=
  if action.2.Perm action.1.moduleBases then
    some ((action.1.images own action.2).foldl (loadImage toPages) t)
  else none

end

end Sismo.Unwind
