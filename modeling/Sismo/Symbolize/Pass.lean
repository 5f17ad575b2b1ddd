import Sismo.Proto.Parts
import Sismo.Retain.Registry
import Sismo.Symbolize.AddressKinds
import Sismo.Symbolize.Sidecar

namespace Sismo.Symbolize.Pass

/-! The pass after a recording: the frames without symbols are collected by
mapping, resolved from the mapping's file, and the symbols are appended to the
trace. -/

open Proto
open Retain (isSynthetic)

deriving instance DecidableEq for AddressKind

/-! ### The rows of the query -/

/-- `AddressKind::from_raw`. -/
def addressKindFromRaw (value : UInt32) : AddressKind :=
  if value = 1 then .fileOffset else .virtualAddress

/-- What a module is told apart by. -/
structure Mapping where
  name : Bytes
  buildIdHex : Bytes
  loadBias : UInt64
  addressKind : AddressKind
  deriving DecidableEq

/-- A frame without symbols. -/
structure Row where
  name : Bytes
  buildIdHex : Bytes
  relPc : UInt64
  loadBias : UInt64
  addressKind : UInt32

def Row.mapping (row : Row) : Mapping where
  name := row.name
  buildIdHex := row.buildIdHex
  loadBias := row.loadBias
  addressKind := addressKindFromRaw row.addressKind

structure Module extends Mapping where
  relPcs : List UInt64
  once : relPcs.Nodup

def Module.hit (m : Module) (relPc : UInt64) : Module :=
  if seen : relPc ∈ m.relPcs then m
  else
    { m with
      relPcs := m.relPcs ++ [relPc]
      once := List.nodup_append_comm.mp (List.nodup_cons.mpr ⟨seen, m.once⟩) }

def Module.start (mapping : Mapping) : Module :=
  { mapping with relPcs := [], once := .nil }

/-- `on_row`: the trailing module is extended while the mapping stays. -/
def onRow (modules : List Module) (row : Row) : List Module :=
  match modules.getLast? with
  | some m =>
      if m.toMapping = row.mapping then modules.dropLast ++ [m.hit row.relPc]
      else modules ++ [(Module.start row.mapping).hit row.relPc]
  | none => [(Module.start row.mapping).hit row.relPc]

def collect (rows : List Row) : List Module :=
  rows.foldl onRow []

/-! ### Names -/

/-- `fun_` -/
def funPrefix : Bytes := [0x66, 0x75, 0x6e, 0x5f]

/-- `EntryPoint` -/
def entryPoint : Bytes :=
  [0x45, 0x6e, 0x74, 0x72, 0x79, 0x50, 0x6f, 0x69, 0x6e, 0x74]

def isLowerHex (byte : UInt8) : Bool :=
  (0x30 ≤ byte && byte ≤ 0x39) || (0x61 ≤ byte && byte ≤ 0x66)

def isSyntheticName (name : Bytes) : Bool :=
  name == entryPoint ||
    (funPrefix.isPrefixOf name && name.drop funPrefix.length != [] &&
      (name.drop funPrefix.length).all isLowerHex)

def dot : UInt8 := 0x2e

/-- `isra`, `constprop`, `part`, `cold`, `llvm`, `lto_priv`, `clone` -/
def cloneTags : List Bytes :=
  [[0x69, 0x73, 0x72, 0x61],
    [0x63, 0x6f, 0x6e, 0x73, 0x74, 0x70, 0x72, 0x6f, 0x70],
    [0x70, 0x61, 0x72, 0x74], [0x63, 0x6f, 0x6c, 0x64],
    [0x6c, 0x6c, 0x76, 0x6d],
    [0x6c, 0x74, 0x6f, 0x5f, 0x70, 0x72, 0x69, 0x76],
    [0x63, 0x6c, 0x6f, 0x6e, 0x65]]

/-- A name up to the first dot before a tag. -/
def stripCloneSuffix : Bytes → Bytes
  | [] => []
  | c :: rest =>
      if c = dot ∧ rest.takeWhile (· ≠ dot) ∈ cloneTags then []
      else c :: stripCloneSuffix rest

/-! ### The symbolizer -/

structure DwarfFrame where
  function : Option Bytes
  filePath : Option Bytes
  lineNumber : Option UInt32

structure AddressInfo where
  symbolName : Bytes
  symbolAddress : Nat
  frames : Option (List DwarfFrame)

structure SymbolMap where
  symbolCount : Nat
  lookup : Nat → Option AddressInfo

/-- A names-only source, as in `load_fallbacks`. -/
structure NamesSource where
  len : Nat
  resolve : Nat → Option (Bytes × Nat)

structure Frame where
  name : Bytes
  file : Option Bytes
  line : UInt32
  deriving DecidableEq

/-- The inline chain at an address, the physical function last. -/
structure Resolved where
  frames : List Frame
  offset : Nat
  frames_ne_nil : frames ≠ []

def Resolved.outer (r : Resolved) : Frame :=
  r.frames.getLast r.frames_ne_nil

def dwarfFrame (f : DwarfFrame) (default : Bytes) : Frame where
  name := stripCloneSuffix (f.function.getD default)
  file := f.filePath.map Utf8.lossy
  line := f.lineNumber.getD 0

/-- The frames with names; a physical function without one has the symbol's. -/
def dwarfFrames (symbolName : Bytes) : List DwarfFrame → List Frame
  | [] => []
  | [last] => [dwarfFrame last symbolName].filter (·.name ≠ [])
  | f :: rest =>
      [dwarfFrame f []].filter (·.name ≠ []) ++ dwarfFrames symbolName rest

def framesFromLookup (info : AddressInfo) (rel : Nat) : Resolved :=
  let frames := dwarfFrames info.symbolName (info.frames.getD [])
  if named : frames ≠ [] then ⟨frames, rel - info.symbolAddress, named⟩
  else
    ⟨[⟨stripCloneSuffix info.symbolName, none, 0⟩], rel - info.symbolAddress,
      List.cons_ne_nil _ _⟩

structure SymModule where
  baseAvma : Nat
  endAvma : Nat
  map : Option SymbolMap
  fallbacks : List NamesSource

def firstName (fallbacks : List NamesSource) (rel : Nat) : Option Resolved :=
  fallbacks.findSome? fun source => (source.resolve rel).map fun found =>
    ⟨[⟨found.1, none, 0⟩], found.2, List.cons_ne_nil _ _⟩

/-- A symbol of the map, unless it is a placeholder and a fallback has a
name. -/
def SymModule.resolveAt (m : SymModule) (rel : Nat) : Option Resolved :=
  let primary := m.map.bind fun map =>
    if rel < 2 ^ 32 then (map.lookup rel).map (framesFromLookup · rel)
    else none
  match primary with
  | some r =>
      if isSyntheticName r.outer.name then
        (firstName m.fallbacks rel).or (some r)
      else some r
  | none => firstName m.fallbacks rel

def resolve (modules : List SymModule) (avma : Nat) : Option Resolved :=
  (modules.find? fun m => m.baseAvma ≤ avma ∧ avma < m.endAvma).bind fun m =>
    m.resolveAt (avma - m.baseAvma)

/-! ### The host -/

/-- What the pass finds on the machine: its files, and what loads from them.
Paths are bytes. -/
structure Host where
  linux : Bool
  present : Bytes → Bool
  isUtf8 : Bytes → Bool
  fileBuildId : Bytes → Option Bytes
  machoUuidMatches : Bytes → Bytes → Bool
  elfAt : Bytes → Option Elf.ElfFile
  heldFds : Bytes → Option Bytes
  loadSymbolMap : Bytes → Option Bytes → Except Bytes SymbolMap
  loadFallbacks : Bytes → Option Bytes → Nat → List NamesSource
  vmlinux : Option Bytes
  kallsyms : Option NamesSource

def toDigit (byte : UInt8) : Option UInt8 :=
  (digitOf 16 byte.toNat).map UInt8.ofNat

def hexPairs : Bytes → Option Bytes
  | hi :: lo :: rest =>
      (toDigit hi).bind fun high => (toDigit lo).bind fun low =>
        (hexPairs rest).map fun bytes => ((high <<< 4) ||| low) :: bytes
  | _ => some []

def hexToBytes (hex : Bytes) : Bytes :=
  if hex.length % 2 ≠ 0 ∨ 64 < hex.length / 2 then []
  else (hexPairs hex).getD []

def hexDigit (nibble : UInt8) : UInt8 :=
  if nibble < 10 then 0x30 + nibble else 0x57 + nibble

def hexByte (byte : UInt8) : Bytes :=
  [hexDigit (byte >>> 4), hexDigit (byte &&& 0xf)]

/-- `/usr/lib` -/
def usrLib : Bytes := [0x2f, 0x75, 0x73, 0x72, 0x2f, 0x6c, 0x69, 0x62]

/-- `/debug` -/
def slashDebug : Bytes := [0x2f, 0x64, 0x65, 0x62, 0x75, 0x67]

/-- `/.build-id/` -/
def buildIdDir : Bytes :=
  [0x2f, 0x2e, 0x62, 0x75, 0x69, 0x6c, 0x64, 0x2d, 0x69, 0x64, 0x2f]

/-- `.debug` -/
def dotDebug : Bytes := [0x2e, 0x64, 0x65, 0x62, 0x75, 0x67]

/-- `[kernel.kallsyms]` -/
def kernelSuffix : Bytes :=
  [0x5b, 0x6b, 0x65, 0x72, 0x6e, 0x65, 0x6c, 0x2e, 0x6b, 0x61, 0x6c, 0x6c,
    0x73, 0x79, 0x6d, 0x73, 0x5d]

namespace Host

variable (host : Host)

/-- `byte_source::matches`. -/
def byteSourceMatches (path traceBid : Bytes) : Bool :=
  traceBid == [] || isSynthetic traceBid ||
    host.fileBuildId path == some traceBid ||
    (traceBid.length == 16 && host.machoUuidMatches path traceBid)

def conventionalBases : Bytes → List Bytes
  | first :: rest =>
      if rest = [] then []
      else
        [usrLib, usrLib ++ slashDebug].map fun root =>
          root ++ buildIdDir ++ hexByte first ++ [0x2f] ++
            rest.flatMap hexByte
  | [] => []

def conventionalExecutable (buildId : Bytes) : Option Bytes :=
  (conventionalBases buildId).find? host.present

def conventionalDebug (buildId : Bytes) : Option Bytes :=
  ((conventionalBases buildId).map (· ++ dotDebug)).find? host.present

end Host

def uuidDisambiguator (traceBid : Bytes) : Option Bytes :=
  if isSynthetic traceBid then none
  else if traceBid.length = 16 then some traceBid
  else none

structure ModuleLoad where
  symbolCount : Nat
  error : Option Bytes

def ModuleLoad.orFallback (load : ModuleLoad)
    (fallbacks : List NamesSource) : ModuleLoad :=
  if load.symbolCount = 0 then
    match (fallbacks.map NamesSource.len).find? (0 < ·) with
    | some count => ⟨count, none⟩
    | none => load
  else load

namespace Host

variable (host : Host)

/-- The symbol map of a path; a zero uuid tells nothing apart. -/
def loadMap (path : Bytes) (uuid : Option Bytes) :
    Option SymbolMap × ModuleLoad :=
  match host.loadSymbolMap path
      (uuid.filter (· ≠ List.replicate 16 0)) with
  | .ok map => (some map, ⟨map.symbolCount, none⟩)
  | .error error => (none, ⟨0, some error⟩)

/-- `add_module_with_symbol_path`. -/
def addModule (baseAvma endAvma : Nat) (path : Bytes)
    (symbolPath uuid : Option Bytes) : SymModule × ModuleLoad :=
  let (map, load) := host.loadMap (symbolPath.getD path) uuid
  let fallbacks := host.loadFallbacks path uuid load.symbolCount
  (⟨baseAvma, endAvma, map, fallbacks⟩, load.orFallback fallbacks)

def addKernelModule (baseAvma endAvma : Nat) (uuid : Option Bytes) :
    SymModule × ModuleLoad :=
  let (map, load) :=
    match host.vmlinux with
    | some path => host.loadMap path uuid
    | none => (none, ⟨0, none⟩)
  let fallbacks := host.kallsyms.toList
  (⟨baseAvma, endAvma, map, fallbacks⟩, load.orFallback fallbacks)

/-- The file a mapping's symbols are read from; none when the file at the
recorded path is another one by now. -/
def byteSource (name bid : Bytes) : Option Bytes :=
  if host.present name ∧ host.isUtf8 name ∧ host.byteSourceMatches name bid
  then some name
  else
    match host.heldFds bid, host.conventionalExecutable bid with
    | some path, _ => some path
    | none, some path => some path
    | none, none => if host.present name then none else some name

end Host

/-! ### The symbols of a module -/

structure ModuleStat where
  name : Bytes
  buildIdHex : Bytes
  symbolsLoaded : Bool := false
  symbolCount : Nat := 0
  nAddrs : Nat := 0
  nResolved : Nat := 0
  nSynthetic : Nat := 0
  err : Bytes := []

def ModuleStat.load (stat : ModuleStat) (symbolsLoaded : Bool)
    (load : ModuleLoad) : ModuleStat :=
  { stat with
    symbolsLoaded := symbolsLoaded
    symbolCount := load.symbolCount
    err := load.error.getD [] }

def kallsymsMasked : String :=
  "/proc/kallsyms masked and no vmlinux debug image (run: sudo sismo doctor --fix)"

def fileChanged : String :=
  "on-disk file changed since recording (build-id mismatch)"

def noExecutable : String :=
  "executable artifact unavailable for captured build ID"

def nonUtf8Path : String :=
  "non-UTF8 executable path cannot translate file offsets"

def noPtLoad : String :=
  "no sampled file offset belongs to an executable PT_LOAD"

def ModuleStat.fail (stat : ModuleStat) (err : String) : ModuleStat :=
  { stat with symbolsLoaded := false, err := err.toUTF8.toList }

/-- The registered ranges, and the lookup address of each sampled one. -/
abbrev Registered := List SymModule × List (Option Nat)

def Mapping.isKernel (m : Mapping) : Bool :=
  kernelSuffix.isSuffixOf m.name

def Mapping.bid (m : Mapping) : Bytes :=
  hexToBytes m.buildIdHex

namespace Module

variable (host : Host) (m : Module)

def pcs : List Nat :=
  m.relPcs.map UInt64.toNat

def stat : ModuleStat :=
  { name := m.name, buildIdHex := m.buildIdHex, nAddrs := m.relPcs.length }

def registerKernel : ModuleStat × Registered :=
  let base := m.loadBias.toNat
  let endAvma := endOf m.pcs base
  let lookupPcs := m.pcs.map some
  if ¬ host.linux then (m.stat, [⟨base, endAvma, none, []⟩], lookupPcs)
  else if host.vmlinux.isNone ∧ host.kallsyms.isNone then
    (m.stat.fail kallsymsMasked, [⟨base, endAvma, none, []⟩], lookupPcs)
  else
    let (sym, load) := host.addKernelModule base endAvma
      (uuidDisambiguator m.bid)
    (if 0 < load.symbolCount then
      { m.stat with symbolsLoaded := true, symbolCount := load.symbolCount }
    else m.stat.load false load, [sym], lookupPcs)

def registerAt (source : Bytes) (base : Nat) (lookupPcs : List (Option Nat)) :
    ModuleStat × Registered :=
  let (sym, load) := host.addModule base
    (endOf (lookupPcs.filterMap id) base) source
    (host.conventionalDebug m.bid)
    (uuidDisambiguator m.bid)
  (m.stat.load load.error.isNone load, [sym], lookupPcs)

def fileOffsetToVaddr (source : Bytes) (off : Nat) : Option Nat :=
  (host.elfAt source).bind (·.fileOffsetToVaddr off)

def registerFile : ModuleStat × Option Registered :=
  match host.byteSource m.name m.bid with
  | none => (m.stat.fail fileChanged, none)
  | some source =>
      match m.addressKind with
      | .virtualAddress =>
          let (stat, sym) := m.registerAt host source m.loadBias.toNat
            (m.pcs.map some)
          (stat, some sym)
      | .fileOffset =>
          if ¬ host.present source then (m.stat.fail noExecutable, none)
          else if ¬ host.isUtf8 source then (m.stat.fail nonUtf8Path, none)
          else
            let lookupPcs := m.pcs.map (fileOffsetToVaddr host source)
            if lookupPcs.filterMap id = [] then (m.stat.fail noPtLoad, none)
            else
              let (stat, sym) := m.registerAt host source 0 lookupPcs
              (stat, some sym)

def register : ModuleStat × Option Registered :=
  if m.isKernel then
    let (stat, sym) := m.registerKernel host
    (stat, some sym)
  else m.registerFile host

end Module

/-- What the addresses of a module have been resolved to so far, and the
source files of all modules. -/
structure Found where
  entries : List (UInt64 × List Frame) := []
  srcSet : List Bytes
  nResolved : Nat := 0
  nSynthetic : Nat := 0

/-- A source file is kept when it is met first. -/
def noteFile (srcSet : List Bytes) (frame : Frame) : List Bytes :=
  match frame.file with
  | some file =>
      if file = [] ∨ file ∈ srcSet then srcSet else srcSet ++ [file]
  | none => srcSet

def visit (sym : List SymModule) (found : Found)
    (address : UInt64 × Option Nat) : Found :=
  match address.2.bind (resolve sym) with
  | none => found
  | some r =>
      let frames := r.frames.filter (·.name ≠ [])
      let srcSet := frames.foldl noteFile found.srcSet
      if frames = [] then { found with srcSet := srcSet }
      else
        { entries := found.entries ++ [(address.1, frames)]
          srcSet := srcSet
          nResolved := found.nResolved + 1
          nSynthetic := found.nSynthetic +
            if isSyntheticName r.outer.name then 1 else 0 }

/-! ### The writes -/

def lineWrites (frame : Frame) : List Write :=
  .string (field 1) frame.name ::
    ((frame.file.filter (· ≠ [])).toList.map (.string (field 2)) ++
      fieldIf (0 < frame.line) (.uint32 (field 3) frame.line))

def addressWrites (entry : UInt64 × List Frame) : List Write :=
  .uint64 (field 1) entry.1 :: nestedEach (field 2) lineWrites entry.2

def moduleWrites (m : Mapping) (entries : List (UInt64 × List Frame)) :
    List Write :=
  .string (field 1) m.name ::
    (fieldIf (m.bid ≠ []) (.string (field 2) (m.bid)) ++
      nestedEach (field 3) addressWrites entries)

/-- `build_module_symbols`: no writes where no address has a name. -/
def buildModuleSymbols (host : Host) (m : Module) (srcSet : List Bytes) :
    List Write × ModuleStat × List Bytes :=
  match m.register host with
  | (stat, none) => ([], stat, srcSet)
  | (stat, some (sym, lookupPcs)) =>
      let found := (m.relPcs.zip lookupPcs).foldl (visit sym)
        { srcSet := srcSet }
      (if found.entries = [] then [] else moduleWrites m.toMapping found.entries,
        { stat with
          nResolved := found.nResolved
          nSynthetic := found.nSynthetic },
        found.srcSet)

structure Output where
  packets : List Write := []
  stats : List ModuleStat := []
  srcSet : List Bytes := []

def symbolizeModule (host : Host) (output : Output) (m : Module) : Output :=
  if m.relPcs = [] then output
  else
    let (writes, stat, srcSet) := buildModuleSymbols host m output.srcSet
    { packets := output.packets ++
        if writes.isEmpty then []
        else
          [.nested .writeMessage (field 1)
            [.nested .writeMessage (field 61) writes]]
      stats := output.stats ++ [stat]
      srcSet := srcSet }

def symbolizeModules (host : Host) (rows : List Row) : Output :=
  (collect rows).foldl (symbolizeModule host) {}

/-- The trace with the symbols of its rows, and the source files to append;
none of the rows are there when the query fails. -/
def symbolizeTrace (host : Host) (rows : Option (List Row)) (trace : Bytes) :
    Except Panic (Bytes × Output) :=
  match rows with
  | none => .ok (trace, {})
  | some rows => do
      let output := symbolizeModules host rows
      let out ← applyAll output.packets .new
      .ok (trace ++ out.bytes, output)

end Sismo.Symbolize.Pass
