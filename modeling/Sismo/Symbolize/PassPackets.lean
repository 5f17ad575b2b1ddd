import Sismo.Symbolize.PassMeaning

namespace Sismo.Symbolize.Pass

/-! The symbols that the pass appends to the trace, read back from its bytes. -/

open Base128 Proto

/-! ### What the pass writes of a module -/

section

variable {sym : List SymModule} {found : Found} {host : Host} {m : Module}

theorem visit_entries (pc : UInt64) (lookup : Option Nat) :
    (visit sym found (pc, lookup)).entries =
      found.entries ++ (entry pc (lookup.bind (resolve sym))).toList := by
  unfold visit
  cases lookup.bind (resolve sym) with
  | none => exact (List.append_nil _).symm
  | some r =>
      dsimp only
      rw [entry, named]
      split
      · exact (List.append_nil _).symm
      · rfl

theorem foldl_visit_entries (addresses : List (UInt64 × Option Nat)) :
    (addresses.foldl (visit sym) found).entries =
      found.entries ++ addresses.filterMap fun address =>
        entry address.1 (address.2.bind (resolve sym)) := by
  induction addresses generalizing found with
  | nil => exact (List.append_nil _).symm
  | cons address rest induction =>
      rw [List.foldl_cons, induction, visit_entries, List.append_assoc,
        List.filterMap_cons]
      congr 1
      cases entry address.1 (address.2.bind (resolve sym)) with
      | none => rfl
      | some found => rfl

/-- The ranges that are registered lead to the names of each address by
itself. -/
theorem foldl_visit_registered {lookupPcs : List (Option Nat)}
    (registers : Registers host m (some (sym, lookupPcs)))
    (srcSet : List Bytes) :
    ((m.relPcs.zip lookupPcs).foldl (visit sym)
      { srcSet := srcSet }).entries = m.entries host := by
  obtain ⟨lookup, rfl, same⟩ := registers
  rw [foldl_visit_entries, List.nil_append, List.zip_map_right,
    List.filterMap_map, Module.entries]
  have diagonal : m.relPcs.zip m.relPcs =
      m.relPcs.map fun pc => (pc, pc) := by
    rw [List.zip_eq_zipWith, List.zipWith_self]
  rw [diagonal, List.filterMap_map]
  refine List.filterMap_congr fun pc member => ?_
  exact congrArg (entry pc) (same pc member)

theorem entries_eq_nil
    (nowhere : ∀ pc ∈ m.relPcs, resolved host m.toMapping pc = none) :
    m.entries host = [] := by
  refine List.filterMap_eq_nil_iff.mpr fun pc member => ?_
  rw [nowhere pc member]
  rfl

theorem buildModuleSymbols_writes (srcSet : List Bytes) :
    (buildModuleSymbols host m srcSet).1 =
      if m.entries host = [] then []
      else moduleWrites m.toMapping (m.entries host) := by
  have registers := registers host m
  unfold buildModuleSymbols
  cases registered : m.register host with
  | mk stat ranges =>
      rw [registered] at registers
      cases ranges with
      | none => exact (if_pos (entries_eq_nil registers)).symm
      | some ranges =>
          have visited := foldl_visit_registered registers srcSet
          dsimp only
          rw [visited]

def Module.packetBody (host : Host) (m : Module) : List Write :=
  [.nested .writeMessage (field 61)
    (moduleWrites m.toMapping (m.entries host))]

def namedModules (host : Host) (modules : List Module) : List Module :=
  modules.filter fun m => m.entries host ≠ []

theorem symbolizeModule_packets (output : Output) :
    (symbolizeModule host output m).packets =
      output.packets ++
        nestedEach (field 1) (Module.packetBody host) (namedModules host [m]) := by
  have writes := @buildModuleSymbols_writes host m output.srcSet
  unfold symbolizeModule namedModules
  by_cases none : m.entries host = []
  · rw [List.filter_cons_of_neg (by simpa using none)]
    rw [if_pos none] at writes
    split
    · exact (List.append_nil _).symm
    · dsimp only
      rw [writes]
      rfl
  · have sampled : m.relPcs ≠ [] := by
      intro unsampled
      rw [Module.entries, unsampled] at none
      exact none rfl
    rw [if_neg none] at writes
    rw [List.filter_cons_of_pos (by simpa using none), if_neg sampled]
    dsimp only
    rw [writes]
    rfl

theorem symbolizeModules_packets (host : Host) (rows : List Row) :
    (symbolizeModules host rows).packets =
      nestedEach (field 1) (Module.packetBody host)
        (namedModules host (collect rows)) := by
  rw [symbolizeModules]
  suffices all : ∀ output modules,
      (modules.foldl (symbolizeModule host) output).packets =
        output.packets ++ nestedEach (field 1) (Module.packetBody host)
          (namedModules host modules) from all {} (collect rows)
  intro output modules
  induction modules generalizing output with
  | nil => exact (List.append_nil _).symm
  | cons m rest induction =>
      rw [List.foldl_cons, induction, symbolizeModule_packets,
        List.append_assoc]
      congr 1
      rw [nestedEach, nestedEach, nestedEach, ← List.map_append, namedModules,
        namedModules, namedModules, ← List.filter_append]
      rfl

end

/-! ### The reader -/

structure ModuleSymbols where
  path : Bytes
  buildId : Bytes
  addresses : List (UInt64 × List Frame)
  deriving DecidableEq

def text (items : List (UInt32 × WireValue)) (number : FieldNumber) :
    Option Bytes :=
  (items.filterMap (payload number)).getLast?

def readLine (items : List (UInt32 × WireValue)) : Option Frame :=
  some
    { name := (text items (field 1)).getD []
      file := text items (field 2)
      line := (lastVarint (field 3) items).toUInt32 }

def readAddress (items : List (UInt32 × WireValue)) :
    Option (UInt64 × List Frame) :=
  (submessages readLine (field 2) items).map fun lines =>
    (lastVarint (field 1) items, lines)

def readModule (items : List (UInt32 × WireValue)) : Option ModuleSymbols :=
  (submessages readAddress (field 3) items).map fun addresses =>
    { path := (text items (field 1)).getD []
      buildId := (text items (field 2)).getD []
      addresses := addresses }

def readSymbols (bytes : Bytes) : Option (List ModuleSymbols) := do
  let items ← messageItems bytes
  let packets ← submessages (submessages readModule (field 61)) (field 1) items
  some packets.flatten

/-! ### The writes are read back -/

/-- A file without a name is left out. -/
def Frame.shown (frame : Frame) : Frame :=
  { frame with file := frame.file.filter (· ≠ []) }

def Module.symbols (host : Host) (m : Module) : ModuleSymbols where
  path := m.name
  buildId := m.bid
  addresses := (m.entries host).map fun entry =>
    (entry.1, entry.2.map Frame.shown)

theorem text_items (tree : List Write) (number : FieldNumber) :
    text (tree.map Write.item) number = (payloadsOf number tree).getLast? :=
  rfl

theorem readLine_writes (frame : Frame) :
    readLine ((lineWrites frame).map Write.item) = some frame.shown := by
  have number : ((if 0 < frame.line then [frame.line.toUInt64]
      else []).getLast?.getD 0).toUInt32 = frame.line := by
    by_cases zero : frame.line = 0
    · simp [zero]
    · have positive : 0 < frame.line := UInt32.pos_iff_ne_zero.mpr zero
      simp [positive]
  have file : ∀ path : Option Bytes, path.toList.getLast? = path := by
    intro path
    cases path <;> rfl
  simp +decide only [readLine, lineWrites, text_items, lastVarint_items,
    numbersOf_string, numbersOf_append, numbersOf_strings, numbersOf_fieldIf,
    numbersOf_uint32, numbersOf_nil, payloadsOf_string, payloadsOf_append,
    payloadsOf_strings, payloadsOf_fieldIf, payloadsOf_uint32, payloadsOf_nil,
    if_true, if_false, ite_self, List.append_nil, List.nil_append, number,
    file, List.getLast?_singleton, Option.getD_some]
  rfl

theorem readAddress_writes (entry : UInt64 × List Frame)
    (short : (encodeAll (addressWrites entry)).length < 2 ^ 35) :
    readAddress ((addressWrites entry).map Write.item) =
      some (entry.1, entry.2.map Frame.shown) := by
  have lines : payloadsOf (field 2) (addressWrites entry) =
      entry.2.map fun frame => encodeAll (lineWrites frame) := by
    rw [addressWrites, payloadsOf_uint64, payloadsOf_nestedEach]
  have address : numbersOf (field 1) (addressWrites entry) = [entry.1] := by
    rw [addressWrites, numbersOf_uint64, if_pos rfl, numbersOf_nestedEach]
  rw [readAddress, submessages_parts .writeMessage short lines
    (fun frame member => List.mem_cons_of_mem _ (List.mem_map_of_mem member))
    (fun frame _ _ => readLine_writes frame), lastVarint_items, address]
  rfl

theorem readModule_writes (m : Module) (host : Host)
    (short : (encodeAll (moduleWrites m.toMapping
      (m.entries host))).length < 2 ^ 35) :
    readModule ((moduleWrites m.toMapping (m.entries host)).map Write.item) =
      some (m.symbols host) := by
  have path : payloadsOf (field 1) (moduleWrites m.toMapping
      (m.entries host)) = [m.name] := by
    rw [moduleWrites, payloadsOf_string, if_pos rfl, payloadsOf_append,
      payloadsOf_fieldIf, payloadsOf_nestedEach_other (by decide)]
    simp +decide [payloadsOf_string, payloadsOf_nil]
  have buildId : (payloadsOf (field 2) (moduleWrites m.toMapping
      (m.entries host))).getLast?.getD [] = m.bid := by
    rw [moduleWrites, payloadsOf_string, if_neg (by decide),
      payloadsOf_append, payloadsOf_fieldIf,
      payloadsOf_nestedEach_other (by decide), List.append_nil]
    by_cases none : m.bid = []
    · simp [none]
    · simp [none, payloadsOf_string, payloadsOf_nil]
  have addresses : payloadsOf (field 3) (moduleWrites m.toMapping
      (m.entries host)) = (m.entries host).map fun entry =>
        encodeAll (addressWrites entry) := by
    rw [moduleWrites, payloadsOf_string, if_neg (by decide),
      payloadsOf_append, payloadsOf_fieldIf, payloadsOf_nestedEach]
    simp +decide [payloadsOf_string, payloadsOf_nil]
  rw [readModule, submessages_parts .writeMessage short addresses
    (fun entry member => List.mem_cons_of_mem _
      (List.mem_append_right _ (List.mem_map_of_mem member)))
    (fun entry _ inner => readAddress_writes entry inner), Option.map_some,
    text_items, text_items, path, buildId]
  rfl

theorem readSymbols_packets (host : Host) (modules : List Module)
    (short : (encodeAll (nestedEach (field 1) (Module.packetBody host)
      modules)).length < 2 ^ 35) :
    readSymbols (encodeAll (nestedEach (field 1) (Module.packetBody host)
      modules)) = some (modules.map fun m => m.symbols host) := by
  have packet (m : Module)
      (inner : (encodeAll (m.packetBody host)).length < 2 ^ 35) :
      submessages readModule (field 61)
        ((m.packetBody host).map Write.item) = some [m.symbols host] := by
    have parts : payloadsOf (field 61) (m.packetBody host) =
        [m].map fun m => encodeAll (moduleWrites m.toMapping
          (m.entries host)) := by
      rw [Module.packetBody, payloadsOf_nested, if_pos rfl]
      rfl
    refine submessages_parts .writeMessage inner parts ?_ ?_
    · intro other member
      cases List.mem_singleton.mp member
      exact List.mem_singleton_self _
    · intro other _ part
      exact readModule_writes other host part
  rw [readSymbols, messageItems_of_length short, Option.bind_eq_bind,
    Option.bind_some, submessages_parts .writeMessage short
      (payloadsOf_nestedEach (field 1) (Module.packetBody host) modules)
      (fun m member => List.mem_map_of_mem member)
      (fun m _ inner => packet m inner)]
  exact congrArg some
    ((List.flatMap_def ..).symm.trans (List.map_eq_flatMap ..).symm)

/-! ### The pass -/

/-- The modules of the rows: each mapping once, with the addresses of its
rows. -/
structure Collected (rows : List Row) (modules : List Module) : Prop where
  once : (modules.map Module.toMapping).Nodup
  sampled : ∀ mapping pc, (∃ m ∈ modules, m.Has mapping pc) ↔
    ∃ row ∈ rows, row.mapping = mapping ∧ row.relPc = pc

/-- What the pass appends to a trace is read back as the names that each address
of each mapping has by itself. -/
theorem symbols_read_back (host : Host) {rows : List Row}
    (grouped : Grouped rows) (trace : Bytes)
    (short : (encodeAll (symbolizeModules host rows).packets).length <
      2 ^ 35) :
    Collected rows (collect rows) ∧ ∃ appended output,
      symbolizeTrace host (some rows) trace =
        .ok (trace ++ appended, output) ∧
      readSymbols appended = some
        ((namedModules host (collect rows)).map fun m => m.symbols host) := by
  refine ⟨⟨collect_nodup grouped, fun _ _ => exists_collect⟩, ?_⟩
  obtain ⟨w, applied, same⟩ := applyAll_of_length short
  refine ⟨w.bytes, symbolizeModules host rows, ?_, ?_⟩
  · unfold symbolizeTrace
    dsimp only
    rw [applied]
    rfl
  · rw [symbolizeModules_packets] at short same
    rw [same]
    exact readSymbols_packets host _ short

/-! A program whose one symbol is sampled twice, and the kernel. -/

def sampledHost : Host where
  linux := true
  present _ := true
  isUtf8 _ := true
  fileBuildId _ := some [1, 2]
  machoUuidMatches _ _ := false
  elfAt _ := none
  heldFds _ := none
  loadSymbolMap _ _ := .ok
    { symbolCount := 1
      lookup := fun rel =>
        if rel = 0x10 then some ⟨[0x66], 0x8, none⟩ else none }
  loadFallbacks _ _ _ := []
  vmlinux := none
  kallsyms := some ⟨1, fun rel => some ([0x6b], rel)⟩

def sampledRows : List Row :=
  [⟨[0x2f, 0x61], [0x30, 0x31, 0x30, 0x32], 0x1010, 0x1000, 0⟩,
    ⟨[0x2f, 0x61], [0x30, 0x31, 0x30, 0x32], 0x1020, 0x1000, 0⟩,
    ⟨[0x2f, 0x61], [0x30, 0x31, 0x30, 0x32], 0x1010, 0x1000, 0⟩,
    ⟨kernelSuffix, [], 0x20, 0, 0⟩]

def sampledSymbols : List ModuleSymbols :=
  [⟨[0x2f, 0x61], [1, 2], [(0x1010, [⟨[0x66], none, 0⟩])]⟩,
    ⟨kernelSuffix, [], [(0x20, [⟨[0x6b], none, 0⟩])]⟩]

def sampledMapping : Mapping :=
  ⟨[0x2f, 0x61], [0x30, 0x31, 0x30, 0x32], 0x1000, .virtualAddress⟩

theorem grouped_sampledRows : Grouped sampledRows := by
  intro first between last sub same
  have program : ∀ row ∈ sampledRows.reverse.tail,
      row.mapping = sampledMapping := by
    decide
  have inside : [between, first] ⊆ sampledRows.reverse.tail :=
    sub.reverse.tail.subset
  exact (program between (inside (by simp))).trans
    (program first (inside (by simp))).symm

def sampledWrites : List Write :=
  [.nested .writeMessage (field 1) [.nested .writeMessage (field 61)
      [.string (field 1) [0x2f, 0x61], .string (field 2) [1, 2],
        .nested .writeMessage (field 3)
          [.uint64 (field 1) 0x1010,
            .nested .writeMessage (field 2) [.string (field 1) [0x66]]]]],
    .nested .writeMessage (field 1) [.nested .writeMessage (field 61)
      [.string (field 1) kernelSuffix,
        .nested .writeMessage (field 3)
          [.uint64 (field 1) 0x20,
            .nested .writeMessage (field 2) [.string (field 1) [0x6b]]]]]]

theorem sampledRows_writes :
    (symbolizeModules sampledHost sampledRows).packets = sampledWrites :=
  rfl

theorem symbols_read_back_sampled : ∃ appended output,
    symbolizeTrace sampledHost (some sampledRows) [9] =
      .ok ([9] ++ appended, output) ∧
    readSymbols appended = some sampledSymbols := by
  have short : (encodeAll (symbolizeModules sampledHost
      sampledRows).packets).length < 2 ^ 35 := by
    rw [sampledRows_writes]
    simp +decide [sampledWrites, encodeAll, Write.encode, tagBytes, lengthBytes,
      minimal, field, kernelSuffix]
  obtain ⟨-, appended, output, passed, read⟩ :=
    symbols_read_back sampledHost grouped_sampledRows [9] short
  exact ⟨appended, output, passed, read.trans (by decide)⟩

end Sismo.Symbolize.Pass
