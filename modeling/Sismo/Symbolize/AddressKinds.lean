import Mathlib.Data.List.Pairwise
import Sismo.Elf.File
import Sismo.Symbolize.Fallbacks
import Sismo.Symbolize.ProcMaps

namespace Sismo.Symbolize

/-! The symbol of a frame through its file offset, and through its virtual
address. -/

open Elf

inductive AddressKind where
  | virtualAddress
  | fileOffset

structure Module where
  loadBias : Nat
  addressKind : AddressKind
  relPcs : List Nat

namespace Module

variable (m : Module) (elf : ElfFile)

def lookupPc (relPc : Nat) : Option Nat :=
  match m.addressKind with
  | .virtualAddress => some relPc
  | .fileOffset => elf.fileOffsetToVaddr relPc

/-- The range of the module in the symbolizer: none where no file offset
belongs to a segment. -/
def range : Option (Nat × Nat) :=
  match m.addressKind with
  | .virtualAddress => some (m.loadBias, endOf m.relPcs m.loadBias)
  | .fileOffset =>
      match m.relPcs.filterMap elf.fileOffsetToVaddr with
      | [] => none
      | lookup :: rest => some (0, endOf (lookup :: rest) 0)

/-- What `build_module_symbols` finds for an address of the module. -/
def symbolOf (fallbacks : List SymbolSource) (relPc : Nat) :
    Option (Option (String × Nat)) :=
  match m.range elf with
  | none => some none
  | some (base, stop) =>
      match m.lookupPc elf relPc with
      | none => some none
      | some pc =>
          resolve [{ baseAvma := base, endAvma := stop, fallbacks := fallbacks }]
            pc

end Module

def ProcMaps.Mapping.fileOffset (m : ProcMaps.Mapping) (pc : Nat) :
    Option Nat :=
  (checkedSub pc m.start).bind (checkedAdd m.offset)

def pageStart (pageSize addr : Nat) : Nat :=
  addr - addr % pageSize

/-- Segments with ranges of their own in the file. -/
structure Layout (elf : ElfFile) (pageSize base : Nat) : Prop where
  base_eq : elf.imageBase = some base
  fileApart : elf.loads.Pairwise fun s t =>
    s.offset + s.filesz ≤ t.offset ∨ t.offset + t.filesz ≤ s.offset
  congruent : ∀ s ∈ elf.loads, s.vaddr % pageSize = s.offset % pageSize
  fits : ∀ s ∈ elf.loads, s.filesz ≤ s.memsz ∧ s.vaddr + s.memsz < 2 ^ 64

/-- The mapping has pages of a segment, placed by the load address of the
image's lowest page. -/
structure MapsSegment (pageSize base : Nat) (seg : Segment)
    (m : ProcMaps.Mapping) : Prop where
  page_le : pageStart pageSize seg.offset ≤ m.offset
  placed : m.start + seg.offset + pageStart pageSize base =
    m.baseAvma + seg.vaddr + m.offset
  stop_lt : m.stop < 2 ^ 64
  linked_le : pageStart pageSize base + (m.stop - m.baseAvma) ≤ 2 ^ 64

def linkAddr (pageSize base : Nat) (m : ProcMaps.Mapping) (pc : Nat) : Nat :=
  pageStart pageSize base + (pc - m.baseAvma)

def NamedAt (fallbacks : List Fallback) (base addr : Nat) (name : String) :
    Prop :=
  ∃ f ∈ fallbacks, ∃ lo hi, f.HasRange name lo hi ∧
    base + lo ≤ addr ∧ addr < base + hi

section

variable (search : BinarySearch) (elf : ElfFile) (pageSize base : Nat)
  (m : ProcMaps.Mapping)

/-- Through the file offset and through the virtual address the same symbol is
found, whose link-time range has the link-time address: for all tables of
symbols, and among any other sampled addresses. -/
def SameSymbol (pc off : Nat) : Prop :=
  ∀ go dyn, (∀ f ∈ loadFallbacks go dyn, f.WellFormed base) →
  ∀ pcs offs, pc ∈ pcs → off ∈ offs →
    let fallbacks := loadFallbacks go dyn
    let sources := fallbacks.map (Fallback.source search)
    ∃ byOffset byAddress,
      Module.symbolOf ⟨0, .fileOffset, offs⟩ elf sources off =
          some byOffset ∧
        Module.symbolOf ⟨m.baseAvma, .virtualAddress, pcs⟩ elf sources pc =
          some byAddress ∧
        byOffset.map Prod.fst = byAddress.map Prod.fst ∧
        Right (NamedAt fallbacks base (linkAddr pageSize base m pc)) byOffset ∧
        Right (NamedAt fallbacks base (linkAddr pageSize base m pc)) byAddress

/-- The image base starts a page, and a segment has the file offset at the
address that is as far above 0 as the pc's is above the image base. -/
def MeetsBase (pc off : Nat) : Prop :=
  pageStart pageSize base = base ∧
    ∃ s ∈ elf.loads, s.offset ≤ off ∧ off < s.offset + s.filesz ∧
      base + (s.vaddr + (off - s.offset)) = linkAddr pageSize base m pc

end

theorem pageStart_eq (pageSize addr : Nat) :
    pageStart pageSize addr = pageSize * (addr / pageSize) := by
  have parts := Nat.div_add_mod addr pageSize
  rw [pageStart]
  omega

theorem pageStart_mono {pageSize first second : Nat} (le : first ≤ second) :
    pageStart pageSize first ≤ pageStart pageSize second := by
  rw [pageStart_eq, pageStart_eq]
  exact Nat.mul_le_mul_left pageSize (Nat.div_le_div_right le)

section

variable {elf : ElfFile} {pageSize base : Nat} {seg : Segment}
  {m : ProcMaps.Mapping} {pc off : Nat}

theorem Layout.unique (layout : Layout elf pageSize base) {s t : Segment}
    (first : s ∈ elf.loads) (second : t ∈ elf.loads)
    (sOff : s.offset ≤ off ∧ off < s.offset + s.filesz)
    (tOff : t.offset ≤ off ∧ off < t.offset + t.filesz) : s = t := by
  by_contra other
  have symmetric : Std.Symm fun s t : Segment =>
      s.offset + s.filesz ≤ t.offset ∨ t.offset + t.filesz ≤ s.offset :=
    ⟨fun _ _ => Or.symm⟩
  have := layout.fileApart.forall first second other
  omega

theorem Layout.fileOffsetToVaddr_eq_some (layout : Layout elf pageSize base)
    {vaddr : Nat} : elf.fileOffsetToVaddr off = some vaddr ↔
      ∃ s ∈ elf.loads, (s.offset ≤ off ∧ off < s.offset + s.filesz) ∧
        s.vaddr + (off - s.offset) = vaddr := by
  have through : ∀ s : Segment, s ∈ elf.segments → ∀ vaddr,
      s.fileOffsetToVaddr off = some vaddr ↔ s ∈ elf.loads ∧
        (s.offset ≤ off ∧ off < s.offset + s.filesz) ∧
        s.vaddr + (off - s.offset) = vaddr := by
    intro s member vaddr
    rw [Segment.fileOffsetToVaddr]
    split
    · next other =>
        refine iff_of_false nofun fun both => other ?_
        exact (ElfFile.mem_loads.mp both.1).2
    · next load =>
        have loaded := ElfFile.mem_loads.mpr ⟨member, not_not.mp load⟩
        have fits := layout.fits s loaded
        simp only [Option.bind_eq_some_iff, checkedSub_eq_some,
          Option.ite_none_right_eq_some, checkedAdd_eq_some]
        constructor
        · intro ⟨delta, ⟨le, sub⟩, small, sum, _⟩
          exact ⟨loaded, by omega, by omega⟩
        · intro ⟨_, inside, sum⟩
          exact ⟨_, ⟨inside.1, rfl⟩, by omega, sum, by omega⟩
  have agree : ∀ s ∈ elf.segments, ∀ t ∈ elf.segments, ∀ a b,
      s.fileOffsetToVaddr off = some a → t.fileOffsetToVaddr off = some b →
        a = b := by
    intro s first t second a b along other
    obtain ⟨sLoaded, sInside, sSum⟩ := (through s first a).mp along
    obtain ⟨tLoaded, tInside, tSum⟩ := (through t second b).mp other
    cases layout.unique sLoaded tLoaded sInside tInside
    exact sSum.symm.trans tSum
  rw [ElfFile.fileOffsetToVaddr, findSome?_eq_some_iff_of_agree agree]
  constructor
  · intro ⟨s, member, translated⟩
    obtain ⟨loaded, both⟩ := (through s member vaddr).mp translated
    exact ⟨s, loaded, both⟩
  · intro ⟨s, loaded, inside, sum⟩
    have member := (ElfFile.mem_loads.mp loaded).1
    exact ⟨s, member, (through s member vaddr).mpr ⟨loaded, inside, sum⟩⟩

theorem MapsSegment.baseAvma_le (maps : MapsSegment pageSize base seg m)
    (layout : Layout elf pageSize base) (loaded : seg ∈ elf.loads) :
    m.baseAvma ≤ m.start := by
  have lowest := (ElfFile.imageBase_eq_some.mp layout.base_eq).2 seg loaded
  have pages := @pageStart_mono pageSize base seg.vaddr lowest
  have congruent := layout.congruent seg loaded
  have page := maps.page_le
  have placed := maps.placed
  have inOffset := Nat.mod_le seg.offset pageSize
  have inAddress := Nat.mod_le seg.vaddr pageSize
  simp only [pageStart] at pages page placed
  omega

/-- A frame of the segment's own file part translates to its link-time
address. -/
theorem MapsSegment.linkAddr_eq (maps : MapsSegment pageSize base seg m)
    (layout : Layout elf pageSize base) (loaded : seg ∈ elf.loads)
    (start_le : m.start ≤ pc) (captured : m.fileOffset pc = some off)
    (own : seg.offset ≤ off) :
    seg.vaddr + (off - seg.offset) = linkAddr pageSize base m pc := by
  have low := maps.baseAvma_le layout loaded
  have placed := maps.placed
  simp only [ProcMaps.Mapping.fileOffset, Option.bind_eq_some_iff,
    checkedSub_eq_some, checkedAdd_eq_some] at captured
  obtain ⟨delta, ⟨_, sub⟩, sum, _⟩ := captured
  rw [linkAddr]
  omega

theorem symbolOf_virtualAddress {loadBias : Nat} {pcs : List Nat}
    {sources : List SymbolSource} (le : loadBias ≤ pc) (member : pc ∈ pcs)
    (small : pc < 2 ^ 64 - 1) :
    Module.symbolOf ⟨loadBias, .virtualAddress, pcs⟩ elf sources pc =
      firstAnswer sources (pc - loadBias) := by
  have inside := (@lt_endOf pcs loadBias pc member).mpr small
  exact (@resolve_single ⟨loadBias, endOf pcs loadBias, sources⟩ pc le).trans
    (if_pos inside)

theorem symbolOf_fileOffset {offs : List Nat} {sources : List SymbolSource}
    {vaddr : Nat} (member : off ∈ offs)
    (translated : elf.fileOffsetToVaddr off = some vaddr)
    (small : vaddr < 2 ^ 64 - 1) :
    Module.symbolOf ⟨0, .fileOffset, offs⟩ elf sources off =
      firstAnswer sources vaddr := by
  have listed : vaddr ∈ offs.filterMap elf.fileOffsetToVaddr :=
    List.mem_filterMap.mpr ⟨off, member, translated⟩
  have range : Module.range ⟨0, .fileOffset, offs⟩ elf =
      some (0, endOf (offs.filterMap elf.fileOffsetToVaddr) 0) := by
    rw [Module.range]
    dsimp only
    cases lookups : offs.filterMap elf.fileOffsetToVaddr with
    | nil => rw [lookups] at listed; cases listed
    | cons lookup rest => rfl
  have lookup : Module.lookupPc ⟨0, .fileOffset, offs⟩ elf off =
      some vaddr := translated
  rw [Module.symbolOf, range]
  dsimp only
  rw [lookup]
  dsimp only
  rw [resolve_single (Nat.zero_le vaddr), if_pos ((lt_endOf listed).mpr small)]
  rfl

theorem symbolOf_untranslated {offs : List Nat} {sources : List SymbolSource}
    (untranslated : elf.fileOffsetToVaddr off = none) :
    Module.symbolOf ⟨0, .fileOffset, offs⟩ elf sources off =
      some none := by
  have lookup : Module.lookupPc ⟨0, .fileOffset, offs⟩ elf off =
      none := untranslated
  rw [Module.symbolOf, lookup]
  cases Module.range ⟨0, .fileOffset, offs⟩ elf with
  | none => rfl
  | some range => rfl

/-- An address above the image base has the names of its distance from it. -/
theorem namedAt_add {fallbacks : List Fallback} {rel : Nat} {name : String} :
    NamedAt fallbacks base (base + rel) name ↔
      ∃ f ∈ fallbacks, f.Names rel name := by
  simp only [NamedAt, Fallback.Names, Nat.add_le_add_iff_left,
    Nat.add_lt_add_iff_left]

/-- The lookups of both paths meet in the link-time address. -/
theorem MeetsBase.sameSymbol (search : BinarySearch)
    (layout : Layout elf pageSize base) (maps : MapsSegment pageSize base seg m)
    (loaded : seg ∈ elf.loads) (start_le : m.start ≤ pc)
    (lt_stop : pc < m.stop) (meets : MeetsBase elf pageSize base m pc off) :
    SameSymbol search elf pageSize base m pc off := by
  obtain ⟨page, s, sLoaded, le, lt, sum⟩ := meets
  have fits := layout.fits s sLoaded
  have low := maps.baseAvma_le layout loaded
  have stop := maps.stop_lt
  have translated := layout.fileOffsetToVaddr_eq_some.mpr
    ⟨s, sLoaded, ⟨le, lt⟩, rfl⟩
  generalize s.vaddr + (off - s.offset) = vaddr at sum translated
  have rel : pc - m.baseAvma = vaddr := by
    rw [linkAddr, page] at sum
    omega
  intro go dyn wellFormed pcs offs pcMember offMember
  obtain ⟨found, answered, right⟩ := firstAnswer_right search wellFormed vaddr
  have named : Right (NamedAt (loadFallbacks go dyn) base
      (linkAddr pageSize base m pc)) found := by
    rw [← sum]
    exact ⟨fun result same => namedAt_add.mpr (right.sound result same),
      fun name there => right.complete name (namedAt_add.mp there)⟩
  have small : vaddr < 2 ^ 64 - 1 := by omega
  refine ⟨found, found, ?_, ?_, rfl, named, named⟩
  · rw [symbolOf_fileOffset offMember translated small, answered]
  · rw [symbolOf_virtualAddress (by omega) pcMember (by omega), rel, answered]

end

def oneSymbol (value size : Nat) (fits : value < 2 ^ 64 ∧ size < 2 ^ 64) :
    DynSyms where
  syms := [DynSyms.sym value size "main" fits]
  sorted := List.pairwise_singleton _ _

section

variable {value size base : Nat} {fits : value < 2 ^ 64 ∧ size < 2 ^ 64}

theorem oneSymbol_wellFormed (ends : value + size < 2 ^ 64)
    (linked : base + value < 2 ^ 64) :
    ∀ f ∈ loadFallbacks none (some (oneSymbol value size fits)),
      f.WellFormed base := by
  intro f member
  cases List.mem_singleton.mp member
  refine ⟨⟨?_, List.pairwise_singleton _ _⟩, ?_⟩
  · intro s among
    cases List.mem_singleton.mp among
    exact ends
  · intro s among
    cases List.mem_singleton.mp among
    exact linked

/-- The one symbol has the addresses up to its end. -/
theorem names_oneSymbol {rel : Nat} {name : String} :
    (∃ f ∈ loadFallbacks none (some (oneSymbol value size fits)),
        f.Names rel name) ↔
      "main" = name ∧ value ≤ rel ∧
        rel < if 0 < size then value + size else 2 ^ 64 - 1 := by
  have stop : (oneSymbol value size fits).stopOf
      (DynSyms.sym value size "main" fits) =
      if 0 < size then value + size else 2 ^ 64 - 1 := by
    rw [DynSyms.stopOf]
    simp [oneSymbol, DynSyms.sym]
  rw [← stop]
  constructor
  · rintro ⟨f, member, lo, hi, range, bounds⟩
    cases List.mem_singleton.mp member
    obtain ⟨s, among, rfl, rfl, rfl⟩ := range
    cases List.mem_singleton.mp among
    exact ⟨rfl, bounds⟩
  · rintro ⟨rfl, bounds⟩
    exact ⟨_, List.mem_singleton_self _, _, _,
      ⟨_, List.mem_singleton_self _, rfl, rfl, rfl⟩, bounds⟩

end

section

variable {elf : ElfFile} {pageSize base : Nat} {seg : Segment}
  {m : ProcMaps.Mapping} {pc off : Nat}

/-- Where both paths agree on every table, they agree on a table of one symbol
at the link-time address, so both lookups are that symbol's. -/
theorem meetsBase_of_sameSymbol (search : BinarySearch)
    (layout : Layout elf pageSize base) (maps : MapsSegment pageSize base seg m)
    (loaded : seg ∈ elf.loads) (start_le : m.start ≤ pc)
    (lt_stop : pc < m.stop) (same : SameSymbol search elf pageSize base m pc off) :
    MeetsBase elf pageSize base m pc off := by
  have low := maps.baseAvma_le layout loaded
  have stop := maps.stop_lt
  have linked := maps.linked_le
  have page : pageStart pageSize base ≤ base := Nat.sub_le _ _
  have base_lt : base < 2 ^ 64 := by
    obtain ⟨s, _, rfl⟩ := (ElfFile.imageBase_eq_some.mp layout.base_eq).1
    exact s.vaddr_lt
  have addr : linkAddr pageSize base m pc =
      pageStart pageSize base + (pc - m.baseAvma) := rfl
  -- The answer through the virtual address, for any table.
  have found : ∀ dyn, (∀ f ∈ loadFallbacks none (some dyn),
      f.WellFormed base) →
      ∃ byAddress, Module.symbolOf ⟨m.baseAvma, .virtualAddress, [pc]⟩
          elf ((loadFallbacks none (some dyn)).map (Fallback.source search)) pc =
          some byAddress ∧
        Right (fun name => ∃ f ∈ loadFallbacks none (some dyn),
          f.Names (pc - m.baseAvma) name) byAddress := by
    intro dyn wellFormed
    rw [symbolOf_virtualAddress (by omega) (List.mem_singleton_self pc)
      (by omega)]
    exact firstAnswer_right search wellFormed _
  rcases Nat.lt_or_ge (linkAddr pageSize base m pc) base with below | above
  · -- A symbol from the image base on is found below the image base.
    exfalso
    have wellFormed := @oneSymbol_wellFormed 0 0 base ⟨by decide, by decide⟩
      (by decide) base_lt
    obtain ⟨byAddress, answered, right⟩ := found _ wellFormed
    obtain ⟨_, _, _, answered', _, _, named⟩ := same none _ wellFormed [pc]
      [off] (List.mem_singleton_self pc) (List.mem_singleton_self off)
    cases answered.symm.trans answered'
    have present := right.complete "main"
      (names_oneSymbol.mpr ⟨rfl, Nat.zero_le _, by
        rw [if_neg (by decide)]
        omega⟩)
    obtain ⟨result, rfl⟩ := Option.ne_none_iff_exists'.mp present
    obtain ⟨_, _, lo, _, _, le, _⟩ := named.sound result rfl
    omega
  · have fits : linkAddr pageSize base m pc - base < 2 ^ 64 ∧ 1 < 2 ^ 64 := by
      omega
    have wellFormed := @oneSymbol_wellFormed _ 1 base fits (by omega) (by omega)
    obtain ⟨byAddress, answered, right⟩ := found _ wellFormed
    obtain ⟨byOffset, _, offset, answered', _, namedOff, named⟩ :=
      same none _ wellFormed [pc] [off] (List.mem_singleton_self pc)
        (List.mem_singleton_self off)
    cases answered.symm.trans answered'
    have here := (@namedAt_add base (loadFallbacks none (some (oneSymbol _ 1
      fits))) (linkAddr pageSize base m pc - base) "main").mpr
      (names_oneSymbol.mpr ⟨rfl, Nat.le_refl _, by
        rw [if_pos Nat.one_pos]
        omega⟩)
    rw [Nat.add_sub_cancel' above] at here
    have present := named.complete "main" here
    obtain ⟨result, rfl⟩ := Option.ne_none_iff_exists'.mp present
    have covers := (names_oneSymbol.mp (right.sound result rfl)).2
    rw [if_pos Nat.one_pos] at covers
    refine ⟨by omega, ?_⟩
    cases translated : elf.fileOffsetToVaddr off with
    | none =>
        rw [symbolOf_untranslated translated] at offset
        cases offset
        exact absurd rfl (namedOff.complete "main" here)
    | some vaddr =>
        obtain ⟨s, sLoaded, inside, sum⟩ :=
          layout.fileOffsetToVaddr_eq_some.mp translated
        have sFits := layout.fits s sLoaded
        rw [symbolOf_fileOffset (List.mem_singleton_self off) translated
          (by omega)] at offset
        obtain ⟨found, answered, right⟩ :=
          firstAnswer_right search wellFormed vaddr
        cases answered.symm.trans offset
        obtain ⟨result, rfl⟩ :=
          Option.ne_none_iff_exists'.mp (namedOff.complete "main" here)
        have covers := (names_oneSymbol.mp (right.sound result rfl)).2
        rw [if_pos Nat.one_pos] at covers
        exact ⟨s, sLoaded, inside.1, inside.2, by omega⟩

/-- The two paths find the same symbol exactly where their lookups meet: for a
frame in the file part of its own segment, where the image base is 0. -/
theorem sameSymbol_iff (search : BinarySearch)
    (layout : Layout elf pageSize base) (maps : MapsSegment pageSize base seg m)
    (loaded : seg ∈ elf.loads) (start_le : m.start ≤ pc)
    (lt_stop : pc < m.stop) (captured : m.fileOffset pc = some off) :
    (SameSymbol search elf pageSize base m pc off ↔
        MeetsBase elf pageSize base m pc off) ∧
      (seg.offset ≤ off → off < seg.offset + seg.filesz →
        (MeetsBase elf pageSize base m pc off ↔ base = 0)) := by
  refine ⟨⟨meetsBase_of_sameSymbol search layout maps loaded start_le lt_stop,
    MeetsBase.sameSymbol search layout maps loaded start_le lt_stop⟩, ?_⟩
  intro le lt
  have own := maps.linkAddr_eq layout loaded start_le captured le
  constructor
  · intro ⟨_, s, sLoaded, sLe, sLt, sum⟩
    cases layout.unique sLoaded loaded ⟨sLe, sLt⟩ ⟨le, lt⟩
    omega
  · rintro rfl
    exact ⟨Nat.zero_sub _, seg, loaded, le, lt, by rw [own, Nat.zero_add]⟩

end

theorem start_lt : 0 < 2 ^ 64 := by
  decide

theorem header_lt : 0x800 < 2 ^ 64 := by
  decide

def headerSegment (base : Nat) (small : base + 0x2000 < 2 ^ 64) : Segment where
  pType := ptLoad
  offset := 0
  vaddr := base
  filesz := 0x800
  memsz := 0x800
  offset_lt := start_lt
  filesz_lt := header_lt
  vaddr_lt := (Nat.le_add_right base _).trans_lt small

theorem page_lt : 0x1000 < 2 ^ 64 := by
  decide

def textSegment (base : Nat) (small : base + 0x2000 < 2 ^ 64) : Segment where
  pType := ptLoad
  offset := 0x1000
  vaddr := base + 0x2000
  filesz := 0x1000
  memsz := 0x1000
  offset_lt := page_lt
  vaddr_lt := small
  filesz_lt := page_lt

def twoSegments (base : Nat) (small : base + 0x2000 < 2 ^ 64) : ElfFile where
  segments := [headerSegment base small, textSegment base small]
  sections := []
  data := ⟨[], by decide⟩

def textMapping (baseAvma : Nat) : ProcMaps.Mapping where
  start := baseAvma + 0x2000
  stop := baseAvma + 0x3000
  offset := 0x1000
  baseAvma := baseAvma
  devMajor := 0xfd
  devMinor := 1
  inode := 1
  path := []
  buildId := []

section

variable {base baseAvma : Nat} {small : base + 0x2000 < 2 ^ 64}

theorem loads_twoSegments : (twoSegments base small).loads =
    [headerSegment base small, textSegment base small] :=
  rfl

theorem textSegment_mem :
    textSegment base small ∈ (twoSegments base small).loads :=
  List.mem_cons_of_mem _ (List.mem_singleton_self _)

theorem twoSegments_layout (aligned : base % 0x1000 = 0)
    (fits : base + 0x3000 < 2 ^ 64) :
    Layout (twoSegments base small) 0x1000 base where
  base_eq := by
    rw [ElfFile.imageBase_eq_some, loads_twoSegments, List.forall_mem_cons]
    exact ⟨⟨_, List.mem_cons_self, rfl⟩, Nat.le_refl base,
      List.forall_mem_singleton.mpr (Nat.le_add_right base _)⟩
  fileApart := List.pairwise_pair.mpr (.inl (show 0x800 ≤ 0x1000 by decide))
  congruent := by
    rw [loads_twoSegments, List.forall_mem_cons, List.forall_mem_singleton]
    refine ⟨aligned, ?_⟩
    change (base + 0x2000) % 0x1000 = 0x1000 % 0x1000
    omega
  fits := by
    rw [loads_twoSegments, List.forall_mem_cons, List.forall_mem_singleton]
    refine ⟨⟨Nat.le_refl _, ?_⟩, Nat.le_refl _, fits⟩
    change base + 0x800 < 2 ^ 64
    omega

theorem textMapping_maps (aligned : base % 0x1000 = 0)
    (loadFits : baseAvma + 0x3000 < 2 ^ 64) (fits : base + 0x3000 < 2 ^ 64) :
    MapsSegment 0x1000 base (textSegment base small) (textMapping baseAvma) where
  page_le := Nat.sub_le _ _
  placed := by
    change baseAvma + 0x2000 + 0x1000 + (base - base % 0x1000) =
      baseAvma + (base + 0x2000) + 0x1000
    omega
  stop_lt := loadFits
  linked_le := by
    change base - base % 0x1000 + (baseAvma + 0x3000 - baseAvma) ≤ 2 ^ 64
    omega

end

theorem sameSymbol_pie :
    SameSymbol partitionSearch (twoSegments 0 (by decide)) 0x1000 0
      (textMapping 0x7f0000000000) 0x7f0000002010 0x1010 := by
  have iff := sameSymbol_iff partitionSearch
    (@twoSegments_layout 0 (by decide) rfl (by decide))
    (@textMapping_maps 0 0x7f0000000000 (by decide) rfl (by decide) (by decide))
    textSegment_mem
    (show 0x7f0000002000 ≤ 0x7f0000002010 by decide)
    (show 0x7f0000002010 < 0x7f0000003000 by decide)
    (show (textMapping 0x7f0000000000).fileOffset 0x7f0000002010 = some 0x1010
      by decide)
  exact iff.1.mpr ((iff.2 (by decide) (by decide)).mpr rfl)

/-- An image linked at 0x400000: the function at its text's address 0x402010 is
found there, and not at its file offset. -/
theorem not_sameSymbol_nonPie :
    Layout (twoSegments 0x400000 (by decide)) 0x1000 0x400000 ∧
      MapsSegment 0x1000 0x400000 (textSegment 0x400000 (by decide))
        (textMapping 0x400000) ∧
      (textMapping 0x400000).fileOffset 0x402010 = some 0x1010 ∧
      ¬ SameSymbol partitionSearch (twoSegments 0x400000 (by decide)) 0x1000
        0x400000 (textMapping 0x400000) 0x402010 0x1010 := by
  refine ⟨twoSegments_layout (by decide) (by decide),
    textMapping_maps (by decide) (by decide) (by decide), by decide, ?_⟩
  intro same
  have wellFormed := @oneSymbol_wellFormed 0x2010 0x10 0x400000
    (by decide) (by decide) (by decide)
  obtain ⟨byOffset, byAddress, offset, address, names, _⟩ := same none _
    wellFormed [0x402010] [0x1010] (List.mem_singleton_self _)
    (List.mem_singleton_self _)
  have missed : Module.symbolOf ⟨0, .fileOffset, [0x1010]⟩
      (twoSegments 0x400000 (by decide))
      ((loadFallbacks none (some (oneSymbol 0x2010 0x10 (by decide)))).map
        (Fallback.source partitionSearch)) 0x1010 = some none := by
    decide +kernel
  have found : Module.symbolOf
      ⟨(textMapping 0x400000).baseAvma, .virtualAddress, [0x402010]⟩
      (twoSegments 0x400000 (by decide))
      ((loadFallbacks none (some (oneSymbol 0x2010 0x10 (by decide)))).map
        (Fallback.source partitionSearch)) 0x402010 =
      some (some ("main", 0)) := by
    decide +kernel
  cases missed.symm.trans offset
  cases found.symm.trans address
  cases names

end Sismo.Symbolize
