import Sismo.Unwind.Blocks

namespace Sismo.Unwind

/-! The row the walker uses against the covering row of the executable. -/

def rowsAtOrBelow (rows : List CompactUnwindRow) (pc : Nat) : Nat :=
  partitionPoint (fun row => row.pc ≤ pc) rows

def coveringRow (rows : List CompactUnwindRow) (pc : Nat) : Option Nat :=
  match rowsAtOrBelow rows pc with
  | 0 => none
  | count + 1 => some count

/-- The lookup leaves the executable's covering row: above the first 64 KiB,
with rows below the page in the flat array, either the executable has no row at
or below the pc, or the bisection of the page runs out of iterations before it
reaches one. -/
def Strays (toPages : List CompactUnwindRow → List Page) (start : Nat)
    (rows : List CompactUnwindRow) (pc : Nat) : Prop :=
  0 < highPc pc ∧ ∃ page ∈ toPages rows, page.address = highPc pc ∧
    0 < start + page.lowIndex ∧
    (coveringRow rows pc = none ∨
      page.lowIndex < rowsAtOrBelow rows pc ∧
        bisectExhausts Maps.maxBinarySearchDepth
          (page.highIndex - page.lowIndex)
          (rowsAtOrBelow rows pc - page.lowIndex) = true)

section

variable {rows : List CompactUnwindRow} {pc : Nat}

variable (pc) in
theorem lt_rowsAtOrBelow_iff
    (sorted : rows.Pairwise fun first second => first.pc ≤ second.pc)
    {i : Nat} {row : CompactUnwindRow} (found : rows[i]? = some row) :
    i < rowsAtOrBelow rows pc ↔ row.pc ≤ pc := by
  have partitioned : rows.Pairwise fun first second =>
      decide (second.pc ≤ pc) = true → decide (first.pc ≤ pc) = true :=
    sorted.imp fun le => by
      simp only [decide_eq_true_eq]
      omega
  rw [rowsAtOrBelow, lt_partitionPoint_iff partitioned found,
    decide_eq_true_eq]

theorem coveringRow_eq_some {k : Nat} :
    coveringRow rows pc = some k ↔ rowsAtOrBelow rows pc = k + 1 := by
  rw [coveringRow]
  split
  · next none => simp [none]
  · next count some => simp [some]

theorem coveringRow_eq_none :
    coveringRow rows pc = none ↔ rowsAtOrBelow rows pc = 0 := by
  rw [coveringRow]
  split
  · next none => simp [none]
  · next count some => simp [some]

/-- The covering row is at or below the pc and every later row is above it. -/
theorem coveringRow_eq_some_iff
    (sorted : rows.Pairwise fun first second => first.pc ≤ second.pc)
    {k : Nat} :
    coveringRow rows pc = some k ↔
      (∃ row, rows[k]? = some row ∧ row.pc ≤ pc) ∧
        ∀ j row, k < j → rows[j]? = some row → pc < row.pc := by
  have within : rowsAtOrBelow rows pc ≤ rows.length :=
    partitionPoint_le_length _ _
  rw [coveringRow_eq_some]
  constructor
  · intro count
    constructor
    · have found := List.getElem?_eq_getElem (show k < rows.length by omega)
      exact ⟨_, found, (lt_rowsAtOrBelow_iff pc sorted found).mp (by omega)⟩
    · intro j row later found
      have := (lt_rowsAtOrBelow_iff pc sorted found).not
      omega
  · rintro ⟨⟨row, found, below⟩, above⟩
    have atLeast := (lt_rowsAtOrBelow_iff pc sorted found).mpr below
    by_contra more
    have next := List.getElem?_eq_getElem (show k + 1 < rows.length by omega)
    have := above (k + 1) _ (Nat.lt_succ_self k) next
    have := (lt_rowsAtOrBelow_iff pc sorted next).mp (by omega)
    omega

end

theorem pageSize_eq : pageSize = 65536 := rfl

section

variable {toPages : List CompactUnwindRow → List Page}
variable {rows : List CompactUnwindRow} {page : Page} {pc : Nat}

structure PageRange (rows : List CompactUnwindRow) (page : Page) (pc : Nat) :
    Prop where
  nonempty : page.lowIndex < page.highIndex
  within : page.highIndex ≤ rows.length
  low_le : page.lowIndex ≤ rowsAtOrBelow rows pc
  le_high : rowsAtOrBelow rows pc ≤ page.highIndex
  sorted : ∀ i row, rows[i]? = some row → page.lowIndex ≤ i →
    i < page.highIndex →
    (lowPc row.pc ≤ lowPc pc ↔ i < rowsAtOrBelow rows pc)

theorem Paging.pageRange (paging : Paging toPages) (table : RowTable rows)
    (member : page ∈ toPages rows) (fits : pc < 2 ^ 48)
    (address : page.address = highPc pc) : PageRange rows page pc := by
  obtain ⟨nonempty, within⟩ := paging.range rows table page member
  have high : ∀ i row, rows[i]? = some row →
      (page.lowIndex ≤ i ∧ i < page.highIndex ↔
        row.pc / 65536 = pc / 65536) := by
    intro i row found
    rw [paging.inPage rows table page member i row found, address,
      highPc_eq fits,
      highPc_eq (table.pc_lt row (List.mem_of_getElem? found)),
      pageSize_eq]
    omega
  have order : ∀ (i j : Nat) (first second : CompactUnwindRow), i ≤ j →
      rows[i]? = some first → rows[j]? = some second →
      first.pc ≤ second.pc := by
    intro i j first second le firstFound secondFound
    rcases Nat.lt_or_eq_of_le le with less | rfl
    · obtain ⟨iLt, rfl⟩ := List.getElem?_eq_some_iff.mp firstFound
      obtain ⟨jLt, rfl⟩ := List.getElem?_eq_some_iff.mp secondFound
      exact List.pairwise_iff_getElem.mp table.sorted i j iLt jLt less
    · cases firstFound.symm.trans secondFound
      exact Nat.le_refl _
  have atLow := List.getElem?_eq_getElem
    (show page.lowIndex < rows.length by omega)
  have atLast := List.getElem?_eq_getElem
    (show page.highIndex - 1 < rows.length by omega)
  have lowPage := (high _ _ atLow).mp (by omega)
  have lastPage := (high _ _ atLast).mp (by omega)
  refine ⟨nonempty, within, ?_, ?_, ?_⟩
  · -- A row just below the range has smaller high bits.
    by_contra short
    have before := List.getElem?_eq_getElem
      (show page.lowIndex - 1 < rows.length by omega)
    have outside := (high _ _ before).not.mp (by omega)
    have le := order _ _ _ _ (by omega) before atLow
    have notBelow := (lt_rowsAtOrBelow_iff pc table.sorted
      before).not.mp (by omega)
    omega
  · by_contra long
    have total : rowsAtOrBelow rows pc ≤ rows.length :=
      partitionPoint_le_length _ _
    have after := List.getElem?_eq_getElem
      (show page.highIndex < rows.length by omega)
    have outside := (high _ _ after).not.mp (by omega)
    have le := order _ _ _ _ (by omega) atLast after
    have below := (lt_rowsAtOrBelow_iff pc table.sorted
      after).mp (by omega)
    omega
  · intro i row found low below
    have samePage := (high i row found).mp ⟨low, below⟩
    rw [lt_rowsAtOrBelow_iff pc table.sorted found, lowPc_eq, lowPc_eq,
      pageSize_eq]
    omega

end

section

variable {toPages : List CompactUnwindRow → List Page}
variable {t : UnwindTables} {install : Install} {start : Nat}

/-- The in-page search finds the covering row of the page, unless there is none
or the iterations run out. -/
theorem Installed.unwindSearch_eq
    (installed : Installed toPages t install start) {page : Page} {pc : Nat}
    (range : PageRange install.rows page pc) :
    t.maps.unwindSearch (lowPc pc) (start + page.lowIndex)
        (start + page.highIndex) =
      if bisectExhausts Maps.maxBinarySearchDepth
          (page.highIndex - page.lowIndex)
          (rowsAtOrBelow install.rows pc - page.lowIndex) then none
      else if rowsAtOrBelow install.rows pc - page.lowIndex = 0 then none
      else some (start + rowsAtOrBelow install.rows pc - 1) := by
  have nonempty := range.nonempty
  have within := range.within
  have low := range.low_le
  have high := range.le_high
  have endLe := installed.end_le
  have room := installed.room
  have elements : start + page.highIndex - (start + page.lowIndex) =
      page.highIndex - page.lowIndex := by omega
  rw [Maps.unwindSearch, bisectLast_eq _ (by omega)
    (show rowsAtOrBelow install.rows pc - page.lowIndex ≤ _ by omega)]
  · rw [elements]
    split
    · rfl
    · split
      · rfl
      · congr 1
        omega
  · intro i lowLe below
    obtain ⟨k, rfl⟩ := Nat.exists_eq_add_of_le (show start ≤ i by omega)
    have found := List.getElem?_eq_getElem
      (show k < install.rows.length by omega)
    have row : t.maps.row (start + k) =
        some (install.rows[k]).wire := by
      rw [Maps.row, if_pos (by omega), installed.rows k _ found]
    simp only [row, Option.map_some, CompactUnwindRow.wire, Option.some.injEq,
      decide_eq_decide]
    rw [range.sorted k _ found (by omega) (by omega)]
    omega

/-- The previous-page fallback takes the row before the range for every pc above
the first 64 KiB, and for none below. -/
theorem previousPage_add_lt_iff {pc pcLow : Nat} (fits : pc < 2 ^ 48)
    (small : pcLow < 2 ^ 16) :
    u64 (previousPage (highPc pc) + pcLow) < pc ↔ 0 < highPc pc := by
  rw [highPc_eq fits, previousPage, wrappingSub, u64, u64, pageSize_eq]
  omega

theorem Installed.lookupRow_eq
    (installed : Installed toPages t install start) {mapping : Mapping}
    {ip pc : Nat} (owner : mapping.executableId = install.executableId)
    (relative : wrappingSub ip mapping.loadAddress = pc)
    (fits : pc < 2 ^ 48) {page : Page} (member : page ∈ toPages install.rows)
    (address : page.address = highPc pc)
    (range : PageRange install.rows page pc) :
    t.maps.lookupRow mapping ip =
      if bisectExhausts Maps.maxBinarySearchDepth
          (page.highIndex - page.lowIndex)
          (rowsAtOrBelow install.rows pc - page.lowIndex) = true ∨
          rowsAtOrBelow install.rows pc - page.lowIndex = 0 then
        if start + page.lowIndex = 0 ∨ highPc pc = 0 then .notFound
        else .found (start + page.lowIndex - 1)
      else .found (start + rowsAtOrBelow install.rows pc - 1) := by
  have found := installed.pages page member
  rw [address] at found
  rw [Maps.lookupRow, relative, owner]
  simp only [found, installed.unwindSearch_eq range]
  by_cases missed : bisectExhausts Maps.maxBinarySearchDepth
      (page.highIndex - page.lowIndex)
      (rowsAtOrBelow install.rows pc - page.lowIndex) = true ∨
      rowsAtOrBelow install.rows pc - page.lowIndex = 0
  · have none : ∀ index : Nat, (if bisectExhausts Maps.maxBinarySearchDepth
          (page.highIndex - page.lowIndex)
          (rowsAtOrBelow install.rows pc - page.lowIndex) = true then
          (none : Option Nat)
        else if rowsAtOrBelow install.rows pc - page.lowIndex = 0 then none
        else some index) = none := by
      intro index
      rcases missed with exhausted | empty
      · rw [if_pos exhausted]
      · rw [if_pos empty, ite_self]
    rw [if_pos missed, none]
    by_cases first : start + page.lowIndex = 0
    · simp [first]
    · have within := range.within
      have nonempty := range.nonempty
      have endLe := installed.end_le
      have room := installed.room
      have row : t.maps.row (start + page.lowIndex - 1) =
          some (t.maps.rows (start + page.lowIndex - 1)) :=
        if_pos (by omega)
      simp only [first, row, previousPage_add_lt_iff fits
        (t.maps.rows (start + page.lowIndex - 1)).pcLow_lt, ↓reduceIte,
        false_or]
      by_cases zero : highPc pc = 0
      · simp [zero]
      · rw [if_pos (Nat.pos_of_ne_zero zero), if_neg zero]
  · rw [not_or] at missed
    simp only [missed.1, missed.2, or_self, Bool.false_eq_true, ↓reduceIte]

/-- The page of a pc is the only one with its address. -/
theorem Installed.strays_iff
    (installed : Installed toPages t install start) {page : Page} {pc : Nat}
    (member : page ∈ toPages install.rows)
    (address : page.address = highPc pc) :
    Strays toPages start install.rows pc ↔ 0 < highPc pc ∧
      0 < start + page.lowIndex ∧ (rowsAtOrBelow install.rows pc = 0 ∨
        page.lowIndex < rowsAtOrBelow install.rows pc ∧
          bisectExhausts Maps.maxBinarySearchDepth
            (page.highIndex - page.lowIndex)
            (rowsAtOrBelow install.rows pc - page.lowIndex) = true) := by
  rw [← coveringRow_eq_none]
  constructor
  · intro ⟨high, other, otherMember, otherAddress, rest⟩
    have same := installed.pages other otherMember
    rw [otherAddress, ← address, installed.pages page member,
      Option.some.injEq, PageValue.mk.injEq] at same
    have low : other.lowIndex = page.lowIndex := by omega
    have upper : other.highIndex = page.highIndex := by omega
    rw [low, upper] at rest
    exact ⟨high, rest⟩
  · intro ⟨high, rest⟩
    exact ⟨high, page, member, address, rest⟩

def UsesCoveringRow (rows : List CompactUnwindRow) (start pc : Nat)
    (lookup : Maps.RowLookup) : Prop :=
  ∀ index, lookup = .found index →
    ∃ k, coveringRow rows pc = some k ∧ index = start + k

theorem Installed.covers_iff (paging : Paging toPages)
    (installed : Installed toPages t install start)
    (table : RowTable install.rows) {mapping : Mapping} {ip pc : Nat}
    (owner : mapping.executableId = install.executableId)
    (relative : wrappingSub ip mapping.loadAddress = pc)
    (fits : pc < 2 ^ 48) :
    UsesCoveringRow install.rows start pc (t.maps.lookupRow mapping ip) ↔
      ¬ Strays toPages start install.rows pc := by
  by_cases covered : ∃ page ∈ toPages install.rows, page.address = highPc pc
  · obtain ⟨page, member, address⟩ := covered
    have range := paging.pageRange table member fits address
    have lowLe := range.low_le
    rw [installed.strays_iff member address,
      installed.lookupRow_eq owner relative fits member address range]
    by_cases missed : bisectExhausts Maps.maxBinarySearchDepth
        (page.highIndex - page.lowIndex)
        (rowsAtOrBelow install.rows pc - page.lowIndex) = true ∨
        rowsAtOrBelow install.rows pc - page.lowIndex = 0
    · rw [if_pos missed]
      by_cases first : start + page.lowIndex = 0 ∨ highPc pc = 0
      · rw [if_pos first]
        constructor
        · omega
        · exact fun _ index found => nomatch found
      · rw [if_neg first]
        constructor
        · -- The fallback's row is just below the page.
          intro uses strays
          obtain ⟨k, covering, index⟩ := uses _ rfl
          have count := coveringRow_eq_some.mp covering
          omega
        · intro stays index found
          cases found
          refine ⟨rowsAtOrBelow install.rows pc - 1,
            coveringRow_eq_some.mpr ?_, ?_⟩
          · omega
          · by_contra other
            have notEmpty : rowsAtOrBelow install.rows pc - page.lowIndex ≠
              0 := by omega
            have exhausted := missed.resolve_right notEmpty
            exact stays ⟨by omega, by omega, .inr ⟨by omega, exhausted⟩⟩
    · rw [if_neg missed]
      rw [not_or] at missed
      constructor
      · intro _ ⟨_, _, rest⟩
        rcases rest with none | ⟨_, exhausted⟩
        · omega
        · exact missed.1 exhausted
      · intro _ index found
        cases found
        exact ⟨rowsAtOrBelow install.rows pc - 1,
          coveringRow_eq_some.mpr (by omega), by omega⟩
  · -- No rows of the executable in the page of the pc.
    have noPage : t.maps.lookupRow mapping ip = .noPage := by
      rw [Maps.lookupRow, relative, owner]
      cases found : t.maps.pages.lookup ⟨install.executableId, highPc pc⟩ with
      | none => simp only
      | some value => exact absurd (installed.only _ _ found) covered
    rw [noPage]
    constructor
    · intro _ ⟨_, page, member, address, _⟩
      exact covered ⟨page, member, address⟩
    · exact fun _ index found => nomatch found

/-- Installing modules one after another, a row the step uses for a pc of a
mapping is the covering row of the mapping's executable exactly when the lookup
does not stray. -/
theorem usesCoveringRow_iff (paging : Paging toPages)
    {installs before after : List Install} {install : Install}
    {pid ip : Nat} {mapping : Mapping}
    (distinct : (installs.map Install.executableId).Nodup)
    (wellFormed : ∀ install ∈ installs, install.WellFormed)
    (room : RoomFor toPages { targetPid := pid } installs)
    (placed : installs = before ++ install :: after)
    (resolved : (installAll toPages { targetPid := pid }
      installs).maps.unwindFindMapping pid ip = some mapping)
    (inside : mapping.begin ≤ ip ∧ ip < mapping.end_)
    (owner : mapping.executableId = install.executableId) :
    let start := (before.map (·.rows.length)).sum
    UsesCoveringRow install.rows start (ip - install.loadAddress)
        ((installAll toPages { targetPid := pid } installs).maps.lookupRow
          mapping ip) ↔
      ¬ Strays toPages start install.rows (ip - install.loadAddress) := by
  have loaded := Loaded.append_installs paging (Loaded.empty pid)
    (by simpa using distinct)
    (fun install member => (wellFormed install member).table) room
  rw [List.nil_append] at loaded
  have member : install ∈ installs := by simp [placed]
  -- Only this executable's install writes mappings under its id.
  obtain ⟨other, inInstalls, range, inRanges, rfl⟩ :=
    loaded.mapping_of_unwindFindMapping resolved
  obtain rfl : other = install :=
    List.inj_on_of_nodup_map distinct inInstalls member owner
  have bounds := (wellFormed other member).ranges range inRanges
  simp only [Install.mapping] at inside
  apply (loaded.installed before other after placed).covers_iff paging
    (wellFormed other member).table rfl
  · simp only [Install.mapping, wrappingSub, u64]
    omega
  · omega

end

/-- With fewer than 65536 rows to a page, only a pc below the executable's first
row strays. -/
theorem Strays.uncovered {toPages : List CompactUnwindRow → List Page}
    {rows : List CompactUnwindRow} {start pc : Nat}
    (strays : Strays toPages start rows pc) (paging : Paging toPages)
    (table : RowTable rows) (fits : pc < 2 ^ 48)
    (small : ∀ page ∈ toPages rows,
      page.highIndex - page.lowIndex < 2 ^ 16) :
    coveringRow rows pc = none := by
  obtain ⟨_, page, member, address, _, rest⟩ := strays
  rcases rest with none | ⟨_, exhausted⟩
  · exact none
  · have range := paging.pageRange table member fits address
    have within := range.le_high
    have finished := bisectExhausts_of_lt
      (show rowsAtOrBelow rows pc - page.lowIndex ≤
        page.highIndex - page.lowIndex by omega) (small page member)
    exact absurd exhausted (by simp [Maps.maxBinarySearchDepth, finished])

def executable : Install where
  executableId := 0x400000
  loadAddress := 0
  rows := [{ pc := 0x400000 }]
  ranges := [(0x400000, 0x401000)]
  mappingType := .file

/-- A library whose first row is above its first 64 KiB. -/
def library : Install where
  executableId := 0x7f0000000000
  loadAddress := 0x7f0000000000
  rows := [{ pc := 0x20010 }]
  ranges := [(0x7f0000020000, 0x7f0000021000)]
  mappingType := .file

def twoModules : List Install :=
  [executable, library]

theorem twoModules_wellFormed :
    (twoModules.map Install.executableId).Nodup ∧
      ∀ install ∈ twoModules, install.WellFormed := by
  refine ⟨by decide, fun install member => ⟨⟨?_, ?_⟩, ?_⟩⟩
  · revert install
    decide
  · revert install
    decide
  · revert install
    decide

theorem summarizeAddressRange_twoModules :
    summarizeAddressRange 0x400000 0x400fff = [(0x400000, 52)] ∧
      summarizeAddressRange 0x7f0000020000 0x7f0000020fff =
        [(0x7f0000020000, 52)] :=
  ⟨summarizeAddressRange_block 12 (by decide),
    summarizeAddressRange_block 12 (by decide)⟩

theorem twoModules_room :
    RoomFor pagesByHighPc { targetPid := 7 } twoModules := by
  simp [RoomFor, twoModules, executable, library, installRows,
    Install.mappingEntries, summarizeAddressRange_twoModules]
  decide

theorem twoModules_resolved :
    (installAll pagesByHighPc { targetPid := 7 }
      twoModules).maps.unwindFindMapping 7 0x7f0000020000 =
      some (library.mapping (0x7f0000020000, 0x7f0000021000)) := by
  simp [installAll, twoModules, executable, library, installRows,
    Install.mappingEntries, summarizeAddressRange_twoModules]
  decide

theorem usesCoveringRow_twoModules :
    UsesCoveringRow library.rows ([executable].map (·.rows.length)).sum
        (0x7f0000020000 - library.loadAddress)
        ((installAll pagesByHighPc { targetPid := 7 }
          twoModules).maps.lookupRow
          (library.mapping (0x7f0000020000, 0x7f0000021000)) 0x7f0000020000) ↔
      ¬ Strays pagesByHighPc ([executable].map (·.rows.length)).sum
        library.rows (0x7f0000020000 - library.loadAddress) :=
  usesCoveringRow_iff paging_pagesByHighPc twoModules_wellFormed.1
    twoModules_wellFormed.2 twoModules_room
    (show twoModules = [executable] ++ library :: [] from rfl)
    twoModules_resolved ⟨Nat.le_refl _, by decide⟩ rfl

/-- Below the library's first row the step uses the other executable's row. -/
theorem not_usesCoveringRow_twoModules :
    (twoModules.map Install.executableId).Nodup ∧
      (∀ install ∈ twoModules, install.WellFormed) ∧
      RoomFor pagesByHighPc { targetPid := 7 } twoModules ∧
      ∃ mapping, (installAll pagesByHighPc { targetPid := 7 }
          twoModules).maps.unwindFindMapping 7 0x7f0000020000 = some mapping ∧
        mapping.executableId = library.executableId ∧
        mapping.begin ≤ 0x7f0000020000 ∧ 0x7f0000020000 < mapping.end_ ∧
        coveringRow library.rows (0x7f0000020000 - library.loadAddress) =
          none ∧
        (installAll pagesByHighPc { targetPid := 7 }
          twoModules).maps.lookupRow mapping 0x7f0000020000 = .found 0 := by
  refine ⟨twoModules_wellFormed.1, twoModules_wellFormed.2, twoModules_room, _,
    twoModules_resolved, rfl, by decide, by decide, by decide, ?_⟩
  simp [installAll, twoModules, executable, library, installRows,
    Install.mappingEntries, summarizeAddressRange_twoModules]
  decide

end Sismo.Unwind
