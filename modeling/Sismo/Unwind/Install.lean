import Sismo.Unwind.Tables

namespace Sismo.Unwind

/-! What one install leaves in the walker's maps, and what later installs of
other executables leave of it. -/

section Entries

variable {κ α : Type} [DecidableEq κ] {maxEntries : Nat}

theorem updateElem_eq {map next : HashMap κ α} {key : κ} {value : α}
    (updated : updateElem maxEntries map key value = some next) :
    next = map.insert key value := by
  rw [updateElem] at updated
  split at updated
  · exact (Option.some.inj updated).symm
  · cases updated

theorem lookup_updateAll_of_ne {entries : List (κ × α)} {key : κ}
    (absent : ∀ entry ∈ entries, entry.1 ≠ key) (map : HashMap κ α) :
    (updateAll maxEntries map entries).1.lookup key = map.lookup key := by
  induction entries generalizing map with
  | nil => rfl
  | cons entry rest induction =>
      rw [updateAll]
      cases updated : updateElem maxEntries map entry.1 entry.2 with
      | none => rfl
      | some next =>
          obtain rfl := updateElem_eq updated
          refine (induction (fun other member =>
            absent other (List.mem_cons_of_mem _ member)) _).trans ?_
          rw [HashMap.lookup_insert_eq, if_neg]
          exact (absent entry List.mem_cons_self).symm

theorem lookup_updateAll {entries : List (κ × α)} {map : HashMap κ α}
    (inserted : (updateAll maxEntries map entries).2 = true)
    (distinct : (entries.map Prod.fst).Nodup) {key : κ} {value : α}
    (member : (key, value) ∈ entries) :
    (updateAll maxEntries map entries).1.lookup key = some value := by
  induction entries generalizing map with
  | nil => exact absurd member List.not_mem_nil
  | cons entry rest induction =>
      rw [updateAll] at inserted ⊢
      rw [List.map_cons, List.nodup_cons] at distinct
      cases updated : updateElem maxEntries map entry.1 entry.2 with
      | none => simp [updated] at inserted
      | some next =>
          obtain rfl := updateElem_eq updated
          simp only [updated] at inserted ⊢
          rcases List.mem_cons.mp member with rfl | inRest
          · refine (lookup_updateAll_of_ne (fun other otherMem same => ?_)
              _).trans ?_
            · exact distinct.1 (List.mem_map.mpr ⟨other, otherMem, same⟩)
            · rw [HashMap.lookup_insert_eq, if_pos rfl]
          · exact induction inserted distinct.2 inRest

/-- What is found was inserted or was there before. -/
theorem mem_of_lookup_updateAll {entries : List (κ × α)} {map : HashMap κ α}
    {key : κ} {value : α}
    (found : (updateAll maxEntries map entries).1.lookup key = some value) :
    (key, value) ∈ entries ∨ map.lookup key = some value := by
  induction entries generalizing map with
  | nil => exact .inr found
  | cons entry rest induction =>
      rw [updateAll] at found
      cases updated : updateElem maxEntries map entry.1 entry.2 with
      | none =>
          simp only [updated] at found
          exact .inr found
      | some next =>
          obtain rfl := updateElem_eq updated
          simp only [updated] at found
          rcases induction found with inRest | before
          · exact .inl (List.mem_cons_of_mem _ inRest)
          · rw [HashMap.lookup_insert_eq] at before
            split at before
            · next same =>
                cases before
                exact .inl (same ▸ List.mem_cons_self)
            · exact .inr before

/-- A key that was there or is inserted stays. -/
theorem isSome_lookup_updateAll {entries : List (κ × α)} {map : HashMap κ α}
    {key : κ}
    (present : ((updateAll maxEntries map entries).2 = true ∧
        key ∈ entries.map Prod.fst) ∨ (map.lookup key).isSome) :
    ((updateAll maxEntries map entries).1.lookup key).isSome := by
  induction entries generalizing map with
  | nil => simpa [updateAll] using present
  | cons entry rest induction =>
      rw [updateAll] at present ⊢
      cases updated : updateElem maxEntries map entry.1 entry.2 with
      | none => simpa [updated] using present
      | some next =>
          obtain rfl := updateElem_eq updated
          simp only [updated] at present ⊢
          apply induction
          rw [HashMap.lookup_insert_eq]
          rcases present with ⟨inserted, member⟩ | before
          · rcases List.mem_cons.mp member with rfl | inRest
            · exact .inr (by simp)
            · exact .inl ⟨inserted, inRest⟩
          · right
            split
            · rfl
            · exact before

end Entries

theorem Install.mem_mappingEntries (install : Install) {pid : Nat}
    {key : ExecMappingsKey} {mapping : Mapping}
    (member : (key, mapping) ∈ install.mappingEntries pid) :
    ∃ range ∈ install.ranges, mapping = install.mapping range := by
  obtain ⟨range, inRanges, inBlocks⟩ := List.mem_flatMap.mp member
  obtain ⟨_, _, same⟩ := List.mem_map.mp inBlocks
  exact ⟨range, inRanges, (congrArg Prod.snd same).symm⟩

theorem writeRows_of_lt {rows : Nat → StackUnwindRow} {start index : Nat}
    {added : List CompactUnwindRow} (below : index < start) :
    writeRows rows start added index = rows index := by
  induction added generalizing rows start with
  | nil => rfl
  | cons row rest induction =>
      rw [writeRows, induction (by omega), Function.update_of_ne (by omega)]

theorem writeRows_getElem {rows : Nat → StackUnwindRow} {start i : Nat}
    {added : List CompactUnwindRow} {row : CompactUnwindRow}
    (found : added[i]? = some row) :
    writeRows rows start added (start + i) = row.wire := by
  induction added generalizing rows start i with
  | nil => simp at found
  | cons head rest induction =>
      rw [writeRows]
      cases i with
      | zero =>
          cases found
          refine (writeRows_of_lt (Nat.lt_succ_self start)).trans ?_
          exact Function.update_self _ _ _
      | succ i =>
          have shifted : start + (i + 1) = start + 1 + i := by omega
          rw [shifted]
          exact induction found

section

variable {toPages : List CompactUnwindRow → List Page}

/-- The rows the converter emits for an executable in user space. -/
structure RowTable (rows : List CompactUnwindRow) : Prop where
  sorted : rows.Pairwise fun first second => first.pc ≤ second.pc
  pc_lt : ∀ row ∈ rows, row.pc < 2 ^ 48

/-- The segments of an executable lie in user space, at or above its load
address. -/
structure Install.WellFormed (install : Install) : Prop where
  table : RowTable install.rows
  ranges : ∀ range ∈ install.ranges,
    install.loadAddress ≤ range.1 ∧ range.2 ≤ 2 ^ 48

/-- The converter's paging splits a table into contiguous index ranges by the
high pc bits. -/
structure Paging (toPages : List CompactUnwindRow → List Page) : Prop where
  distinct : ∀ rows, RowTable rows → ((toPages rows).map Page.address).Nodup
  range : ∀ rows, RowTable rows → ∀ page ∈ toPages rows,
    page.lowIndex < page.highIndex ∧ page.highIndex ≤ rows.length
  inPage : ∀ rows, RowTable rows → ∀ page ∈ toPages rows, ∀ i row,
    rows[i]? = some row →
    (page.lowIndex ≤ i ∧ i < page.highIndex ↔ highPc row.pc = page.address)
  covers : ∀ rows, RowTable rows → ∀ row ∈ rows, ∃ page ∈ toPages rows,
    page.address = highPc row.pc

def pagesByHighPc (rows : List CompactUnwindRow) : List Page :=
  (rows.map fun row => highPc row.pc).dedup.map fun address =>
    { address := address
      lowIndex := partitionPoint (fun row => highPc row.pc < address) rows
      highIndex := partitionPoint (fun row => highPc row.pc ≤ address) rows }

theorem RowTable.highPc_sorted {rows : List CompactUnwindRow}
    (table : RowTable rows) :
    rows.Pairwise fun first second => highPc first.pc ≤ highPc second.pc := by
  refine table.sorted.imp_of_mem fun {first second} inFirst inSecond le => ?_
  rw [highPc_eq (table.pc_lt first inFirst),
    highPc_eq (table.pc_lt second inSecond)]
  exact Nat.mul_le_mul_right _ (Nat.div_le_div_right le)

theorem paging_pagesByHighPc : Paging pagesByHighPc := by
  have inPage : ∀ rows, RowTable rows → ∀ page ∈ pagesByHighPc rows, ∀ i row,
      rows[i]? = some row →
      (page.lowIndex ≤ i ∧ i < page.highIndex ↔
        highPc row.pc = page.address) := by
    intro rows table page member i row found
    obtain ⟨address, _, rfl⟩ := List.mem_map.mp member
    have below : i < partitionPoint (fun row => highPc row.pc < address) rows ↔
        highPc row.pc < address := by
      rw [lt_partitionPoint_iff _ found, decide_eq_true_eq]
      exact table.highPc_sorted.imp fun le => by
        simp only [decide_eq_true_eq]
        omega
    have upTo : i < partitionPoint (fun row => highPc row.pc ≤ address) rows ↔
        highPc row.pc ≤ address := by
      rw [lt_partitionPoint_iff _ found, decide_eq_true_eq]
      exact table.highPc_sorted.imp fun le => by
        simp only [decide_eq_true_eq]
        omega
    dsimp only
    omega
  have covers : ∀ rows, ∀ row ∈ rows, ∃ page ∈ pagesByHighPc rows,
      page.address = highPc row.pc := by
    intro rows row member
    refine ⟨_, List.mem_map.mpr ⟨highPc row.pc, ?_, rfl⟩, rfl⟩
    exact List.mem_dedup.mpr (List.mem_map.mpr ⟨row, member, rfl⟩)
  refine ⟨?_, ?_, inPage, fun rows _ => covers rows⟩
  · intro rows _
    rw [pagesByHighPc, List.map_map]
    have addresses : (Page.address ∘ fun address : Nat =>
        ({ address := address
           lowIndex := partitionPoint (fun row => highPc row.pc < address) rows
           highIndex := partitionPoint
             (fun row => highPc row.pc ≤ address) rows } : Page)) = id := rfl
    rw [addresses, List.map_id]
    exact List.nodup_dedup _
  · intro rows table page member
    obtain ⟨address, inRows, rfl⟩ := List.mem_map.mp member
    obtain ⟨row, inTable, same⟩ := List.mem_map.mp (List.mem_dedup.mp inRows)
    obtain ⟨i, within, found⟩ := List.getElem_of_mem inTable
    have inside := (inPage rows table _ member i row
      (found ▸ List.getElem?_eq_getElem within)).mpr same
    exact ⟨by omega, partitionPoint_le_length _ _⟩

structure Installs (toPages : List CompactUnwindRow → List Page)
    (t next : UnwindTables) (install : Install) : Prop where
  rows : next.maps.rows = writeRows t.maps.rows t.nextRow install.rows
  nonempty : install.rows ≠ []
  nextRow : next.nextRow = t.nextRow + install.rows.length
  room : next.nextRow ≤ maxRows
  targetPid : next.targetPid = t.targetPid
  loaded : next.loaded = t.loaded
  pages : next.maps.pages = (updateAll maxPages t.maps.pages
    (install.pageEntries (toPages install.rows) t.nextRow)).1
  pagesInserted : (updateAll maxPages t.maps.pages
    (install.pageEntries (toPages install.rows) t.nextRow)).2 = true
  execMappings : next.maps.execMappings = (updateAll maxMappings
    t.maps.execMappings (install.mappingEntries t.targetPid)).1
  mappingsInserted : (updateAll maxMappings t.maps.execMappings
    (install.mappingEntries t.targetPid)).2 = true

theorem installs_of_modulesLoaded {t : UnwindTables} {install : Install}
    (succeeded : (installRows toPages t install).modulesLoaded =
      t.modulesLoaded + 1) :
    Installs toPages t (installRows toPages t install) install := by
  unfold installRows at succeeded ⊢
  split at succeeded
  · simp at succeeded
  · next fits =>
      rw [not_or] at fits
      obtain ⟨nonempty, room⟩ := fits
      dsimp only at succeeded ⊢
      cases pages : (updateAll maxPages t.maps.pages
        (install.pageEntries (toPages install.rows) t.nextRow)).2 with
      | false =>
          rw [pages] at succeeded
          simp at succeeded
      | true =>
          rw [pages] at succeeded
          cases mappings : (updateAll maxMappings t.maps.execMappings
            (install.mappingEntries t.targetPid)).2 with
          | false =>
              simp [mappings] at succeeded
          | true =>
              simp only [nonempty, room, or_self, Bool.true_eq_false,
                ↓reduceIte]
              exact
                { rows := rfl
                  nonempty := nonempty
                  nextRow := rfl
                  room := Nat.le_of_not_lt room
                  targetPid := rfl
                  loaded := rfl
                  pages := rfl
                  pagesInserted := pages
                  execMappings := rfl
                  mappingsInserted := mappings }

/-- The rows of an executable are at the indices from `start` on, and its pages
are the only ones under its id. -/
structure Installed (toPages : List CompactUnwindRow → List Page)
    (t : UnwindTables) (install : Install) (start : Nat) : Prop where
  rows : ∀ i row, install.rows[i]? = some row →
    t.maps.rows (start + i) = row.wire
  end_le : start + install.rows.length ≤ t.nextRow
  room : t.nextRow ≤ maxRows
  pages : ∀ page ∈ toPages install.rows,
    t.maps.pages.lookup ⟨install.executableId, page.address⟩ =
      some ⟨start + page.lowIndex, start + page.highIndex⟩
  only : ∀ address value,
    t.maps.pages.lookup ⟨install.executableId, address⟩ = some value →
    ∃ page ∈ toPages install.rows, page.address = address

theorem Installs.installed {t next : UnwindTables} {install : Install}
    (paging : Paging toPages) (table : RowTable install.rows)
    (installs : Installs toPages t next install)
    (fresh : ∀ address,
      t.maps.pages.lookup ⟨install.executableId, address⟩ = none) :
    Installed toPages next install t.nextRow where
  rows i row found := by
    rw [installs.rows]
    exact writeRows_getElem found
  end_le := installs.nextRow.ge
  room := installs.room
  pages page member := by
    rw [installs.pages]
    apply lookup_updateAll installs.pagesInserted
    · rw [Install.pageEntries, List.map_map]
      refine (List.Nodup.of_map PageKey.fileOffset ?_)
      rw [List.map_map]
      exact paging.distinct install.rows table
    · exact List.mem_map.mpr ⟨page, member, rfl⟩
  only address value found := by
    rw [installs.pages] at found
    rcases mem_of_lookup_updateAll found with inserted | before
    · obtain ⟨page, member, same⟩ := List.mem_map.mp inserted
      exact ⟨page, member, congrArg (PageKey.fileOffset ∘ Prod.fst) same⟩
    · rw [fresh address] at before
      cases before

theorem Installed.keep {t next : UnwindTables} {install other : Install}
    {start : Nat} (installed : Installed toPages t install start)
    (installs : Installs toPages t next other)
    (distinct : install.executableId ≠ other.executableId) :
    Installed toPages next install start where
  rows i row found := by
    have inside := (List.getElem?_eq_some_iff.mp found).1
    have below := installed.end_le
    rw [installs.rows, writeRows_of_lt (by omega)]
    exact installed.rows i row found
  end_le := by
    have := installed.end_le
    have := installs.nextRow
    omega
  room := installs.room
  pages page member := by
    rw [installs.pages]
    refine (lookup_updateAll_of_ne (fun entry inEntries same => ?_) _).trans
      (installed.pages page member)
    obtain ⟨_, _, rfl⟩ := List.mem_map.mp inEntries
    exact distinct (congrArg PageKey.executableId same).symm
  only address value found := by
    rw [installs.pages] at found
    rcases mem_of_lookup_updateAll found with inserted | before
    · obtain ⟨_, _, same⟩ := List.mem_map.mp inserted
      exact absurd (congrArg (PageKey.executableId ∘ Prod.fst) same).symm
        distinct
    · exact installed.only address value before

/-- What a sequence of installs into empty maps leaves in them. -/
structure Loaded (toPages : List CompactUnwindRow → List Page)
    (installs : List Install) (t : UnwindTables) : Prop where
  nextRow : t.nextRow = (installs.map (·.rows.length)).sum
  installed : ∀ before install after, installs = before ++ install :: after →
    Installed toPages t install (before.map (·.rows.length)).sum
  pages : ∀ key value, t.maps.pages.lookup key = some value →
    ∃ install ∈ installs, install.executableId = key.executableId
  mappings : ∀ key mapping, t.maps.execMappings.lookup key = some mapping →
    ∃ install ∈ installs,
      (key, mapping) ∈ install.mappingEntries t.targetPid
  mapped : ∀ install ∈ installs, ∀ entry ∈ install.mappingEntries t.targetPid,
    (t.maps.execMappings.lookup entry.1).isSome

theorem Loaded.empty (pid : Nat) :
    Loaded toPages [] { targetPid := pid } where
  nextRow := rfl
  installed before install after placed := by
    cases before <;> cases placed
  pages key value found := by cases found
  mappings key mapping found := by cases found
  mapped install member := absurd member List.not_mem_nil

theorem Loaded.snoc {installs : List Install} {t next : UnwindTables}
    {install : Install} (loaded : Loaded toPages installs t)
    (paging : Paging toPages) (table : RowTable install.rows)
    (fresh : install.executableId ∉ installs.map Install.executableId)
    (added : Installs toPages t next install) :
    Loaded toPages (installs ++ [install]) next where
  nextRow := by
    rw [added.nextRow, loaded.nextRow]
    simp
  installed before other after placed := by
    rcases List.eq_nil_or_concat after with rfl | ⟨rest, last, rfl⟩
    · -- The install just made.
      obtain ⟨rfl, same⟩ := List.append_inj' placed rfl
      obtain rfl := List.head_eq_of_cons_eq same
      rw [← loaded.nextRow]
      apply added.installed paging table
      intro address
      rw [Option.eq_none_iff_forall_ne_some]
      intro value found
      obtain ⟨earlier, member, same⟩ := loaded.pages _ _ found
      exact fresh (List.mem_map.mpr ⟨earlier, member, same⟩)
    · -- An earlier one, whose executable has another id.
      have split : installs ++ [install] =
          (before ++ other :: rest) ++ [last] := by simp [placed]
      obtain ⟨placed, _⟩ := List.append_inj' split rfl
      apply (loaded.installed before other rest placed).keep added
      intro same
      apply fresh
      rw [← same, placed]
      simp
  pages key value found := by
    rw [added.pages] at found
    rcases mem_of_lookup_updateAll found with inserted | earlier
    · obtain ⟨_, _, same⟩ := List.mem_map.mp inserted
      exact ⟨install, by simp, congrArg (PageKey.executableId ∘ Prod.fst) same⟩
    · obtain ⟨other, member, same⟩ := loaded.pages _ _ earlier
      exact ⟨other, List.mem_append_left _ member, same⟩
  mappings key mapping found := by
    rw [added.execMappings] at found
    rw [added.targetPid]
    rcases mem_of_lookup_updateAll found with inserted | earlier
    · exact ⟨install, by simp, inserted⟩
    · obtain ⟨other, member, inEntries⟩ := loaded.mappings _ _ earlier
      exact ⟨other, List.mem_append_left _ member, inEntries⟩
  mapped other member entry inEntries := by
    rw [added.targetPid] at inEntries
    rw [added.execMappings]
    rcases List.mem_append.mp member with earlier | last
    · apply isSome_lookup_updateAll
      exact .inr (loaded.mapped other earlier entry inEntries)
    · obtain rfl := List.mem_singleton.mp last
      apply isSome_lookup_updateAll
      exact .inl ⟨added.mappingsInserted, List.mem_map_of_mem inEntries⟩

theorem Loaded.append_installs {t : UnwindTables} {before installs : List Install}
    (paging : Paging toPages) (loaded : Loaded toPages before t)
    (distinct : ((before ++ installs).map Install.executableId).Nodup)
    (tables : ∀ install ∈ installs, RowTable install.rows)
    (room : RoomFor toPages t installs) :
    Loaded toPages (before ++ installs) (installAll toPages t installs) := by
  induction installs generalizing before t with
  | nil => simpa [installAll] using loaded
  | cons install rest induction =>
      obtain ⟨succeeded, room⟩ := room
      have ids : ((before ++ [install]) ++ rest).map Install.executableId =
          (before ++ install :: rest).map Install.executableId := by simp
      have fresh : install.executableId ∉
          before.map Install.executableId := by
        rw [List.map_append, List.nodup_append] at distinct
        intro member
        exact distinct.2.2 _ member _ (by simp) rfl
      have next := loaded.snoc paging (tables install List.mem_cons_self)
        fresh (installs_of_modulesLoaded succeeded)
      have all := induction next (ids ▸ distinct)
        (fun other member => tables other (List.mem_cons_of_mem _ member)) room
      simpa [installAll] using all

end

end Sismo.Unwind
