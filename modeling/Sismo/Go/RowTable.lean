import Mathlib.Data.Nat.Find
import Sismo.Go.Segments
import Sismo.Lib.StableSort

namespace Sismo.Go

/-! The rows of all functions against the frame size of one address. -/

instance : Std.Total rowLe where
  total row other := by
    unfold rowLe
    obtain below | above := Nat.lt_or_ge row.1 other.1
    · exact .inl (.inl below)
    · obtain same | above := Nat.eq_or_lt_of_le above
      · cases value : other.2.isSome with
        | true => exact .inl (.inr ⟨same.symm, fun _ => rfl⟩)
        | false => exact .inr (.inr ⟨same, fun some => by cases some⟩)
      · exact .inr (.inl above)

instance : IsTrans (Nat × Option Int) rowLe where
  trans row middle other first second := by
    unfold rowLe at first second ⊢
    obtain below | ⟨same, first⟩ := first
    · obtain below' | ⟨same', -⟩ := second
      · exact .inl (below.trans below')
      · exact .inl (same' ▸ below)
    · obtain below' | ⟨same', second⟩ := second
      · exact .inl (same ▸ below')
      · exact .inr ⟨same.trans same', fun value => second (first value)⟩

def lastRowAtOrBelow (rows : List (Nat × Option Int)) (addr : Nat) :
    Option (Nat × Option Int) :=
  (rows.filter fun row => row.1 ≤ addr).getLast?

/-- The last value among the rows at an address, and none if there are only end
markers. -/
def shownAt (rows : List (Nat × Option Int)) (addr : Nat) : Option Int :=
  (rows.filterMap fun row => if row.1 = addr then row.2 else none).getLast?

def Placed (rows : List (Nat × Option Int)) (addr : Nat) : Prop :=
  ∃ row ∈ rows, row.1 = addr

instance (rows : List (Nat × Option Int)) :
    DecidablePred (Placed rows) := fun addr => by
  unfold Placed
  infer_instance

/-- No row lies after the first address up to the second. -/
def Clear (rows : List (Nat × Option Int)) (addr upTo : Nat) : Prop :=
  ∀ later, addr < later → later ≤ upTo → ¬ Placed rows later

section

variable {rows : List (Nat × Option Int)} {addr upTo : Nat}

theorem exists_nearest (some : ∃ row ∈ rows, row.1 ≤ upTo) :
    ∃ addr ≤ upTo, Placed rows addr ∧ Clear rows addr upTo := by
  obtain ⟨row, member, le⟩ := some
  refine ⟨Nat.findGreatest (Placed rows) upTo, Nat.findGreatest_le upTo,
    Nat.findGreatest_spec le ⟨row, member, rfl⟩, fun later above within => ?_⟩
  exact Nat.findGreatest_is_greatest above within

/-- A split of the rows at the one that shows: no row after it is at its address
with a value, nor with an end marker if it is one. -/
theorem exists_shown (placed : Placed rows addr) :
    ∃ before after, rows = before ++ (addr, shownAt rows addr) :: after ∧
      (∀ row ∈ before, row.1 = addr → row.2.isSome →
        (shownAt rows addr).isSome) ∧
      ∀ row ∈ after, row.1 = addr →
        (shownAt rows addr).isSome ∧ row.2 = none := by
  cases value : shownAt rows addr with
  | some val =>
      obtain ⟨values, whole⟩ := List.getLast?_eq_some_iff.mp value
      obtain ⟨first, rest, rfl, -, whole⟩ :=
        List.filterMap_eq_append_iff.mp whole
      obtain ⟨skipped, row, after, rfl, -, here, none⟩ :=
        List.filterMap_eq_cons_iff.mp whole
      obtain ⟨same, held⟩ := Option.ite_none_right_eq_some.mp here
      refine ⟨first ++ skipped, after, ?_, fun _ _ _ _ => rfl,
        fun other member at' => ⟨rfl, ?_⟩⟩
      · rw [← same, ← held]
        exact (List.append_assoc _ _ _).symm
      · have missing := List.filterMap_eq_nil_iff.mp none other member
        rwa [if_pos at'] at missing
  | none =>
      have markers : ∀ row ∈ rows, row.1 = addr → row.2 = none := by
        intro row member same
        have missing := List.filterMap_eq_nil_iff.mp
          (List.getLast?_eq_none_iff.mp value) row member
        rwa [if_pos same] at missing
      obtain ⟨row, member, same⟩ := placed
      have here : (addr, none) ∈ rows.reverse := by
        rw [List.mem_reverse, ← same, ← markers row member same]
        exact member
      obtain ⟨after, before, whole, last⟩ := List.eq_append_cons_of_mem here
      have whole : rows = before.reverse ++ (addr, none) :: after.reverse := by
        rw [← rows.reverse_reverse, whole]
        simp
      refine ⟨before.reverse, after.reverse, whole, fun row member same held => ?_,
        fun row member same => ?_⟩
      · have kept : row ∈ rows := whole ▸ List.mem_append_left _ member
        rw [markers row kept same] at held
        exact held
      · have kept : row ∈ rows :=
          whole ▸ List.mem_append_right _ (List.mem_cons_of_mem _ member)
        have marker : row = (addr, none) :=
          Prod.ext same (markers row kept same)
        exact absurd (marker ▸ List.mem_reverse.mp member) last

theorem greatest_of_nearest (le : addr ≤ upTo) (placed : Placed rows addr)
    (clear : Clear rows addr upTo) :
    greatest rowLe (rows.filter fun row => row.1 ≤ upTo) =
      some (addr, shownAt rows addr) := by
  obtain ⟨before, after, whole, earlier, later⟩ := exists_shown placed
  have near : ∀ row ∈ rows, row.1 ≤ upTo → row.1 ≤ addr := by
    intro row member within
    by_contra above
    exact clear row.1 (Nat.not_le.mp above) within ⟨row, member, rfl⟩
  generalize shownAt rows addr = value at *
  rw [whole, List.filter_append, List.filter_cons, if_pos (decide_eq_true le)]
  apply greatest_eq_some
  · intro row kept
    obtain ⟨member, within⟩ := List.mem_filter.mp kept
    have low := near row (whole ▸ List.mem_append_left _ member)
      (of_decide_eq_true within)
    obtain below | same := Nat.lt_or_eq_of_le low
    · exact .inl below
    · exact .inr ⟨same, earlier row member same⟩
  · intro row kept reached
    obtain ⟨member, within⟩ := List.mem_filter.mp kept
    have low := near row
      (whole ▸ List.mem_append_right _ (List.mem_cons_of_mem _ member))
      (of_decide_eq_true within)
    obtain above | ⟨same, held⟩ := reached
    · exact absurd above (Nat.not_lt.mpr low)
    · obtain ⟨some, none⟩ := later row member same.symm
      have held := held some
      rw [none] at held
      cases held

end

namespace GoPclntab

variable (go : GoPclntab)

def entry (i : Nat) : Nat := (go.functab i).1

def Ascending : Prop :=
  ∀ i < go.nfunc, go.entry i < go.entry (i + 1)

def InText (addr : Nat) : Prop :=
  go.textOff + go.entry 0 ≤ addr ∧ addr < go.textOff + go.entry go.nfunc ∧
    addr < 2 ^ 64

def table (i : Nat) : Option Table :=
  (go.pcspOff (go.functab i).2).map fun tableOff =>
    decodeLoop (go.data.drop tableOff) (-1) true

def imageRow (row : Nat × Option Int) : Nat × Option Int :=
  (u64 (go.textOff + row.1), row.2)

def tableRows (i : Nat) : List (Nat × Option Int) :=
  match go.table i with
  | none => []
  | some table => rowsFrom table.cut table.steps (go.entry i)

def allRows : List (Nat × Option Int) :=
  ((List.range go.nfunc).flatMap go.tableRows).map go.imageRow

theorem functionRows_eq (i : Nat) : go.functionRows i = go.tableRows i := by
  unfold functionRows tableRows table
  dsimp only
  cases go.pcspOff (go.functab i).2 with
  | none => rfl
  | some tableOff => exact pcspRowsLoop_eq _ _ _ _

theorem pcspRows_eq : go.pcspRows = go.allRows.insertionSort rowLe := by
  have rows : go.functionRows = go.tableRows := funext go.functionRows_eq
  unfold pcspRows allRows
  rw [rows]
  rfl

theorem tableRows_of_none {i : Nat} (unreadable : go.table i = none) :
    go.tableRows i = [] := by
  rw [tableRows, unreadable]

theorem tableRows_of_some {i : Nat} {table : Table}
    (readable : go.table i = some table) :
    go.tableRows i = rowsFrom table.cut table.steps (go.entry i) := by
  rw [tableRows, readable]

theorem fromLe_lt (bytes : Bytes) : fromLe bytes < 256 ^ bytes.length := by
  induction bytes with
  | nil => exact Nat.one_pos
  | cons b rest induction =>
      have low := b.toNat_lt
      change b.toNat + 256 * fromLe rest < 256 ^ (rest.length + 1)
      rw [Nat.pow_succ]
      omega

theorem entry_lt (i : Nat) : go.entry i < 2 ^ 32 := by
  have low := fromLe_lt ((go.data.drop (go.functabOff + i * 8)).take 4)
  have short := List.length_take_le 4 (go.data.drop (go.functabOff + i * 8))
  exact low.trans_le (Nat.pow_le_pow_right (show 0 < 256 by decide) short)

variable {go}

theorem Ascending.entry_le (ascending : go.Ascending) {i j : Nat}
    (le : i ≤ j) (inside : j ≤ go.nfunc) : go.entry i ≤ go.entry j := by
  induction j with
  | zero => rw [Nat.le_zero.mp le]
  | succ j induction =>
      obtain rfl | below := Nat.eq_or_lt_of_le le
      · exact Nat.le_refl _
      · have step := ascending j (by omega)
        have before := induction (Nat.le_of_lt_succ below) (by omega)
        omega

/-- The binary search keeps the target between its two bounds. -/
theorem findFuncLoop_spec {q lo hi : Nat} (order : lo < hi)
    (low : go.entry lo ≤ q) (high : q < go.entry hi) :
    ∃ i, go.findFuncLoop q lo hi = i ∧ i < hi ∧ go.entry i ≤ q ∧
      q < go.entry (i + 1) := by
  induction lo, hi using findFuncLoop.induct go q with
  | case1 lo hi wide mid below induction =>
      rw [findFuncLoop, if_pos wide]
      dsimp only
      rw [if_pos below]
      exact induction (by omega) below high
  | case2 lo hi wide mid above induction =>
      rw [findFuncLoop, if_pos wide]
      dsimp only
      rw [if_neg above]
      obtain ⟨i, found, inside, bounds⟩ :=
        induction (by omega) low (Nat.not_le.mp above)
      exact ⟨i, found, by omega, bounds⟩
  | case3 lo hi narrow =>
      rw [findFuncLoop, if_neg narrow]
      have next : hi = lo + 1 := by omega
      exact ⟨lo, rfl, order, low, next ▸ high⟩

theorem findFunc_eq {q : Nat} (above : go.entry 0 ≤ q)
    (below : q < go.entry go.nfunc) :
    ∃ f < go.nfunc, go.entry f ≤ q ∧ q < go.entry (f + 1) ∧
      go.findFunc q = some (go.functab f) := by
  obtain ⟨f, found, inside, lower, upper⟩ :=
    findFuncLoop_spec go.nfunc_pos above below
  refine ⟨f, inside, lower, upper, ?_⟩
  unfold GoPclntab.findFunc
  rw [found]
  unfold entry at above below
  exact if_neg (by omega)

theorem frameSize_eq {addr : Nat} (inText : go.InText addr) :
    ∃ f < go.nfunc, go.entry f ≤ addr - go.textOff ∧
      addr - go.textOff < go.entry (f + 1) ∧
      go.frameSize addr = (go.table f).bind fun table =>
        (valueAt table.steps (go.entry f) (addr - go.textOff)).map
          Int32.toInt := by
  obtain ⟨low, high, fits⟩ := inText
  have small := go.entry_lt go.nfunc
  have above : go.entry 0 ≤ addr - go.textOff := by omega
  have below : addr - go.textOff < go.entry go.nfunc := by omega
  obtain ⟨f, inside, lower, upper, findFunc⟩ := go.findFunc_eq above below
  refine ⟨f, inside, lower, upper, ?_⟩
  unfold frameSize table
  rw [if_pos (by omega), Option.bind_eq_bind, Option.bind_some]
  dsimp only
  rw [if_pos (by omega), findFunc]
  cases read : go.pcspOff (go.functab f).2 with
  | none =>
      simp only [Option.bind_eq_bind, Option.bind_some, read]
      rfl
  | some tableOff =>
      simp only [Option.bind_eq_bind, Option.bind_some, read,
        Option.map_some]
      unfold pcvalue
      rw [pcvalueLoop_eq]
      rfl

def Starts (go : GoPclntab) (i : Nat) : Prop :=
  ∃ table, go.table i = some table ∧
    (table.steps ≠ [] ∨ table.cut.isSome)

/-- Every table but the last ends inside its function, and every table with a
step that is not empty. It may be left open where the next function's table
takes over at once, or past the text. -/
structure Regular (go : GoPclntab) : Prop where
  first : (go.table 0).isSome
  whole : ∀ i < go.nfunc, ∀ table, go.table i = some table →
    endOf table.steps (go.entry i) < 2 ^ 32
  within : ∀ i, i + 1 < go.nfunc → ∀ table, go.table i = some table →
    endOf table.steps (go.entry i) ≤ go.entry (i + 1)
  closed : ∀ i < go.nfunc, ∀ table, go.table i = some table →
    table.Closed ∨ (i + 1 = go.nfunc ∧
        go.entry go.nfunc ≤ endOf table.steps (go.entry i)) ∨
      endOf table.steps (go.entry i) = go.entry (i + 1) ∧ go.Starts (i + 1)

theorem Regular.row_bounds (regular : go.Regular) {i : Nat}
    (inside : i < go.nfunc) {row : Nat × Option Int}
    (member : row ∈ go.tableRows i) :
    go.entry i ≤ row.1 ∧ row.1 < 2 ^ 32 ∧
      (i + 1 < go.nfunc → row.1 ≤ go.entry (i + 1)) := by
  cases read : go.table i with
  | none =>
      rw [go.tableRows_of_none read] at member
      cases member
  | some table =>
      rw [go.tableRows_of_some read] at member
      have whole := regular.whole i inside table read
      have bounds := rowsFrom_bounds whole member
      exact ⟨bounds.1, bounds.2.trans_lt whole, fun next =>
        bounds.2.trans (regular.within i next table read)⟩

/-- The last function at or before `f` whose table can be read. -/
theorem exists_readable (first : (go.table 0).isSome) (f : Nat) :
    ∃ h table, h ≤ f ∧ go.table h = some table ∧
      ∀ g, h < g → g ≤ f → go.table g = none := by
  induction f with
  | zero =>
      obtain ⟨table, read⟩ := Option.isSome_iff_exists.mp first
      exact ⟨0, table, Nat.le_refl 0, read, fun g above le => by omega⟩
  | succ f induction =>
      cases read : go.table (f + 1) with
      | some table =>
          exact ⟨f + 1, table, Nat.le_refl _, read, fun g above le => by omega⟩
      | none =>
          obtain ⟨h, table, le, readable, between⟩ := induction
          refine ⟨h, table, by omega, readable, fun g above le => ?_⟩
          obtain rfl | below := Nat.eq_or_lt_of_le le
          · exact read
          · exact between g above (Nat.le_of_lt_succ below)

/-- A row of an earlier function stays at or before the covering row. -/
theorem Regular.rowLe_of_lt (regular : go.Regular) (ascending : go.Ascending)
    {g h : Nat} (order : g < h) (inside : h < go.nfunc) {table : Table}
    (read : go.table h = some table) {q : Nat}
    (closed : q < endOf table.steps (go.entry h) ∨ table.Closed)
    {row other : Nat × Option Int} (low : go.entry h ≤ row.1)
    (high : row.1 ≤ q)
    (marker : row.2 = none → row.1 = endOf table.steps (go.entry h))
    (member : other ∈ go.tableRows g) : rowLe other row := by
  have insideG : g < go.nfunc := order.trans inside
  have notLast : g + 1 < go.nfunc := Nat.lt_of_le_of_lt order inside
  have bounds := (regular.row_bounds insideG member).2.2 notLast
  have entries := ascending.entry_le (show g + 1 ≤ h from order) inside.le
  unfold rowLe
  by_cases below : other.1 < row.1
  · exact .inl below
  · have same : other.1 = row.1 := by omega
    refine .inr ⟨same, fun value => ?_⟩
    rw [Option.isSome_iff_ne_none]
    intro none
    have ended := marker none
    -- Both tables end at the entry of `h`, and the earlier one is open there.
    have next : g + 1 = h := by
      by_contra apart
      have step : go.entry (g + 1) < go.entry (g + 2) :=
        ascending (g + 1) notLast
      have entries := ascending.entry_le (show g + 2 ≤ h by omega) inside.le
      omega
    have closed : table.Closed := closed.resolve_left (by omega)
    cases readG : go.table g with
    | none =>
        rw [go.tableRows_of_none readG] at member
        cases member
    | some earlier =>
        rw [go.tableRows_of_some readG] at member
        obtain closedG | ⟨last, -⟩ | ⟨-, table', read', starts⟩ :=
          regular.closed g insideG earlier readG
        · have short := rowsFrom_value_lt closedG
            (regular.whole g insideG earlier readG) member value
          have within := regular.within g notLast earlier readG
          omega
        · omega
        · rw [next, read] at read'
          cases read'
          obtain nonempty | cut := starts
          · have := closed.lt_endOf nonempty (go.entry h)
            omega
          · rw [closed.whole] at cut
            cases cut

theorem rowLe_imageRow {row other : Nat × Option Int}
    (fits : go.textOff + row.1 < 2 ^ 64) (le : rowLe other row) :
    rowLe (go.imageRow other) (go.imageRow row) := by
  unfold rowLe at le ⊢
  unfold imageRow
  dsimp only
  have whole : u64 (go.textOff + row.1) = go.textOff + row.1 :=
    Nat.mod_eq_of_lt fits
  have whole' : u64 (go.textOff + other.1) = go.textOff + other.1 :=
    Nat.mod_eq_of_lt (by omega)
  rw [whole, whole']
  obtain below | ⟨same, value⟩ := le
  · exact .inl (by omega)
  · exact .inr ⟨by omega, value⟩

/-- A later row that wraps around lies below the text. -/
theorem not_rowLe_imageRow {row other : Nat × Option Int} {addr : Nat}
    (fits : go.textOff + row.1 < 2 ^ 64) (small : other.1 < 2 ^ 32)
    (later : addr < go.textOff + other.1) (found : (go.imageRow other).1 ≤ addr) :
    ¬ rowLe (go.imageRow row) (go.imageRow other) := by
  have textOff := go.textOff_lt
  unfold rowLe
  unfold imageRow at found ⊢
  dsimp only at found ⊢
  have whole : u64 (go.textOff + row.1) = go.textOff + row.1 :=
    Nat.mod_eq_of_lt fits
  have wrapped : u64 (go.textOff + other.1) < go.textOff := by
    unfold u64 at found ⊢
    omega
  rw [whole]
  omega

section Readable

variable {h f q : Nat} {table : Table} (regular : go.Regular)
  (ascending : go.Ascending) (inside : f < go.nfunc) (le : h ≤ f)
  (read : go.table h = some table)
  (between : ∀ g, h < g → g ≤ f → go.table g = none)
include regular ascending inside le read between

/-- The last readable table at or before a function reaches into it, or is
closed by a marker. -/
theorem Regular.reaches_or_closed (high : q < go.entry (f + 1)) :
    q < endOf table.steps (go.entry h) ∨ table.Closed := by
  obtain closed | ⟨last, past⟩ | ⟨ends, table', read', -⟩ :=
    regular.closed h (by omega) table read
  · exact .inr closed
  · have text := ascending.entry_le (show f + 1 ≤ go.nfunc from inside)
      (Nat.le_refl _)
    exact .inl (by omega)
  · obtain rfl | below := Nat.eq_or_lt_of_le le
    · exact .inl (ends ▸ high)
    · rw [between (h + 1) (Nat.lt_succ_self h) below] at read'
      cases read'

/-- It has a value there only if it is the function's own. -/
theorem Regular.value_eq (low : go.entry f ≤ q) :
    (go.table f).bind (fun table =>
      (valueAt table.steps (go.entry f) q).map Int32.toInt) =
      (valueAt table.steps (go.entry h) q).map Int32.toInt := by
  obtain rfl | below := Nat.eq_or_lt_of_le le
  · rw [read]
    rfl
  · have whole := regular.whole h (by omega) table read
    have within := regular.within h (by omega) table read
    have entries := ascending.entry_le (show h + 1 ≤ f from below) inside.le
    rw [between f below (Nat.le_refl f),
      valueAt_of_endOf_le whole (by omega)]
    rfl

end Readable

/-- The covering row of an address comes from the last readable table at or
before its function. -/
theorem Regular.greatest_row (regular : go.Regular)
    (ascending : go.Ascending) {f addr : Nat} (inside : f < go.nfunc)
    (low : go.entry f ≤ addr - go.textOff)
    (high : addr - go.textOff < go.entry (f + 1))
    (above : go.textOff ≤ addr) (fits : addr < 2 ^ 64) :
    ∃ row, greatest rowLe (go.allRows.filter fun row => row.1 ≤ addr) =
        some row ∧
      row.2 = (go.table f).bind fun table =>
        (valueAt table.steps (go.entry f) (addr - go.textOff)).map
          Int32.toInt := by
  generalize same : addr - go.textOff = q at low high
  obtain ⟨h, table, le, read, between⟩ := exists_readable regular.first f
  have insideH : h < go.nfunc := by omega
  have entries := ascending.entry_le le inside.le
  have whole := regular.whole h insideH table read
  have closed := regular.reaches_or_closed ascending inside le read between high
  have value := regular.value_eq ascending inside le read between low
  obtain ⟨before, row, after, rows, rowValue, rowLow, rowHigh, marker, reaches,
    later⟩ := @rowsFrom_cover table.cut _ _ _ whole (by omega) closed
  rw [← go.tableRows_of_some read] at rows
  obtain ⟨earlier, rest, range⟩ :=
    List.append_of_mem (List.mem_range.mpr insideH)
  have sorted : (earlier ++ h :: rest).Pairwise (· < ·) :=
    range ▸ List.pairwise_lt_range
  obtain ⟨-, sorted, first⟩ := List.pairwise_append.mp sorted
  have last := (List.pairwise_cons.mp sorted).1
  have rowFits : go.textOff + row.1 < 2 ^ 64 := by omega
  have split : go.allRows =
      (earlier.flatMap go.tableRows ++ before).map go.imageRow ++
        go.imageRow row ::
          (after ++ rest.flatMap go.tableRows).map go.imageRow := by
    change List.map go.imageRow (List.flatMap _ _) = _
    rw [range, List.flatMap_append, List.flatMap_cons, rows]
    simp only [List.map_append, List.map_cons, List.append_assoc,
      List.cons_append]
  have found : (go.imageRow row).1 ≤ addr := by
    change u64 (go.textOff + row.1) ≤ addr
    have whole : u64 (go.textOff + row.1) = go.textOff + row.1 :=
      Nat.mod_eq_of_lt rowFits
    omega
  refine ⟨go.imageRow row, ?_, rowValue.trans value.symm⟩
  rw [split, List.filter_append, List.filter_cons, if_pos (decide_eq_true found)]
  apply greatest_eq_some
  · intro image kept
    obtain ⟨other, member, rfl⟩ :=
      List.mem_map.mp (List.mem_of_mem_filter kept)
    apply rowLe_imageRow rowFits
    obtain earlier | before := List.mem_append.mp member
    · obtain ⟨g, ordered, member⟩ := List.mem_flatMap.mp earlier
      exact regular.rowLe_of_lt ascending
        (first g ordered h List.mem_cons_self) insideH read closed rowLow
        rowHigh marker member
    · exact reaches other before
  · intro image kept
    obtain ⟨mapped, found⟩ := List.mem_filter.mp kept
    obtain ⟨other, member, rfl⟩ := List.mem_map.mp mapped
    have found := of_decide_eq_true found
    have outside : q < other.1 ∧ other.1 < 2 ^ 32 := by
      obtain after | later := List.mem_append.mp member
      · have member : other ∈ go.tableRows h :=
          rows ▸ List.mem_append_right before (List.mem_cons_of_mem row after)
        have bounds := regular.row_bounds insideH member
        exact ⟨later other after, bounds.2.1⟩
      · obtain ⟨g, ordered, member⟩ := List.mem_flatMap.mp later
        have insideG : g < go.nfunc := List.mem_range.mp
          (range ▸ List.mem_append_right earlier (List.mem_cons_of_mem h ordered))
        have bounds := regular.row_bounds insideG member
        refine ⟨?_, bounds.2.1⟩
        obtain beyond | le := Nat.lt_or_ge f g
        · have entries := ascending.entry_le (show f + 1 ≤ g from beyond)
            insideG.le
          omega
        · rw [go.tableRows_of_none (between g (last g ordered) le)] at member
          cases member
    exact not_rowLe_imageRow rowFits outside.2 (by omega) found

variable (go) in
/-- The last row at or below the address carries its frame size, or it is an
end marker where there is none. -/
def Agrees (addr : Nat) : Prop :=
  (lastRowAtOrBelow go.pcspRows addr).map Prod.snd = some (go.frameSize addr)

variable (go) in
theorem lastRow_pcspRows (addr : Nat) :
    lastRowAtOrBelow go.pcspRows addr =
      greatest rowLe (go.allRows.filter fun row => row.1 ≤ addr) := by
  unfold lastRowAtOrBelow
  rw [pcspRows_eq, filter_insertionSort, getLast?_insertionSort]

theorem Ascending.function_unique (ascending : go.Ascending) {f g q : Nat}
    (insideF : f < go.nfunc) (insideG : g < go.nfunc)
    (lowF : go.entry f ≤ q) (highF : q < go.entry (f + 1))
    (lowG : go.entry g ≤ q) (highG : q < go.entry (g + 1)) : f = g := by
  by_contra apart
  obtain below | above := Nat.lt_or_gt_of_ne apart
  · have := ascending.entry_le (show f + 1 ≤ g from below) insideG.le
    omega
  · have := ascending.entry_le (show g + 1 ≤ f from above) insideF.le
    omega

variable (go) in
def valueIn (f addr : Nat) : Option Int :=
  (go.table f).bind fun table =>
    (valueAt table.steps (go.entry f) (addr - go.textOff)).map Int32.toInt

/-- What the rows of all tables put at an address is right for the function
there, and a function without a table starts behind an end marker. -/
structure Tidy (go : GoPclntab) : Prop where
  shown : ∀ f < go.nfunc, ∀ addr < 2 ^ 64, go.textOff + go.entry f ≤ addr →
    addr < go.textOff + go.entry (f + 1) → Placed go.allRows addr →
    shownAt go.allRows addr = go.valueIn f addr
  follows : ∀ f < go.nfunc, go.table f = none →
    go.textOff + go.entry f < 2 ^ 64 →
    ∃ addr ≤ go.textOff + go.entry f, Placed go.allRows addr ∧
      Clear go.allRows addr (go.textOff + go.entry f) ∧
      shownAt go.allRows addr = none

variable (go) in
theorem placed_tableRows {f : Nat} (inside : f < go.nfunc)
    {row : Nat × Option Int} (member : row ∈ go.tableRows f)
    (fits : go.textOff + row.1 < 2 ^ 64) :
    Placed go.allRows (go.textOff + row.1) :=
  ⟨go.imageRow row, List.mem_map.mpr ⟨row, List.mem_flatMap.mpr
    ⟨f, List.mem_range.mpr inside, member⟩, rfl⟩, Nat.mod_eq_of_lt fits⟩

variable (go) in
theorem placed_entry {f : Nat} (inside : f < go.nfunc)
    (readable : go.table f ≠ none)
    (fits : go.textOff + go.entry f < 2 ^ 64) :
    Placed go.allRows (go.textOff + go.entry f) := by
  obtain ⟨table, read⟩ := Option.ne_none_iff_exists'.mp readable
  have first : ∃ row ∈ go.tableRows f, row.1 = go.entry f := by
    rw [go.tableRows_of_some read]
    cases table.steps with
    | nil => exact ⟨_, List.mem_append_right _ List.mem_cons_self, rfl⟩
    | cons step rest => exact ⟨_, List.mem_cons_self, rfl⟩
  obtain ⟨row, member, same⟩ := first
  rw [← same] at fits ⊢
  exact go.placed_tableRows inside member fits

theorem valueIn_of_clear {f addr upTo : Nat} (inside : f < go.nfunc)
    (above : go.textOff ≤ addr) (le : addr ≤ upTo) (fits : upTo < 2 ^ 64)
    (clear : Clear go.allRows addr upTo) :
    go.valueIn f addr = go.valueIn f upTo := by
  unfold valueIn
  cases read : go.table f with
  | none => rfl
  | some table =>
      rw [Option.bind_some, Option.bind_some,
        @valueAt_of_clear table.cut _ _ (addr - go.textOff)
          (upTo - go.textOff) (by omega)]
      rintro row member ⟨after, within⟩
      rw [← go.tableRows_of_some read] at member
      exact clear (go.textOff + row.1) (by omega) (by omega)
        (go.placed_tableRows inside member (by omega))

theorem agrees_iff_shown {addr p : Nat} (le : p ≤ addr)
    (placed : Placed go.allRows p) (clear : Clear go.allRows p addr) :
    go.Agrees addr ↔ shownAt go.allRows p = go.frameSize addr := by
  unfold Agrees
  rw [lastRow_pcspRows, greatest_of_nearest le placed clear]
  exact Option.some_inj

theorem Ascending.inText (ascending : go.Ascending) {f addr : Nat}
    (inside : f < go.nfunc) (above : go.textOff + go.entry f ≤ addr)
    (below : addr < go.textOff + go.entry (f + 1)) (fits : addr < 2 ^ 64) :
    go.InText addr ∧ go.frameSize addr = go.valueIn f addr := by
  have first := ascending.entry_le (Nat.zero_le f) inside.le
  have last := ascending.entry_le (show f + 1 ≤ go.nfunc from inside)
    (Nat.le_refl _)
  have inText : go.InText addr := ⟨by omega, by omega, fits⟩
  obtain ⟨g, insideG, low, high, size⟩ := go.frameSize_eq inText
  have same : g = f := ascending.function_unique insideG inside low high
    (by omega) (by omega)
  subst same
  exact ⟨inText, size⟩

theorem tidy_of_agrees (ascending : go.Ascending)
    (agrees : ∀ addr, go.InText addr → go.Agrees addr) : go.Tidy where
  shown f inside addr fits above below placed := by
    obtain ⟨inText, size⟩ := ascending.inText inside above below fits
    have clear : Clear go.allRows addr addr := fun later after within =>
      absurd after (Nat.not_lt.mpr within)
    exact ((agrees_iff_shown (Nat.le_refl _) placed clear).mp
      (agrees addr inText)).trans size
  follows f inside unreadable fits := by
    have order := ascending f inside
    obtain ⟨inText, size⟩ := ascending.inText inside (Nat.le_refl _)
      (by omega) fits
    have here := agrees _ inText
    unfold Agrees at here
    rw [lastRow_pcspRows] at here
    obtain ⟨row, found, -⟩ := Option.map_eq_some_iff.mp here
    obtain ⟨member, within⟩ := List.mem_filter.mp (greatest_mem found)
    obtain ⟨addr, le, placed, clear⟩ :=
      exists_nearest ⟨row, member, of_decide_eq_true within⟩
    refine ⟨addr, le, placed, clear, ?_⟩
    rw [(agrees_iff_shown le placed clear).mp (agrees _ inText), size, valueIn,
      unreadable]
    rfl

theorem Tidy.agrees (tidy : go.Tidy) {addr : Nat} (inText : go.InText addr) :
    go.Agrees addr := by
  obtain ⟨f, inside, low, high, size⟩ := go.frameSize_eq inText
  have above : go.textOff ≤ addr := Nat.le_of_add_right_le inText.1
  have fits := inText.2.2
  have some : ∃ row ∈ go.allRows, row.1 ≤ addr := by
    by_cases unreadable : go.table f = none
    · obtain ⟨p, le, ⟨row, member, same⟩, -⟩ :=
        tidy.follows f inside unreadable (by omega)
      exact ⟨row, member, by omega⟩
    · obtain ⟨row, member, same⟩ :=
        go.placed_entry inside unreadable (by omega)
      exact ⟨row, member, by omega⟩
  obtain ⟨p, le, placed, clear⟩ := exists_nearest some
  rw [agrees_iff_shown le placed clear, size]
  change _ = go.valueIn f addr
  by_cases own : go.textOff + go.entry f ≤ p
  · rw [tidy.shown f inside p (by omega) own (by omega) placed]
    exact valueIn_of_clear inside (by omega) le fits clear
  · -- No table puts a row at the entry, so the function has none.
    have unreadable : go.table f = none := by
      by_contra readable
      exact clear _ (Nat.not_le.mp own) (by omega)
        (go.placed_entry inside readable (by omega))
    obtain ⟨other, before, placed', clear', none⟩ :=
      tidy.follows f inside unreadable (by omega)
    have same : p = other := by
      apply Nat.le_antisymm
      · by_contra after
        exact clear' p (Nat.not_le.mp after) (by omega) placed
      · by_contra after
        exact clear other (Nat.not_le.mp after) (by omega) placed'
    rw [same, none, valueIn, unreadable]
    rfl

theorem Regular.tidy (regular : go.Regular) (ascending : go.Ascending) :
    go.Tidy := by
  apply tidy_of_agrees ascending
  intro addr inText
  obtain ⟨f, inside, low, high, size⟩ := go.frameSize_eq inText
  have above : go.textOff ≤ addr := Nat.le_of_add_right_le inText.1
  obtain ⟨row, found, value⟩ := regular.greatest_row ascending inside low high
    above inText.2.2
  unfold Agrees
  rw [lastRow_pcspRows, found, size, ← value]
  rfl

/-- A section with functions at 0 and 0x10, up to 0x20, whose pcsp tables are
the first and the last three bytes of the given ones. -/
def twoFunctions (pctab : Bytes) : Bytes :=
  [0xf1, 0xff, 0xff, 0xff, 0, 0, 1, 8] ++ 2 :: List.replicate 47 0 ++
    0x88 :: List.replicate 7 0 ++ 0x48 :: List.replicate 7 0 ++
    [0, 0, 0, 0, 24, 0, 0, 0, 16, 0, 0, 0, 44, 0, 0, 0, 32, 0, 0, 0, 0, 0, 0, 0] ++
    List.replicate 20 0 ++ List.replicate 16 0 ++ [3, 0, 0, 0] ++ pctab

theorem twoFunctions_parses :
    ∀ run ∈ [(16 : UInt8), 24], (fromSection
      (twoFunctions [18, run, 0, 34, 16, 0]) 0x401000 0x400000).isSome := by
  decide +kernel

def bounded : GoPclntab := Option.get _ (twoFunctions_parses 16 (by decide))

theorem regular_bounded : bounded.Regular := by
  have count : bounded.nfunc = 2 := by decide +kernel
  have tables : ∀ i < 2, bounded.table i =
      some ⟨[(if i = 0 then 8 else 16, 16)], none⟩ := by decide +kernel
  have ends : ∀ i < 2, bounded.entry i + 16 ≤ bounded.entry (i + 1) ∧
      bounded.entry i + 16 < 2 ^ 32 := by
    decide +kernel
  refine ⟨?_, ?_, ?_, ?_⟩
  · rw [tables 0 (by decide)]
    rfl
  · intro i inside table read
    rw [tables i (count ▸ inside)] at read
    cases read
    exact (ends i (count ▸ inside)).2
  · intro i inside table read
    rw [count] at inside
    rw [tables i (Nat.lt_of_succ_lt inside)] at read
    cases read
    exact (ends i (Nat.lt_of_succ_lt inside)).1
  · intro i inside table read
    rw [tables i (count ▸ inside)] at read
    cases read
    refine .inl ⟨rfl, fun step last => ?_⟩
    cases last
    exact Nat.succ_pos 15

theorem ascending_bounded : bounded.Ascending := by
  unfold Ascending
  decide +kernel

end GoPclntab

end Sismo.Go
