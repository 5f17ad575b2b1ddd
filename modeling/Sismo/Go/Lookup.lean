import Mathlib.Data.List.TakeWhile
import Sismo.Go.FuncNames

namespace Sismo.Go

/-! The lookup of an address: which function it finds, the bytes of its name,
and that nothing on the way panics. -/

def usizeAdd (a b : Nat) : Option Nat :=
  if a + b < 2 ^ 64 then some (a + b) else none

/-- The range `start..stop` of the section, none where the index panics. -/
def index (data : Bytes) (start stop : Nat) : Option Bytes :=
  if start ≤ stop ∧ stop ≤ data.length then
    some ((data.drop start).take (stop - start))
  else none

theorem usizeAdd_of_lt {a b : Nat} (fits : a + b < 2 ^ 64) :
    usizeAdd a b = some (a + b) :=
  if_pos fits

theorem index_of_le {data : Bytes} {start size : Nat}
    (inside : start + size ≤ data.length) :
    index data start (start + size) = some ((data.drop start).take size) := by
  rw [index, if_pos ⟨Nat.le_add_right start size, inside⟩,
    Nat.add_sub_cancel_left]

/-- The bytes before the first terminator are the ones that `bytes` are. -/
theorem takeWhile_terminated {data bytes : Bytes} :
    0 ∈ data ∧ data.takeWhile (· ≠ 0) = bytes ↔
      0 ∉ bytes ∧ ∃ rest, data = bytes ++ 0 :: rest := by
  constructor
  · rintro ⟨terminated, rfl⟩
    refine ⟨fun zero => ?_, ?_⟩
    · have kept := List.mem_takeWhile_imp zero
      exact absurd rfl (of_decide_eq_true kept)
    · have whole := data.takeWhile_append_dropWhile (p := (· ≠ 0))
      cases left : data.dropWhile (· ≠ 0) with
      | nil =>
          have kept := List.dropWhile_eq_nil_iff.mp left 0 terminated
          exact absurd rfl (of_decide_eq_true kept)
      | cons byte rest =>
          have stops := List.head?_dropWhile_not (· ≠ (0 : UInt8)) data
          rw [left] at stops whole
          obtain rfl : byte = 0 := by simpa using stops
          exact ⟨rest, whole.symm⟩
  · rintro ⟨unterminated, rest, rfl⟩
    refine ⟨List.mem_append_right bytes List.mem_cons_self, ?_⟩
    rw [List.takeWhile_append_of_pos, List.takeWhile_cons_of_neg,
      List.append_nil]
    · simp
    · intro byte member
      exact decide_eq_true fun zero => unterminated (zero ▸ member)

theorem fromUTF8?_eq_some {bytes : Bytes} {name : String} :
    String.fromUTF8? ⟨bytes.toArray⟩ = some name ↔
      bytes = name.toUTF8.data.toList := by
  rw [String.fromUTF8?]
  constructor
  · intro decoded
    split at decoded
    · cases decoded
      rfl
    · cases decoded
  · rintro rfl
    exact dif_pos name.isValidUTF8

/-- A name is read where its bytes stand before a terminator. -/
theorem cstrAt_eq_some {buf : Bytes} {off : Nat} {name : String} :
    cstrAt buf off = some name ↔
      0 ∉ name.toUTF8.data.toList ∧
        ∃ rest, buf.drop off = name.toUTF8.data.toList ++ 0 :: rest := by
  have inside : 0 ∈ buf.drop off → off ≤ buf.length := by
    intro zero
    by_contra beyond
    rw [List.drop_of_length_le (by omega)] at zero
    cases zero
  rw [← takeWhile_terminated, cstrAt]
  split
  · next terminated =>
      rw [fromUTF8?_eq_some]
      exact (and_iff_right terminated.2).symm
  · next missing =>
      refine iff_of_false (Option.some_ne_none name).symm fun found => ?_
      exact missing ⟨inside found.1, found.1⟩

namespace GoPclntab

variable (go : GoPclntab)

def NameAt (i : Nat) (bytes : Bytes) : Prop :=
  ∃ nameoff, readLe go.data 4 (go.functabOff + (go.functab i).2 + 4) =
      some nameoff ∧
    nameoff < 2 ^ 31 ∧ 0 ∉ bytes ∧
    ∃ rest, go.data.drop (go.funcnameOff + nameoff) = bytes ++ 0 :: rest

/-! The functions with the checks of their indexes and sums: none where one of
them panics. -/

namespace Checked

def functab (i : Nat) : Option (Nat × Nat) := do
  let base ← usizeAdd go.functabOff (i * 8)
  let middle ← usizeAdd base 4
  let stop ← usizeAdd base 8
  let entryoff ← index go.data base middle
  let funcoff ← index go.data middle stop
  some (fromLe entryoff, fromLe funcoff)

def findFuncLoop (q lo hi : Nat) : Option Nat :=
  if lo + 1 < hi then
    if lo + hi < 2 ^ 64 then
      let mid := (lo + hi) / 2
      (functab go mid).bind fun row =>
        if row.1 ≤ q then findFuncLoop q mid hi else findFuncLoop q lo mid
    else none
  else some lo
termination_by hi - lo

def findFunc (q : Nat) : Option (Option (Nat × Nat)) := do
  let first ← functab go 0
  if q < first.1 then some none
  else
    let sentinel ← functab go go.nfunc
    if sentinel.1 ≤ q then some none
    else
      let lo ← findFuncLoop go q 0 go.nfunc
      let row ← functab go lo
      some (some row)

def funcName (funcoff : Nat) : Option (Option String) := do
  let func ← usizeAdd go.functabOff funcoff
  let no ← usizeAdd func 4
  let _stop ← usizeAdd no 4
  -- the bytes themselves are taken with `get`, which does not panic
  match readLe go.data 4 no with
  | none => some none
  | some nameoff =>
      if 2 ^ 31 ≤ nameoff then some none
      else
        let off ← usizeAdd go.funcnameOff nameoff
        some (cstrAt go.data off)

def resolve (addr : Nat) : Option (Option (String × Nat)) :=
  if addr < go.textOff then some none
  else
    let q := addr - go.textOff
    if 2 ^ 32 ≤ q then some none
    else do
      let found ← findFunc go q
      match found with
      | none => some none
      | some (entryoff, funcoff) =>
          let name ← funcName go funcoff
          match name with
          | none => some none
          | some name =>
              if entryoff ≤ q then some (some (name, q - entryoff)) else none

end Checked

variable {go}

theorem funcName_eq_some {i : Nat} {name : String} :
    go.funcName (go.functab i).2 = some name ↔
      go.NameAt i name.toUTF8.data.toList := by
  rw [funcName, Option.bind_eq_bind, Option.bind_eq_some_iff]
  apply exists_congr
  intro nameoff
  refine and_congr_right fun read => ?_
  split
  · next negative =>
      refine iff_of_false (Option.some_ne_none name).symm fun found => ?_
      have := found.1
      omega
  · next positive =>
      rw [cstrAt_eq_some]
      exact (and_iff_right (Nat.not_le.mp positive)).symm

theorem findFunc_eq_some (ascending : go.Ascending) {q : Nat}
    {row : Nat × Nat} : go.findFunc q = some row ↔
      ∃ i < go.nfunc, go.entry i ≤ q ∧ q < go.entry (i + 1) ∧
        row = go.functab i := by
  constructor
  · intro found
    have inText : go.entry 0 ≤ q ∧ q < go.entry go.nfunc := by
      unfold findFunc at found
      split at found
      · cases found
      · next inside =>
          unfold entry
          omega
    obtain ⟨i, inside, low, high, same⟩ := go.findFunc_eq inText.1 inText.2
    refine ⟨i, inside, low, high, ?_⟩
    exact Option.some.inj (found.symm.trans same)
  · rintro ⟨i, inside, low, high, rfl⟩
    have first := ascending.entry_le (Nat.zero_le i) inside.le
    have last := ascending.entry_le (show i + 1 ≤ go.nfunc from inside)
      (Nat.le_refl _)
    obtain ⟨j, insideJ, lowJ, highJ, found⟩ :=
      go.findFunc_eq (first.trans low) (high.trans_le last)
    rw [found, ascending.function_unique insideJ inside lowJ highJ low high]

theorem findFunc_of_outside {q : Nat}
    (outside : q < go.entry 0 ∨ go.entry go.nfunc ≤ q) :
    go.findFunc q = none :=
  if_pos outside

/-! Nothing panics, whatever the functab and the offsets hold. -/

namespace Checked

theorem functab_eq {i : Nat} (inside : i ≤ go.nfunc) :
    functab go i = some (go.functab i) := by
  have whole := go.functab_le
  have small := go.small
  have row : go.functabOff + i * 8 + 8 ≤ go.data.length := by omega
  have middle : go.functabOff + i * 8 + 8 = go.functabOff + i * 8 + 4 + 4 := rfl
  rw [functab, usizeAdd_of_lt (by omega)]
  dsimp only [Option.bind_eq_bind, Option.bind_some]
  rw [usizeAdd_of_lt (by omega), usizeAdd_of_lt (by omega), Option.bind_some,
    Option.bind_some, index_of_le (by omega), Option.bind_some, middle,
    index_of_le (by omega)]
  rfl

theorem findFuncLoop_eq {q lo hi : Nat} (inside : hi ≤ go.nfunc) :
    findFuncLoop go q lo hi = some (go.findFuncLoop q lo hi) := by
  have whole := go.functab_le
  have small := go.small
  induction lo, hi using GoPclntab.findFuncLoop.induct go q with
  | case1 lo hi wide mid below induction =>
      rw [findFuncLoop, if_pos wide, if_pos (by omega),
        GoPclntab.findFuncLoop, if_pos wide]
      dsimp only
      rw [functab_eq (by omega), Option.bind_some, if_pos below, if_pos below]
      exact induction inside
  | case2 lo hi wide mid above induction =>
      rw [findFuncLoop, if_pos wide, if_pos (by omega),
        GoPclntab.findFuncLoop, if_pos wide]
      dsimp only
      rw [functab_eq (by omega), Option.bind_some, if_neg above, if_neg above]
      exact induction (by omega)
  | case3 lo hi narrow =>
      rw [findFuncLoop, if_neg narrow, GoPclntab.findFuncLoop, if_neg narrow]

/-- The search ends at a row at or before the pc, sorted or not. -/
theorem findFuncLoop_low {q lo hi : Nat} (low : go.entry lo ≤ q)
    (order : lo < hi) : go.entry (go.findFuncLoop q lo hi) ≤ q ∧
      go.findFuncLoop q lo hi < hi := by
  induction lo, hi using GoPclntab.findFuncLoop.induct go q with
  | case1 lo hi wide mid below induction =>
      rw [GoPclntab.findFuncLoop, if_pos wide]
      dsimp only
      rw [if_pos below]
      exact induction below (by omega)
  | case2 lo hi wide mid above induction =>
      rw [GoPclntab.findFuncLoop, if_pos wide]
      dsimp only
      rw [if_neg above]
      obtain ⟨reached, less⟩ := induction low (by omega)
      exact ⟨reached, less.trans (show (lo + hi) / 2 < hi by omega)⟩
  | case3 lo hi narrow =>
      rw [GoPclntab.findFuncLoop, if_neg narrow]
      exact ⟨low, order⟩

theorem findFunc_eq (q : Nat) : findFunc go q = some (go.findFunc q) := by
  rw [findFunc, functab_eq (Nat.zero_le _), GoPclntab.findFunc]
  dsimp only [Option.bind_eq_bind, Option.bind_some]
  by_cases before : q < (go.functab 0).1
  · rw [if_pos before, if_pos (.inl before)]
  · rw [if_neg before, functab_eq (Nat.le_refl _), Option.bind_some]
    by_cases after : (go.functab go.nfunc).1 ≤ q
    · rw [if_pos after, if_pos (.inr after)]
    · have search := findFuncLoop_low (Nat.not_lt.mp before) go.nfunc_pos
      rw [if_neg after, if_neg (not_or.mpr ⟨before, after⟩),
        findFuncLoop_eq (Nat.le_refl _), Option.bind_some,
        functab_eq search.2.le]
      rfl

theorem row_of_findFunc {q : Nat} {row : Nat × Nat}
    (found : go.findFunc q = some row) : row.1 ≤ q ∧ row.2 < 2 ^ 32 := by
  rw [GoPclntab.findFunc] at found
  split at found
  · cases found
  · next inside =>
      cases found
      have low := (findFuncLoop_low (Nat.not_lt.mp (not_or.mp inside).1)
        go.nfunc_pos).1
      refine ⟨low, (fromLe_lt _).trans_le ?_⟩
      exact Nat.pow_le_pow_right (show 0 < 256 by decide)
        (List.length_take_le 4 _)

theorem funcName_eq {funcoff : Nat} (word : funcoff < 2 ^ 32)
    (inside : go.funcnameOff < go.data.length) :
    funcName go funcoff = some (go.funcName funcoff) := by
  have whole := go.functab_le
  have small := go.small
  rw [funcName, usizeAdd_of_lt (by omega)]
  dsimp only [Option.bind_eq_bind, Option.bind_some]
  rw [usizeAdd_of_lt (by omega), Option.bind_some, usizeAdd_of_lt (by omega),
    Option.bind_some, GoPclntab.funcName]
  cases readLe go.data 4 (go.functabOff + funcoff + 4) with
  | none => rfl
  | some nameoff =>
      dsimp only [Option.bind_eq_bind, Option.bind_some]
      split
      · rfl
      · rw [usizeAdd_of_lt (by omega), Option.bind_some]

theorem resolve_eq (inside : go.funcnameOff < go.data.length) (addr : Nat) :
    resolve go addr = some (go.resolve addr) := by
  rw [resolve, GoPclntab.resolve]
  by_cases below : addr < go.textOff
  · rw [if_pos below, if_neg (by omega)]
    rfl
  · rw [if_neg below, if_pos (Nat.not_lt.mp below)]
    dsimp only [Option.bind_eq_bind, Option.bind_some]
    by_cases high : 2 ^ 32 ≤ addr - go.textOff
    · rw [if_pos high, if_neg (by omega)]
    · rw [if_neg high, if_pos (by omega), findFunc_eq, Option.bind_some]
      cases found : go.findFunc (addr - go.textOff) with
      | none => rfl
      | some row =>
          obtain ⟨low, word⟩ := row_of_findFunc found
          dsimp only [Option.bind_some]
          rw [funcName_eq word inside, Option.bind_some]
          cases go.funcName row.2 with
          | none => rfl
          | some name => exact if_pos low

end Checked

/-- The lookup of every address in an accepted table: the function around it
and the UTF-8 name of that function if the functab ascends, and no panic in any
case. -/
theorem lookup_exact {data : Bytes} {textVaddr imageBase : Nat}
    (accepted : fromSection data textVaddr imageBase = some go) :
    (go.Ascending →
      (∀ q row, go.findFunc q = some row ↔
        ∃ i < go.nfunc, go.entry i ≤ q ∧ q < go.entry (i + 1) ∧
          row = go.functab i) ∧
      (∀ q, q < go.entry 0 ∨ go.entry go.nfunc ≤ q → go.findFunc q = none) ∧
      ∀ addr name offset, go.resolve addr = some (name, offset) ↔
        ∃ i < go.nfunc, go.textOff + go.entry i ≤ addr ∧
          addr < go.textOff + go.entry (i + 1) ∧
          offset = addr - (go.textOff + go.entry i) ∧
          go.NameAt i name.toUTF8.data.toList) ∧
      (∀ q, Checked.findFunc go q = some (go.findFunc q)) ∧
      ∀ addr, Checked.resolve go addr = some (go.resolve addr) := by
  refine ⟨fun ascending => ⟨fun q row => findFunc_eq_some ascending,
    fun q => findFunc_of_outside, ?_⟩, Checked.findFunc_eq,
    Checked.resolve_eq (fromSection_spec accepted)⟩
  intro addr name offset
  rw [resolve_eq_some ascending]
  constructor
  · rintro ⟨i, covers, same⟩
    exact ⟨i, covers.inside, covers.le, covers.lt, same,
      funcName_eq_some.mp covers.named⟩
  · rintro ⟨i, inside, le, lt, same, named⟩
    exact ⟨i, ⟨inside, funcName_eq_some.mpr named, le, lt⟩, same⟩

/-- A section with a function "m" of 16 bytes, one of 32 bytes behind it, and
the name of that. -/
def namedPair (name : Bytes) : Bytes :=
  [0xf1, 0xff, 0xff, 0xff, 0, 0, 1, 8] ++ 2 :: List.replicate 23 0 ++
    136 :: List.replicate 31 0 ++ 72 :: List.replicate 7 0 ++
    [0, 0, 0, 0, 24, 0, 0, 0, 16, 0, 0, 0, 44, 0, 0, 0] ++
    [48, 0, 0, 0, 0, 0, 0, 0] ++ List.replicate 24 0 ++
    2 :: List.replicate 15 0 ++ [109, 0] ++ name ++ [0]

theorem namedPair_parses :
    ∀ name ∈ [[(103 : UInt8), 111], [255]],
      (fromSection (namedPair name) 0x401000 0x400000).isSome := by
  decide +kernel

/-- Its second function is called "go". -/
def plain : GoPclntab :=
  Option.get _ (namedPair_parses [103, 111] (by decide))

/-- The name of its second function is not UTF-8. -/
def garbled : GoPclntab := Option.get _ (namedPair_parses [255] (by decide))

theorem lookup_exact_plain :
    plain.findFunc 48 = none ∧ plain.resolve 0x1014 = some ("go", 4) ∧
      Checked.resolve plain 0x1014 = some (plain.resolve 0x1014) := by
  have whole := @lookup_exact plain _ _ _ (Option.some_get _).symm
  have ascending : plain.Ascending := by
    unfold Ascending
    decide +kernel
  obtain ⟨-, outside, named⟩ := whole.1 ascending
  have facts : 1 < plain.nfunc ∧ plain.textOff + plain.entry 1 ≤ 0x1014 ∧
      0x1014 < plain.textOff + plain.entry (1 + 1) ∧
      4 = 0x1014 - (plain.textOff + plain.entry 1) ∧
      readLe plain.data 4 (plain.functabOff + (plain.functab 1).2 + 4) =
        some 2 ∧
      plain.data.drop (plain.funcnameOff + 2) = [103, 111, 0] := by
    decide +kernel
  obtain ⟨inside, le, lt, offset, read, text⟩ := facts
  refine ⟨outside 48 (.inr (by decide +kernel)), ?_, whole.2.2 0x1014⟩
  exact (named 0x1014 "go" 4).mpr
    ⟨1, inside, le, lt, offset, 2, read, by decide, by decide, [], text⟩

/-- A name that is not UTF-8 is not returned. -/
theorem not_lookup_exact :
    ¬ ∀ data textVaddr imageBase go,
      fromSection data textVaddr imageBase = some go → go.Ascending →
        ∀ i < go.nfunc, ∀ bytes, go.NameAt i bytes →
          ∀ addr, go.textOff + go.entry i ≤ addr →
            addr < go.textOff + go.entry (i + 1) →
            ∃ name offset, go.resolve addr = some (name, offset) ∧
              name.toUTF8.data.toList = bytes := by
  intro named
  have facts : garbled.Ascending ∧ 1 < garbled.nfunc ∧
      readLe garbled.data 4 (garbled.functabOff + (garbled.functab 1).2 + 4) =
        some 2 ∧
      garbled.data.drop (garbled.funcnameOff + 2) = [255, 0] ∧
      garbled.textOff + garbled.entry 1 ≤ 0x1010 ∧
      0x1010 < garbled.textOff + garbled.entry (1 + 1) ∧
      garbled.resolve 0x1010 = none := by
    unfold Ascending
    decide +kernel
  obtain ⟨ascending, inside, read, text, le, lt, missing⟩ := facts
  obtain ⟨name, offset, found, -⟩ := named _ _ _ garbled
    (Option.some_get _).symm ascending 1 inside [255]
    ⟨2, read, by decide, by decide, [], text⟩ 0x1010 le lt
  rw [missing] at found
  cases found

end GoPclntab

end Sismo.Go
