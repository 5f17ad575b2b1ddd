import Sismo.Elf.Slice
import Sismo.Lib.BinarySearch

namespace Sismo.Elf

/-! The dynamic symbol table: its sorted function symbols and the lookup of an
address among them. -/

/-- A defined function symbol, its value measured from the image base. -/
structure Sym where
  value : Nat
  size : Nat
  name : String
  value_lt : value < 2 ^ 64 := by decide
  size_lt : size < 2 ^ 64 := by decide
  deriving DecidableEq

def sttFunc : Nat := 2

def sttGnuIfunc : Nat := 10

def shnUndef : Nat := 0

/-- The NUL-terminated UTF-8 string at an offset of the string table. -/
def cstrAt (strtab : Slice) (off : Nat) : Option String :=
  let rest := strtab.data.drop off
  if strtab.len ≤ off then none
  else if 0 ∈ rest then
    String.fromUTF8? ⟨(rest.takeWhile (· ≠ 0)).toArray⟩
  else none

theorem value_sub_lt (symtab : Slice) (off imageBase : Nat) :
    symtab.u64At (off + 8) - imageBase < 2 ^ 64 :=
  (Nat.sub_le _ _).trans_lt (symtab.u64At_lt _)

/-- The symbol of a 24-byte entry, unless it is skipped. -/
def symAt (symtab strtab : Slice) (imageBase off : Nat) : Option Sym :=
  let stName := symtab.u32At off
  let stInfo := symtab.numberAt 1 (off + 4)
  let stShndx := symtab.u16At (off + 6)
  let stValue := symtab.u64At (off + 8)
  let stSize := symtab.u64At (off + 16)
  let symType := stInfo % 16
  if (symType ≠ sttFunc ∧ symType ≠ sttGnuIfunc) ∨ stShndx = shnUndef ∨
      stValue < imageBase then none
  else
    match cstrAt strtab stName with
    | none => none
    | some name =>
        if name = "" then none
        else
          some
            { value := stValue - imageBase
              size := stSize
              name := name
              value_lt := value_sub_lt symtab off imageBase
              size_lt := symtab.u64At_lt (off + 16) }

structure DynSyms where
  syms : List Sym
  sorted : syms.Pairwise fun first second => first.value ≤ second.value

def sortByValue (syms : List Sym) : List Sym :=
  syms.mergeSort fun first second => first.value ≤ second.value

theorem sortByValue_sorted (syms : List Sym) :
    (sortByValue syms).Pairwise fun first second =>
      first.value ≤ second.value :=
  mergeSort_sorted Sym.value syms

/-- `parse_syms`: the symbols of the whole entries, stably sorted. -/
def parseSyms (symtab strtab : Slice) (imageBase : Nat) : DynSyms where
  syms := sortByValue ((List.range (symtab.len / 24)).filterMap fun i =>
    symAt symtab strtab imageBase (i * 24))
  sorted := sortByValue_sorted _

namespace DynSyms

variable (d : DynSyms) (rel : Nat)

/-- The symbol at an index, bounded by its size, or by the next symbol's value
when it has none. The sum panics where it overflows. -/
def boundedAt (index : Nat) : Option (Option (String × Nat)) :=
  match d.syms[index]? with
  | none => none
  | some s =>
      if 0 < s.size then
        if 2 ^ 64 ≤ s.value + s.size then none
        else if rel < s.value + s.size then some (some (s.name, rel - s.value))
        else some none
      else
        let stop := match d.syms[index + 1]? with
          | some next => next.value
          | none => 2 ^ 64 - 1
        if rel < stop then some (some (s.name, rel - s.value)) else some none

/-- `DynSyms::resolve` after the binary search has answered: none where the
code panics. -/
def resolve (answer : SearchAnswer) : Option (Option (String × Nat)) :=
  match answer.atOrBelow with
  | none => some none
  | some index => d.boundedAt rel index

def values : List Nat := d.syms.map Sym.value

end DynSyms

/-- A sized symbol whose range has the address. -/
def Sym.Contains (s : Sym) (rel : Nat) : Prop :=
  0 < s.size ∧ s.value ≤ rel ∧ rel < s.value + s.size

namespace DynSyms

variable {d : DynSyms} {rel : Nat}

/-- A result names a symbol of the table that contains the address, or one
without a size that is the nearest at or below it. -/
def Sound (d : DynSyms) (rel : Nat) (result : String × Nat) : Prop :=
  ∃ s ∈ d.syms, result = (s.name, rel - s.value) ∧ s.value ≤ rel ∧
    (s.Contains rel ∨ s.size = 0 ∧
      ∀ t ∈ d.syms, t.value ≤ rel → t.value ≤ s.value)

/-- No panic, only right symbols, and a symbol for an address that a sized one
contains, whichever of equal values the search answers. -/
def ResolvesRight (d : DynSyms) (rel : Nat) : Prop :=
  ∀ answer : SearchAnswer, answer.Of d.values rel →
    ∃ found, d.resolve rel answer = some found ∧
      (∀ result, found = some result → Sound d rel result) ∧
      ((∃ s ∈ d.syms, s.Contains rel) → found ≠ none)

/-- The symbol at an index reaches over the address: by its size, or without
one by being the last symbol before a greater one. -/
def Reaches (d : DynSyms) (rel index : Nat) (s : Sym) : Prop :=
  if 0 < s.size then rel < s.value + s.size
  else
    match d.syms[index + 1]? with
    | some next => rel < next.value
    | none => rel < 2 ^ 64 - 1

/-- Every symbol the search can arrive at ends below 2⁶⁴, and reaches over the
address if any sized symbol contains it. -/
def Unhidden (d : DynSyms) (rel : Nat) : Prop :=
  ∀ index s, SearchAnswer.Lands d.values rel index →
    d.syms[index]? = some s →
    s.value + s.size < 2 ^ 64 ∧
      ((∃ t ∈ d.syms, t.Contains rel) → Reaches d rel index s)

theorem values_sorted (d : DynSyms) : d.values.Pairwise (· ≤ ·) :=
  List.pairwise_map.mpr d.sorted

theorem getElem?_values {index : Nat} {s : Sym}
    (found : d.syms[index]? = some s) : d.values[index]? = some s.value := by
  rw [values, List.getElem?_map, found, Option.map_some]

/-- What the lookup gives at a symbol that ends below 2⁶⁴. -/
theorem boundedAt_eq {index : Nat} {s : Sym}
    (found : d.syms[index]? = some s) (ends : s.value + s.size < 2 ^ 64) :
    (Reaches d rel index s →
        d.boundedAt rel index = some (some (s.name, rel - s.value))) ∧
      (¬ Reaches d rel index s → d.boundedAt rel index = some none) := by
  rw [Reaches, boundedAt, found]
  dsimp only
  by_cases sized : 0 < s.size
  · rw [if_pos sized, if_pos sized, if_neg (by omega)]
    exact ⟨fun reaches => if_pos reaches, fun short => if_neg short⟩
  · rw [if_neg sized, if_neg sized]
    cases d.syms[index + 1]? with
    | none => exact ⟨fun reaches => if_pos reaches, fun short => if_neg short⟩
    | some next =>
        exact ⟨fun reaches => if_pos reaches, fun short => if_neg short⟩

theorem boundedAt_overflows {index : Nat} {s : Sym}
    (found : d.syms[index]? = some s) (overflows : 2 ^ 64 ≤ s.value + s.size) :
    d.boundedAt rel index = none := by
  have := s.value_lt
  rw [boundedAt, found]
  dsimp only
  rw [if_pos (by omega), if_pos overflows]

/-- A symbol that is arrived at and reaches over the address is a right one. -/
theorem sound_of_reaches {index : Nat} {s : Sym}
    (found : d.syms[index]? = some s) (le : s.value ≤ rel)
    (reaches : Reaches d rel index s) :
    Sound d rel (s.name, rel - s.value) := by
  refine ⟨s, List.mem_of_getElem? found, rfl, le, ?_⟩
  rw [Reaches] at reaches
  split at reaches
  · next sized => exact .inl ⟨sized, le, reaches⟩
  · next unsized =>
      refine .inr ⟨by omega, fun t member tLe => ?_⟩
      obtain ⟨j, atJ⟩ := List.mem_iff_getElem?.mp member
      by_contra greater
      have after : index + 1 ≤ j := by
        by_contra before
        have := SearchAnswer.getElem?_le d.values_sorted
          (show j ≤ index by omega) (getElem?_values atJ)
          (getElem?_values found)
        omega
      have within := (List.getElem?_eq_some_iff.mp atJ).1
      have here := List.getElem?_eq_getElem
        (show index + 1 < d.syms.length by omega)
      have nextLe := SearchAnswer.getElem?_le d.values_sorted after
        (getElem?_values here) (getElem?_values atJ)
      rw [here] at reaches
      dsimp only at reaches
      omega

/-- The lookup is right exactly where no symbol is hidden. -/
theorem resolvesRight_iff (d : DynSyms) (rel : Nat) :
    ResolvesRight d rel ↔ Unhidden d rel := by
  constructor
  · intro right index s lands found
    obtain ⟨answer, of, arrives⟩ := lands.exists_answer d.values_sorted
    obtain ⟨result, resolved, _, complete⟩ := right answer of
    rw [resolve, arrives] at resolved
    dsimp only at resolved
    have ends : s.value + s.size < 2 ^ 64 := by
      by_contra overflows
      rw [boundedAt_overflows found (Nat.not_lt.mp overflows)] at resolved
      cases resolved
    refine ⟨ends, fun contained => ?_⟩
    by_contra short
    rw [(boundedAt_eq found ends).2 short] at resolved
    cases resolved
    exact complete contained rfl
  · intro unhidden answer of
    rw [resolve]
    cases arrives : answer.atOrBelow with
    | none =>
        refine ⟨none, rfl, nofun, ?_⟩
        rintro ⟨s, member, contains⟩
        have := of.above arrives s.value (List.mem_map.mpr ⟨s, member, rfl⟩)
        have := contains.2.1
        omega
    | some index =>
        obtain ⟨key, present, _⟩ := of.lands arrives
        obtain ⟨le, _⟩ :=
          (of.lands arrives).greatest d.values_sorted present
        rw [values, List.getElem?_map, Option.map_eq_some_iff] at present
        obtain ⟨s, found, rfl⟩ := present
        obtain ⟨ends, reaches⟩ := unhidden index s (of.lands arrives) found
        by_cases reached : Reaches d rel index s
        · refine ⟨_, (boundedAt_eq found ends).1 reached, ?_, fun _ => by simp⟩
          intro result same
          cases same
          exact sound_of_reaches found le reached
        · exact ⟨_, (boundedAt_eq found ends).2 reached, nofun,
            fun contained => absurd (reaches contained) reached⟩

def sym (value size : Nat) (name : String)
    (fits : value < 2 ^ 64 ∧ size < 2 ^ 64) : Sym where
  value := value
  size := size
  name := name
  value_lt := fits.1
  size_lt := fits.2

def nestedSymtab : Slice where
  data := [1, 0, 0, 0, 0x12, 0, 1, 0] ++ [0, 0x10, 0, 0, 0, 0, 0, 0] ++
    [0, 1, 0, 0, 0, 0, 0, 0] ++ [7, 0, 0, 0, 0x12, 0, 1, 0] ++
    [0x10, 0x10, 0, 0, 0, 0, 0, 0] ++ [0x10, 0, 0, 0, 0, 0, 0, 0]
  short := by decide

def nestedStrtab : Slice where
  data := [0, 111, 117, 116, 101, 114, 0, 105, 110, 110, 101, 114, 0]
  short := by decide

/-- A function with another one inside it. -/
def nestedSyms : DynSyms :=
  parseSyms nestedSymtab nestedStrtab 0

theorem nestedSyms_syms : nestedSyms.syms =
    [sym 0x1000 0x100 "outer" (by decide),
      sym 0x1010 0x10 "inner" (by decide)] := by
  have parsed : (List.range (nestedSymtab.len / 24)).filterMap
      (fun i => symAt nestedSymtab nestedStrtab 0 (i * 24)) =
      [sym 0x1000 0x100 "outer" (by decide),
        sym 0x1010 0x10 "inner" (by decide)] := by
    decide +kernel
  exact (congrArg sortByValue parsed).trans
    (List.mergeSort_of_pairwise (by simp [sym]))

/-- Behind the inner function nothing is found, although the outer one contains
the address. -/
theorem not_resolvesRight_nested :
    ¬ ResolvesRight nestedSyms 0x1050 := by
  have values : nestedSyms.values = [0x1000, 0x1010] := by
    rw [DynSyms.values, nestedSyms_syms]
    rfl
  intro right
  obtain ⟨found, resolved, _, complete⟩ := right (.err 2) (by
    rw [values]
    refine ⟨by decide, fun j key before present => ?_,
      fun j key after present => ?_⟩
    · match j, before, present with
      | 0, _, present => cases present; decide
      | 1, _, present => cases present; decide
    · match j, after, present with
      | j + 2, _, present => cases present)
  have missed : nestedSyms.resolve 0x1050 (.err 2) = some none := by
    unfold resolve boundedAt
    rw [nestedSyms_syms]
    rfl
  cases missed.symm.trans resolved
  refine complete ⟨sym 0x1000 0x100 "outer" (by decide), ?_, ?_⟩ rfl
  · rw [nestedSyms_syms]
    exact List.mem_cons_self
  · exact ⟨by decide, by decide, by decide⟩

end DynSyms

end Sismo.Elf
