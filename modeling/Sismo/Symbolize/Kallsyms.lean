import Sismo.Lib.BinarySearch
import Sismo.Lib.Text
import Sismo.Symbolize.Symbolizer

namespace Sismo.Symbolize

/-! Kernel frames: their rebase at the capture and their names from the text of
`/proc/kallsyms`, with no vmlinux image. -/

structure KallsymsLine where
  addrToken : List Char
  ty : List Char
  name : List Char

namespace KallsymsLine

/-- The address, zero where it is not a number. -/
def addr (line : KallsymsLine) : Nat :=
  (fromStrRadix 16 (2 ^ 64) (line.addrToken.map Char.toNat)).getD 0

def ofWords : List (List Char) → Option KallsymsLine
  | addr :: ty :: name :: _ => some ⟨addr, ty, name⟩
  | _ => none

def IsText (line : KallsymsLine) : Prop :=
  line.ty = ['t'] ∨ line.ty = ['T']

instance (line : KallsymsLine) : Decidable line.IsText :=
  inferInstanceAs (Decidable (_ ∨ _))

end KallsymsLine

def kallsymsLines (text : List Char) : List KallsymsLine :=
  (lines text).filterMap fun line =>
    KallsymsLine.ofWords (words isWhitespace line)

/-- The addresses of `_text` and `_stext`, up to the line where both are
known. -/
def textBases : List KallsymsLine → Nat → Nat → Nat × Nat
  | [], text, stext => (text, stext)
  | line :: rest, text, stext =>
      if line.name = ['_', 't', 'e', 'x', 't'] then
        if line.addr ≠ 0 ∧ stext ≠ 0 then (line.addr, stext)
        else textBases rest line.addr stext
      else if line.name = ['_', 's', 't', 'e', 'x', 't'] then
        if text ≠ 0 ∧ line.addr ≠ 0 then (text, line.addr)
        else textBases rest text line.addr
      else textBases rest text stext

def textBaseOf (kallsyms : List Char) : Option Nat :=
  let bases := textBases (kallsymsLines kallsyms) 0 0
  let base := if bases.1 ≠ 0 then bases.1 else bases.2
  if base ≠ 0 then some base else none

/-- `kernel_text_base` of the text, zero where it is masked. -/
def kernelTextBase (kallsyms : List Char) : Nat :=
  (textBaseOf kallsyms).getD 0

def etextName : List Char := ['_', 'e', 't', 'e', 'x', 't']

/-- The text symbols relative to the base, and the relative `_etext`. -/
structure Loading where
  syms : List (Nat × String)
  textEnd : Nat

/-- One line of the text, without the lines below the base. -/
def Loading.line (base : Nat) (loading : Loading) (line : KallsymsLine) :
    Loading :=
  if line.addr < base then loading
  else
    { syms :=
        if line.IsText then
          loading.syms ++ [(line.addr - base, String.ofList line.name)]
        else loading.syms
      textEnd :=
        if line.name = etextName then line.addr - base else loading.textEnd }

/-- The symbols sorted and deduplicated by address. -/
structure Kallsyms where
  syms : List (Nat × String)
  textEnd : Nat
  sorted : syms.Pairwise fun first second => first.1 < second.1

def sortByAddr (syms : List (Nat × String)) : List (Nat × String) :=
  syms.mergeSort fun first second => first.1 ≤ second.1

theorem sortByAddr_sorted (syms : List (Nat × String)) :
    (sortByAddr syms).Pairwise fun first second => first.1 ≤ second.1 :=
  mergeSort_sorted Prod.fst syms

def Loading.table (loading : Loading) : Kallsyms where
  syms := dedupByKey Prod.fst (sortByAddr loading.syms)
  textEnd := loading.textEnd
  sorted := dedupByKey_sorted (sortByAddr_sorted loading.syms)

def loadKallsyms (kallsyms : List Char) : Option Kallsyms :=
  match textBaseOf kallsyms with
  | none => none
  | some base =>
      let loading := (kallsymsLines kallsyms).foldl (Loading.line base)
        { syms := [], textEnd := 2 ^ 64 - 1 }
      if loading.syms = [] then none else some loading.table

/-- `Kallsyms::resolve`: the last symbol at or below the address. -/
def Kallsyms.resolve (search : BinarySearch) (k : Kallsyms) : SymbolSource :=
  fun rel =>
    if k.textEnd ≤ rel then some none
    else
      match (search.run (k.syms.map Prod.fst) rel).atOrBelow with
      | none => some none
      | some index =>
          match k.syms[index]? with
          | none => none
          | some (addr, name) => some (some (name, rel - addr))

/-! The text's own answer, and the table against it. -/

def etext (kallsyms : List Char) : Option Nat :=
  (((kallsymsLines kallsyms).filter (·.name = etextName)).getLast?).map
    KallsymsLine.addr

def etextFrom (kallsyms : List Char) (base : Nat) : Option Nat :=
  (((kallsymsLines kallsyms).filter fun line =>
    base ≤ line.addr ∧ line.name = etextName).getLast?).map KallsymsLine.addr

/-- A text symbol with the greatest address at or below a pc. -/
structure NearestText (kallsyms : List Char) (pc : Nat) (line : KallsymsLine) :
    Prop where
  member : line ∈ kallsymsLines kallsyms
  text : line.IsText
  le : line.addr ≤ pc
  greatest : ∀ other ∈ kallsymsLines kallsyms, other.IsText →
    other.addr ≤ pc → other.addr ≤ line.addr

def TextBelow (kallsyms : List Char) (base pc : Nat) : Prop :=
  ∃ line ∈ kallsymsLines kallsyms, line.IsText ∧ base ≤ line.addr ∧
    line.addr ≤ pc

theorem foldl_line (base : Nat) (list : List KallsymsLine)
    (loading : Loading) :
    list.foldl (Loading.line base) loading =
      { syms := loading.syms ++
          (list.filter fun line => base ≤ line.addr ∧ line.IsText).map
            fun line => (line.addr - base, String.ofList line.name)
        textEnd :=
          match (list.filter fun line =>
            base ≤ line.addr ∧ line.name = etextName).getLast? with
          | none => loading.textEnd
          | some line => line.addr - base } := by
  induction list using List.reverseRecOn with
  | nil => simp
  | append_singleton list line induction =>
      rw [List.foldl_append, induction, List.foldl_cons, List.foldl_nil,
        Loading.line, List.filter_append, List.filter_append]
      by_cases below : line.addr < base
      · have above : ¬ base ≤ line.addr := by omega
        simp [below, above]
      · have above : base ≤ line.addr := by omega
        by_cases text : line.IsText <;>
          by_cases named : line.name = etextName <;>
          simp [below, above, text, named]

/-- The lookup answers with the greatest symbol at or below the address. -/
theorem Kallsyms.resolve_spec (search : BinarySearch) (k : Kallsyms)
    {rel : Nat} (before : rel < k.textEnd) :
    ((∀ sym ∈ k.syms, rel < sym.1) ∧ k.resolve search rel = some none) ∨
      ∃ sym ∈ k.syms, sym.1 ≤ rel ∧
        (∀ other ∈ k.syms, other.1 ≤ rel → other.1 ≤ sym.1) ∧
        k.resolve search rel = some (some (sym.2, rel - sym.1)) := by
  have sorted : (k.syms.map Prod.fst).Pairwise (· ≤ ·) :=
    List.pairwise_map.mpr (k.sorted.imp Nat.le_of_lt)
  have of := search.right _ rel sorted
  rw [Kallsyms.resolve, if_neg (by omega)]
  cases arrives : (search.run (k.syms.map Prod.fst) rel).atOrBelow with
  | none =>
      exact .inl ⟨fun sym member =>
        of.above arrives sym.1 (List.mem_map_of_mem member), rfl⟩
  | some index =>
      obtain ⟨key, present, _⟩ := of.lands arrives
      obtain ⟨le, greatest⟩ := (of.lands arrives).greatest sorted present
      obtain ⟨sym, found, rfl⟩ := Option.map_eq_some_iff.mp
        (List.getElem?_map (f := Prod.fst) ▸ present)
      refine .inr ⟨sym, List.mem_of_getElem? found, le, ?_, ?_⟩
      · intro other among
        exact greatest other.1 (List.mem_map_of_mem among)
      · dsimp only
        rw [found]

section

variable {kallsyms : List Char} {base : Nat}

def relativeSyms (kallsyms : List Char) (base : Nat) : List (Nat × String) :=
  ((kallsymsLines kallsyms).filter fun line =>
    base ≤ line.addr ∧ line.IsText).map
      fun line => (line.addr - base, String.ofList line.name)

theorem mem_relativeSyms {sym : Nat × String} :
    sym ∈ relativeSyms kallsyms base ↔
      ∃ line ∈ kallsymsLines kallsyms, (base ≤ line.addr ∧ line.IsText) ∧
        (line.addr - base, String.ofList line.name) = sym := by
  simp only [relativeSyms, List.mem_map, List.mem_filter, decide_eq_true_eq,
    and_assoc]

theorem loadKallsyms_of_base (found : textBaseOf kallsyms = some base) :
    (relativeSyms kallsyms base = [] ∧ loadKallsyms kallsyms = none) ∨
      ∃ k, loadKallsyms kallsyms = some k ∧
        k.syms = dedupByKey Prod.fst
          (sortByAddr (relativeSyms kallsyms base)) ∧
        k.textEnd = match etextFrom kallsyms base with
          | none => 2 ^ 64 - 1
          | some stop => stop - base := by
  have ending : (match (((kallsymsLines kallsyms).filter fun line =>
      base ≤ line.addr ∧ line.name = etextName).getLast?) with
      | none => 2 ^ 64 - 1
      | some line => line.addr - base) =
      match etextFrom kallsyms base with
      | none => 2 ^ 64 - 1
      | some stop => stop - base := by
    rw [etextFrom]
    cases ((kallsymsLines kallsyms).filter _).getLast? <;> rfl
  rw [loadKallsyms, found]
  dsimp only
  rw [foldl_line, List.nil_append]
  by_cases empty : relativeSyms kallsyms base = []
  · exact .inl ⟨empty, if_pos empty⟩
  · exact .inr ⟨_, if_neg empty, rfl, ending⟩

/-- The sources of the kernel's module, when no vmlinux image is there. -/
def kernelFallbacks (search : BinarySearch) (kallsyms : List Char) :
    List SymbolSource :=
  match loadKallsyms kallsyms with
  | none => []
  | some k => [k.resolve search]

theorem firstAnswer_single (source : SymbolSource) (rel : Nat) :
    firstAnswer [source] rel = source rel := by
  rw [firstAnswer]
  split <;> simp [firstAnswer, *]

variable (search : BinarySearch) {pc : Nat}

/-- No name from an `_etext` on that is not below the base. -/
theorem answer_of_ended (found : textBaseOf kallsyms = some base)
    {stop : Nat} (ending : etextFrom kallsyms base = some stop)
    (le : stop ≤ pc) :
    firstAnswer (kernelFallbacks search kallsyms) (pc - base) =
      some none := by
  rw [kernelFallbacks]
  rcases loadKallsyms_of_base found with ⟨_, none⟩ | ⟨k, loaded, _, textEnd⟩
  · rw [none]
    rfl
  · rw [loaded]
    dsimp only
    rw [ending] at textEnd
    rw [firstAnswer_single, Kallsyms.resolve, if_pos]
    rw [textEnd]
    exact Nat.sub_le_sub_right le base

theorem mem_table {k : Kallsyms} {sym : Nat × String}
    (table : k.syms = dedupByKey Prod.fst
      (sortByAddr (relativeSyms kallsyms base)))
    (member : sym ∈ k.syms) : sym ∈ relativeSyms kallsyms base := by
  rw [table] at member
  exact List.mem_mergeSort.mp (dedupByKey_sublist.subset member)

theorem exists_mem_table {k : Kallsyms} {sym : Nat × String}
    (table : k.syms = dedupByKey Prod.fst
      (sortByAddr (relativeSyms kallsyms base)))
    (member : sym ∈ relativeSyms kallsyms base) :
    ∃ other ∈ k.syms, other.1 = sym.1 := by
  rw [table]
  exact exists_mem_dedupByKey (List.mem_mergeSort.mpr member)

/-- No name where no text symbol is between the base and the pc. -/
theorem answer_of_uncovered (found : textBaseOf kallsyms = some base)
    (le : base ≤ pc) (uncovered : ¬ TextBelow kallsyms base pc) :
    firstAnswer (kernelFallbacks search kallsyms) (pc - base) =
      some none := by
  rw [kernelFallbacks]
  rcases loadKallsyms_of_base found with ⟨_, none⟩ | ⟨k, loaded, table, _⟩
  · rw [none]
    rfl
  · rw [loaded]
    dsimp only
    rw [firstAnswer_single]
    by_cases before : pc - base < k.textEnd
    · rcases k.resolve_spec search before with
        ⟨_, result⟩ | ⟨sym, member, below, _⟩
      · exact result
      · obtain ⟨line, among, ⟨above, text⟩, rfl⟩ :=
          mem_relativeSyms.mp (mem_table table member)
        dsimp only at below
        exact absurd ⟨line, among, text, above, by omega⟩ uncovered
    · rw [Kallsyms.resolve, if_pos (Nat.not_lt.mp before)]

/-- The nearest text symbol's name, before `_etext`. -/
theorem answer_of_covered (found : textBaseOf kallsyms = some base)
    (covered : TextBelow kallsyms base pc) (small : pc - base < 2 ^ 64 - 1)
    (running : ∀ stop, etextFrom kallsyms base = some stop → pc < stop) :
    ∃ line offset, NearestText kallsyms pc line ∧
      firstAnswer (kernelFallbacks search kallsyms) (pc - base) =
        some (some (String.ofList line.name, offset)) := by
  obtain ⟨first, among, text, above, below⟩ := covered
  have member : (first.addr - base, String.ofList first.name) ∈
      relativeSyms kallsyms base :=
    mem_relativeSyms.mpr ⟨first, among, ⟨above, text⟩, rfl⟩
  rw [kernelFallbacks]
  rcases loadKallsyms_of_base found with ⟨empty, _⟩ | ⟨k, loaded, table, textEnd⟩
  · rw [empty] at member
    cases member
  · rw [loaded]
    dsimp only
    rw [firstAnswer_single]
    have before : pc - base < k.textEnd := by
      rw [textEnd]
      split
      · exact small
      · next stop ending =>
          exact Nat.sub_lt_sub_right (above.trans below) (running stop ending)
    rcases k.resolve_spec search before with
      ⟨none, _⟩ | ⟨sym, present, le, greatest, result⟩
    · obtain ⟨other, present, same⟩ := exists_mem_table table member
      have := none other present
      dsimp only at same
      omega
    · obtain ⟨line, listed, ⟨from_, isText⟩, rfl⟩ :=
        mem_relativeSyms.mp (mem_table table present)
      refine ⟨line, _, ⟨listed, isText, ?_, ?_⟩, result⟩
      · dsimp only at le
        omega
      · intro other otherListed otherText otherLe
        by_cases low : other.addr < base
        · omega
        · obtain ⟨kept, keptMember, same⟩ := exists_mem_table table
            (mem_relativeSyms.mpr ⟨other, otherListed,
              ⟨Nat.not_lt.mp low, otherText⟩, rfl⟩)
          dsimp only at same le greatest
          have := greatest kept keptMember (by omega)
          omega

end

end Sismo.Symbolize
