import Mathlib.Data.List.MinMax
import Sismo.Elf.Slice

namespace Sismo.Elf

/-! The shared view of a 64-bit ELF file: its program headers, and addresses
and offsets through its segments. -/

def ptLoad : Nat := 1

def ptNote : Nat := 4

def ptGnuEhFrame : Nat := 0x6474e550

def shtNote : Nat := 7

structure Segment where
  pType : Nat
  offset : Nat
  vaddr : Nat
  filesz : Nat
  memsz : Nat
  offset_lt : offset < 2 ^ 64 := by decide
  vaddr_lt : vaddr < 2 ^ 64 := by decide
  filesz_lt : filesz < 2 ^ 64 := by decide

/-- A section header, without the name and the address. -/
structure Section where
  shType : Nat
  offset : Nat
  size : Nat

def checkedAdd (a b : Nat) : Option Nat :=
  if a + b < 2 ^ 64 then some (a + b) else none

def checkedSub (a b : Nat) : Option Nat :=
  if b ≤ a then some (a - b) else none

def saturatingAdd (a b : Nat) : Nat :=
  min (a + b) (2 ^ 64 - 1)

theorem checkedAdd_eq_some {a b c : Nat} :
    checkedAdd a b = some c ↔ a + b = c ∧ c < 2 ^ 64 := by
  rw [checkedAdd]
  split
  · next fits =>
      rw [Option.some.injEq]
      constructor
      · rintro rfl
        exact ⟨rfl, fits⟩
      · exact fun same => same.1
  · next overflows =>
      refine iff_of_false (by simp) fun same => overflows ?_
      rw [same.1]
      exact same.2

theorem checkedSub_eq_some {a b c : Nat} :
    checkedSub a b = some c ↔ b ≤ a ∧ a - b = c := by
  rw [checkedSub]
  split
  · next le => simp [le]
  · next less => simp [less]

/-- Where all elements that answer agree, the first answer is any of them. -/
theorem findSome?_eq_some_iff_of_agree {α β : Type*} {list : List α}
    {f : α → Option β} (agree : ∀ s ∈ list, ∀ t ∈ list, ∀ a b,
      f s = some a → f t = some b → a = b) {answer : β} :
    list.findSome? f = some answer ↔ ∃ s ∈ list, f s = some answer := by
  constructor
  · exact List.exists_of_findSome?_eq_some
  · rintro ⟨s, member, gives⟩
    have isSome : (list.findSome? f).isSome :=
      List.findSome?_isSome_iff.mpr ⟨s, member, gives ▸ rfl⟩
    obtain ⟨other, found⟩ := Option.isSome_iff_exists.mp isSome
    obtain ⟨t, among, answers⟩ := List.exists_of_findSome?_eq_some found
    rw [found, agree s member t among answer other gives answers]

namespace Segment

def fileOffsetToVaddr (seg : Segment) (fileOffset : Nat) : Option Nat :=
  if seg.pType ≠ ptLoad then none
  else
    (checkedSub fileOffset seg.offset).bind fun delta =>
      if delta < seg.filesz then checkedAdd seg.vaddr delta else none

def containsVaddr (seg : Segment) (vaddr : Nat) : Bool :=
  seg.vaddr ≤ vaddr ∧ vaddr < saturatingAdd seg.vaddr seg.filesz

/-- What `vaddr_to_offset` asks of one segment: none where the code panics. The
offset is computed before the test decides, so also where it is not used. -/
def vaddrToOffset (seg : Segment) (vaddr len : Nat) : Option (Option Nat) :=
  match checkedAdd vaddr len with
  | none => some none
  | some stop =>
      let covered :=
        if seg.vaddr ≤ vaddr then
          (checkedAdd seg.vaddr seg.filesz).map fun limit =>
            decide (stop ≤ limit)
        else some false
      match covered with
      | none => some none
      | some covered =>
          if vaddr < seg.vaddr ∨ 2 ^ 64 ≤ vaddr - seg.vaddr + seg.offset then
            none
          else if covered then some (some (vaddr - seg.vaddr + seg.offset))
          else some none

def firstOffset (vaddr len : Nat) : List Segment → Option (Option Nat)
  | [] => some none
  | seg :: rest =>
      match seg.vaddrToOffset vaddr len with
      | none => none
      | some (some offset) => some (some offset)
      | some none => firstOffset vaddr len rest

/-- The 56 bytes of a program header. -/
def ofBytes (ph : Slice) : Segment where
  pType := ph.u32At 0
  offset := ph.u64At 8
  vaddr := ph.u64At 16
  filesz := ph.u64At 32
  memsz := ph.u64At 40
  offset_lt := ph.u64At_lt 8
  vaddr_lt := ph.u64At_lt 16
  filesz_lt := ph.u64At_lt 32

end Segment

structure Headers where
  segments : List Segment
  sections : List Section

structure ElfFile extends Headers where
  data : Slice

namespace ElfFile

variable (elf : ElfFile)

def parse (readHeaders : Slice → Option Headers) (data : Slice) :
    Option ElfFile :=
  (readHeaders data).map fun headers =>
    { toHeaders := headers, data := data }

def segment (pType : Nat) : Option Segment :=
  elf.segments.find? (·.pType = pType)

def loads : List Segment :=
  elf.segments.filter (·.pType = ptLoad)

def imageBase : Option Nat :=
  (elf.loads.map Segment.vaddr).min?

def fileOffsetToVaddr (fileOffset : Nat) : Option Nat :=
  elf.segments.findSome? (·.fileOffsetToVaddr fileOffset)

/-- The file offset of `len` bytes at an address, if one segment covers them:
none where the code panics. -/
def vaddrToOffset (vaddr len : Nat) : Option (Option Nat) :=
  Segment.firstOffset vaddr len elf.loads

def loadContaining (vaddr : Nat) : Option Segment :=
  elf.segments.find? fun s => s.pType = ptLoad ∧ s.containsVaddr vaddr

def read (offset len : Nat) : Option Slice :=
  elf.data.get offset (offset + len)

theorem mem_loads {elf : ElfFile} {seg : Segment} :
    seg ∈ elf.loads ↔ seg ∈ elf.segments ∧ seg.pType = ptLoad := by
  rw [loads, List.mem_filter, decide_eq_true_eq]

theorem imageBase_eq_some {elf : ElfFile} {base : Nat} :
    elf.imageBase = some base ↔
      (∃ seg ∈ elf.loads, seg.vaddr = base) ∧
        ∀ seg ∈ elf.loads, base ≤ seg.vaddr := by
  rw [imageBase, List.min?_eq_some_iff]
  simp

end ElfFile

def phdrAt (file : Slice) (i : Nat) : Slice where
  data := (file.data.drop (64 + i * 56)).take 56
  short := file.short_range (64 + i * 56) 56

/-- A file whose program headers follow its ELF header, without sections. -/
def elfOf (file : Slice) (phnum : Nat) : ElfFile where
  segments := (List.range phnum).map fun i => Segment.ofBytes (phdrAt file i)
  sections := []
  data := file

end Sismo.Elf
