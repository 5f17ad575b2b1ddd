import Mathlib.Data.List.Pairwise
import Mathlib.Order.CompletePartialOrder
import Mathlib.Order.Interval.Set.Disjoint
import Sismo.Elf.File

namespace Sismo.Elf

/-! File offsets and addresses, converted through the segments. -/

namespace Segment

def fileRange (s : Segment) : Set Nat :=
  Set.Ico s.offset (s.offset + s.filesz)

def memoryRange (s : Segment) : Set Nat :=
  Set.Ico s.vaddr (s.vaddr + s.memsz)

/-- The part of the memory range that is in the file. -/
def backedRange (s : Segment) : Set Nat :=
  Set.Ico s.vaddr (s.vaddr + s.filesz)

end Segment

/-- The PT_LOAD segments share no bytes of the file and no addresses. -/
structure Separate (elf : ElfFile) : Prop where
  files : elf.loads.Pairwise fun s t => Disjoint s.fileRange t.fileRange
  memory : elf.loads.Pairwise fun s t => Disjoint s.memoryRange t.memoryRange
  filesz_le : ∀ s ∈ elf.loads, s.filesz ≤ s.memsz
  offset_fits : ∀ s ∈ elf.loads, s.offset + s.filesz < 2 ^ 64
  vaddr_fits : ∀ s ∈ elf.loads, s.vaddr + s.memsz < 2 ^ 64

namespace Separate

variable {elf : ElfFile} {s t : Segment} {off vaddr len : Nat}

theorem backedRange_subset (separate : Separate elf) (load : s ∈ elf.loads) :
    s.backedRange ⊆ s.memoryRange :=
  Set.Ico_subset_Ico_right
    (Nat.add_le_add_left (separate.filesz_le s load) s.vaddr)

theorem file_unique (separate : Separate elf) (first : s ∈ elf.loads)
    (second : t ∈ elf.loads) (sOff : off ∈ s.fileRange)
    (tOff : off ∈ t.fileRange) : s = t := by
  by_contra other
  have symmetric : Std.Symm fun s t : Segment =>
      Disjoint s.fileRange t.fileRange := ⟨fun _ _ apart => apart.symm⟩
  have apart := separate.files.forall first second other
  exact Set.disjoint_left.mp apart sOff tOff

theorem memory_unique (separate : Separate elf) (first : s ∈ elf.loads)
    (second : t ∈ elf.loads) (sAddr : vaddr ∈ s.backedRange)
    (tAddr : vaddr ∈ t.backedRange) : s = t := by
  by_contra other
  have symmetric : Std.Symm fun s t : Segment =>
      Disjoint s.memoryRange t.memoryRange := ⟨fun _ _ apart => apart.symm⟩
  have apart := separate.memory.forall first second other
  exact Set.disjoint_left.mp apart (separate.backedRange_subset first sAddr)
    (separate.backedRange_subset second tAddr)

theorem segment_fileOffsetToVaddr (separate : Separate elf)
    (member : s ∈ elf.segments) : s.fileOffsetToVaddr off = some vaddr ↔
      s ∈ elf.loads ∧ off ∈ s.fileRange ∧ s.vaddr + (off - s.offset) = vaddr := by
  rw [Segment.fileOffsetToVaddr]
  split
  · next other =>
      refine iff_of_false (Option.some_ne_none vaddr).symm fun both => other ?_
      exact (ElfFile.mem_loads.mp both.1).2
  · next load =>
      have loaded := ElfFile.mem_loads.mpr ⟨member, not_not.mp load⟩
      have sizes := separate.filesz_le s loaded
      have fits := separate.vaddr_fits s loaded
      simp only [Option.bind_eq_some_iff, checkedSub_eq_some,
        Option.ite_none_right_eq_some, checkedAdd_eq_some, Segment.fileRange,
        Set.mem_Ico]
      constructor
      · rintro ⟨delta, ⟨le, sub⟩, small, sum, -⟩
        exact ⟨loaded, by omega, by omega⟩
      · rintro ⟨-, inside, sum⟩
        exact ⟨_, ⟨inside.1, rfl⟩, by omega, sum, by omega⟩

theorem fileOffsetToVaddr_eq_some (separate : Separate elf) :
    elf.fileOffsetToVaddr off = some vaddr ↔
      ∃ s ∈ elf.loads, off ∈ s.fileRange ∧
        s.vaddr + (off - s.offset) = vaddr := by
  rw [ElfFile.fileOffsetToVaddr, findSome?_eq_some_iff_of_agree]
  · constructor
    · rintro ⟨s, member, translated⟩
      exact ⟨s, (separate.segment_fileOffsetToVaddr member).mp translated⟩
    · rintro ⟨s, loaded, along⟩
      have member := (ElfFile.mem_loads.mp loaded).1
      exact ⟨s, member,
        (separate.segment_fileOffsetToVaddr member).mpr ⟨loaded, along⟩⟩
  · intro s first t second a b along other
    obtain ⟨sLoaded, sOff, sSum⟩ :=
      (separate.segment_fileOffsetToVaddr first).mp along
    obtain ⟨tLoaded, tOff, tSum⟩ :=
      (separate.segment_fileOffsetToVaddr second).mp other
    cases separate.file_unique sLoaded tLoaded sOff tOff
    exact sSum.symm.trans tSum

end Separate

namespace Segment

/-- All `len` bytes at the address are in the file. -/
def Covers (s : Segment) (vaddr len : Nat) : Prop :=
  s.vaddr ≤ vaddr ∧ vaddr + len ≤ s.vaddr + s.filesz

instance (s : Segment) (vaddr len : Nat) : Decidable (s.Covers vaddr len) :=
  inferInstanceAs (Decidable (_ ∧ _))

/-- The segment starts no higher than the address, and its offset there is a
word. -/
def Measures (s : Segment) (vaddr : Nat) : Prop :=
  s.vaddr ≤ vaddr ∧ vaddr - s.vaddr + s.offset < 2 ^ 64

instance (s : Segment) (vaddr : Nat) : Decidable (s.Measures vaddr) :=
  inferInstanceAs (Decidable (_ ∧ _))

theorem covers_iff {s : Segment} {vaddr len : Nat} (pos : 1 ≤ len) :
    Set.Ico vaddr (vaddr + len) ⊆ s.backedRange ↔ s.Covers vaddr len :=
  Set.Ico_subset_Ico_iff (Nat.lt_add_of_pos_right pos)

theorem vaddrToOffset_eq {s : Segment} {vaddr len : Nat}
    (word : vaddr + len < 2 ^ 64) (limit : s.vaddr + s.filesz < 2 ^ 64) :
    s.vaddrToOffset vaddr len =
      if s.Measures vaddr then
        some (if s.Covers vaddr len then some (vaddr - s.vaddr + s.offset)
          else none)
      else none := by
  have stop : checkedAdd vaddr len = some (vaddr + len) :=
    checkedAdd_eq_some.mpr ⟨rfl, word⟩
  have top : checkedAdd s.vaddr s.filesz = some (s.vaddr + s.filesz) :=
    checkedAdd_eq_some.mpr ⟨rfl, limit⟩
  rw [Segment.vaddrToOffset, stop]
  by_cases low : s.vaddr ≤ vaddr
  · simp only [low, ↓reduceIte, top, Option.map_some, Segment.Covers,
      Segment.Measures, true_and]
    by_cases fits : vaddr - s.vaddr + s.offset < 2 ^ 64
    · rw [if_neg (by omega), if_pos fits]
      split <;> simp_all
    · rw [if_pos (by omega), if_neg fits]
  · have high : ¬s.Measures vaddr := fun measures => low measures.1
    simp only [low, ↓reduceIte, high]
    rw [if_pos (Or.inl (Nat.lt_of_not_le low))]

end Segment

/-- Every PT_LOAD before the first that covers the bytes, or every one where
none does, starts no higher than the address, and its offset there is a
word. -/
def Measured (elf : ElfFile) (vaddr len : Nat) : Prop :=
  vaddr + len < 2 ^ 64 →
    ∀ s ∈ elf.loads.takeWhile fun s => ¬s.Covers vaddr len,
      s.Measures vaddr

instance (elf : ElfFile) (vaddr len : Nat) :
    Decidable (Measured elf vaddr len) :=
  inferInstanceAs (Decidable (_ → _))

/-- The search stops at the first segment that cannot be measured, or gives the
offset in the first that covers the bytes. -/
theorem firstOffset_eq {vaddr len : Nat} (word : vaddr + len < 2 ^ 64)
    {loads : List Segment}
    (limits : ∀ s ∈ loads, s.vaddr + s.filesz < 2 ^ 64)
    (offsets : ∀ s ∈ loads, s.offset + s.filesz < 2 ^ 64) :
    Segment.firstOffset vaddr len loads =
      if ∀ s ∈ loads.takeWhile fun s => ¬s.Covers vaddr len,
          s.Measures vaddr then
        some ((loads.find? fun s => s.Covers vaddr len).map fun s =>
          vaddr - s.vaddr + s.offset)
      else none := by
  induction loads with
  | nil => simp [Segment.firstOffset]
  | cons s rest induction =>
      have induction := induction
        (fun t member => limits t (List.mem_cons_of_mem s member))
        (fun t member => offsets t (List.mem_cons_of_mem s member))
      have limit := limits s List.mem_cons_self
      have offset := offsets s List.mem_cons_self
      rw [Segment.firstOffset, Segment.vaddrToOffset_eq word limit]
      by_cases covers : s.Covers vaddr len
      · have measures : s.Measures vaddr := by
          have := covers.1
          have := covers.2
          exact ⟨covers.1, by omega⟩
        simp [covers, measures]
      · by_cases measures : s.Measures vaddr
        · simp [covers, measures, induction]
        · simp [covers, measures]

/-- The offset of bytes at an address is given exactly where a segment covers
them, and converts back. -/
structure AddressConverts (elf : ElfFile) (vaddr len : Nat) : Prop where
  answers : ∃ answer, elf.vaddrToOffset vaddr len = some answer ∧
    (answer.isSome ↔
      ∃ s ∈ elf.loads, Set.Ico vaddr (vaddr + len) ⊆ s.backedRange)
  back : ∀ off, elf.vaddrToOffset vaddr len = some (some off) →
    elf.fileOffsetToVaddr off = some vaddr

/-- The address of an offset is given exactly where a segment has it, and
converts back; so does that of any more bytes that have an offset. -/
structure OffsetConverts (elf : ElfFile) (off : Nat) : Prop where
  answers : (elf.fileOffsetToVaddr off).isSome ↔
    ∃ s ∈ elf.loads, off ∈ s.fileRange
  back : ∀ vaddr, elf.fileOffsetToVaddr off = some vaddr →
    elf.vaddrToOffset vaddr 1 = some (some off) ∧
      ∀ len, 1 ≤ len → ∀ other,
        elf.vaddrToOffset vaddr len = some (some other) → other = off

namespace Separate

variable {elf : ElfFile} {s : Segment} {off vaddr len : Nat}

theorem limit (separate : Separate elf) (loaded : s ∈ elf.loads) :
    s.vaddr + s.filesz < 2 ^ 64 := by
  have := separate.vaddr_fits s loaded
  have := separate.filesz_le s loaded
  omega

/-- The answer where it is given, for any length. -/
theorem vaddrToOffset_eq (separate : Separate elf) (vaddr len : Nat) :
    elf.vaddrToOffset vaddr len =
      if Measured elf vaddr len then
        some ((elf.loads.find? fun s => s.Covers vaddr len).map fun s =>
          vaddr - s.vaddr + s.offset)
      else none := by
  by_cases word : vaddr + len < 2 ^ 64
  · rw [ElfFile.vaddrToOffset, firstOffset_eq word
      (fun s loaded => separate.limit loaded) separate.offset_fits]
    simp only [Measured, word, forall_const]
  · have uncovered : elf.loads.find? (fun s => s.Covers vaddr len) = none := by
      refine List.find?_eq_none.mpr fun s loaded covers => ?_
      have covers : s.Covers vaddr len := by simpa using covers
      have := separate.limit loaded
      have := covers.2
      omega
    have wide : checkedAdd vaddr len = none := if_neg word
    have measured : Measured elf vaddr len := fun fits => absurd fits word
    rw [if_pos measured, uncovered, ElfFile.vaddrToOffset, Option.map_none]
    clear measured uncovered
    induction elf.loads with
    | nil => rfl
    | cons s rest induction =>
        rw [Segment.firstOffset, Segment.vaddrToOffset, wide]
        exact induction

/-- The offset of addresses is the one that the segment around all of them
gives them. -/
theorem vaddrToOffset_eq_some (separate : Separate elf) (pos : 1 ≤ len) :
    elf.vaddrToOffset vaddr len = some (some off) ↔
      Measured elf vaddr len ∧ ∃ s ∈ elf.loads, s.Covers vaddr len ∧
        vaddr - s.vaddr + s.offset = off := by
  rw [separate.vaddrToOffset_eq, Option.ite_none_right_eq_some,
    Option.some.injEq, Option.map_eq_some_iff]
  refine and_congr_right fun _ => ?_
  constructor
  · rintro ⟨s, found, rfl⟩
    have covers := List.find?_some found
    exact ⟨s, List.mem_of_find?_eq_some found, by simpa using covers, rfl⟩
  · rintro ⟨s, loaded, covers, rfl⟩
    have found : (elf.loads.find? fun s => s.Covers vaddr len).isSome :=
      List.find?_isSome.mpr ⟨s, loaded, by simpa using covers⟩
    obtain ⟨t, first⟩ := Option.isSome_iff_exists.mp found
    have also := List.find?_some first
    have tCovers : t.Covers vaddr len := by simpa using also
    have sAddr : vaddr ∈ s.backedRange :=
      (Segment.covers_iff pos).mpr covers (Set.mem_Ico.mpr (by omega))
    have tAddr : vaddr ∈ t.backedRange :=
      (Segment.covers_iff pos).mpr tCovers (Set.mem_Ico.mpr (by omega))
    cases separate.memory_unique loaded (List.mem_of_find?_eq_some first)
      sAddr tAddr
    exact ⟨s, first, rfl⟩

/-- The conversion of an address is right exactly where every segment that is
looked at can be measured. -/
theorem addressConverts_iff (separate : Separate elf) (pos : 1 ≤ len) :
    AddressConverts elf vaddr len ↔ Measured elf vaddr len := by
  constructor
  · intro converts
    obtain ⟨answer, given, _⟩ := converts.answers
    rw [separate.vaddrToOffset_eq] at given
    exact (Option.ite_none_right_eq_some.mp given).1
  · intro measured
    refine ⟨⟨(elf.loads.find? fun s => s.Covers vaddr len).map fun s =>
      vaddr - s.vaddr + s.offset, ?_, ?_⟩, fun off converted => ?_⟩
    · rw [separate.vaddrToOffset_eq, if_pos measured]
    · rw [Option.isSome_map, List.find?_isSome]
      simp only [Segment.covers_iff pos, decide_eq_true_eq]
    · obtain ⟨_, s, loaded, covers, rfl⟩ :=
        (separate.vaddrToOffset_eq_some pos).mp converted
      have := covers.1
      have := covers.2
      exact separate.fileOffsetToVaddr_eq_some.mpr
        ⟨s, loaded, Set.mem_Ico.mpr (by omega), by omega⟩

/-- The conversion of an offset is right exactly where its address can be
converted back. -/
theorem offsetConverts_iff (separate : Separate elf) :
    OffsetConverts elf off ↔ ∀ s ∈ elf.loads, off ∈ s.fileRange →
      Measured elf (s.vaddr + (off - s.offset)) 1 := by
  constructor
  · intro converts s loaded inside
    have converted := separate.fileOffsetToVaddr_eq_some.mpr
      ⟨s, loaded, inside, rfl⟩
    have back := (converts.back _ converted).1
    exact ((separate.vaddrToOffset_eq_some (Nat.le_refl 1)).mp back).1
  · intro measured
    constructor
    · rw [Option.isSome_iff_exists]
      constructor
      · rintro ⟨vaddr, converted⟩
        obtain ⟨s, loaded, inside, -⟩ :=
          separate.fileOffsetToVaddr_eq_some.mp converted
        exact ⟨s, loaded, inside⟩
      · rintro ⟨s, loaded, inside⟩
        exact ⟨_, separate.fileOffsetToVaddr_eq_some.mpr
          ⟨s, loaded, inside, rfl⟩⟩
    · intro vaddr converted
      obtain ⟨s, loaded, inside, rfl⟩ :=
        separate.fileOffsetToVaddr_eq_some.mp converted
      have bounds := Set.mem_Ico.mp inside
      constructor
      · refine (separate.vaddrToOffset_eq_some (Nat.le_refl 1)).mpr
          ⟨measured s loaded inside, s, loaded, ?_, by omega⟩
        exact ⟨by omega, by omega⟩
      · intro len pos other again
        obtain ⟨_, t, among, covers, rfl⟩ :=
          (separate.vaddrToOffset_eq_some pos).mp again
        have sAddr : s.vaddr + (off - s.offset) ∈ s.backedRange :=
          Set.mem_Ico.mpr (by omega)
        have tAddr : s.vaddr + (off - s.offset) ∈ t.backedRange :=
          (Segment.covers_iff pos).mpr covers (Set.mem_Ico.mpr (by omega))
        cases separate.memory_unique loaded among sAddr tAddr
        omega

end Separate

/-- In every file of separate segments the conversions keep their promises
exactly for the values for which each segment that the search looks at before
the right one starts no higher than the address, and gives it an offset that is
a word. -/
theorem converts_iff_measured {elf : ElfFile} (separate : Separate elf) :
    (∀ vaddr len, 1 ≤ len →
      (AddressConverts elf vaddr len ↔ Measured elf vaddr len)) ∧
    ∀ off, OffsetConverts elf off ↔ ∀ s ∈ elf.loads, off ∈ s.fileRange →
      Measured elf (s.vaddr + (off - s.offset)) 1 :=
  ⟨fun _ _ pos => separate.addressConverts_iff pos,
    fun _ => separate.offsetConverts_iff⟩

theorem zero_lt_word : 0 < 2 ^ 64 := by decide

theorem length_lt_word : 0x200 < 2 ^ 64 := by decide

theorem offset_lt_word : 0x1000 < 2 ^ 64 := by decide

theorem low_lt_word : 0x400000 < 2 ^ 64 := by decide

theorem high_lt_word : 0x403000 < 2 ^ 64 := by decide

/-- Two segments whose offsets and addresses differ by different amounts. -/
def skewed : ElfFile where
  segments := [⟨ptLoad, 0x1000, 0x403000, 0x200, 0x400, offset_lt_word,
    high_lt_word, length_lt_word⟩, ⟨ptLoad, 0, 0x400000, 0x1000, 0x1000,
    zero_lt_word, low_lt_word, offset_lt_word⟩]
  sections := []
  data := ⟨[], Nat.two_pow_pos 63⟩

theorem skewed_separate : Separate skewed where
  files := List.pairwise_pair.mpr
    (Set.disjoint_left.mpr fun off high low => by
      have above : 0x1000 ≤ off := high.1
      have below : off < 0 + 0x1000 := low.2
      omega)
  memory := List.pairwise_pair.mpr
    (Set.disjoint_left.mpr fun addr high low => by
      have above : 0x403000 ≤ addr := high.1
      have below : addr < 0x400000 + 0x1000 := low.2
      omega)
  filesz_le := by decide
  offset_fits := by decide
  vaddr_fits := by decide

theorem converts_iff_measured_skewed :
    AddressConverts skewed 0x403010 1 ∧ OffsetConverts skewed 0x1010 := by
  have converts := converts_iff_measured skewed_separate
  refine ⟨(converts.1 0x403010 1 (Nat.le_refl 1)).mpr (by decide),
    (converts.2 0x1010).mpr ?_⟩
  intro s loaded inside
  have loads : skewed.loads = skewed.segments := rfl
  rw [loads] at loaded
  rcases List.mem_pair.mp loaded with rfl | rfl
  · decide
  · have below : 0x1010 < 0 + 0x1000 := inside.2
    omega

/-- The segment above the address comes first, and the code panics before it
looks at the one that has it. -/
theorem not_addressConverts_skewed :
    Separate skewed ∧ ¬AddressConverts skewed 0x400010 1 := by
  refine ⟨skewed_separate, fun converts => ?_⟩
  obtain ⟨answer, given, _⟩ := converts.answers
  have panics : skewed.vaddrToOffset 0x400010 1 = none := by decide
  cases panics.symm.trans given

end Sismo.Elf
