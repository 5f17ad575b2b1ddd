import Sismo.Lib.LittleEndian
import Sismo.Lib.PrefixTrie
import Sismo.Unwind.RowLookup

namespace Sismo.Unwind

/-! The split of an address range in 64-bit words, and the trie of the blocks'
big-endian keys. -/

def leadingZeros (n : Nat) : Nat :=
  if n = 0 then 64 else 63 - n.log2

/-- `summarize_address_range` on 64-bit words: none where an addition or the
shift overflows. -/
def summarizeWords (curr high : Nat) : Option (List (Nat × Nat)) :=
  if curr ≤ high then
    let numberOfBits := min (trailingZeros curr)
      (64 - leadingZeros (high - curr + 1) - 1)
    if high - curr + 1 < 2 ^ 64 ∧ numberOfBits < 64 ∧
        curr + 2 ^ numberOfBits < 2 ^ 64 then
      ((curr, 64 - numberOfBits) :: ·) <$>
        (if curr + 2 ^ numberOfBits - 1 = 2 ^ 64 - 1 then some []
        else summarizeWords (curr + 2 ^ numberOfBits) high)
    else none
  else some []
termination_by high + 1 - curr
decreasing_by
  have := Nat.two_pow_pos (min (trailingZeros curr)
    (64 - leadingZeros (high - curr + 1) - 1))
  omega

/-- Power-of-two sized blocks aligned to their size, ascending and disjoint,
that together are the range. -/
structure ExactCover (low high : Nat) (blocks : List (Nat × Nat)) : Prop where
  aligned : ∀ block ∈ blocks, block.2 ≤ 64 ∧ 2 ^ (64 - block.2) ∣ block.1
  ascending : blocks.Pairwise fun first second =>
    first.1 + 2 ^ (64 - first.2) ≤ second.1
  covers : ∀ pc, (low ≤ pc ∧ pc ≤ high) ↔
    ∃ block ∈ blocks, block.1 ≤ pc ∧ pc < block.1 + 2 ^ (64 - block.2)

theorem blockBits_eq {curr high : Nat} (fits : high - curr + 1 < 2 ^ 64) :
    min (trailingZeros curr) (64 - leadingZeros (high - curr + 1) - 1) =
      blockBits curr high := by
  have log : (high - curr + 1).log2 < 64 :=
    (Nat.log2_lt (Nat.succ_ne_zero _)).mpr fits
  have bits : 64 - leadingZeros (high - curr + 1) - 1 =
      (high - curr + 1).log2 := by
    rw [leadingZeros, if_neg (Nat.succ_ne_zero _)]
    omega
  rw [bits, blockBits]

theorem blockBits_lt {curr high : Nat} (fits : high - curr + 1 < 2 ^ 64) :
    blockBits curr high < 64 :=
  (Nat.min_le_right _ _).trans_lt
    ((Nat.log2_lt (Nat.succ_ne_zero _)).mpr fits)

theorem summarizeWords_eq {low high : Nat} (fits : high < 2 ^ 64 - 1) :
    summarizeWords low high = some (summarizeAddressRange low high) := by
  fun_induction summarizeAddressRange low high with
  | case1 low nonempty induction =>
      have length : high - low + 1 < 2 ^ 64 := by omega
      have first := (isBlock_first nonempty).le_high
      have pos := Nat.two_pow_pos (blockBits low high)
      dsimp only at first
      rw [summarizeWords, if_pos nonempty]
      dsimp only
      rw [blockBits_eq length,
        if_pos ⟨length, blockBits_lt length, by omega⟩, if_neg (by omega),
        induction, Option.map_eq_map, Option.map_some]
  | case2 low empty => rw [summarizeWords, if_neg empty]

theorem IsBlock.size_eq {low high : Nat} {block : Nat × Nat} {bits : Nat}
    (isBlock : IsBlock low high block bits) : 64 - block.2 = bits := by
  have := isBlock.prefix_eq
  have := isBlock.bits_le
  omega

theorem summarizeAddressRange_ascending (low high : Nat) :
    (summarizeAddressRange low high).Pairwise fun first second =>
      first.1 + 2 ^ (64 - first.2) ≤ second.1 := by
  fun_induction summarizeAddressRange low high with
  | case1 low nonempty induction =>
      apply List.Pairwise.cons _ induction
      intro block member
      obtain ⟨bits, isBlock⟩ := isBlock_of_mem member
      rw [(isBlock_first nonempty).size_eq]
      exact isBlock.low_le
  | case2 low empty => exact List.Pairwise.nil

theorem exactCover_summarizeAddressRange (low high : Nat) :
    ExactCover low high (summarizeAddressRange low high) where
  aligned block member := by
    obtain ⟨bits, isBlock⟩ := isBlock_of_mem member
    rw [isBlock.size_eq]
    exact ⟨isBlock.prefix_eq ▸ Nat.sub_le 64 bits, isBlock.aligned⟩
  ascending := summarizeAddressRange_ascending low high
  covers pc := by
    constructor
    · intro ⟨above, below⟩
      obtain ⟨block, member, bits, isBlock, inside⟩ :=
        exists_isBlock above below
      exact ⟨block, member, isBlock.size_eq.symm ▸ inside⟩
    · intro ⟨block, member, lowLe, below⟩
      obtain ⟨bits, isBlock⟩ := isBlock_of_mem member
      rw [isBlock.size_eq] at below
      have := isBlock.low_le
      have := isBlock.le_high
      omega

/-! The key of the trie as the struct holds it in memory. -/

/-- The fields of the struct, whose words are stored lowest byte first. -/
structure TrieKey where
  prefixLen : Nat
  pid : Nat
  data : Nat

/-- The process id and the address are byte-swapped, by `to_be` in the loader
and by `bswap` in the walker. -/
def TrieKey.new (pid address prefixLen : Nat) : TrieKey where
  prefixLen := prefixLen
  pid := swapBytes 4 pid
  data := swapBytes 8 address

def TrieKey.bits (key : TrieKey) : List Bool :=
  (leBytes 4 key.pid ++ leBytes 8 key.data).flatMap byteBits

def TrieKey.stored (key : TrieKey) : List Bool :=
  key.bits.take key.prefixLen

def execMappingsPrefixBits : Nat := (16 - 4) * 8

/-- A segment of a process with its bounds, both inclusive. -/
structure Segment where
  pid : Nat
  low : Nat
  high : Nat
  mapping : Mapping

def Segment.Contains (segment : Segment) (pid pc : Nat) : Prop :=
  segment.pid = pid ∧ segment.low ≤ pc ∧ pc ≤ segment.high

def Segment.trieEntries (segment : Segment) :
    Option (List (List Bool × Mapping)) :=
  (summarizeWords segment.low segment.high).map fun blocks =>
    blocks.map fun block =>
      ((TrieKey.new segment.pid block.1 (32 + block.2)).stored,
        segment.mapping)

/-- The entries of the segments, none where a split overflows. -/
def trieEntries (segments : List Segment) :
    Option (List (List Bool × Mapping)) :=
  List.flatten <$> segments.mapM Segment.trieEntries

/-- `unwind_find_mapping`: the lookup of a full-length key. -/
def findMapping (trie : HashMap (List Bool) Mapping) (pid pc : Nat) :
    Option Mapping :=
  trie.lookupLongest (TrieKey.new pid pc execMappingsPrefixBits).stored

theorem TrieKey.bits_new (pid address prefixLen : Nat) :
    (TrieKey.new pid address prefixLen).bits =
      wordBits 32 pid ++ wordBits 64 address := by
  simp only [TrieKey.bits, TrieKey.new]
  rw [leBytes_swapBytes, leBytes_swapBytes, List.flatMap_append,
    flatMap_byteBits, flatMap_byteBits]

theorem TrieKey.stored_new {count : Nat} (le : count ≤ 64)
    (pid address : Nat) :
    (TrieKey.new pid address (32 + count)).stored =
      wordBits 32 pid ++ wordBits count (address / 2 ^ (64 - count)) := by
  have length : (wordBits 32 pid).length = 32 := length_wordBits 32 pid
  rw [TrieKey.stored, TrieKey.bits_new]
  have prefixLen : (TrieKey.new pid address (32 + count)).prefixLen =
      (wordBits 32 pid).length + count := by rw [length]; rfl
  rw [prefixLen, List.take_length_add_append, take_wordBits le]

/-- The stored bits of two keys are the same exactly where the keys of the
walker's map are. -/
theorem TrieKey.stored_eq_iff {pid address count otherPid other length : Nat}
    (pidFits : pid < 2 ^ 32) (otherPidFits : otherPid < 2 ^ 32)
    (fits : address < 2 ^ 64) (otherFits : other < 2 ^ 64)
    (countLe : count ≤ 64) (lengthLe : length ≤ 64) :
    (TrieKey.new pid address (32 + count)).stored =
        (TrieKey.new otherPid other (32 + length)).stored ↔
      ExecMappingsKey.new pid address (32 + count) =
        ExecMappingsKey.new otherPid other (32 + length) := by
  have quotient : ∀ n count, n < 2 ^ 64 → count ≤ 64 →
      n / 2 ^ (64 - count) < 2 ^ count := by
    intro n count fits le
    apply Nat.div_lt_of_lt_mul
    rwa [← Nat.pow_add, Nat.sub_add_cancel le]
  have shift : ∀ count, 96 - (32 + count) = 64 - count := by omega
  rw [TrieKey.stored_new countLe, TrieKey.stored_new lengthLe]
  simp only [ExecMappingsKey.new, ExecMappingsKey.mk.injEq, shift,
    Nat.add_left_cancel_iff]
  constructor
  · intro same
    obtain ⟨pidBits, dataBits⟩ := List.append_inj same (by
      rw [length_wordBits, length_wordBits])
    have sameLength := congrArg List.length dataBits
    rw [length_wordBits, length_wordBits] at sameLength
    subst sameLength
    exact ⟨rfl, wordBits_injective pidFits otherPidFits pidBits,
      wordBits_injective (quotient _ _ fits countLe)
        (quotient _ _ otherFits countLe) dataBits⟩
  · rintro ⟨rfl, rfl, data⟩
    rw [data]

/-- A block's key is a prefix of the full-length key exactly for the addresses
of the block. -/
theorem IsBlock.stored_isPrefix_iff {low high : Nat} {block : Nat × Nat}
    {bits : Nat} (isBlock : IsBlock low high block bits) {owner pid pc : Nat}
    (ownerFits : owner < 2 ^ 32) (pidFits : pid < 2 ^ 32)
    (highFits : high < 2 ^ 64) (pcFits : pc < 2 ^ 64) :
    (TrieKey.new owner block.1 (32 + block.2)).stored <+:
        (TrieKey.new pid pc execMappingsPrefixBits).stored ↔
      owner = pid ∧ block.1 ≤ pc ∧ pc < block.1 + 2 ^ bits := by
  have within : block.2 ≤ 64 := isBlock.prefix_eq ▸ Nat.sub_le 64 bits
  have size := isBlock.size_eq
  have blockFits : block.1 < 2 ^ 64 := by
    have := isBlock.le_high
    have := Nat.two_pow_pos bits
    omega
  have split : 64 = block.2 + bits := by
    have := isBlock.bits_le
    omega
  have quotient : ∀ n, n < 2 ^ 64 → n / 2 ^ bits < 2 ^ block.2 := by
    intro n fits
    apply Nat.div_lt_of_lt_mul
    rwa [← Nat.pow_add, Nat.add_comm, ← split]
  have leading : (wordBits 64 pc).take block.2 =
      wordBits block.2 (pc / 2 ^ bits) := by
    rw [take_wordBits within, size]
  have full : (TrieKey.new pid pc execMappingsPrefixBits).stored =
      wordBits 32 pid ++ wordBits 64 pc := by
    have := TrieKey.stored_new (Nat.le_refl 64) pid pc
    rwa [Nat.sub_self, Nat.pow_zero, Nat.div_one] at this
  rw [TrieKey.stored_new within, size, full, List.prefix_iff_eq_take,
    List.length_append, length_wordBits, length_wordBits]
  have taken : (wordBits 32 pid ++ wordBits 64 pc).take (32 + block.2) =
      wordBits 32 pid ++ wordBits block.2 (pc / 2 ^ bits) := by
    have := @List.take_length_add_append _ (wordBits 32 pid)
      (wordBits 64 pc) block.2
    rwa [length_wordBits, leading] at this
  rw [taken, ← div_eq_iff_of_dvd isBlock.aligned]
  constructor
  · intro same
    obtain ⟨pidBits, addressBits⟩ := List.append_inj same (by
      rw [length_wordBits, length_wordBits])
    exact ⟨wordBits_injective ownerFits pidFits pidBits,
      wordBits_injective (quotient _ blockFits) (quotient _ pcFits)
        addressBits⟩
  · intro ⟨samePid, sameQuotient⟩
    rw [samePid, sameQuotient]

theorem updateAll_eq_insertAll {κ α : Type} [DecidableEq κ]
    {maxEntries : Nat} {entries : List (κ × α)} {map : HashMap κ α}
    (inserted : (updateAll maxEntries map entries).2 = true) :
    (updateAll maxEntries map entries).1 = map.insertAll entries := by
  induction entries generalizing map with
  | nil => rfl
  | cons entry rest induction =>
      rw [updateAll] at inserted ⊢
      cases updated : updateElem maxEntries map entry.1 entry.2 with
      | none => simp [updated] at inserted
      | some next =>
          obtain rfl := updateElem_eq updated
          simp only [updated] at inserted ⊢
          exact induction inserted

/-- Nonempty segments below the last address, no two of which contain the same
address of a process. -/
structure SegmentFamily (segments : List Segment) : Prop where
  pid_lt : ∀ segment ∈ segments, segment.pid < 2 ^ 32
  low_le : ∀ segment ∈ segments, segment.low ≤ segment.high
  high_lt : ∀ segment ∈ segments, segment.high < 2 ^ 64 - 1
  disjoint : segments.Pairwise fun first second => ∀ pid pc,
    ¬ (first.Contains pid pc ∧ second.Contains pid pc)

namespace SegmentFamily

variable {segments : List Segment} {pid pc : Nat}

theorem unique (family : SegmentFamily segments) {first second : Segment}
    (firstMem : first ∈ segments) (secondMem : second ∈ segments)
    (inFirst : first.Contains pid pc) (inSecond : second.Contains pid pc) :
    first = second := by
  by_contra distinct
  have symmetric : Std.Symm fun first second : Segment => ∀ pid pc,
      ¬ (first.Contains pid pc ∧ second.Contains pid pc) :=
    ⟨fun _ _ apart pid pc both => apart pid pc both.symm⟩
  exact family.disjoint.forall firstMem secondMem distinct pid pc
    ⟨inFirst, inSecond⟩

def entriesOf (segment : Segment) : List (List Bool × Mapping) :=
  (summarizeAddressRange segment.low segment.high).map fun block =>
    ((TrieKey.new segment.pid block.1 (32 + block.2)).stored, segment.mapping)

theorem trieEntries_eq (family : SegmentFamily segments) :
    trieEntries segments = some (segments.flatMap entriesOf) := by
  have each : segments.mapM Segment.trieEntries =
      some (segments.map entriesOf) := by
    have below := family.high_lt
    clear family
    induction segments with
    | nil => rfl
    | cons segment rest induction =>
        obtain ⟨first, others⟩ := List.forall_mem_cons.mp below
        have head : segment.trieEntries = some (entriesOf segment) := by
          rw [Segment.trieEntries, summarizeWords_eq first]
          rfl
        rw [List.mapM_cons, head, induction others]
        rfl
  rw [trieEntries, each, List.flatMap_def]
  rfl

theorem contains_of_mem (family : SegmentFamily segments)
    (pidFits : pid < 2 ^ 32) (pcFits : pc < 2 ^ 64) {key : List Bool}
    {mapping : Mapping} (member : (key, mapping) ∈ segments.flatMap entriesOf)
    (isPrefix : key <+: (TrieKey.new pid pc execMappingsPrefixBits).stored) :
    ∃ segment ∈ segments, segment.Contains pid pc ∧
      segment.mapping = mapping := by
  obtain ⟨segment, inSegments, inEntries⟩ := List.mem_flatMap.mp member
  obtain ⟨block, inBlocks, same⟩ := List.mem_map.mp inEntries
  obtain ⟨rfl, rfl⟩ := Prod.mk.inj same
  obtain ⟨bits, isBlock⟩ := isBlock_of_mem inBlocks
  have high := family.high_lt segment inSegments
  obtain ⟨owner, above, below⟩ := (isBlock.stored_isPrefix_iff
    (family.pid_lt segment inSegments) pidFits (by omega) pcFits).mp isPrefix
  have := isBlock.low_le
  have := isBlock.le_high
  exact ⟨segment, inSegments, ⟨owner, by omega, by omega⟩, rfl⟩

theorem exists_mem (family : SegmentFamily segments) (pidFits : pid < 2 ^ 32)
    (pcFits : pc < 2 ^ 64) {segment : Segment} (inSegments : segment ∈ segments)
    (contains : segment.Contains pid pc) :
    ∃ key, (key, segment.mapping) ∈ segments.flatMap entriesOf ∧
      key <+: (TrieKey.new pid pc execMappingsPrefixBits).stored := by
  obtain ⟨owner, above, below⟩ := contains
  obtain ⟨block, inBlocks, bits, isBlock, inside⟩ := exists_isBlock above below
  have high := family.high_lt segment inSegments
  exact ⟨_, List.mem_flatMap.mpr ⟨segment, inSegments,
      List.mem_map.mpr ⟨block, inBlocks, rfl⟩⟩,
    (isBlock.stored_isPrefix_iff (family.pid_lt segment inSegments) pidFits
      (by omega) pcFits).mpr ⟨owner, inside⟩⟩

theorem findMapping_eq_some_iff (family : SegmentFamily segments)
    (pidFits : pid < 2 ^ 32) (pcFits : pc < 2 ^ 64) {mapping : Mapping} :
    findMapping ((∅ : HashMap (List Bool) Mapping).insertAll
        (segments.flatMap entriesOf)) pid pc = some mapping ↔
      ∃ segment ∈ segments, segment.Contains pid pc ∧
        segment.mapping = mapping := by
  have stored : ∀ key mapping, ((∅ : HashMap (List Bool) Mapping).insertAll
      (segments.flatMap entriesOf)).lookup key = some mapping →
      (key, mapping) ∈ segments.flatMap entriesOf := by
    intro key mapping found
    rcases HashMap.mem_of_lookup_insertAll found with inserted | before
    · exact inserted
    · cases before
  constructor
  · intro found
    obtain ⟨key, isPrefix, entry⟩ :=
      HashMap.exists_prefix_of_lookupLongest found
    exact family.contains_of_mem pidFits pcFits (stored _ _ entry) isPrefix
  · rintro ⟨segment, inSegments, contains, rfl⟩
    obtain ⟨key, member, isPrefix⟩ :=
      family.exists_mem pidFits pcFits inSegments contains
    have only : ∀ other found,
        other <+: (TrieKey.new pid pc execMappingsPrefixBits).stored →
        ((∅ : HashMap (List Bool) Mapping).insertAll
          (segments.flatMap entriesOf)).lookup other = some found →
        found = segment.mapping := by
      intro other found otherPrefix entry
      obtain ⟨second, secondMem, secondContains, rfl⟩ :=
        family.contains_of_mem pidFits pcFits (stored _ _ entry) otherPrefix
      rw [family.unique inSegments secondMem contains secondContains]
    obtain ⟨found, entry⟩ := HashMap.lookup_insertAll member
    exact HashMap.lookupLongest_eq_some isPrefix
      (only _ _ isPrefix entry ▸ entry) only

end SegmentFamily

/-- The split of a range is an exact cover, and after inserting the splits of
disjoint segments a lookup finds the mapping of the segment that contains the
address. -/
theorem summarize_exact_and_inverted :
    (∀ low high, low ≤ high → high < 2 ^ 64 - 1 →
      ∃ blocks, summarizeWords low high = some blocks ∧
        ExactCover low high blocks) ∧
    ∀ segments, SegmentFamily segments →
      ∃ entries, trieEntries segments = some entries ∧
        ∀ trie, updateAll maxMappings ∅ entries = (trie, true) →
          ∀ pid pc mapping, pid < 2 ^ 32 → pc < 2 ^ 64 →
            (findMapping trie pid pc = some mapping ↔
              ∃ segment ∈ segments, segment.Contains pid pc ∧
                segment.mapping = mapping) := by
  constructor
  · intro low high _ fits
    exact ⟨_, summarizeWords_eq fits, exactCover_summarizeAddressRange low high⟩
  · intro segments family
    refine ⟨_, family.trieEntries_eq, fun trie inserted => ?_⟩
    have all := @updateAll_eq_insertAll _ _ _ maxMappings
      (segments.flatMap SegmentFamily.entriesOf) ∅ (by rw [inserted])
    rw [inserted] at all
    intro pid pc mapping pidFits pcFits
    rw [show trie = _ from all]
    exact family.findMapping_eq_some_iff pidFits pcFits

def librarySegments : List Segment :=
  [⟨7, 0x1000, 0x1fff, library.mapping (0x1000, 0x2000)⟩]

theorem librarySegments_family : SegmentFamily librarySegments where
  pid_lt := by simp [librarySegments]
  low_le := by simp [librarySegments]
  high_lt := by simp [librarySegments]
  disjoint := List.pairwise_singleton _ _

theorem summarize_exact_and_inverted_library :
    (∃ blocks, summarizeWords 3 9 = some blocks ∧ ExactCover 3 9 blocks) ∧
      (findMapping (updateAll maxMappings ∅
          (librarySegments.flatMap SegmentFamily.entriesOf)).1 7 0x1234 =
            some (library.mapping (0x1000, 0x2000)) ↔
        ∃ segment ∈ librarySegments, segment.Contains 7 0x1234 ∧
          segment.mapping = library.mapping (0x1000, 0x2000)) := by
  obtain ⟨entries, computed, found⟩ :=
    summarize_exact_and_inverted.2 _ librarySegments_family
  rw [librarySegments_family.trieEntries_eq] at computed
  cases computed
  have split : summarizeAddressRange 0x1000 0x1fff = [(0x1000, 52)] :=
    summarizeAddressRange_block 12 (by decide)
  have inserted : (updateAll maxMappings ∅
      (librarySegments.flatMap SegmentFamily.entriesOf)).2 = true := by
    simp [librarySegments, SegmentFamily.entriesOf, split, updateAll,
      updateElem, maxMappings]
  exact ⟨summarize_exact_and_inverted.1 3 9 (by decide) (by decide),
    found _ (Prod.ext rfl inserted) 7 0x1234 _ (by decide) (by decide)⟩

end Sismo.Unwind
