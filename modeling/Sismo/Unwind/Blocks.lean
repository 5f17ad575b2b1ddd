import Sismo.Unwind.Install

namespace Sismo.Unwind

/-! The blocks of an address range, and the longest-prefix lookup in them. -/

theorem trailingZeros_le (n : Nat) : trailingZeros n ≤ 64 := by
  rw [trailingZeros]
  cases first : (List.range 64).find? (n.testBit ·) with
  | none => exact Nat.le_refl 64
  | some i =>
      have member := List.mem_range.mp (List.mem_of_find?_eq_some first)
      exact member.le

theorem two_pow_trailingZeros_dvd (n : Nat) : 2 ^ trailingZeros n ∣ n := by
  have zeros : ∀ i < trailingZeros n, n.testBit i = false := by
    intro i below
    rw [trailingZeros] at below
    cases first : (List.range 64).find? (n.testBit ·) with
    | none =>
        rw [first, Option.getD_none] at below
        simpa using List.find?_eq_none.mp first i (List.mem_range.mpr below)
    | some j =>
        rw [first, Option.getD_some] at below
        simpa using (List.find?_range_eq_some.mp first).2.2 i below
  apply Nat.dvd_of_mod_eq_zero
  apply Nat.eq_of_testBit_eq
  intro i
  rw [Nat.testBit_mod_two_pow, Nat.zero_testBit]
  by_cases below : i < trailingZeros n
  · rw [zeros i below, Bool.and_false]
  · rw [decide_eq_false below, Bool.false_and]

/-- A block of `2 ^ bits` addresses aligned to its size, as part of a range. -/
structure IsBlock (low high : Nat) (block : Nat × Nat) (bits : Nat) : Prop where
  prefix_eq : block.2 = 64 - bits
  bits_le : bits ≤ 64
  aligned : 2 ^ bits ∣ block.1
  low_le : low ≤ block.1
  le_high : block.1 + 2 ^ bits ≤ high + 1

theorem isBlock_first {low high : Nat} (nonempty : low ≤ high) :
    IsBlock low high (low, 64 - blockBits low high) (blockBits low high) where
  prefix_eq := rfl
  bits_le := (Nat.min_le_left _ _).trans (trailingZeros_le low)
  aligned := (Nat.pow_dvd_pow 2 (Nat.min_le_left _ _)).trans
    (two_pow_trailingZeros_dvd low)
  low_le := Nat.le_refl low
  le_high := by
    have size : 2 ^ blockBits low high ≤ high - low + 1 :=
      (Nat.pow_le_pow_right Nat.two_pos (Nat.min_le_right _ _)).trans
        (Nat.log2_self_le (Nat.succ_ne_zero _))
    dsimp only
    omega

theorem isBlock_of_mem {low high : Nat} {block : Nat × Nat}
    (member : block ∈ summarizeAddressRange low high) :
    ∃ bits, IsBlock low high block bits := by
  fun_induction summarizeAddressRange low high with
  | case1 low nonempty induction =>
      rcases List.mem_cons.mp member with rfl | inRest
      · exact ⟨_, isBlock_first nonempty⟩
      · obtain ⟨bits, isBlock⟩ := induction inRest
        exact ⟨bits, isBlock.prefix_eq, isBlock.bits_le, isBlock.aligned,
          (Nat.le_add_right _ _).trans isBlock.low_le, isBlock.le_high⟩
  | case2 low empty => exact absurd member List.not_mem_nil

theorem exists_isBlock {low high pc : Nat} (above : low ≤ pc)
    (below : pc ≤ high) :
    ∃ block ∈ summarizeAddressRange low high, ∃ bits,
      IsBlock low high block bits ∧ block.1 ≤ pc ∧
        pc < block.1 + 2 ^ bits := by
  fun_induction summarizeAddressRange low high with
  | case1 low nonempty induction =>
      by_cases first : pc < low + 2 ^ blockBits low high
      · exact ⟨_, List.mem_cons_self, _, isBlock_first nonempty, above, first⟩
      · obtain ⟨block, member, bits, isBlock, rest⟩ :=
          induction (Nat.le_of_not_lt first)
        exact ⟨block, List.mem_cons_of_mem _ member, bits,
          ⟨isBlock.prefix_eq, isBlock.bits_le, isBlock.aligned,
            (Nat.le_add_right _ _).trans isBlock.low_le, isBlock.le_high⟩,
          rest⟩
  | case2 low empty => omega

theorem div_eq_iff_of_dvd {bits low pc : Nat} (aligned : 2 ^ bits ∣ low) :
    low / 2 ^ bits = pc / 2 ^ bits ↔ low ≤ pc ∧ pc < low + 2 ^ bits := by
  obtain ⟨q, rfl⟩ := aligned
  have pos := Nat.two_pow_pos bits
  rw [Nat.mul_div_cancel_left q pos, eq_comm, Nat.div_eq_iff pos,
    Nat.mul_comm]
  omega

theorem IsBlock.key_eq_iff {low high : Nat} {block : Nat × Nat} {bits : Nat}
    (isBlock : IsBlock low high block bits) {pid pc length : Nat} :
    ExecMappingsKey.new pid block.1 (32 + block.2) =
        .new pid pc (32 + length) ↔
      block.2 = length ∧ block.1 ≤ pc ∧ pc < block.1 + 2 ^ bits := by
  have shift : 96 - (32 + block.2) = bits := by
    have := isBlock.prefix_eq
    have := isBlock.bits_le
    omega
  rw [← div_eq_iff_of_dvd isBlock.aligned]
  simp only [ExecMappingsKey.new, ExecMappingsKey.mk.injEq, true_and, shift,
    Nat.add_left_cancel_iff]
  constructor
  · intro ⟨same, data⟩
    rw [← same, shift] at data
    exact ⟨same, data⟩
  · intro ⟨same, data⟩
    rw [← same, shift]
    exact ⟨rfl, data⟩

section

variable {toPages : List CompactUnwindRow → List Page}
variable {installs : List Install} {t : UnwindTables}

def SegmentsDisjoint (installs : List Install) : Prop :=
  (∀ install ∈ installs, ∀ range ∈ install.ranges, range.1 < range.2) ∧
    ∀ first ∈ installs, ∀ second ∈ installs, ∀ range ∈ first.ranges,
      ∀ other ∈ second.ranges, ∀ pc, range.1 ≤ pc → pc < range.2 →
        other.1 ≤ pc → pc < other.2 →
        first.mapping range = second.mapping other

theorem Loaded.segment_of_lookup (loaded : Loaded toPages installs t)
    (disjoint : SegmentsDisjoint installs) {pc length : Nat}
    {mapping : Mapping} (found : t.maps.execMappings.lookup
      (.new t.targetPid pc (32 + length)) = some mapping) :
    ∃ install ∈ installs, ∃ range ∈ install.ranges,
      mapping = install.mapping range ∧ range.1 ≤ pc ∧ pc < range.2 := by
  obtain ⟨install, inInstalls, inEntries⟩ := loaded.mappings _ _ found
  obtain ⟨range, inRanges, inBlocks⟩ := List.mem_flatMap.mp inEntries
  obtain ⟨block, inRange, same⟩ := List.mem_map.mp inBlocks
  obtain ⟨bits, isBlock⟩ := isBlock_of_mem inRange
  obtain ⟨keyEq, mappingEq⟩ := Prod.mk.inj same
  obtain ⟨_, low, high⟩ := isBlock.key_eq_iff.mp keyEq
  have nonempty := disjoint.1 install inInstalls range inRanges
  have lowLe := isBlock.low_le
  have leHigh := isBlock.le_high
  exact ⟨install, inInstalls, range, inRanges, mappingEq.symm, by omega,
    by omega⟩

/-- An address of no segment resolves to nothing. -/
theorem Loaded.unwindFindMapping_eq_none (loaded : Loaded toPages installs t)
    (disjoint : SegmentsDisjoint installs) {pc : Nat}
    (outside : ∀ install ∈ installs, ∀ range ∈ install.ranges,
      range.1 ≤ pc → range.2 ≤ pc) :
    t.maps.unwindFindMapping t.targetPid pc = none := by
  unfold Maps.unwindFindMapping
  apply List.findSome?_eq_none_iff.mpr
  intro length _
  rw [Option.eq_none_iff_forall_ne_some]
  intro mapping found
  obtain ⟨install, member, range, inRanges, -, low, high⟩ :=
    loaded.segment_of_lookup disjoint found
  exact absurd (outside install member range inRanges low)
    (Nat.not_le.mpr high)

theorem Loaded.unwindFindMapping_eq (loaded : Loaded toPages installs t)
    (disjoint : SegmentsDisjoint installs) {install : Install}
    (member : install ∈ installs) {range : Nat × Nat}
    (inRanges : range ∈ install.ranges) {pc : Nat} (above : range.1 ≤ pc)
    (below : pc < range.2) :
    t.maps.unwindFindMapping t.targetPid pc = some (install.mapping range) := by
  have only : ∀ length mapping,
      t.maps.execMappings.lookup (.new t.targetPid pc (32 + length)) =
        some mapping → mapping = install.mapping range := by
    intro length mapping found
    obtain ⟨other, inInstalls, otherRange, inOther, rfl, low, high⟩ :=
      loaded.segment_of_lookup disjoint found
    exact (disjoint.2 install member other inInstalls range inRanges otherRange
      inOther pc above below low high).symm
  obtain ⟨block, inBlocks, bits, isBlock, low, high⟩ :=
    exists_isBlock above (show pc ≤ range.2 - 1 by omega)
  have within : block.2 ≤ 64 := isBlock.prefix_eq ▸ Nat.sub_le 64 bits
  have entry : (ExecMappingsKey.new t.targetPid block.1 (32 + block.2),
      install.mapping range) ∈ install.mappingEntries t.targetPid :=
    List.mem_flatMap.mpr ⟨range, inRanges, List.mem_map.mpr
      ⟨block, inBlocks, rfl⟩⟩
  have present := loaded.mapped install member _ entry
  rw [isBlock.key_eq_iff.mpr ⟨rfl, low, high⟩] at present
  rw [Maps.unwindFindMapping]
  cases result : (List.range 65).reverse.findSome? fun length =>
      t.maps.execMappings.lookup (.new t.targetPid pc (32 + length)) with
  | none =>
      have missing := List.findSome?_eq_none_iff.mp result block.2
        (by simp; omega)
      rw [missing] at present
      cases present
  | some mapping =>
      obtain ⟨length, _, found⟩ :=
        List.exists_of_findSome?_eq_some result
      rw [only length mapping found]

/-- What an address resolves to is the mapping of a segment. -/
theorem Loaded.mapping_of_unwindFindMapping
    (loaded : Loaded toPages installs t) {pid pc : Nat} {mapping : Mapping}
    (found : t.maps.unwindFindMapping pid pc = some mapping) :
    ∃ install ∈ installs, ∃ range ∈ install.ranges,
      mapping = install.mapping range := by
  obtain ⟨length, _, found⟩ := List.exists_of_findSome?_eq_some found
  obtain ⟨install, member, inEntries⟩ := loaded.mappings _ _ found
  exact ⟨install, member, install.mem_mappingEntries inEntries⟩

end

end Sismo.Unwind
