import Sismo.Views.BreakdownForest

namespace Sismo.Views

/-! The weights of the samples in the subtrees of a breakdown. -/

section

variable {profile : Profile} {base : List StreamRow} {hasTop hasBottom : Bool}

/-! ### Values -/

theorem sum_eq_zero {α : Type} {rows : List α} {value : α → Int}
    (zero : ∀ row ∈ rows, value row = 0) : (rows.map value).sum = 0 := by
  apply List.sum_eq_zero
  intro x member
  obtain ⟨row, rowMem, rfl⟩ := List.mem_map.mp member
  exact zero row rowMem

/-- Without leaves a code node has the weight of the samples that end in it. -/
theorem codeNode_value (named : ∀ row ∈ base, row.grp ≠ none) {row : CodeRow}
    (member : row ∈ codeRows profile base hasTop false) :
    (codeNode profile base row).value =
      ((base.filter fun r => r.nodeKey = row.ni.1).map (·.w)).sum := by
  obtain ⟨niMem, _, _, swMem⟩ := mem_codeRows.mp member
  unfold codeNode
  dsimp only
  unfold joinedSelf at swMem
  rw [if_neg Bool.false_ne_true, mem_leftJoin] at swMem
  rcases swMem with ⟨sw, inSums, here, joined⟩ | ⟨isNone, absent⟩
  · simp only [Bool.and_eq_true, sqlEq_iff] at here
    have key : sw.1 = row.ni.1 :=
      congrArg₂ NodeKey.mk here.1.1 (Option.some.inj here.2.1)
    rw [joined, ← key]
    exact (mem_sumBy.mp inSums).2
  · rw [isNone]
    refine (sum_eq_zero fun r rMem => ?_).symm
    obtain ⟨inBase, same⟩ := List.mem_filter.mp rMem
    have key : r.nodeKey = row.ni.1 := of_decide_eq_true same
    have named : row.ni.1.grp ≠ none := by
      rw [← key]
      exact named r inBase
    have here := absent (r.nodeKey, _) (mem_sumBy.mpr ⟨⟨r, inBase, rfl⟩, rfl⟩)
    exact absurd (sqlEq_node key named) (Bool.eq_false_iff.mp here)

section

variable (grouped : Grouped base) (keep : Option GroupValue → Bool)

include grouped in
theorem code_sum :
    (((codeRows profile base hasTop false).filter fun row =>
        keep row.ni.1.grp).map fun row =>
          (codeNode profile base row).value).sum =
      ((base.filter fun r => keep r.grp).map (·.w)).sum := by
  have values : (((codeRows profile base hasTop false).filter fun row =>
        keep row.ni.1.grp).map fun row => (codeNode profile base row).value) =
      (((nodeIds profile.callsites base).map fun ni => ni.1).filter fun key =>
        keep key.grp).map fun key =>
          ((base.filter fun r => r.nodeKey = key).map (·.w)).sum := by
    rw [← codeRows_map_ni profile hasTop false grouped, List.map_map,
      List.filter_map, List.map_map]
    apply List.map_congr_left
    intro row member
    exact codeNode_value grouped.named (List.mem_filter.mp member).1
  have covered : ∀ r ∈ base.filter fun r => keep r.grp, r.nodeKey ∈
      ((nodeIds profile.callsites base).map fun ni => ni.1).filter fun key =>
        keep key.grp := by
    intro r rMem
    obtain ⟨inBase, kept⟩ := List.mem_filter.mp rMem
    obtain ⟨nid, found⟩ := exists_node profile inBase
    exact List.mem_filter.mpr ⟨List.mem_map.mpr ⟨_, found, rfl⟩, kept⟩
  rw [values, ← sum_groups ((nodeIds_distinct profile.callsites).filter _)
    covered]
  congr 1
  apply List.map_congr_left
  intro key member
  have kept : keep key.grp = true := (List.mem_filter.mp member).2
  rw [List.filter_filter]
  congr 2
  apply List.filter_congr
  intro r _
  by_cases here : r.nodeKey = key
  · subst here
    have kept : keep r.grp = true := kept
    simp [kept]
  · simp [here]

include grouped in
theorem inner_sum :
    (((numbered (·.lw.1) (leafRows profile base)).filter fun row =>
        keep row.1.lw.1.grp).map fun row =>
          (innerLeaf profile base hasTop row).value).sum =
      ((base.filter fun r => keep r.grp).map (·.w)).sum := by
  have sums : ((leafRows profile base).filter fun row =>
        keep row.lw.1.grp).map (fun row => row.lw.2) =
      ((selfWBottom base).filter fun lw => keep lw.1.grp).map (·.2) := by
    rw [← leafRows_map_lw profile grouped, List.filter_map, List.map_map]
    rfl
  have perm := ((numbered_map_fst_perm (fun row : LeafRow => row.lw.1)
    (leafRows profile base)).filter fun row => keep row.lw.1.grp).map
      fun row => row.lw.2
  rw [List.filter_map, List.map_map, sums] at perm
  exact perm.sum_eq.trans (sum_sumBy fun key : LeafKey => keep key.grp)

end

/-- A place within a choice of groups, or one chosen among the parents. -/
def within (keep : Option GroupValue → Bool) (root : Place → Bool)
    (p : Place) : Bool :=
  p.grp.elim (root p) keep

variable (profile hasTop hasBottom) in
theorem places_sum (grouped : Grouped base) (keep : Option GroupValue → Bool)
    (root : Place → Bool) :
    (((places profile base hasTop hasBottom).filter (within keep root)).map
        fun p => (placeNode profile base hasTop p).value).sum =
      ((base.filter fun r => keep r.grp).map (·.w)).sum := by
  have top : (((if hasTop then
        (rootRows base).map Place.group ++ (pgrpIdx base).map .parent
        else []).filter (within keep root)).map
          fun p => (placeNode profile base hasTop p).value).sum = 0 := by
    apply sum_eq_zero
    intro p member
    have inTier := (List.mem_filter.mp member).1
    split at inTier
    · rcases List.mem_append.mp inTier with isGroup | isParent
      · obtain ⟨row, _, rfl⟩ := List.mem_map.mp isGroup
        rfl
      · obtain ⟨pi, _, rfl⟩ := List.mem_map.mp isParent
        rfl
    · cases inTier
  unfold places
  rw [List.filter_append, List.filter_append, List.map_append, List.map_append,
    List.sum_append, List.sum_append, top, add_zero]
  cases hasBottom with
  | false =>
      rw [if_neg Bool.false_ne_true, List.filter_nil, List.map_nil,
        List.sum_nil, add_zero, List.filter_map, List.map_map]
      exact code_sum grouped keep
  | true =>
      have code : ((((codeRows profile base hasTop true).map
          Place.code).filter (within keep root)).map
            fun p => (placeNode profile base hasTop p).value).sum = 0 := by
        apply sum_eq_zero
        intro p member
        obtain ⟨row, rowMem, rfl⟩ :=
          List.mem_map.mp (List.mem_filter.mp member).1
        have noSelf := (mem_codeRows.mp rowMem).2.2.2
        unfold joinedSelf at noSelf
        rw [if_pos rfl, List.mem_singleton] at noSelf
        unfold placeNode codeNode
        dsimp only
        rw [noSelf]
        rfl
      have outer : ((((outerRows profile base).map Place.outer).filter
          (within keep root)).map
            fun p => (placeNode profile base hasTop p).value).sum = 0 := by
        apply sum_eq_zero
        intro p member
        obtain ⟨row, _, rfl⟩ := List.mem_map.mp (List.mem_filter.mp member).1
        rfl
      rw [code, if_pos rfl, List.filter_append, List.map_append,
        List.sum_append, outer, zero_add, add_zero, List.filter_map,
        List.map_map]
      exact inner_sum grouped keep

end

end Sismo.Views
