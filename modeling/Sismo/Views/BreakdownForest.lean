import Sismo.Views.BreakdownPlaces

namespace Sismo.Views

/-! A breakdown without null groups is a forest with the ids from 1. -/

section

variable {profile : Profile} {base : List StreamRow} {hasTop hasBottom : Bool}

/-! ### Ids -/

/-- The ids of a tier follow those before it. -/
theorem tier_ids {α β : Type} {tier : List β} {number : β → α × Nat}
    {start : Nat} {idOf : β → Nat} {numbers : List (α × Nat)}
    (joined : tier.map number = numbers)
    (counted : numbers.map (·.2) = List.range' 1 numbers.length)
    (ids : ∀ row ∈ tier, idOf row = start + (number row).2) :
    tier.map idOf = List.range' (start + 1) numbers.length := by
  rw [← List.map_add_range', ← counted, ← joined, List.map_map, List.map_map]
  exact List.map_congr_left ids

theorem nodeIds_map_snd : (nodeIds profile.callsites base).map (·.2) =
    List.range' 1 (nodeIds profile.callsites base).length := by
  unfold nodeIds
  rw [numbered_map_snd, length_numbered]

section

variable (grouped : Grouped base)

include grouped in
theorem code_ids :
    ((codeRows profile base hasTop hasBottom).map (codeNode profile base)).map
      (·.id) = List.range' 1 (nodeCount profile base) := by
  rw [List.map_map]
  exact tier_ids (codeRows_map_ni profile hasTop hasBottom grouped)
    nodeIds_map_snd
    fun row _ => (Nat.zero_add _).symm

include grouped in
theorem group_ids :
    ((rootRows base).map (groupRoot profile base)).map (·.id) =
      List.range' (nodeCount profile base + 1) (grpIdx base).length := by
  rw [List.map_map]
  apply tier_ids (rootRows_map_gi grouped)
  · unfold grpIdx
    rw [numbered_map_snd, length_numbered]
  · exact fun _ _ => rfl

theorem parent_ids :
    ((pgrpIdx base).map (parentRoot profile base)).map (·.id) =
      List.range' (nodeCount profile base + (grpIdx base).length + 1)
        (pgrpIdx base).length := by
  rw [List.map_map]
  apply tier_ids (List.map_id (pgrpIdx base))
  · unfold pgrpIdx
    rw [numbered_map_snd, length_numbered]
  · exact fun _ _ => rfl

include grouped in
theorem inner_ids :
    ((numbered (·.lw.1) (leafRows profile base)).map
        (innerLeaf profile base hasTop)).map (·.id) =
      List.range' (leafBase profile base hasTop + 1)
        (selfWBottom base).length := by
  have count : (numbered (·.lw.1) (leafRows profile base)).length =
      (selfWBottom base).length := by
    rw [length_numbered, ← leafRows_map_lw profile grouped, List.length_map]
  rw [List.map_map, ← count]
  apply tier_ids (List.map_id _)
  · rw [numbered_map_snd, length_numbered]
  · exact fun _ _ => rfl

include grouped in
theorem outer_ids :
    ((outerRows profile base).map (outerLeaf profile base hasTop)).map (·.id) =
      List.range' (outerBase profile base hasTop + 1)
        (bouterIdx base).length := by
  rw [List.map_map]
  apply tier_ids (outerRows_map_bo profile grouped)
  · unfold bouterIdx
    rw [numbered_map_snd, length_numbered]
  · exact fun _ _ => rfl

variable (profile hasTop hasBottom) in
include grouped in
/-- The ids are those from 1, in the order of the rows. -/
theorem tree_ids :
    (breakdownTreeStatement profile base hasTop hasBottom).map (·.id) =
      List.range' 1
        (breakdownTreeStatement profile base hasTop hasBottom).length := by
  have top : ((if hasTop then
        (rootRows base).map (groupRoot profile base) ++
          (pgrpIdx base).map (parentRoot profile base)
        else []).map (·.id)) =
      List.range' (nodeCount profile base + 1)
        (leafBase profile base hasTop - nodeCount profile base) := by
    unfold leafBase
    split
    · rw [List.map_append, group_ids grouped, parent_ids,
        Nat.add_right_comm _ _ 1, List.range'_append_1]
      congr 1
      omega
    · simp
  have bottom : ((if hasBottom then
        (numbered (·.lw.1) (leafRows profile base)).map
            (innerLeaf profile base hasTop) ++
          (outerRows profile base).map (outerLeaf profile base hasTop)
        else []).map (·.id)) =
      List.range' (leafBase profile base hasTop + 1)
        (if hasBottom then (selfWBottom base).length + (bouterIdx base).length
          else 0) := by
    split
    · rw [List.map_append, inner_ids grouped, outer_ids grouped, outerBase,
        Nat.add_right_comm _ _ 1, List.range'_append_1]
    · rfl
  have above : nodeCount profile base ≤ leafBase profile base hasTop := by
    unfold leafBase
    split <;> omega
  have ids : ∃ count,
      (breakdownTreeStatement profile base hasTop hasBottom).map (·.id) =
        List.range' 1 count := by
    unfold breakdownTreeStatement
    rw [List.map_append, List.map_append, code_ids grouped, top, bottom,
      Nat.add_comm (nodeCount profile base) 1, List.range'_append_1]
    have reached : leafBase profile base hasTop + 1 =
        1 + (nodeCount profile base +
          (leafBase profile base hasTop - nodeCount profile base)) := by
      omega
    rw [reached, List.range'_append_1]
    exact ⟨_, rfl⟩
  obtain ⟨count, ids⟩ := ids
  have length := congrArg List.length ids
  rw [List.length_map, List.length_range'] at length
  rw [ids, length]

end

/-! ### Links -/

theorem mem_rootRows {row : RootRow} (member : row ∈ rootRows base) :
    row.gi ∈ grpIdx base ∧ row.pi ∈ leftJoin (pgrpIdx base) fun pi =>
      sqlEq pi.1.pgrp row.gi.1.pgrp := by
  unfold rootRows at member
  simp only [List.mem_flatMap, List.mem_map] at member
  obtain ⟨gi, giMem, pi, piMem, rfl⟩ := member
  exact ⟨giMem, piMem⟩

theorem rootRow_parent {row : RootRow} (member : row ∈ rootRows base)
    {pi : ParentRow × Nat} (joined : row.pi = some pi) :
    pi ∈ pgrpIdx base ∧ pi.1.pgrp = row.gi.1.pgrp := by
  rcases mem_leftJoin.mp (mem_rootRows member).2 with
    ⟨other, otherMem, here, same⟩ | ⟨isNone, _⟩
  · rw [joined] at same
    cases same
    exact ⟨otherMem, (sqlEq_iff.mp here).1⟩
  · rw [joined] at isNone
    cases isNone

theorem rootRow_hasParent {row : RootRow} (member : row ∈ rootRows base)
    (above : row.gi.1.pgrp ≠ none) : ∃ pi, row.pi = some pi := by
  obtain ⟨giMem, piMem⟩ := mem_rootRows member
  rcases mem_leftJoin.mp piMem with ⟨pi, _, _, same⟩ | ⟨_, absent⟩
  · exact ⟨pi, same⟩
  · obtain ⟨streamRow, rowMem, same⟩ := mem_grpIdx giMem
    rw [← same] at above absent
    obtain ⟨pidx, found⟩ := exists_pgrpIdx rowMem above
    have here : sqlEq streamRow.parentRow.pgrp streamRow.groupRow.pgrp = true :=
      sqlEq_iff.mpr ⟨rfl, above⟩
    rw [absent _ found] at here
    cases here

/-- A leaf is joined to the node of its group and callsite. -/
theorem mem_leafRows {row : LeafRow} (member : row ∈ leafRows profile base) :
    row.lw ∈ selfWBottom base ∧ row.ni ∈ nodeIds profile.callsites base ∧
      row.ni.1 = ⟨row.lw.1.grp, row.lw.1.cs⟩ ∧
      row.bo ∈ leftJoin (bouterIdx base) fun bo =>
        sqlEq bo.1.grp row.lw.1.grp && sqlEq (some bo.1.cs) (some row.lw.1.cs) &&
          sqlEq bo.1.bplabel row.lw.1.bplabel := by
  unfold leafRows at member
  simp only [List.mem_flatMap, List.mem_map, List.mem_filter, Bool.and_eq_true,
    sqlEq_iff] at member
  obtain ⟨lw, lwMem, ni, ⟨niMem, grp, cs⟩, bo, boMem, rfl⟩ := member
  exact ⟨lwMem, niMem, congrArg₂ NodeKey.mk grp.1 (Option.some.inj cs.1), boMem⟩

theorem leafRow_outer {row : LeafRow} (member : row ∈ leafRows profile base)
    {bo : OuterKey × Nat} (joined : row.bo = some bo) :
    bo ∈ bouterIdx base ∧ bo.1 = row.lw.1.outerKey := by
  rcases mem_leftJoin.mp (mem_leafRows member).2.2.2 with
    ⟨other, otherMem, here, same⟩ | ⟨isNone, _⟩
  · rw [joined] at same
    cases same
    simp only [Bool.and_eq_true, sqlEq_iff] at here
    refine ⟨otherMem, ?_⟩
    unfold LeafKey.outerKey
    rw [← here.1.1.1, ← Option.some.inj here.1.2.1, ← here.2.1]
  · rw [joined] at isNone
    cases isNone

theorem leafRow_hasOuter (named : ∀ row ∈ base, row.grp ≠ none)
    {row : LeafRow} (member : row ∈ leafRows profile base)
    (above : row.lw.1.bplabel ≠ none) : ∃ bo, row.bo = some bo := by
  obtain ⟨lwMem, _, _, boMem⟩ := mem_leafRows member
  rcases mem_leftJoin.mp boMem with ⟨bo, _, _, same⟩ | ⟨_, absent⟩
  · exact ⟨bo, same⟩
  · obtain ⟨boidx, found⟩ := exists_bouterIdx lwMem above
    obtain ⟨streamRow, rowMem, same⟩ := mem_selfWBottom lwMem
    have grp : row.lw.1.grp ≠ none := by
      rw [← same]
      exact named streamRow rowMem
    have here := absent _ found
    rw [Bool.eq_false_iff] at here
    apply absurd _ here
    simp only [Bool.and_eq_true, sqlEq_iff]
    exact ⟨⟨⟨rfl, grp⟩, rfl, by simp⟩, rfl, above⟩

theorem mem_outerRows {row : OuterRow} (member : row ∈ outerRows profile base) :
    row.bo ∈ bouterIdx base ∧ row.ni ∈ nodeIds profile.callsites base ∧
      row.ni.1 = ⟨row.bo.1.grp, row.bo.1.cs⟩ := by
  unfold outerRows at member
  simp only [List.mem_flatMap, List.mem_map, List.mem_filter, Bool.and_eq_true,
    sqlEq_iff] at member
  obtain ⟨bo, boMem, ni, ⟨niMem, grp, cs⟩, rfl⟩ := member
  exact ⟨boMem, niMem, congrArg₂ NodeKey.mk grp.1 (Option.some.inj cs.1)⟩

theorem exists_row {α β : Type} {rows : List β} {of : β → α} {all : List α}
    (listed : rows.map of = all) {a : α} (member : a ∈ all) :
    ∃ row ∈ rows, of row = a := by
  rw [← listed] at member
  exact List.mem_map.mp member

/-! ### The forest -/

theorem placeRank_lt {p q : Place}
    (member : p ∈ places profile base hasTop hasBottom)
    (aboveMem : q ∈ places profile base hasTop hasBottom)
    (link : Linked profile p q) :
    placeRank profile q < placeRank profile p := by
  rcases p with row | row | pi | row | row <;>
    rcases q with above | above | other | above | above
  case code.code =>
    rw [code_mem_places, mem_codeRows] at member
    obtain ⟨_, _, pnMem, _⟩ := member
    rw [link.2] at pnMem
    have falls := profile.callsites.rank_parent _ _
      (mem_joinedParents pnMem).2.2
    simp only [placeRank]
    omega
  case code.group =>
    simp only [placeRank]
    omega
  case group.parent =>
    simp only [placeRank]
    omega
  case inner.code =>
    simp only [placeRank, link.2]
    omega
  case inner.outer =>
    obtain ⟨_, inner⟩ := inner_mem_places.mp member
    obtain ⟨_, outer⟩ := outer_mem_places.mp aboveMem
    have leaf := mem_of_mem_numbered inner
    have same : row.1.ni.1.cs = above.ni.1.cs := by
      rw [(mem_leafRows leaf).2.2.1, (mem_outerRows outer).2.2,
        (leafRow_outer leaf link.2).2]
      rfl
    simp only [placeRank, same]
    omega
  case outer.code =>
    have same : row.ni = above.ni := link
    simp only [placeRank, same]
    omega
  all_goals exact link.elim

variable (profile base hasTop hasBottom) in
def breakdownForest : Forest Place where
  places := places profile base hasTop hasBottom
  Link := Linked profile
  rank := placeRank profile
  rank_link _ pMem _ qMem link := placeRank_lt pMem qMem link

section

variable (grouped : Grouped base)

include grouped in
theorem code_parentId_iff {row : CodeRow}
    (member : row ∈ codeRows profile base hasTop hasBottom) (above : Nat) :
    (codeNode profile base row).parentId = some above ↔
      ∃ q ∈ places profile base hasTop hasBottom,
        Linked profile (.code row) q ∧
          (placeNode profile base hasTop q).id = above := by
  obtain ⟨_, giMem, pnMem, _⟩ := mem_codeRows.mp member
  unfold codeNode
  dsimp only
  by_cases root : profile.callsites.parentId row.ni.1.cs = none
  · rw [if_pos root]
    constructor
    · intro link
      obtain ⟨gi, joined, rfl⟩ := Option.map_eq_some_iff.mp link
      rw [joined] at giMem
      rcases mem_joinedGroups giMem with ⟨_, isNone⟩ | ⟨top, g, gMem, same, _⟩
      · cases isNone
      · cases same
        obtain ⟨r, rMem, rfl⟩ := exists_row (rootRows_map_gi grouped) gMem
        exact ⟨.group r, group_mem_places.mpr ⟨top, rMem⟩, ⟨root, joined⟩, rfl⟩
    · rintro ⟨q | q | q | q | q, _, link, rfl⟩
      case code => exact absurd root link.1
      case group =>
        rw [link.2]
        rfl
      all_goals exact link.elim
  · rw [if_neg root]
    constructor
    · intro link
      obtain ⟨pn, joined, rfl⟩ := Option.map_eq_some_iff.mp link
      rw [joined] at pnMem
      obtain ⟨r, rMem, rfl⟩ := exists_row
        (codeRows_map_ni profile hasTop hasBottom grouped)
        (mem_joinedParents pnMem).1
      exact ⟨.code r, code_mem_places.mpr rMem, ⟨root, joined⟩, rfl⟩
    · rintro ⟨q | q | q | q | q, _, link, rfl⟩
      case code =>
        rw [link.2]
        rfl
      case group => exact absurd link.1 root
      all_goals exact link.elim

theorem group_parentId_iff (top : hasTop = true) {row : RootRow}
    (member : row ∈ rootRows base) (above : Nat) :
    (groupRoot profile base row).parentId = some above ↔
      ∃ q ∈ places profile base hasTop hasBottom,
        Linked profile (.group row) q ∧
          (placeNode profile base hasTop q).id = above := by
  unfold groupRoot labelNode
  dsimp only
  constructor
  · intro link
    split at link
    · cases link
    · next nested =>
        obtain ⟨pi, joined, rfl⟩ := Option.map_eq_some_iff.mp link
        exact ⟨.parent pi,
          parent_mem_places.mpr ⟨top, (rootRow_parent member joined).1⟩,
          ⟨nested, joined⟩, rfl⟩
  · rintro ⟨q | q | q | q | q, _, link, rfl⟩
    case parent =>
      rw [if_neg link.1, link.2]
      rfl
    all_goals exact link.elim

include grouped in
theorem inner_parentId_iff (bottom : hasBottom = true) {row : LeafRow × Nat}
    (member : row.1 ∈ leafRows profile base) (above : Nat) :
    (innerLeaf profile base hasTop row).parentId = some above ↔
      ∃ q ∈ places profile base hasTop hasBottom,
        Linked profile (.inner row) q ∧
          (placeNode profile base hasTop q).id = above := by
  unfold innerLeaf labelNode
  dsimp only
  by_cases flat : row.1.lw.1.bplabel = none
  · rw [if_pos flat]
    constructor
    · intro link
      cases link
      obtain ⟨r, rMem, same⟩ := exists_row
        (codeRows_map_ni profile hasTop hasBottom grouped)
        (mem_leafRows member).2.1
      refine ⟨.code r, code_mem_places.mpr rMem, ⟨flat, same.symm⟩, ?_⟩
      rw [← same]
      rfl
    · rintro ⟨q | q | q | q | q, _, link, rfl⟩
      case code =>
        rw [link.2]
        rfl
      case outer => exact absurd flat link.1
      all_goals exact link.elim
  · rw [if_neg flat]
    constructor
    · intro link
      obtain ⟨bo, joined, rfl⟩ := Option.map_eq_some_iff.mp link
      obtain ⟨r, rMem, rfl⟩ := exists_row (outerRows_map_bo profile grouped)
        (leafRow_outer member joined).1
      exact ⟨.outer r, outer_mem_places.mpr ⟨bottom, rMem⟩, ⟨flat, joined⟩, rfl⟩
    · rintro ⟨q | q | q | q | q, _, link, rfl⟩
      case code => exact absurd link.1 flat
      case outer =>
        rw [link.2]
        rfl
      all_goals exact link.elim

include grouped in
theorem outer_parentId_iff {row : OuterRow}
    (member : row ∈ outerRows profile base) (above : Nat) :
    (outerLeaf profile base hasTop row).parentId = some above ↔
      ∃ q ∈ places profile base hasTop hasBottom,
        Linked profile (.outer row) q ∧
          (placeNode profile base hasTop q).id = above := by
  unfold outerLeaf labelNode
  dsimp only
  constructor
  · intro link
    cases link
    obtain ⟨r, rMem, same⟩ := exists_row
      (codeRows_map_ni profile hasTop hasBottom grouped)
      (mem_outerRows member).2.1
    refine ⟨.code r, code_mem_places.mpr rMem, same.symm, ?_⟩
    rw [← same]
    rfl
  · rintro ⟨q | q | q | q | q, _, link, rfl⟩
    case code =>
      have same : row.ni = q.ni := link
      rw [same]
      rfl
    all_goals exact link.elim

variable (profile hasTop hasBottom) in
include grouped in
theorem breakdown_lists :
    (breakdownForest profile base hasTop hasBottom).Lists (·.id) (·.parentId)
      (placeNode profile base hasTop)
      (breakdownTreeStatement profile base hasTop hasBottom) where
  nodes_eq := breakdownTreeStatement_eq profile base hasTop hasBottom
  id_injective := by
    have ids := tree_ids profile hasTop hasBottom grouped
    have nodup : ((places profile base hasTop hasBottom).map fun p =>
        (placeNode profile base hasTop p).id).Nodup := by
      rw [breakdownTreeStatement_eq, List.map_map] at ids
      unfold Function.comp at ids
      rw [ids]
      exact List.nodup_range'
    exact fun p pMem q qMem same => List.inj_on_of_nodup_map nodup pMem qMem same
  parentId_iff := by
    rintro (row | row | pi | row | row) member above
    case code =>
      exact code_parentId_iff grouped (code_mem_places.mp member) above
    case group =>
      obtain ⟨top, rowMem⟩ := group_mem_places.mp member
      exact group_parentId_iff top rowMem above
    case parent =>
      constructor
      · intro link
        cases link
      · rintro ⟨_ | _ | _ | _ | _, _, link, _⟩
        all_goals exact link.elim
    case inner =>
      obtain ⟨bottom, rowMem⟩ := inner_mem_places.mp member
      exact inner_parentId_iff grouped bottom (mem_of_mem_numbered rowMem) above
    case outer =>
      exact outer_parentId_iff grouped (outer_mem_places.mp member).2 above

end

end

end Sismo.Views
