import Sismo.Views.BreakdownRows

namespace Sismo.Views

/-! The nodes of a breakdown as the places of a forest. -/

section

variable (profile : Profile) (base : List StreamRow) (hasTop hasBottom : Bool)

inductive Place where
  | code (row : CodeRow)
  | group (row : RootRow)
  | parent (pi : ParentRow × Nat)
  | inner (row : LeafRow × Nat)
  | outer (row : OuterRow)
  deriving DecidableEq

def Place.grp : Place → Option (Option GroupValue)
  | .code row => some row.ni.1.grp
  | .group row => some row.gi.1.grp
  | .parent _ => none
  | .inner row => some row.1.lw.1.grp
  | .outer row => some row.bo.1.grp

def places : List Place :=
  (codeRows profile base hasTop hasBottom).map .code ++
    (if hasTop then
      (rootRows base).map .group ++ (pgrpIdx base).map .parent
      else []) ++
    (if hasBottom then
      (numbered (·.lw.1) (leafRows profile base)).map .inner ++
        (outerRows profile base).map .outer
      else [])

def placeNode : Place → TreeNode
  | .code row => codeNode profile base row
  | .group row => groupRoot profile base row
  | .parent pi => parentRoot profile base pi
  | .inner row => innerLeaf profile base hasTop row
  | .outer row => outerLeaf profile base hasTop row

theorem breakdownTreeStatement_eq :
    breakdownTreeStatement profile base hasTop hasBottom =
      (places profile base hasTop hasBottom).map
        (placeNode profile base hasTop) := by
  unfold breakdownTreeStatement places
  cases hasTop <;> cases hasBottom <;>
    simp [Function.comp_def, placeNode]

def Linked : Place → Place → Prop
  | .code row, .code above =>
      profile.callsites.parentId row.ni.1.cs ≠ none ∧ row.pn = some above.ni
  | .code row, .group above =>
      profile.callsites.parentId row.ni.1.cs = none ∧ row.gi = some above.gi
  | .group row, .parent above => row.gi.1.pgrp ≠ none ∧ row.pi = some above
  | .inner row, .code above =>
      row.1.lw.1.bplabel = none ∧ row.1.ni = above.ni
  | .inner row, .outer above =>
      row.1.lw.1.bplabel ≠ none ∧ row.1.bo = some above.bo
  | .outer row, .code above => row.ni = above.ni
  | _, _ => False

def placeRank : Place → Nat
  | .code row => 2 + profile.callsites.rank row.ni.1.cs
  | .group _ => 1
  | .parent _ => 0
  | .inner row => 4 + profile.callsites.rank row.1.ni.1.cs
  | .outer row => 3 + profile.callsites.rank row.ni.1.cs

end

section

variable {profile : Profile} {base : List StreamRow} {hasTop hasBottom : Bool}

@[simp] theorem code_mem_places {row : CodeRow} :
    .code row ∈ places profile base hasTop hasBottom ↔
      row ∈ codeRows profile base hasTop hasBottom := by
  unfold places
  cases hasTop <;> cases hasBottom <;> simp

@[simp] theorem group_mem_places {row : RootRow} :
    .group row ∈ places profile base hasTop hasBottom ↔
      hasTop = true ∧ row ∈ rootRows base := by
  unfold places
  cases hasTop <;> cases hasBottom <;> simp

@[simp] theorem parent_mem_places {pi : ParentRow × Nat} :
    .parent pi ∈ places profile base hasTop hasBottom ↔
      hasTop = true ∧ pi ∈ pgrpIdx base := by
  unfold places
  cases hasTop <;> cases hasBottom <;> simp

@[simp] theorem inner_mem_places {row : LeafRow × Nat} :
    .inner row ∈ places profile base hasTop hasBottom ↔
      hasBottom = true ∧ row ∈ numbered (·.lw.1) (leafRows profile base) := by
  unfold places
  cases hasTop <;> cases hasBottom <;> simp

@[simp] theorem outer_mem_places {row : OuterRow} :
    .outer row ∈ places profile base hasTop hasBottom ↔
      hasBottom = true ∧ row ∈ outerRows profile base := by
  unfold places
  cases hasTop <;> cases hasBottom <;> simp

/-! ### Joined rows -/

theorem mem_codeRows {row : CodeRow} :
    row ∈ codeRows profile base hasTop hasBottom ↔
      row.ni ∈ nodeIds profile.callsites base ∧
        row.gi ∈ joinedGroups base hasTop row.ni.1 ∧
        row.pn ∈ joinedParents profile base row.ni.1 ∧
        row.sw ∈ joinedSelf base hasBottom row.ni.1 := by
  unfold codeRows
  simp only [List.mem_flatMap, List.mem_map]
  constructor
  · rintro ⟨ni, niMem, gi, giMem, pn, pnMem, sw, swMem, rfl⟩
    exact ⟨niMem, giMem, pnMem, swMem⟩
  · rintro ⟨niMem, giMem, pnMem, swMem⟩
    exact ⟨_, niMem, _, giMem, _, pnMem, _, swMem, rfl⟩

theorem mem_joinedGroups {key : NodeKey} {gi : Option (GroupRow × Nat)}
    (member : gi ∈ joinedGroups base hasTop key) :
    (hasTop = false ∧ gi = none) ∨ hasTop = true ∧ ∃ g ∈ grpIdx base,
      gi = some g ∧ g.1.grp = key.grp ∧ key.grp ≠ none := by
  unfold joinedGroups at member
  split at member
  · next top =>
      obtain ⟨g, gMem, rfl⟩ := List.mem_map.mp member
      obtain ⟨inIdx, here⟩ := List.mem_filter.mp gMem
      exact .inr ⟨top, g, inIdx, rfl, sqlEq_iff.mp here⟩
  · next off =>
      exact .inl ⟨by simpa using off, List.mem_singleton.mp member⟩

theorem mem_joinedParents {ni : NodeKey × Nat} {pn : NodeKey × Nat}
    (member : some pn ∈ joinedParents profile base ni.1) :
    pn ∈ nodeIds profile.callsites base ∧ pn.1.grp = ni.1.grp ∧
      profile.callsites.parentId ni.1.cs = some pn.1.cs := by
  unfold joinedParents at member
  rw [mem_leftJoin] at member
  rcases member with ⟨row, rowMem, here, same⟩ | ⟨isNone, _⟩
  · cases same
    simp only [Bool.and_eq_true, sqlEq_iff] at here
    exact ⟨rowMem, here.1.1, here.2.1.symm⟩
  · cases isNone

theorem joinedParents_ne_none (named : ∀ row ∈ base, row.grp ≠ none)
    {ni : NodeKey × Nat} (member : ni ∈ nodeIds profile.callsites base)
    (link : profile.callsites.parentId ni.1.cs ≠ none) :
    none ∉ joinedParents profile base ni.1 := by
  intro missing
  obtain ⟨parent, link⟩ := Option.ne_none_iff_exists'.mp link
  obtain ⟨nid, found⟩ := exists_parent member link
  obtain ⟨row, rowMem, same, _⟩ := mem_nodeIds member
  unfold joinedParents at missing
  rw [mem_leftJoin] at missing
  rcases missing with ⟨_, _, _, isSome⟩ | ⟨_, absent⟩
  · cases isSome
  · have here := absent _ found
    rw [Bool.eq_false_iff] at here
    apply here
    simp only [Bool.and_eq_true, sqlEq_iff, link]
    exact ⟨⟨trivial, same ▸ named row rowMem⟩, trivial, by simp⟩

theorem nodeIds_atMostOne {grp : Option GroupValue} {cs : Option Nat} :
    AtMostOne (nodeIds profile.callsites base) fun ni =>
      sqlEq ni.1.grp grp && sqlEq (some ni.1.cs) cs := by
  cases cs with
  | none =>
      refine atMostOne_of_key ⟨grp, 0⟩
        (nodeIds_distinct profile.callsites) fun ni _ here => ?_
      simp [sqlEq_iff] at here
  | some cs =>
      refine atMostOne_of_key ⟨grp, cs⟩
        (nodeIds_distinct profile.callsites) fun ni _ here => ?_
      simp only [Bool.and_eq_true, sqlEq_iff] at here
      exact congrArg₂ NodeKey.mk here.1.1 (Option.some.inj here.2.1)

theorem sqlEq_node {found key : NodeKey} (same : found = key)
    (named : key.grp ≠ none) :
    (sqlEq found.grp key.grp && sqlEq (some found.cs) (some key.cs)) = true := by
  subst same
  simp [sqlEq_iff, named]

section

variable (grouped : Grouped base)

variable (profile hasTop hasBottom) in
include grouped in
theorem codeRows_map_ni :
    (codeRows profile base hasTop hasBottom).map (·.ni) =
      nodeIds profile.callsites base := by
  unfold codeRows
  apply map_flatMap_eq_self
  intro ni member
  obtain ⟨row, rowMem, same, _⟩ := mem_nodeIds member
  have named : ni.1.grp ≠ none := same ▸ grouped.named row rowMem
  obtain ⟨gi, groups⟩ : ∃ gi, joinedGroups base hasTop ni.1 = [gi] := by
    unfold joinedGroups
    split
    · obtain ⟨gidx, gMem⟩ := exists_grpIdx rowMem
      have one : AtMostOne (grpIdx base) fun gi => sqlEq gi.1.grp ni.1.grp :=
        atMostOne_of_key ni.1.grp (grpIdx_distinct grouped)
          fun gi _ here => (sqlEq_iff.mp here).1
      rw [filter_eq_singleton one gMem (sqlEq_iff.mpr ⟨same, named⟩)]
      exact ⟨_, rfl⟩
    · exact ⟨none, rfl⟩
  obtain ⟨pn, parents⟩ : ∃ pn, joinedParents profile base ni.1 = [pn] :=
    leftJoin_eq_singleton nodeIds_atMostOne
  obtain ⟨sw, selfs⟩ : ∃ sw, joinedSelf base hasBottom ni.1 = [sw] := by
    unfold joinedSelf
    split
    · exact ⟨none, rfl⟩
    · apply leftJoin_eq_singleton
      refine atMostOne_of_key ni.1 sumBy_nodup fun sw _ here => ?_
      simp only [Bool.and_eq_true, sqlEq_iff] at here
      exact congrArg₂ NodeKey.mk here.1.1 (Option.some.inj here.2.1)
  rw [groups, parents, selfs]
  rfl

include grouped in
theorem rootRows_map_gi : (rootRows base).map (·.gi) = grpIdx base := by
  unfold rootRows
  apply map_flatMap_eq_self
  intro gi _
  have one : AtMostOne (pgrpIdx base) fun pi => sqlEq pi.1.pgrp gi.1.pgrp :=
    atMostOne_of_key gi.1.pgrp (pgrpIdx_distinct grouped)
      fun pi _ here => (sqlEq_iff.mp here).1
  obtain ⟨pi, parents⟩ := leftJoin_eq_singleton one
  rw [parents]
  rfl

variable (profile) in
include grouped in
theorem leafRows_map_lw :
    (leafRows profile base).map (·.lw) = selfWBottom base := by
  unfold leafRows
  apply map_flatMap_eq_self
  intro lw member
  obtain ⟨row, rowMem, same⟩ := mem_selfWBottom member
  obtain ⟨nid, nMem⟩ := exists_node profile rowMem
  have key : row.nodeKey = ⟨lw.1.grp, lw.1.cs⟩ := by
    rw [← same]
    rfl
  have named : lw.1.grp ≠ none := by
    rw [← same]
    exact grouped.named row rowMem
  have nodes := filter_eq_singleton nodeIds_atMostOne nMem
    (sqlEq_node key named)
  have one : AtMostOne (bouterIdx base) fun bo =>
      sqlEq bo.1.grp lw.1.grp && sqlEq (some bo.1.cs) (some lw.1.cs) &&
        sqlEq bo.1.bplabel lw.1.bplabel := by
    refine atMostOne_of_key lw.1.outerKey bouterIdx_distinct
      fun bo _ here => ?_
    simp only [Bool.and_eq_true, sqlEq_iff] at here
    unfold LeafKey.outerKey
    rw [← here.1.1.1, ← Option.some.inj here.1.2.1, ← here.2.1]
  obtain ⟨bo, outers⟩ := leftJoin_eq_singleton one
  rw [nodes, outers]
  rfl

variable (profile) in
include grouped in
theorem outerRows_map_bo :
    (outerRows profile base).map (·.bo) = bouterIdx base := by
  unfold outerRows
  apply map_flatMap_eq_self
  intro bo member
  obtain ⟨⟨row, rowMem, same⟩, _⟩ := mem_bouterIdx member
  obtain ⟨nid, nMem⟩ := exists_node profile rowMem
  have key : row.nodeKey = ⟨bo.1.grp, bo.1.cs⟩ := by
    rw [← same]
    rfl
  have named : bo.1.grp ≠ none := by
    rw [← same]
    exact grouped.named row rowMem
  rw [filter_eq_singleton nodeIds_atMostOne nMem (sqlEq_node key named)]
  rfl

end

end

end Sismo.Views
