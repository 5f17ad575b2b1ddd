import Sismo.Views.BreakdownWeights

namespace Sismo.Views

/-! What the breakdown says of each group, and when. -/

section

variable {profile : Profile} {base : List StreamRow} {hasTop hasBottom : Bool}

/-! ### Groups along the links -/

theorem linked_grp {p q : Place}
    (pMem : p ∈ places profile base hasTop hasBottom)
    (qMem : q ∈ places profile base hasTop hasBottom)
    (link : Linked profile p q) {g : Option GroupValue}
    (there : q.grp = some g) : p.grp = some g := by
  rcases p with row | row | pi | row | row <;>
    rcases q with above | above | other | above | above
  case code.code =>
    have pnMem := (mem_codeRows.mp (code_mem_places.mp pMem)).2.2.1
    rw [link.2] at pnMem
    rw [← there]
    exact congrArg some (mem_joinedParents pnMem).2.1.symm
  case code.group =>
    have giMem := (mem_codeRows.mp (code_mem_places.mp pMem)).2.1
    rw [link.2] at giMem
    rcases mem_joinedGroups giMem with ⟨_, isNone⟩ | ⟨_, gi, _, same, grp, _⟩
    · cases isNone
    · cases same
      rw [← there]
      exact congrArg some grp.symm
  case group.parent => cases there
  case inner.code =>
    have leaf := mem_of_mem_numbered (inner_mem_places.mp pMem).2
    have grp := congrArg NodeKey.grp (mem_leafRows leaf).2.2.1
    rw [link.2] at grp
    rw [← there]
    exact congrArg some grp.symm
  case inner.outer =>
    have leaf := mem_of_mem_numbered (inner_mem_places.mp pMem).2
    have grp := congrArg OuterKey.grp (leafRow_outer leaf link.2).2
    rw [← there]
    exact congrArg some grp.symm
  case outer.code =>
    have grp := congrArg NodeKey.grp
      (mem_outerRows (outer_mem_places.mp pMem).2).2.2
    have same : row.ni = above.ni := link
    rw [same] at grp
    rw [← there]
    exact congrArg some grp.symm
  all_goals exact link.elim

/-- Below the group roots every place has a parent in its group. -/
theorem linked_up (grouped : Grouped base) (top : hasTop = true) {p : Place}
    (pMem : p ∈ places profile base hasTop hasBottom)
    {g : Option GroupValue} (here : p.grp = some g) :
    (∃ row, p = .group row) ∨
      ∃ q ∈ places profile base hasTop hasBottom, Linked profile p q ∧
        q.grp = some g := by
  have codeAt : ∀ ni ∈ nodeIds profile.callsites base,
      ∃ r, .code r ∈ places profile base hasTop hasBottom ∧ r.ni = ni := by
    intro ni member
    obtain ⟨r, rMem, same⟩ := exists_row
      (codeRows_map_ni profile hasTop hasBottom grouped) member
    exact ⟨r, code_mem_places.mpr rMem, same⟩
  rcases p with row | row | pi | row | row
  case code =>
    right
    have rowMem := code_mem_places.mp pMem
    obtain ⟨niMem, giMem, pnMem, _⟩ := mem_codeRows.mp rowMem
    by_cases root : profile.callsites.parentId row.ni.1.cs = none
    · rcases mem_joinedGroups giMem with ⟨off, _⟩ | ⟨_, gi, inIdx, joined, grp, _⟩
      · rw [top] at off
        cases off
      · obtain ⟨r, rMem, rfl⟩ := exists_row (rootRows_map_gi grouped) inIdx
        refine ⟨.group r, group_mem_places.mpr ⟨top, rMem⟩, ⟨root, joined⟩, ?_⟩
        rw [← here]
        exact congrArg some grp
    · have notNone := joinedParents_ne_none grouped.named niMem root
      cases joined : row.pn with
      | none => exact absurd (joined ▸ pnMem) notNone
      | some pn =>
          rw [joined] at pnMem
          obtain ⟨inIds, grp, _⟩ := mem_joinedParents pnMem
          obtain ⟨r, rMem, rfl⟩ := codeAt pn inIds
          refine ⟨.code r, rMem, ⟨root, joined⟩, ?_⟩
          rw [← here]
          exact congrArg some grp
  case group => exact .inl ⟨row, rfl⟩
  case parent => cases here
  case inner =>
    right
    obtain ⟨bottom, inner⟩ := inner_mem_places.mp pMem
    have leaf := mem_of_mem_numbered inner
    obtain ⟨_, niMem, key, _⟩ := mem_leafRows leaf
    by_cases flat : row.1.lw.1.bplabel = none
    · obtain ⟨r, rMem, same⟩ := codeAt _ niMem
      refine ⟨.code r, rMem, ⟨flat, same.symm⟩, ?_⟩
      rw [← here]
      exact congrArg some (by rw [same, key])
    · obtain ⟨bo, joined⟩ := leafRow_hasOuter grouped.named leaf flat
      obtain ⟨inIdx, outerKey⟩ := leafRow_outer leaf joined
      obtain ⟨r, rMem, rfl⟩ := exists_row
        (outerRows_map_bo profile grouped) inIdx
      refine ⟨.outer r, outer_mem_places.mpr ⟨bottom, rMem⟩, ⟨flat, joined⟩, ?_⟩
      rw [← here]
      exact congrArg some (congrArg OuterKey.grp outerKey)
  case outer =>
    right
    obtain ⟨_, niMem, key⟩ := mem_outerRows (outer_mem_places.mp pMem).2
    obtain ⟨r, rMem, same⟩ := codeAt _ niMem
    refine ⟨.code r, rMem, same.symm, ?_⟩
    rw [← here]
    exact congrArg some (by rw [same, key])

/-! ### Subtrees -/

section

variable (grouped : Grouped base) (top : hasTop = true)

include grouped in
theorem rootRow_eq {first second : RootRow} (firstMem : first ∈ rootRows base)
    (secondMem : second ∈ rootRows base)
    (same : first.gi.1.grp = second.gi.1.grp) : first = second := by
  have nodup : ((rootRows base).map fun row => row.gi.1.grp).Nodup := by
    have distinct := grpIdx_distinct grouped
    rw [← rootRows_map_gi grouped, List.map_map] at distinct
    exact distinct
  exact List.inj_on_of_nodup_map nodup firstMem secondMem same

variable (profile hasBottom) in
include grouped top in
theorem group_subtree {row : RootRow} (member : row ∈ rootRows base) :
    subtreeSum (·.id) (·.parentId)
        (breakdownTreeStatement profile base hasTop hasBottom) (·.value)
        (groupRootId profile base row.gi.2) =
      ((base.filter fun r => r.grp = row.gi.1.grp).map (·.w)).sum := by
  have rootMem : Place.group row ∈ places profile base hasTop hasBottom :=
    group_mem_places.mpr ⟨top, member⟩
  have sum := (breakdown_lists profile hasTop hasBottom grouped).subtreeSum_eq
    (·.value) rootMem (within (fun g => g = row.gi.1.grp) fun _ => false)
    (decide_eq_true rfl) ?_ ?_
  · exact sum.trans (places_sum profile hasTop hasBottom grouped _ _)
  · intro p pMem q qMem link inside
    cases there : q.grp with
    | none => simp [within, there] at inside
    | some g =>
        have here := linked_grp pMem qMem link there
        unfold within at inside ⊢
        rw [there] at inside
        rwa [here]
  · intro p pMem inside
    cases here : p.grp with
    | none => simp [within, here] at inside
    | some g =>
        have inGroup : g = row.gi.1.grp := by
          simpa [within, here] using inside
        rcases linked_up grouped top pMem here with ⟨r, rfl⟩ |
          ⟨q, qMem, link, there⟩
        · left
          have same : r.gi.1.grp = row.gi.1.grp :=
            (Option.some.inj here).trans inGroup
          exact congrArg Place.group (rootRow_eq grouped
            (group_mem_places.mp pMem).2 member same)
        · right
          refine ⟨q, qMem, link, ?_⟩
          unfold within
          rw [there]
          exact decide_eq_true inGroup

def groupsOf (base : List StreamRow) (pgrp : Option Nat)
    (g : Option GroupValue) : Bool :=
  base.any fun r => r.grp = g ∧ r.pgrp = pgrp

include grouped in
theorem groupsOf_iff {row : StreamRow} (member : row ∈ base)
    (pgrp : Option Nat) :
    groupsOf base pgrp row.grp = true ↔ row.pgrp = pgrp := by
  unfold groupsOf
  rw [List.any_eq_true]
  constructor
  · rintro ⟨r, rMem, both⟩
    obtain ⟨sameGrp, samePgrp⟩ := of_decide_eq_true both
    rw [← samePgrp]
    exact congrArg GroupRow.pgrp
      (grouped.groups row member r rMem sameGrp.symm)
  · exact fun same => ⟨row, member, decide_eq_true ⟨rfl, same⟩⟩

include grouped in
theorem groupsOf_rootRow {row : RootRow} (member : row ∈ rootRows base)
    (pgrp : Option Nat) :
    groupsOf base pgrp row.gi.1.grp = true ↔ row.gi.1.pgrp = pgrp := by
  obtain ⟨r, rMem, same⟩ := mem_grpIdx (mem_rootRows member).1
  rw [← same]
  exact groupsOf_iff grouped rMem pgrp

include grouped top in
theorem parent_subtree {pi : ParentRow × Nat} (member : pi ∈ pgrpIdx base) :
    subtreeSum (·.id) (·.parentId)
        (breakdownTreeStatement profile base hasTop hasBottom) (·.value)
        (parentRootId profile base pi.2) =
      ((base.filter fun r => r.pgrp = pi.1.pgrp).map (·.w)).sum := by
  have rootMem : Place.parent pi ∈ places profile base hasTop hasBottom :=
    parent_mem_places.mpr ⟨top, member⟩
  have sum := (breakdown_lists profile hasTop hasBottom grouped).subtreeSum_eq
    (·.value) rootMem
    (within (groupsOf base pi.1.pgrp) fun p => p = .parent pi)
    (decide_eq_true rfl) ?_ ?_
  · refine sum.trans ((places_sum profile hasTop hasBottom grouped _ _).trans ?_)
    congr 2
    apply List.filter_congr
    intro r rMem
    rw [Bool.eq_iff_iff, decide_eq_true_eq]
    exact groupsOf_iff grouped rMem pi.1.pgrp
  · intro p pMem q qMem link inside
    cases there : q.grp with
    | none =>
        have isRoot : q = .parent pi := by
          simpa [within, there] using inside
        subst isRoot
        rcases p with row | row | other | row | row
        case group =>
          have rowMem := (group_mem_places.mp pMem).2
          exact (groupsOf_rootRow grouped rowMem pi.1.pgrp).mpr
            (rootRow_parent rowMem link.2).2.symm
        all_goals exact link.elim
    | some g =>
        have here := linked_grp pMem qMem link there
        unfold within at inside ⊢
        rw [there] at inside
        rwa [here]
  · intro p pMem inside
    cases here : p.grp with
    | none =>
        left
        simpa [within, here] using inside
    | some g =>
        right
        have inGroups : groupsOf base pi.1.pgrp g = true := by
          simpa [within, here] using inside
        rcases linked_up grouped top pMem here with ⟨r, rfl⟩ |
          ⟨q, qMem, link, there⟩
        · have rMem := (group_mem_places.mp pMem).2
          cases here
          have pgrp := (groupsOf_rootRow grouped rMem pi.1.pgrp).mp inGroups
          obtain ⟨row, _, nonNull, same⟩ := mem_pgrpIdx member
          have nested : r.gi.1.pgrp ≠ none := by
            rw [pgrp, ← same]
            exact nonNull
          obtain ⟨pi', joined⟩ := rootRow_hasParent rMem nested
          obtain ⟨inIdx, samePgrp⟩ := rootRow_parent rMem joined
          have equal : pi' = pi := List.inj_on_of_nodup_map
            (pgrpIdx_distinct grouped) inIdx member (samePgrp.trans pgrp)
          subst equal
          exact ⟨.parent pi', rootMem, ⟨nested, joined⟩, decide_eq_true rfl⟩
        · refine ⟨q, qMem, link, ?_⟩
          unfold within
          rw [there]
          exact inGroups

end

/-! ### The whole tree -/

variable (profile base hasTop) in
/-- A tree of the samples' weights, with a root for each group and parent. -/
structure ConservesWeight (tree : List TreeNode) : Prop where
  ids : (tree.map (·.id)).Perm (List.range' 1 tree.length)
  parents : ∀ node ∈ tree, ∀ parent, node.parentId = some parent →
    ∃ other ∈ tree, other.id = parent
  acyclic : Acyclic (·.id) (·.parentId) tree
  total : (tree.map (·.value)).sum = (base.map (·.w)).sum
  groups : hasTop = true → ∀ row ∈ base, ∃ gi ∈ grpIdx base,
    gi.1.grp = row.grp ∧
    (∃ root ∈ tree, root.id = groupRootId profile base gi.2 ∧
      root.name = row.label) ∧
    subtreeSum (·.id) (·.parentId) tree (·.value)
        (groupRootId profile base gi.2) =
      ((base.filter fun r => r.grp = row.grp).map (·.w)).sum
  processes : hasTop = true → ∀ row ∈ base, row.pgrp ≠ none →
    ∃ pi ∈ pgrpIdx base, pi.1.pgrp = row.pgrp ∧
    (∃ root ∈ tree, root.id = parentRootId profile base pi.2 ∧
      root.name = row.plabel) ∧
    subtreeSum (·.id) (·.parentId) tree (·.value)
        (parentRootId profile base pi.2) =
      ((base.filter fun r => r.pgrp = row.pgrp).map (·.w)).sum

theorem tree_total (grouped : Grouped base) :
    ((breakdownTreeStatement profile base hasTop hasBottom).map
      (·.value)).sum = (base.map (·.w)).sum := by
  have sum := places_sum profile hasTop hasBottom grouped (fun _ => true)
    fun _ => true
  have allPlaces : (places profile base hasTop hasBottom).filter
      (within (fun _ => true) fun _ => true) =
        places profile base hasTop hasBottom := by
    apply List.filter_eq_self.mpr
    intro p _
    unfold within
    cases p.grp <;> rfl
  rw [allPlaces, List.filter_eq_self.mpr fun _ _ => rfl] at sum
  rw [breakdownTreeStatement_eq, List.map_map]
  exact sum

theorem conservesWeight (grouped : Grouped base) :
    ConservesWeight profile base hasTop
      (breakdownTreeStatement profile base hasTop hasBottom) where
  ids := by
    rw [tree_ids profile hasTop hasBottom grouped]
  parents node member parent link :=
    (breakdown_lists profile hasTop hasBottom grouped).parent_exists member link
  acyclic := (breakdown_lists profile hasTop hasBottom grouped).acyclic
  total := tree_total grouped
  groups top row member := by
    obtain ⟨gidx, gMem⟩ := exists_grpIdx member
    obtain ⟨r, rMem, same⟩ := exists_row (rootRows_map_gi grouped) gMem
    have sum := group_subtree profile hasBottom grouped top rMem
    rw [same] at sum
    refine ⟨_, gMem, rfl, ⟨groupRoot profile base r, ?_, ?_, ?_⟩, sum⟩
    · rw [breakdownTreeStatement_eq]
      exact List.mem_map_of_mem (group_mem_places.mpr ⟨top, rMem⟩)
    · rw [← same]
      rfl
    · exact congrArg (fun gi : GroupRow × Nat => gi.1.label) same
  processes top row member nested := by
    obtain ⟨pidx, pMem⟩ := exists_pgrpIdx member nested
    refine ⟨_, pMem, rfl, ⟨parentRoot profile base _, ?_, rfl, rfl⟩,
      parent_subtree grouped top pMem⟩
    rw [breakdownTreeStatement_eq]
    exact List.mem_map_of_mem (parent_mem_places.mpr ⟨top, pMem⟩)

end

end Sismo.Views
