import Sismo.Lib.Forest
import Sismo.Views.BreakdownTree

namespace Sismo.Views

/-! The joined rows of a breakdown without null groups: every join finds the
one row it looks for. -/

/-- No group is null, and a group or parent has one label. -/
structure Grouped (base : List StreamRow) : Prop where
  named : ∀ row ∈ base, row.grp ≠ none
  groups : ∀ first ∈ base, ∀ second ∈ base, first.grp = second.grp →
    first.groupRow = second.groupRow
  parents : ∀ first ∈ base, ∀ second ∈ base, first.pgrp = second.pgrp →
    first.pgrp ≠ none → first.parentRow = second.parentRow

/-! ### Ancestors -/

namespace Callsites

variable {callsites : Callsites}

theorem mem_ancestors_self (leaf : Nat) : leaf ∈ callsites.ancestors leaf := by
  rw [ancestors]
  exact List.mem_cons_self

theorem ancestors_of_root {leaf : Nat}
    (root : callsites.parentId leaf = none) :
    callsites.ancestors leaf = [leaf] := by
  rw [ancestors]
  split
  · rfl
  · next other => simp [root] at other

theorem ancestors_of_parent {leaf parent : Nat}
    (link : callsites.parentId leaf = some parent) :
    callsites.ancestors leaf = leaf :: callsites.ancestors parent := by
  rw [ancestors]
  split
  · next other => simp [link] at other
  · next other =>
      rw [link] at other
      cases other
      rfl

theorem parent_mem_ancestors {leaf current parent : Nat}
    (member : current ∈ callsites.ancestors leaf)
    (link : callsites.parentId current = some parent) :
    parent ∈ callsites.ancestors leaf := by
  induction rank : callsites.rank leaf using Nat.strong_induction_on
    generalizing leaf with
  | _ rank ih =>
      subst rank
      cases above : callsites.parentId leaf with
      | none =>
          rw [ancestors_of_root above, List.mem_singleton] at member
          rw [← member, link] at above
          cases above
      | some next =>
          rw [ancestors_of_parent above] at member ⊢
          rcases List.mem_cons.mp member with rfl | later
          · rw [link] at above
            cases above
            exact List.mem_cons_of_mem _ (mem_ancestors_self parent)
          · exact List.mem_cons_of_mem _
              (ih _ (callsites.rank_parent leaf next above) later rfl)

end Callsites

section

variable {profile : Profile} {base : List StreamRow} {hasTop hasBottom : Bool}

/-! ### Numbered rows -/

theorem mem_grpIdx {gi : GroupRow × Nat} (member : gi ∈ grpIdx base) :
    ∃ row ∈ base, row.groupRow = gi.1 :=
  List.mem_map.mp (List.mem_dedup.mp (mem_of_mem_numbered member))

theorem exists_grpIdx {row : StreamRow} (member : row ∈ base) :
    ∃ gidx, (row.groupRow, gidx) ∈ grpIdx base :=
  exists_mem_numbered (List.mem_dedup.mpr (List.mem_map_of_mem member))

theorem mem_pgrpIdx {pi : ParentRow × Nat} (member : pi ∈ pgrpIdx base) :
    ∃ row ∈ base, row.pgrp ≠ none ∧ row.parentRow = pi.1 := by
  obtain ⟨row, rowMem, same⟩ :=
    List.mem_map.mp (List.mem_dedup.mp (mem_of_mem_numbered member))
  obtain ⟨inBase, isSome⟩ := List.mem_filter.mp rowMem
  exact ⟨row, inBase, Option.isSome_iff_ne_none.mp isSome, same⟩

theorem exists_pgrpIdx {row : StreamRow} (member : row ∈ base)
    (above : row.pgrp ≠ none) :
    ∃ pidx, (row.parentRow, pidx) ∈ pgrpIdx base :=
  exists_mem_numbered (List.mem_dedup.mpr (List.mem_map_of_mem
    (List.mem_filter.mpr ⟨member, Option.isSome_iff_ne_none.mpr above⟩)))

theorem mem_walk {callsites : Callsites} {key : NodeKey} :
    key ∈ walk callsites base ↔
      ∃ row ∈ base, row.grp = key.grp ∧
        key.cs ∈ callsites.ancestors row.cs := by
  unfold walk
  simp only [List.mem_flatMap, List.mem_dedup, List.mem_map]
  constructor
  · rintro ⟨_, ⟨row, member, rfl⟩, cur, above, rfl⟩
    exact ⟨row, member, rfl, above⟩
  · rintro ⟨row, member, same, above⟩
    exact ⟨row.nodeKey, ⟨row, member, rfl⟩, key.cs, above,
      congrArg (NodeKey.mk · key.cs) same⟩

theorem mem_nodeIds {callsites : Callsites} {ni : NodeKey × Nat}
    (member : ni ∈ nodeIds callsites base) :
    ∃ row ∈ base, row.grp = ni.1.grp ∧
      ni.1.cs ∈ callsites.ancestors row.cs :=
  mem_walk.mp (List.mem_dedup.mp (mem_of_mem_numbered member))

theorem exists_nodeIds {callsites : Callsites} {key : NodeKey}
    (member : key ∈ walk callsites base) :
    ∃ nid, (key, nid) ∈ nodeIds callsites base :=
  exists_mem_numbered (List.mem_dedup.mpr member)

theorem exists_parent {ni : NodeKey × Nat}
    (member : ni ∈ nodeIds profile.callsites base) {parent : Nat}
    (link : profile.callsites.parentId ni.1.cs = some parent) :
    ∃ nid, (⟨ni.1.grp, parent⟩, nid) ∈ nodeIds profile.callsites base := by
  obtain ⟨row, rowMem, same, above⟩ := mem_nodeIds member
  exact exists_nodeIds (mem_walk.mpr ⟨row, rowMem, same,
    Callsites.parent_mem_ancestors above link⟩)

variable (profile) in
theorem exists_node {row : StreamRow} (member : row ∈ base) :
    ∃ nid, (row.nodeKey, nid) ∈ nodeIds profile.callsites base :=
  exists_nodeIds (mem_walk.mpr
    ⟨row, member, rfl, Callsites.mem_ancestors_self row.cs⟩)

theorem mem_selfWBottom {lw : LeafKey × Int} (member : lw ∈ selfWBottom base) :
    ∃ row ∈ base, row.leafKey = lw.1 :=
  (mem_sumBy.mp member).1

theorem mem_bouterIdx {bo : OuterKey × Nat} (member : bo ∈ bouterIdx base) :
    (∃ row ∈ base, row.leafKey.outerKey = bo.1) ∧ bo.1.bplabel ≠ none := by
  have listed := List.mem_dedup.mp (mem_of_mem_numbered member)
  obtain ⟨inKeys, isSome⟩ := List.mem_filter.mp listed
  obtain ⟨lw, lwMem, same⟩ := List.mem_map.mp inKeys
  obtain ⟨row, rowMem, leaf⟩ := mem_selfWBottom lwMem
  exact ⟨⟨row, rowMem, by rw [leaf, same]⟩,
    Option.isSome_iff_ne_none.mp isSome⟩

theorem exists_bouterIdx {lw : LeafKey × Int} (member : lw ∈ selfWBottom base)
    (above : lw.1.bplabel ≠ none) :
    ∃ boidx, (lw.1.outerKey, boidx) ∈ bouterIdx base :=
  exists_mem_numbered (List.mem_dedup.mpr (List.mem_filter.mpr
    ⟨List.mem_map_of_mem member, Option.isSome_iff_ne_none.mpr above⟩))

/-! ### Keys -/

theorem grpIdx_distinct (grouped : Grouped base) :
    ((grpIdx base).map fun gi => gi.1.grp).Nodup := by
  apply numbered_map_nodup
  apply List.Nodup.map_on _ (List.nodup_dedup _)
  intro first firstMem second secondMem same
  obtain ⟨row, rowMem, rfl⟩ := List.mem_map.mp (List.mem_dedup.mp firstMem)
  obtain ⟨other, otherMem, rfl⟩ :=
    List.mem_map.mp (List.mem_dedup.mp secondMem)
  exact grouped.groups row rowMem other otherMem same

theorem pgrpIdx_distinct (grouped : Grouped base) :
    ((pgrpIdx base).map fun pi => pi.1.pgrp).Nodup := by
  apply numbered_map_nodup
  apply List.Nodup.map_on _ (List.nodup_dedup _)
  intro first firstMem second secondMem same
  obtain ⟨row, rowMem, rfl⟩ := List.mem_map.mp (List.mem_dedup.mp firstMem)
  obtain ⟨other, otherMem, rfl⟩ :=
    List.mem_map.mp (List.mem_dedup.mp secondMem)
  obtain ⟨rowIn, isSome⟩ := List.mem_filter.mp rowMem
  exact grouped.parents row rowIn other (List.mem_filter.mp otherMem).1 same
    (Option.isSome_iff_ne_none.mp isSome)

theorem nodeIds_distinct (callsites : Callsites) :
    ((nodeIds callsites base).map fun ni => ni.1).Nodup :=
  (numbered_map_fst_perm _ _).nodup_iff.mpr (List.nodup_dedup _)

theorem bouterIdx_distinct : ((bouterIdx base).map fun bo => bo.1).Nodup :=
  (numbered_map_fst_perm _ _).nodup_iff.mpr (List.nodup_dedup _)

end

end Sismo.Views
