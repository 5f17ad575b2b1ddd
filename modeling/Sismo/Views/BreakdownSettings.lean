import Sismo.Views.BreakdownConserves

namespace Sismo.Views

/-! The breakdown in each setting of its two axes. -/

/-! ### Null groups -/

section

variable {profile : Profile} {base : List StreamRow} {hasBottom : Bool}

/-- The nodes that are no code are numbered after all code nodes. -/
theorem nodeCount_lt_id {p : Place}
    (member : p ∈ places profile base true hasBottom) :
    (∃ row ∈ codeRows profile base true hasBottom, p = .code row) ∨
      nodeCount profile base < (placeNode profile base true p).id := by
  have above : nodeCount profile base ≤ leafBase profile base true := by
    unfold leafBase
    rw [if_pos rfl]
    omega
  rcases p with row | row | pi | row | row
  case code => exact .inl ⟨row, code_mem_places.mp member, rfl⟩
  case group =>
    right
    have first := (numbered_snd_mem
      (mem_rootRows (group_mem_places.mp member).2).1).1
    change nodeCount profile base < nodeCount profile base + row.gi.2
    omega
  case parent =>
    right
    have first := (numbered_snd_mem (parent_mem_places.mp member).2).1
    change nodeCount profile base <
      nodeCount profile base + (grpIdx base).length + pi.2
    omega
  case inner =>
    right
    have first := (numbered_snd_mem (inner_mem_places.mp member).2).1
    change nodeCount profile base < leafBase profile base true + row.2
    omega
  case outer =>
    right
    have first := (numbered_snd_mem
      (mem_outerRows (outer_mem_places.mp member).2).1).1
    change nodeCount profile base <
      leafBase profile base true + (selfWBottom base).length + row.bo.2
    omega

/-- The nodes of a null group are counted and not made. -/
theorem not_conservesWeight_of_null {row : StreamRow} (member : row ∈ base)
    (null : row.grp = none) :
    ¬ConservesWeight profile base true
      (breakdownTreeStatement profile base true hasBottom) := by
  intro conserves
  have mem_ids : ∀ id, id ∈ (breakdownTreeStatement profile base true
      hasBottom).map (·.id) ↔ 1 ≤ id ∧ id ≤
        (breakdownTreeStatement profile base true hasBottom).length := by
    intro id
    rw [conserves.ids.mem_iff, List.mem_range'_1]
    omega
  obtain ⟨nid, found⟩ := exists_node profile member
  have number := numbered_snd_mem found
  obtain ⟨gidx, gMem⟩ := exists_grpIdx member
  obtain ⟨pi, joined⟩ := exists_mem_leftJoin (pgrpIdx base)
    fun pi => sqlEq pi.1.pgrp row.groupRow.pgrp
  have rootMem : ⟨(row.groupRow, gidx), pi⟩ ∈ rootRows base := by
    unfold rootRows
    exact List.mem_flatMap.mpr ⟨_, gMem, List.mem_map.mpr ⟨pi, joined, rfl⟩⟩
  have rootId := (mem_ids (nodeCount profile base + gidx)).mp (by
    rw [breakdownTreeStatement_eq]
    exact List.mem_map.mpr ⟨_, List.mem_map_of_mem
      (group_mem_places.mpr ⟨rfl, rootMem⟩), rfl⟩)
  have counted : nid ≤ nodeCount profile base := by
    unfold nodeCount nodeIds
    rw [length_numbered]
    exact number.2
  have made := (mem_ids nid).mpr ⟨number.1, by omega⟩
  rw [breakdownTreeStatement_eq, List.map_map] at made
  obtain ⟨p, pMem, same⟩ := List.mem_map.mp made
  rcases nodeCount_lt_id pMem with ⟨code, codeMem, rfl⟩ | above
  · obtain ⟨niMem, giMem, _⟩ := mem_codeRows.mp codeMem
    have isNull : code.ni = (row.nodeKey, nid) :=
      numbered_snd_injective niMem found same
    rcases mem_joinedGroups giMem with ⟨off, _⟩ | ⟨_, _, _, _, _, named⟩
    · cases off
    · rw [isNull] at named
      exact named null
  · have tooLarge : nodeCount profile base < nid := by
      rw [← same]
      exact above
    omega

end

/-! ### Groups of the samples -/

section

variable {tables : ThreadTables} {p q : WeightedSample}

theorem alwaysJoin_th_eq
    (same : (alwaysJoin tables p).th.map (·.utid) =
      (alwaysJoin tables q).th.map (·.utid))
    (joined : (alwaysJoin tables p).th.map (·.utid) ≠ none) :
    (alwaysJoin tables p).th = (alwaysJoin tables q).th := by
  unfold alwaysJoin at same joined ⊢
  dsimp only at same joined ⊢
  cases first : tables.thread p.utid with
  | none => simp [first] at joined
  | some th =>
      cases second : tables.thread q.utid with
      | none => simp [first, second] at same
      | some other =>
          have utid : th.utid = other.utid := by
            simpa [first, second] using same
          rw [tables.thread_utid _ _ first, tables.thread_utid _ _ second]
            at utid
          rw [← first, ← second, utid]

theorem processLabel_eq
    (same : (alwaysJoin tables p).th.bind (·.upid) =
      (alwaysJoin tables q).th.bind (·.upid)) :
    processLabel (alwaysJoin tables p) = processLabel (alwaysJoin tables q) := by
  have byUpid : ∀ s : WeightedSample, processLabel (alwaysJoin tables s) =
      ((alwaysJoin tables s).th.bind (·.upid)).bind fun upid =>
        (tables.process upid).map fun pr =>
          pr.name.getD ("upid " ++ toString upid) ++
            (" (pid " ++ toString pr.pid ++ ")") := by
    intro s
    unfold processLabel alwaysJoin
    dsimp only
    cases tables.thread s.utid with
    | none => rfl
    | some th =>
        cases upid : th.upid with
        | none => simp [upid]
        | some upid' =>
            cases pr : tables.process upid' <;> simp [upid, pr]
  rw [byUpid, byUpid, same]

theorem groupCols_eq (kind : GroupKind)
    (same : (breakdownGroupCols kind).grp (alwaysJoin tables p) =
      (breakdownGroupCols kind).grp (alwaysJoin tables q))
    (named : (breakdownGroupCols kind).grp (alwaysJoin tables p) ≠ none) :
    (breakdownGroupCols kind).label (alwaysJoin tables p) =
        (breakdownGroupCols kind).label (alwaysJoin tables q) ∧
      (breakdownGroupCols kind).pgrp (alwaysJoin tables p) =
        (breakdownGroupCols kind).pgrp (alwaysJoin tables q) := by
  have byThread : (alwaysJoin tables p).th.map (GroupValue.id ·.utid) =
        (alwaysJoin tables q).th.map (GroupValue.id ·.utid) →
      (alwaysJoin tables p).th.map (GroupValue.id ·.utid) ≠ none →
      (alwaysJoin tables p).th = (alwaysJoin tables q).th := by
    intro same joined
    apply alwaysJoin_th_eq
    · apply Option.map_injective (f := GroupValue.id)
        (fun _ _ equal => GroupValue.id.inj equal)
      simpa [Option.map_map, Function.comp_def] using same
    · simpa using joined
  cases kind with
  | dataRegion =>
      have symbol : p.dataSymbol = q.dataSymbol :=
        Option.map_injective (fun _ _ equal => GroupValue.symbol.inj equal) same
      refine ⟨?_, rfl⟩
      change some (p.dataSymbol.getD _) = some (q.dataSymbol.getD _)
      rw [symbol]
  | thread =>
      have th := byThread same named
      refine ⟨?_, rfl⟩
      change threadLabel _ = threadLabel _
      unfold threadLabel
      rw [th]
  | process =>
      have upid := Option.map_injective
        (fun _ _ equal => GroupValue.id.inj equal) same
      exact ⟨processLabel_eq upid, rfl⟩
  | processThread =>
      have th := byThread same named
      constructor
      · change threadLabel _ = threadLabel _
        unfold threadLabel
        rw [th]
      · change (alwaysJoin tables p).th.bind (·.upid) =
          (alwaysJoin tables q).th.bind (·.upid)
        rw [th]

theorem parentCols_eq (kind : GroupKind)
    (same : (breakdownGroupCols kind).pgrp (alwaysJoin tables p) =
      (breakdownGroupCols kind).pgrp (alwaysJoin tables q))
    (nested : (breakdownGroupCols kind).pgrp (alwaysJoin tables p) ≠ none) :
    (breakdownGroupCols kind).plabel (alwaysJoin tables p) =
      (breakdownGroupCols kind).plabel (alwaysJoin tables q) := by
  cases kind with
  | dataRegion => exact absurd rfl nested
  | thread => exact absurd rfl nested
  | process => exact absurd rfl nested
  | processThread => exact processLabel_eq same

end

theorem grouped_breakdownStream {tables : ThreadTables}
    {top : Option GroupKind} (bottom : Option GroupKind)
    {samples : List WeightedSample}
    (named : ∀ kind, top = some kind → ∀ s ∈ samples,
      (breakdownGroupCols kind).grp (alwaysJoin tables s) ≠ none) :
    Grouped (breakdownStream tables top bottom samples) := by
  unfold breakdownStream sampleStream
  cases top with
  | none =>
      constructor
      · intro row member
        obtain ⟨s, _, rfl⟩ := List.mem_map.mp member
        exact Option.some_ne_none _
      · intro first firstMem second secondMem _
        obtain ⟨s, _, rfl⟩ := List.mem_map.mp firstMem
        obtain ⟨t, _, rfl⟩ := List.mem_map.mp secondMem
        rfl
      · intro first firstMem second secondMem _ _
        obtain ⟨s, _, rfl⟩ := List.mem_map.mp firstMem
        obtain ⟨t, _, rfl⟩ := List.mem_map.mp secondMem
        rfl
  | some kind =>
      have named := named kind rfl
      constructor
      · intro row member
        obtain ⟨s, sMem, rfl⟩ := List.mem_map.mp member
        exact named s sMem
      · intro first firstMem second secondMem same
        obtain ⟨s, sMem, rfl⟩ := List.mem_map.mp firstMem
        obtain ⟨t, _, rfl⟩ := List.mem_map.mp secondMem
        obtain ⟨label, pgrp⟩ := groupCols_eq kind same (named s sMem)
        change GroupRow.mk _ _ _ = GroupRow.mk _ _ _
        exact congr (congrArg₂ GroupRow.mk same label) pgrp
      · intro first firstMem second secondMem same nested
        obtain ⟨s, _, rfl⟩ := List.mem_map.mp firstMem
        obtain ⟨t, _, rfl⟩ := List.mem_map.mp secondMem
        exact congrArg₂ ParentRow.mk same (parentCols_eq kind same nested)

/-- The breakdown conserves the weights of the samples exactly when there is no
top axis or it groups none of the samples under null. -/
theorem breakdownTree_conserves_iff (tables : ThreadTables)
    (profile : Profile) (top bottom : Option GroupKind)
    (samples : List WeightedSample) :
    ConservesWeight profile (breakdownStream tables top bottom samples)
        top.isSome (breakdownTree tables profile top bottom samples) ↔
      ∀ kind, top = some kind → ∀ s ∈ samples,
        (breakdownGroupCols kind).grp (alwaysJoin tables s) ≠ none := by
  constructor
  · rintro conserves kind rfl s member null
    have inStream : streamRow (breakdownGroupCols kind) (axisGroup bottom)
        (alwaysJoin tables s) ∈ breakdownStream tables (some kind) bottom
          samples := List.mem_map_of_mem member
    exact not_conservesWeight_of_null inStream null conserves
  · intro named
    exact conservesWeight (grouped_breakdownStream bottom named)

/-! A sample on no known data. -/

theorem noRow_utid (utid : Nat) (th : ThreadRow) (joined : none = some th) :
    th.utid = utid := by
  cases joined

theorem noRow_upid (upid : Nat) (pr : ProcessRow) (joined : none = some pr) :
    pr.upid = upid := by
  cases joined

theorem noLink (callsite parent : Nat) (link : none = some parent) :
    parent < callsite := by
  cases link

def noThreads : ThreadTables where
  thread _ := none
  process _ := none
  thread_utid := noRow_utid
  process_upid := noRow_upid

def mainOnly : Profile where
  callsites := ⟨fun _ => none, fun _ => 0, id, noLink⟩
  frames _ := ⟨some "main", none, none, none⟩

def noDataSample : WeightedSample := ⟨1, none, 0, 5⟩

theorem not_conserves_noData :
    ¬ConservesWeight mainOnly
      (breakdownStream noThreads (some .dataRegion) none [noDataSample]) true
      (breakdownTree noThreads mainOnly (some .dataRegion) none
        [noDataSample]) := by
  have inStream : streamRow (breakdownGroupCols .dataRegion) noneGroup
      (alwaysJoin noThreads noDataSample) ∈
        breakdownStream noThreads (some .dataRegion) none [noDataSample] :=
    List.mem_singleton_self _
  exact not_conservesWeight_of_null inStream rfl

end Sismo.Views
