import Sismo.Views.TimelineSlices

namespace Sismo.Views

/-! The table of slices against the samples. -/

/-- Listed by an index that every position has once, the values are those
expected at the positions. -/
theorem map_insertionSort_eq {α β : Type} {list : List α} {index : α → Nat}
    {value : α → β} {expected : List β} (nodup : (list.map index).Nodup)
    (values : ∀ i v, (∃ a ∈ list, index a = i ∧ value a = v) ↔
      expected[i]? = some v) :
    (list.insertionSort fun first second => index first ≤ index second).map
      value = expected := by
  generalize listed : list.insertionSort
    (fun first second => index first ≤ index second) = sorted
  have perm : sorted.Perm list := by
    rw [← listed]
    exact List.perm_insertionSort _ _
  have ordered : (sorted.map index).Pairwise (· ≤ ·) := by
    rw [List.pairwise_map, ← listed]
    exact List.pairwise_insertionSort _ _
  have indices : sorted.map index = List.range expected.length := by
    refine List.Perm.eq_of_pairwise (fun _ _ _ _ => Nat.le_antisymm) ordered
      List.pairwise_le_range ?_
    refine (perm.map index).trans
      ((List.perm_ext_iff_of_nodup nodup List.nodup_range).mpr fun i => ?_)
    rw [List.mem_map, List.mem_range]
    constructor
    · rintro ⟨a, member, rfl⟩
      exact (List.getElem?_eq_some_iff.mp
        ((values _ _).mp ⟨a, member, rfl, rfl⟩)).1
    · intro inside
      obtain ⟨a, member, same, _⟩ :=
        (values i _).mpr (List.getElem?_eq_getElem inside)
      exact ⟨a, member, same⟩
  have lengths : sorted.length = expected.length := by
    have := congrArg List.length indices
    rwa [List.length_map, List.length_range] at this
  apply List.ext_getElem?
  intro i
  rw [List.getElem?_map]
  cases found : sorted[i]? with
  | none =>
      rw [List.getElem?_eq_none_iff] at found
      rw [Option.map_none, List.getElem?_eq_none (lengths ▸ found)]
  | some a =>
      have inside := (List.getElem?_eq_some_iff.mp found).1
      have place : index a = i := by
        have := congrArg (·[i]?) indices
        rw [List.getElem?_map, found,
          List.getElem?_range (lengths ▸ inside)] at this
        exact Option.some.inj this
      have member := perm.mem_iff.mp (List.mem_of_getElem? found)
      exact ((values i (value a)).mp ⟨a, member, place, rfl⟩).symm

section

variable {profile : Profile} {samples : List PrivSample}

theorem mem_stackSlices {slice : StackSlice}
    (member : slice ∈ stackSlices profile samples) :
    ∃ row ∈ perSampleFrame profile samples, ∃ id,
      slice = { sliceAt profile samples row with id := id } := by
  obtain ⟨numbered, numberedMem, rfl⟩ := List.mem_map.mp member
  have sorted := List.fst_mem_of_mem_zipIdx numberedMem
  rw [List.mem_insertionSort] at sorted
  obtain ⟨key, keyMem, unnumbered⟩ := List.mem_map.mp sorted
  obtain ⟨row, rowMem, rfl⟩ := List.mem_map.mp (List.mem_dedup.mp keyMem)
  refine ⟨row, rowMem, numbered.2, ?_⟩
  rw [← unnumbered]
  rfl

theorem sliceAt_mem {row : SampleFrame}
    (member : row ∈ perSampleFrame profile samples) :
    ∃ id, { sliceAt profile samples row with id := id } ∈
      stackSlices profile samples := by
  have listed : sliceAt profile samples row ∈
      ((((perSampleFrame profile samples).map
        (·.group (perSampleFrame profile samples))).dedup.map fun key =>
          sliceOf key ((perSampleFrame profile samples).filter fun row =>
            row.group (perSampleFrame profile samples) = key)).insertionSort
              StackSlice.Before) := by
    rw [List.mem_insertionSort]
    exact List.mem_map.mpr ⟨_, List.mem_dedup.mpr
      (List.mem_map_of_mem member), rfl⟩
  obtain ⟨i, found⟩ := List.mem_iff_getElem?.mp listed
  refine ⟨1 + i, List.mem_map.mpr ⟨(_, 1 + i), ?_, rfl⟩⟩
  exact List.mk_add_mem_zipIdx_iff_getElem?.mpr found

/-- The slices of one depth of a thread do not overlap. -/
def Apart (first second : StackSlice) : Prop :=
  first.utid = second.utid → first.depth = second.depth →
    ¬∃ t, first.Covers t ∧ second.Covers t

instance : Std.Symm Apart :=
  ⟨fun _ _ apart utid depth ⟨t, first, second⟩ =>
    apart utid.symm depth.symm ⟨t, second, first⟩⟩

theorem stackSlices_apart (distinct : TimesDistinct samples) :
    (stackSlices profile samples).Pairwise Apart := by
  have slices : (((perSampleFrame profile samples).map
      (·.group (perSampleFrame profile samples))).dedup.map fun key =>
        sliceOf key ((perSampleFrame profile samples).filter fun row =>
          row.group (perSampleFrame profile samples) = key)).Pairwise Apart := by
    rw [List.pairwise_map]
    apply List.Pairwise.imp_of_mem _ (List.nodup_dedup _)
    intro key other keyMem otherMem different utid depth
    rintro ⟨t, covers, otherCovers⟩
    obtain ⟨row, rowMem, rfl⟩ := List.mem_map.mp (List.mem_dedup.mp keyMem)
    obtain ⟨row', rowMem', rfl⟩ :=
      List.mem_map.mp (List.mem_dedup.mp otherMem)
    exact different (group_eq_of_covers distinct rowMem rowMem'
      (Prod.ext utid depth) covers otherCovers)
  have sorted := ((List.perm_insertionSort StackSlice.Before _).pairwise_iff
    fun apart => Std.Symm.symm _ _ apart).mpr slices
  -- The numbers do not matter.
  rw [← List.zipIdx_map_fst 1 (List.insertionSort _ _),
    List.pairwise_map] at sorted
  exact List.pairwise_map.mpr sorted

end

/-! ### The timeline -/

section

variable {profile : Profile} {samples : List PrivSample}

variable (profile samples) in
/-- The table of slices encodes the stacks of the samples. -/
structure Encodes (table : List StackSlice) : Prop where
  apart : table.Pairwise Apart
  nested : ∀ slice ∈ table, ∀ depth, slice.depth = depth + 1 →
    ∃ outer ∈ table,
      (outer.utid = slice.utid ∧ outer.depth = depth ∧ slice.Inside outer) ∧
      (∀ other ∈ table, other.utid = slice.utid → other.depth = depth →
        slice.Inside other → other = outer) ∧
      ∃ s ∈ samples, s.utid = slice.utid ∧ slice.Covers s.ts ∧
        ∃ callsite parent, HasFrame profile s (depth + 1) callsite ∧
          HasFrame profile s depth parent ∧
          profile.callsites.parentId callsite = some parent ∧
          slice.frameId = profile.callsites.frameId callsite ∧
          outer.frameId = profile.callsites.frameId parent
  shown : ∀ s ∈ samples, ∀ t, s.ts ≤ t → BeforeEnd t (slotEnd samples s) →
    (((table.filter fun slice => slice.utid = s.utid ∧ slice.Covers t
        ).insertionSort fun first second => first.depth ≤ second.depth).map
          (·.frameId)) =
      (profile.callsites.rootFirst s.callsiteId).map profile.callsites.frameId
  merged : ∀ s ∈ samples, ∀ next, lead (·.utid) (·.ts) samples s = some next →
    ∀ depth callsite, HasFrame profile s depth callsite →
    HasFrame profile next depth callsite →
    ∃ slice ∈ table, slice.utid = s.utid ∧ slice.depth = depth ∧
      slice.Covers s.ts ∧ slice.Covers next.ts

theorem sliceAt_frameId (distinct : TimesDistinct samples) {s : PrivSample}
    (sMem : s ∈ samples) {depth callsite : Nat}
    (here : HasFrame profile s depth callsite) :
    (sliceAt profile samples (rowAt profile samples s depth callsite)).frameId =
      profile.callsites.frameId callsite := by
  have self := groupRows_self (rowAt_mem sMem here)
  obtain ⟨⟨row, rowMem, least⟩, _⟩ := columnMin_spec (·.frame.frameId)
    (List.ne_nil_of_mem self)
  obtain ⟨other, _, _, _, rfl, _⟩ :=
    (mem_groupRows distinct sMem here).mp rowMem
  exact least.symm

theorem covers_own (distinct : TimesDistinct samples) {s : PrivSample}
    (sMem : s ∈ samples) {depth callsite : Nat}
    (here : HasFrame profile s depth callsite) {t : Nat} (after : s.ts ≤ t)
    (before : BeforeEnd t (slotEnd samples s)) :
    (sliceAt profile samples
      (rowAt profile samples s depth callsite)).Covers t :=
  (covers_sliceAt distinct sMem sMem rfl here after before).mpr ⟨here, rfl⟩

/-- A slice is not empty. -/
theorem covers_of_inside {inner outer : StackSlice} {t : Nat}
    (inside : inner.Inside outer) (covers : inner.Covers t) :
    outer.Covers t := by
  obtain ⟨started, ends⟩ := inside
  obtain ⟨after, before⟩ := covers
  refine ⟨started.trans after, ?_⟩
  rcases ends with open_ | ⟨closed, le⟩
  · exact .inl open_
  · right
    rcases before with open_ | before
    · exact absurd open_ closed
    · omega

theorem stackSlices_nested (distinct : TimesDistinct samples)
    {slice : StackSlice} (member : slice ∈ stackSlices profile samples)
    {depth : Nat} (deeper : slice.depth = depth + 1) :
    ∃ outer ∈ stackSlices profile samples,
      (outer.utid = slice.utid ∧ outer.depth = depth ∧ slice.Inside outer) ∧
      (∀ other ∈ stackSlices profile samples, other.utid = slice.utid →
        other.depth = depth → slice.Inside other → other = outer) ∧
      ∃ s ∈ samples, s.utid = slice.utid ∧ slice.Covers s.ts ∧
        ∃ callsite parent, HasFrame profile s (depth + 1) callsite ∧
          HasFrame profile s depth parent ∧
          profile.callsites.parentId callsite = some parent ∧
          slice.frameId = profile.callsites.frameId callsite ∧
          outer.frameId = profile.callsites.frameId parent := by
  obtain ⟨row, rowMem, id, rfl⟩ := mem_stackSlices member
  obtain ⟨s, sMem, rowDepth, callsite, here, rfl⟩ :=
    mem_perSampleFrame.mp rowMem
  have depthEq : rowDepth = depth + 1 := deeper
  subst depthEq
  obtain ⟨parent, above, link⟩ := profile.callsites.rootFirst_parent here
  obtain ⟨outerId, outerMem⟩ := sliceAt_mem (rowAt_mem sMem above)
  have inside := sliceAt_inside distinct sMem here above link
  have covers := covers_own distinct sMem here (Nat.le_refl _)
    (ts_before_slotEnd s)
  refine ⟨_, outerMem, ⟨rfl, rfl, inside⟩, ?_, s, sMem, rfl, covers, callsite,
    parent, here, above, link, sliceAt_frameId distinct sMem here,
    sliceAt_frameId distinct sMem above⟩
  intro other otherMem utid otherDepth otherInside
  by_contra different
  exact List.Pairwise.forall (stackSlices_apart distinct) otherMem outerMem
    different utid otherDepth
    ⟨s.ts, covers_of_inside otherInside covers, covers_of_inside inside covers⟩

/-- The slices over a time are the frames of the sample before it. -/
theorem stackSlices_shown (distinct : TimesDistinct samples) {s : PrivSample}
    (sMem : s ∈ samples) {t : Nat} (after : s.ts ≤ t)
    (before : BeforeEnd t (slotEnd samples s)) :
    ((((stackSlices profile samples).filter fun slice =>
        slice.utid = s.utid ∧ slice.Covers t).insertionSort
          fun first second => first.depth ≤ second.depth).map (·.frameId)) =
      (profile.callsites.rootFirst s.callsiteId).map
        profile.callsites.frameId := by
  apply map_insertionSort_eq
  · rw [List.Nodup, List.pairwise_map]
    apply List.Pairwise.imp_of_mem _
      ((stackSlices_apart distinct).filter _)
    intro first second firstMem secondMem apart same
    obtain ⟨firstUtid, firstCovers⟩ :=
      of_decide_eq_true (List.mem_filter.mp firstMem).2
    obtain ⟨secondUtid, secondCovers⟩ :=
      of_decide_eq_true (List.mem_filter.mp secondMem).2
    exact apart (firstUtid.trans secondUtid.symm) same
      ⟨t, firstCovers, secondCovers⟩
  · intro depth frameId
    rw [List.getElem?_map, Option.map_eq_some_iff]
    constructor
    · rintro ⟨slice, member, rfl, rfl⟩
      obtain ⟨inTable, here⟩ := List.mem_filter.mp member
      obtain ⟨utid, covers⟩ := of_decide_eq_true here
      obtain ⟨row, rowMem, id, rfl⟩ := mem_stackSlices inTable
      obtain ⟨first, firstMem, rowDepth, callsite, frame, rfl⟩ :=
        mem_perSampleFrame.mp rowMem
      obtain ⟨own, _⟩ := (covers_sliceAt distinct firstMem sMem utid.symm
        frame after before).mp covers
      exact ⟨callsite, own, (sliceAt_frameId distinct firstMem frame).symm⟩
    · rintro ⟨callsite, here, rfl⟩
      obtain ⟨id, member⟩ := sliceAt_mem (rowAt_mem sMem here)
      refine ⟨_, List.mem_filter.mpr ⟨member, decide_eq_true ⟨rfl, ?_⟩⟩, rfl,
        sliceAt_frameId distinct sMem here⟩
      exact covers_own distinct sMem here after before

theorem stackSlices_merged (distinct : TimesDistinct samples)
    {s next : PrivSample} (sMem : s ∈ samples)
    (follows : lead (·.utid) (·.ts) samples s = some next)
    {depth callsite : Nat} (here : HasFrame profile s depth callsite)
    (there : HasFrame profile next depth callsite) :
    ∃ slice ∈ stackSlices profile samples, slice.utid = s.utid ∧
      slice.depth = depth ∧ slice.Covers s.ts ∧ slice.Covers next.ts := by
  obtain ⟨nextMem, utid, after, _⟩ := lead_eq_some follows
  obtain ⟨id, member⟩ := sliceAt_mem (rowAt_mem sMem here)
  refine ⟨_, member, rfl, rfl,
    covers_own distinct sMem here (Nat.le_refl _) (ts_before_slotEnd s), ?_⟩
  apply (covers_sliceAt distinct sMem nextMem utid here (Nat.le_refl _)
    (ts_before_slotEnd next)).mpr
  refine ⟨there, Eq.symm ?_⟩
  apply (runId_eq_iff_between distinct sMem nextMem utid.symm after.le here
    there).mpr
  intro place from_ upTo
  have adjacent : sampleIdx samples next = sampleIdx samples s + 1 :=
    rowNumber_lead distinct sMem follows
  rcases Nat.eq_or_lt_of_le from_ with same | later
  · exact ⟨s, sMem, rfl, same, here⟩
  · exact ⟨next, nextMem, utid, by omega, there⟩

end

/-- The stack timeline is the run-length encoding of the samples: with distinct
times in each thread its slices do not overlap, each is inside one of its
parent's frame, and over any time they are the stack of the last sample. -/
theorem stackTable_encodes (priv : Nat → Bool) (profile : Profile)
    (samples : List PerfSample)
    (distinct : TimesDistinct (privSamples priv samples)) :
    Encodes profile (privSamples priv samples)
      (stackTable priv profile samples) where
  apart := stackSlices_apart distinct
  nested _ member _ deeper := stackSlices_nested distinct member deeper
  shown _ member _ after before :=
    stackSlices_shown distinct member after before
  merged _ member _ follows _ _ here there :=
    stackSlices_merged distinct member follows here there

/-! `main` calls itself, then `read`, then `write` in its place. -/

def recursiveParent : Nat → Option Nat
  | 0 => none
  | 3 => some 1
  | callsite + 1 => some callsite

theorem recursiveParent_lt (callsite parent : Nat)
    (link : recursiveParent callsite = some parent) : parent < callsite := by
  unfold recursiveParent at link
  split at link
  · cases link
  · cases link
    decide
  · cases link
    exact Nat.lt_succ_self _

def recursiveProfile : Profile where
  callsites := ⟨recursiveParent, fun callsite => callsite - 1, id,
    recursiveParent_lt⟩
  frames frame :=
    ⟨(["main", "read", "write"])[frame]?, some 7, some (16 * frame), none⟩

def recursiveSamples : List PerfSample :=
  [⟨1, 10, some 2, 0, none⟩, ⟨1, 20, some 2, 0, none⟩,
    ⟨1, 30, some 3, 0, none⟩, ⟨2, 15, some 1, 0, none⟩,
    ⟨1, 25, none, 0, none⟩]

theorem stackTable_encodes_recursive :
    Encodes recursiveProfile (privSamples (fun _ => true) recursiveSamples)
      (stackTable (fun _ => true) recursiveProfile recursiveSamples) :=
  stackTable_encodes _ _ _ (by
    unfold TimesDistinct
    decide)

end Sismo.Views
