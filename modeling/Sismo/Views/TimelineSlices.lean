import Sismo.Views.TimelineRuns

namespace Sismo.Views

/-! The slices of the stack timeline and the times they cover. -/

namespace StackSlice

/-- An open slice has no end. -/
def Covers (slice : StackSlice) (t : Nat) : Prop :=
  slice.ts ≤ t ∧ (slice.dur = -1 ∨ (t : Int) < slice.ts + slice.dur)

instance (slice : StackSlice) (t : Nat) : Decidable (slice.Covers t) :=
  inferInstanceAs (Decidable (_ ∧ _))

def Inside (inner outer : StackSlice) : Prop :=
  outer.ts ≤ inner.ts ∧ (outer.dur = -1 ∨
    inner.dur ≠ -1 ∧ inner.ts + inner.dur ≤ outer.ts + outer.dur)

end StackSlice

/-! ### The slice of a group of rows -/

def BeforeEnd (t : Nat) (slotEnd : Option Nat) : Prop :=
  ∀ e, slotEnd = some e → t < e

theorem columnMin_spec {α : Type} (column : α → Nat) {rows : List α}
    (nonempty : rows ≠ []) :
    (∃ row ∈ rows, column row = columnMin column rows) ∧
      ∀ row ∈ rows, columnMin column rows ≤ column row := by
  cases found : (rows.map column).min? with
  | none =>
      rw [List.min?_eq_none_iff, List.map_eq_nil_iff] at found
      exact absurd found nonempty
  | some least =>
      obtain ⟨member, bound⟩ := List.min?_eq_some_iff.mp found
      rw [columnMin, found, Option.getD_some]
      exact ⟨List.mem_map.mp member, List.forall_mem_map.mp bound⟩

section

variable {rows : List SampleFrame}

theorem sliceDur_open {row : SampleFrame} (member : row ∈ rows)
    (noEnd : row.slotEnd = none) : sliceDur rows = -1 := by
  apply if_pos
  rw [List.length_filterMap_lt_length_iff_exists]
  exact ⟨row, member, noEnd⟩

theorem sliceDur_closed (nonempty : rows ≠ [])
    (closed : ∀ row ∈ rows, row.slotEnd ≠ none) :
    ∃ last, (∃ row ∈ rows, row.slotEnd = some last) ∧
      (∀ row ∈ rows, ∀ e, row.slotEnd = some e → e ≤ last) ∧
      sliceDur rows = (last : Int) - columnMin (·.ts) rows := by
  have full : ¬(rows.filterMap (·.slotEnd)).length < rows.length := by
    rw [List.length_filterMap_lt_length_iff_exists]
    rintro ⟨row, member, noEnd⟩
    exact closed row member noEnd
  rw [sliceDur, if_neg full, lastEnd]
  cases found : (rows.filterMap (·.slotEnd)).max? with
  | none =>
      rw [List.max?_eq_none_iff, List.filterMap_eq_nil_iff] at found
      obtain ⟨row, member⟩ := List.exists_mem_of_ne_nil rows nonempty
      exact absurd (found row member) (closed row member)
  | some last =>
      obtain ⟨member, bound⟩ := List.max?_eq_some_iff.mp found
      refine ⟨last, List.mem_filterMap.mp member, ?_, rfl⟩
      intro row rowMem e rowEnd
      exact bound e (List.mem_filterMap.mpr ⟨row, rowMem, rowEnd⟩)

def Forward (rows : List SampleFrame) : Prop :=
  ∀ row ∈ rows, BeforeEnd row.ts row.slotEnd

theorem covers_sliceOf (key : (Nat × Nat) × Nat) (nonempty : rows ≠ [])
    (forward : Forward rows) (t : Nat) :
    (sliceOf key rows).Covers t ↔
      (∃ row ∈ rows, row.ts ≤ t) ∧ ∃ row ∈ rows, BeforeEnd t row.slotEnd := by
  obtain ⟨⟨first, firstMem, firstTs⟩, least⟩ :=
    columnMin_spec (·.ts) nonempty
  have started : columnMin (·.ts) rows ≤ t ↔ ∃ row ∈ rows, row.ts ≤ t :=
    ⟨fun le => ⟨first, firstMem, firstTs.trans_le le⟩,
      fun ⟨row, member, le⟩ => (least row member).trans le⟩
  refine and_congr started ?_
  by_cases closed : ∀ row ∈ rows, row.slotEnd ≠ none
  · obtain ⟨last, ⟨row, member, rowEnd⟩, bound, dur⟩ :=
      sliceDur_closed nonempty closed
    have lastAfter := forward row member last rowEnd
    have firstBefore := least row member
    simp only [sliceOf, dur]
    constructor
    · rintro (impossible | before)
      · omega
      · refine ⟨row, member, fun e same => ?_⟩
        rw [rowEnd] at same
        cases same
        omega
    · rintro ⟨other, otherMem, before⟩
      obtain ⟨e, otherEnd⟩ :=
        Option.ne_none_iff_exists'.mp (closed other otherMem)
      have := before e otherEnd
      have := bound other otherMem e otherEnd
      omega
  · obtain ⟨row, member, noEnd⟩ : ∃ row ∈ rows, row.slotEnd = none := by
      simpa using closed
    have dur := sliceDur_open member noEnd
    constructor
    · refine fun _ => ⟨row, member, fun e same => ?_⟩
      rw [noEnd] at same
      cases same
    · exact fun _ => .inl dur

theorem inside_sliceOf (key outerKey : (Nat × Nat) × Nat)
    {outer : List SampleFrame} (nonempty : rows ≠ [])
    (forward : Forward outer)
    (within : ∀ row ∈ rows, ∃ other ∈ outer,
      other.ts = row.ts ∧ other.slotEnd = row.slotEnd) :
    (sliceOf key rows).Inside (sliceOf outerKey outer) := by
  have outerNonempty : outer ≠ [] := by
    obtain ⟨row, member⟩ := List.exists_mem_of_ne_nil rows nonempty
    obtain ⟨other, otherMem, _⟩ := within row member
    exact List.ne_nil_of_mem otherMem
  obtain ⟨⟨first, firstMem, firstTs⟩, earliest⟩ :=
    columnMin_spec (·.ts) nonempty
  obtain ⟨_, least⟩ := columnMin_spec (·.ts) outerNonempty
  have started : columnMin (·.ts) outer ≤ columnMin (·.ts) rows := by
    obtain ⟨other, otherMem, sameTs, _⟩ := within first firstMem
    rw [← firstTs, ← sameTs]
    exact least other otherMem
  refine ⟨started, ?_⟩
  by_cases outerClosed : ∀ row ∈ outer, row.slotEnd ≠ none
  · right
    have closed : ∀ row ∈ rows, row.slotEnd ≠ none := by
      intro row member
      obtain ⟨other, otherMem, _, sameEnd⟩ := within row member
      rw [← sameEnd]
      exact outerClosed other otherMem
    obtain ⟨last, ⟨row, member, rowEnd⟩, bound, dur⟩ :=
      sliceDur_closed nonempty closed
    obtain ⟨outerLast, _, outerBound, outerDur⟩ :=
      sliceDur_closed outerNonempty outerClosed
    obtain ⟨other, otherMem, sameTs, sameEnd⟩ := within row member
    have lastLe := outerBound other otherMem last (sameEnd.trans rowEnd)
    have after := forward other otherMem last (sameEnd.trans rowEnd)
    simp only [sliceOf, dur, outerDur]
    have := earliest row member
    omega
  · obtain ⟨row, member, noEnd⟩ : ∃ row ∈ outer, row.slotEnd = none := by
      simpa using outerClosed
    exact .inl (sliceDur_open member noEnd)

end

/-! ### Samples and the slices over them -/

section

variable {samples : List PrivSample}

theorem ts_before_slotEnd (s : PrivSample) :
    BeforeEnd s.ts (slotEnd samples s) := by
  intro e found
  obtain ⟨next, lead, rfl⟩ := Option.map_eq_some_iff.mp found
  exact (lead_eq_some lead).2.2.1

/-- A sample at or before a time in another's slot is not later than that. -/
theorem ts_le_of_beforeEnd {s other : PrivSample} {t : Nat}
    (before : BeforeEnd t (slotEnd samples s)) (member : other ∈ samples)
    (utid : other.utid = s.utid) (started : other.ts ≤ t) :
    other.ts ≤ s.ts := by
  by_contra later
  cases found : lead (·.utid) (·.ts) samples s with
  | none =>
      exact later (lead_eq_none_iff.mp found other member utid)
  | some next =>
      have first := (lead_eq_some found).2.2.2 other member utid (by omega)
      have := before next.ts (by rw [slotEnd, found, Option.map_some])
      omega

theorem exists_latest {u t : Nat}
    (started : ∃ s ∈ samples, s.utid = u ∧ s.ts ≤ t) :
    ∃ s ∈ samples, s.utid = u ∧ s.ts ≤ t ∧
      BeforeEnd t (slotEnd samples s) := by
  cases found : (samples.filter fun s => s.utid = u ∧ s.ts ≤ t).argmax
      (·.ts) with
  | none =>
      rw [List.argmax_eq_none, List.filter_eq_nil_iff] at found
      obtain ⟨s, member, here⟩ := started
      exact absurd (decide_eq_true here) (found s member)
  | some s =>
      obtain ⟨member, here⟩ := List.mem_filter.mp (List.argmax_mem found)
      obtain ⟨utid, before⟩ := of_decide_eq_true here
      refine ⟨s, member, utid, before, ?_⟩
      intro e slot
      obtain ⟨next, lead, rfl⟩ := Option.map_eq_some_iff.mp slot
      obtain ⟨nextMem, nextUtid, after, _⟩ := lead_eq_some lead
      by_contra late
      have latest : next.ts ≤ s.ts := List.le_of_mem_argmax
        (List.mem_filter.mpr ⟨nextMem,
          decide_eq_true ⟨nextUtid.trans utid, not_lt.mp late⟩⟩) found
      exact Nat.lt_irrefl _ (after.trans_le latest)

end

def groupRows (profile : Profile) (samples : List PrivSample)
    (row : SampleFrame) : List SampleFrame :=
  (perSampleFrame profile samples).filter fun other =>
    other.group (perSampleFrame profile samples) =
      row.group (perSampleFrame profile samples)

def sliceAt (profile : Profile) (samples : List PrivSample)
    (row : SampleFrame) : StackSlice :=
  sliceOf (row.group (perSampleFrame profile samples))
    (groupRows profile samples row)

section

variable {profile : Profile} {samples : List PrivSample}

theorem groupRows_forward (row : SampleFrame) :
    Forward (groupRows profile samples row) := by
  intro other member
  obtain ⟨s, _, _, _, _, rfl⟩ :=
    mem_perSampleFrame.mp (List.mem_filter.mp member).1
  exact ts_before_slotEnd s

theorem groupRows_self {row : SampleFrame}
    (member : row ∈ perSampleFrame profile samples) :
    row ∈ groupRows profile samples row :=
  List.mem_filter.mpr ⟨member, decide_eq_true rfl⟩

theorem mem_groupRows (distinct : TimesDistinct samples) {s : PrivSample}
    (sMem : s ∈ samples) {depth callsite : Nat}
    (here : HasFrame profile s depth callsite) {row : SampleFrame} :
    row ∈ groupRows profile samples (rowAt profile samples s depth callsite) ↔
      ∃ other ∈ samples, other.utid = s.utid ∧
        HasFrame profile other depth callsite ∧
        row = rowAt profile samples other depth callsite ∧
        (rowAt profile samples other depth callsite).runId
            (perSampleFrame profile samples) =
          (rowAt profile samples s depth callsite).runId
            (perSampleFrame profile samples) := by
  constructor
  · intro member
    obtain ⟨rowMem, group⟩ := List.mem_filter.mp member
    obtain ⟨other, otherMem, depth', callsite', frame, rfl⟩ :=
      mem_perSampleFrame.mp rowMem
    obtain ⟨lane, run⟩ := Prod.mk.inj (of_decide_eq_true group)
    obtain ⟨utid, sameDepth⟩ := Prod.mk.inj lane
    have depthEq : depth' = depth := sameDepth
    have sUtid : other.utid = s.utid := utid
    subst depthEq
    -- The earlier of the two has its callsite at the later's place too.
    have sameCallsite : callsite' = callsite := by
      rcases Nat.le_total other.ts s.ts with le | le
      · have filled := (runId_eq_iff_between distinct otherMem sMem sUtid le
          frame here).mp run
        obtain ⟨at_, atMem, atUtid, place, atFrame⟩ :=
          filled _ ((sampleIdx_le_iff distinct otherMem sMem sUtid).mpr le)
            (Nat.le_refl _)
        have same := sampleIdx_inj distinct atMem sMem (atUtid.trans sUtid)
          place
        subst same
        exact atFrame.unique here
      · have filled := (runId_eq_iff_between distinct sMem otherMem
          sUtid.symm le here frame).mp run.symm
        obtain ⟨at_, atMem, atUtid, place, atFrame⟩ :=
          filled _ ((sampleIdx_le_iff distinct sMem otherMem
            sUtid.symm).mpr le) (Nat.le_refl _)
        have same := sampleIdx_inj distinct atMem otherMem
          (atUtid.trans sUtid.symm) place
        subst same
        exact frame.unique atFrame
    subst sameCallsite
    exact ⟨other, otherMem, sUtid, frame, rfl, run⟩
  · rintro ⟨other, otherMem, utid, frame, rfl, run⟩
    refine List.mem_filter.mpr ⟨rowAt_mem otherMem frame, decide_eq_true ?_⟩
    exact Prod.ext (congrArg (·, depth) utid) run

theorem covers_sliceAt (distinct : TimesDistinct samples)
    {first s : PrivSample} (firstMem : first ∈ samples) (sMem : s ∈ samples)
    (utid : s.utid = first.utid) {depth callsite : Nat}
    (here : HasFrame profile first depth callsite) {t : Nat}
    (after : s.ts ≤ t) (before : BeforeEnd t (slotEnd samples s)) :
    (sliceAt profile samples
        (rowAt profile samples first depth callsite)).Covers t ↔
      HasFrame profile s depth callsite ∧
        (rowAt profile samples s depth callsite).runId
            (perSampleFrame profile samples) =
          (rowAt profile samples first depth callsite).runId
            (perSampleFrame profile samples) := by
  have self := groupRows_self (rowAt_mem firstMem here)
  unfold sliceAt
  rw [covers_sliceOf _ (List.ne_nil_of_mem self) (groupRows_forward _)]
  constructor
  · rintro ⟨⟨row, rowMem, started⟩, row', rowMem', notEnded⟩
    obtain ⟨a, aMem, aUtid, aFrame, rfl, aRun⟩ :=
      (mem_groupRows distinct firstMem here).mp rowMem
    obtain ⟨b, bMem, bUtid, bFrame, rfl, bRun⟩ :=
      (mem_groupRows distinct firstMem here).mp rowMem'
    have aLe : a.ts ≤ s.ts := ts_le_of_beforeEnd before aMem
      (aUtid.trans utid.symm) started
    have bLe : s.ts ≤ b.ts := ts_le_of_beforeEnd notEnded sMem
      (utid.trans bUtid.symm) after
    have aPlace := (sampleIdx_le_iff distinct aMem sMem
      (aUtid.trans utid.symm)).mpr aLe
    have bPlace := (sampleIdx_le_iff distinct sMem bMem
      (utid.trans bUtid.symm)).mpr bLe
    have filled := (runId_eq_iff_between distinct aMem bMem
      (aUtid.trans bUtid.symm) (aLe.trans bLe) aFrame bFrame).mp
        (aRun.trans bRun.symm)
    obtain ⟨at_, atMem, atUtid, place, atFrame⟩ := filled _ aPlace bPlace
    have same := sampleIdx_inj distinct atMem sMem
      (atUtid.trans (aUtid.trans utid.symm)) place
    subst same
    refine ⟨atFrame, Eq.trans (Eq.symm ?_) aRun⟩
    apply (runId_eq_iff_between distinct aMem sMem (aUtid.trans utid.symm)
      aLe aFrame atFrame).mpr
    intro place from_ upTo
    exact filled place from_ (upTo.trans bPlace)
  · rintro ⟨frame, run⟩
    have member : rowAt profile samples s depth callsite ∈
        groupRows profile samples
          (rowAt profile samples first depth callsite) :=
      (mem_groupRows distinct firstMem here).mpr
        ⟨s, sMem, utid, frame, rfl, run⟩
    exact ⟨⟨_, member, after⟩, _, member, before⟩

/-- Slices of one depth of a thread that cover one time are the same. -/
theorem group_eq_of_covers (distinct : TimesDistinct samples)
    {first second : SampleFrame}
    (firstMem : first ∈ perSampleFrame profile samples)
    (secondMem : second ∈ perSampleFrame profile samples)
    (lane : first.lane = second.lane) {t : Nat}
    (firstCovers : (sliceAt profile samples first).Covers t)
    (secondCovers : (sliceAt profile samples second).Covers t) :
    first.group (perSampleFrame profile samples) =
      second.group (perSampleFrame profile samples) := by
  have started := firstCovers
  unfold sliceAt at started
  rw [covers_sliceOf _ (List.ne_nil_of_mem (groupRows_self firstMem))
    (groupRows_forward _)] at started
  obtain ⟨⟨row, rowMem, rowTs⟩, _⟩ := started
  obtain ⟨a, aMem, depth, callsite, aFrame, rfl⟩ :=
    mem_perSampleFrame.mp firstMem
  obtain ⟨b, bMem, depth', callsite', bFrame, rfl⟩ :=
    mem_perSampleFrame.mp secondMem
  obtain ⟨utid, sameDepth⟩ := Prod.mk.inj lane
  have depthEq : depth = depth' := sameDepth
  have abUtid : a.utid = b.utid := utid
  subst depthEq
  obtain ⟨other, otherMem, otherUtid, _, rfl, _⟩ :=
    (mem_groupRows distinct aMem aFrame).mp rowMem
  obtain ⟨s, sMem, sUtid, sTs, before⟩ :=
    exists_latest ⟨other, otherMem, otherUtid, rowTs⟩
  obtain ⟨frame, run⟩ := (covers_sliceAt distinct aMem sMem sUtid aFrame sTs
    before).mp firstCovers
  obtain ⟨frame', run'⟩ := (covers_sliceAt distinct bMem sMem
    (sUtid.trans abUtid) bFrame sTs before).mp secondCovers
  have same := frame.unique frame'
  subst same
  exact Prod.ext lane (run.symm.trans run')

theorem sliceAt_inside (distinct : TimesDistinct samples) {s : PrivSample}
    (sMem : s ∈ samples) {depth callsite parent : Nat}
    (here : HasFrame profile s (depth + 1) callsite)
    (above : HasFrame profile s depth parent)
    (link : profile.callsites.parentId callsite = some parent) :
    (sliceAt profile samples
        (rowAt profile samples s (depth + 1) callsite)).Inside
      (sliceAt profile samples (rowAt profile samples s depth parent)) := by
  -- A sample with the callsite has the parent above it.
  have parents : ∀ other, HasFrame profile other (depth + 1) callsite →
      HasFrame profile other depth parent := by
    intro other frame
    obtain ⟨parent', frame', link'⟩ :=
      profile.callsites.rootFirst_parent frame
    rw [link] at link'
    cases link'
    exact frame'
  have ordered : ∀ a ∈ samples, ∀ b ∈ samples, a.utid = b.utid →
      a.ts ≤ b.ts →
      ∀ aFrame : HasFrame profile a (depth + 1) callsite,
      ∀ bFrame : HasFrame profile b (depth + 1) callsite,
      (rowAt profile samples a (depth + 1) callsite).runId
          (perSampleFrame profile samples) =
        (rowAt profile samples b (depth + 1) callsite).runId
          (perSampleFrame profile samples) →
      (rowAt profile samples a depth parent).runId
          (perSampleFrame profile samples) =
        (rowAt profile samples b depth parent).runId
          (perSampleFrame profile samples) := by
    intro a aMem b bMem utid le aFrame bFrame run
    apply (runId_eq_iff_between distinct aMem bMem utid le (parents a aFrame)
      (parents b bFrame)).mpr
    intro place from_ upTo
    obtain ⟨at_, atMem, atUtid, atPlace, atFrame⟩ :=
      (runId_eq_iff_between distinct aMem bMem utid le aFrame bFrame).mp run
        place from_ upTo
    exact ⟨at_, atMem, atUtid, atPlace, parents at_ atFrame⟩
  apply inside_sliceOf
  · exact List.ne_nil_of_mem (groupRows_self (rowAt_mem sMem here))
  · exact groupRows_forward _
  · intro row rowMem
    obtain ⟨other, otherMem, utid, frame, rfl, run⟩ :=
      (mem_groupRows distinct sMem here).mp rowMem
    refine ⟨rowAt profile samples other depth parent,
      (mem_groupRows distinct sMem above).mpr ⟨other, otherMem, utid,
        parents other frame, rfl, ?_⟩, rfl, rfl⟩
    rcases Nat.le_total other.ts s.ts with le | le
    · exact ordered other otherMem s sMem utid le frame here run
    · exact (ordered s sMem other otherMem utid.symm le here frame
        run.symm).symm

end

end Sismo.Views
