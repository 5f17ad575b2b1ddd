import Sismo.Views.StackTimeline

namespace Sismo.Views

/-! The stack timeline as the run-length encoding of the samples. -/

/-! ### Ancestors -/

namespace Callsites

variable (callsites : Callsites)

def rootFirst (leaf : Nat) : List Nat :=
  (callsites.ancestors leaf).reverse

theorem rootFirst_none {leaf : Nat} (root : callsites.parentId leaf = none) :
    callsites.rootFirst leaf = [leaf] := by
  rw [rootFirst, ancestors]
  split
  · rfl
  · next parent found =>
      rw [root] at found
      cases found

theorem rootFirst_some {leaf parent : Nat}
    (found : callsites.parentId leaf = some parent) :
    callsites.rootFirst leaf = callsites.rootFirst parent ++ [leaf] := by
  rw [rootFirst, ancestors]
  split
  · next root =>
      rw [root] at found
      cases found
  · next other same =>
      rw [found] at same
      cases same
      rw [List.reverse_cons]
      rfl

/-- The last callsite of a stack is its leaf. -/
theorem rootFirst_last (leaf : Nat) :
    (callsites.rootFirst leaf)[(callsites.rootFirst leaf).length - 1]? =
      some leaf := by
  cases found : callsites.parentId leaf with
  | none => simp [callsites.rootFirst_none found]
  | some parent => simp [callsites.rootFirst_some found]

theorem rootFirst_parent {leaf depth callsite : Nat}
    (found : (callsites.rootFirst leaf)[depth + 1]? = some callsite) :
    ∃ parent, (callsites.rootFirst leaf)[depth]? = some parent ∧
      callsites.parentId callsite = some parent := by
  fun_induction callsites.ancestors leaf with
  | case1 leaf induction =>
      cases above : callsites.parentId leaf with
      | none =>
          rw [callsites.rootFirst_none above] at found
          cases found
      | some parent =>
          rw [callsites.rootFirst_some above] at found ⊢
          rcases Nat.lt_trichotomy (depth + 1)
            (callsites.rootFirst parent).length with inside | last | beyond
          · rw [List.getElem?_append_left inside] at found
            rw [List.getElem?_append_left (by omega)]
            exact induction parent above found
          · rw [List.getElem?_append_right (by omega), last,
              Nat.sub_self] at found
            cases found
            refine ⟨parent, ?_, above⟩
            rw [List.getElem?_append_left (by omega)]
            have top := callsites.rootFirst_last parent
            rwa [← last, Nat.add_sub_cancel] at top
          · rw [List.getElem?_eq_none (by
              rw [List.length_append, List.length_singleton]
              omega)] at found
            cases found

theorem foldr_max_range' (start count : Nat) :
    (List.range' start (count + 1)).foldr max 0 = start + count := by
  induction count generalizing start with
  | zero => simp
  | succ count induction =>
      rw [List.range'_succ, List.foldr_cons, induction]
      omega

theorem mem_framesOf {leaf : Nat} {frame : FrameAt} :
    frame ∈ callsites.framesOf leaf ↔
      (callsites.rootFirst leaf)[frame.depth]? = some frame.callsiteAtDepth ∧
        frame.frameId = callsites.frameId frame.callsiteAtDepth := by
  have count : (callsites.ancestors leaf).length =
      (callsites.ancestors leaf).length - 1 + 1 := by
    rw [ancestors]
    rfl
  have md : (((callsites.ancestors leaf).zipIdx).map fun a => a.2).foldr max 0 =
      (callsites.ancestors leaf).length - 1 := by
    have indices : ((callsites.ancestors leaf).zipIdx).map (fun a => a.2) =
        List.range' 0 (callsites.ancestors leaf).length :=
      List.zipIdx_map_snd 0 _
    rw [indices, count, foldr_max_range', Nat.zero_add]
    rfl
  unfold framesOf rootFirst
  dsimp only
  rw [md, List.mem_map]
  constructor
  · rintro ⟨⟨current, i⟩, member, rfl⟩
    have here := List.mem_zipIdx_iff_getElem?.mp member
    dsimp only at here ⊢
    have inside := (List.getElem?_eq_some_iff.mp here).1
    refine ⟨?_, rfl⟩
    rw [List.getElem?_reverse (by omega), ← here]
    congr 1
    omega
  · rintro ⟨here, frameId⟩
    have inside := (List.getElem?_eq_some_iff.mp here).1
    rw [List.length_reverse] at inside
    rw [List.getElem?_reverse inside] at here
    refine ⟨(frame.callsiteAtDepth,
      (callsites.ancestors leaf).length - 1 - frame.depth),
      List.mem_zipIdx_iff_getElem?.mpr here, ?_⟩
    have depth : (callsites.ancestors leaf).length - 1 -
        ((callsites.ancestors leaf).length - 1 - frame.depth) =
          frame.depth := by omega
    dsimp only
    rw [depth, ← frameId]

end Callsites

/-! ### The rows of the samples -/

def TimesDistinct (samples : List PrivSample) : Prop :=
  samples.Pairwise fun first second =>
    first.utid = second.utid → first.ts ≠ second.ts

section

variable {profile : Profile} {samples : List PrivSample}

theorem TimesDistinct.eq (distinct : TimesDistinct samples)
    {first second : PrivSample} (firstMem : first ∈ samples)
    (secondMem : second ∈ samples) (utid : first.utid = second.utid)
    (ts : first.ts = second.ts) : first = second := by
  by_contra different
  have symmetric : Std.Symm fun first second : PrivSample =>
      first.utid = second.utid → first.ts ≠ second.ts :=
    ⟨fun _ _ apart utid ts => apart utid.symm ts.symm⟩
  exact List.Pairwise.forall distinct firstMem secondMem different utid ts

theorem sampleIdx_lt {first second : PrivSample} (member : first ∈ samples)
    (utid : first.utid = second.utid) (before : first.ts < second.ts) :
    sampleIdx samples first < sampleIdx samples second :=
  rowNumber_lt member utid before

/-- The places of a thread's samples are in the order of their times. -/
theorem sampleIdx_le_iff (distinct : TimesDistinct samples)
    {first second : PrivSample} (firstMem : first ∈ samples)
    (secondMem : second ∈ samples) (utid : first.utid = second.utid) :
    sampleIdx samples first ≤ sampleIdx samples second ↔
      first.ts ≤ second.ts := by
  rcases Nat.lt_trichotomy first.ts second.ts with before | same | after
  · have := sampleIdx_lt firstMem utid before
    omega
  · rw [distinct.eq firstMem secondMem utid same]
    simp
  · have := sampleIdx_lt secondMem utid.symm after
    omega

theorem sampleIdx_inj (distinct : TimesDistinct samples)
    {first second : PrivSample} (firstMem : first ∈ samples)
    (secondMem : second ∈ samples) (utid : first.utid = second.utid)
    (same : sampleIdx samples first = sampleIdx samples second) :
    first = second := by
  have le := (sampleIdx_le_iff distinct firstMem secondMem utid).mp same.le
  have ge := (sampleIdx_le_iff distinct secondMem firstMem utid.symm).mp
    same.ge
  exact distinct.eq firstMem secondMem utid (Nat.le_antisymm le ge)

def HasFrame (profile : Profile) (s : PrivSample) (depth callsite : Nat) :
    Prop :=
  (profile.callsites.rootFirst s.callsiteId)[depth]? = some callsite

theorem HasFrame.unique {s : PrivSample} {depth first second : Nat}
    (left : HasFrame profile s depth first)
    (right : HasFrame profile s depth second) : first = second :=
  Option.some.inj (left.symm.trans right)

def rowAt (profile : Profile) (samples : List PrivSample) (s : PrivSample)
    (depth callsite : Nat) : SampleFrame :=
  sampleFrame profile samples s
    ⟨depth, callsite, profile.callsites.frameId callsite⟩

theorem mem_perSampleFrame {row : SampleFrame} :
    row ∈ perSampleFrame profile samples ↔
      ∃ s ∈ samples, ∃ depth callsite, HasFrame profile s depth callsite ∧
        row = rowAt profile samples s depth callsite := by
  unfold perSampleFrame sampleFrames
  simp only [List.mem_flatMap, List.mem_map]
  constructor
  · rintro ⟨s, member, frame, frameMem, rfl⟩
    obtain ⟨here, frameId⟩ := (profile.callsites.mem_framesOf).mp frameMem
    refine ⟨s, member, frame.depth, frame.callsiteAtDepth, here, ?_⟩
    rw [rowAt, ← frameId]
  · rintro ⟨s, member, depth, callsite, here, rfl⟩
    exact ⟨s, member, ⟨depth, callsite, profile.callsites.frameId callsite⟩,
      (profile.callsites.mem_framesOf).mpr ⟨here, rfl⟩, rfl⟩

theorem rowAt_mem {s : PrivSample} (member : s ∈ samples)
    {depth callsite : Nat} (here : HasFrame profile s depth callsite) :
    rowAt profile samples s depth callsite ∈
      perSampleFrame profile samples :=
  mem_perSampleFrame.mpr ⟨s, member, depth, callsite, here, rfl⟩

variable (profile) in
theorem row_unique (distinct : TimesDistinct samples) :
    ∀ first ∈ perSampleFrame profile samples,
      ∀ second ∈ perSampleFrame profile samples,
        first.lane = second.lane → first.sampleIdx = second.sampleIdx →
        first = second := by
  intro first firstMem second secondMem lane place
  obtain ⟨s, sMem, depth, callsite, here, rfl⟩ :=
    mem_perSampleFrame.mp firstMem
  obtain ⟨s', sMem', depth', callsite', here', rfl⟩ :=
    mem_perSampleFrame.mp secondMem
  obtain ⟨utid, sameDepth⟩ := Prod.mk.inj lane
  have depthEq : depth = depth' := sameDepth
  have same := sampleIdx_inj distinct sMem sMem' utid place
  subst same depthEq
  rw [here.unique here']

theorem runId_eq_iff_between (distinct : TimesDistinct samples)
    {first second : PrivSample} (firstMem : first ∈ samples)
    (secondMem : second ∈ samples) (utid : first.utid = second.utid)
    (le : first.ts ≤ second.ts) {depth callsite other : Nat}
    (firstFrame : HasFrame profile first depth callsite)
    (secondFrame : HasFrame profile second depth other) :
    let rows := perSampleFrame profile samples
    (rowAt profile samples first depth callsite).runId rows =
        (rowAt profile samples second depth other).runId rows ↔
      ∀ place, sampleIdx samples first ≤ place →
        place ≤ sampleIdx samples second →
        ∃ s ∈ samples, s.utid = first.utid ∧ sampleIdx samples s = place ∧
          HasFrame profile s depth callsite := by
  have order := (sampleIdx_le_iff distinct firstMem secondMem utid).mpr le
  have lane : (rowAt profile samples first depth callsite).lane =
      (rowAt profile samples second depth other).lane :=
    congrArg (·, depth) utid
  have iff := Sismo.runId_eq_iff (·.frame.callsiteAtDepth)
    (row_unique profile distinct) (rowAt_mem firstMem firstFrame)
    (rowAt_mem secondMem secondFrame) lane order
  refine iff.trans (forall_congr' fun place => forall_congr' fun _ =>
    forall_congr' fun _ => ?_)
  constructor
  · rintro ⟨row, member, rowLane, rowPlace, value⟩
    obtain ⟨s, sMem, depth', callsite', here, rfl⟩ :=
      mem_perSampleFrame.mp member
    obtain ⟨sUtid, rfl⟩ := Prod.mk.inj rowLane
    cases value
    exact ⟨s, sMem, sUtid, rowPlace, here⟩
  · rintro ⟨s, sMem, sUtid, sPlace, here⟩
    exact ⟨rowAt profile samples s depth callsite, rowAt_mem sMem here,
      congrArg (·, depth) sUtid, sPlace, rfl⟩

end

end Sismo.Views
