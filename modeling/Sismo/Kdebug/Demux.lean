import Sismo.Kdebug.ThreadView

namespace Sismo.Kdebug

/-! The groups of records kperf writes for its samples, and which samples the
two consumers make of an interleaving of them. -/

def KdEvent.From (e : KdEvent) (tid : UInt64) (cpu : UInt32) : Prop :=
  e.OfThread tid ∧ e.cpuid = cpu

structure StackRecords (tid : UInt64) (cpu header data : UInt32) where
  head : KdEvent
  chunks : List KdEvent
  isHeader : head.From tid cpu ∧ head.Is perfCallstack header
  isData : ∀ e ∈ chunks, e.From tid cpu ∧ e.Is perfCallstack data
  fits : head.arg2.toNat ≤ maxFrames
  filled : chunks.length = (head.arg2.toNat + 3) / 4

namespace StackRecords

variable {tid : UInt64} {cpu header data : UInt32}

def records (stack : StackRecords tid cpu header data) : List KdEvent :=
  stack.head :: stack.chunks

/-- The last record is padded. -/
def frames (stack : StackRecords tid cpu header data) : List UInt64 :=
  (stack.chunks.flatMap KdEvent.pcs).take stack.head.arg2.toNat

end StackRecords

structure Group (tid : UInt64) where
  cpu : UInt32
  kind : Trigger
  trigger : KdEvent
  info : KdEvent
  kernel : Option (StackRecords tid cpu perfCsKhdr perfCsKdata)
  user : Option (StackRecords tid cpu perfCsUhdr perfCsUdata)
  isTrigger : trigger.From tid cpu ∧ trigger.IsTrigger kind
  isInfo : info.From tid cpu ∧ info.Is perfThreadinfo perfTiData

namespace Group

variable {tid : UInt64}

def records (g : Group tid) : List KdEvent :=
  g.trigger :: g.info ::
    ((g.kernel.map StackRecords.records).getD [] ++
      (g.user.map StackRecords.records).getD [])

def kernelFrames (g : Group tid) : List UInt64 :=
  (g.kernel.map StackRecords.frames).getD []

def userFrames (g : Group tid) : List UInt64 :=
  (g.user.map StackRecords.frames).getD []

def CarriesStack (g : Group tid) : Prop :=
  g.userFrames ≠ [] ∨ g.kernelFrames ≠ []

instance (g : Group tid) : Decidable g.CarriesStack :=
  inferInstanceAs (Decidable (_ ∨ _))

def sample (g : Group tid) : DecodedStack :=
  ⟨g.info.arg1, tid, g.cpu, g.trigger.timestamp, g.userFrames,
    g.kernelFrames⟩

end Group

/-- A stream in which the records of each thread are those of its groups. -/
def Interleaves (groups : (tid : UInt64) → List (Group tid))
    (stream : List KdEvent) : Prop :=
  ∀ tid, threadRecords tid stream = (groups tid).flatMap Group.records

/-- Each consumer has one sample for each group of its own trigger that carries
a stack, with the group's own frames. -/
def Demuxed (ticksToNs : UInt64 → UInt64)
    (groups : (tid : UInt64) → List (Group tid)) (stream : List KdEvent) :
    Prop :=
  ∀ tid,
    ((OnCpuConsumer.onDrain {} stream).2.filter fun s => s.tid = tid) =
      ((groups tid).filter fun g => g.kind = .timer ∧ g.CarriesStack).map
        Group.sample ∧
    ((OffCpuConsumer.onDrain ticksToNs {} stream).2.filter
        fun s => s.1.tid = tid) =
      ((groups tid).filter fun g => g.kind = .wait ∧ g.CarriesStack).map
        fun g => (g.sample, ticksToNs g.trigger.arg1)

/-- A timer group with kernel frames has user frames, a wait group has no
kernel frames, and user frames never come while the last trigger of the other
kind has gone without.  The flags say which triggers have. -/
def Clean {tid : UInt64} (fire wait : Bool) : List (Group tid) → Prop
  | [] => True
  | g :: rest =>
      match g.kind with
      | .timer =>
          (g.kernelFrames ≠ [] → g.userFrames ≠ []) ∧
            (g.userFrames ≠ [] → wait = false) ∧
            Clean (g.userFrames = []) wait rest
      | .wait =>
          g.kernelFrames = [] ∧ (g.userFrames ≠ [] → fire = false) ∧
            Clean fire (g.userFrames = []) rest

/-! ### Which record is which -/

theorem KdEvent.Is.code_ne {e : KdEvent} {subclass code other code' : UInt32}
    (is : e.Is subclass code) (apart : (subclass, code) ≠ (other, code')) :
    ¬e.Is other code' := by
  rintro ⟨same, sameCode⟩
  exact apart (Prod.ext (is.1.symm.trans same) (is.2.symm.trans sameCode))

theorem KdEvent.Is.not_isTrigger {e : KdEvent} {subclass code : UInt32}
    (is : e.Is subclass code) (timer : subclass ≠ perfTimer)
    (lazy : subclass ≠ perfLazy) (kind : Trigger) : ¬e.IsTrigger kind := by
  cases kind with
  | timer => exact fun trigger => timer (is.1.symm.trans trigger.1)
  | wait => exact fun trigger => lazy (is.1.symm.trans trigger.1)

section

variable {τ : Type} {sampler : Sampler τ} {v : ThreadView τ} {e : KdEvent}

namespace ThreadView

theorem step_info (is : e.Is perfThreadinfo perfTiData) :
    v.step sampler e = ({ v with pid := some e.arg1 }, none) := by
  rw [step, if_neg (is.not_isTrigger (by decide) (by decide) _), if_pos is]

theorem step_khdr (is : e.Is perfCallstack perfCsKhdr) :
    v.step sampler e =
      (if sampler.kernel then
        { v with buildingKernel := some (opened e.arg2) } else v, none) := by
  rw [step, if_neg (is.not_isTrigger (by decide) (by decide) _),
    if_neg (is.code_ne (by decide))]
  have uhdr : ¬e.Is perfCallstack perfCsUhdr := is.code_ne (by decide)
  have udata : ¬e.Is perfCallstack perfCsUdata := is.code_ne (by decide)
  have kdata : ¬e.Is perfCallstack perfCsKdata := is.code_ne (by decide)
  cases sampler.kernel <;> simp [is, uhdr, udata, kdata]

theorem step_kdata (is : e.Is perfCallstack perfCsKdata) :
    v.step sampler e =
      (if sampler.kernel then v.kernelData e else v, none) := by
  rw [step, if_neg (is.not_isTrigger (by decide) (by decide) _),
    if_neg (is.code_ne (by decide))]
  have uhdr : ¬e.Is perfCallstack perfCsUhdr := is.code_ne (by decide)
  have udata : ¬e.Is perfCallstack perfCsUdata := is.code_ne (by decide)
  have khdr : ¬e.Is perfCallstack perfCsKhdr := is.code_ne (by decide)
  cases sampler.kernel <;> simp [is, uhdr, udata, khdr]

theorem step_uhdr (is : e.Is perfCallstack perfCsUhdr) :
    v.step sampler e =
      ({ v with building := some (opened e.arg2) }, none) := by
  rw [step, if_neg (is.not_isTrigger (by decide) (by decide) _),
    if_neg (is.code_ne (by decide)),
    if_neg fun both => is.code_ne (by decide) both.2,
    if_neg fun both => is.code_ne (by decide) both.2, if_pos is]

theorem step_udata (is : e.Is perfCallstack perfCsUdata) :
    v.step sampler e = v.userData e := by
  rw [step, if_neg (is.not_isTrigger (by decide) (by decide) _),
    if_neg (is.code_ne (by decide)),
    if_neg fun both => is.code_ne (by decide) both.2,
    if_neg fun both => is.code_ne (by decide) both.2,
    if_neg (is.code_ne (by decide)), if_pos is]

theorem IsTrigger_unique {kind other : Trigger} (is : e.IsTrigger kind)
    (apart : kind ≠ other) : ¬e.IsTrigger other := by
  cases kind <;> cases other
  · exact absurd rfl apart
  · exact is.code_ne (by decide)
  · exact is.code_ne (by decide)
  · exact absurd rfl apart

theorem step_trigger {kind : Trigger} (is : e.IsTrigger kind) :
    v.step sampler e =
      (if kind = sampler.own then
        { v with pending := some (sampler.value e) } else v, none) := by
  unfold step
  by_cases own : kind = sampler.own
  · rw [if_pos (own ▸ is), if_pos own]
  · rw [if_neg (IsTrigger_unique is own), if_neg own]
    cases kind with
    | timer =>
        rw [if_neg (is.code_ne (by decide)),
          if_neg fun both => is.code_ne (by decide) both.2,
          if_neg fun both => is.code_ne (by decide) both.2,
          if_neg (is.code_ne (by decide)), if_neg (is.code_ne (by decide))]
    | wait =>
        rw [if_neg (is.code_ne (by decide)),
          if_neg fun both => is.code_ne (by decide) both.2,
          if_neg fun both => is.code_ne (by decide) both.2,
          if_neg (is.code_ne (by decide)), if_neg (is.code_ne (by decide))]

end ThreadView

end

/-! ### A stack -/

theorem pushPcs_eq (p : PendingStack) (pcs : List UInt64)
    (room : p.frames.length ≤ p.want) :
    pushPcs p pcs = ⟨p.want, (p.frames ++ pcs).take p.want⟩ := by
  induction pcs generalizing p with
  | nil => simp [pushPcs, List.take_of_length_le room]
  | cons pc rest induction =>
      have pushed : pushPcs p (pc :: rest) = pushPcs
          (if p.frames.length < p.want then
            { p with frames := p.frames ++ [pc] } else p) rest := rfl
      rw [pushed]
      split
      · next short =>
          rw [induction _ (by rw [List.length_append]; exact short)]
          simp
      · next full =>
          rw [induction _ room]
          have length : p.frames.length = p.want := by omega
          rw [← length, List.take_left, List.take_left]

theorem feed_short {n : Nat} {fs pcs : List UInt64}
    (short : (fs ++ pcs).length < n) :
    feed (some ⟨n, fs⟩) pcs = (some ⟨n, fs ++ pcs⟩, none) := by
  have room : fs.length ≤ n := by
    rw [List.length_append] at short
    omega
  simp only [feed, pushPcs_eq ⟨n, fs⟩ pcs room,
    List.take_of_length_le short.le, if_pos short]

theorem feed_last {n : Nat} {fs pcs : List UInt64} (room : fs.length ≤ n)
    (enough : n ≤ (fs ++ pcs).length) :
    feed (some ⟨n, fs⟩) pcs = (none, some ((fs ++ pcs).take n)) := by
  have length : ((fs ++ pcs).take n).length = n := by
    rw [List.length_take]
    omega
  simp only [feed, pushPcs_eq ⟨n, fs⟩ pcs room, length, lt_irrefl, if_false]

section

variable {τ : Type} {sampler : Sampler τ} {v : ThreadView τ} {tid : UInt64}
  {cpu : UInt32}

theorem length_pcs (e : KdEvent) : e.pcs.length = 4 := rfl

/-- The data records of a user stack complete it with the last one. -/
theorem run_udata {chunks : List KdEvent} {n : Nat} {fs : List UInt64}
    (isData : ∀ e ∈ chunks,
      e.From tid cpu ∧ e.Is perfCallstack perfCsUdata)
    (building : v.building = some ⟨n, fs⟩) (short : fs.length < n)
    (needed : fs.length + 4 * chunks.length < n + 4)
    (enough : n ≤ fs.length + 4 * chunks.length) :
    v.run sampler chunks =
      ((({ v with building := none } : ThreadView τ).complete tid cpu
          ((fs ++ chunks.flatMap KdEvent.pcs).take n)).1,
        (({ v with building := none } : ThreadView τ).complete tid cpu
          ((fs ++ chunks.flatMap KdEvent.pcs).take n)).2.toList) := by
  induction chunks generalizing v fs with
  | nil =>
      simp only [List.length_nil] at enough
      omega
  | cons e rest induction =>
      obtain ⟨⟨⟨_, here⟩, onCpu⟩, is⟩ := isData e List.mem_cons_self
      have joined : fs ++ (e :: rest).flatMap KdEvent.pcs =
          (fs ++ e.pcs) ++ rest.flatMap KdEvent.pcs := by simp
      rw [List.length_cons] at needed enough
      rw [ThreadView.run, ThreadView.step_udata is, ThreadView.userData,
        building, here, onCpu]
      rcases Nat.lt_or_ge (fs ++ e.pcs).length n with more | last
      · rw [feed_short more]
        rw [List.length_append, length_pcs] at more
        have later := induction
          (v := { v with building := some ⟨n, fs ++ e.pcs⟩ })
          (fun other member => isData other (List.mem_cons_of_mem e member))
          rfl (by rw [List.length_append, length_pcs]; omega)
          (by rw [List.length_append, length_pcs]; omega)
          (by rw [List.length_append, length_pcs]; omega)
        rw [joined]
        dsimp only
        rw [later]
        rfl
      · rw [feed_last short.le last]
        rw [List.length_append, length_pcs] at last
        have none : rest = [] := List.length_eq_zero_iff.mp (by omega)
        subst none
        simp [ThreadView.run]

theorem run_kdata {chunks : List KdEvent} {n : Nat} {fs : List UInt64}
    (reads : sampler.kernel = true)
    (isData : ∀ e ∈ chunks,
      e.From tid cpu ∧ e.Is perfCallstack perfCsKdata)
    (building : v.buildingKernel = some ⟨n, fs⟩) (short : fs.length < n)
    (needed : fs.length + 4 * chunks.length < n + 4)
    (enough : n ≤ fs.length + 4 * chunks.length) :
    v.run sampler chunks =
      ({ v with
        buildingKernel := none
        kernelDone := some ((fs ++ chunks.flatMap KdEvent.pcs).take n) },
        []) := by
  induction chunks generalizing v fs with
  | nil =>
      simp only [List.length_nil] at enough
      omega
  | cons e rest induction =>
      obtain ⟨_, is⟩ := isData e List.mem_cons_self
      have joined : fs ++ (e :: rest).flatMap KdEvent.pcs =
          (fs ++ e.pcs) ++ rest.flatMap KdEvent.pcs := by simp
      rw [List.length_cons] at needed enough
      rw [ThreadView.run, ThreadView.step_kdata is, if_pos reads,
        ThreadView.kernelData, building]
      rcases Nat.lt_or_ge (fs ++ e.pcs).length n with more | last
      · rw [feed_short more]
        rw [List.length_append, length_pcs] at more
        have later := induction
          (v := { v with buildingKernel := some ⟨n, fs ++ e.pcs⟩ })
          (fun other member => isData other (List.mem_cons_of_mem e member))
          rfl (by rw [List.length_append, length_pcs]; omega)
          (by rw [List.length_append, length_pcs]; omega)
          (by rw [List.length_append, length_pcs]; omega)
        rw [joined]
        dsimp only
        rw [later]
        rfl
      · rw [feed_last short.le last]
        rw [List.length_append, length_pcs] at last
        have none : rest = [] := List.length_eq_zero_iff.mp (by omega)
        subst none
        simp [ThreadView.run]

theorem run_kdata_ignored {chunks : List KdEvent}
    (reads : sampler.kernel = false)
    (isData : ∀ e ∈ chunks,
      e.From tid cpu ∧ e.Is perfCallstack perfCsKdata) :
    v.run sampler chunks = (v, []) := by
  induction chunks with
  | nil => rfl
  | cons e rest induction =>
      obtain ⟨_, is⟩ := isData e List.mem_cons_self
      rw [ThreadView.run, ThreadView.step_kdata is, reads]
      simp [induction fun other member =>
        isData other (List.mem_cons_of_mem e member)]

namespace StackRecords

variable {header data : UInt32}

theorem length_flatMap_pcs (chunks : List KdEvent) :
    (chunks.flatMap KdEvent.pcs).length = 4 * chunks.length := by
  induction chunks with
  | nil => rfl
  | cons e rest induction =>
      rw [List.flatMap_cons, List.length_append, induction, length_pcs,
        List.length_cons]
      omega

theorem length_frames (stack : StackRecords tid cpu header data) :
    stack.frames.length = stack.head.arg2.toNat := by
  rw [frames, List.length_take, length_flatMap_pcs, stack.filled]
  omega

theorem frames_eq_nil_iff (stack : StackRecords tid cpu header data) :
    stack.frames = [] ↔ stack.head.arg2.toNat = 0 := by
  rw [← List.length_eq_zero_iff, length_frames]

theorem opened_head (stack : StackRecords tid cpu header data) :
    opened stack.head.arg2 = ⟨stack.head.arg2.toNat, []⟩ := by
  rw [opened, min_eq_left stack.fits]

theorem chunks_eq_nil (stack : StackRecords tid cpu header data)
    (empty : stack.frames = []) : stack.chunks = [] := by
  have zero := stack.frames_eq_nil_iff.mp empty
  have filled := stack.filled
  rw [zero] at filled
  exact List.length_eq_zero_iff.mp filled

variable (sampler v) in
/-- A user stack without frames leaves its header under way. -/
theorem run_user (stack : StackRecords tid cpu perfCsUhdr perfCsUdata) :
    ∃ building, v.run sampler stack.records =
      if stack.frames = [] then ({ v with building := building }, [])
      else
        ((({ v with building := building } : ThreadView τ).complete tid cpu
            stack.frames).1,
          (({ v with building := building } : ThreadView τ).complete tid cpu
            stack.frames).2.toList) := by
  rw [records, ThreadView.run, ThreadView.step_uhdr stack.isHeader.2,
    opened_head]
  by_cases empty : stack.frames = []
  · refine ⟨some ⟨stack.head.arg2.toNat, []⟩, ?_⟩
    rw [if_pos empty, stack.chunks_eq_nil empty]
    rfl
  · refine ⟨none, ?_⟩
    have positive := mt stack.frames_eq_nil_iff.mpr empty
    have filled := stack.filled
    dsimp only
    rw [if_neg empty, run_udata stack.isData rfl
      (by rw [List.length_nil]; omega) (by rw [List.length_nil]; omega)
      (by rw [List.length_nil]; omega)]
    simp [frames]

theorem run_kernel (stack : StackRecords tid cpu perfCsKhdr perfCsKdata) :
    ∃ building, v.run sampler stack.records =
      ({ v with
        buildingKernel := building
        kernelDone :=
          if sampler.kernel = true ∧ stack.frames ≠ [] then
            some stack.frames else v.kernelDone }, []) := by
  rw [records, ThreadView.run, ThreadView.step_khdr stack.isHeader.2,
    opened_head]
  cases reads : sampler.kernel with
  | false =>
      refine ⟨v.buildingKernel, ?_⟩
      simp [run_kdata_ignored reads stack.isData]
  | true =>
      by_cases empty : stack.frames = []
      · refine ⟨some ⟨stack.head.arg2.toNat, []⟩, ?_⟩
        rw [stack.chunks_eq_nil empty]
        simp [empty, ThreadView.run]
      · refine ⟨none, ?_⟩
        have positive := mt stack.frames_eq_nil_iff.mpr empty
        have filled := stack.filled
        rw [if_pos rfl]
        dsimp only
        rw [run_kdata reads stack.isData rfl
          (by rw [List.length_nil]; omega) (by rw [List.length_nil]; omega)
          (by rw [List.length_nil]; omega)]
        simp [empty]
        rfl

end StackRecords

/-! ### A group -/

variable (sampler v) in
theorem run_group (g : Group tid) :
    ∃ building buildingKernel,
      let ready : ThreadView τ :=
        ⟨some g.info.arg1, building, buildingKernel,
          if sampler.kernel = true ∧ g.kernelFrames ≠ [] then
            some g.kernelFrames else v.kernelDone,
          if g.kind = sampler.own then some (sampler.value g.trigger)
            else v.pending⟩
      v.run sampler g.records =
        if g.userFrames = [] then (ready, [])
        else ((ready.complete tid g.cpu g.userFrames).1,
          (ready.complete tid g.cpu g.userFrames).2.toList) := by
  rw [Group.records, ThreadView.run_cons,
    ThreadView.step_trigger g.isTrigger.2, ThreadView.run_cons,
    ThreadView.step_info g.isInfo.2, ThreadView.run_append]
  -- The trigger and the thread info.
  set started : ThreadView τ :=
    { (if g.kind = sampler.own then
        { v with pending := some (sampler.value g.trigger) } else v) with
      pid := some g.info.arg1 } with startedEq
  have kernel : ∃ buildingKernel,
      started.run sampler ((g.kernel.map StackRecords.records).getD []) =
        ({ started with
          buildingKernel := buildingKernel
          kernelDone :=
            if sampler.kernel = true ∧ g.kernelFrames ≠ [] then
              some g.kernelFrames else started.kernelDone }, []) := by
    unfold Group.kernelFrames
    cases g.kernel with
    | none => exact ⟨started.buildingKernel, by simp [ThreadView.run]⟩
    | some stack => exact stack.run_kernel
  obtain ⟨buildingKernel, kernelRun⟩ := kernel
  rw [kernelRun]
  dsimp only
  have pending : started.pending =
      if g.kind = sampler.own then some (sampler.value g.trigger)
      else v.pending := by
    rw [startedEq]
    split <;> rfl
  have done : started.kernelDone = v.kernelDone := by
    rw [startedEq]
    split <;> rfl
  have pid : started.pid = some g.info.arg1 := rfl
  unfold Group.userFrames
  cases g.user with
  | none =>
      refine ⟨started.building, buildingKernel, ?_⟩
      simp [ThreadView.run, pending, done, pid]
  | some stack =>
      obtain ⟨building, userRun⟩ := stack.run_user sampler { started with
        buildingKernel := buildingKernel
        kernelDone :=
          if sampler.kernel = true ∧ g.kernelFrames ≠ [] then
            some g.kernelFrames else started.kernelDone }
      refine ⟨building, buildingKernel, ?_⟩
      rw [← pending, ← done, ← pid]
      dsimp only [Option.map_some, Option.getD_some, List.nil_append]
      rw [userRun]
      split <;> rfl

/-- What a consumer makes of a thread's groups, from the trigger and the kernel
stack left by the ones before. -/
def samplesOf (sampler : Sampler τ) (pending : Option τ)
    (parked : List UInt64) : List (Group tid) → List (Completed τ)
  | [] => []
  | g :: rest =>
      let pending :=
        if g.kind = sampler.own then some (sampler.value g.trigger)
        else pending
      let parked :=
        if sampler.kernel = true ∧ g.kernelFrames ≠ [] then g.kernelFrames
        else parked
      if g.userFrames = [] then samplesOf sampler pending parked rest
      else
        match pending with
        | none => samplesOf sampler none parked rest
        | some trigger =>
            ⟨trigger, g.info.arg1, tid, g.cpu, g.userFrames, parked⟩ ::
              samplesOf sampler none [] rest

theorem run_groups (groups : List (Group tid)) :
    (v.run sampler (groups.flatMap Group.records)).2 =
      samplesOf sampler v.pending (v.kernelDone.getD []) groups := by
  induction groups generalizing v with
  | nil => rfl
  | cons g rest induction =>
      obtain ⟨building, buildingKernel, groupRun⟩ :=
        run_group sampler v g
      rw [List.flatMap_cons, ThreadView.run_append, groupRun, samplesOf]
      have parked : ((if sampler.kernel = true ∧ g.kernelFrames ≠ [] then
            some g.kernelFrames else v.kernelDone).getD []) =
          if sampler.kernel = true ∧ g.kernelFrames ≠ [] then g.kernelFrames
          else v.kernelDone.getD [] := by
        split <;> rfl
      by_cases silent : g.userFrames = []
      · simp only [if_pos silent, induction, parked, List.nil_append]
      · simp only [if_neg silent, induction, ThreadView.complete]
        cases (if g.kind = sampler.own then some (sampler.value g.trigger)
          else v.pending) with
        | none => simp [parked]
        | some trigger => simp [parked]

end

/-! ### Stale triggers -/

section

variable {τ : Type} {tid : UInt64}

/-- How many stacks of the other trigger meet a trigger that has gone without
its own. -/
def stale (own : Trigger) (pending : Bool) : List (Group tid) → Nat
  | [] => 0
  | g :: rest =>
      if g.kind = own then stale own (g.userFrames = []) rest
      else if g.userFrames ≠ [] ∧ pending = true then
        stale own false rest + 1
      else stale own pending rest

def ownStacks (own : Trigger) (groups : List (Group tid)) :
    List (Group tid) :=
  groups.filter fun g => g.kind = own ∧ g.userFrames ≠ []

theorem ownStacks_cons (own : Trigger) (g : Group tid)
    (rest : List (Group tid)) :
    ownStacks own (g :: rest) =
      if g.kind = own ∧ g.userFrames ≠ [] then g :: ownStacks own rest
      else ownStacks own rest := by
  simp [ownStacks, List.filter_cons]

theorem length_samplesOf (sampler : Sampler τ) (pending : Option τ)
    (parked : List UInt64) (groups : List (Group tid)) :
    (samplesOf sampler pending parked groups).length =
      (ownStacks sampler.own groups).length +
        stale sampler.own pending.isSome groups := by
  induction groups generalizing pending parked with
  | nil => rfl
  | cons g rest induction =>
      rw [samplesOf, stale, ownStacks_cons]
      by_cases own : g.kind = sampler.own
      · by_cases silent : g.userFrames = []
        · simp [own, silent, induction]
        · simp [own, silent, induction]
          omega
      · by_cases silent : g.userFrames = []
        · simp [own, silent, induction]
        · cases pending with
          | none => simp [own, silent, induction]
          | some trigger =>
              simp [own, silent, induction]
              omega

/-- The kernel stacks that both consumers can keep with their samples. -/
def KernelKept (groups : List (Group tid)) : Prop :=
  ∀ g ∈ groups,
    (g.kind = .timer → g.kernelFrames ≠ [] → g.userFrames ≠ []) ∧
      (g.kind = .wait → g.kernelFrames = [])

theorem clean_iff (fire wait : Bool) (groups : List (Group tid)) :
    Clean fire wait groups ↔
      KernelKept groups ∧ stale .timer fire groups = 0 ∧
        stale .wait wait groups = 0 := by
  induction groups generalizing fire wait with
  | nil => simp [Clean, KernelKept, stale]
  | cons g rest induction =>
      have kept : KernelKept (g :: rest) ↔
          ((g.kind = .timer → g.kernelFrames ≠ [] → g.userFrames ≠ []) ∧
            (g.kind = .wait → g.kernelFrames = [])) ∧ KernelKept rest := by
        simp [KernelKept]
      rw [Clean, stale, stale, kept]
      cases kind : g.kind with
      | timer =>
          simp only [induction]
          by_cases silent : g.userFrames = []
          · simp [silent]
            tauto
          · cases wait <;> simp [silent]
      | wait =>
          simp only [induction]
          by_cases silent : g.userFrames = []
          · simp [silent]
            tauto
          · cases fire <;> simp [silent, and_assoc]

/-! ### One thread -/

def Group.completed (sampler : Sampler τ) (g : Group tid) : Completed τ :=
  ⟨sampler.value g.trigger, g.info.arg1, tid, g.cpu, g.userFrames,
    if sampler.kernel then g.kernelFrames else []⟩

/-- Without stale triggers, and without kernel stacks left over, each user
stack is completed with its own group's records. -/
theorem samplesOf_of_fresh {sampler : Sampler τ} {pending : Option τ}
    {groups : List (Group tid)}
    (kept : sampler.kernel = true → ∀ g ∈ groups,
      (g.kind ≠ sampler.own → g.kernelFrames = []) ∧
        (g.kind = sampler.own → g.kernelFrames ≠ [] → g.userFrames ≠ []))
    (fresh : stale sampler.own pending.isSome groups = 0) :
    samplesOf sampler pending [] groups =
      (ownStacks sampler.own groups).map (Group.completed sampler) := by
  induction groups generalizing pending with
  | nil => rfl
  | cons g rest induction =>
      have keptRest : sampler.kernel = true → ∀ g ∈ rest,
          (g.kind ≠ sampler.own → g.kernelFrames = []) ∧
            (g.kind = sampler.own → g.kernelFrames ≠ [] →
              g.userFrames ≠ []) :=
        fun reads other member => kept reads other
          (List.mem_cons_of_mem g member)
      have keptHead := fun reads => kept reads g List.mem_cons_self
      rw [stale] at fresh
      rw [samplesOf, ownStacks_cons]
      by_cases own : g.kind = sampler.own
      · rw [if_pos own] at fresh
        by_cases silent : g.userFrames = []
        · have none : ¬(sampler.kernel = true ∧ g.kernelFrames ≠ []) :=
            fun both => (keptHead both.1).2 own both.2 silent
          have later : samplesOf sampler (some (sampler.value g.trigger)) []
              rest = _ := induction keptRest (by simpa [silent] using fresh)
          simp [own, silent, none, later]
        · have later : samplesOf sampler none [] rest = _ :=
            induction keptRest (by simpa [silent] using fresh)
          have parked : (if sampler.kernel = true ∧ g.kernelFrames ≠ [] then
              g.kernelFrames else []) =
              if sampler.kernel then g.kernelFrames else [] := by
            cases sampler.kernel with
            | false => simp
            | true =>
                cases g.kernelFrames with
                | nil => rfl
                | cons => simp
          rw [if_pos own, parked, if_neg silent, later,
            if_pos (And.intro own silent)]
          rfl
      · have none : ¬(sampler.kernel = true ∧ g.kernelFrames ≠ []) :=
          fun both => both.2 ((keptHead both.1).1 own)
        rw [if_neg own] at fresh
        by_cases silent : g.userFrames = []
        · rw [if_neg (by simp [silent])] at fresh
          simp [own, silent, none, induction keptRest fresh]
        · cases pending with
          | some trigger => simp [silent] at fresh
          | none =>
              have later : samplesOf sampler Option.none [] rest = _ :=
                induction keptRest (by simpa using fresh)
              simp [own, silent, none, later]

theorem frames_ne_nil {sampler : Sampler τ} {pending : Option τ}
    {parked : List UInt64} {groups : List (Group tid)} {done : Completed τ}
    (member : done ∈ samplesOf sampler pending parked groups) :
    done.frames ≠ [] := by
  induction groups generalizing pending parked with
  | nil => cases member
  | cons g rest induction =>
      rw [samplesOf] at member
      by_cases silent : g.userFrames = []
      · simp only [silent, if_true] at member
        exact induction member
      · simp only [silent, if_false] at member
        split at member
        · exact induction member
        · rcases List.mem_cons.mp member with rfl | later
          · exact silent
          · exact induction later

def carriers (own : Trigger) (groups : List (Group tid)) :
    List (Group tid) :=
  groups.filter fun g => g.kind = own ∧ g.CarriesStack

theorem carriers_eq_ownStacks {groups : List (Group tid)}
    (kept : KernelKept groups) (own : Trigger) :
    carriers own groups = ownStacks own groups := by
  apply List.filter_congr
  intro g member
  obtain ⟨timer, wait⟩ := kept g member
  refine decide_eq_decide.mpr (and_congr_right ?_)
  rintro rfl
  constructor
  · rintro (user | kernel)
    · exact user
    · cases kind : g.kind with
      | timer => exact timer kind kernel
      | wait => exact absurd (wait kind) kernel
  · exact Or.inl

end

section

variable {tid : UInt64}

/-- The samples of one thread are those of its groups exactly when the groups
are clean. -/
theorem thread_demuxed_iff (ticksToNs : UInt64 → UInt64)
    (groups : List (Group tid)) :
    ((samplesOf onCpuSampler none [] groups).map Completed.onCpu =
        (carriers .timer groups).map Group.sample ∧
      (samplesOf offCpuSampler none [] groups).map
          (Completed.offCpu ticksToNs) =
        (carriers .wait groups).map
          fun g => (g.sample, ticksToNs g.trigger.arg1)) ↔
      Clean false false groups := by
  rw [clean_iff]
  constructor
  · rintro ⟨onCpu, offCpu⟩
    have kept : KernelKept groups := by
      intro g member
      constructor
      · intro kind kernel
        have sample : g.sample ∈ (carriers .timer groups).map Group.sample :=
          List.mem_map_of_mem (List.mem_filter.mpr
            ⟨member, decide_eq_true ⟨kind, Or.inr kernel⟩⟩)
        rw [← onCpu] at sample
        obtain ⟨done, completed, same⟩ := List.mem_map.mp sample
        have frames : done.frames = g.userFrames :=
          congrArg DecodedStack.frames same
        rw [← frames]
        exact frames_ne_nil completed
      · intro kind
        by_contra kernel
        have sample : (g.sample, ticksToNs g.trigger.arg1) ∈
            (carriers .wait groups).map
              fun g => (g.sample, ticksToNs g.trigger.arg1) :=
          List.mem_map.mpr ⟨g, List.mem_filter.mpr
            ⟨member, decide_eq_true ⟨kind, Or.inr kernel⟩⟩, rfl⟩
        rw [← offCpu] at sample
        obtain ⟨done, _, same⟩ := List.mem_map.mp sample
        exact kernel (congrArg (fun s => s.1.kernelFrames) same).symm
    have onLength := congrArg List.length onCpu
    have offLength := congrArg List.length offCpu
    simp only [List.length_map, length_samplesOf, carriers_eq_ownStacks kept]
      at onLength offLength
    have onOwn : onCpuSampler.own = .timer := rfl
    have offOwn : offCpuSampler.own = .wait := rfl
    rw [onOwn, Option.isSome_none] at onLength
    rw [offOwn, Option.isSome_none] at offLength
    exact ⟨kept, by omega, by omega⟩
  · rintro ⟨kept, onFresh, offFresh⟩
    have onCpu : samplesOf onCpuSampler none [] groups =
        (ownStacks .timer groups).map (Group.completed onCpuSampler) := by
      apply samplesOf_of_fresh
      · intro _ g member
        refine ⟨fun other => (kept g member).2 ?_, (kept g member).1⟩
        cases kind : g.kind with
        | timer => exact absurd kind other
        | wait => rfl
      · exact onFresh
    have offCpu : samplesOf offCpuSampler none [] groups =
        (ownStacks .wait groups).map (Group.completed offCpuSampler) := by
      apply samplesOf_of_fresh
      · intro reads
        cases reads
      · exact offFresh
    rw [onCpu, offCpu, carriers_eq_ownStacks kept, carriers_eq_ownStacks kept,
      List.map_map, List.map_map]
    constructor
    · rfl
    · apply List.map_congr_left
      intro g member
      obtain ⟨inGroups, isOwn⟩ := List.mem_filter.mp member
      have kernel := (kept g inGroups).2 (decide_eq_true_eq.mp isOwn).1
      simp [Completed.offCpu, Group.completed, Group.sample, kernel,
        offCpuSampler]

end

/-- The consumers demultiplex an interleaving exactly when the groups of every
thread are clean. -/
theorem demuxed_iff (ticksToNs : UInt64 → UInt64)
    (groups : (tid : UInt64) → List (Group tid)) (stream : List KdEvent)
    (interleaves : Interleaves groups stream) :
    Demuxed ticksToNs groups stream ↔
      ∀ tid, Clean false false (groups tid) := by
  apply forall_congr'
  intro tid
  rw [← thread_demuxed_iff ticksToNs, OnCpuConsumer.onDrain_thread,
    OffCpuConsumer.onDrain_thread, interleaves tid, run_groups, run_groups]
  rfl

/-! ### A thread alone -/

theorem Group.ofThread_of_mem {tid : UInt64} {g : Group tid} {e : KdEvent}
    (member : e ∈ g.records) : e.OfThread tid := by
  rcases List.mem_cons.mp member with rfl | member
  · exact g.isTrigger.1.1
  · rcases List.mem_cons.mp member with rfl | member
    · exact g.isInfo.1.1
    · rcases List.mem_append.mp member with kernel | user
      · cases found : g.kernel with
        | none => simp [found] at kernel
        | some stack =>
            rw [found] at kernel
            rcases List.mem_cons.mp kernel with rfl | chunk
            · exact stack.isHeader.1.1
            · exact (stack.isData e chunk).1.1
      · cases found : g.user with
        | none => simp [found] at user
        | some stack =>
            rw [found] at user
            rcases List.mem_cons.mp user with rfl | chunk
            · exact stack.isHeader.1.1
            · exact (stack.isData e chunk).1.1

def alone {only : UInt64} (groups : List (Group only)) (tid : UInt64) :
    List (Group tid) :=
  if same : only = tid then same ▸ groups else []

theorem alone_self {only : UInt64} (groups : List (Group only)) :
    alone groups only = groups := by
  simp [alone]

theorem interleaves_alone {only : UInt64} (groups : List (Group only)) :
    Interleaves (alone groups) (groups.flatMap Group.records) := by
  intro tid
  by_cases same : only = tid
  · subst same
    rw [alone_self, threadRecords, List.filter_eq_self]
    intro e member
    obtain ⟨g, _, inGroup⟩ := List.mem_flatMap.mp member
    exact decide_eq_true (Group.ofThread_of_mem inGroup)
  · rw [alone, dif_neg same, threadRecords, List.flatMap_nil,
      List.filter_eq_nil_iff]
    intro e member found
    obtain ⟨g, _, inGroup⟩ := List.mem_flatMap.mp member
    have first := (Group.ofThread_of_mem inGroup).2
    exact same (first.symm.trans (of_decide_eq_true found).2)

def perfRecord (sub code : UInt32) (arg1 arg2 : UInt64) : KdEvent where
  debugid := (dbgPerf <<< 24) ||| (sub <<< 16) ||| (code <<< 2)
  arg1 := arg1
  arg2 := arg2
  arg5 := 7

instance (e : KdEvent) (tid : UInt64) (cpu : UInt32) :
    Decidable (e.From tid cpu) :=
  inferInstanceAs (Decidable (_ ∧ _))

theorem oneFrame_isHeader :
    (perfRecord perfCallstack perfCsUhdr 0 1).From 7 0 ∧
      (perfRecord perfCallstack perfCsUhdr 0 1).Is perfCallstack
        perfCsUhdr := by decide

theorem oneFrame_isData :
    ∀ e ∈ [perfRecord perfCallstack perfCsUdata 0xaaaa 0],
      e.From 7 0 ∧ e.Is perfCallstack perfCsUdata := by decide

theorem oneFrame_fits :
    (perfRecord perfCallstack perfCsUhdr 0 1).arg2.toNat ≤ maxFrames := by
  decide

theorem oneFrame_filled :
    [perfRecord perfCallstack perfCsUdata 0xaaaa 0].length =
      ((perfRecord perfCallstack perfCsUhdr 0 1).arg2.toNat + 3) / 4 := by
  decide

def oneFrame : StackRecords 7 0 perfCsUhdr perfCsUdata :=
  ⟨perfRecord perfCallstack perfCsUhdr 0 1,
    [perfRecord perfCallstack perfCsUdata 0xaaaa 0], oneFrame_isHeader,
    oneFrame_isData, oneFrame_fits, oneFrame_filled⟩

theorem fire_isTrigger :
    (perfRecord perfTimer perfTmFire 0 0).From 7 0 ∧
      (perfRecord perfTimer perfTmFire 0 0).IsTrigger .timer := by decide

theorem waitsample_isTrigger :
    (perfRecord perfLazy perfLzWaitsample 1000 0).From 7 0 ∧
      (perfRecord perfLazy perfLzWaitsample 1000 0).IsTrigger .wait := by
  decide

theorem tiData_isInfo :
    (perfRecord perfThreadinfo perfTiData 1234 7).From 7 0 ∧
      (perfRecord perfThreadinfo perfTiData 1234 7).Is perfThreadinfo
        perfTiData := by decide

def fireGroup (user : Option (StackRecords 7 0 perfCsUhdr perfCsUdata)) :
    Group 7 :=
  ⟨0, .timer, perfRecord perfTimer perfTmFire 0 0,
    perfRecord perfThreadinfo perfTiData 1234 7, none, user, fire_isTrigger,
    tiData_isInfo⟩

def waitGroup : Group 7 :=
  ⟨0, .wait, perfRecord perfLazy perfLzWaitsample 1000 0,
    perfRecord perfThreadinfo perfTiData 1234 7, none, some oneFrame,
    waitsample_isTrigger, tiData_isInfo⟩

theorem demuxed_two :
    Demuxed id (alone [fireGroup (some oneFrame), waitGroup])
        ([fireGroup (some oneFrame), waitGroup].flatMap Group.records) ↔
      ∀ tid, Clean false false
        (alone [fireGroup (some oneFrame), waitGroup] tid) :=
  demuxed_iff id (alone [fireGroup (some oneFrame), waitGroup])
    ([fireGroup (some oneFrame), waitGroup].flatMap Group.records)
    (interleaves_alone [fireGroup (some oneFrame), waitGroup])

/-- A timer sample without a user stack, then a wait of the same thread: the
wait's stack becomes a timer sample. -/
theorem not_demuxed_stale :
    Interleaves (alone [fireGroup none, waitGroup])
        ([fireGroup none, waitGroup].flatMap Group.records) ∧
      ¬Demuxed id (alone [fireGroup none, waitGroup])
        ([fireGroup none, waitGroup].flatMap Group.records) := by
  refine ⟨interleaves_alone _, fun demuxed => ?_⟩
  have samples := (demuxed 7).1
  rw [alone_self] at samples
  exact absurd samples (by decide +kernel)

end Sismo.Kdebug
