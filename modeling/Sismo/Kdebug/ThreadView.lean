import Sismo.Kdebug.KperfSample

namespace Sismo.Kdebug

/-! What a consumer keeps of one thread, and that the records of a thread act
on this alone. -/

inductive Trigger where
  | timer | wait
  deriving DecidableEq, Repr

def KdEvent.IsTrigger (e : KdEvent) : Trigger → Prop
  | .timer => e.Is perfTimer perfTmFire
  | .wait => e.Is perfLazy perfLzWaitsample

instance (e : KdEvent) (trigger : Trigger) :
    Decidable (e.IsTrigger trigger) := by
  cases trigger <;> exact inferInstanceAs (Decidable (e.Is _ _))

/-- What sets the two consumers apart: their trigger, what they keep of it and
whether they read kernel stacks. -/
structure Sampler (τ : Type) where
  own : Trigger
  value : KdEvent → τ
  kernel : Bool

def offCpuSampler : Sampler (UInt64 × UInt64) where
  own := .wait
  value e := (e.arg1, e.timestamp)
  kernel := false

def onCpuSampler : Sampler UInt64 where
  own := .timer
  value := KdEvent.timestamp
  kernel := true

structure ThreadView (τ : Type) where
  pid : Option UInt64 := none
  building : Option PendingStack := none
  buildingKernel : Option PendingStack := none
  kernelDone : Option (List UInt64) := none
  pending : Option τ := none

structure Completed (τ : Type) where
  trigger : τ
  pid : UInt64
  tid : UInt64
  cpu : UInt32
  frames : List UInt64
  kernelFrames : List UInt64

def opened (nframes : UInt64) : PendingStack :=
  ⟨min nframes.toNat maxFrames, []⟩

def feed : Option PendingStack → List UInt64 →
    Option PendingStack × Option (List UInt64)
  | none, _ => (none, none)
  | some p, pcs =>
      let p := pushPcs p pcs
      if p.frames.length < p.want then (some p, none)
      else (none, some p.frames)

namespace ThreadView

variable {τ : Type}

def complete (v : ThreadView τ) (tid : UInt64) (cpu : UInt32)
    (frames : List UInt64) : ThreadView τ × Option (Completed τ) :=
  match v.pending with
  | none => (v, none)
  | some trigger =>
      ({ v with pending := none, kernelDone := none },
        some ⟨trigger, v.pid.getD 0, tid, cpu, frames,
          v.kernelDone.getD []⟩)

def userData (v : ThreadView τ) (e : KdEvent) :
    ThreadView τ × Option (Completed τ) :=
  match feed v.building e.pcs with
  | (building, none) => ({ v with building := building }, none)
  | (building, some frames) =>
      complete { v with building := building } e.arg5 e.cpuid frames

def kernelData (v : ThreadView τ) (e : KdEvent) : ThreadView τ :=
  match feed v.buildingKernel e.pcs with
  | (building, none) => { v with buildingKernel := building }
  | (building, some frames) =>
      { v with buildingKernel := building, kernelDone := some frames }

def step (sampler : Sampler τ) (v : ThreadView τ) (e : KdEvent) :
    ThreadView τ × Option (Completed τ) :=
  if e.IsTrigger sampler.own then
    ({ v with pending := some (sampler.value e) }, none)
  else if e.Is perfThreadinfo perfTiData then
    ({ v with pid := some e.arg1 }, none)
  else if sampler.kernel ∧ e.Is perfCallstack perfCsKhdr then
    ({ v with buildingKernel := some (opened e.arg2) }, none)
  else if sampler.kernel ∧ e.Is perfCallstack perfCsKdata then
    (v.kernelData e, none)
  else if e.Is perfCallstack perfCsUhdr then
    ({ v with building := some (opened e.arg2) }, none)
  else if e.Is perfCallstack perfCsUdata then v.userData e
  else (v, none)

def run (sampler : Sampler τ) (v : ThreadView τ) :
    List KdEvent → ThreadView τ × List (Completed τ)
  | [] => (v, [])
  | e :: rest =>
      let (v, done) := v.step sampler e
      let (v, later) := v.run sampler rest
      (v, done.toList ++ later)

theorem run_cons (sampler : Sampler τ) (v : ThreadView τ) (e : KdEvent)
    (rest : List KdEvent) :
    v.run sampler (e :: rest) =
      (((v.step sampler e).1.run sampler rest).1,
        (v.step sampler e).2.toList ++
          ((v.step sampler e).1.run sampler rest).2) := rfl

theorem run_append (sampler : Sampler τ) (v : ThreadView τ)
    (first second : List KdEvent) :
    v.run sampler (first ++ second) =
      (((v.run sampler first).1.run sampler second).1,
        (v.run sampler first).2 ++
          ((v.run sampler first).1.run sampler second).2) := by
  induction first generalizing v with
  | nil => simp [run]
  | cons e rest induction =>
      simp only [List.cons_append, run, induction, List.append_assoc]

end ThreadView

/-! ### The consumers, thread by thread -/

def UserStacks.view {τ : Type} (held : UserStacks) (kernel : Bool)
    (tid : UInt64) (pending : Option τ) : ThreadView τ where
  pid := held.pidOf.lookup tid
  building := held.building.lookup tid
  buildingKernel := if kernel then held.buildingKernel.lookup tid else none
  kernelDone := if kernel then held.kernelDone.lookup tid else none
  pending := pending

def OffCpuConsumer.view (consumer : OffCpuConsumer) (tid : UInt64) :
    ThreadView (UInt64 × UInt64) :=
  consumer.userStacks.view false tid (consumer.pendingWait.lookup tid)

def OnCpuConsumer.view (consumer : OnCpuConsumer) (tid : UInt64) :
    ThreadView UInt64 :=
  consumer.userStacks.view true tid (consumer.pendingFire.lookup tid)

def Completed.offCpu (ticksToNs : UInt64 → UInt64)
    (done : Completed (UInt64 × UInt64)) : DecodedStack × UInt64 :=
  (⟨done.pid, done.tid, done.cpu, done.trigger.2, done.frames, []⟩,
    ticksToNs done.trigger.1)

def Completed.onCpu (done : Completed UInt64) : DecodedStack :=
  ⟨done.pid, done.tid, done.cpu, done.trigger, done.frames,
    done.kernelFrames⟩

def KdEvent.OfThread (tid : UInt64) (e : KdEvent) : Prop :=
  classOf e.debugid = dbgPerf ∧ e.arg5 = tid

instance (tid : UInt64) (e : KdEvent) : Decidable (e.OfThread tid) :=
  inferInstanceAs (Decidable (_ ∧ _))

variable {τ : Type} {held : UserStacks} {kernel : Bool} {tid : UInt64}
  {pending : Option τ}

@[simp] theorem view_recycle (buf : List UInt64) :
    (held.recycle buf).view kernel tid pending =
      held.view kernel tid pending := by
  unfold UserStacks.recycle
  split <;> rfl

theorem OnCpuConsumer.view_recycle (consumer : OnCpuConsumer)
    (sample : Option DecodedStack) :
    (consumer.recycle sample).view tid = consumer.view tid := by
  cases sample with
  | none => rfl
  | some s =>
      unfold OnCpuConsumer.recycle OnCpuConsumer.view
      dsimp only
      split <;> simp

theorem OffCpuConsumer.view_recycle (consumer : OffCpuConsumer)
    (sample : Option (DecodedStack × UInt64)) :
    (consumer.recycle sample).view tid = consumer.view tid := by
  cases sample with
  | none => rfl
  | some s => simp [OffCpuConsumer.recycle, OffCpuConsumer.view]

theorem view_onThreadinfo (other pid : UInt64) :
    (held.onThreadinfo other pid).view kernel tid pending =
      if tid = other then
        { held.view kernel tid pending with pid := some pid }
      else held.view kernel tid pending := by
  by_cases here : tid = other
  · subst here
    simp [UserStacks.onThreadinfo, UserStacks.view]
  · simp [UserStacks.onThreadinfo, UserStacks.view, here]

theorem view_onUhdr (other nframes : UInt64) :
    (held.onUhdr other nframes).view kernel tid pending =
      if tid = other then
        { held.view kernel tid pending with building := some (opened nframes) }
      else held.view kernel tid pending := by
  by_cases here : tid = other
  · subst here
    simp [UserStacks.onUhdr, UserStacks.takeBuf, UserStacks.view, opened]
  · simp [UserStacks.onUhdr, UserStacks.takeBuf, UserStacks.view, here]

theorem view_onKhdr (other nframes : UInt64) :
    (held.onKhdr other nframes).view true tid pending =
      if tid = other then
        { held.view true tid pending with
          buildingKernel := some (opened nframes) }
      else held.view true tid pending := by
  by_cases here : tid = other
  · subst here
    simp [UserStacks.onKhdr, UserStacks.takeBuf, UserStacks.view, opened]
  · simp [UserStacks.onKhdr, UserStacks.takeBuf, UserStacks.view, here]

/-- Kernel data, with the buffers left out. -/
theorem view_onKdata_feed (other : UInt64) (pcs : List UInt64) :
    (held.onKdata other pcs).view true tid pending =
      match feed (held.buildingKernel.lookup other) pcs with
      | (none, some frames) =>
          ({ held with
            buildingKernel := held.buildingKernel.erase other
            kernelDone := held.kernelDone.insert other frames } :
              UserStacks).view true tid pending
      | (some p, _) =>
          ({ held with
            buildingKernel := held.buildingKernel.insert other p } :
              UserStacks).view true tid pending
      | (none, none) => held.view true tid pending := by
  unfold UserStacks.onKdata feed
  cases found : held.buildingKernel.lookup other with
  | none => rfl
  | some p =>
      by_cases short : (pushPcs p pcs).frames.length < (pushPcs p pcs).want
      · simp only [short, if_true]
      · simp only [short, if_false]
        cases held.kernelDone.lookup other with
        | none => rfl
        | some old => exact view_recycle old

theorem feed_none_none {building : Option PendingStack} {pcs : List UInt64}
    (silent : feed building pcs = (none, none)) : building = none := by
  cases building with
  | none => rfl
  | some p =>
      simp only [feed] at silent
      split at silent <;> cases silent

theorem feed_some {building : Option PendingStack} {pcs : List UInt64}
    {p : PendingStack} {done : Option (List UInt64)}
    (kept : feed building pcs = (some p, done)) : done = none := by
  cases building with
  | none => cases kept
  | some p =>
      simp only [feed] at kept
      split at kept
      · cases kept
        rfl
      · cases kept

theorem view_onKdata (e : KdEvent) :
    (held.onKdata e.arg5 e.pcs).view true tid pending =
      if tid = e.arg5 then (held.view true tid pending).kernelData e
      else held.view true tid pending := by
  rw [view_onKdata_feed]
  by_cases here : tid = e.arg5
  · subst here
    have building : (held.view true e.arg5 pending).buildingKernel =
        held.buildingKernel.lookup e.arg5 := rfl
    rw [if_pos rfl, ThreadView.kernelData, building]
    split
    · next fed =>
        rw [fed]
        simp [UserStacks.view]
    · next fed =>
        rw [feed_some fed] at fed
        rw [fed]
        simp [UserStacks.view]
    · next fed =>
        rw [fed]
        simp [UserStacks.view, feed_none_none fed]
  · rw [if_neg here]
    split
    · simp [UserStacks.view, here]
    · simp [UserStacks.view, here]
    · rfl

/-- User data: what is kept and what is completed. -/
theorem onUdata_eq (other : UInt64) (pcs : List UInt64) :
    held.onUdata other pcs =
      match feed (held.building.lookup other) pcs with
      | (none, some frames) =>
          ({ held with building := held.building.erase other },
            some ((held.pidOf.lookup other).getD 0, frames))
      | (some p, _) =>
          ({ held with building := held.building.insert other p }, none)
      | (none, none) => (held, none) := by
  unfold UserStacks.onUdata feed
  cases held.building.lookup other with
  | none => rfl
  | some p =>
      by_cases short : (pushPcs p pcs).frames.length < (pushPcs p pcs).want
      · simp only [short, if_true]
      · simp only [short, if_false]

/-! ### One record -/

variable {e : KdEvent}

theorem OnCpuConsumer.decode_foreign (consumer : OnCpuConsumer)
    (foreign : classOf e.debugid ≠ dbgPerf) :
    consumer.decode e = (consumer, none) := by
  simp [OnCpuConsumer.decode, foreign]

theorem OffCpuConsumer.decode_foreign (ticksToNs : UInt64 → UInt64)
    (consumer : OffCpuConsumer) (foreign : classOf e.debugid ≠ dbgPerf) :
    consumer.decode ticksToNs e = (consumer, none) := by
  simp [OffCpuConsumer.decode, foreign]

/-- A record of another thread leaves the view alone. -/
theorem OnCpuConsumer.decode_other (consumer : OnCpuConsumer)
    (other : ¬e.OfThread tid) :
    (consumer.decode e).1.view tid = consumer.view tid := by
  by_cases perf : classOf e.debugid = dbgPerf
  · have apart : tid ≠ e.arg5 := fun same => other ⟨perf, same.symm⟩
    unfold OnCpuConsumer.decode OnCpuConsumer.view
    simp only [perf, ne_eq, not_true_eq_false, if_false, onUdata_eq]
    split_ifs
    · simp [apart]
    · simp [view_onThreadinfo, apart]
    · simp [view_onKhdr, apart]
    · simp [view_onKdata, apart]
    · simp [view_onUhdr, apart]
    · cases fed : feed (consumer.userStacks.building.lookup e.arg5) e.pcs with
      | mk building done =>
          rcases building with _ | p <;> rcases done with _ | frames
          · rfl
          · cases consumer.pendingFire.lookup e.arg5 with
            | none => simp [UserStacks.view, apart]
            | some fire =>
                simp [UserStacks.view, UserStacks.takeKernel, apart]
          · simp [UserStacks.view, apart]
          · simp [UserStacks.view, apart]
    · rfl
  · rw [consumer.decode_foreign perf]

theorem OnCpuConsumer.decode_own (consumer : OnCpuConsumer)
    (own : e.OfThread tid) :
    (consumer.decode e).1.view tid =
        ((consumer.view tid).step onCpuSampler e).1 ∧
      (consumer.decode e).2 =
        ((consumer.view tid).step onCpuSampler e).2.map Completed.onCpu := by
  obtain ⟨perf, rfl⟩ := own
  unfold OnCpuConsumer.decode ThreadView.step
  simp only [perf, ne_eq, not_true_eq_false, if_false, onUdata_eq,
    onCpuSampler, KdEvent.IsTrigger, true_and]
  split_ifs
  · simp [OnCpuConsumer.view, UserStacks.view]
  · simp [OnCpuConsumer.view, view_onThreadinfo]
  · simp [OnCpuConsumer.view, view_onKhdr]
  · simp [OnCpuConsumer.view, view_onKdata]
  · simp [OnCpuConsumer.view, view_onUhdr]
  · have building : (consumer.view e.arg5).building =
        consumer.userStacks.building.lookup e.arg5 := rfl
    rw [ThreadView.userData, building]
    cases fed : feed (consumer.userStacks.building.lookup e.arg5) e.pcs with
    | mk building done =>
        rcases building with _ | p <;> rcases done with _ | frames
        · simp [OnCpuConsumer.view, UserStacks.view, feed_none_none fed]
        · cases found : consumer.pendingFire.lookup e.arg5 with
          | none =>
              simp [OnCpuConsumer.view, UserStacks.view, found,
                ThreadView.complete]
          | some fire =>
              simp [OnCpuConsumer.view, UserStacks.view, found,
                ThreadView.complete, UserStacks.takeKernel, Completed.onCpu]
        · simp [OnCpuConsumer.view, UserStacks.view]
        · cases feed_some fed
  · exact ⟨rfl, rfl⟩

theorem OffCpuConsumer.decode_other (ticksToNs : UInt64 → UInt64)
    (consumer : OffCpuConsumer) (other : ¬e.OfThread tid) :
    (consumer.decode ticksToNs e).1.view tid = consumer.view tid := by
  by_cases perf : classOf e.debugid = dbgPerf
  · have apart : tid ≠ e.arg5 := fun same => other ⟨perf, same.symm⟩
    unfold OffCpuConsumer.decode OffCpuConsumer.view
    simp only [perf, ne_eq, not_true_eq_false, if_false, onUdata_eq]
    split_ifs
    · simp [apart]
    · simp [view_onThreadinfo, apart]
    · simp [view_onUhdr, apart]
    · cases fed : feed (consumer.userStacks.building.lookup e.arg5) e.pcs with
      | mk building done =>
          rcases building with _ | p <;> rcases done with _ | frames
          · rfl
          · cases consumer.pendingWait.lookup e.arg5 with
            | none => simp [UserStacks.view, apart]
            | some wait => simp [UserStacks.view, apart]
          · simp [UserStacks.view, apart]
          · simp [UserStacks.view, apart]
    · rfl
  · rw [consumer.decode_foreign ticksToNs perf]

theorem OffCpuConsumer.decode_own (ticksToNs : UInt64 → UInt64)
    (consumer : OffCpuConsumer) (own : e.OfThread tid) :
    (consumer.decode ticksToNs e).1.view tid =
        ((consumer.view tid).step offCpuSampler e).1 ∧
      (consumer.decode ticksToNs e).2 =
        ((consumer.view tid).step offCpuSampler e).2.map
          (Completed.offCpu ticksToNs) := by
  obtain ⟨perf, rfl⟩ := own
  unfold OffCpuConsumer.decode ThreadView.step
  simp only [perf, ne_eq, not_true_eq_false, if_false, onUdata_eq,
    offCpuSampler, KdEvent.IsTrigger, Bool.false_eq_true, false_and]
  split_ifs
  · simp [OffCpuConsumer.view, UserStacks.view]
  · simp [OffCpuConsumer.view, view_onThreadinfo]
  · simp [OffCpuConsumer.view, view_onUhdr]
  · have building : (consumer.view e.arg5).building =
        consumer.userStacks.building.lookup e.arg5 := rfl
    rw [ThreadView.userData, building]
    cases fed : feed (consumer.userStacks.building.lookup e.arg5) e.pcs with
    | mk building done =>
        rcases building with _ | p <;> rcases done with _ | frames
        · simp [OffCpuConsumer.view, UserStacks.view, feed_none_none fed]
        · cases found : consumer.pendingWait.lookup e.arg5 with
          | none =>
              simp [OffCpuConsumer.view, UserStacks.view, found,
                ThreadView.complete]
          | some wait =>
              simp [OffCpuConsumer.view, UserStacks.view, found,
                ThreadView.complete, Completed.offCpu]
        · simp [OffCpuConsumer.view, UserStacks.view]
        · cases feed_some fed
  · exact ⟨rfl, rfl⟩

/-! ### A stream -/

theorem ThreadView.step_tid (sampler : Sampler τ) (v : ThreadView τ)
    {done : Completed τ} (emits : (v.step sampler e).2 = some done) :
    done.tid = e.arg5 := by
  unfold step at emits
  split_ifs at emits
  unfold userData at emits
  split at emits
  · cases emits
  · unfold complete at emits
    split at emits
    · cases emits
    · cases emits
      rfl

def threadRecords (tid : UInt64) (stream : List KdEvent) : List KdEvent :=
  stream.filter (·.OfThread tid)

theorem OnCpuConsumer.decode_tid (consumer : OnCpuConsumer) {s : DecodedStack}
    (emits : (consumer.decode e).2 = some s) : e.OfThread s.tid := by
  by_cases perf : classOf e.debugid = dbgPerf
  · rw [(consumer.decode_own ⟨perf, rfl⟩).2] at emits
    obtain ⟨done, completed, rfl⟩ := Option.map_eq_some_iff.mp emits
    exact ⟨perf, (ThreadView.step_tid _ _ completed).symm⟩
  · rw [consumer.decode_foreign perf] at emits
    cases emits

theorem OffCpuConsumer.decode_tid (ticksToNs : UInt64 → UInt64)
    (consumer : OffCpuConsumer) {s : DecodedStack × UInt64}
    (emits : (consumer.decode ticksToNs e).2 = some s) :
    e.OfThread s.1.tid := by
  by_cases perf : classOf e.debugid = dbgPerf
  · rw [(consumer.decode_own ticksToNs ⟨perf, rfl⟩).2] at emits
    obtain ⟨done, completed, rfl⟩ := Option.map_eq_some_iff.mp emits
    exact ⟨perf, (ThreadView.step_tid _ _ completed).symm⟩
  · rw [consumer.decode_foreign ticksToNs perf] at emits
    cases emits

theorem OnCpuConsumer.onDrain_thread (consumer : OnCpuConsumer)
    (stream : List KdEvent) (tid : UInt64) :
    (consumer.onDrain stream).2.filter (·.tid = tid) =
      ((consumer.view tid).run onCpuSampler (threadRecords tid stream)).2.map
        Completed.onCpu := by
  induction stream generalizing consumer with
  | nil => rfl
  | cons e rest induction =>
      unfold onDrain
      dsimp only
      rw [List.filter_append, induction, OnCpuConsumer.view_recycle]
      by_cases own : e.OfThread tid
      · obtain ⟨view, sample⟩ := consumer.decode_own own
        have records : threadRecords tid (e :: rest) =
            e :: threadRecords tid rest := by
          simp [threadRecords, own]
        rw [records, ThreadView.run, view, sample, List.map_append]
        congr 1
        cases done : ((consumer.view tid).step onCpuSampler e).2 with
        | none => rfl
        | some done' =>
            have same := ThreadView.step_tid _ _ done
            simp [Completed.onCpu, same, own.2]
      · have records : threadRecords tid (e :: rest) =
            threadRecords tid rest := by
          simp [threadRecords, own]
        rw [records, consumer.decode_other own]
        have none : (consumer.decode e).2.toList.filter (·.tid = tid) = [] := by
          cases emits : (consumer.decode e).2 with
          | none => rfl
          | some s =>
              have from_ := consumer.decode_tid emits
              have apart : s.tid ≠ tid := fun same => own (same ▸ from_)
              simp [apart]
        rw [none, List.nil_append]

theorem OffCpuConsumer.onDrain_thread (ticksToNs : UInt64 → UInt64)
    (consumer : OffCpuConsumer) (stream : List KdEvent) (tid : UInt64) :
    (consumer.onDrain ticksToNs stream).2.filter (·.1.tid = tid) =
      ((consumer.view tid).run offCpuSampler (threadRecords tid stream)).2.map
        (Completed.offCpu ticksToNs) := by
  induction stream generalizing consumer with
  | nil => rfl
  | cons e rest induction =>
      unfold onDrain
      dsimp only
      rw [List.filter_append, induction, OffCpuConsumer.view_recycle]
      by_cases own : e.OfThread tid
      · obtain ⟨view, sample⟩ := consumer.decode_own ticksToNs own
        have records : threadRecords tid (e :: rest) =
            e :: threadRecords tid rest := by
          simp [threadRecords, own]
        rw [records, ThreadView.run, view, sample, List.map_append]
        congr 1
        cases done : ((consumer.view tid).step offCpuSampler e).2 with
        | none => rfl
        | some done' =>
            have same := ThreadView.step_tid _ _ done
            simp [Completed.offCpu, same, own.2]
      · have records : threadRecords tid (e :: rest) =
            threadRecords tid rest := by
          simp [threadRecords, own]
        rw [records, consumer.decode_other ticksToNs own]
        have none : (consumer.decode ticksToNs e).2.toList.filter
            (·.1.tid = tid) = [] := by
          cases emits : (consumer.decode ticksToNs e).2 with
          | none => rfl
          | some s =>
              have from_ := consumer.decode_tid ticksToNs emits
              have apart : s.1.tid ≠ tid := fun same => own (same ▸ from_)
              simp [apart]
        rw [none, List.nil_append]

end Sismo.Kdebug
