import Mathlib.Data.List.Nodup
import Sismo.Views.OffcpuWaits

namespace Sismo.Views

open Samples

/-! When the weights of the views are the measured durations. -/

def totalWait (waits : List (PerfSample × Int))
    (select : PerfSample → Bool) : Int :=
  ((waits.filter (select ·.1)).map Prod.snd).sum

def durations (packets : List PerfSamplePacket) : List (PerfSample × Int) :=
  packets.map fun packet => (importSample packet, packet.timebaseCount)

def packetsWhere (select : PerfSample → Bool)
    (packets : List PerfSamplePacket) : List PerfSamplePacket :=
  packets.filter fun packet => select (importSample packet)

/-- Every view gives each of its samples its duration, so that the totals over
any of the samples are sums of durations. -/
structure WeightsAreDurations (priv : Nat → Bool) (trace : Trace)
    (packets : List PerfSamplePacket) : Prop where
  offcpu : offcpuWaits priv trace =
    durations (packetsWhere (priv ·.utid) packets)
  locks : lockWaits priv trace =
    durations (packetsWhere (fun sample => priv sample.utid && isLock sample)
      packets)
  flamegraph : ∀ where_, offCpuDuration trace where_ =
    durations (packetsWhere
      (fun sample => sample.callsiteId.isSome && where_ sample) packets)
  totals : ∀ select,
    totalWait (offcpuWaits priv trace) select =
      totalWait (durations (packetsWhere (priv ·.utid) packets)) select ∧
    totalWait (lockWaits priv trace) select =
      totalWait (durations (packetsWhere
        (fun sample => priv sample.utid && isLock sample) packets)) select

/-- The thread's sample just before has duration zero. -/
def AfterZeroWait (packets : List PerfSamplePacket)
    (packet : PerfSamplePacket) : Prop :=
  ∃ previous, Precedes PerfSamplePacket.tid PerfSamplePacket.ts packets
    previous packet ∧ previous.timebaseCount = 0

section

variable {packets : List PerfSamplePacket}

def packetRow (packet : PerfSamplePacket) : OffcpuRow :=
  ⟨importSample packet, packet.timebaseCount⟩

def DistinctTimes (packets : List PerfSamplePacket) : Prop :=
  (packets.map fun packet => (packet.tid, packet.ts)).Nodup

theorem DistinctTimes.inj (distinct : DistinctTimes packets)
    {first second : PerfSamplePacket} (inFirst : first ∈ packets)
    (inSecond : second ∈ packets) (tid : first.tid = second.tid)
    (ts : first.ts = second.ts) : first = second :=
  List.inj_on_of_nodup_map distinct inFirst inSecond (Prod.ext tid ts)

theorem DistinctTimes.packetsWhere (distinct : DistinctTimes packets)
    (select : PerfSample → Bool) :
    DistinctTimes (packetsWhere select packets) :=
  distinct.sublist (List.filter_sublist.map _)

/-- A sample joins its own counter reading only. -/
theorem DistinctTimes.join_eq (distinct : DistinctTimes packets)
    {packet : PerfSamplePacket} (member : packet ∈ packets) :
    (packets.map importCounter).filter (fun counter =>
      counter.utid = (importSample packet).utid ∧
        counter.ts = (importSample packet).ts) = [importCounter packet] := by
  rw [List.filter_map]
  have only : packets.filter ((fun counter : Counter =>
      decide (counter.utid = (importSample packet).utid ∧
        counter.ts = (importSample packet).ts)) ∘ importCounter) =
      packets.filter (fun other => other = packet) := by
    apply List.filter_congr
    intro other inPackets
    rw [Function.comp_apply, decide_eq_decide]
    constructor
    · intro ⟨tid, ts⟩
      exact distinct.inj inPackets member tid ts
    · rintro rfl
      exact ⟨rfl, rfl⟩
  have nodup : packets.Nodup := List.Nodup.of_map _ distinct
  rw [only, List.filter_eq, List.count_eq_one_of_mem nodup member]
  rfl

/-- Each off-CPU sample is joined to its duration, and no other sample to
any. -/
theorem offcpuRows_importTrace (onCpu : List PerfSample)
    (distinct : DistinctTimes packets)
    (apart : ∀ sample ∈ onCpu, ∀ packet ∈ packets,
      ¬ (packet.tid = sample.utid ∧ packet.ts = sample.ts)) :
    (importTrace onCpu packets).offcpuRows = packets.map packetRow := by
  rw [Trace.offcpuRows, importTrace]
  dsimp only
  rw [List.flatMap_append]
  have none : onCpu.flatMap (fun sample =>
      ((packets.map importCounter).filter fun counter =>
        counter.utid = sample.utid ∧ counter.ts = sample.ts).map
          fun counter => (⟨sample, counter.value⟩ : OffcpuRow)) = [] := by
    rw [List.flatMap_eq_nil_iff]
    intro sample inOnCpu
    rw [List.map_eq_nil_iff, List.filter_eq_nil_iff]
    intro counter inCounters
    obtain ⟨packet, inPackets, rfl⟩ := List.mem_map.mp inCounters
    rw [decide_eq_true_eq]
    exact apart sample inOnCpu packet inPackets
  have each : packets.map packetRow =
      packets.flatMap fun packet => [packetRow packet] := List.map_eq_flatMap
  rw [none, List.nil_append, List.flatMap_map, each]
  apply List.flatMap_congr
  intro packet inPackets
  rw [distinct.join_eq inPackets]
  rfl

/-- The difference to the sample before is the duration only after a zero
one. -/
theorem lagWait_packetRow_iff (distinct : DistinctTimes packets)
    {packet : PerfSamplePacket} :
    lagWait (packets.map packetRow) (packetRow packet) =
        packet.timebaseCount ↔
      (packet.timebaseCount ≠ 0 → AfterZeroWait packets packet) := by
  rw [lagWait]
  cases found : lag (·.sample.utid) (·.sample.ts) (packets.map packetRow)
      (packetRow packet) with
  | none =>
      have first := lag_eq_none_iff.mp found
      have notAfter : ¬ AfterZeroWait packets packet := by
        intro ⟨previous, precedes, _⟩
        have above := first (packetRow previous)
          (List.mem_map_of_mem precedes.member) precedes.same
        exact absurd precedes.before (Nat.not_lt.mpr above)
      simp only [notAfter, imp_false, not_not]
      omega
  | some row =>
      have lagged := precedes_of_lag found
      obtain ⟨previous, inPackets, rfl⟩ := List.mem_map.mp lagged.member
      have precedes : Precedes PerfSamplePacket.tid PerfSamplePacket.ts packets
          previous packet :=
        ⟨inPackets, lagged.same, lagged.before, fun middle member =>
          lagged.last (packetRow middle) (List.mem_map_of_mem member)⟩
      have after : AfterZeroWait packets packet ↔
          previous.timebaseCount = 0 := by
        constructor
        · intro ⟨other, otherPrecedes, zero⟩
          have same := otherPrecedes.unique
            (fun first inFirst second inSecond =>
              distinct.inj inFirst inSecond) precedes
          exact same ▸ zero
        · exact fun zero => ⟨previous, precedes, zero⟩
      rw [after]
      simp only [packetRow]
      omega

theorem lagWaits_packetRow_iff (distinct : DistinctTimes packets) :
    lagWaits (packets.map packetRow) = durations packets ↔
      ∀ packet ∈ packets, packet.timebaseCount ≠ 0 →
        AfterZeroWait packets packet := by
  rw [lagWaits, durations, List.map_map, List.map_inj_left]
  apply forall₂_congr
  intro packet _
  rw [← lagWait_packetRow_iff distinct]
  simp [packetRow]

/-- The weights of every view are the durations exactly when each nonzero
duration comes just after a zero one, among the samples of the thread and among
its futex samples. -/
theorem weightsAreDurations_iff
    (emitted : List (HashMap Nat Bytes × SampleRec × Nat))
    (priv : Nat → Bool) (onCpu : List PerfSample)
    (distinct : (emitted.map fun emission =>
      (emission.2.1.tid, emission.2.1.ts)).Nodup)
    (apart : ∀ sample ∈ onCpu, ∀ emission ∈ emitted,
      ¬ (emission.2.1.tid = sample.utid ∧ emission.2.1.ts = sample.ts)) :
    let packets := emitted.map fun (fileNames, rec, callstackIid) =>
      offcpuPacket fileNames rec callstackIid
    let profiled := packetsWhere (priv ·.utid) packets
    let futex := packetsWhere
      (fun sample => priv sample.utid && isLock sample) packets
    WeightsAreDurations priv (importTrace onCpu packets) packets ↔
      (∀ packet ∈ profiled, packet.timebaseCount ≠ 0 →
        AfterZeroWait profiled packet) ∧
      ∀ packet ∈ futex, packet.timebaseCount ≠ 0 →
        AfterZeroWait futex packet := by
  intro packets profiled futex
  have times : DistinctTimes packets := by
    rw [DistinctTimes, List.map_map]
    exact distinct
  have rows := offcpuRows_importTrace onCpu times (by
    intro sample inOnCpu packet inPackets
    obtain ⟨emission, inEmitted, rfl⟩ := List.mem_map.mp inPackets
    exact apart sample inOnCpu emission inEmitted)
  have offcpu : offcpuWaits priv (importTrace onCpu packets) =
      lagWaits (profiled.map packetRow) := by
    rw [offcpuWaits, rows, List.filter_map]
    rfl
  have locks : lockWaits priv (importTrace onCpu packets) =
      lagWaits (futex.map packetRow) := by
    rw [lockWaits, rows, List.filter_map]
    rfl
  rw [← lagWaits_packetRow_iff (times.packetsWhere _),
    ← lagWaits_packetRow_iff (times.packetsWhere _)]
  constructor
  · intro weights
    exact ⟨offcpu ▸ weights.offcpu, locks ▸ weights.locks⟩
  · intro ⟨profiledWeights, futexWeights⟩
    have offcpuWeights := offcpu.trans profiledWeights
    have lockWeights := locks.trans futexWeights
    refine ⟨offcpuWeights, lockWeights, fun where_ => ?_, fun select => ?_⟩
    · rw [offCpuDuration, rows, List.filter_map, List.map_map]
      rfl
    · rw [offcpuWeights, lockWeights]
      exact ⟨rfl, rfl⟩

end

def futexWait (ts dataAddr : Nat) : HashMap Nat Bytes × SampleRec × Nat :=
  (∅, { tid := 1, ts := ts, dataAddr := dataAddr,
        counters := fun _ => 0x1000 }, 1)

theorem weightsAreDurations_after_zero :
    let packets := [futexWait 10 0, futexWait 20 30000].map
      fun (fileNames, rec, callstackIid) =>
        offcpuPacket fileNames rec callstackIid
    let profiled := packetsWhere (fun _ => true) packets
    let futex := packetsWhere (fun sample => true && isLock sample) packets
    WeightsAreDurations (fun _ => true) (importTrace [] packets) packets ↔
      (∀ packet ∈ profiled, packet.timebaseCount ≠ 0 →
        AfterZeroWait profiled packet) ∧
      ∀ packet ∈ futex, packet.timebaseCount ≠ 0 →
        AfterZeroWait futex packet :=
  weightsAreDurations_iff [futexWait 10 0, futexWait 20 30000]
    (fun _ => true) [] (by decide)
    (fun sample member => absurd member List.not_mem_nil)

/-- Two waits of 20 and 50 microseconds weigh 0 and 30. -/
theorem not_weightsAreDurations_two_waits :
    let packets := [futexWait 10 20000, futexWait 20 50000].map
      fun (fileNames, rec, callstackIid) =>
        offcpuPacket fileNames rec callstackIid
    (offcpuWaits (fun _ => true) (importTrace [] packets)).map Prod.snd =
        [0, 30000] ∧
      (lockWaits (fun _ => true) (importTrace [] packets)).map Prod.snd =
        [0, 30000] ∧
      ¬ WeightsAreDurations (fun _ => true) (importTrace [] packets)
        packets :=
  ⟨by decide, by decide, fun weights => absurd weights.offcpu (by decide)⟩

end Sismo.Views
