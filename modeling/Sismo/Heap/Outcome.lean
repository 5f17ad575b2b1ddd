import Sismo.Heap.Delivery
import Sismo.Heap.WrappedBook

namespace Sismo.Heap

/-! The book against the history once every free has been delivered. -/

/-- Recorded allocations that no later free of their address follows. -/
def survivors (history : List HeapRecord) (recorded : AllocRecord → Bool) :
    List AllocRecord :=
  (allocs history).filter fun record =>
    recorded record ∧ ¬ Freed history record

def trueStats (history : List HeapRecord) (recorded : AllocRecord → Bool)
    (pcs : List Nat) : SiteStats Nat :=
  let sampled := (allocs history).filter fun record =>
    recorded record ∧ record.pcs = pcs
  let gone := sampled.filter fun record => Freed history record
  { allocated := (sampled.map (·.sampleSize)).sum
    freed := (gone.map (·.sampleSize)).sum
    allocCount := sampled.length
    freeCount := gone.length }

theorem Ordered.nodup {history : List HeapRecord}
    (ordered : Ordered history) : history.Nodup :=
  ordered.imp fun less equal => by simp [equal] at less

section

variable {history : List HeapRecord} {recorded : AllocRecord → Bool}
variable {records : List HeapRecord}

theorem Delivery.mem_records (delivery : Delivery history recorded records)
    {record : AllocRecord} :
    .alloc record ∈ records ↔
      .alloc record ∈ history ∧ recorded record = true := by
  constructor
  · intro member
    have inHistory := delivery.from_history _ member
    exact ⟨inHistory, (delivery.recorded_iff record inHistory).mp member⟩
  · rintro ⟨inHistory, isRecorded⟩
    exact (delivery.recorded_iff record inHistory).mpr isRecorded

theorem Delivery.allocs_perm (ordered : Ordered history)
    (delivery : Delivery history recorded records) :
    (allocs records).Perm ((allocs history).filter (recorded ·)) := by
  refine (List.perm_ext_iff_of_nodup (allocs_nodup delivery.nodup)
    ((allocs_nodup ordered.nodup).filter _)).mpr fun record => ?_
  rw [mem_allocs, delivery.mem_records, List.mem_filter, mem_allocs]

/-- With every free applied, nothing freed is left in the book. -/
theorem Matches.live_iff {book : HeapBook Nat}
    (matched : Matches history records records book)
    (complete : ∀ entry : FreeEntry,
      .free entry ∈ history → .free entry ∈ records)
    {record : AllocRecord} (member : .alloc record ∈ records) :
    record.live ∈ book.liveAt record.addr ↔ ¬ Freed history record := by
  constructor
  · intro live freed
    have noFrees : pendingFrees history records record.addr = ∅ := by
      refine Finset.eq_empty_of_forall_notMem fun seq pending => ?_
      obtain ⟨entry, inHistory, _, notDone, _⟩ := mem_pendingFrees.mp pending
      exact notDone (complete entry inHistory)
    have covers := matched.covers record.addr
    rw [noFrees] at covers
    have pending : record.seq ∈
        pendingAllocs history records records book record.addr :=
      mem_pendingAllocs.mpr ⟨record, member, rfl, freed, fun _ => live, rfl⟩
    simp [covers.eq_empty] at pending
  · intro notFreed
    by_contra dead
    exact notFreed (matched.retired record member dead)

theorem liveEntries_perm_survivors (ordered : Ordered history)
    (separated : Separated history)
    (delivery : Delivery history recorded records)
    (complete : ∀ entry : FreeEntry,
      .free entry ∈ history → .free entry ∈ records) :
    (({} : HeapBook Nat).applyAll records).liveEntries.Perm
      ((survivors history recorded).map fun record =>
        (record.addr, record.live)) := by
  have matched : Matches history records records
      (({} : HeapBook Nat).applyAll records) :=
    matches_prefix ordered separated delivery (List.append_nil records).symm
  have liveNodup := HeapBook.liveEntries_nodup fun addr =>
    (matched.live_sorted addr).imp fun {first second} less equal => by
      simp [equal] at less
  have survivorsNodup : ((survivors history recorded).map fun record =>
      (record.addr, record.live)).Nodup := by
    refine ((allocs_nodup ordered.nodup).filter _).map_on ?_
    intro first firstMem second secondMem same
    have seqEq : first.seq = second.seq :=
      congrArg LiveAlloc.seq (Prod.mk.inj same).2
    exact HeapRecord.alloc.inj (ordered.eq_of_seq
      (mem_allocs.mp (List.mem_filter.mp firstMem).1)
      (mem_allocs.mp (List.mem_filter.mp secondMem).1) seqEq)
  refine (List.perm_ext_iff_of_nodup liveNodup survivorsNodup).mpr ?_
  rintro ⟨addr, l⟩
  simp only [HeapBook.mem_liveEntries, survivors, List.mem_map,
    List.mem_filter, mem_allocs, decide_eq_true_eq, Prod.mk.injEq]
  constructor
  · intro live
    obtain ⟨record, member, rfl, rfl⟩ := matched.live_from addr l live
    obtain ⟨inHistory, isRecorded⟩ := delivery.mem_records.mp member
    exact ⟨record, ⟨inHistory, isRecorded,
      (matched.live_iff complete member).mp live⟩, rfl, rfl⟩
  · rintro ⟨record, ⟨inHistory, isRecorded, notFreed⟩, rfl, rfl⟩
    exact (matched.live_iff complete
      (delivery.mem_records.mpr ⟨inHistory, isRecorded⟩)).mpr notFreed

theorem liveTotal_eq_survivors (ordered : Ordered history)
    (separated : Separated history)
    (delivery : Delivery history recorded records)
    (complete : ∀ entry : FreeEntry,
      .free entry ∈ history → .free entry ∈ records)
    (weight : LiveAlloc → Nat) :
    (({} : HeapBook Nat).applyAll records).liveTotal weight =
      ((survivors history recorded).map fun record =>
        weight record.live).sum := by
  have perm := (liveEntries_perm_survivors ordered separated delivery
    complete).map fun entry => weight entry.2
  rw [HeapBook.liveTotal, perm.sum_eq, List.map_map]
  rfl

/-- The survivors of a callstack are its allocations that are not freed. -/
theorem sum_survivors (history : List HeapRecord)
    (recorded : AllocRecord → Bool) (pcs : List Nat)
    (weight : AllocRecord → Nat) :
    (((allocs history).filter fun record =>
        recorded record ∧ record.pcs = pcs).map weight).sum =
      ((((allocs history).filter fun record =>
          recorded record ∧ record.pcs = pcs).filter fun record =>
            Freed history record).map weight).sum +
        ((survivors history recorded).map fun record =>
          if record.pcs = pcs then weight record else 0).sum := by
  rw [survivors]
  induction allocs history with
  | nil => rfl
  | cons record rest induction =>
      by_cases isRecorded : recorded record = true <;>
        by_cases here : record.pcs = pcs <;>
        by_cases freed : Freed history record <;>
        simp [isRecorded, here, freed] at induction ⊢ <;> omega

theorem Delivery.sampled_perm (ordered : Ordered history)
    (delivery : Delivery history recorded records) (pcs : List Nat) :
    ((allocs records).filter (·.pcs = pcs)).Perm
      ((allocs history).filter fun record =>
        recorded record ∧ record.pcs = pcs) := by
  refine ((delivery.allocs_perm ordered).filter _).trans (List.Perm.of_eq ?_)
  rw [List.filter_filter]
  exact List.filter_congr fun record _ => by
    simp [Bool.and_comm]

theorem allocated_eq_trueStats (ordered : Ordered history)
    (delivery : Delivery history recorded records) (pcs : List Nat) :
    ((({} : HeapBook Nat).applyAll records).siteAt pcs).allocated =
        (trueStats history recorded pcs).allocated ∧
      ((({} : HeapBook Nat).applyAll records).siteAt pcs).allocCount =
        (trueStats history recorded pcs).allocCount := by
  obtain ⟨bytes, counts⟩ := HeapBook.allocated_applyAll records pcs
  have sampled := delivery.sampled_perm ordered pcs
  rw [(sampled.map _).sum_eq] at bytes
  rw [sampled.length_eq] at counts
  exact ⟨bytes, counts⟩

/-- What has been allocated after a part of the delivery is no more than is
allocated in all. -/
theorem Delivery.fits_prefix (ordered : Ordered history)
    (delivery : Delivery history recorded records)
    {done rest : List HeapRecord} (split : records = done ++ rest)
    {pcs : List Nat} (fits : (trueStats history recorded pcs).Fits) :
    ((({} : HeapBook Nat).applyAll done).siteAt pcs).Fits := by
  obtain ⟨bytes, counts⟩ := allocated_eq_trueStats ordered delivery pcs
  obtain ⟨allBytes, allCounts⟩ := HeapBook.allocated_applyAll records pcs
  obtain ⟨doneBytes, doneCounts⟩ := HeapBook.allocated_applyAll done pcs
  have parts : allocs records = allocs done ++ allocs rest := by
    rw [split, allocs, List.filterMap_append]
    rfl
  rw [parts, List.filter_append] at allBytes allCounts
  rw [List.map_append, List.sum_append] at allBytes
  rw [List.length_append] at allCounts
  obtain ⟨bytesFit, countsFit⟩ := fits
  exact ⟨by omega, by omega⟩

theorem siteAt_eq_trueStats (ordered : Ordered history)
    (separated : Separated history)
    (delivery : Delivery history recorded records)
    (complete : ∀ entry : FreeEntry,
      .free entry ∈ history → .free entry ∈ records)
    (pcs : List Nat) :
    (({} : HeapBook Nat).applyAll records).siteAt pcs =
      trueStats history recorded pcs := by
  have balanced := HeapBook.balanced_empty.applyAll records
  obtain ⟨bytes, counts⟩ := allocated_eq_trueStats ordered delivery pcs
  have liveBytes : (({} : HeapBook Nat).applyAll records).liveBytes pcs =
      ((survivors history recorded).map fun record =>
        if record.pcs = pcs then record.sampleSize else 0).sum :=
    liveTotal_eq_survivors ordered separated delivery complete _
  have liveCount : (({} : HeapBook Nat).applyAll records).liveCount pcs =
      ((survivors history recorded).map fun record =>
        if record.pcs = pcs then 1 else 0).sum :=
    liveTotal_eq_survivors ordered separated delivery complete _
  have bytesSplit := sum_survivors history recorded pcs (·.sampleSize)
  have countSplit := sum_survivors history recorded pcs fun _ => 1
  simp only [List.map_const', List.sum_replicate_nat, Nat.mul_one]
    at countSplit
  have balancedBytes := balanced.bytes pcs
  have balancedCounts := balanced.counts pcs
  simp only [trueStats] at bytes counts
  ext1
  · exact bytes
  · simp only [trueStats]
    omega
  · exact counts
  · simp only [trueStats]
    omega

end

end Sismo.Heap
