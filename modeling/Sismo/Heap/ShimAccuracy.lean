import Sismo.Heap.ShimSteps

namespace Sismo.Heap.Shim

/-! The book against the real allocator, once every call has returned. -/

theorem Slot.alloc_mem_records {slot : Slot} {record : AllocRecord} :
    .alloc record ∈ slot.records ↔ slot = .alloc record := by
  cases slot with
  | reservedAlloc _ => simp [Slot.records]
  | alloc other =>
      simp only [Slot.records, List.mem_singleton, HeapRecord.alloc.injEq,
        Slot.alloc.injEq]
      exact eq_comm
  | frees _ => simp [Slot.records]

theorem Slot.free_mem_records {slot : Slot} {entry : FreeEntry} :
    .free entry ∈ slot.records ↔ entry ∈ slot.entries := by
  cases slot with
  | reservedAlloc _ => simp [Slot.records, Slot.entries]
  | alloc _ => simp [Slot.records, Slot.entries]
  | frees _ => simp [Slot.records, Slot.entries]

section

variable {s : State}

theorem alloc_mem_delivered {record : AllocRecord} :
    .alloc record ∈ delivered s ↔
      ∃ written ∈ s.ring, written.slot = .alloc record := by
  simp only [delivered, List.mem_flatMap, Slot.alloc_mem_records]

theorem free_mem_delivered {entry : FreeEntry} :
    .free entry ∈ delivered s ↔
      ∃ written ∈ s.ring, entry ∈ written.slot.entries := by
  simp only [delivered, List.mem_flatMap, Slot.free_mem_records]

namespace Invariant

theorem alloc_slot (inv : Invariant s) {written : RingRecord}
    (member : written ∈ s.ring) {record : AllocRecord}
    (slot : written.slot = .alloc record) :
    .alloc record ∈ s.history ∧ written.stamp ≤ record.seq := by
  obtain ⟨i, found⟩ := List.mem_iff_getElem?.mp member
  have ok := inv.ring.slot i written found
  rw [SlotOk, slot] at ok
  exact ok

theorem free_slot (inv : Invariant s) {written : RingRecord}
    (member : written ∈ s.ring) {entry : FreeEntry}
    (inEntries : entry ∈ written.slot.entries) :
    .free entry ∈ s.history ∧ entry.seq < written.stamp := by
  obtain ⟨i, found⟩ := List.mem_iff_getElem?.mp member
  have ok := inv.ring.slot i written found
  cases slot : written.slot with
  | frees entries =>
      rw [slot] at inEntries
      rw [SlotOk, slot] at ok
      exact ok.2 entry inEntries
  | reservedAlloc _ =>
      rw [slot] at inEntries
      exact absurd inEntries List.not_mem_nil
  | alloc _ =>
      rw [slot] at inEntries
      exact absurd inEntries List.not_mem_nil

/-- Of two allocation records of one address the one reserved first has the
smaller number. -/
theorem alloc_seq_lt (inv : Invariant s) {earlier later : RingRecord}
    (laterMem : later ∈ s.ring) (inOrder : InOrder earlier later)
    {first second : AllocRecord} (firstSlot : earlier.slot = .alloc first)
    (secondSlot : later.slot = .alloc second)
    (addr : first.addr = second.addr) : first.seq < second.seq := by
  obtain ⟨record, slot, less⟩ := inOrder.alloc first.addr
    (by rw [firstSlot]; rfl) (by rw [secondSlot, addr]; rfl)
  cases firstSlot.symm.trans slot
  exact less.trans_le (inv.alloc_slot laterMem secondSlot).2

theorem slot_nodup (inv : Invariant s) {written : RingRecord}
    (member : written ∈ s.ring) : written.slot.records.Nodup := by
  obtain ⟨i, found⟩ := List.mem_iff_getElem?.mp member
  have ok := inv.ring.slot i written found
  cases slot : written.slot with
  | reservedAlloc _ => exact List.nodup_nil
  | alloc _ => exact List.nodup_singleton _
  | frees entries =>
      rw [SlotOk, slot] at ok
      exact ok.1.map fun _ _ => HeapRecord.free.inj

theorem delivery (inv : Invariant s) :
    Delivery s.history (fun _ => true) (delivered s) where
  nodup := by
    refine List.nodup_flatMap.mpr ⟨fun written => inv.slot_nodup, ?_⟩
    refine inv.ring.order.imp_of_mem fun {x y} xMem yMem inOrder => ?_
    apply List.disjoint_left.mpr
    intro record inX inY
    cases record with
    | alloc record =>
        exact absurd (inv.alloc_seq_lt yMem inOrder
          (Slot.alloc_mem_records.mp inX) (Slot.alloc_mem_records.mp inY) rfl)
          (Nat.lt_irrefl _)
    | free entry =>
        exact inOrder.entries entry (Slot.free_mem_records.mp inX)
          (Slot.free_mem_records.mp inY)
  from_history := by
    intro record member
    cases record with
    | alloc record =>
        obtain ⟨written, inRing, slot⟩ := alloc_mem_delivered.mp member
        exact (inv.alloc_slot inRing slot).1
    | free entry =>
        obtain ⟨written, inRing, inEntries⟩ := free_mem_delivered.mp member
        exact (inv.free_slot inRing inEntries).1
  recorded_iff := by
    intro record member
    exact iff_of_true (alloc_mem_delivered.mpr (inv.ring.allocs record member))
      rfl
  alloc_order := by
    refine List.pairwise_flatMap.mpr ⟨fun written _ => ?_, ?_⟩
    · cases written.slot with
      | reservedAlloc _ => exact List.Pairwise.nil
      | alloc _ => exact List.pairwise_singleton _ _
      | frees entries =>
          refine List.pairwise_map.mpr (List.pairwise_of_forall ?_)
          intro _ _ first _ impossible
          cases impossible
    · refine inv.ring.order.imp_of_mem fun {x y} _ yMem inOrder => ?_
      rintro _ inX _ inY first second rfl rfl addr
      exact inv.alloc_seq_lt yMem inOrder (Slot.alloc_mem_records.mp inX)
        (Slot.alloc_mem_records.mp inY) addr
  free_order := by
    refine List.pairwise_flatMap.mpr ⟨fun written _ => ?_, ?_⟩
    · cases written.slot with
      | reservedAlloc _ => exact List.Pairwise.nil
      | alloc _ => exact List.pairwise_singleton _ _
      | frees entries =>
          refine List.pairwise_map.mpr (List.pairwise_of_forall ?_)
          intro _ _ _ record _ impossible
          cases impossible
    · refine inv.ring.order.imp_of_mem fun {x y} xMem yMem inOrder => ?_
      rintro _ inX _ inY entry record rfl rfl _
      calc
        entry.seq < x.stamp :=
          (inv.free_slot xMem (Slot.free_mem_records.mp inX)).2
        _ ≤ y.stamp := inOrder.stamp
        _ ≤ record.seq :=
          (inv.alloc_slot yMem (Slot.alloc_mem_records.mp inY)).2

theorem frees_delivered (inv : Invariant s) (quiet : Quiet s)
    (entry : FreeEntry) (member : .free entry ∈ s.history) :
    .free entry ∈ delivered s := by
  rcases inv.ring.frees entry member with ⟨t, inBatch⟩ | written
  · rw [(quiet t).2] at inBatch
    exact absurd inBatch List.not_mem_nil
  · exact free_mem_delivered.mpr written

theorem matched (inv : Invariant s) :
    Matches s.history (delivered s) (delivered s) (book s) :=
  matches_prefix inv.stamps.ordered inv.separated inv.delivery
    (List.append_nil _).symm

theorem live_block (inv : Invariant s) (quiet : Quiet s) {addr : Nat}
    {l : LiveAlloc} (live : l ∈ (book s).liveAt addr) :
    ∃ block, s.blocks addr = some block ∧ block.sampleSize ≠ 0 ∧
      l = ⟨l.seq, block.sampleSize, block.pcs⟩ ∧ block.seq = some l.seq := by
  obtain ⟨record, member, rfl, rfl⟩ := inv.matched.live_from addr l live
  have inHistory := inv.delivery.from_history _ member
  have notFreed := (inv.matched.live_iff (inv.frees_delivered quiet)
    member).mp live
  obtain ⟨block, found, seqEq⟩ :=
    (inv.heap.records record inHistory).resolve_left notFreed
  obtain ⟨sampled, other, otherMem, _, otherLive⟩ :=
    (inv.heap.block _ block found).record _ seqEq
  have same : other = record := HeapRecord.alloc.inj
    (inv.stamps.ordered.eq_of_seq otherMem inHistory
      (congrArg LiveAlloc.seq otherLive))
  subst same
  exact ⟨block, found, sampled, otherLive, seqEq⟩

theorem not_busy (inv : Invariant s) (quiet : Quiet s) {addr : Nat}
    {block : Block} (found : s.blocks addr = some block) :
    block.busy = false := by
  cases busy : block.busy with
  | false => rfl
  | true =>
      obtain ⟨t, owns⟩ := inv.heap.owner addr block found busy
      rw [(quiet t).1] at owns
      cases owns

/-- A sampled block is listed unless a realloc of it has failed. -/
theorem liveAt_block (inv : Invariant s) (quiet : Quiet s) {addr : Nat}
    {block : Block} (found : s.blocks addr = some block)
    (sampled : block.sampleSize ≠ 0) :
    ((book s).liveAt addr).map (fun l => (l.sampleSize, l.pcs)) =
      if block.reallocFailed then [] else [(block.sampleSize, block.pcs)] := by
  have blockOk := inv.heap.block addr block found
  obtain ⟨recorded, queuedEq⟩ := blockOk.settled (inv.not_busy quiet found)
  obtain ⟨seq, seqEq⟩ := Option.isSome_iff_exists.mp (recorded sampled)
  obtain ⟨_, record, member, rfl, live⟩ := blockOk.record seq seqEq
  have recordSeq : record.seq = seq := congrArg LiveAlloc.seq live
  have only : ∀ l ∈ (book s).liveAt record.addr, l = record.live := by
    intro l inLive
    obtain ⟨other, otherFound, _, lEq, otherSeq⟩ := inv.live_block quiet inLive
    cases found.symm.trans otherFound
    have lSeq : l.seq = seq := Option.some.inj (otherSeq.symm.trans seqEq)
    rw [live, lEq, lSeq]
  have listed := inv.matched.live_iff (inv.frees_delivered quiet)
    (alloc_mem_delivered.mpr (inv.ring.allocs record member))
  have freed : Freed s.history record ↔ block.reallocFailed = true := by
    rw [← queuedEq, blockOk.queued seq seqEq, ← recordSeq]
    exact exists_congr fun entry => and_congr_left fun _ => mem_frees
  cases failed : block.reallocFailed with
  | true =>
      have dead : record.live ∉ (book s).liveAt record.addr := fun isLive =>
        listed.mp isLive (freed.mpr failed)
      have empty : (book s).liveAt record.addr = [] :=
        List.eq_nil_iff_forall_not_mem.mpr fun l inLive =>
          dead (only l inLive ▸ inLive)
      rw [empty]
      rfl
  | false =>
      have isLive : record.live ∈ (book s).liveAt record.addr :=
        listed.mpr fun isFreed => by
          simp [failed] at freed
          exact freed isFreed
      have sorted := inv.matched.live_sorted record.addr
      have single : (book s).liveAt record.addr = [record.live] := by
        cases list : (book s).liveAt record.addr with
        | nil =>
            rw [list] at isLive
            exact absurd isLive List.not_mem_nil
        | cons head tail =>
            rw [list] at only sorted
            have headEq := only head List.mem_cons_self
            cases tail with
            | nil => rw [headEq]
            | cons second rest =>
                have secondEq := only second (by simp)
                have less := List.rel_of_pairwise_cons sorted
                  (List.mem_cons_self : second ∈ second :: rest)
                rw [headEq, secondEq] at less
                exact absurd less (Nat.lt_irrefl _)
      rw [single, live]
      rfl

end Invariant

end

/-- Once every call has returned and every queued free has been flushed, the
live entries are the sampled blocks still allocated if and only if none of
these has been the argument of a failed realloc. -/
theorem accurate_iff {before : Nat → Bool} {s : State}
    (reached : Machine.Reachable step (State.initial before) s)
    (quiet : Quiet s) :
    Accurate s ↔ ∀ addr block, s.blocks addr = some block →
      block.sampleSize ≠ 0 → block.reallocFailed = false := by
  have inv := Invariant.reachable reached
  constructor
  · intro accurate addr block found sampled
    have same := accurate addr
    rw [inv.liveAt_block quiet found sampled, sampledAt, found] at same
    simp only [if_neg sampled] at same
    cases failed : block.reallocFailed with
    | false => rfl
    | true =>
        rw [failed] at same
        cases same
  · intro unfailed addr
    rw [sampledAt]
    cases found : s.blocks addr with
    | none =>
        have empty : (book s).liveAt addr = [] :=
          List.eq_nil_iff_forall_not_mem.mpr fun l inLive => by
            obtain ⟨block, present, _⟩ := inv.live_block quiet inLive
            cases found.symm.trans present
        rw [empty]
        rfl
    | some block =>
        by_cases sampled : block.sampleSize = 0
        · have empty : (book s).liveAt addr = [] :=
            List.eq_nil_iff_forall_not_mem.mpr fun l inLive => by
              obtain ⟨other, present, isSampled, _⟩ := inv.live_block quiet inLive
              cases found.symm.trans present
              exact isSampled sampled
          simp only [sampled, empty]
          rfl
        · rw [inv.liveAt_block quiet found sampled,
            unfailed addr block found sampled]
          simp [sampled]

/-- A sampled block is reallocated with the given result, and the free that the
realloc queues is flushed. -/
def reallocRun (newPtr : Nat) : List Action :=
  [.alloc 0 4096 [0xa], .allocResult 0 0x1000, .emit 0, .emit 0,
    .realloc 0 0x1000 8192 [0xb], .queue 0 false, .reallocResult 0 newPtr] ++
  (if newPtr = 0 then [] else [.emit 0, .emit 0]) ++
  [.lastFlush 0, .flush 0]

theorem accurate_reallocRun :
    ∃ s, Machine.run step (State.initial fun _ => false) (reallocRun 0x1000) =
      some s ∧ Accurate s := by
  refine ⟨_, rfl, (@accurate_iff (fun _ => false) _
    ⟨reallocRun 0x1000, rfl⟩ fun t => ?_).mpr ?_⟩
  · rcases t with _ | t <;> exact ⟨rfl, rfl⟩
  · intro addr block found sampled
    rcases eq_or_ne addr 0x1000 with rfl | other
    · cases found
      rfl
    · exfalso
      simp [State.initial, State.setBlock, State.setPlace, State.allocate,
        State.number, State.reserve, FreeCall.ptr, other] at found

/-- The failed realloc leaves the block allocated and unlisted. -/
theorem not_accurate_failed_realloc :
    ∃ s, Machine.run step (State.initial fun _ => false) (reallocRun 0) =
      some s ∧ Quiet s ∧ ¬ Accurate s := by
  refine ⟨_, rfl, fun t => ?_, fun accurate => ?_⟩
  · rcases t with _ | t <;> exact ⟨rfl, rfl⟩
  · exact absurd (accurate 0x1000) (by decide)

end Sismo.Heap.Shim
