import Sismo.Heap.Outcome

namespace Sismo.Heap

/-! What really happened in the target: the ground truth behind the records. -/

/-- Allocations and frees of one address take turns; `held` says whether the
address is allocated before the first event. -/
def Alternates : Bool → List HeapRecord → Prop
  | _, [] => True
  | held, .alloc _ :: rest => held = false ∧ Alternates true rest
  | held, .free _ :: rest => held = true ∧ Alternates false rest

instance decidableAlternates :
    (held : Bool) → (events : List HeapRecord) →
      Decidable (Alternates held events)
  | _, [] => .isTrue trivial
  | held, .alloc _ :: rest =>
      have := decidableAlternates true rest
      inferInstanceAs (Decidable (held = false ∧ Alternates true rest))
  | held, .free _ :: rest =>
      have := decidableAlternates false rest
      inferInstanceAs (Decidable (held = true ∧ Alternates false rest))

/-- The allocations and frees of a run in the order of their numbers. -/
structure PhysicalRun where
  events : List HeapRecord
  ordered : Ordered events
  alternates : ∀ addr, Alternates false (events.filter (·.addr = addr))

namespace Alternates

theorem tail {held : Bool} {head : HeapRecord} {rest : List HeapRecord}
    (alternates : Alternates held (head :: rest)) :
    ∃ next, Alternates next rest := by
  cases head with
  | alloc _ => exact ⟨true, alternates.2⟩
  | free _ => exact ⟨false, alternates.2⟩

theorem after_alloc {held : Bool} {before after : List HeapRecord}
    {record : AllocRecord}
    (alternates : Alternates held (before ++ .alloc record :: after)) :
    Alternates true after := by
  induction before generalizing held with
  | nil => exact alternates.2
  | cons head rest induction =>
      obtain ⟨next, tail⟩ := alternates.tail
      exact induction tail

/-- While the address is held, the next event frees it. -/
theorem held_head {events : List HeapRecord}
    (alternates : Alternates true events) (nonempty : events ≠ []) :
    ∃ entry rest, events = .free entry :: rest := by
  match events, nonempty with
  | .alloc _ :: _, _ => exact absurd alternates.1 (by decide)
  | .free entry :: rest, _ => exact ⟨entry, rest, rfl⟩

theorem free_between {events : List HeapRecord} {held : Bool}
    (alternates : Alternates held events) (ordered : Ordered events)
    {first second : AllocRecord} (firstMem : .alloc first ∈ events)
    (secondMem : .alloc second ∈ events) (less : first.seq < second.seq) :
    ∃ entry : FreeEntry, .free entry ∈ events ∧ first.seq < entry.seq ∧
      entry.seq < second.seq := by
  obtain ⟨before, after, rfl⟩ := List.append_of_mem firstMem
  have pieces := List.pairwise_append.mp ordered
  have afterLess := List.pairwise_cons.mp pieces.2.1
  have secondAfter : HeapRecord.alloc second ∈ after := by
    rcases List.mem_append.mp secondMem with inBefore | here
    · have : second.seq < first.seq :=
        pieces.2.2 _ inBefore _ List.mem_cons_self
      omega
    · rcases List.mem_cons.mp here with same | inAfter
      · cases same
        omega
      · exact inAfter
  obtain ⟨entry, rest, rfl⟩ :=
    alternates.after_alloc.held_head (List.ne_nil_of_mem secondAfter)
  refine ⟨entry, by simp, afterLess.1 _ List.mem_cons_self, ?_⟩
  rcases List.mem_cons.mp secondAfter with same | inRest
  · cases same
  · exact (List.pairwise_cons.mp afterLess.2).1 _ inRest

end Alternates

namespace PhysicalRun

def eventsAt (run : PhysicalRun) (addr : Nat) : List HeapRecord :=
  run.events.filter (·.addr = addr)

theorem mem_eventsAt {run : PhysicalRun} {addr : Nat} {event : HeapRecord} :
    event ∈ run.eventsAt addr ↔ event ∈ run.events ∧ event.addr = addr := by
  simp [eventsAt]

theorem eventsAt_ordered (run : PhysicalRun) (addr : Nat) :
    Ordered (run.eventsAt addr) :=
  run.ordered.filter _

theorem separated (run : PhysicalRun) : Separated run.events := by
  intro first second firstMem secondMem addr less
  obtain ⟨entry, member, later, earlier⟩ :=
    (run.alternates first.addr).free_between (run.eventsAt_ordered first.addr)
      (mem_eventsAt.mpr ⟨firstMem, rfl⟩)
      (mem_eventsAt.mpr ⟨secondMem, addr.symm⟩) less
  obtain ⟨inEvents, here⟩ := mem_eventsAt.mp member
  exact ⟨entry, inEvents, here, later, earlier⟩

end PhysicalRun

/-- After every prefix of a delivery the book has only retired what was freed
and its totals are those of its live entries; after all frees it holds the
recorded allocations still allocated, and the true totals of every callstack
whose recorded allocations fit in 64 bits. -/
theorem book_follows_run (run : PhysicalRun) (recorded : AllocRecord → Bool)
    (records : List HeapRecord)
    (delivery : Delivery run.events recorded records) :
    (∀ done rest, records = done ++ rest →
      (∀ record : AllocRecord, .alloc record ∈ done →
        record.live ∉
          (({} : HeapBook UInt64).applyAll done).liveAt record.addr →
        Freed run.events record) ∧
      ∀ pcs, (trueStats run.events recorded pcs).Fits →
        let site := (({} : HeapBook UInt64).applyAll done).siteAt pcs
        site.freed ≤ site.allocated ∧ site.freeCount ≤ site.allocCount ∧
        site.allocated.toNat - site.freed.toNat =
          (({} : HeapBook UInt64).applyAll done).liveBytes pcs ∧
        site.allocCount.toNat - site.freeCount.toNat =
          (({} : HeapBook UInt64).applyAll done).liveCount pcs) ∧
    ((∀ entry : FreeEntry,
        .free entry ∈ run.events → .free entry ∈ records) →
      (({} : HeapBook UInt64).applyAll records).liveEntries.Perm
        ((survivors run.events recorded).map fun record =>
          (record.addr, record.live)) ∧
      ∀ pcs, (trueStats run.events recorded pcs).Fits →
        ((({} : HeapBook UInt64).applyAll records).siteAt pcs).unwrapped =
          trueStats run.events recorded pcs) := by
  constructor
  · intro done rest split
    have matched := matches_prefix run.ordered run.separated delivery split
    have balanced := HeapBook.balanced_empty.applyAll done
    have wraps := HeapBook.wraps_applyAll done
    constructor
    · intro record member gone
      rw [wraps.liveAt] at gone
      exact matched.retired record member gone
    · intro pcs fits
      have bytes := balanced.bytes pcs
      have counts := balanced.counts pcs
      have true_ := wraps.unwrapped_siteAt balanced
        (delivery.fits_prefix run.ordered split fits)
      rw [← true_] at bytes counts
      simp only [SiteStats.unwrapped] at bytes counts
      dsimp only
      rw [UInt64.le_iff_toNat_le, UInt64.le_iff_toNat_le,
        HeapBook.liveBytes, HeapBook.liveCount, wraps.liveTotal,
        wraps.liveTotal]
      rw [HeapBook.liveBytes] at bytes
      rw [HeapBook.liveCount] at counts
      refine ⟨?_, ?_, ?_, ?_⟩ <;> omega
  · intro complete
    have wraps := HeapBook.wraps_applyAll records
    constructor
    · rw [wraps.liveEntries]
      exact liveEntries_perm_survivors run.ordered run.separated delivery
        complete
    · intro pcs fits
      have true_ := siteAt_eq_trueStats run.ordered run.separated delivery
        complete pcs
      rw [← true_] at fits ⊢
      exact wraps.unwrapped_siteAt
        (HeapBook.balanced_empty.applyAll records) fits

/-- One address reused for every allocation, the first of them not recorded and
the frees of the others arriving late and out of order. -/
def churnRun : PhysicalRun where
  events := [.alloc ⟨1, 0x1000, 100, [0xa]⟩, .free ⟨2, 0x1000⟩,
    .alloc ⟨3, 0x1000, 200, [0xa]⟩, .free ⟨4, 0x1000⟩,
    .alloc ⟨5, 0x1000, 300, [0xa]⟩]
  ordered := by
    rw [Ordered]
    decide
  alternates addr := by
    by_cases here : 0x1000 = addr
    · subst here
      decide
    · simp [HeapRecord.addr, here, Alternates]

def churnRecords : List HeapRecord :=
  [.alloc ⟨3, 0x1000, 200, [0xa]⟩, .alloc ⟨5, 0x1000, 300, [0xa]⟩,
    .free ⟨4, 0x1000⟩, .free ⟨2, 0x1000⟩]

theorem book_follows_churnRun :
    (({} : HeapBook UInt64).applyAll churnRecords).liveEntries.Perm
        [(0x1000, ⟨5, 300, [0xa]⟩)] ∧
      ((({} : HeapBook UInt64).applyAll churnRecords).siteAt
        [0xa]).unwrapped = ⟨500, 200, 2, 1⟩ := by
  have delivery : Delivery churnRun.events (fun record => record.seq ≠ 1)
      churnRecords :=
    { nodup := by decide
      from_history := by decide
      recorded_iff := by
        rintro ⟨seq, addr, size, pcs⟩ member
        simp only [churnRun, churnRecords, List.mem_cons, HeapRecord.alloc.injEq,
          AllocRecord.mk.injEq, List.not_mem_nil, or_false,
          reduceCtorEq, false_or] at member ⊢
        rcases member with ⟨rfl, rfl, rfl, rfl⟩ | ⟨rfl, rfl, rfl, rfl⟩ |
          ⟨rfl, rfl, rfl, rfl⟩ <;> decide
      alloc_order := by simp [churnRecords]
      free_order := by simp [churnRecords] }
  obtain ⟨_, complete⟩ := book_follows_run churnRun _ _ delivery
  obtain ⟨live, sites⟩ := complete (by simp [churnRun, churnRecords])
  exact ⟨live, (sites [0xa] (by decide)).trans (by decide)⟩

/-- Two sampled allocations of 2^63 bytes each on one callstack, and the free
of the first. -/
def hugeRun : PhysicalRun where
  events := [.alloc ⟨1, 0x1000, 2 ^ 63, [0xa]⟩,
    .alloc ⟨2, 0x2000, 2 ^ 63, [0xa]⟩, .free ⟨3, 0x1000⟩]
  ordered := by
    rw [Ordered]
    decide
  alternates addr := by
    by_cases first : 0x1000 = addr
    · subst first
      decide
    · by_cases second : 0x2000 = addr
      · subst second
        decide
      · simp [HeapRecord.addr, first, second, Alternates]

/-- All records arrive in order, the callstack's allocated bytes wrap around to
0, and the freed bytes exceed them. -/
theorem book_wraps_hugeRun :
    Delivery hugeRun.events (fun _ => true) hugeRun.events ∧
      let site := (({} : HeapBook UInt64).applyAll hugeRun.events).siteAt [0xa]
      site.allocated = 0 ∧ site.allocated < site.freed ∧
        (trueStats hugeRun.events (fun _ => true) [0xa]).allocated =
          2 ^ 64 := by
  refine ⟨?_, by decide⟩
  exact {
    nodup := by decide
    from_history := fun _ member => member
    recorded_iff := fun _ member => by simp [member]
    alloc_order := by simp [hugeRun]
    free_order := by simp [hugeRun] }

end Sismo.Heap
