import Sismo.Heap.BookTotals
import Sismo.Lib.Matching

namespace Sismo.Heap

/-! A history of allocations and frees in sequence order, and the deliveries of
its records that the book accounts for correctly. -/

def Ordered (history : List HeapRecord) : Prop :=
  history.Pairwise fun first second => first.seq < second.seq

/-- Two allocations of one address have a free of that address between them. -/
def Separated (history : List HeapRecord) : Prop :=
  ∀ first second : AllocRecord,
    .alloc first ∈ history → .alloc second ∈ history →
    first.addr = second.addr → first.seq < second.seq →
    ∃ entry : FreeEntry, .free entry ∈ history ∧ entry.addr = first.addr ∧
      first.seq < entry.seq ∧ entry.seq < second.seq

def Freed (history : List HeapRecord) (record : AllocRecord) : Prop :=
  ∃ entry ∈ frees history,
    entry.addr = record.addr ∧ record.seq < entry.seq

instance (history : List HeapRecord) (record : AllocRecord) :
    Decidable (Freed history record) :=
  inferInstanceAs (Decidable (∃ entry ∈ frees history,
    entry.addr = record.addr ∧ record.seq < entry.seq))

/-- The records of the sampled allocations, all of them, and of some of the
frees, in an order that keeps the allocations of one address in sequence and
puts every free after the sampled allocations it may belong to. -/
structure Delivery (history : List HeapRecord) (recorded : AllocRecord → Bool)
    (records : List HeapRecord) : Prop where
  nodup : records.Nodup
  from_history : ∀ record ∈ records, record ∈ history
  recorded_iff : ∀ record : AllocRecord, .alloc record ∈ history →
    (.alloc record ∈ records ↔ recorded record = true)
  alloc_order : records.Pairwise fun earlier later =>
    ∀ first second : AllocRecord,
      earlier = .alloc first → later = .alloc second →
      first.addr = second.addr → first.seq < second.seq
  free_order : records.Pairwise fun earlier later =>
    ∀ (entry : FreeEntry) (record : AllocRecord),
      earlier = .free entry → later = .alloc record →
      entry.addr = record.addr → entry.seq < record.seq

theorem Ordered.eq_of_seq {history : List HeapRecord}
    (ordered : Ordered history) {first second : HeapRecord}
    (firstMem : first ∈ history) (secondMem : second ∈ history)
    (same : first.seq = second.seq) : first = second := by
  induction history with
  | nil => simp at firstMem
  | cons head tail induction =>
      obtain ⟨headLess, tailOrdered⟩ := List.pairwise_cons.mp ordered
      rcases List.mem_cons.mp firstMem with rfl | firstTail
      · rcases List.mem_cons.mp secondMem with rfl | secondTail
        · rfl
        · exact absurd same (headLess _ secondTail).ne
      · rcases List.mem_cons.mp secondMem with rfl | secondTail
        · exact absurd same.symm (headLess _ firstTail).ne
        · exact induction tailOrdered firstTail secondTail

/-- Every freed allocation has a first free after it, and two allocations of
one address never share it. -/
theorem exists_first_free {history : List HeapRecord} {record : AllocRecord}
    (freed : Freed history record) :
    ∃ entry, .free entry ∈ history ∧ entry.addr = record.addr ∧
      record.seq < entry.seq ∧
      ∀ other : FreeEntry, .free other ∈ history →
        other.addr = record.addr → record.seq < other.seq →
        entry.seq ≤ other.seq := by
  obtain ⟨entry, member, addr, later⟩ := freed
  let candidates := ((frees history).filter fun other =>
    other.addr = record.addr ∧ record.seq < other.seq).toFinset
  have nonempty : candidates.Nonempty :=
    ⟨entry, by simp [candidates, mem_frees.mp member, addr, later]⟩
  obtain ⟨first, firstMem, least⟩ :=
    candidates.exists_min_image FreeEntry.seq nonempty
  simp only [candidates, List.mem_toFinset, List.mem_filter, mem_frees,
    decide_eq_true_eq] at firstMem least
  exact ⟨first, firstMem.1, firstMem.2.1, firstMem.2.2,
    fun other otherMem otherAddr otherLater =>
      least other ⟨otherMem, otherAddr, otherLater⟩⟩

section Matching

variable {history : List HeapRecord} {recorded : AllocRecord → Bool}
variable {records : List HeapRecord}

def pendingFrees (history done : List HeapRecord) (addr : Nat) : Finset Nat :=
  (((frees history).filter fun entry =>
    entry.addr = addr ∧ .free entry ∉ done).map FreeEntry.seq).toFinset

/-- Freed allocations of an address that the book still has to retire: those it
holds live and those it has not seen yet. -/
def pendingAllocs (history records done : List HeapRecord) (book : HeapBook Nat)
    (addr : Nat) : Finset Nat :=
  (((allocs records).filter fun record =>
    record.addr = addr ∧ Freed history record ∧
      (.alloc record ∈ done → record.live ∈ book.liveAt addr)).map
        AllocRecord.seq).toFinset

theorem mem_pendingFrees {done : List HeapRecord} {addr seq : Nat} :
    seq ∈ pendingFrees history done addr ↔
      ∃ entry : FreeEntry, .free entry ∈ history ∧ entry.addr = addr ∧
        .free entry ∉ done ∧ entry.seq = seq := by
  simp [pendingFrees, and_assoc]

theorem mem_pendingAllocs {done : List HeapRecord} {book : HeapBook Nat}
    {addr seq : Nat} :
    seq ∈ pendingAllocs history records done book addr ↔
      ∃ record : AllocRecord, .alloc record ∈ records ∧ record.addr = addr ∧
        Freed history record ∧
        (.alloc record ∈ done → record.live ∈ book.liveAt addr) ∧
        record.seq = seq := by
  simp [pendingAllocs, and_assoc, imp_iff_not_or]

/-- What the book knows after the records `done`, a prefix of `records`. -/
structure Matches (history records done : List HeapRecord)
    (book : HeapBook Nat) : Prop where
  live_from : ∀ addr, ∀ l ∈ book.liveAt addr, ∃ record : AllocRecord,
    .alloc record ∈ done ∧ record.addr = addr ∧ record.live = l
  live_sorted : ∀ addr,
    (book.liveAt addr).Pairwise fun first second => first.seq < second.seq
  retired : ∀ record : AllocRecord, .alloc record ∈ done →
    record.live ∉ book.liveAt record.addr → Freed history record
  covers : ∀ addr, Covers (pendingFrees history done addr)
    (pendingAllocs history records done book addr)

theorem Matches.initial (separated : Separated history)
    (delivery : Delivery history recorded records) :
    Matches history records [] {} where
  live_from := by simp
  live_sorted := by simp
  retired := by simp
  covers addr := by
    -- Pair each allocation with the first free of its address after it.
    have freedAt : ∀ seq ∈ pendingAllocs history records [] {} addr,
        ∃ record : AllocRecord, .alloc record ∈ history ∧
          record.addr = addr ∧ Freed history record ∧ record.seq = seq := by
      intro seq member
      obtain ⟨record, recordMem, same, freed, _, rfl⟩ :=
        mem_pendingAllocs.mp member
      exact ⟨record, delivery.from_history _ recordMem, same, freed, rfl⟩
    choose! record recordMem recordAddr freed recordSeq using freedAt
    have firstFree : ∀ seq ∈ pendingAllocs history records [] {} addr,
        ∃ entry : FreeEntry, .free entry ∈ history ∧ entry.addr = addr ∧
          seq < entry.seq ∧ ∀ other : FreeEntry, .free other ∈ history →
            other.addr = addr → seq < other.seq → entry.seq ≤ other.seq := by
      intro seq member
      have := exists_first_free (freed seq member)
      rwa [recordAddr seq member, recordSeq seq member] at this
    choose! entry entryMem entryAddr later least using firstFree
    refine Covers.of_pairing (fun seq => (entry seq).seq) ?_ later ?_
    · intro seq member
      exact mem_pendingFrees.mpr
        ⟨entry seq, entryMem seq member, entryAddr seq member, by simp, rfl⟩
    · -- Between two allocations there is a free, so first frees differ.
      have strict : ∀ low ∈ pendingAllocs history records [] {} addr,
          ∀ high ∈ pendingAllocs history records [] {} addr,
          low < high → (entry low).seq < (entry high).seq := by
        intro low lowMem high highMem less
        obtain ⟨between, betweenMem, betweenAddr, after, before⟩ :=
          separated (record low) (record high) (recordMem low lowMem)
            (recordMem high highMem)
            ((recordAddr low lowMem).trans (recordAddr high highMem).symm)
            (by rwa [recordSeq low lowMem, recordSeq high highMem])
        rw [recordSeq low lowMem] at after
        rw [recordSeq high highMem] at before
        calc
          (entry low).seq ≤ between.seq := least low lowMem between betweenMem
            (betweenAddr.trans (recordAddr low lowMem)) after
          _ < high := before
          _ < (entry high).seq := later high highMem
      intro low lowMem high highMem same
      rcases lt_trichotomy low high with less | equal | greater
      · exact absurd same (strict low lowMem high highMem less).ne
      · exact equal
      · exact absurd same (strict high highMem low lowMem greater).ne'

theorem Matches.live_seq_lt {done rest : List HeapRecord} {book : HeapBook Nat}
    (delivery : Delivery history recorded records)
    (matched : Matches history records done book) {record : AllocRecord}
    (records_eq : records = done ++ .alloc record :: rest) :
    ∀ l ∈ book.liveAt record.addr, l.seq < record.seq := by
  intro l member
  obtain ⟨earlier, earlierMem, addr, rfl⟩ := matched.live_from _ l member
  have order := delivery.alloc_order
  rw [records_eq, List.pairwise_append] at order
  exact order.2.2 _ earlierMem _ List.mem_cons_self earlier record rfl rfl addr

theorem Matches.step_alloc {done rest : List HeapRecord} {book : HeapBook Nat}
    (delivery : Delivery history recorded records)
    (matched : Matches history records done book) {record : AllocRecord}
    (records_eq : records = done ++ .alloc record :: rest) :
    Matches history records (done ++ [.alloc record])
      (book.applyAlloc record) where
  live_from := by
    intro addr l member
    rw [HeapBook.liveAt_applyAlloc] at member
    split at member
    · next same =>
        rcases List.mem_append.mp member with old | new
        · obtain ⟨source, sourceMem, facts⟩ := matched.live_from addr l old
          exact ⟨source, List.mem_append_left _ sourceMem, facts⟩
        · exact ⟨record, by simp, same.symm, (List.mem_singleton.mp new).symm⟩
    · obtain ⟨source, sourceMem, facts⟩ := matched.live_from addr l member
      exact ⟨source, List.mem_append_left _ sourceMem, facts⟩
  live_sorted := by
    intro addr
    rw [HeapBook.liveAt_applyAlloc]
    split
    · next same =>
        subst same
        refine List.pairwise_append.mpr
          ⟨matched.live_sorted _, List.pairwise_singleton _ _, ?_⟩
        intro l member new newMem
        obtain rfl := List.mem_singleton.mp newMem
        exact matched.live_seq_lt delivery records_eq l member
    · exact matched.live_sorted addr
  retired := by
    intro source sourceMem dead
    rw [HeapBook.liveAt_applyAlloc] at dead
    rcases List.mem_append.mp sourceMem with old | new
    · refine matched.retired source old fun live => dead ?_
      split
      · exact List.mem_append_left _ live
      · exact live
    · obtain rfl : source = record := by simpa using new
      simp at dead
  covers := by
    intro addr
    have same : pendingFrees history (done ++ [.alloc record]) addr =
        pendingFrees history done addr := by
      ext seq
      simp [mem_pendingFrees]
    rw [same]
    refine (matched.covers addr).anti fun seq member => ?_
    obtain ⟨source, sourceMem, addrEq, freed, live, rfl⟩ :=
      mem_pendingAllocs.mp member
    refine mem_pendingAllocs.mpr
      ⟨source, sourceMem, addrEq, freed, fun old => ?_, rfl⟩
    have stillLive := live (List.mem_append_left _ old)
    rw [HeapBook.liveAt_applyAlloc] at stillLive
    split at stillLive
    · next same =>
        -- The record being applied is not among those already applied.
        rcases List.mem_append.mp stillLive with older | new
        · exact older
        · have nodup := delivery.nodup
          have ordered := delivery.alloc_order
          rw [records_eq] at nodup ordered
          have seqEq : source.seq = record.seq :=
            congrArg LiveAlloc.seq (List.mem_singleton.mp new)
          have less := (List.pairwise_append.mp ordered).2.2 _ old _
            List.mem_cons_self source record rfl rfl (addrEq.trans same)
          omega
    · exact stillLive

theorem mem_pendingFrees_step {done rest : List HeapRecord} {entry : FreeEntry}
    (ordered : Ordered history) (delivery : Delivery history recorded records)
    (records_eq : records = done ++ .free entry :: rest) (addr : Nat) :
    pendingFrees history (done ++ [.free entry]) addr =
      if addr = entry.addr then
        (pendingFrees history done addr).erase entry.seq
      else pendingFrees history done addr := by
  have entryMem : HeapRecord.free entry ∈ history :=
    delivery.from_history _ (by rw [records_eq]; simp)
  ext seq
  split
  · next same =>
      simp only [Finset.mem_erase, mem_pendingFrees, List.mem_append,
        List.mem_singleton, HeapRecord.free.injEq, not_or]
      constructor
      · rintro ⟨other, otherMem, otherAddr, ⟨fresh, distinct⟩, rfl⟩
        refine ⟨fun seqEq => distinct ?_, other, otherMem, otherAddr, fresh, rfl⟩
        exact HeapRecord.free.inj (ordered.eq_of_seq otherMem entryMem seqEq)
      · rintro ⟨distinct, other, otherMem, otherAddr, fresh, rfl⟩
        exact ⟨other, otherMem, otherAddr,
          ⟨fresh, fun equal => distinct (congrArg FreeEntry.seq equal)⟩, rfl⟩
  · next different =>
      simp only [mem_pendingFrees, List.mem_append, List.mem_singleton,
        HeapRecord.free.injEq, not_or]
      constructor
      · rintro ⟨other, otherMem, otherAddr, ⟨fresh, _⟩, rfl⟩
        exact ⟨other, otherMem, otherAddr, fresh, rfl⟩
      · rintro ⟨other, otherMem, otherAddr, fresh, rfl⟩
        refine ⟨other, otherMem, otherAddr, ⟨fresh, fun equal => ?_⟩, rfl⟩
        exact different (otherAddr.symm.trans (congrArg FreeEntry.addr equal))

theorem Matches.older_live {done rest : List HeapRecord} {book : HeapBook Nat}
    (delivery : Delivery history recorded records) {entry : FreeEntry}
    (records_eq : records = done ++ .free entry :: rest)
    {record : AllocRecord} (member : .alloc record ∈ records)
    (addr : record.addr = entry.addr) (older : record.seq < entry.seq)
    (pending : .alloc record ∈ done → record.live ∈ book.liveAt entry.addr) :
    record.live ∈ book.liveAt entry.addr := by
  rw [records_eq, List.mem_append, List.mem_cons] at member
  rcases member with applied | same | later
  · exact pending applied
  · cases same
  · have order := delivery.free_order
    rw [records_eq, List.pairwise_append] at order
    have := List.rel_of_pairwise_cons order.2.1 later entry record rfl rfl
      addr.symm
    omega

theorem Matches.stale {done rest : List HeapRecord} {book : HeapBook Nat}
    (ordered : Ordered history) (delivery : Delivery history recorded records)
    (matched : Matches history records done book) {entry : FreeEntry}
    (records_eq : records = done ++ .free entry :: rest)
    (stale : book.liveAt entry.addr = [] ∨ ∃ head tail,
      book.liveAt entry.addr = head :: tail ∧ entry.seq ≤ head.seq) :
    Matches history records (done ++ [.free entry]) book where
  live_from := by
    intro addr l member
    obtain ⟨source, sourceMem, facts⟩ := matched.live_from addr l member
    exact ⟨source, List.mem_append_left _ sourceMem, facts⟩
  live_sorted := matched.live_sorted
  retired := by
    intro source sourceMem
    exact matched.retired source (by simpa using sourceMem)
  covers := by
    intro addr
    have noOlder : ∀ l ∈ book.liveAt entry.addr, entry.seq ≤ l.seq := by
      intro l member
      rcases stale with empty | ⟨head, tail, eq, bound⟩
      · simp [empty] at member
      · have sorted := matched.live_sorted entry.addr
        rw [eq] at member sorted
        rcases List.mem_cons.mp member with rfl | inTail
        · exact bound
        · have := List.rel_of_pairwise_cons sorted inTail
          omega
    have unchanged : pendingAllocs history records (done ++ [.free entry]) book
        addr = pendingAllocs history records done book addr := by
      ext seq
      simp [mem_pendingAllocs]
    rw [unchanged, mem_pendingFrees_step ordered delivery records_eq]
    split
    · next same =>
        subst same
        refine (matched.covers _).erase_release fun seq member => ?_
        obtain ⟨record, recordMem, addr, _, pending, rfl⟩ :=
          mem_pendingAllocs.mp member
        by_contra older
        have live := Matches.older_live delivery records_eq recordMem addr
          (by omega) pending
        exact older (noOlder _ live)
    · exact matched.covers addr

theorem Matches.retire {done rest : List HeapRecord} {book next : HeapBook Nat}
    (ordered : Ordered history) (delivery : Delivery history recorded records)
    (matched : Matches history records done book) {entry : FreeEntry}
    (records_eq : records = done ++ .free entry :: rest)
    {before after : List LiveAlloc} {taken : LiveAlloc}
    (eq : book.liveAt entry.addr = before ++ taken :: after)
    (older : taken.seq < entry.seq)
    (newer : after = [] ∨ ∃ head tail,
      after = head :: tail ∧ entry.seq ≤ head.seq)
    (live : ∀ addr, next.liveAt addr =
      if addr = entry.addr then before ++ after else book.liveAt addr) :
    Matches history records (done ++ [.free entry]) next := by
  have entryHistory : HeapRecord.free entry ∈ history :=
    delivery.from_history _ (by rw [records_eq]; simp)
  have sorted := matched.live_sorted entry.addr
  rw [eq] at sorted
  have sub : ∀ addr, (next.liveAt addr).Sublist (book.liveAt addr) := by
    intro addr
    rw [live]
    split
    · next same =>
        subst same
        rw [eq]
        exact (List.sublist_cons_self _ _).append_left _
    · exact List.Sublist.refl _
  obtain ⟨source, sourceDone, sourceAddr, sourceLive⟩ :=
    matched.live_from entry.addr taken (by rw [eq]; simp)
  have sourceSeq : source.seq = taken.seq := congrArg LiveAlloc.seq sourceLive
  have sourceFreed : Freed history source :=
    ⟨entry, mem_frees.mpr entryHistory, sourceAddr.symm, by omega⟩
  have sourceRecords : HeapRecord.alloc source ∈ records := by
    rw [records_eq]
    exact List.mem_append_left _ sourceDone
  constructor
  · intro addr l member
    obtain ⟨record, recordMem, facts⟩ :=
      matched.live_from addr l ((sub addr).subset member)
    exact ⟨record, List.mem_append_left _ recordMem, facts⟩
  · exact fun addr => (matched.live_sorted addr).sublist (sub addr)
  · intro record recordMem dead
    have recordDone : HeapRecord.alloc record ∈ done := by simpa using recordMem
    by_cases wasLive : record.live ∈ book.liveAt record.addr
    · rw [live] at dead
      split at dead
      · next same =>
          -- Only the taken entry has left the list.
          rw [same, eq, List.mem_append, List.mem_cons] at wasLive
          have isTaken : record.live = taken := by
            rcases wasLive with inBefore | here | inAfter
            · exact absurd (List.mem_append_left _ inBefore) dead
            · exact here
            · exact absurd (List.mem_append_right _ inAfter) dead
          have seqEq : record.seq = taken.seq :=
            congrArg LiveAlloc.seq isTaken
          exact ⟨entry, mem_frees.mpr entryHistory, same.symm, by omega⟩
      · exact absurd wasLive dead
    · exact matched.retired record recordDone wasLive
  · intro addr
    rw [mem_pendingFrees_step ordered delivery records_eq]
    split
    · next same =>
        subst same
        have takenPending : taken.seq ∈ pendingAllocs history records done book
            entry.addr :=
          mem_pendingAllocs.mpr ⟨source, sourceRecords, sourceAddr, sourceFreed,
            fun _ => by rw [sourceLive, eq]; simp, sourceSeq⟩
        by_cases known : entry.seq ∈ pendingFrees history done entry.addr
        · refine ((matched.covers entry.addr).retire known takenPending older
            ?_).anti ?_
          · -- Anything pending and older than the free is live, so not newer
            -- than the last live entry below the free.
            intro seq member below
            obtain ⟨record, recordMem, addr, _, pending, rfl⟩ :=
              mem_pendingAllocs.mp member
            have recordLive := Matches.older_live delivery records_eq recordMem
              addr below pending
            rw [eq, List.mem_append, List.mem_cons] at recordLive
            have pieces := List.pairwise_append.mp sorted
            rcases recordLive with inBefore | here | inAfter
            · exact (pieces.2.2 _ inBefore taken List.mem_cons_self).le
            · exact (congrArg LiveAlloc.seq here).le
            · exfalso
              rcases newer with empty | ⟨head, tail, afterEq, bound⟩
              · simp [empty] at inAfter
              · have tailSorted := (List.pairwise_cons.mp pieces.2.1).2
                rw [afterEq] at inAfter tailSorted
                have recordSeq : record.live.seq = record.seq := rfl
                rcases List.mem_cons.mp inAfter with rfl | inTail
                · omega
                · have := List.rel_of_pairwise_cons tailSorted inTail
                  omega
          · intro seq member
            obtain ⟨record, recordMem, addr, freed, pending, rfl⟩ :=
              mem_pendingAllocs.mp member
            have stillPending : .alloc record ∈ done →
                record.live ∈ before ++ after := fun recordDone => by
              have := pending (List.mem_append_left _ recordDone)
              rwa [live, if_pos rfl] at this
            refine Finset.mem_erase.mpr ⟨fun seqEq => ?_,
              mem_pendingAllocs.mpr ⟨record, recordMem, addr, freed,
                fun recordDone => ?_, rfl⟩⟩
            · have recordEq : record = source := by
                apply HeapRecord.alloc.inj
                exact ordered.eq_of_seq (delivery.from_history _ recordMem)
                  (delivery.from_history _ sourceRecords)
                  (seqEq.trans sourceSeq.symm)
              subst recordEq
              have remains := stillPending sourceDone
              rw [sourceLive] at remains
              have distinct : (before ++ taken :: after).Nodup :=
                sorted.imp fun less equal => by simp [equal] at less
              rw [List.nodup_middle, List.nodup_cons] at distinct
              exact distinct.1 remains
            · have := stillPending recordDone
              rw [eq]
              exact ((List.sublist_cons_self _ _).append_left _).subset this
        · -- The free had been applied before, which the delivery rules out.
          exfalso
          refine known (mem_pendingFrees.mpr
            ⟨entry, entryHistory, rfl, fun early => ?_, rfl⟩)
          have nodup := delivery.nodup
          rw [records_eq, List.nodup_append] at nodup
          exact nodup.2.2 _ early _ List.mem_cons_self rfl
    · next different =>
        refine (matched.covers addr).anti fun seq member => ?_
        obtain ⟨record, recordMem, addrEq, freed, pending, rfl⟩ :=
          mem_pendingAllocs.mp member
        refine mem_pendingAllocs.mpr
          ⟨record, recordMem, addrEq, freed, fun recordDone => ?_, rfl⟩
        have := pending (List.mem_append_left _ recordDone)
        rwa [live, if_neg different] at this

theorem Matches.step {done rest : List HeapRecord} {book : HeapBook Nat}
    (ordered : Ordered history) (delivery : Delivery history recorded records)
    (balanced : book.Balanced) (matched : Matches history records done book)
    {record : HeapRecord} (records_eq : records = done ++ record :: rest) :
    Matches history records (done ++ [record]) (book.apply record) := by
  cases record with
  | alloc record => exact matched.step_alloc delivery records_eq
  | free entry =>
      rcases balanced.applyFree_cases entry with ⟨same, stale⟩ |
        ⟨before, taken, after, eq, older, newer, live, _⟩
      · rw [HeapBook.apply, same]
        exact matched.stale ordered delivery records_eq stale
      · exact matched.retire ordered delivery records_eq eq older newer live

/-- The book is matched after every prefix of a delivery. -/
theorem matches_prefix (ordered : Ordered history)
    (separated : Separated history)
    (delivery : Delivery history recorded records)
    {done rest : List HeapRecord} (records_eq : records = done ++ rest) :
    Matches history records done (({} : HeapBook Nat).applyAll done) := by
  induction done using List.reverseRecOn generalizing rest with
  | nil => exact Matches.initial separated delivery
  | append_singleton done record induction =>
      have eq : records = done ++ record :: rest := by simpa using records_eq
      rw [HeapBook.applyAll_concat]
      exact (induction eq).step ordered delivery
        (HeapBook.balanced_empty.applyAll done) eq

end Matching

end Sismo.Heap
