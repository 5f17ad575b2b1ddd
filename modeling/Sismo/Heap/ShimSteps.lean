import Sismo.Heap.ShimInvariant

namespace Sismo.Heap.Shim

/-! Every step of the shim and of the real allocator keeps the invariant. -/

theorem pairwise_set {α : Type u} {related : α → α → Prop} {list : List α}
    {i : Nat} {old new : α} (pairwise : list.Pairwise related)
    (found : list[i]? = some old)
    (left : ∀ x ∈ list, related x old → related x new)
    (right : ∀ x ∈ list, related old x → related new x) :
    (list.set i new).Pairwise related := by
  induction list generalizing i with
  | nil => simp at found
  | cons head tail induction =>
      obtain ⟨headRelated, tailPairwise⟩ := List.pairwise_cons.mp pairwise
      cases i with
      | zero =>
          cases found
          exact List.pairwise_cons.mpr
            ⟨fun x member => right x (List.mem_cons_of_mem _ member)
              (headRelated x member), tailPairwise⟩
      | succ i =>
          have oldMem : old ∈ tail := List.mem_of_getElem? found
          refine List.pairwise_cons.mpr ⟨fun x member => ?_,
            induction tailPairwise found
              (fun x member => left x (List.mem_cons_of_mem _ member))
              fun x member => right x (List.mem_cons_of_mem _ member)⟩
          rcases List.mem_or_eq_of_mem_set member with inTail | rfl
          · exact headRelated x inTail
          · exact left head List.mem_cons_self (headRelated old oldMem)

theorem StampsOk.number {nextSeq : Nat} {history : List HeapRecord}
    (ok : StampsOk nextSeq history) {record : HeapRecord}
    (seq : record.seq = nextSeq) :
    StampsOk (nextSeq + 1) (history ++ [record]) where
  ordered := by
    refine List.pairwise_append.mpr
      ⟨ok.ordered, List.pairwise_singleton _ _, ?_⟩
    intro earlier member later last
    obtain rfl := List.mem_singleton.mp last
    exact seq ▸ ok.below earlier member
  below := by
    intro other member
    rcases List.mem_append.mp member with old | new
    · have := ok.below other old
      omega
    · rw [List.mem_singleton.mp new]
      omega

theorem freed_append {history : List HeapRecord} {record : AllocRecord}
    (freed : Freed history record) (more : List HeapRecord) :
    Freed (history ++ more) record := by
  obtain ⟨entry, member, facts⟩ := freed
  exact ⟨entry, mem_frees.mpr
    (List.mem_append_left _ (mem_frees.mp member)), facts⟩

theorem separated_queueFree {history : List HeapRecord}
    (separated : Separated history) (entry : FreeEntry) :
    Separated (history ++ [.free entry]) := by
  intro first second firstMem secondMem addr less
  obtain ⟨between, member, facts⟩ := separated first second
    (by simpa using firstMem) (by simpa using secondMem) addr less
  exact ⟨between, List.mem_append_left _ member, facts⟩

/-- A new allocation of an address comes after the frees of the others. -/
theorem separated_writeAlloc {nextSeq : Nat} {history : List HeapRecord}
    (separated : Separated history) (stamps : StampsOk nextSeq history)
    {record : AllocRecord} (seq : record.seq = nextSeq)
    (freed : ∀ first : AllocRecord, .alloc first ∈ history →
      first.addr = record.addr → Freed history first) :
    Separated (history ++ [.alloc record]) := by
  intro first second firstMem secondMem addr less
  have firstOld : HeapRecord.alloc first ∈ history := by
    rcases List.mem_append.mp firstMem with old | new
    · exact old
    · cases List.mem_singleton.mp new
      rcases List.mem_append.mp secondMem with old | new
      · have below : second.seq < nextSeq := stamps.below _ old
        omega
      · cases List.mem_singleton.mp new
        omega
  rcases List.mem_append.mp secondMem with old | new
  · obtain ⟨between, member, facts⟩ :=
      separated first second firstOld old addr less
    exact ⟨between, List.mem_append_left _ member, facts⟩
  · cases List.mem_singleton.mp new
    obtain ⟨entry, entryMem, entryAddr, later⟩ := freed first firstOld addr
    have member := mem_frees.mp entryMem
    have below : entry.seq < nextSeq := stamps.below _ member
    exact ⟨entry, List.mem_append_left _ member, entryAddr, later, seq ▸ below⟩

theorem SlotOk.mono {history next : List HeapRecord}
    {places : Nat → Place} {i : Nat} {record : RingRecord}
    (ok : SlotOk history places i record)
    (kept : ∀ record ∈ history, record ∈ next) :
    SlotOk next places i record := by
  rw [SlotOk] at ok ⊢
  split at ok
  · exact ok
  · exact ⟨kept _ ok.1, ok.2⟩
  · exact ⟨ok.1, fun entry member =>
      ⟨kept _ (ok.2 entry member).1, (ok.2 entry member).2⟩⟩

namespace RingOk

variable {nextSeq : Nat} {history : List HeapRecord} {places : Nat → Place}
variable {batches : Nat → List FreeEntry} {ring : List RingRecord}

/-- A thread moves on without reserving or writing a slot. -/
theorem move (ok : RingOk nextSeq history places batches ring) {t : Nat}
    {place : Place} (same : place.reserved = (places t).reserved) :
    RingOk nextSeq history (Function.update places t place) batches ring := by
  have reserved : ∀ u, (Function.update places t place u).reserved =
      (places u).reserved := by
    intro u
    rw [Function.update_apply]
    split
    · next here => rw [same, here]
    · rfl
  exact
    { ok with
      slot := fun i record found => by
        have old := ok.slot i record found
        rw [SlotOk] at old ⊢
        split at old
        · obtain ⟨u, uReserved⟩ := old
          exact ⟨u, (reserved u).trans uReserved⟩
        · exact old
        · exact old
      reserved := fun u i addr uReserved =>
        ok.reserved u i addr ((reserved u).symm.trans uReserved) }

theorem reserveAlloc (ok : RingOk nextSeq history places batches ring)
    {t addr sampleSize : Nat} {pcs : List Nat}
    (notReserved : (places t).reserved = none)
    (others : ∀ u i, (places u).reserved ≠ some (i, addr))
    (below : ∀ record ∈ history, record.seq < nextSeq) :
    RingOk nextSeq history
      (Function.update places t (.stamping addr sampleSize pcs ring.length))
      batches (ring ++ [⟨nextSeq, .reservedAlloc addr⟩]) := by
  refine
    { stamp_le := ?_
      slot := ?_
      order := ?_
      reserved := ?_
      allocs := ?_
      frees := ?_
      batch := ?_
      batch_nodup := ok.batch_nodup }
  · intro record member
    rcases List.mem_append.mp member with old | new
    · exact ok.stamp_le record old
    · rw [List.mem_singleton.mp new]
  · intro i record found
    rw [List.getElem?_append] at found
    split at found
    · have old := ok.slot i record found
      rw [SlotOk] at old ⊢
      split at old
      · next a slot =>
          obtain ⟨u, uReserved⟩ := old
          refine ⟨u, ?_⟩
          rw [Function.update_of_ne]
          · exact uReserved
          · rintro rfl
            exact absurd (notReserved.symm.trans uReserved) (by simp)
      · exact old
      · exact old
    · next beyond =>
        rw [List.getElem?_singleton] at found
        split at found
        · cases found
          refine ⟨t, ?_⟩
          have last : i = ring.length := by omega
          rw [Function.update_self, last]
          rfl
        · cases found
  · refine List.pairwise_append.mpr ⟨ok.order, List.pairwise_singleton _ _, ?_⟩
    intro earlier member later last
    obtain rfl := List.mem_singleton.mp last
    refine ⟨ok.stamp_le earlier member, fun a aEarlier aLater => ?_,
      fun entry _ => List.not_mem_nil⟩
    cases aLater
    obtain ⟨i, found⟩ := List.mem_iff_getElem?.mp member
    have old := ok.slot i earlier found
    rw [SlotOk] at old
    cases slot : earlier.slot with
    | reservedAlloc b =>
        rw [slot] at old aEarlier
        cases aEarlier
        obtain ⟨u, uReserved⟩ := old
        exact absurd uReserved (others u i)
    | alloc record =>
        rw [slot] at old
        exact ⟨record, rfl, below _ old.1⟩
    | frees entries =>
        rw [slot] at aEarlier
        cases aEarlier
  · intro u i a uReserved
    rw [Function.update_apply] at uReserved
    split at uReserved
    · cases uReserved
      exact ⟨nextSeq, by simp⟩
    · obtain ⟨stamp, found⟩ := ok.reserved u i a uReserved
      exact ⟨stamp, List.getElem?_append_left
        (List.getElem?_eq_some_iff.mp found).1 ▸ found⟩
  · intro alloc member
    obtain ⟨record, inRing, slot⟩ := ok.allocs alloc member
    exact ⟨record, List.mem_append_left _ inRing, slot⟩
  · intro entry member
    refine (ok.frees entry member).imp_right ?_
    rintro ⟨record, inRing, inEntries⟩
    exact ⟨record, List.mem_append_left _ inRing, inEntries⟩
  · intro u entry member
    obtain ⟨inHistory, fresh, unique⟩ := ok.batch u entry member
    refine ⟨inHistory, fun record inRing => ?_, unique⟩
    rcases List.mem_append.mp inRing with old | new
    · exact fresh record old
    · rw [List.mem_singleton.mp new]
      exact List.not_mem_nil

theorem writeAlloc (ok : RingOk nextSeq history places batches ring)
    {t slot : Nat} {alloc : AllocRecord} {reserved : RingRecord}
    (place : (places t).reserved = some (slot, alloc.addr))
    (others : ∀ u i, u ≠ t → (places u).reserved ≠ some (i, alloc.addr))
    (found : ring[slot]? = some reserved) (seq : alloc.seq = nextSeq) :
    RingOk (nextSeq + 1) (history ++ [.alloc alloc])
      (Function.update places t .idle) batches
      (ring.set slot { reserved with slot := .alloc alloc }) := by
  obtain ⟨stamp, found'⟩ := ok.reserved t slot alloc.addr place
  obtain rfl : reserved = ⟨stamp, .reservedAlloc alloc.addr⟩ :=
    Option.some.inj (found.symm.trans found')
  have stampLe := ok.stamp_le _ (List.mem_of_getElem? found)
  have slotLt : slot < ring.length := (List.getElem?_eq_some_iff.mp found).1
  have kept : ∀ record ∈ history, record ∈ history ++ [.alloc alloc] :=
    fun _ member => List.mem_append_left _ member
  have keptRing : ∀ record ∈ ring,
      record.slot ≠ .reservedAlloc alloc.addr →
      record ∈ ring.set slot ⟨stamp, .alloc alloc⟩ := by
    intro record member written
    obtain ⟨i, at_⟩ := List.mem_iff_getElem?.mp member
    refine List.mem_of_getElem? (i := i) ?_
    rw [List.getElem?_set_ne, at_]
    rintro rfl
    cases found.symm.trans at_
    exact written rfl
  refine
    { stamp_le := ?_
      slot := ?_
      order := ?_
      reserved := ?_
      allocs := ?_
      frees := ?_
      batch := ?_
      batch_nodup := ok.batch_nodup }
  · intro record member
    rcases List.mem_or_eq_of_mem_set member with old | rfl
    · have := ok.stamp_le record old
      omega
    · exact Nat.le_succ_of_le stampLe
  · intro i record at_
    rw [List.getElem?_set] at at_
    split at at_
    · cases at_
      exact ⟨by simp, seq ▸ stampLe⟩
    · next other =>
        have old := (ok.slot i record at_).mono kept
        rw [SlotOk] at old ⊢
        split at old
        · next a slotEq =>
            obtain ⟨u, uReserved⟩ := old
            refine ⟨u, ?_⟩
            rw [Function.update_of_ne]
            · exact uReserved
            · rintro rfl
              exact other (Prod.mk.inj
                (Option.some.inj (place.symm.trans uReserved))).1
        · exact old
        · exact old
  · refine pairwise_set ok.order found ?_ ?_
    · intro earlier _ inOrder
      exact ⟨inOrder.stamp, inOrder.alloc, fun entry _ => List.not_mem_nil⟩
    · intro later _ inOrder
      refine ⟨inOrder.stamp, fun a aEarlier aLater => ?_,
        fun entry member => absurd member List.not_mem_nil⟩
      obtain ⟨record, impossible, _⟩ := inOrder.alloc a aEarlier aLater
      cases impossible
  · intro u i a uReserved
    rw [Function.update_apply] at uReserved
    split at uReserved
    · cases uReserved
    · next other =>
        obtain ⟨uStamp, uFound⟩ := ok.reserved u i a uReserved
        refine ⟨uStamp, ?_⟩
        rw [List.getElem?_set_ne]
        · exact uFound
        · rintro rfl
          cases found.symm.trans uFound
          exact others u slot other uReserved
  · intro other member
    rcases List.mem_append.mp member with old | new
    · obtain ⟨record, inRing, slotEq⟩ := ok.allocs other old
      exact ⟨record, keptRing record inRing (by rw [slotEq]; simp), slotEq⟩
    · cases List.mem_singleton.mp new
      exact ⟨_, List.mem_set slotLt _, rfl⟩
  · intro entry member
    have old : HeapRecord.free entry ∈ history := by simpa using member
    refine (ok.frees entry old).imp_right ?_
    rintro ⟨record, inRing, inEntries⟩
    refine ⟨record, keptRing record inRing fun slotEq => ?_, inEntries⟩
    rw [slotEq] at inEntries
    exact List.not_mem_nil inEntries
  · intro u entry member
    obtain ⟨inHistory, fresh, unique⟩ := ok.batch u entry member
    refine ⟨kept _ inHistory, fun record inRing => ?_, unique⟩
    rcases List.mem_or_eq_of_mem_set inRing with old | rfl
    · exact fresh record old
    · exact List.not_mem_nil

theorem queueFree (ok : RingOk nextSeq history places batches ring)
    (below : ∀ record ∈ history, record.seq < nextSeq) (t addr : Nat) :
    RingOk (nextSeq + 1) (history ++ [.free ⟨nextSeq, addr⟩]) places
      (Function.update batches t (batches t ++ [⟨nextSeq, addr⟩])) ring := by
  have kept : ∀ record ∈ history,
      record ∈ history ++ [.free ⟨nextSeq, addr⟩] :=
    fun _ member => List.mem_append_left _ member
  have new : HeapRecord.free ⟨nextSeq, addr⟩ ∉ history := fun member =>
    absurd (below _ member) (Nat.lt_irrefl _)
  have grown : ∀ u entry,
      entry ∈ Function.update batches t (batches t ++ [⟨nextSeq, addr⟩]) u ↔
        entry ∈ batches u ∨ (u = t ∧ entry = ⟨nextSeq, addr⟩) := by
    intro u entry
    rw [Function.update_apply]
    split
    · next here => simp [here]
    · next other => simp [other]
  refine
    { stamp_le := fun record member => Nat.le_succ_of_le (ok.stamp_le record member)
      slot := fun i record found => (ok.slot i record found).mono kept
      order := ok.order
      reserved := ok.reserved
      allocs := fun alloc member => ok.allocs alloc (by simpa using member)
      frees := ?_
      batch := ?_
      batch_nodup := ?_ }
  · intro entry member
    rcases List.mem_append.mp member with old | last
    · refine (ok.frees entry old).imp_left ?_
      rintro ⟨u, inBatch⟩
      exact ⟨u, (grown u entry).mpr (.inl inBatch)⟩
    · cases List.mem_singleton.mp last
      exact .inl ⟨t, (grown t _).mpr (.inr ⟨rfl, rfl⟩)⟩
  · intro u entry member
    rcases (grown u entry).mp member with old | ⟨rfl, rfl⟩
    · obtain ⟨inHistory, fresh, unique⟩ := ok.batch u entry old
      refine ⟨kept _ inHistory, fresh, fun v vMember => ?_⟩
      rcases (grown v entry).mp vMember with vOld | ⟨_, rfl⟩
      · exact unique v vOld
      · exact absurd inHistory new
    · refine ⟨by simp, fun record inRing inEntries => ?_, fun v vMember => ?_⟩
      · obtain ⟨i, found⟩ := List.mem_iff_getElem?.mp inRing
        have old := ok.slot i record found
        rw [SlotOk] at old
        cases slot : record.slot with
        | frees entries =>
            rw [slot] at old inEntries
            exact new (old.2 _ inEntries).1
        | reservedAlloc a =>
            rw [slot] at inEntries
            exact absurd inEntries List.not_mem_nil
        | alloc a =>
            rw [slot] at inEntries
            exact absurd inEntries List.not_mem_nil
      · rcases (grown v _).mp vMember with vOld | ⟨here, _⟩
        · exact absurd (ok.batch v _ vOld).1 new
        · exact here
  · intro u
    rw [Function.update_apply]
    split
    · refine List.nodup_append.mpr ⟨ok.batch_nodup t, by simp, ?_⟩
      intro entry member last lastMem same
      rw [same, List.mem_singleton.mp lastMem] at member
      exact new (ok.batch t _ member).1
    · exact ok.batch_nodup u

/-- A thread writes its batch to one slot. -/
theorem flushFrees (ok : RingOk nextSeq history places batches ring)
    (below : ∀ record ∈ history, record.seq < nextSeq) (t : Nat) :
    RingOk nextSeq history places (Function.update batches t [])
      (ring ++ [⟨nextSeq, .frees (batches t)⟩]) := by
  have remaining : ∀ u entry, entry ∈ Function.update batches t [] u →
      u ≠ t ∧ entry ∈ batches u := by
    intro u entry member
    rw [Function.update_apply] at member
    split at member
    · exact absurd member List.not_mem_nil
    · next other => exact ⟨other, member⟩
  refine
    { stamp_le := ?_
      slot := ?_
      order := ?_
      reserved := ?_
      allocs := ?_
      frees := ?_
      batch := ?_
      batch_nodup := ?_ }
  · intro record member
    rcases List.mem_append.mp member with old | new
    · exact ok.stamp_le record old
    · rw [List.mem_singleton.mp new]
  · intro i record found
    rw [List.getElem?_append] at found
    split at found
    · exact ok.slot i record found
    · rw [List.getElem?_singleton] at found
      split at found
      · cases found
        exact ⟨ok.batch_nodup t, fun entry member =>
          ⟨(ok.batch t entry member).1, below _ (ok.batch t entry member).1⟩⟩
      · cases found
  · refine List.pairwise_append.mpr ⟨ok.order, List.pairwise_singleton _ _, ?_⟩
    intro earlier member later last
    obtain rfl := List.mem_singleton.mp last
    refine ⟨ok.stamp_le earlier member, fun a _ aLater => ?_, ?_⟩
    · cases aLater
    · exact fun entry inEarlier inBatch =>
        (ok.batch t entry inBatch).2.1 earlier member inEarlier
  · intro u i a uReserved
    obtain ⟨stamp, found⟩ := ok.reserved u i a uReserved
    exact ⟨stamp, List.getElem?_append_left
      (List.getElem?_eq_some_iff.mp found).1 ▸ found⟩
  · intro alloc member
    obtain ⟨record, inRing, slot⟩ := ok.allocs alloc member
    exact ⟨record, List.mem_append_left _ inRing, slot⟩
  · intro entry member
    rcases ok.frees entry member with ⟨u, inBatch⟩ | ⟨record, inRing, inEntries⟩
    · by_cases here : u = t
      · subst here
        exact .inr ⟨_, List.mem_append_right _ List.mem_cons_self, inBatch⟩
      · refine .inl ⟨u, ?_⟩
        rwa [Function.update_of_ne here]
    · exact .inr ⟨record, List.mem_append_left _ inRing, inEntries⟩
  · intro u entry member
    obtain ⟨other, inBatch⟩ := remaining u entry member
    obtain ⟨inHistory, fresh, unique⟩ := ok.batch u entry inBatch
    refine ⟨inHistory, fun record inRing => ?_,
      fun v vMember => unique v (remaining v entry vMember).2⟩
    rcases List.mem_append.mp inRing with old | new
    · exact fresh record old
    · rw [List.mem_singleton.mp new]
      exact fun inFlushed => other (unique t inFlushed).symm
  · intro u
    rw [Function.update_apply]
    split
    · exact List.nodup_nil
    · exact ok.batch_nodup u

end RingOk

namespace HeapOk

variable {history : List HeapRecord} {places : Nat → Place}
variable {blocks : Nat → Option Block}

/-- A fresh block is handed out to a thread that works on none. -/
theorem allocate (ok : HeapOk history places blocks) {t ptr : Nat}
    {block : Block} {place : Place} (nonzero : ptr ≠ 0)
    (free : blocks ptr = none) (idle : (places t).owns = none)
    (owns : place.owns = if block.busy then some ptr else none)
    (placeOk : PlaceOk (Function.update blocks ptr (some block)) place)
    (unnumbered : block.seq = none)
    (settled : block.busy = false → block.Recorded ∧
      block.queued = block.reallocFailed) :
    HeapOk history (Function.update places t place)
      (Function.update blocks ptr (some block)) := by
  refine ok.change (fun _ => id) (fun _ member _ => member)
    (fun u _ => ok.unowned_of_idle (by simp [free]) u) ?_ ?_ placeOk ?_ ?_
  · intro other owned
    cases idle.symm.trans owned
  · intro other placeOwns
    rw [owns] at placeOwns
    split at placeOwns
    · exact (Option.some.inj placeOwns).symm
    · cases placeOwns
  · intro found foundEq
    cases foundEq
    refine ⟨⟨nonzero, ?_, ?_, settled⟩, fun busy => by rw [owns, if_pos busy]⟩
    · intro seq seqEq
      cases unnumbered.symm.trans seqEq
    · intro seq seqEq
      cases unnumbered.symm.trans seqEq
  · intro record member here
    refine .inl ((ok.records record member).resolve_right ?_)
    rintro ⟨found, at_, _⟩
    rw [here, free] at at_
    cases at_

/-- The real allocator takes back a block whose free has been queued. -/
theorem release (ok : HeapOk history places blocks) {t : Nat}
    {call : FreeCall} (place : places t = .calling call) :
    HeapOk history (Function.update places t .idle)
      (Function.update blocks call.ptr none) := by
  have placeOk := ok.place t
  rw [place] at placeOk
  refine ok.change (fun _ => id) (fun _ member _ => member) ?_ ?_ ?_ trivial
    ?_ ?_
  · rcases eq_or_ne call.ptr 0 with zero | nonzero
    · refine fun u _ => ok.unowned_of_idle (fun block found => ?_) u
      exact absurd zero (ok.block _ block found).nonzero
    · exact ok.unowned_of_owns (by rw [place]; exact if_neg nonzero)
  · intro other owned
    rw [place] at owned
    exact FreeCall.eq_ptr_of_owns owned
  · intro other owned
    cases owned
  · intro found foundEq
    cases foundEq
  · intro record member here
    refine .inl ?_
    rcases ok.records record member with freed | ⟨block, found, seqEq⟩
    · exact freed
    · rw [here] at found
      have blockOk := ok.block _ block found
      obtain ⟨other, otherFound, _, _, queued⟩ := placeOk blockOk.nonzero
      cases found.symm.trans otherFound
      obtain ⟨entry, entryMem, entryAddr, later⟩ :=
        (blockOk.queued _ seqEq).mp queued
      exact ⟨entry, mem_frees.mpr entryMem, entryAddr.trans here.symm, later⟩

end HeapOk

theorem Place.owns_of_reserved {place : Place} {i addr : Nat}
    (reserved : place.reserved = some (i, addr)) : place.owns = some addr := by
  cases place with
  | stamping a sampleSize pcs slot =>
      cases reserved
      rfl
  | _ => cases reserved

namespace Invariant

variable {s next : State}

theorem setPlace (inv : Invariant s) {t : Nat} {place : Place}
    (owns : place.owns = (s.places t).owns)
    (reserved : place.reserved = (s.places t).reserved)
    (placeOk : PlaceOk s.blocks place) : Invariant (s.setPlace t place) where
  stamps := inv.stamps
  separated := inv.separated
  heap := inv.heap.move owns placeOk
  ring := inv.ring.move reserved

theorem allocate (inv : Invariant s) {t ptr : Nat} (sampleSize : Nat)
    (pcs : List Nat) (nonzero : ptr ≠ 0) (free : s.blocks ptr = none)
    (owns : (s.places t).owns = none)
    (reserved : (s.places t).reserved = none) :
    Invariant (s.allocate t ptr sampleSize pcs) := by
  rw [State.allocate]
  split
  · exact
      { stamps := inv.stamps
        separated := inv.separated
        heap := inv.heap.allocate nonzero free owns rfl trivial rfl
          fun _ => ⟨fun sampled => absurd rfl sampled, rfl⟩
        ring := inv.ring.move reserved.symm }
  · next sampled =>
      exact
        { stamps := inv.stamps
          separated := inv.separated
          heap := inv.heap.allocate nonzero free owns rfl
            ⟨sampled, Function.update_self _ _ _⟩ rfl
            fun busy => nomatch busy
          ring := inv.ring.move reserved.symm }

theorem claim (inv : Invariant s) {t : Nat} {call : FreeCall}
    (idle : s.places t = .idle) (stepped : claim s t call = some next) :
    Invariant next := by
  rw [Shim.claim] at stepped
  split at stepped
  · next block found =>
      split at stepped
      · cases stepped
      · next notBusy =>
          cases stepped
          have free : block.busy = false := by simpa using notBusy
          have blockOk := inv.heap.block _ block found
          have owns : (Place.queueing call).owns = some call.ptr :=
            if_neg blockOk.nonzero
          exact
            { stamps := inv.stamps
              separated := inv.separated
              heap := by
                refine inv.heap.change (fun _ => id) (fun _ member _ => member)
                  (fun u _ => inv.heap.unowned_of_idle (fun other at_ => ?_) u)
                  ?_ ?_ ?_ ?_ ?_
                · cases found.symm.trans at_
                  exact free
                · intro other owned
                  rw [idle] at owned
                  cases owned
                · intro other owned
                  exact (Option.some.inj (owns.symm.trans owned)).symm
                · exact ⟨blockOk.nonzero, _, Function.update_self _ _ _, rfl,
                    (blockOk.settled free).1⟩
                · intro other otherEq
                  cases otherEq
                  exact ⟨⟨blockOk.nonzero, blockOk.record, blockOk.queued,
                    fun impossible => nomatch impossible⟩,
                    fun _ => owns⟩
                · intro record member here
                  refine (inv.heap.records record member).imp_right ?_
                  rintro ⟨other, at_, seqEq⟩
                  rw [here] at at_
                  cases found.symm.trans at_
                  exact ⟨_, rfl, seqEq⟩
              ring := inv.ring.move (by rw [idle]; rfl) }
  · cases stepped

theorem reallocResult (inv : Invariant s) {t newPtr : Nat}
    (stepped : reallocResult s t newPtr = some next) : Invariant next := by
  rw [Shim.reallocResult] at stepped
  split at stepped
  · next ptr sampleSize pcs place =>
      have placeOk := inv.heap.place t
      rw [place] at placeOk
      split at stepped
      · split at stepped
        · next block found =>
            cases stepped
            have blockOk := inv.heap.block _ block found
            obtain ⟨other, otherFound, _, recorded, queued⟩ :=
              placeOk blockOk.nonzero
            cases found.symm.trans otherFound
            exact
              { stamps := inv.stamps
                separated := inv.separated
                heap := by
                  refine inv.heap.change (fun _ => id)
                    (fun _ member _ => member)
                    (inv.heap.unowned_of_owns
                      (by rw [place]; exact if_neg blockOk.nonzero))
                    ?_ ?_ trivial ?_ ?_
                  · intro other owned
                    rw [place] at owned
                    exact FreeCall.eq_ptr_of_owns owned
                  · intro other owned
                    cases owned
                  · intro other otherEq
                    cases otherEq
                    exact ⟨⟨blockOk.nonzero, blockOk.record, blockOk.queued,
                      fun _ => ⟨recorded, queued⟩⟩,
                      fun impossible => nomatch impossible⟩
                  · intro record member here
                    refine (inv.heap.records record member).imp_right ?_
                    rintro ⟨other, at_, seqEq⟩
                    rw [here] at at_
                    cases found.symm.trans at_
                    exact ⟨_, rfl, seqEq⟩
                ring := inv.ring.move (by rw [place]; rfl) }
        · next missing =>
            cases stepped
            refine inv.setPlace ?_ (by rw [place]; rfl) trivial
            rw [place]
            refine (FreeCall.owns_of_zero ?_).symm
            by_contra nonzero
            obtain ⟨block, found, _⟩ := placeOk nonzero
            cases missing.symm.trans found
      · next nonzero =>
          have released : Invariant ((s.setBlock ptr none).setPlace t .idle) :=
            { stamps := inv.stamps
              separated := inv.separated
              heap := inv.heap.release place
              ring := inv.ring.move (by rw [place]; rfl) }
          have freed : (if ptr = 0 then s else s.setBlock ptr none) =
              s.setBlock ptr none := by
            split
            · next zero =>
                have absent : s.blocks 0 = none := by
                  by_contra present
                  obtain ⟨block, found⟩ := Option.ne_none_iff_exists'.mp present
                  exact (inv.heap.block 0 block found).nonzero rfl
                rw [zero, State.setBlock, ← absent, Function.update_eq_self]
            · rfl
          dsimp only at stepped
          rw [freed] at stepped
          split at stepped
          · next free =>
              cases stepped
              have allocated := released.allocate (t := t) sampleSize pcs
                nonzero free (by simp [State.setPlace, Place.owns])
                (by simp [State.setPlace, Place.reserved])
              simp only [State.allocate, State.setPlace, State.setBlock,
                Function.update_idem] at allocated ⊢
              exact allocated
          · cases stepped
  · cases stepped

theorem emitAllocRecord (inv : Invariant s) {t : Nat}
    (stepped : emitAllocRecord s t = some next) : Invariant next := by
  rw [Shim.emitAllocRecord] at stepped
  split at stepped
  · next addr sampleSize pcs place =>
      cases stepped
      have placeOk := inv.heap.place t
      rw [place] at placeOk
      refine
        { stamps := inv.stamps
          separated := inv.separated
          heap := inv.heap.move (by rw [place]; rfl) placeOk
          ring := inv.ring.reserveAlloc (by rw [place]; rfl) ?_
            inv.stamps.below }
      intro u i reserved
      have same := inv.heap.distinct u t addr
        (Place.owns_of_reserved reserved) (by rw [place]; rfl)
      rw [same, place] at reserved
      cases reserved
  · next addr sampleSize pcs slot place =>
      split at stepped
      · next reserved block foundSlot found =>
          cases stepped
          have placeOk := inv.heap.place t
          rw [place] at placeOk
          obtain ⟨sampled, blockEq⟩ := placeOk
          cases found.symm.trans blockEq
          have owns : (s.places t).owns = some addr := by rw [place]; rfl
          have noLater : ¬ ∃ entry : FreeEntry,
              .free entry ∈ s.history ++
                [.alloc ⟨s.nextSeq, addr, sampleSize, pcs⟩] ∧
              entry.addr = addr ∧ s.nextSeq < entry.seq := by
            rintro ⟨entry, member, _, later⟩
            have below : entry.seq < s.nextSeq :=
              inv.stamps.below (.free entry) (by simpa using member)
            omega
          have freed : ∀ first : AllocRecord, .alloc first ∈ s.history →
              first.addr = addr → Freed s.history first := by
            intro first member here
            refine (inv.heap.records first member).resolve_right ?_
            rintro ⟨other, at_, seqEq⟩
            rw [here] at at_
            cases found.symm.trans at_
            cases seqEq
          exact
            { stamps := inv.stamps.number rfl
              separated := separated_writeAlloc inv.separated inv.stamps rfl freed
              heap := by
                refine inv.heap.change
                  (fun _ member => List.mem_append_left _ member) ?_
                  (inv.heap.unowned_of_owns owns) ?_ ?_ trivial ?_ ?_
                · intro record member other
                  rcases List.mem_append.mp member with old | new
                  · exact old
                  · rw [List.mem_singleton.mp new] at other
                    exact absurd rfl other
                · exact fun other owned =>
                    (Option.some.inj (owns.symm.trans owned)).symm
                · intro other owned
                  cases owned
                · intro other otherEq
                  cases otherEq
                  refine ⟨⟨(inv.heap.block _ _ found).nonzero, ?_, ?_, ?_⟩,
                    fun impossible => nomatch impossible⟩
                  · intro seq seqEq
                    cases seqEq
                    exact ⟨sampled, _, List.mem_append_right _
                      List.mem_cons_self, rfl, rfl⟩
                  · intro seq seqEq
                    cases seqEq
                    exact ⟨fun impossible => (nomatch impossible),
                      fun later => absurd later noLater⟩
                  · exact fun _ => ⟨fun _ => rfl, rfl⟩
                · intro record member here
                  rcases List.mem_append.mp member with old | new
                  · exact .inl (freed_append (freed record old here) _)
                  · cases List.mem_singleton.mp new
                    exact .inr ⟨_, rfl, rfl⟩
              ring := by
                refine inv.ring.writeAlloc (by rw [place]; rfl) ?_ foundSlot rfl
                intro u i other reservedByU
                exact inv.heap.unowned_of_owns owns u other
                  (Place.owns_of_reserved reservedByU) }
      · cases stepped
  · cases stepped

theorem queueFree (inv : Invariant s) {t : Nat} {stale : Bool}
    (stepped : queueFree s t stale = some next) : Invariant next := by
  rw [Shim.queueFree] at stepped
  split at stepped
  · next call place =>
      split at stepped
      · next block found =>
          cases stepped
          have placeOk := inv.heap.place t
          rw [place] at placeOk
          obtain ⟨nonzero, other, otherFound, busy, recorded⟩ := placeOk
          cases found.symm.trans otherFound
          have blockOk := inv.heap.block _ block found
          have owns : (s.places t).owns = some call.ptr := by
            rw [place]
            exact if_neg nonzero
          generalize entriesEq : s.batches t ++
            [(⟨s.nextSeq, call.ptr⟩ : FreeEntry)] = entries
          generalize placeEq : (if freeBatchCap ≤ entries.length ∨
              (stale = true ∧ 1 < entries.length)
            then Place.flushing (some call) else .calling call) = after
          have afterOwns : after.owns = some call.ptr := by
            rw [← placeEq]
            split <;> exact if_neg nonzero
          have afterReserved : after.reserved = (s.places t).reserved := by
            rw [← placeEq, place]
            split <;> rfl
          have afterOk : PlaceOk (Function.update s.blocks call.ptr
              (some { block with queued := true })) after := by
            have queued : ∃ found, Function.update s.blocks call.ptr
                (some { block with queued := true }) call.ptr = some found ∧
                found.busy = true ∧ found.Recorded ∧ found.queued = true :=
              ⟨_, Function.update_self _ _ _, busy, recorded, rfl⟩
            rw [← placeEq]
            split <;> exact fun _ => queued
          exact
            { stamps := inv.stamps.number rfl
              separated := separated_queueFree inv.separated _
              heap := by
                refine inv.heap.change
                  (fun _ member => List.mem_append_left _ member) ?_
                  (inv.heap.unowned_of_owns owns) ?_ ?_ afterOk ?_ ?_
                · intro record member other
                  rcases List.mem_append.mp member with old | new
                  · exact old
                  · rw [List.mem_singleton.mp new] at other
                    exact absurd rfl other
                · exact fun other owned =>
                    (Option.some.inj (owns.symm.trans owned)).symm
                · exact fun other owned =>
                    (Option.some.inj (afterOwns.symm.trans owned)).symm
                · intro other otherEq
                  cases otherEq
                  refine ⟨⟨nonzero, ?_, ?_, ?_⟩, fun _ => afterOwns⟩
                  · intro seq seqEq
                    obtain ⟨sampled, record, member, facts⟩ :=
                      blockOk.record seq seqEq
                    exact ⟨sampled, record, List.mem_append_left _ member, facts⟩
                  · intro seq seqEq
                    obtain ⟨_, record, member, _, live⟩ :=
                      blockOk.record seq seqEq
                    have recordSeq : record.seq = seq :=
                      congrArg LiveAlloc.seq live
                    have below : record.seq < s.nextSeq :=
                      inv.stamps.below _ member
                    exact ⟨fun _ => ⟨⟨s.nextSeq, call.ptr⟩,
                      List.mem_append_right _ List.mem_cons_self, rfl,
                      recordSeq ▸ below⟩, fun _ => rfl⟩
                  · exact fun impossible =>
                      absurd (impossible.symm.trans busy) (by decide)
                · intro record member here
                  have old : HeapRecord.alloc record ∈ s.history :=
                    (List.mem_append.mp member).resolve_right (by simp)
                  rcases inv.heap.records record old with freed |
                    ⟨other, at_, seqEq⟩
                  · exact .inl (freed_append freed _)
                  · rw [here] at at_
                    cases found.symm.trans at_
                    exact .inr ⟨_, rfl, seqEq⟩
              ring := entriesEq ▸
                (inv.ring.queueFree inv.stamps.below t call.ptr).move
                  afterReserved }
      · cases stepped
  · cases stepped

theorem flushFrees (inv : Invariant s) {t : Nat}
    (stepped : flushFrees s t = some next) : Invariant next := by
  rw [Shim.flushFrees] at stepped
  split at stepped
  · next call place =>
      cases stepped
      have placeOk := inv.heap.place t
      rw [place] at placeOk
      cases call with
      | none =>
          exact
            { stamps := inv.stamps
              separated := inv.separated
              heap := inv.heap.move (by rw [place]; rfl) trivial
              ring := (inv.ring.flushFrees inv.stamps.below t).move
                (by rw [place]; rfl) }
      | some call =>
          exact
            { stamps := inv.stamps
              separated := inv.separated
              heap := inv.heap.move (by rw [place]; rfl) placeOk
              ring := (inv.ring.flushFrees inv.stamps.below t).move
                (by rw [place]; rfl) }
  · cases stepped

theorem step (inv : Invariant s) {action : Action}
    (stepped : step s action = some next) : Invariant next := by
  cases action with
  | alloc t sampleSize pcs =>
      simp only [Shim.step, sampledAlloc] at stepped
      split at stepped
      · next idle =>
          cases stepped
          exact inv.setPlace (by rw [idle]; rfl) (by rw [idle]; rfl) trivial
      · cases stepped
  | posixMemalign t sampleSize pcs =>
      simp only [Shim.step, posixMemalignShim] at stepped
      split at stepped
      · next idle =>
          cases stepped
          exact inv.setPlace (by rw [idle]; rfl) (by rw [idle]; rfl) trivial
      · cases stepped
  | allocResult t ptr =>
      simp only [Shim.step, sampledAllocResult] at stepped
      split at stepped
      · next sampleSize pcs place =>
          split at stepped
          · cases stepped
            exact inv.setPlace (by rw [place]; rfl) (by rw [place]; rfl) trivial
          · next nonzero =>
              split at stepped
              · next free =>
                  cases stepped
                  exact inv.allocate sampleSize pcs nonzero free (by rw [place]; rfl)
                    (by rw [place]; rfl)
              · cases stepped
      · cases stepped
  | posixMemalignResult t rc ptr =>
      simp only [Shim.step, posixMemalignResult] at stepped
      split at stepped
      · next sampleSize pcs place =>
          split at stepped
          · next succeeded =>
              split at stepped
              · next free =>
                  cases stepped
                  exact inv.allocate sampleSize pcs succeeded.2 free (by rw [place]; rfl)
                    (by rw [place]; rfl)
              · cases stepped
          · cases stepped
            exact inv.setPlace (by rw [place]; rfl) (by rw [place]; rfl) trivial
      · cases stepped
  | free t ptr =>
      simp only [Shim.step, freeShim] at stepped
      split at stepped
      · next idle =>
          split at stepped
          · cases stepped
            exact inv
          · exact inv.claim idle stepped
      · cases stepped
  | freeResult t =>
      simp only [Shim.step, freeResult] at stepped
      split at stepped
      · next ptr place =>
          cases stepped
          exact
            { stamps := inv.stamps
              separated := inv.separated
              heap := inv.heap.release place
              ring := inv.ring.move (by rw [place]; rfl) }
      · cases stepped
  | realloc t ptr sampleSize pcs =>
      simp only [Shim.step, reallocShim] at stepped
      split at stepped
      · next idle =>
          split at stepped
          · cases stepped
            exact inv.setPlace (by rw [idle]; rfl) (by rw [idle]; rfl)
              fun nonzero => absurd rfl nonzero
          · exact inv.claim idle stepped
      · cases stepped
  | reallocResult t newPtr => exact inv.reallocResult stepped
  | emit t => exact inv.emitAllocRecord stepped
  | queue t stale => exact inv.queueFree stepped
  | flush t => exact inv.flushFrees stepped
  | lastFlush t =>
      simp only [Shim.step] at stepped
      split at stepped
      · next idle =>
          cases stepped
          exact inv.setPlace (by rw [idle]; rfl) (by rw [idle]; rfl) trivial
      · cases stepped

theorem reachable {before : Nat → Bool} {s : State}
    (reached : Machine.Reachable Shim.step (State.initial before) s) :
    Invariant s :=
  reached.invariant (fun _ _ _ inv stepped => inv.step stepped)
    (Invariant.initial before)

end Invariant

end Sismo.Heap.Shim
