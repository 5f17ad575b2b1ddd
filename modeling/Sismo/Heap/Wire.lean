import Sismo.Heap.FinalProfile
import Sismo.Heap.ShimAccuracy
import Sismo.Lib.LittleEndian

namespace Sismo.Heap.Wire

open Worker

/-! The records as the target's shim lays them out in the ring, and what the
recorder reads back. -/

def maxRegisterDataBytes : Nat := 272

/-- `RegBlockArm64`, which begins the register data. -/
structure RegBlockArm64 where
  pc : UInt64
  lr : UInt64
  fp : UInt64
  padding : UInt64 := 0
  deriving DecidableEq, Repr

structure AllocMetadata where
  sequenceNumber : UInt64
  allocSize : UInt64
  sampleSize : UInt64
  allocAddress : UInt64
  stackPointer : UInt64
  clockMonotonicCoarseTs : UInt64
  regs : RegBlockArm64
  heapId : UInt32 := 0
  arch : UInt32 := 1
  deriving DecidableEq, Repr

def AllocMetadata.words (meta_ : AllocMetadata) : List UInt64 :=
  [meta_.sequenceNumber, meta_.allocSize, meta_.sampleSize,
    meta_.allocAddress, meta_.stackPointer, meta_.clockMonotonicCoarseTs,
    meta_.regs.pc, meta_.regs.lr, meta_.regs.fp, meta_.regs.padding]

def AllocMetadata.bytes (meta_ : AllocMetadata) : Payload :=
  leWords meta_.words ++ (List.replicate (maxRegisterDataBytes - 32) 0 ++
    leBytes 4 meta_.heapId.toNat ++ leBytes 4 meta_.arch.toNat)

/-- The stack from the caller's stack pointer to the thread's base, cut off or
filled up with zeros. -/
def snapshot (stack : Payload) : Payload :=
  stack.take stackSnapshotBytes ++
    List.replicate (stackSnapshotBytes - stack.length) 0

/-- `emit_alloc_record`. -/
def allocPayload (meta_ : AllocMetadata) (stack : Payload) : Payload :=
  meta_.bytes ++ snapshot stack

structure FreeEntry where
  sequenceNumber : UInt64
  address : UInt64
  deriving DecidableEq, Repr

def FreeEntry.entry (wire : FreeEntry) : Heap.FreeEntry :=
  ⟨wire.sequenceNumber.toNat, wire.address.toNat⟩

structure FreeBatch where
  entries : List FreeEntry
  few : entries.length ≤ Shim.freeBatchCap

/-- `flush_frees`. -/
def FreeBatch.payload (batch : FreeBatch) : Payload :=
  leWords (UInt64.ofNat freeBatchMagic ::
    UInt64.ofNat batch.entries.length ::
    batch.entries.flatMap fun wire => [wire.sequenceNumber, wire.address])

theorem readU64_eq (slice : Payload) (off : Nat) :
    readU64 slice off = leValue ((slice.drop off).take 8) := by
  rw [readU64]
  induction (slice.drop off).take 8 with
  | nil => rfl
  | cons byte rest induction => rw [List.foldr_cons, leValue, induction]

theorem readU64_word {words : List UInt64} {i off : Nat} {word : UInt64}
    (found : words[i]? = some word) (place : off = 8 * i)
    (rest : Payload) : readU64 (leWords words ++ rest) off = word.toNat := by
  rw [readU64_eq, place]
  exact leValue_word found rest

theorem readU64_take {slice : Payload} {off count : Nat}
    (inside : off + 8 ≤ count) :
    readU64 (slice.take count) off = readU64 slice off := by
  rw [readU64_eq, readU64_eq, List.drop_take, List.take_take,
    Nat.min_eq_left (Nat.le_sub_of_add_le' inside)]

theorem length_bytes (meta_ : AllocMetadata) :
    meta_.bytes.length = allocMetadataBytes := by
  rw [AllocMetadata.bytes, List.length_append, length_leWords,
    List.length_append, List.length_append, List.length_replicate,
    length_leBytes, length_leBytes]
  rfl

theorem length_snapshot (stack : Payload) :
    (snapshot stack).length = stackSnapshotBytes := by
  rw [snapshot, List.length_append, List.length_take, List.length_replicate]
  omega

theorem length_allocPayload (meta_ : AllocMetadata) (stack : Payload) :
    (allocPayload meta_ stack).length =
      allocMetadataBytes + stackSnapshotBytes := by
  rw [allocPayload, List.length_append, length_bytes, length_snapshot]

theorem readU64_allocPayload {meta_ : AllocMetadata} {stack : Payload}
    {i off : Nat} {word : UInt64} (found : meta_.words[i]? = some word)
    (place : off = 8 * i) :
    readU64 (allocPayload meta_ stack) off = word.toNat := by
  rw [allocPayload, AllocMetadata.bytes, List.append_assoc]
  exact readU64_word found place _

section

variable (walkSnapshot : StackRegs → Payload → Nat → Nat → List Nat)

/-- The record an allocation becomes: the walk of its snapshot, or its address
where the walk finds nothing. -/
def record (meta_ : AllocMetadata) (stack : Payload) : AllocRecord :=
  let pcs := walkSnapshot
    ⟨meta_.regs.pc.toNat, meta_.regs.fp.toNat, meta_.regs.lr.toNat,
      meta_.stackPointer.toNat⟩
    (snapshot stack) meta_.stackPointer.toNat maxFrames
  ⟨meta_.sequenceNumber.toNat, meta_.allocAddress.toNat,
    meta_.sampleSize.toNat,
    (if pcs.isEmpty then [meta_.allocAddress.toNat] else pcs).take maxFrames⟩

variable {walkSnapshot}

theorem processRecord_allocPayload {meta_ : AllocMetadata} {stack : Payload}
    (book : HeapBook UInt64)
    (other : meta_.sequenceNumber.toNat ≠ freeBatchMagic) :
    processRecord walkSnapshot book (allocPayload meta_ stack) =
      book.applyAlloc (record walkSnapshot meta_ stack) := by
  have length := length_allocPayload meta_ stack
  have seq : readU64 (allocPayload meta_ stack) 0 =
      meta_.sequenceNumber.toNat := readU64_allocPayload (i := 0) rfl rfl
  have stackBytes : (allocPayload meta_ stack).drop allocMetadataBytes =
      snapshot stack := List.drop_left' (length_bytes meta_)
  unfold processRecord
  rw [if_neg (by rw [seq]; exact fun both => other both.2),
    if_neg (by rw [length]; exact Nat.lt_irrefl _)]
  dsimp only
  rw [show readU64 (allocPayload meta_ stack) offStackPointer =
      meta_.stackPointer.toNat from readU64_allocPayload (i := 4) rfl rfl,
    show readU64 (allocPayload meta_ stack) offRegPc = meta_.regs.pc.toNat
      from readU64_allocPayload (i := 6) rfl rfl,
    show readU64 (allocPayload meta_ stack) offRegFp = meta_.regs.fp.toNat
      from readU64_allocPayload (i := 8) rfl rfl,
    show readU64 (allocPayload meta_ stack) offRegLr = meta_.regs.lr.toNat
      from readU64_allocPayload (i := 7) rfl rfl,
    show readU64 (allocPayload meta_ stack) offAllocAddress =
      meta_.allocAddress.toNat from readU64_allocPayload (i := 3) rfl rfl,
    show readU64 (allocPayload meta_ stack) offSampleSize =
      meta_.sampleSize.toNat from readU64_allocPayload (i := 2) rfl rfl,
    show readU64 (allocPayload meta_ stack) offSequence =
      meta_.sequenceNumber.toNat from seq, stackBytes]
  rfl

theorem FreeBatch.length_words (entries : List FreeEntry) :
    (entries.flatMap fun wire =>
      [wire.sequenceNumber, wire.address]).length = 2 * entries.length := by
  induction entries with
  | nil => rfl
  | cons wire entries induction =>
      rw [List.flatMap_cons, List.length_append, induction, List.length_cons]
      simp only [List.length_cons, List.length_nil]
      omega

theorem FreeBatch.length_payload (batch : FreeBatch) :
    batch.payload.length =
      freeHeaderBytes + freeEntryBytes * batch.entries.length := by
  rw [payload, length_leWords, List.length_cons, List.length_cons,
    length_words, freeHeaderBytes, freeEntryBytes]
  omega

theorem FreeBatch.word {entries : List FreeEntry} {i : Nat} {wire : FreeEntry}
    (found : entries[i]? = some wire) :
    (entries.flatMap fun wire =>
        [wire.sequenceNumber, wire.address])[2 * i]? =
          some wire.sequenceNumber ∧
      (entries.flatMap fun wire =>
        [wire.sequenceNumber, wire.address])[2 * i + 1]? =
          some wire.address := by
  induction entries generalizing i with
  | nil => simp at found
  | cons first entries induction =>
      cases i with
      | zero =>
          cases found
          exact ⟨rfl, rfl⟩
      | succ i => exact induction found

theorem FreeBatch.readU64_entry {batch : FreeBatch} {i : Nat}
    {wire : FreeEntry} (found : batch.entries[i]? = some wire) :
    readU64 batch.payload (freeHeaderBytes + i * freeEntryBytes) =
        wire.sequenceNumber.toNat ∧
      readU64 batch.payload (freeHeaderBytes + i * freeEntryBytes + 8) =
        wire.address.toNat := by
  have words := word found
  have whole : batch.payload = batch.payload ++ [] :=
    (List.append_nil _).symm
  rw [whole, payload]
  constructor
  · refine readU64_word (i := 2 * i + 2) words.1 ?_ []
    rw [freeHeaderBytes, freeEntryBytes]
    omega
  · refine readU64_word (i := 2 * i + 1 + 2) words.2 ?_ []
    rw [freeHeaderBytes, freeEntryBytes]
    omega

theorem FreeBatch.readU64_header (batch : FreeBatch) :
    readU64 batch.payload 0 = freeBatchMagic ∧
      readU64 batch.payload 8 = batch.entries.length := by
  have few := batch.few
  have whole : batch.payload = batch.payload ++ [] :=
    (List.append_nil _).symm
  rw [whole, payload]
  constructor
  · have first : (UInt64.ofNat freeBatchMagic ::
        UInt64.ofNat batch.entries.length :: batch.entries.flatMap fun wire =>
          [wire.sequenceNumber, wire.address])[0]? =
            some (UInt64.ofNat freeBatchMagic) := rfl
    exact readU64_word first rfl []
  · rw [readU64_word (i := 1) rfl rfl []]
    apply Nat.mod_eq_of_lt
    rw [Shim.freeBatchCap] at few
    exact Nat.lt_of_le_of_lt few (by decide)

theorem foldl_range (entries : List FreeEntry) (book : HeapBook UInt64)
    (entry : Nat → Heap.FreeEntry) :
    ∀ {count : Nat}, (∀ i wire, i < count → entries[i]? = some wire →
      entry i = wire.entry) → count ≤ entries.length →
    (List.range count).foldl (fun book i => book.applyFree (entry i)) book =
      ((entries.take count).map FreeEntry.entry).foldl
        HeapBook.applyFree book := by
  intro count same few
  induction count with
  | zero => rfl
  | succ count induction =>
      have found : entries[count]? = some entries[count] :=
        List.getElem?_eq_getElem few
      rw [List.range_succ, List.foldl_append, induction
        (fun i wire less => same i wire (Nat.lt_succ_of_lt less))
        (Nat.le_of_succ_le few), List.take_add_one, found, List.map_append,
        List.foldl_append]
      exact congrArg _ (same count _ (Nat.lt_succ_self count) found)

/-- However a batch is cut off, the frees it holds whole are applied. -/
theorem processRecord_batch (book : HeapBook UInt64) (batch : FreeBatch)
    (count : Nat) :
    processRecord walkSnapshot book (batch.payload.take count) =
      ((batch.entries.take ((count - freeHeaderBytes) / freeEntryBytes)).map
        FreeEntry.entry).foldl HeapBook.applyFree book := by
  have length := batch.length_payload
  have cut : (batch.payload.take count).length =
      min count (freeHeaderBytes + freeEntryBytes * batch.entries.length) := by
    rw [List.length_take, length]
  rw [freeHeaderBytes, freeEntryBytes] at cut length
  unfold processRecord
  rw [cut, freeHeaderBytes]
  by_cases short : count < 16
  · have size : allocMetadataBytes + stackSnapshotBytes = 8520 := rfl
    rw [if_neg (by omega), if_pos (by omega),
      Nat.sub_eq_zero_of_le (Nat.le_of_lt short), Nat.zero_div,
      List.take_zero]
    rfl
  · rw [Nat.not_lt] at short
    obtain ⟨magic, num⟩ := batch.readU64_header
    rw [if_pos ⟨by omega, by rw [readU64_take (by omega), magic]⟩]
    dsimp only
    rw [readU64_take short, num, foldl_range batch.entries book _]
    · rw [freeEntryBytes]
      have held : min batch.entries.length
          ((min count (16 + 16 * batch.entries.length) - 16) / 16) =
          min ((count - 16) / 16) batch.entries.length := by omega
      rw [held, ← List.take_eq_take_min]
    · intro i wire less found
      rw [freeEntryBytes] at less
      have bounds := Nat.lt_min.mp less
      rw [readU64_take (by rw [freeEntryBytes]; omega),
        readU64_take (by rw [freeEntryBytes]; omega)]
      have words := batch.readU64_entry found
      rw [freeHeaderBytes] at words
      rw [words.1, words.2]
      rfl
    · exact Nat.min_le_left _ _

theorem processRecord_cut {meta_ : AllocMetadata} (stack : Payload)
    (book : HeapBook UInt64) {count : Nat}
    (other : meta_.sequenceNumber.toNat ≠ freeBatchMagic)
    (short : count < allocMetadataBytes + stackSnapshotBytes) :
    processRecord walkSnapshot book ((allocPayload meta_ stack).take count) =
      book := by
  have cut : ((allocPayload meta_ stack).take count).length = count := by
    rw [List.length_take, length_allocPayload]
    exact Nat.min_eq_left (Nat.le_of_lt short)
  unfold processRecord
  rw [cut, if_neg, if_pos short]
  intro both
  rw [readU64_take (Nat.le_trans (by decide) both.1)] at both
  rw [readU64_allocPayload (i := 0) rfl rfl] at both
  exact other both.2

/-- What the shim writes the recorder reads back, whatever is missing of its
end: an allocation that is there whole and no other, and of a batch the frees
that are there whole. -/
theorem records_read_back (walkSnapshot : StackRegs → Payload → Nat → Nat →
      List Nat) (book : HeapBook UInt64) :
    (∀ meta_ stack count, meta_.sequenceNumber.toNat ≠ freeBatchMagic →
      processRecord walkSnapshot book
          ((allocPayload meta_ stack).take count) =
        if allocMetadataBytes + stackSnapshotBytes ≤ count then
          book.applyAlloc (record walkSnapshot meta_ stack)
        else book) ∧
      ∀ (batch : FreeBatch) (count : Nat),
        processRecord walkSnapshot book (batch.payload.take count) =
          ((batch.entries.take
            ((count - freeHeaderBytes) / freeEntryBytes)).map
              FreeEntry.entry).foldl HeapBook.applyFree book := by
  refine ⟨fun meta_ stack count other => ?_, processRecord_batch book⟩
  split
  · next whole =>
      rw [List.take_of_length_le (by rw [length_allocPayload]; exact whole)]
      exact processRecord_allocPayload book other
  · next short =>
      exact processRecord_cut stack book other (Nat.lt_of_not_le short)

variable (walkSnapshot) in
/-- A payload holds what a slot of the ring stands for. -/
def Encodes (payload : Payload) : Shim.Slot → Prop
  | .reservedAlloc _ => False
  | .alloc written => ∃ meta_ stack, payload = allocPayload meta_ stack ∧
      written = record walkSnapshot meta_ stack
  | .frees entries => ∃ batch : FreeBatch, payload = batch.payload ∧
      entries = batch.entries.map FreeEntry.entry

theorem processRecord_encoded {payload : Payload} {slot : Shim.Slot}
    (book : HeapBook UInt64) (encodes : Encodes walkSnapshot payload slot)
    (other : ∀ written, slot = .alloc written →
      written.seq ≠ freeBatchMagic) :
    processRecord walkSnapshot book payload = book.applyAll slot.records := by
  cases slot with
  | reservedAlloc addr => exact absurd encodes id
  | alloc written =>
      obtain ⟨meta_, stack, rfl, rfl⟩ := encodes
      exact processRecord_allocPayload book (other _ rfl)
  | frees entries =>
      obtain ⟨batch, rfl, rfl⟩ := encodes
      have whole := @processRecord_batch walkSnapshot book batch
        batch.payload.length
      rw [List.take_length, batch.length_payload, Nat.add_sub_cancel_left,
        Nat.mul_div_cancel_left _ (by decide), List.take_length] at whole
      rw [whole, Shim.Slot.records, HeapBook.applyAll, List.foldl_map
        (f := HeapRecord.free)]
      rfl

theorem bookOf_encoded {payloads : List Payload} {slots : List Shim.Slot}
    (encoded : List.Forall₂ (Encodes walkSnapshot) payloads slots)
    (other : ∀ slot ∈ slots, ∀ written, slot = .alloc written →
      written.seq ≠ freeBatchMagic) (book : HeapBook UInt64) :
    payloads.foldl (processRecord walkSnapshot) book =
      book.applyAll (slots.flatMap Shim.Slot.records) := by
  induction encoded generalizing book with
  | nil => rfl
  | cons first rest induction =>
      rw [List.foldl_cons, processRecord_encoded book first
        (other _ List.mem_cons_self), induction fun slot member =>
          other slot (List.mem_cons_of_mem _ member), List.flatMap_cons,
        HeapBook.applyAll, HeapBook.applyAll, HeapBook.applyAll,
        List.foldl_append]

/-- However the target's threads interleave: from the bytes of any part of the
ring that is written, the recorder makes the book of the records it stands
for, as long as the sequence counter has not reached the magic of a batch. -/
theorem bytes_make_book {before : Nat → Bool} {s : Shim.State}
    (reached : Machine.Reachable Shim.step (Shim.State.initial before) s)
    (few : s.nextSeq ≤ freeBatchMagic) {count : Nat}
    {payloads : List Payload}
    (encoded : List.Forall₂ (Encodes walkSnapshot) payloads
      ((s.ring.take count).map Shim.RingRecord.slot)) :
    bookOf walkSnapshot payloads = ({} : HeapBook UInt64).applyAll
      ((s.ring.take count).flatMap fun written => written.slot.records) := by
  have inv := Shim.Invariant.reachable reached
  rw [bookOf, bookOf_encoded encoded, List.flatMap_map]
  intro slot member written isAlloc same
  obtain ⟨ringRecord, inRing, rfl⟩ := List.mem_map.mp member
  have known := (inv.alloc_slot (List.mem_of_mem_take inRing) isAlloc).1
  have below := inv.stamps.below _ known
  rw [Heap.HeapRecord.seq, same] at below
  omega

def churnAlloc (seq address : UInt64) : AllocMetadata where
  sequenceNumber := seq
  allocSize := 100
  sampleSize := 4096
  allocAddress := address
  stackPointer := 0x7000
  clockMonotonicCoarseTs := 0
  regs := { pc := 0x10, lr := 0x10, fp := 0 }

/-- Two threads record an allocation each, the second thread while the first
writes, and the first thread frees its own. -/
def churnRun : List Shim.Action :=
  [.alloc 0 4096 [0x1000], .allocResult 0 0x1000, .emit 0,
    .alloc 1 4096 [0x2000], .allocResult 1 0x2000, .emit 1, .emit 1, .emit 0,
    .free 0 0x1000, .queue 0 false, .freeResult 0, .lastFlush 0, .flush 0]

def churnBatch : FreeBatch where
  entries := [⟨3, 0x1000⟩]
  few := by decide

theorem bytes_make_book_churnRun :
    ∃ s, Machine.run Shim.step (Shim.State.initial fun _ => false)
        churnRun = some s ∧
      bookOf noWalk [allocPayload (churnAlloc 2 0x1000) [],
          allocPayload (churnAlloc 1 0x2000) [], churnBatch.payload] =
        ({} : HeapBook UInt64).applyAll
          ((s.ring.take 3).flatMap fun written => written.slot.records) :=
  ⟨_, rfl, @bytes_make_book noWalk (fun _ => false) _ ⟨churnRun, rfl⟩
    (by decide) 3 _ (.cons ⟨churnAlloc 2 0x1000, [], rfl, rfl⟩
      (.cons ⟨churnAlloc 1 0x2000, [], rfl, rfl⟩
        (.cons ⟨churnBatch, rfl, rfl⟩ .nil)))⟩

end

end Sismo.Heap.Wire
