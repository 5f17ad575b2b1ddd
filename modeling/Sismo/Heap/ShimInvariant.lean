import Sismo.Heap.Outcome
import Sismo.Heap.Shim

namespace Sismo.Heap.Shim

/-! What ties the real allocator's blocks, the numbered history and the ring
together at every step. -/

def FreeCall.owns (call : FreeCall) : Option Nat :=
  if call.ptr = 0 then none else some call.ptr

theorem FreeCall.owns_of_zero {call : FreeCall} (zero : call.ptr = 0) :
    call.owns = none :=
  if_pos zero

theorem FreeCall.eq_ptr_of_owns {call : FreeCall} {addr : Nat}
    (owns : call.owns = some addr) : addr = call.ptr := by
  rw [FreeCall.owns] at owns
  split at owns
  · cases owns
  · exact (Option.some.inj owns).symm

def Place.owns : Place → Option Nat
  | .idle | .allocating .. | .memaligning .. => none
  | .recording addr _ _ | .stamping addr _ _ _ => some addr
  | .queueing call | .calling call => call.owns
  | .flushing call => call.bind FreeCall.owns

def Place.reserved : Place → Option (Nat × Nat)
  | .stamping addr _ _ slot => some (slot, addr)
  | _ => none

def Block.Recorded (block : Block) : Prop :=
  block.sampleSize ≠ 0 → block.seq.isSome = true

def PlaceOk (blocks : Nat → Option Block) : Place → Prop
  | .idle | .allocating .. | .memaligning .. | .flushing none => True
  | .recording addr sampleSize pcs | .stamping addr sampleSize pcs _ =>
      sampleSize ≠ 0 ∧ blocks addr = some
        { sampleSize := sampleSize, pcs := pcs, busy := true }
  | .queueing call =>
      call.ptr ≠ 0 ∧ ∃ block, blocks call.ptr = some block ∧
        block.busy = true ∧ block.Recorded
  | .flushing (some call) | .calling call =>
      call.ptr ≠ 0 → ∃ block, blocks call.ptr = some block ∧
        block.busy = true ∧ block.Recorded ∧ block.queued = true

/-- A block agrees with what has been numbered for it. -/
structure BlockOk (history : List HeapRecord) (addr : Nat) (block : Block) :
    Prop where
  nonzero : addr ≠ 0
  record : ∀ seq, block.seq = some seq → block.sampleSize ≠ 0 ∧
    ∃ record : AllocRecord, .alloc record ∈ history ∧ record.addr = addr ∧
      record.live = ⟨seq, block.sampleSize, block.pcs⟩
  queued : ∀ seq, block.seq = some seq →
    (block.queued = true ↔ ∃ entry : FreeEntry, .free entry ∈ history ∧
      entry.addr = addr ∧ seq < entry.seq)
  settled : block.busy = false →
    block.Recorded ∧ block.queued = block.reallocFailed

structure HeapOk (history : List HeapRecord) (places : Nat → Place)
    (blocks : Nat → Option Block) : Prop where
  place : ∀ t, PlaceOk blocks (places t)
  block : ∀ addr block, blocks addr = some block → BlockOk history addr block
  owner : ∀ addr block, blocks addr = some block → block.busy = true →
    ∃ t, (places t).owns = some addr
  distinct : ∀ t u addr, (places t).owns = some addr →
    (places u).owns = some addr → t = u
  records : ∀ record : AllocRecord, .alloc record ∈ history →
    Freed history record ∨
      ∃ block, blocks record.addr = some block ∧ block.seq = some record.seq

structure StampsOk (nextSeq : Nat) (history : List HeapRecord) : Prop where
  ordered : Ordered history
  below : ∀ record ∈ history, record.seq < nextSeq

/-- The address a slot's allocation record is, or will be, about. -/
def Slot.allocAddr : Slot → Option Nat
  | .reservedAlloc addr => some addr
  | .alloc record => some record.addr
  | .frees _ => none

def Slot.entries : Slot → List FreeEntry
  | .frees entries => entries
  | _ => []

def SlotOk (history : List HeapRecord) (places : Nat → Place) (i : Nat)
    (record : RingRecord) : Prop :=
  match record.slot with
  | .reservedAlloc addr => ∃ t, (places t).reserved = some (i, addr)
  | .alloc alloc => .alloc alloc ∈ history ∧ record.stamp ≤ alloc.seq
  | .frees entries => entries.Nodup ∧
      ∀ entry ∈ entries, .free entry ∈ history ∧ entry.seq < record.stamp

/-- Two slots in reservation order: an allocation's number is known before the
slot of the next one of its address is reserved. -/
structure InOrder (earlier later : RingRecord) : Prop where
  stamp : earlier.stamp ≤ later.stamp
  alloc : ∀ addr, earlier.slot.allocAddr = some addr →
    later.slot.allocAddr = some addr →
    ∃ record, earlier.slot = .alloc record ∧ record.seq < later.stamp
  entries : ∀ entry ∈ earlier.slot.entries, entry ∉ later.slot.entries

structure RingOk (nextSeq : Nat) (history : List HeapRecord)
    (places : Nat → Place) (batches : Nat → List FreeEntry)
    (ring : List RingRecord) : Prop where
  stamp_le : ∀ record ∈ ring, record.stamp ≤ nextSeq
  slot : ∀ i record, ring[i]? = some record → SlotOk history places i record
  order : ring.Pairwise InOrder
  reserved : ∀ t i addr, (places t).reserved = some (i, addr) →
    ∃ stamp, ring[i]? = some ⟨stamp, .reservedAlloc addr⟩
  allocs : ∀ alloc : AllocRecord, .alloc alloc ∈ history →
    ∃ record ∈ ring, record.slot = .alloc alloc
  frees : ∀ entry : FreeEntry, .free entry ∈ history →
    (∃ t, entry ∈ batches t) ∨ ∃ record ∈ ring, entry ∈ record.slot.entries
  batch : ∀ t, ∀ entry ∈ batches t, .free entry ∈ history ∧
    (∀ record ∈ ring, entry ∉ record.slot.entries) ∧
    ∀ u, entry ∈ batches u → u = t
  batch_nodup : ∀ t, (batches t).Nodup

structure Invariant (s : State) : Prop where
  stamps : StampsOk s.nextSeq s.history
  separated : Separated s.history
  heap : HeapOk s.history s.places s.blocks
  ring : RingOk s.nextSeq s.history s.places s.batches s.ring

theorem Invariant.initial (before : Nat → Bool) :
    Invariant (State.initial before) where
  stamps := ⟨List.Pairwise.nil, by simp [State.initial]⟩
  separated := by simp [State.initial, Separated]
  heap :=
    { place := fun _ => trivial
      block := by
        intro addr block found
        simp only [State.initial] at found
        split at found
        · next allocated =>
            cases found
            exact ⟨allocated.1, by simp, by simp, by simp [Block.Recorded]⟩
        · cases found
      owner := by
        intro addr block found busy
        simp only [State.initial] at found
        split at found
        · cases found
          cases busy
        · cases found
      distinct := by
        intro t u addr owns
        cases owns
      records := by simp [State.initial] }
  ring :=
    { stamp_le := by simp [State.initial]
      slot := by simp [State.initial]
      order := List.Pairwise.nil
      reserved := by
        intro t i addr reserved
        cases reserved
      allocs := by simp [State.initial]
      frees := by simp [State.initial]
      batch := by simp [State.initial]
      batch_nodup := by simp [State.initial] }

theorem PlaceOk.congr {blocks next : Nat → Option Block} {place : Place}
    (ok : PlaceOk blocks place)
    (same : ∀ addr, place.owns = some addr → next addr = blocks addr) :
    PlaceOk next place := by
  cases place with
  | recording addr sampleSize pcs =>
      exact ⟨ok.1, (same addr rfl).trans ok.2⟩
  | stamping addr sampleSize pcs slot =>
      exact ⟨ok.1, (same addr rfl).trans ok.2⟩
  | queueing call =>
      obtain ⟨nonzero, block, found, busy⟩ := ok
      exact ⟨nonzero, block, (same call.ptr (if_neg nonzero)).trans found, busy⟩
  | calling call =>
      intro nonzero
      obtain ⟨block, found, facts⟩ := ok nonzero
      exact ⟨block, (same call.ptr (if_neg nonzero)).trans found, facts⟩
  | flushing call =>
      cases call with
      | none => trivial
      | some call =>
          intro nonzero
          obtain ⟨block, found, facts⟩ := ok nonzero
          exact ⟨block, (same call.ptr (if_neg nonzero)).trans found, facts⟩
  | _ => trivial

namespace HeapOk

variable {history : List HeapRecord} {places : Nat → Place}
variable {blocks : Nat → Option Block}

/-- One thread changes its place and the one block it works on, and numbers at
most records of that block's address. -/
theorem change (ok : HeapOk history places blocks) {next : List HeapRecord}
    {t addr : Nat} {place : Place} {block : Option Block}
    (kept : ∀ record ∈ history, record ∈ next)
    (elsewhere : ∀ record ∈ next, record.addr ≠ addr → record ∈ history)
    (unowned : ∀ u, u ≠ t → (places u).owns ≠ some addr)
    (owned : ∀ other, (places t).owns = some other → other = addr)
    (owns : ∀ other, place.owns = some other → other = addr)
    (placeOk : PlaceOk (Function.update blocks addr block) place)
    (blockOk : ∀ found, block = some found → BlockOk next addr found ∧
      (found.busy = true → place.owns = some addr))
    (records : ∀ record : AllocRecord, .alloc record ∈ next →
      record.addr = addr → Freed next record ∨
        ∃ found, block = some found ∧ found.seq = some record.seq) :
    HeapOk next (Function.update places t place)
      (Function.update blocks addr block) where
  place u := by
    rw [Function.update_apply]
    split
    · exact placeOk
    · next other =>
        refine (ok.place u).congr fun a aOwned => Function.update_of_ne ?_ _ _
        rintro rfl
        exact unowned u other aOwned
  block a found at_ := by
    rcases eq_or_ne a addr with rfl | other
    · rw [Function.update_self] at at_
      exact (blockOk found at_).1
    · rw [Function.update_of_ne other] at at_
      have old := ok.block a found at_
      refine ⟨old.nonzero, fun seq seqEq => ?_, fun seq seqEq => ?_, old.settled⟩
      · obtain ⟨sampled, record, member, facts⟩ := old.record seq seqEq
        exact ⟨sampled, record, kept _ member, facts⟩
      · refine (old.queued seq seqEq).trans ⟨?_, ?_⟩
        · rintro ⟨entry, member, facts⟩
          exact ⟨entry, kept _ member, facts⟩
        · rintro ⟨entry, member, here, later⟩
          refine ⟨entry, elsewhere _ member ?_, here, later⟩
          exact fun same => other (here.symm.trans same)
  owner a found at_ busy := by
    rcases eq_or_ne a addr with rfl | other
    · rw [Function.update_self] at at_
      exact ⟨t, by rw [Function.update_self]; exact (blockOk found at_).2 busy⟩
    · rw [Function.update_of_ne other] at at_
      obtain ⟨u, uOwns⟩ := ok.owner a found at_ busy
      refine ⟨u, ?_⟩
      rw [Function.update_of_ne]
      · exact uOwns
      · rintro rfl
        exact other (owned a uOwns)
  distinct u v a uOwns vOwns := by
    rw [Function.update_apply] at uOwns vOwns
    split at uOwns
    · next uIs =>
        split at vOwns
        · next vIs => rw [uIs, vIs]
        · next vOther =>
            obtain rfl := owns a uOwns
            exact absurd vOwns (unowned v vOther)
    · next uOther =>
        split at vOwns
        · obtain rfl := owns a vOwns
          exact absurd uOwns (unowned u uOther)
        · exact ok.distinct u v a uOwns vOwns
  records record member := by
    rcases eq_or_ne record.addr addr with here | other
    · rw [here, Function.update_self]
      exact records record member here
    · rw [Function.update_of_ne other]
      refine (ok.records record (elsewhere _ member other)).imp_left ?_
      rintro ⟨entry, entryMem, facts⟩
      exact ⟨entry, mem_frees.mpr (kept _ (mem_frees.mp entryMem)), facts⟩

/-- A thread moves on without touching a block. -/
theorem move (ok : HeapOk history places blocks) {t : Nat} {place : Place}
    (owns : place.owns = (places t).owns) (placeOk : PlaceOk blocks place) :
    HeapOk history (Function.update places t place) blocks := by
  have same : ∀ u, (Function.update places t place u).owns =
      (places u).owns := by
    intro u
    rw [Function.update_apply]
    split
    · next here => rw [owns, here]
    · rfl
  exact
    { place := fun u => by
        rw [Function.update_apply]
        split
        · exact placeOk
        · exact ok.place u
      block := ok.block
      owner := fun addr block found busy => by
        obtain ⟨u, uOwns⟩ := ok.owner addr block found busy
        exact ⟨u, (same u).trans uOwns⟩
      distinct := fun u v addr uOwns vOwns =>
        ok.distinct u v addr ((same u).symm.trans uOwns)
          ((same v).symm.trans vOwns)
      records := ok.records }

theorem unowned_of_owns (ok : HeapOk history places blocks) {t addr : Nat}
    (owns : (places t).owns = some addr) :
    ∀ u, u ≠ t → (places u).owns ≠ some addr :=
  fun u other uOwns => other (ok.distinct u t addr uOwns owns)

theorem unowned_of_idle (ok : HeapOk history places blocks) {addr : Nat}
    (idle : ∀ block, blocks addr = some block → block.busy = false) (u : Nat) :
    (places u).owns ≠ some addr := by
  intro uOwns
  have placeOk := ok.place u
  have busy : ∃ block, blocks addr = some block ∧ block.busy = true := by
    cases place : places u with
    | recording a sampleSize pcs =>
        rw [place] at uOwns placeOk
        cases uOwns
        exact ⟨_, placeOk.2, rfl⟩
    | stamping a sampleSize pcs slot =>
        rw [place] at uOwns placeOk
        cases uOwns
        exact ⟨_, placeOk.2, rfl⟩
    | queueing call =>
        rw [place] at uOwns placeOk
        simp only [Place.owns, FreeCall.owns, if_neg placeOk.1,
          Option.some.injEq] at uOwns
        obtain ⟨_, block, found, isBusy, _⟩ := placeOk
        exact ⟨block, uOwns ▸ found, isBusy⟩
    | calling call =>
        rw [place] at uOwns placeOk
        simp only [Place.owns, FreeCall.owns] at uOwns
        split at uOwns
        · cases uOwns
        · next nonzero =>
            cases uOwns
            obtain ⟨block, found, isBusy, _⟩ := placeOk nonzero
            exact ⟨block, found, isBusy⟩
    | flushing call =>
        cases call with
        | none =>
            rw [place] at uOwns
            cases uOwns
        | some call =>
            rw [place] at uOwns placeOk
            simp only [Place.owns, FreeCall.owns, Option.bind_some] at uOwns
            split at uOwns
            · cases uOwns
            · next nonzero =>
                cases uOwns
                obtain ⟨block, found, isBusy, _⟩ := placeOk nonzero
                exact ⟨block, found, isBusy⟩
    | idle | allocating _ _ | memaligning _ _ =>
        rw [place] at uOwns
        cases uOwns
  obtain ⟨block, found, isBusy⟩ := busy
  exact absurd ((idle block found).symm.trans isBusy) (by decide)

end HeapOk

end Sismo.Heap.Shim
