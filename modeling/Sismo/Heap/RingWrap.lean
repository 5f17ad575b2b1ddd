import Sismo.Heap.RingSafety

namespace Sismo.Heap.Ring

/-! The ring once its write position has wrapped around. -/

/-- Every `begin_read` from here on answers none. -/
def Stalled (ring : Layout) (s : State) : Prop :=
  Invariant ring s ∧ 2 ^ 64 ≤ s.tail ∧
    (s.reader = .idle ∨ s.reader = .loadedRead s.page.readPos ∨
      ∃ rd wr, s.reader = .loadedWrite rd wr ∧ wr ≤ rd)

theorem Invariant.writePos_le {ring : Layout} {s : State}
    (inv : Invariant ring s) (wrapped : 2 ^ 64 ≤ s.tail) :
    s.page.writePos ≤ s.page.readPos := by
  have room := inv.room
  have below := inv.readPos_lt
  have sizeLt := ring.size_lt
  rw [inv.writePos, inv.readPos, u64]
  omega

theorem Stalled.step {ring : Layout} {s next : State} {action : Action}
    (stalled : Stalled ring s) (stepped : step ring s action = some next) :
    Stalled ring next ∧ next.returned = s.returned := by
  obtain ⟨inv, wrapped, place⟩ := stalled
  have kept := inv.step stepped
  have grown := wrapped.trans (tail_le (reserved_grows stepped))
  by_cases reads : action = .reader
  · cases reads
    cases stepped
    have returned := (readerStep_keeps ring s).2.2
    obtain idle | loaded | ⟨rd, wr, loaded, le⟩ := place
    · refine ⟨⟨kept, grown, .inr (.inl ?_)⟩, ?_⟩
      · simp only [readerStep, idle]
      · rw [returned, idle]
        exact List.append_nil _
    · refine ⟨⟨kept, grown, .inr (.inr ⟨_, _, ?_, inv.writePos_le wrapped⟩)⟩, ?_⟩
      · simp only [readerStep, loaded]
      · rw [returned, loaded]
        exact List.append_nil _
    · refine ⟨⟨kept, grown, .inl ?_⟩, ?_⟩
      · simp only [readerStep, loaded, if_pos le]
      · rw [returned, loaded]
        exact List.append_nil _
  · have frame := writerFrame_of_step reads stepped
    refine ⟨⟨kept, grown, ?_⟩, frame.returned⟩
    rw [frame.reader, frame.readPos]
    exact place

/-- From there on nothing is ever returned. -/
theorem Stalled.run {ring : Layout} {s final : State} {actions : List Action}
    (stalled : Stalled ring s)
    (ran : Machine.run (Ring.step ring) s actions = some final) :
    final.returned = s.returned := by
  induction actions generalizing s with
  | nil =>
      cases ran
      rfl
  | cons action rest induction =>
      obtain ⟨next, stepped, remaining⟩ := Machine.run_cons.mp ran
      obtain ⟨later, same⟩ := stalled.step stepped
      rw [induction later remaining, same]

def lockActions : List Action :=
  .beginWrite 0 [7] :: List.replicate 4 (.writer 0)

def publishActions : List Action :=
  List.replicate 4 (.writer 0) ++ [.copy 0 0, .writer 0]

def writeOne : List Action :=
  lockActions ++ .writer 0 :: publishActions

def readOne : List Action :=
  List.replicate 7 .reader

/-- So many records have been written, each read before the next. -/
structure Drained (s : State) (count : Nat) : Prop where
  reached : Machine.Reachable (step smallRing) {} s
  free : s.page.spinlock = 0
  writer : s.writers 0 = .idle
  reader : s.reader = .idle
  reserved : s.reserved = List.replicate count [7]
  returned : s.returned = s.reserved

theorem start_replicate {count ticket : Nat} (le : ticket ≤ count) :
    start (List.replicate count [7]) ticket = 16 * ticket := by
  have one : total [(7 : UInt8)].length = 16 := rfl
  rw [start, List.take_replicate, Nat.min_eq_left le, List.map_replicate, one,
    List.sum_replicate_nat]
  exact Nat.mul_comm _ _

/-- Up to the test for room. -/
theorem lock_steps {s : State} (free : s.page.spinlock = 0)
    (idle : s.writers 0 = .idle) :
    ∃ next, Machine.run (step smallRing) s lockActions = some next ∧
      next.writers 0 = .loadedRead [7] s.page.writePos s.page.readPos ∧
      next.reader = s.reader ∧ next.reserved = s.reserved ∧
      next.returned = s.returned := by
  have small : ¬ smallRing.size < total 1 := by decide
  simp [lockActions, Machine.run, step, beginWrite, writerStep,
    State.setWriter, idle, free, small]

theorem room_step {s : State} {wr rd : Nat}
    (place : s.writers 0 = .loadedRead [7] wr rd)
    (room : ¬ smallRing.size < wrappingSub wr rd + total 1) :
    ∃ next, step smallRing s (.writer 0) = some next ∧
      next.writers 0 = .zeroed [7] wr ∧ next.reader = s.reader ∧
      next.reserved = s.reserved ∧ next.returned = s.returned := by
  refine ⟨{ s with
      data := smallRing.storeU32 s.data (smallRing.address wr) 0 }.setWriter 0
        (.zeroed [7] wr), ?_, ?_, rfl, rfl, rfl⟩
  · simp only [step, writerStep, place]
    exact if_neg room
  · simp only [State.setWriter, Function.update_self]

theorem publish_steps {s : State} {wr : Nat}
    (place : s.writers 0 = .zeroed [7] wr) :
    ∃ next, Machine.run (step smallRing) s publishActions = some next ∧
      next.page.spinlock = 0 ∧ next.writers 0 = .idle ∧
      next.reader = s.reader ∧ next.reserved = s.reserved ++ [[7]] ∧
      next.returned = s.returned ∧ s.reserved.length ∈ next.published := by
  simp [publishActions, Machine.run, step, writerStep, copyStep, State.setWriter, place]

theorem read_steps {s : State} (inv : Invariant smallRing s)
    (idle : s.reader = .idle) (fits : s.tail < 2 ^ 64)
    (found : s.reserved[s.returned.length]? = some [7])
    (published : s.returned.length ∈ s.published) :
    ∃ next byte, Machine.run (step smallRing) s readOne = some next ∧
      next.page.spinlock = s.page.spinlock ∧ next.writers = s.writers ∧
      next.reader = .idle ∧ next.reserved = s.reserved ∧
      next.returned = s.returned ++ [byte] := by
  have less := (inv.readPos_lt_writePos fits).mpr (lt_length found)
  have header := inv.head_header found
  rw [if_pos published] at header
  simp [readOne, Machine.run, step, readerStep, idle, Nat.not_le.mpr less,
    header]

theorem Drained.room {s : State} {count : Nat} (drained : Drained s count) :
    ¬ smallRing.size <
      wrappingSub s.page.writePos s.page.readPos + total 1 := by
  have inv := Invariant.reachable drained.reached
  have same : s.tail = s.head := by rw [State.tail, State.head, drained.returned]
  rw [inv.writePos, inv.readPos, same,
    wrappingSub_u64 (Nat.le_refl _) (by rw [Nat.sub_self]; decide)
      inv.readPos_lt, Nat.sub_self]
  decide

/-- Another record is written. -/
theorem Drained.write {s : State} {count : Nat} (drained : Drained s count) :
    ∃ next, Machine.run (step smallRing) s writeOne = some next ∧
      next.page.spinlock = 0 ∧ next.writers 0 = .idle ∧
      next.reader = .idle ∧ next.reserved = s.reserved ++ [[7]] ∧
      next.returned = s.returned ∧ s.reserved.length ∈ next.published := by
  obtain ⟨locked, lockRan, place, lockReader, lockReserved, lockReturned⟩ :=
    lock_steps drained.free drained.writer
  obtain ⟨zeroed, tested, place, zeroReader, zeroReserved, zeroReturned⟩ :=
    room_step place drained.room
  obtain ⟨next, ran, free, writer, reader, reserved, returned, published⟩ :=
    publish_steps place
  rw [zeroReader, lockReader, drained.reader] at reader
  rw [zeroReserved, lockReserved] at reserved published
  rw [zeroReturned, lockReturned] at returned
  exact ⟨next, Machine.run_append.mpr ⟨locked, lockRan,
    Machine.run_cons.mpr ⟨zeroed, tested, ran⟩⟩, free, writer, reader,
    reserved, returned, published⟩

/-- It is read while the position fits. -/
theorem Drained.cycle {s : State} {count : Nat} (drained : Drained s count)
    (fits : 16 * (count + 1) < 2 ^ 64) : ∃ next, Drained next (count + 1) := by
  obtain ⟨middle, wrote, free, writer, reader, reserved, returned, published⟩ :=
    drained.write
  have reached := drained.reached.trans wrote
  have inv := Invariant.reachable reached
  rw [drained.reserved, ← List.replicate_succ'] at reserved
  have tail : middle.tail = 16 * (count + 1) := by
    rw [State.tail, reserved, List.length_replicate,
      start_replicate (Nat.le_refl _)]
  have length : middle.returned.length = count := by
    rw [returned, drained.returned, drained.reserved, List.length_replicate]
  rw [drained.reserved, List.length_replicate] at published
  have found : middle.reserved[middle.returned.length]? = some [7] := by
    rw [length, reserved, List.getElem?_replicate, if_pos (Nat.lt_succ_self _)]
  obtain ⟨next, byte, read, free', writers, reader', reserved', returned'⟩ :=
    read_steps inv reader (tail ▸ fits) found (length ▸ published)
  have reached' := reached.trans read
  refine ⟨next, reached', free'.trans free, writers ▸ writer, reader',
    reserved'.trans reserved, ?_⟩
  have whole := (Invariant.reachable reached').returned
  rwa [returned', List.length_append, length, List.length_singleton,
    List.take_of_length_le
      (by rw [reserved', reserved, List.length_replicate]),
    ← returned'] at whole

theorem exists_drained {count : Nat} (fits : 16 * count < 2 ^ 64) :
    ∃ s, Drained s count := by
  induction count with
  | zero => exact ⟨{}, ⟨[], rfl⟩, rfl, rfl, rfl, rfl, rfl⟩
  | succ count induction =>
      obtain ⟨s, drained⟩ := induction (by omega)
      exact drained.cycle fits

/-- After 2^64 bytes a published record is never returned. -/
theorem not_returned_wrapped :
    ∃ s, Machine.Reachable (step smallRing) {} s ∧ s.reader = .idle ∧
      s.reserved[s.returned.length]? = some [7] ∧
      s.returned.length ∈ s.published ∧
      ∀ actions final, Machine.run (step smallRing) s actions = some final →
        final.returned = s.returned := by
  obtain ⟨s, drained⟩ :=
    @exists_drained (2 ^ 60 - 1) (by decide)
  obtain ⟨next, wrote, -, -, reader, reserved, returned, published⟩ :=
    drained.write
  have reached := drained.reached.trans wrote
  have length : next.returned.length = s.reserved.length := by
    rw [returned, drained.returned]
  have tail : next.tail = 2 ^ 64 := by
    rw [State.tail, reserved, drained.reserved, ← List.replicate_succ',
      List.length_replicate, start_replicate (Nat.le_refl _)]
    decide
  refine ⟨next, reached, reader, ?_, length ▸ published, fun _ _ =>
    Stalled.run ⟨Invariant.reachable reached, tail.ge, .inl reader⟩⟩
  rw [length, reserved, List.getElem?_append_right (Nat.le_refl _),
    Nat.sub_self]
  rfl

end Sismo.Heap.Ring
