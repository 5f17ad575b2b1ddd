import Sismo.Heap.RingProgress

namespace Sismo.Heap.Ring

/-! What the writers and the reader can rely on in every reachable state. -/

structure Safe (ring : Layout) (s : State) : Prop where
  /-- Unread bytes never exceed the ring. -/
  within : s.head ≤ s.tail ∧ s.tail ≤ s.head + ring.size
  /-- The u64 positions differ by the unread bytes, wrapped around or not. -/
  distance : wrappingSub s.page.writePos s.page.readPos = s.tail - s.head
  /-- Unread reservations share no byte of the ring. -/
  disjoint : ∀ first second firstPayload secondPayload,
    s.reserved[first]? = some firstPayload →
    s.reserved[second]? = some secondPayload →
    s.returned.length ≤ first → s.returned.length ≤ second →
    first ≠ second →
    ∀ i < total firstPayload.length, ∀ j < total secondPayload.length,
      (start s.reserved first + i) % ring.size ≠
        (start s.reserved second + j) % ring.size
  /-- The records read are the first reserved ones, each with its payload. -/
  inOrder : s.returned = s.reserved.take s.returned.length
  onlyPublished : ∀ ticket < s.returned.length, ticket ∈ s.published
  /-- The record the reader holds is the next one, its writer has left it, and
  its bytes are in place. -/
  held : ∀ rd len bytes, s.reader = .holding rd len bytes →
    ∃ payload, s.reserved[s.returned.length]? = some payload ∧
      s.returned.length ∈ s.published ∧ len = payload.length ∧
      (∀ w, (s.writers w).ticket? ≠ some s.returned.length) ∧
      ∀ i byte, payload[i]? = some byte →
        ring.loadByte s.data (ring.address rd + headerBytes + i) = byte

theorem Invariant.safe {ring : Layout} {s : State}
    (inv : Invariant ring s) : Safe ring s where
  within := ⟨start_mono _ inv.consumed_le, inv.room⟩
  distance := by
    have headTail : s.head ≤ s.tail := start_mono _ inv.consumed_le
    have room := inv.room
    have sizeLt := ring.size_lt
    rw [inv.writePos, inv.readPos]
    exact wrappingSub_u64 headTail (by omega) inv.readPos_lt
  disjoint := fun _ _ _ _ firstFound secondFound firstUnread secondUnread
      distinct _ iLt _ jLt =>
    inv.records_apart firstFound secondFound firstUnread secondUnread iLt jLt
      (.inl distinct)
  inOrder := inv.returned
  onlyPublished := inv.returned_published
  held := by
    intro rd len bytes place
    have ok := inv.reader
    rw [place] at ok
    obtain ⟨rdEq, payload, found, published, lenEq, _, _⟩ := ok
    refine ⟨payload, found, published, lenEq, fun w has => ?_, ?_⟩
    · exact (inv.ticket w _ has).2 published
    · intro i byte byteAt
      rw [rdEq, inv.readPos, ← u64_of_lt inv.readPos_lt, Nat.add_assoc,
        ring.loadByte_address, ← Nat.add_assoc]
      exact inv.payload _ payload found (Nat.le_refl _) published i byte byteAt

/-- The steps of a `begin_write` that has not found room: up to the test, and
after a failed one. -/
def Writer.refused (ring : Layout) : Writer → Bool
  | .locking .. | .swapping .. | .backingOff _ | .locked _ | .loadedWrite ..
  | .overflowed => true
  | .loadedRead payload wr rd =>
      ring.size < wrappingSub wr rd + total payload.length
  | _ => false

/-- Nothing but the lock and the failure counters differs, and only the
writer's own place. -/
structure RefusedFrame (s next : State) (w : Nat) : Prop where
  data : next.data = s.data
  reader : next.reader = s.reader
  others : ∀ v ≠ w, next.writers v = s.writers v
  ghosts : next.reserved = s.reserved ∧ next.published = s.published ∧
    next.returned = s.returned
  page : next.page = { s.page with
    spinlock := next.page.spinlock
    numWritesOverflow := next.page.numWritesOverflow
    failedSpinlocks := next.page.failedSpinlocks }

theorem RefusedFrame.setWriter {s : State} {w : Nat} {writer : Writer}
    {page : MetadataPage}
    (same : page = { s.page with
      spinlock := page.spinlock
      numWritesOverflow := page.numWritesOverflow
      failedSpinlocks := page.failedSpinlocks }) :
    RefusedFrame s ({ s with page := page }.setWriter w writer) w where
  data := rfl
  reader := rfl
  others := fun _ other => Function.update_of_ne other _ _
  ghosts := ⟨rfl, rfl, rfl⟩
  page := same

theorem RefusedFrame.spin {s : State} {w : Nat} {payload : List UInt8}
    {page : MetadataPage}
    (same : page = { s.page with
      spinlock := page.spinlock
      numWritesOverflow := page.numWritesOverflow
      failedSpinlocks := page.failedSpinlocks }) (spins : Nat) :
    RefusedFrame s ({ s with page := page }.spin w payload spins) w := by
  rw [State.spin]
  split
  · exact RefusedFrame.setWriter same
  · exact RefusedFrame.setWriter same

theorem refusedFrame_of_step {ring : Layout} {s next : State} {w : Nat}
    (refused : (s.writers w).refused ring = true)
    (stepped : step ring s (.writer w) = some next) : RefusedFrame s next w := by
  simp only [step] at stepped
  cases place : s.writers w with
  | locking payload spins =>
      simp only [writerStep, place] at stepped
      split at stepped
      · cases stepped
        exact RefusedFrame.setWriter rfl
      · cases stepped
        exact RefusedFrame.spin rfl spins
  | swapping payload spins =>
      simp only [writerStep, place] at stepped
      split at stepped
      · cases stepped
        exact RefusedFrame.setWriter rfl
      · cases stepped
        exact RefusedFrame.spin rfl spins
  | loadedRead payload wr rd =>
      simp only [Writer.refused, place, decide_eq_true_eq] at refused
      simp only [writerStep, place, if_pos refused] at stepped
      cases stepped
      exact RefusedFrame.setWriter rfl
  | backingOff _ | locked _ | loadedWrite _ _ | overflowed =>
      simp only [writerStep, place] at stepped
      cases stepped
      exact RefusedFrame.setWriter rfl
  | idle | zeroed _ _ | stored _ _ _ | countedBytes _ _ _
  | countedWrite _ _ _ | copying _ _ _ _ =>
      simp [place, Writer.refused] at refused

/-- Every interleaving of the writers with the reader is safe; `begin_read`
answers none only for want of a published record, and a published one is
returned once the reader goes on, as long as the positions have not wrapped
around; and a `begin_write` that does not fit leaves the ring as it was but for
one more counted failure, with the lock free again. -/
theorem ring_safe (ring : Layout) {s : State}
    (reached : Machine.Reachable (step ring) {} s) :
    Safe ring s ∧ Answers ring s ∧
    (∀ payload actions final, s.reader = .idle →
      s.reserved[s.returned.length]? = some payload →
      s.returned.length ∈ s.published →
      Machine.run (step ring) s actions = some final →
      final.tail < 2 ^ 64 → payload.length + 5 ≤ actions.count .reader →
      final.returned[s.returned.length]? = some payload) ∧
    (∀ w next, (s.writers w).refused ring = true →
      step ring s (.writer w) = some next → RefusedFrame s next w) ∧
    (∀ w payload wr rd next, s.writers w = .loadedRead payload wr rd →
      ring.size < wrappingSub wr rd + total payload.length →
      step ring s (.writer w) = some next →
      next.writers w = .overflowed ∧ next.page.numWritesOverflow =
        u64 (s.page.numWritesOverflow + 1)) ∧
    (∀ w next, s.writers w = .overflowed →
      step ring s (.writer w) = some next →
      next.writers w = .idle ∧ next.page = { s.page with spinlock := 0 }) ∧
    (∀ w payload next, ring.size < total payload.length →
      step ring s (.beginWrite w payload) = some next → next = s) := by
  have inv := Invariant.reachable reached
  refine ⟨inv.safe, inv.answers, fun _ _ _ => inv.returns_published,
    ?_, ?_, ?_, ?_⟩
  · exact fun w next => refusedFrame_of_step
  · intro w payload wr rd next place full stepped
    simp only [step, writerStep, place, if_pos full] at stepped
    cases stepped
    exact ⟨Function.update_self _ _ _, rfl⟩
  · intro w next place stepped
    simp only [step, writerStep, place] at stepped
    cases stepped
    exact ⟨Function.update_self _ _ _, rfl⟩
  · intro w payload next large stepped
    simp only [step, beginWrite, if_pos large] at stepped
    split at stepped
    · exact (Option.some.inj stepped).symm
    · cases stepped

def smallRing : Layout where
  size := 16
  exponent := 4
  power := rfl
  fits := by decide

/-- One record that fills the ring is written, and another is refused
meanwhile. -/
def fullRing : List Action :=
  .beginWrite 0 [7] :: List.replicate 9 (.writer 0) ++
    .beginWrite 1 [8] :: List.replicate 5 (.writer 1) ++
    [.copy 0 0, .writer 0]

theorem ring_safe_fullRing :
    ∃ s final, Machine.run (step smallRing) {} fullRing = some s ∧
      s.page.numWritesOverflow = 1 ∧ Safe smallRing s ∧
      Machine.run (step smallRing) s (List.replicate 6 .reader) = some final ∧
      final.returned[0]? = some [7] := by
  obtain ⟨safe, -, returns, -⟩ := ring_safe smallRing ⟨fullRing, rfl⟩
  exact ⟨_, _, rfl, rfl, safe, rfl, returns [7] (List.replicate 6 .reader) _ rfl
    rfl (by decide) rfl (by decide) (by decide)⟩

end Sismo.Heap.Ring
