import Sismo.Heap.RingSteps

namespace Sismo.Heap.Ring

/-! What the reader gets, and when. -/

/-- A writer's step leaves the reader alone and only adds records. -/
structure WriterFrame (s next : State) : Prop where
  reader : next.reader = s.reader
  returned : next.returned = s.returned
  readPos : next.page.readPos = s.page.readPos
  reserved : s.reserved <+: next.reserved
  published : s.published ⊆ next.published

theorem WriterFrame.setWriter {s : State} {w : Nat} {writer : Writer}
    {page : MetadataPage} {data : Data} {reserved : List (List UInt8)}
    {published : List Nat} (readPos : page.readPos = s.page.readPos)
    (more : s.reserved <+: reserved) (kept : s.published ⊆ published) :
    WriterFrame s ({ s with
      page := page, data := data, reserved := reserved,
      published := published }.setWriter w writer) where
  reader := rfl
  returned := rfl
  readPos := readPos
  reserved := more
  published := kept

theorem WriterFrame.spin {s : State} {w : Nat} {payload : List UInt8}
    {page : MetadataPage} (readPos : page.readPos = s.page.readPos)
    (spins : Nat) :
    WriterFrame s ({ s with page := page }.spin w payload spins) := by
  rw [State.spin]
  split
  · exact .setWriter readPos (List.prefix_refl _) (List.Subset.refl _)
  · exact .setWriter readPos (List.prefix_refl _) (List.Subset.refl _)

theorem writerFrame_of_step {ring : Layout} {s next : State} {action : Action}
    (other : action ≠ .reader) (stepped : step ring s action = some next) :
    WriterFrame s next := by
  have same := List.prefix_refl s.reserved
  have kept := List.Subset.refl s.published
  cases action with
  | reader => exact absurd rfl other
  | beginWrite w payload =>
      simp only [step, beginWrite] at stepped
      split at stepped
      · split at stepped
        · cases stepped
          exact ⟨rfl, rfl, rfl, same, kept⟩
        · cases stepped
          exact .setWriter rfl same kept
      · cases stepped
  | copy w index =>
      simp only [step, copyStep] at stepped
      split at stepped
      · split at stepped
        · cases stepped
        · cases stepped
          exact .setWriter rfl same kept
      · cases stepped
  | writer w =>
      simp only [step] at stepped
      cases place : s.writers w with
      | idle => simp [writerStep, place] at stepped
      | locking payload spins =>
          simp only [writerStep, place] at stepped
          split at stepped
          · cases stepped
            exact .setWriter rfl same kept
          · cases stepped
            exact .spin rfl spins
      | swapping payload spins =>
          simp only [writerStep, place] at stepped
          split at stepped
          · cases stepped
            exact .setWriter rfl same kept
          · cases stepped
            exact WriterFrame.spin (show { s.page with spinlock := 1 }.readPos =
              s.page.readPos from rfl) spins
      | loadedRead payload wr rd =>
          simp only [writerStep, place] at stepped
          split at stepped
          · cases stepped
            exact .setWriter rfl same kept
          · cases stepped
            exact .setWriter rfl same kept
      | zeroed payload wr =>
          simp only [writerStep, place] at stepped
          cases stepped
          exact .setWriter rfl (List.prefix_append _ _) kept
      | copying payload wr ticket copied =>
          simp only [writerStep, place] at stepped
          split at stepped
          · cases stepped
            exact .setWriter rfl same (List.subset_cons_self _ _)
          · cases stepped
      | _ =>
          simp only [writerStep, place] at stepped
          cases stepped
          exact .setWriter rfl same kept

namespace Invariant

variable {ring : Layout} {s : State}

theorem head_lt_tail (inv : Invariant ring s) :
    s.head < s.tail ↔ s.returned.length < s.reserved.length := by
  constructor
  · intro less
    by_contra short
    have same := Nat.le_antisymm inv.consumed_le (Nat.not_lt.mp short)
    rw [State.head, State.tail, same] at less
    exact absurd less (Nat.lt_irrefl _)
  · intro less
    have found := List.getElem?_eq_getElem less
    have next := start_mono s.reserved less
    have room := le_total s.reserved[s.returned.length].length
    rw [Nat.succ_eq_add_one, start_succ found] at next
    simp only [headerBytes] at room
    rw [State.head, State.tail]
    omega

/-- The positions show whether a record is unread, until they wrap around. -/
theorem readPos_lt_writePos (inv : Invariant ring s) (fits : s.tail < 2 ^ 64) :
    s.page.readPos < s.page.writePos ↔
      s.returned.length < s.reserved.length := by
  rw [inv.readPos, inv.writePos, u64_of_lt fits]
  exact inv.head_lt_tail

theorem head_header (inv : Invariant ring s) {payload : List UInt8}
    (found : s.reserved[s.returned.length]? = some payload) :
    ring.loadU32 s.data (ring.address s.page.readPos) =
      if s.returned.length ∈ s.published then payload.length else 0 := by
  rw [inv.readPos, ← u64_of_lt inv.readPos_lt, ring.loadU32_address]
  exact inv.header _ _ found (Nat.le_refl _)

end Invariant

/-- What `begin_read` answers: none on an empty ring or an unpublished record,
else the next record. -/
structure Answers (ring : Layout) (s : State) : Prop where
  load : ∀ rd, s.reader = .loadedRead rd →
    (readerStep ring s).reader = .loadedWrite rd s.page.writePos ∧
      (s.tail < 2 ^ 64 → (rd < s.page.writePos ↔
        s.returned.length < s.reserved.length))
  nothing : ∀ rd wr, s.reader = .loadedWrite rd wr → wr ≤ rd →
    (readerStep ring s).reader = .idle
  header : ∀ rd wr, s.reader = .loadedWrite rd wr → rd < wr →
    ∃ payload, s.reserved[s.returned.length]? = some payload ∧
      (readerStep ring s).reader =
        if s.returned.length ∈ s.published then .holding rd payload.length []
        else .unpublished

theorem Invariant.answers {ring : Layout} {s : State} (inv : Invariant ring s) :
    Answers ring s where
  load rd place := by
    have ok := inv.reader
    rw [place] at ok
    refine ⟨?_, fun fits => ?_⟩
    · simp only [Ring.readerStep, place]
    · rw [show rd = s.page.readPos from ok]
      exact inv.readPos_lt_writePos fits
  nothing rd wr place le := by
    simp only [Ring.readerStep, place, if_pos le]
  header rd wr place less := by
    have ok := inv.reader
    rw [place] at ok
    obtain ⟨rfl, unread⟩ := ok
    obtain ⟨limit, above, le, -⟩ := unread less
    have found := List.getElem?_eq_getElem (above.trans_le le)
    refine ⟨_, found, ?_⟩
    have nonempty := (inv.payloads _ (List.mem_of_getElem? found)).nonempty
    simp only [Ring.readerStep, place, if_neg (Nat.not_le.mpr less),
      inv.head_header found]
    by_cases published : s.returned.length ∈ s.published
    · simp only [if_pos published, if_neg (Nat.ne_of_gt nonempty)]
    · simp only [if_neg published, ↓reduceIte]

/-! A published record is returned. -/

/-- The steps the reader has taken towards the next record. -/
def Reader.taken : Reader → Nat
  | .loadedRead _ => 1
  | .loadedWrite _ _ => 2
  | .holding _ _ bytes => 3 + bytes.length
  | .ending _ len _ => 4 + len
  | _ => 0

/-- The reader is not about to answer none. -/
def Reader.Heading : Reader → Prop
  | .loadedWrite rd wr => rd < wr
  | .unpublished | .counting => False
  | _ => True

/-- The record of a ticket has been returned, or is the published head and the
reader has taken so many steps towards it. -/
def Toward (ticket taken : Nat) (s : State) : Prop :=
  ticket < s.returned.length ∨
    ticket = s.returned.length ∧ ticket ∈ s.published ∧
      ticket < s.reserved.length ∧ s.reader.Heading ∧ s.reader.taken = taken

theorem Held.length_le {s : State} {len : Nat} {bytes : List UInt8}
    (held : Held s len bytes) : bytes.length ≤ len := by
  obtain ⟨payload, -, -, rfl, bytesEq, -⟩ := held
  rw [bytesEq, List.length_take]
  exact Nat.min_le_right _ _

theorem Toward.writer {ring : Layout} {s next : State} {action : Action}
    {ticket taken : Nat} (toward : Toward ticket taken s)
    (other : action ≠ .reader) (stepped : step ring s action = some next) :
    Toward ticket taken next := by
  have frame := writerFrame_of_step other stepped
  rw [Toward, frame.reader, frame.returned]
  obtain done | ⟨here, published, reserved, heading⟩ := toward
  · exact .inl done
  · exact .inr ⟨here, frame.published published,
      reserved.trans_le frame.reserved.length_le, heading⟩

def Reader.finished : Reader → List (List UInt8)
  | .ending _ _ bytes => [bytes]
  | _ => []

theorem readerStep_keeps (ring : Layout) (s : State) :
    (readerStep ring s).reserved = s.reserved ∧
      (readerStep ring s).published = s.published ∧
      (readerStep ring s).returned = s.returned ++ s.reader.finished := by
  cases place : s.reader with
  | loadedWrite rd wr =>
      simp only [readerStep, place, Reader.finished, List.append_nil]
      split
      · simp
      · split
        · simp
        · simp
  | holding rd len bytes =>
      simp only [readerStep, place, Reader.finished, List.append_nil]
      split
      · simp
      · simp
  | _ => simp [readerStep, place, Reader.finished]

theorem Toward.reader {ring : Layout} {s : State} {ticket taken : Nat}
    (toward : Toward ticket taken s) (inv : Invariant ring s)
    (fits : s.tail < 2 ^ 64) :
    Toward ticket (taken + 1) (readerStep ring s) := by
  obtain ⟨reservedSame, publishedSame, returned⟩ := readerStep_keeps ring s
  obtain done | ⟨rfl, published, reserved, heading, rfl⟩ := toward
  · left
    rw [returned, List.length_append]
    omega
  · have ok := inv.reader
    have answers := inv.answers
    cases place : s.reader with
    | idle =>
        have stepped : readerStep ring s =
            { s with reader := .loadedRead s.page.readPos } := by
          simp only [readerStep, place]
        rw [stepped]
        exact .inr ⟨rfl, published, reserved, trivial, rfl⟩
    | loadedRead rd =>
        have stepped : readerStep ring s =
            { s with reader := .loadedWrite rd s.page.writePos } := by
          simp only [readerStep, place]
        have less := ((answers.load rd place).2 fits).mpr reserved
        rw [stepped]
        exact .inr ⟨rfl, published, reserved, less, rfl⟩
    | loadedWrite rd wr =>
        rw [place] at heading
        obtain ⟨payload, -, header⟩ := answers.header rd wr place heading
        rw [if_pos published] at header
        simp only [place, Reader.finished, List.append_nil] at returned
        rw [Toward, header, reservedSame, publishedSame, returned]
        exact .inr ⟨rfl, published, reserved, trivial, rfl⟩
    | holding rd len bytes =>
        by_cases partly : bytes.length < len
        · have stepped : readerStep ring s = { s with
              reader := .holding rd len (bytes ++ [ring.loadByte s.data
                (ring.address rd + headerBytes + bytes.length)]) } := by
            simp only [readerStep, place, if_pos partly]
          rw [stepped]
          refine .inr ⟨rfl, published, reserved, trivial, ?_⟩
          simp only [Reader.taken, List.length_append, List.length_singleton]
          omega
        · have stepped : readerStep ring s = { s with
              reader := .ending s.page.readPos len bytes } := by
            simp only [readerStep, place, if_neg partly]
          rw [place] at ok
          have bounded := ok.2.length_le
          rw [stepped]
          refine .inr ⟨rfl, published, reserved, trivial, ?_⟩
          simp only [Reader.taken]
          omega
    | ending rd len bytes =>
        left
        rw [returned, place, Reader.finished, List.length_append]
        exact Nat.lt_succ_self _
    | unpublished | counting =>
        rw [place] at heading
        exact heading.elim

theorem reserved_grows {ring : Layout} {s next : State} {action : Action}
    (stepped : step ring s action = some next) :
    s.reserved <+: next.reserved := by
  by_cases reads : action = .reader
  · cases reads
    cases stepped
    exact (readerStep_keeps ring s).1 ▸ List.prefix_refl _
  · exact (writerFrame_of_step reads stepped).reserved

theorem reserved_grows_run {ring : Layout} {s final : State}
    {actions : List Action}
    (ran : Machine.run (step ring) s actions = some final) :
    s.reserved <+: final.reserved := by
  induction actions generalizing s with
  | nil =>
      cases ran
      exact List.prefix_refl _
  | cons action rest induction =>
      obtain ⟨next, stepped, remaining⟩ := Machine.run_cons.mp ran
      exact (reserved_grows stepped).trans (induction remaining)

theorem tail_le {s later : State} (grown : s.reserved <+: later.reserved) :
    s.tail ≤ later.tail := by
  obtain ⟨more, grown⟩ := grown
  rw [State.tail, State.tail, ← grown,
    ← start_append (Nat.le_refl s.reserved.length) more]
  exact start_mono _ (by rw [List.length_append]; omega)

theorem Toward.run {ring : Layout} {s final : State}
    {actions : List Action} {ticket taken : Nat}
    (toward : Toward ticket taken s) (inv : Invariant ring s)
    (ran : Machine.run (step ring) s actions = some final)
    (fits : final.tail < 2 ^ 64) :
    Toward ticket (taken + actions.count .reader) final := by
  induction actions generalizing s taken with
  | nil =>
      cases ran
      exact toward
  | cons action rest induction =>
      have small := (tail_le (reserved_grows_run ran)).trans_lt fits
      obtain ⟨next, stepped, remaining⟩ := Machine.run_cons.mp ran
      have kept := inv.step stepped
      by_cases reads : action = .reader
      · cases reads
        cases stepped
        have later := induction (toward.reader inv small) kept remaining
        rwa [List.count_cons_self, Nat.add_comm _ 1, ← Nat.add_assoc]
      · rw [List.count_cons_of_ne reads]
        exact induction (toward.writer reads stepped) kept remaining

/-- The steps to a record are at most those of reading it. -/
theorem Invariant.taken_le {ring : Layout} {s : State} {payload : List UInt8}
    (inv : Invariant ring s)
    (found : s.reserved[s.returned.length]? = some payload) :
    s.reader.taken ≤ payload.length + 4 := by
  have ok := inv.reader
  cases place : s.reader with
  | holding rd len bytes =>
      rw [place] at ok
      have bounded := ok.2.length_le
      obtain ⟨-, other, here, -, rfl, -⟩ := ok
      cases found.symm.trans here
      simp only [Reader.taken]
      omega
  | ending rd len bytes =>
      rw [place] at ok
      obtain ⟨-, ⟨other, here, -, rfl, -⟩, -⟩ := ok
      cases found.symm.trans here
      simp only [Reader.taken]
      omega
  | _ =>
      simp only [Reader.taken]
      omega

/-- Once a record at the head is published, a reader that goes on gets it,
whatever the writers do meanwhile. -/
theorem Invariant.returns_published {ring : Layout} {s final : State}
    {actions : List Action} {payload : List UInt8} (inv : Invariant ring s)
    (idle : s.reader = .idle)
    (found : s.reserved[s.returned.length]? = some payload)
    (published : s.returned.length ∈ s.published)
    (ran : Machine.run (Ring.step ring) s actions = some final)
    (fits : final.tail < 2 ^ 64)
    (enough : payload.length + 5 ≤ actions.count .reader) :
    final.returned[s.returned.length]? = some payload := by
  have start : Toward s.returned.length 0 s :=
    .inr ⟨rfl, published, lt_length found, by rw [idle]; trivial,
      by rw [idle]; rfl⟩
  have finalInv : Invariant ring final :=
    Machine.Reachable.invariant (fun _ _ _ inv stepped => inv.step stepped)
      ⟨actions, ran⟩ inv
  have later : final.reserved[s.returned.length]? = some payload := by
    obtain ⟨more, grown⟩ := reserved_grows_run ran
    rw [← grown, List.getElem?_append_left (lt_length found), found]
  obtain returned | ⟨here, -, -, -, taken⟩ := start.run inv ran fits
  · rw [finalInv.returned, List.getElem?_take_of_lt returned, later]
  · have bound := finalInv.taken_le (here ▸ later)
    omega

end Sismo.Heap.Ring
