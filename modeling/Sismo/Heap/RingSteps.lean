import Sismo.Heap.RingInvariant

namespace Sismo.Heap.Ring

/-! Every step of a writer or of the reader keeps the invariant. -/

namespace LockOk

variable {spinlock : Nat} {writers : Nat → Writer} {w : Nat} {writer : Writer}

theorem update (lock : LockOk spinlock writers)
    (same : writer.holds = (writers w).holds) :
    LockOk spinlock (Function.update writers w writer) := by
  have holds : ∀ v, (Function.update writers w writer v).holds =
      (writers v).holds := by
    intro v
    rw [Function.update_apply]
    split
    · next here => rw [same, here]
    · rfl
  intro v held
  rw [holds] at held
  obtain ⟨locked, unique⟩ := lock v held
  exact ⟨locked, fun u uHeld => unique u (by rwa [holds] at uHeld)⟩

theorem swap (lock : LockOk spinlock writers) : LockOk 1 writers :=
  fun v held => ⟨rfl, (lock v held).2⟩

theorem acquire (lock : LockOk 0 writers) :
    LockOk 1 (Function.update writers w writer) := by
  have noHolder : ∀ v, (Function.update writers w writer v).holds = true →
      v = w := by
    intro v held
    by_contra other
    rw [Function.update_of_ne other] at held
    exact absurd (lock v held).1 (by decide)
  intro v held
  exact ⟨rfl, fun u uHeld => (noHolder u uHeld).trans (noHolder v held).symm⟩

theorem release (lock : LockOk spinlock writers)
    (held : (writers w).holds = true) (free : writer.holds = false) :
    LockOk 0 (Function.update writers w writer) := by
  intro v vHeld
  exfalso
  rcases eq_or_ne v w with rfl | other
  · rw [Function.update_self] at vHeld
    exact absurd (free.symm.trans vHeld) (by decide)
  · rw [Function.update_of_ne other] at vHeld
    exact other ((lock w held).2 v vHeld)

end LockOk

theorem WriterOk.congr {ring : Layout} {s next : State} {writer : Writer}
    (ok : WriterOk ring s writer)
    (writePos : next.page.writePos = s.page.writePos)
    (readPos : next.page.readPos = s.page.readPos)
    (data : next.data = s.data) (reserved : next.reserved = s.reserved)
    (returned : next.returned = s.returned) : WriterOk ring next writer := by
  have same : WriterOk ring next writer = WriterOk ring s writer := by
    cases writer <;> simp only [WriterOk, State.head, State.tail, writePos,
      readPos, data, reserved, returned]
  exact same ▸ ok

theorem ReaderOk.congr {s next : State} {reader : Reader}
    (ok : ReaderOk s reader)
    (readPos : next.page.readPos = s.page.readPos)
    (reserved : next.reserved = s.reserved)
    (published : next.published = s.published)
    (returned : next.returned = s.returned) : ReaderOk next reader := by
  have same : ReaderOk next reader = ReaderOk s reader := by
    cases reader <;>
      simp only [ReaderOk, Held, readPos, reserved, published, returned]
  exact same ▸ ok

namespace Invariant

variable {ring : Layout} {s : State}

/-- A step that changes only the writer's place, the lock and the counters. -/
theorem setWriter (inv : Invariant ring s) {w : Nat} {writer : Writer}
    {page : MetadataPage} (writePos : page.writePos = s.page.writePos)
    (readPos : page.readPos = s.page.readPos)
    (lock : LockOk page.spinlock (Function.update s.writers w writer))
    (ok : WriterOk ring s writer)
    (ticket : writer.ticket? = (s.writers w).ticket?) :
    Invariant ring ({ s with page := page }.setWriter w writer) := by
  have tickets : ∀ v, (Function.update s.writers w writer v).ticket? =
      (s.writers v).ticket? := by
    intro v
    rw [Function.update_apply]
    split
    · next here => rw [ticket, here]
    · rfl
  exact
    { writePos := writePos.trans inv.writePos
      readPos := readPos.trans inv.readPos
      readPos_lt := inv.readPos_lt
      consumed_le := inv.consumed_le
      room := inv.room
      payloads := inv.payloads
      lock := lock
      writer := by
        intro v
        have vOk : WriterOk ring s (Function.update s.writers w writer v) := by
          rw [Function.update_apply]
          split
          · exact ok
          · exact inv.writer v
        exact vOk.congr writePos readPos rfl rfl rfl
      ticket := fun v number has => inv.ticket v number ((tickets v) ▸ has)
      distinct := fun u v number uHas vHas =>
        inv.distinct u v number ((tickets u) ▸ uHas) ((tickets v) ▸ vHas)
      published_lt := inv.published_lt
      header := inv.header
      payload := inv.payload
      returned := inv.returned
      returned_published := inv.returned_published
      reader := inv.reader.congr readPos rfl rfl rfl }

theorem spin (inv : Invariant ring s) {w : Nat} {payload : List UInt8}
    {spinlock : Nat} (lock : LockOk spinlock s.writers)
    (ok : PayloadOk ring payload) (free : (s.writers w).holds = false)
    (noTicket : (s.writers w).ticket? = none) (spins : Nat) :
    Invariant ring
      ({ s with page := { s.page with spinlock := spinlock } }.spin w payload
        spins) := by
  rw [State.spin]
  split
  · exact inv.setWriter rfl rfl (lock.update free.symm) ok noTicket.symm
  · exact inv.setWriter rfl rfl (lock.update free.symm) ok noTicket.symm

/-- The holder of the lock is the only writer in its critical section. -/
theorem other_not_holding (inv : Invariant ring s) {v w : Nat}
    (held : (s.writers w).holds = true) (other : v ≠ w) :
    (s.writers v).holds = false := by
  cases vHeld : (s.writers v).holds with
  | false => rfl
  | true => exact absurd ((inv.lock w held).2 v vHeld) other

/-- Outside the critical section a writer's place only speaks of the cells of
its own reservation. -/
theorem writer_frame (inv : Invariant ring s) {next : State} {v : Nat}
    (free : (s.writers v).holds = false)
    (reserved : ∀ ticket payload, s.reserved[ticket]? = some payload →
      next.reserved[ticket]? = some payload ∧
      start next.reserved ticket = start s.reserved ticket)
    (cells : ∀ ticket payload i, s.reserved[ticket]? = some payload →
      (s.writers v).ticket? = some ticket → i < payload.length →
      ring.loadByte next.data
          (start s.reserved ticket + headerBytes + i) =
        ring.loadByte s.data (start s.reserved ticket + headerBytes + i)) :
    WriterOk ring next (s.writers v) := by
  have ok := inv.writer v
  cases place : s.writers v with
  | idle => trivial
  | locking payload spins =>
      rw [place] at ok
      exact ok
  | swapping payload spins =>
      rw [place] at ok
      exact ok
  | backingOff payload =>
      rw [place] at ok
      exact ok
  | copying payload wr ticket copied =>
      rw [place] at ok free
      obtain ⟨found, wrEq, bytes⟩ := ok
      obtain ⟨nextFound, startEq⟩ := reserved ticket payload found
      refine ⟨nextFound, by rw [wrEq, startEq], fun i member byte byteAt => ?_⟩
      rw [startEq, cells ticket payload i found (by rw [place]; rfl)
        (List.getElem?_eq_some_iff.mp byteAt).1]
      exact bytes i member byte byteAt
  | locked _ => simp [place, Writer.holds] at free
  | loadedWrite _ _ => simp [place, Writer.holds] at free
  | loadedRead _ _ _ => simp [place, Writer.holds] at free
  | overflowed => simp [place, Writer.holds] at free
  | zeroed _ _ => simp [place, Writer.holds] at free
  | stored _ _ _ => simp [place, Writer.holds] at free
  | countedBytes _ _ _ => simp [place, Writer.holds] at free
  | countedWrite _ _ _ => simp [place, Writer.holds] at free

/-- Storing the empty header in the room past the last reservation. -/
theorem zeroHeader (inv : Invariant ring s) {w wr rd : Nat}
    {payload : List UInt8}
    (place : s.writers w = .loadedRead payload wr rd)
    (fits : ¬ ring.size < wrappingSub wr rd + total payload.length) :
    Invariant ring
      ({ s with data := ring.storeU32 s.data (ring.address wr) 0 }.setWriter w
        (.zeroed payload wr)) := by
  have held : (s.writers w).holds = true := by rw [place]; rfl
  have ok := inv.writer w
  rw [place] at ok
  obtain ⟨payloadOk, wrEq, rdLe, near⟩ := ok
  have headTail : s.head ≤ s.tail := start_mono s.reserved inv.consumed_le
  have sizeLt := ring.size_lt
  have headLt := inv.readPos_lt
  have readPos := inv.readPos
  rw [wrEq, inv.writePos] at fits ⊢
  rw [wrappingSub_u64 (by omega) (by omega) (by omega)] at fits
  have payloadRoom := le_total payload.length
  have nonempty := payloadOk.nonempty
  have roomLeft : s.tail + total payload.length ≤ s.head + ring.size := by omega
  rw [ring.storeU32_address]
  have frame : ∀ ticket found i, s.reserved[ticket]? = some found →
      s.returned.length ≤ ticket → i < total found.length →
      ring.loadByte (ring.storeU32 s.data s.tail 0)
          (start s.reserved ticket + i) =
        ring.loadByte s.data (start s.reserved ticket + i) := by
    intro ticket found i foundAt unread iLt
    refine ring.loadByte_storeU32 0 fun j jLt => ?_
    rw [headerBytes] at payloadRoom
    exact inv.tail_apart foundAt unread iLt (by omega)
  have payloadFrame : ∀ ticket found i, s.reserved[ticket]? = some found →
      s.returned.length ≤ ticket → i < found.length →
      ring.loadByte (ring.storeU32 s.data s.tail 0)
          (start s.reserved ticket + headerBytes + i) =
        ring.loadByte s.data (start s.reserved ticket + headerBytes + i) := by
    intro ticket found i foundAt unread iLt
    have := le_total found.length
    rw [Nat.add_assoc]
    exact frame ticket found _ foundAt unread (by omega)
  refine
    { inv with
      lock := inv.lock.update (by rw [place]; rfl)
      writer := ?_
      ticket := ?_
      distinct := ?_
      header := ?_
      payload := ?_
      reader := inv.reader.congr rfl rfl rfl rfl }
  · intro v
    simp only [State.setWriter, Function.update_apply]
    split
    · refine ⟨payloadOk, inv.writePos.symm, roomLeft, ?_⟩
      rw [headerBytes] at payloadRoom
      exact ring.loadU32_storeU32 _ _
        (by have := payloadOk.total_le; omega) (by decide)
    · next other =>
        refine inv.writer_frame (inv.other_not_holding held other)
          (fun ticket found foundAt => ⟨foundAt, rfl⟩) ?_
        exact fun ticket found i foundAt hasTicket =>
          payloadFrame ticket found i foundAt (inv.ticket v ticket hasTicket).1
  · intro v ticket has
    simp only [State.setWriter, Function.update_apply] at has
    split at has
    · cases has
    · exact inv.ticket v ticket has
  · intro u v ticket uHas vHas
    simp only [State.setWriter, Function.update_apply] at uHas vHas
    split at uHas
    · cases uHas
    · split at vHas
      · cases vHas
      · exact inv.distinct u v ticket uHas vHas
  · intro ticket found foundAt unread
    refine Eq.trans ?_ (inv.header ticket found foundAt unread)
    refine ring.loadU32_congr fun j jLt => ?_
    have := le_total found.length
    rw [headerBytes] at this
    exact frame ticket found j foundAt unread (by omega)
  · intro ticket found foundAt unread published i byte byteAt
    have iLt := (List.getElem?_eq_some_iff.mp byteAt).1
    exact (payloadFrame ticket found i foundAt unread iLt).trans
      (inv.payload ticket found foundAt unread published i byte byteAt)

theorem ticket_found (inv : Invariant ring s) {v ticket : Nat}
    (has : (s.writers v).ticket? = some ticket) :
    ∃ payload, s.reserved[ticket]? = some payload := by
  have ok := inv.writer v
  cases place : s.writers v with
  | stored payload wr number =>
      rw [place] at ok has
      cases has
      exact ⟨payload, ok.1⟩
  | countedBytes payload wr number =>
      rw [place] at ok has
      cases has
      exact ⟨payload, ok.1⟩
  | countedWrite payload wr number =>
      rw [place] at ok has
      cases has
      exact ⟨payload, ok.1⟩
  | copying payload wr number copied =>
      rw [place] at ok has
      cases has
      exact ⟨payload, ok.1⟩
  | _ => simp [place, Writer.ticket?] at has

theorem reader_frame (inv : Invariant ring s) {next : State}
    (readPos : next.page.readPos = s.page.readPos)
    (returned : next.returned = s.returned)
    (reserved : ∃ more, next.reserved = s.reserved ++ more)
    (published : ∀ ticket ∈ s.published, ticket ∈ next.published) :
    ReaderOk next s.reader := by
  obtain ⟨more, reserved⟩ := reserved
  have held : ∀ {len bytes}, Held s len bytes → Held next len bytes := by
    rintro len bytes ⟨payload, found, isPublished, lenEq, bytesEq, limit⟩
    have below := lt_length found
    refine ⟨payload, ?_, ?_, lenEq, bytesEq, ?_⟩
    · rw [returned, reserved, List.getElem?_append_left below, found]
    · exact returned ▸ published _ isPublished
    · rwa [returned, reserved, start_append below]
  have ok := inv.reader
  cases place : s.reader with
  | loadedRead rd =>
      rw [place] at ok
      exact Eq.trans ok readPos.symm
  | loadedWrite rd wr =>
      rw [place] at ok
      refine ⟨ok.1.trans readPos.symm, fun less => ?_⟩
      obtain ⟨limit, above, le, fits⟩ := ok.2 less
      refine ⟨limit, returned ▸ above, ?_, ?_⟩
      · rw [reserved, List.length_append]
        omega
      · rwa [reserved, start_append le]
  | holding rd len bytes =>
      rw [place] at ok
      exact ⟨ok.1.trans readPos.symm, held ok.2⟩
  | ending rd len bytes =>
      rw [place] at ok
      exact ⟨ok.1.trans readPos.symm, held ok.2.1, ok.2.2⟩
  | _ => trivial

/-- Moving the write position past a record whose header is empty. -/
theorem reserve (inv : Invariant ring s) {w wr : Nat} {payload : List UInt8}
    (place : s.writers w = .zeroed payload wr) :
    Invariant ring
      ({ s with
        page := { s.page with writePos := u64 (wr + total payload.length) }
        reserved := s.reserved ++ [payload] }.setWriter w
          (.stored payload wr s.reserved.length)) := by
  have held : (s.writers w).holds = true := by rw [place]; rfl
  have ok := inv.writer w
  rw [place] at ok
  obtain ⟨payloadOk, wrEq, roomLeft, empty⟩ := ok
  have wrTail : wr = u64 s.tail := wrEq.trans inv.writePos
  have fresh : s.reserved.length ∉ s.published := fun published =>
    absurd (inv.published_lt _ published) (Nat.lt_irrefl _)
  have newFound : (s.reserved ++ [payload])[s.reserved.length]? =
      some payload := by simp
  have startOld : ∀ {ticket : Nat}, ticket ≤ s.reserved.length →
      start (s.reserved ++ [payload]) ticket = start s.reserved ticket :=
    fun le => start_append le _
  have newTail : start (s.reserved ++ [payload])
      (s.reserved ++ [payload]).length = s.tail + total payload.length := by
    rw [List.length_append, List.length_singleton, start_succ newFound,
      startOld (Nat.le_refl _)]
    rfl
  have newHead : start (s.reserved ++ [payload]) s.returned.length = s.head :=
    startOld inv.consumed_le
  refine
    { writePos := ?_
      readPos := inv.readPos.trans newHead.symm
      readPos_lt := newHead.trans_lt inv.readPos_lt
      consumed_le := ?_
      room := ?_
      payloads := ?_
      lock := inv.lock.update (by rw [place]; rfl)
      writer := ?_
      ticket := ?_
      distinct := ?_
      published_lt := ?_
      header := ?_
      payload := ?_
      returned := ?_
      returned_published := inv.returned_published
      reader := inv.reader_frame rfl rfl ⟨[payload], rfl⟩ fun _ => id }
  · have advanced : u64 (wr + total payload.length) =
        u64 (s.tail + total payload.length) := by rw [wrTail, u64_add]
    exact advanced.trans (congrArg u64 newTail.symm)
  · exact inv.consumed_le.trans (by simp [State.setWriter])
  · have roomNew : s.tail + total payload.length ≤
        start (s.reserved ++ [payload]) s.returned.length + ring.size := by
      rw [newHead]
      exact roomLeft
    exact newTail.trans_le roomNew
  · intro found member
    rcases List.mem_append.mp member with old | new
    · exact inv.payloads found old
    · exact List.mem_singleton.mp new ▸ payloadOk
  · intro v
    simp only [State.setWriter, Function.update_apply]
    split
    · refine ⟨newFound, ?_⟩
      rw [wrTail]
      exact congrArg u64 (startOld (Nat.le_refl _)).symm
    · next other =>
        refine inv.writer_frame (inv.other_not_holding held other) ?_
          fun _ _ _ _ _ _ => rfl
        intro ticket found foundAt
        have below := lt_length foundAt
        exact ⟨(List.getElem?_append_left below).trans foundAt,
          startOld below.le⟩
  · intro v ticket has
    simp only [State.setWriter, Function.update_apply] at has
    split at has
    · cases has
      exact ⟨inv.consumed_le, fresh⟩
    · exact inv.ticket v ticket has
  · intro u v ticket uHas vHas
    simp only [State.setWriter, Function.update_apply] at uHas vHas
    split at uHas
    · next uIs =>
        split at vHas
        · next vIs => rw [uIs, vIs]
        · cases uHas
          obtain ⟨_, found⟩ := inv.ticket_found vHas
          exact absurd (lt_length found) (Nat.lt_irrefl _)
    · split at vHas
      · cases vHas
        obtain ⟨_, found⟩ := inv.ticket_found uHas
        exact absurd (lt_length found) (Nat.lt_irrefl _)
      · exact inv.distinct u v ticket uHas vHas
  · intro ticket published
    have := inv.published_lt ticket published
    simp only [State.setWriter, List.length_append]
    omega
  · intro ticket found foundAt unread
    have below := lt_length foundAt
    simp only [State.setWriter, List.length_append, List.length_singleton]
      at foundAt below ⊢
    rcases Nat.lt_succ_iff_lt_or_eq.mp below with old | new
    · rw [startOld old.le]
      rw [List.getElem?_append_left old] at foundAt
      exact inv.header ticket found foundAt unread
    · subst new
      rw [startOld (Nat.le_refl _)]
      exact empty.trans (if_neg fresh).symm
  · intro ticket found foundAt unread published i byte byteAt
    have below := inv.published_lt ticket published
    simp only [State.setWriter] at foundAt ⊢
    rw [startOld below.le]
    rw [List.getElem?_append_left below] at foundAt
    exact inv.payload ticket found foundAt unread published i byte byteAt
  · refine inv.returned.trans ?_
    exact (List.take_append_of_le_length inv.consumed_le).symm

/-- What a writer's place says survives a store that leaves the cells of its
reservation and an empty header past the last reservation as they were. -/
theorem writer_data (inv : Invariant ring s) (data : Data) {v : Nat}
    (past : ∀ payload wr, s.writers v = .zeroed payload wr → ∀ j < 4,
      ring.loadByte data (s.tail + j) = ring.loadByte s.data (s.tail + j))
    (cells : ∀ ticket payload i, s.reserved[ticket]? = some payload →
      (s.writers v).ticket? = some ticket → i < payload.length →
      ring.loadByte data (start s.reserved ticket + headerBytes + i) =
        ring.loadByte s.data (start s.reserved ticket + headerBytes + i)) :
    WriterOk ring { s with data := data } (s.writers v) := by
  have ok := inv.writer v
  cases place : s.writers v with
  | zeroed payload wr =>
      rw [place] at ok
      obtain ⟨payloadOk, wrEq, roomLeft, empty⟩ := ok
      exact ⟨payloadOk, wrEq, roomLeft,
        (ring.loadU32_congr (past payload wr place)).trans empty⟩
  | copying payload wr ticket copied =>
      rw [place] at ok
      obtain ⟨found, wrEq, bytes⟩ := ok
      refine ⟨found, wrEq, fun i member byte byteAt => ?_⟩
      refine (cells ticket payload i found (by rw [place]; rfl)
        (List.getElem?_eq_some_iff.mp byteAt).1).trans ?_
      exact bytes i member byte byteAt
  | _ =>
      rw [place] at ok
      exact ok

theorem zeroed_room (inv : Invariant ring s) {v wr : Nat}
    {payload : List UInt8} (place : s.writers v = .zeroed payload wr) :
    s.tail + 4 ≤ s.head + ring.size := by
  have ok := inv.writer v
  rw [place] at ok
  have room := ok.2.2.1
  have := le_total payload.length
  rw [headerBytes] at this
  omega

theorem copyByte (inv : Invariant ring s) {w wr ticket index : Nat}
    {payload : List UInt8} {copied : List Nat} {byte : UInt8}
    (place : s.writers w = .copying payload wr ticket copied)
    (byteAt : payload[index]? = some byte) :
    Invariant ring
      ({ s with
        data := ring.storeByte s.data
          (ring.address wr + headerBytes + index) byte }.setWriter w
            (.copying payload wr ticket (index :: copied))) := by
  have ok := inv.writer w
  rw [place] at ok
  obtain ⟨found, wrEq, bytes⟩ := ok
  have hasTicket : (s.writers w).ticket? = some ticket := by rw [place]; rfl
  obtain ⟨unread, unpublished⟩ := inv.ticket w ticket hasTicket
  have indexLt := (List.getElem?_eq_some_iff.mp byteAt).1
  have inTotal := le_total payload.length
  rw [wrEq, Nat.add_assoc, ring.storeByte_address]
  have stored : ∀ other, ring.loadByte (ring.storeByte s.data
      (start s.reserved ticket + (headerBytes + index)) byte) other =
      if other % ring.size =
          (start s.reserved ticket + (headerBytes + index)) % ring.size
        then byte else ring.loadByte s.data other :=
    fun other => ring.loadByte_storeByte _ _ _ _
  generalize ring.storeByte s.data
    (start s.reserved ticket + (headerBytes + index)) byte = data at stored ⊢
  have frame : ∀ number other i, s.reserved[number]? = some other →
      s.returned.length ≤ number → i < total other.length →
      number ≠ ticket ∨ i ≠ headerBytes + index →
      ring.loadByte data (start s.reserved number + i) =
        ring.loadByte s.data (start s.reserved number + i) := by
    intro number other i otherFound otherUnread iLt distinct
    rw [stored, if_neg]
    exact inv.records_apart otherFound found otherUnread unread iLt (by omega)
      distinct
  have payloadFrame : ∀ number other i, s.reserved[number]? = some other →
      s.returned.length ≤ number → i < other.length → number ≠ ticket →
      ring.loadByte data (start s.reserved number + headerBytes + i) =
        ring.loadByte s.data (start s.reserved number + headerBytes + i) := by
    intro number other i otherFound otherUnread iLt distinct
    have := le_total other.length
    rw [Nat.add_assoc]
    exact frame number other _ otherFound otherUnread (by omega) (.inl distinct)
  have tickets : ∀ v, (Function.update s.writers w
      (.copying payload (u64 (start s.reserved ticket)) ticket
        (index :: copied)) v).ticket? = (s.writers v).ticket? := by
    intro v
    rw [Function.update_apply]
    split
    · next here => rw [here, hasTicket]; rfl
    · rfl
  refine
    { inv with
      lock := inv.lock.update (by rw [place]; rfl)
      writer := ?_
      ticket := fun v number has => inv.ticket v number ((tickets v) ▸ has)
      distinct := fun u v number uHas vHas =>
        inv.distinct u v number ((tickets u) ▸ uHas) ((tickets v) ▸ vHas)
      header := ?_
      payload := ?_
      reader := inv.reader.congr rfl rfl rfl rfl }
  · intro v
    simp only [State.setWriter, Function.update_apply]
    split
    · refine ⟨found, rfl, fun i member old oldAt => ?_⟩
      rw [Nat.add_assoc, stored]
      split
      · next same =>
          -- The cell just written; copying it again writes the same byte.
          by_cases here : i = index
          · subst here
            exact Option.some.inj (byteAt.symm.trans oldAt)
          · have iLt := (List.getElem?_eq_some_iff.mp oldAt).1
            exact absurd same (inv.records_apart found found unread unread
              (by omega) (by omega) (.inr (by omega)))
      · next different =>
          rcases List.mem_cons.mp member with rfl | earlier
          · exact absurd rfl different
          · rw [← Nat.add_assoc]
            exact bytes i earlier old oldAt
    · next other =>
        refine (inv.writer_data data ?_ ?_).congr rfl rfl rfl rfl rfl
        · intro _ _ zeroed j jLt
          have room := inv.zeroed_room zeroed
          rw [stored, if_neg]
          exact (inv.tail_apart found unread (by omega) (by omega)).symm
        · intro number owned i ownedFound has iLt
          refine payloadFrame number owned i ownedFound
            (inv.ticket v number has).1 iLt fun same => ?_
          exact other (inv.distinct v w ticket (same ▸ has) hasTicket)
  · intro number other otherFound otherUnread
    refine Eq.trans ?_ (inv.header number other otherFound otherUnread)
    refine ring.loadU32_congr fun j jLt => ?_
    have := le_total other.length
    rw [headerBytes] at this
    exact frame number other j otherFound otherUnread (by omega)
      (.inr (by rw [headerBytes]; omega))
  · intro number other otherFound otherUnread published i old oldAt
    have iLt := (List.getElem?_eq_some_iff.mp oldAt).1
    refine (payloadFrame number other i otherFound otherUnread iLt
      fun same => unpublished (same ▸ published)).trans ?_
    exact inv.payload number other otherFound otherUnread published i old oldAt

/-- Storing the size header once the whole payload is in place. -/
theorem publish (inv : Invariant ring s) {w wr ticket : Nat}
    {payload : List UInt8} {copied : List Nat}
    (place : s.writers w = .copying payload wr ticket copied)
    (complete : ∀ i < payload.length, i ∈ copied) :
    Invariant ring
      ({ s with
        data := ring.storeU32 s.data (ring.address wr) (u32 payload.length)
        published := ticket :: s.published }.setWriter w .idle) := by
  have ok := inv.writer w
  rw [place] at ok
  obtain ⟨found, wrEq, bytes⟩ := ok
  have hasTicket : (s.writers w).ticket? = some ticket := by rw [place]; rfl
  obtain ⟨unread, unpublished⟩ := inv.ticket w ticket hasTicket
  have payloadOk := inv.payloads payload (List.mem_of_getElem? found)
  have inTotal := le_total payload.length
  have totalLe := payloadOk.total_le
  rw [headerBytes] at inTotal
  rw [wrEq, ring.storeU32_address, u32, Nat.mod_eq_of_lt payloadOk.fits]
  have header : ring.loadU32 (ring.storeU32 s.data
      (start s.reserved ticket) payload.length) (start s.reserved ticket) =
      payload.length :=
    ring.loadU32_storeU32 _ _ (by omega) payloadOk.fits
  have stored : ∀ other, (∀ j < 4, other % ring.size ≠
        (start s.reserved ticket + j) % ring.size) →
      ring.loadByte (ring.storeU32 s.data (start s.reserved ticket)
        payload.length) other = ring.loadByte s.data other :=
    fun other apart => ring.loadByte_storeU32 _ apart
  generalize ring.storeU32 s.data (start s.reserved ticket) payload.length =
    data at header stored ⊢
  have frame : ∀ number other i, s.reserved[number]? = some other →
      s.returned.length ≤ number → i < total other.length →
      number ≠ ticket ∨ 4 ≤ i →
      ring.loadByte data (start s.reserved number + i) =
        ring.loadByte s.data (start s.reserved number + i) := by
    intro number other i otherFound otherUnread iLt distinct
    refine stored _ fun j jLt => ?_
    exact inv.records_apart otherFound found otherUnread unread iLt (by omega)
      (distinct.imp_right fun above => by omega)
  have payloadFrame : ∀ number other i, s.reserved[number]? = some other →
      s.returned.length ≤ number → i < other.length →
      ring.loadByte data (start s.reserved number + headerBytes + i) =
        ring.loadByte s.data (start s.reserved number + headerBytes + i) := by
    intro number other i otherFound otherUnread iLt
    have := le_total other.length
    rw [Nat.add_assoc]
    exact frame number other _ otherFound otherUnread (by omega)
      (.inr (by rw [headerBytes]; omega))
  refine
    { inv with
      lock := inv.lock.update (by rw [place]; rfl)
      writer := ?_
      ticket := ?_
      distinct := ?_
      published_lt := ?_
      header := ?_
      payload := ?_
      returned_published := fun number below =>
        List.mem_cons_of_mem _ (inv.returned_published number below)
      reader := inv.reader_frame rfl rfl ⟨[], (List.append_nil _).symm⟩
        fun _ => List.mem_cons_of_mem _ }
  · intro v
    simp only [State.setWriter, Function.update_apply]
    split
    · trivial
    · refine (inv.writer_data data ?_ ?_).congr rfl rfl rfl rfl rfl
      · intro _ _ zeroed j jLt
        have room := inv.zeroed_room zeroed
        refine stored _ fun i iLt => ?_
        exact (inv.tail_apart found unread (by omega) (by omega)).symm
      · exact fun number owned i ownedFound has iLt =>
          payloadFrame number owned i ownedFound (inv.ticket v number has).1 iLt
  · intro v number has
    simp only [State.setWriter, Function.update_apply] at has
    split at has
    · cases has
    · next other =>
        obtain ⟨vUnread, vUnpublished⟩ := inv.ticket v number has
        refine ⟨vUnread, fun published => ?_⟩
        rcases List.mem_cons.mp published with rfl | earlier
        · exact other (inv.distinct v w _ has hasTicket)
        · exact vUnpublished earlier
  · intro u v number uHas vHas
    simp only [State.setWriter, Function.update_apply] at uHas vHas
    split at uHas
    · cases uHas
    · split at vHas
      · cases vHas
      · exact inv.distinct u v number uHas vHas
  · intro number published
    rcases List.mem_cons.mp published with rfl | earlier
    · exact lt_length found
    · exact inv.published_lt number earlier
  · intro number other otherFound otherUnread
    by_cases here : number = ticket
    · subst here
      cases found.symm.trans otherFound
      exact header.trans (if_pos List.mem_cons_self).symm
    · have old := inv.header number other otherFound otherUnread
      have same : ring.loadU32 data (start s.reserved number) =
          ring.loadU32 s.data (start s.reserved number) := by
        refine ring.loadU32_congr fun j jLt => ?_
        have := le_total other.length
        rw [headerBytes] at this
        exact frame number other j otherFound otherUnread (by omega) (.inl here)
      refine (same.trans old).trans ?_
      simp [State.setWriter, here]
  · intro number other otherFound otherUnread published i byte byteAt
    have iLt := (List.getElem?_eq_some_iff.mp byteAt).1
    refine (payloadFrame number other i otherFound otherUnread iLt).trans ?_
    rcases List.mem_cons.mp published with rfl | earlier
    · cases found.symm.trans otherFound
      exact bytes i (complete i iLt) byte byteAt
    · exact inv.payload number other otherFound otherUnread earlier i byte byteAt

/-- A reader step that changes only the reader's place and the counters. -/
theorem setReader (inv : Invariant ring s) {reader : Reader}
    {page : MetadataPage} (writePos : page.writePos = s.page.writePos)
    (readPos : page.readPos = s.page.readPos)
    (spinlock : page.spinlock = s.page.spinlock)
    (ok : ReaderOk s reader) :
    Invariant ring { s with page := page, reader := reader } :=
  { inv with
    writePos := writePos.trans inv.writePos
    readPos := readPos.trans inv.readPos
    lock := spinlock.symm ▸ inv.lock
    writer := fun w => (inv.writer w).congr writePos readPos rfl rfl rfl
    reader := ok.congr readPos rfl rfl rfl }

/-- A write position above the read position has not wrapped around. -/
theorem loaded_limit (inv : Invariant ring s)
    (less : s.page.readPos < s.page.writePos) :
    ∃ limit, s.returned.length < limit ∧ limit ≤ s.reserved.length ∧
      start s.reserved limit < 2 ^ 64 := by
  rw [inv.readPos, inv.writePos] at less
  have room := inv.room
  have sizeLt := ring.size_lt
  have fits : s.tail < 2 ^ 64 := by
    by_contra wrapped
    simp only [u64] at less
    omega
  rw [u64_of_lt fits] at less
  refine ⟨s.reserved.length, ?_, Nat.le_refl _, fits⟩
  by_contra short
  have same : s.returned.length = s.reserved.length :=
    Nat.le_antisymm inv.consumed_le (by omega)
  rw [State.head, State.tail, same] at less
  omega

/-- A header that is not empty belongs to a published record. -/
theorem loaded_header (inv : Invariant ring s) {rd limit : Nat}
    (rdEq : rd = s.page.readPos) (above : s.returned.length < limit)
    (le : limit ≤ s.reserved.length) (fits : start s.reserved limit < 2 ^ 64)
    (nonempty : ring.loadU32 s.data (ring.address rd) ≠ 0) :
    Held s (ring.loadU32 s.data (ring.address rd)) [] := by
  obtain ⟨payload, found⟩ : ∃ payload,
      s.reserved[s.returned.length]? = some payload :=
    ⟨_, List.getElem?_eq_getElem (above.trans_le le)⟩
  rw [rdEq, inv.readPos, ← u64_of_lt inv.readPos_lt, ring.loadU32_address,
    State.head, inv.header _ _ found (Nat.le_refl _)] at nonempty ⊢
  split at nonempty
  · next published =>
      rw [if_pos published]
      exact ⟨_, found, published, rfl, by simp,
        (start_mono _ above).trans_lt fits⟩
  · exact absurd rfl nonempty

theorem held_byte (inv : Invariant ring s) {rd len : Nat}
    {bytes : List UInt8} (rdEq : rd = s.page.readPos)
    (held : Held s len bytes) (more : bytes.length < len) :
    Held s len (bytes ++ [ring.loadByte s.data
      (ring.address rd + headerBytes + bytes.length)]) := by
  obtain ⟨payload, found, published, lenEq, bytesEq, fits⟩ := held
  obtain ⟨next, byteAt⟩ : ∃ next, payload[bytes.length]? = some next :=
    ⟨_, List.getElem?_eq_getElem (lenEq ▸ more)⟩
  have byte := inv.payload _ payload found (Nat.le_refl _) published _ _ byteAt
  rw [rdEq, inv.readPos, ← u64_of_lt inv.readPos_lt, Nat.add_assoc,
    ring.loadByte_address, ← Nat.add_assoc, State.head, byte]
  refine ⟨payload, found, published, lenEq, ?_, fits⟩
  rw [List.length_append, List.length_singleton, List.take_add_one, byteAt,
    ← bytesEq]
  rfl

/-- Moving the read position past the record that has been read. -/
theorem advance (inv : Invariant ring s) {rd len : Nat} {bytes : List UInt8}
    (place : s.reader = .ending rd len bytes) :
    Invariant ring
      { s with
        page := { s.page with readPos := u64 (rd + total len) }
        reader := .counting
        returned := s.returned ++ [bytes] } := by
  have ok := inv.reader
  rw [place] at ok
  obtain ⟨rdEq, ⟨payload, found, published, lenEq, bytesEq, fits⟩, full⟩ := ok
  have bytesAll : bytes = payload := by
    rw [bytesEq, full, lenEq, List.take_length]
  subst bytesAll
  have below := lt_length found
  have newHead : start s.reserved (s.returned.length + 1) =
      s.head + total len := by rw [start_succ found, lenEq]; rfl
  have newLength : (s.returned ++ [bytes]).length = s.returned.length + 1 := by
    simp
  have moved : start s.reserved (s.returned ++ [bytes]).length =
      s.head + total len := by rw [newLength, newHead]
  rw [newHead] at fits
  have newReadPos : u64 (rd + total len) = s.head + total len := by
    rw [rdEq, inv.readPos, u64_of_lt fits]
  have unreadOld : ∀ {ticket}, (s.returned ++ [bytes]).length ≤ ticket →
      s.returned.length ≤ ticket := by
    intro ticket le
    omega
  refine
    { writePos := inv.writePos
      readPos := newReadPos.trans moved.symm
      readPos_lt := moved.trans_lt fits
      consumed_le := newLength.trans_le below
      room := ?_
      payloads := inv.payloads
      lock := inv.lock
      writer := ?_
      ticket := ?_
      distinct := inv.distinct
      published_lt := inv.published_lt
      header := fun ticket other otherFound unread =>
        inv.header ticket other otherFound (unreadOld unread)
      payload := fun ticket other otherFound unread =>
        inv.payload ticket other otherFound (unreadOld unread)
      returned := ?_
      returned_published := ?_
      reader := trivial }
  · have room := inv.room
    have grown : s.tail ≤ start s.reserved (s.returned ++ [bytes]).length +
        ring.size := by omega
    exact grown
  · intro w
    have ok := inv.writer w
    cases writer : s.writers w with
    | loadedRead pending wr oldRd =>
        rw [writer] at ok
        refine ⟨ok.1, ok.2.1, ?_, ok.2.2.2⟩
        have old := ok.2.2.1
        rw [inv.readPos] at old
        have grown : oldRd ≤ u64 (rd + total len) := by omega
        exact grown
    | zeroed pending wr =>
        rw [writer] at ok
        refine ⟨ok.1, ok.2.1, ?_, ok.2.2.2⟩
        have old := ok.2.2.1
        have grown : s.tail + total pending.length ≤
            start s.reserved (s.returned ++ [bytes]).length + ring.size := by
          omega
        exact grown
    | _ =>
        rw [writer] at ok
        exact ok
  · intro w ticket has
    obtain ⟨unread, unpublished⟩ := inv.ticket w ticket has
    refine ⟨?_, unpublished⟩
    have other : s.returned.length ≠ ticket := fun same =>
      unpublished (same ▸ published)
    have grown : (s.returned ++ [bytes]).length ≤ ticket := by omega
    exact grown
  · have taken : s.reserved.take (s.returned.length + 1) =
        s.returned ++ [bytes] := by
      rw [List.take_add_one, found, ← inv.returned]
      rfl
    rw [newLength, taken]
  · intro ticket below
    have le : ticket < s.returned.length + 1 := newLength ▸ below
    rcases Nat.lt_succ_iff_lt_or_eq.mp le with old | rfl
    · exact inv.returned_published ticket old
    · exact published

theorem writerStep (inv : Invariant ring s) {w : Nat} {next : State}
    (stepped : writerStep ring s w = some next) : Invariant ring next := by
  have ok := inv.writer w
  cases place : s.writers w with
  | idle => simp [Ring.writerStep, place] at stepped
  | locking payload spins =>
      simp only [Ring.writerStep, place] at stepped
      rw [place] at ok
      split at stepped
      · cases stepped
        exact inv.setWriter rfl rfl (inv.lock.update (by rw [place]; rfl)) ok
          (by rw [place]; rfl)
      · cases stepped
        exact inv.spin inv.lock ok (by rw [place]; rfl) (by rw [place]; rfl) _
  | swapping payload spins =>
      simp only [Ring.writerStep, place] at stepped
      rw [place] at ok
      split at stepped
      · next free =>
          cases stepped
          have lock := inv.lock
          rw [free] at lock
          exact inv.setWriter rfl rfl lock.acquire ok (by rw [place]; rfl)
      · cases stepped
        exact inv.spin inv.lock.swap ok (by rw [place]; rfl)
          (by rw [place]; rfl) _
  | backingOff payload =>
      simp only [Ring.writerStep, place] at stepped
      rw [place] at ok
      cases stepped
      exact inv.setWriter rfl rfl (inv.lock.update (by rw [place]; rfl)) ok
        (by rw [place]; rfl)
  | locked payload =>
      simp only [Ring.writerStep, place] at stepped
      rw [place] at ok
      cases stepped
      exact inv.setWriter rfl rfl (inv.lock.update (by rw [place]; rfl))
        ⟨ok, rfl⟩ (by rw [place]; rfl)
  | loadedWrite payload wr =>
      simp only [Ring.writerStep, place] at stepped
      rw [place] at ok
      cases stepped
      exact inv.setWriter rfl rfl (inv.lock.update (by rw [place]; rfl))
        ⟨ok.1, ok.2, Nat.le_refl _, inv.readPos ▸ inv.room⟩ (by rw [place]; rfl)
  | loadedRead payload wr rd =>
      simp only [Ring.writerStep, place] at stepped
      split at stepped
      · cases stepped
        exact inv.setWriter rfl rfl (inv.lock.update (by rw [place]; rfl))
          trivial (by rw [place]; rfl)
      · next fits =>
          cases stepped
          exact inv.zeroHeader place fits
  | overflowed =>
      simp only [Ring.writerStep, place] at stepped
      cases stepped
      exact inv.setWriter rfl rfl
        (inv.lock.release (by rw [place]; rfl) rfl) trivial (by rw [place]; rfl)
  | zeroed payload wr =>
      simp only [Ring.writerStep, place] at stepped
      cases stepped
      exact inv.reserve place
  | stored payload wr ticket =>
      simp only [Ring.writerStep, place] at stepped
      rw [place] at ok
      cases stepped
      exact inv.setWriter rfl rfl (inv.lock.update (by rw [place]; rfl)) ok
        (by rw [place]; rfl)
  | countedBytes payload wr ticket =>
      simp only [Ring.writerStep, place] at stepped
      rw [place] at ok
      cases stepped
      exact inv.setWriter rfl rfl (inv.lock.update (by rw [place]; rfl)) ok
        (by rw [place]; rfl)
  | countedWrite payload wr ticket =>
      simp only [Ring.writerStep, place] at stepped
      rw [place] at ok
      cases stepped
      exact inv.setWriter rfl rfl (inv.lock.release (by rw [place]; rfl) rfl)
        ⟨ok.1, ok.2, by simp⟩ (by rw [place]; rfl)
  | copying payload wr ticket copied =>
      simp only [Ring.writerStep, place] at stepped
      split at stepped
      · next complete =>
          cases stepped
          exact inv.publish place complete
      · cases stepped

theorem readerStep (inv : Invariant ring s) :
    Invariant ring (readerStep ring s) := by
  have ok := inv.reader
  cases place : s.reader with
  | idle =>
      simp only [Ring.readerStep, place]
      exact inv.setReader rfl rfl rfl rfl
  | loadedRead rd =>
      simp only [Ring.readerStep, place]
      rw [place] at ok
      exact inv.setReader rfl rfl rfl
        ⟨ok, fun less => inv.loaded_limit (ok ▸ less)⟩
  | loadedWrite rd wr =>
      simp only [Ring.readerStep, place]
      rw [place] at ok
      split
      · exact inv.setReader rfl rfl rfl trivial
      · next less =>
          obtain ⟨limit, above, le, fits⟩ := ok.2 (by omega)
          split
          · exact inv.setReader rfl rfl rfl trivial
          · next nonempty =>
              exact inv.setReader rfl rfl rfl
                ⟨ok.1, inv.loaded_header ok.1 above le fits nonempty⟩
  | unpublished =>
      simp only [Ring.readerStep, place]
      exact inv.setReader rfl rfl rfl trivial
  | holding rd len bytes =>
      simp only [Ring.readerStep, place]
      rw [place] at ok
      split
      · next more =>
          exact inv.setReader rfl rfl rfl
            ⟨ok.1, inv.held_byte ok.1 ok.2 more⟩
      · next full =>
          refine inv.setReader rfl rfl rfl ⟨rfl, ok.2, ?_⟩
          obtain ⟨payload, _, _, lenEq, bytesEq, _⟩ := ok.2
          have := congrArg List.length bytesEq
          rw [List.length_take] at this
          omega
  | ending rd len bytes =>
      simp only [Ring.readerStep, place]
      exact inv.advance place
  | counting =>
      simp only [Ring.readerStep, place]
      exact inv.setReader rfl rfl rfl trivial

theorem step (inv : Invariant ring s) {action : Action} {next : State}
    (stepped : step ring s action = some next) : Invariant ring next := by
  cases action with
  | beginWrite w payload =>
      simp only [Ring.step, beginWrite] at stepped
      split at stepped
      · next called =>
          obtain ⟨idle, nonempty, fits⟩ := called
          split at stepped
          · cases stepped
            exact inv
          · next small =>
              cases stepped
              exact inv.setWriter rfl rfl
                (inv.lock.update (by rw [idle]; rfl))
                ⟨nonempty, fits, by omega⟩ (by rw [idle]; rfl)
      · cases stepped
  | writer w => exact inv.writerStep stepped
  | copy w index =>
      simp only [Ring.step, copyStep] at stepped
      split at stepped
      · next payload wr ticket copied place =>
          split at stepped
          · cases stepped
          · next byte byteAt =>
              cases stepped
              exact inv.copyByte place byteAt
      · cases stepped
  | reader =>
      cases stepped
      exact inv.readerStep

theorem reachable {s : State}
    (reached : Machine.Reachable (Ring.step ring) {} s) : Invariant ring s :=
  reached.invariant (fun _ _ _ inv stepped => inv.step stepped)
    (Invariant.initial ring)

end Invariant

end Sismo.Heap.Ring
