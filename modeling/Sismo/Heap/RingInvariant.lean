import Sismo.Heap.Ring

namespace Sismo.Heap.Ring

/-! Positions of the reserved records. -/

theorem le_total (payloadLen : Nat) :
    payloadLen + headerBytes ≤ total payloadLen :=
  le_alignUp _ (by decide)

def start (reserved : List (List UInt8)) (ticket : Nat) : Nat :=
  ((reserved.take ticket).map fun payload => total payload.length).sum

theorem start_succ {reserved : List (List UInt8)} {ticket : Nat}
    {payload : List UInt8} (found : reserved[ticket]? = some payload) :
    start reserved (ticket + 1) =
      start reserved ticket + total payload.length := by
  simp [start, List.take_add_one, found]

theorem start_append {reserved : List (List UInt8)} {ticket : Nat}
    (le : ticket ≤ reserved.length) (more : List (List UInt8)) :
    start (reserved ++ more) ticket = start reserved ticket := by
  rw [start, start, List.take_append_of_le_length le]

theorem start_mono (reserved : List (List UInt8)) {first second : Nat}
    (le : first ≤ second) : start reserved first ≤ start reserved second := by
  obtain ⟨gap, rfl⟩ := Nat.exists_eq_add_of_le le
  rw [start, start, List.take_add, List.map_append, List.sum_append]
  omega

theorem lt_length {reserved : List (List UInt8)} {ticket : Nat}
    {payload : List UInt8} (found : reserved[ticket]? = some payload) :
    ticket < reserved.length :=
  (List.getElem?_eq_some_iff.mp found).1

namespace Layout

variable (ring : Layout)

theorem size_lt : ring.size < 2 ^ 64 := by
  rw [ring.power]
  exact Nat.pow_lt_pow_right (by decide) ring.fits

theorem size_dvd : ring.size ∣ 2 ^ 64 := by
  rw [ring.power]
  exact Nat.pow_dvd_pow 2 ring.fits.le

/-- An address in the view stands for the byte at its position. -/
theorem address_mod (pos offset : Nat) :
    (ring.address (u64 pos) + offset) % ring.size =
      (pos + offset) % ring.size := by
  rw [address, land_mask ring.power, mod_of_u64 ring.size_dvd,
    Nat.mod_add_mod]

theorem loadByte_address (data : Data) (pos offset : Nat) :
    ring.loadByte data (ring.address (u64 pos) + offset) =
      ring.loadByte data (pos + offset) := by
  rw [loadByte, loadByte, address_mod]

theorem storeByte_address (data : Data) (pos offset : Nat) (byte : UInt8) :
    ring.storeByte data (ring.address (u64 pos) + offset) byte =
      ring.storeByte data (pos + offset) byte := by
  rw [storeByte, storeByte, address_mod]

theorem loadU32_address (data : Data) (pos : Nat) :
    ring.loadU32 data (ring.address (u64 pos)) = ring.loadU32 data pos := by
  have first := ring.loadByte_address data pos 0
  simp only [Nat.add_zero] at first
  simp only [loadU32, first, loadByte_address]

theorem storeU32_address (data : Data) (pos value : Nat) :
    ring.storeU32 data (ring.address (u64 pos)) value =
      ring.storeU32 data pos value := by
  have first := ring.storeByte_address data pos 0
  simp only [Nat.add_zero] at first
  simp only [storeU32, first, storeByte_address]

theorem loadByte_storeByte (data : Data) (address other : Nat) (byte : UInt8) :
    ring.loadByte (ring.storeByte data address byte) other =
      if other % ring.size = address % ring.size then byte
      else ring.loadByte data other := by
  simp only [loadByte, storeByte, Function.update_apply]

theorem loadByte_storeU32 {data : Data} {address other : Nat} (value : Nat)
    (apart : ∀ j < 4, other % ring.size ≠ (address + j) % ring.size) :
    ring.loadByte (ring.storeU32 data address value) other =
      ring.loadByte data other := by
  have first := apart 0 (by decide)
  rw [Nat.add_zero] at first
  simp only [storeU32, loadByte_storeByte, if_neg first,
    if_neg (apart 1 (by decide)), if_neg (apart 2 (by decide)),
    if_neg (apart 3 (by decide))]

theorem loadU32_congr {data other : Data} {address : Nat}
    (same : ∀ j < 4, ring.loadByte data (address + j) =
      ring.loadByte other (address + j)) :
    ring.loadU32 data address = ring.loadU32 other address := by
  have first := same 0 (by decide)
  rw [Nat.add_zero] at first
  simp only [loadU32, first, same 1 (by decide), same 2 (by decide),
    same 3 (by decide)]

theorem loadU32_storeU32 (data : Data) (address : Nat) {value : Nat}
    (large : 4 ≤ ring.size) (fits : value < 2 ^ 32) :
    ring.loadU32 (ring.storeU32 data address value) address = value := by
  have apart : ∀ i < 4, ∀ j < 4, i ≠ j →
      (address + i) % ring.size ≠ (address + j) % ring.size :=
    fun i iLt j jLt distinct =>
      offset_ne address (by omega) (by omega) (by omega) (by omega)
        (by omega)
  have zeroOne := apart 0 (by decide) 1 (by decide) (by decide)
  have zeroTwo := apart 0 (by decide) 2 (by decide) (by decide)
  have zeroThree := apart 0 (by decide) 3 (by decide) (by decide)
  have oneTwo := apart 1 (by decide) 2 (by decide) (by decide)
  have oneThree := apart 1 (by decide) 3 (by decide) (by decide)
  have twoThree := apart 2 (by decide) 3 (by decide) (by decide)
  simp only [Nat.add_zero] at zeroOne zeroTwo zeroThree
  simp only [loadU32, storeU32, loadByte_storeByte, if_neg zeroOne,
    if_neg zeroTwo, if_neg zeroThree, if_neg oneTwo, if_neg oneThree,
    if_neg twoThree, ↓reduceIte, UInt8.toNat_ofNat']
  omega

end Layout

/-! What holds at every intermediate step. -/

structure PayloadOk (ring : Layout) (payload : List UInt8) : Prop where
  nonempty : 0 < payload.length
  fits : payload.length < 2 ^ 32
  total_le : total payload.length ≤ ring.size

def Writer.holds : Writer → Bool
  | .idle | .locking .. | .swapping .. | .backingOff .. | .copying .. => false
  | _ => true

def Writer.ticket? : Writer → Option Nat
  | .stored _ _ ticket | .countedBytes _ _ ticket | .countedWrite _ _ ticket
  | .copying _ _ ticket _ => some ticket
  | _ => none

namespace State

def head (s : State) : Nat :=
  start s.reserved s.returned.length

def tail (s : State) : Nat :=
  start s.reserved s.reserved.length

end State

/-- The lock's word is set while a writer is in its critical section, and one
writer at most is. -/
def LockOk (spinlock : Nat) (writers : Nat → Writer) : Prop :=
  ∀ w, (writers w).holds = true →
    spinlock = 1 ∧ ∀ v, (writers v).holds = true → v = w

def WriterOk (ring : Layout) (s : State) : Writer → Prop
  | .idle | .overflowed => True
  | .locking payload _ | .swapping payload _ | .backingOff payload
  | .locked payload => PayloadOk ring payload
  | .loadedWrite payload wr => PayloadOk ring payload ∧ wr = s.page.writePos
  | .loadedRead payload wr rd =>
      PayloadOk ring payload ∧ wr = s.page.writePos ∧ rd ≤ s.page.readPos ∧
        s.tail ≤ rd + ring.size
  | .zeroed payload wr =>
      PayloadOk ring payload ∧ wr = s.page.writePos ∧
        s.tail + total payload.length ≤ s.head + ring.size ∧
        ring.loadU32 s.data s.tail = 0
  | .stored payload wr ticket | .countedBytes payload wr ticket
  | .countedWrite payload wr ticket =>
      s.reserved[ticket]? = some payload ∧ wr = u64 (start s.reserved ticket)
  | .copying payload wr ticket copied =>
      s.reserved[ticket]? = some payload ∧
        wr = u64 (start s.reserved ticket) ∧
        ∀ i ∈ copied, ∀ byte, payload[i]? = some byte →
          ring.loadByte s.data (start s.reserved ticket + headerBytes + i) =
            byte

/-- The record at the read position is published and this is its length and
what has been read of it. -/
def Held (s : State) (len : Nat) (bytes : List UInt8) : Prop :=
  ∃ payload, s.reserved[s.returned.length]? = some payload ∧
    s.returned.length ∈ s.published ∧ len = payload.length ∧
    bytes = payload.take bytes.length ∧
    start s.reserved (s.returned.length + 1) < 2 ^ 64

def ReaderOk (s : State) : Reader → Prop
  | .idle | .unpublished | .counting => True
  | .loadedRead rd => rd = s.page.readPos
  | .loadedWrite rd wr =>
      rd = s.page.readPos ∧ (rd < wr → ∃ limit, s.returned.length < limit ∧
        limit ≤ s.reserved.length ∧ start s.reserved limit < 2 ^ 64)
  | .holding rd len bytes => rd = s.page.readPos ∧ Held s len bytes
  | .ending rd len bytes =>
      rd = s.page.readPos ∧ Held s len bytes ∧ bytes.length = len

structure Invariant (ring : Layout) (s : State) : Prop where
  writePos : s.page.writePos = u64 s.tail
  readPos : s.page.readPos = s.head
  readPos_lt : s.head < 2 ^ 64
  consumed_le : s.returned.length ≤ s.reserved.length
  room : s.tail ≤ s.head + ring.size
  payloads : ∀ payload ∈ s.reserved, PayloadOk ring payload
  lock : LockOk s.page.spinlock s.writers
  writer : ∀ w, WriterOk ring s (s.writers w)
  ticket : ∀ w ticket, (s.writers w).ticket? = some ticket →
    s.returned.length ≤ ticket ∧ ticket ∉ s.published
  distinct : ∀ v w ticket, (s.writers v).ticket? = some ticket →
    (s.writers w).ticket? = some ticket → v = w
  published_lt : ∀ ticket ∈ s.published, ticket < s.reserved.length
  header : ∀ ticket payload, s.reserved[ticket]? = some payload →
    s.returned.length ≤ ticket →
    ring.loadU32 s.data (start s.reserved ticket) =
      if ticket ∈ s.published then payload.length else 0
  payload : ∀ ticket payload, s.reserved[ticket]? = some payload →
    s.returned.length ≤ ticket → ticket ∈ s.published →
    ∀ i byte, payload[i]? = some byte →
      ring.loadByte s.data (start s.reserved ticket + headerBytes + i) = byte
  returned : s.returned = s.reserved.take s.returned.length
  returned_published : ∀ ticket < s.returned.length, ticket ∈ s.published
  reader : ReaderOk s s.reader

theorem Invariant.initial (ring : Layout) : Invariant ring {} where
  writePos := rfl
  readPos := rfl
  readPos_lt := Nat.two_pow_pos 64
  consumed_le := Nat.le_refl _
  room := Nat.zero_le _
  payloads := by simp
  lock := by simp [LockOk, Writer.holds]
  writer _ := trivial
  ticket := by simp [Writer.ticket?]
  distinct := by simp [Writer.ticket?]
  published_lt := by simp
  header := by simp
  payload := by simp
  returned := rfl
  returned_published := by simp
  reader := trivial

namespace Invariant

variable {ring : Layout} {s : State}

theorem start_le_tail (_ : Invariant ring s) {ticket : Nat}
    {payload : List UInt8} (found : s.reserved[ticket]? = some payload) :
    start s.reserved ticket + total payload.length ≤ s.tail := by
  rw [← start_succ found]
  exact start_mono _ (lt_length found)

/-- Bytes of two unread records never share an offset. -/
theorem records_apart (inv : Invariant ring s) {first second : Nat}
    {firstPayload secondPayload : List UInt8}
    (firstFound : s.reserved[first]? = some firstPayload)
    (secondFound : s.reserved[second]? = some secondPayload)
    (firstUnread : s.returned.length ≤ first)
    (secondUnread : s.returned.length ≤ second) {i j : Nat}
    (iLt : i < total firstPayload.length)
    (jLt : j < total secondPayload.length)
    (distinct : first ≠ second ∨ i ≠ j) :
    (start s.reserved first + i) % ring.size ≠
      (start s.reserved second + j) % ring.size := by
  have firstHead := start_mono s.reserved firstUnread
  have secondHead := start_mono s.reserved secondUnread
  have firstTail := inv.start_le_tail firstFound
  have secondTail := inv.start_le_tail secondFound
  have room := inv.room
  rw [State.head] at room
  refine offset_ne (start s.reserved s.returned.length) (by omega)
    (by omega) (by omega) (by omega) fun same => ?_
  rcases Nat.lt_trichotomy first second with less | equal | greater
  · have := start_mono s.reserved less
    rw [Nat.succ_eq_add_one, start_succ firstFound] at this
    omega
  · subst equal
    omega
  · have := start_mono s.reserved greater
    rw [Nat.succ_eq_add_one, start_succ secondFound] at this
    omega

/-- Bytes about to be reserved share no offset with an unread record. -/
theorem tail_apart (inv : Invariant ring s) {ticket : Nat}
    {payload : List UInt8} (found : s.reserved[ticket]? = some payload)
    (unread : s.returned.length ≤ ticket) {i j : Nat}
    (iLt : i < total payload.length)
    (jLt : s.tail + j < s.head + ring.size) :
    (start s.reserved ticket + i) % ring.size ≠ (s.tail + j) % ring.size := by
  have unreadHead := start_mono s.reserved unread
  have below := inv.start_le_tail found
  have headTail : s.head ≤ s.tail := start_mono s.reserved inv.consumed_le
  rw [State.head] at headTail jLt
  exact offset_ne (start s.reserved s.returned.length) (by omega)
    (by omega) (by omega) (by omega) (by omega)

end Invariant

end Sismo.Heap.Ring
