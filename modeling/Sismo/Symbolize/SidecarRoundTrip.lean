import Mathlib.Algebra.BigOperators.Group.List.Basic
import Mathlib.Algebra.Order.Ring.Nat
import Sismo.Symbolize.Sidecar

namespace Sismo.Symbolize

/-! What the pieces of a record are, and when reading a key gives back a
record that was written under it. -/

open Utf8

def under (records : List Record) (sidecar : Sidecar) (key : Bytes) :
    List Record :=
  records.filter fun r => r.sidecar = sidecar ∧ r.key = key

/-- However the table orders the packets, the key reads as the payload of one
of its records, or as nothing without one. -/
def ReadsBack (values : StringValues) (records : List Record)
    (sidecar : Sidecar) (key : Bytes) : Prop :=
  ∀ slices, slices.Perm (records.flatMap Record.events) →
    match readChunked values slices sidecar key with
    | none => under records sidecar key = []
    | some text => ∃ r ∈ under records sidecar key, text = r.payload

/-- Pieces of at most the limit, numbered from zero if there are several, that
join to the payload. -/
structure Pieces (record : Record) : Prop where
  limit : ∀ e ∈ record.events, e.text.length ≤ maxChunkBytes
  ordinals : record.events.map Event.ordinal =
    List.range record.events.length
  joined : (record.events.map Event.text).flatten = record.payload
  key : ∀ e ∈ record.events,
    e.sidecar = record.sidecar ∧ e.keyVal = record.key

/-- No boundary between pieces falls inside a character. -/
def Aligned (payload : Bytes) : Prop :=
  ∀ k, ¬StartsInside (payload.drop (k * maxChunkBytes))

/-- The key has one record with content at most, and its records are cut
between characters. -/
structure Readable (records : List Record) (sidecar : Sidecar) (key : Bytes) :
    Prop where
  single : ((under records sidecar key).filter (·.payload ≠ [])).length ≤ 1
  aligned : ∀ r ∈ under records sidecar key, Aligned r.payload

/-! ### The pieces -/

section

variable {sidecar : Sidecar} {keyVal payload : Bytes} {nchunks : Nat}

theorem stop_sub_off {off : Nat} (more : off < payload.length) :
    (payload.drop off).take (min (off + maxChunkBytes) payload.length - off) =
      (payload.drop off).take maxChunkBytes := by
  rcases Nat.le_total (off + maxChunkBytes) payload.length with inside | last
  · rw [min_eq_left inside, Nat.add_sub_cancel_left]
  · rw [min_eq_right last, List.take_of_length_le (by rw [List.length_drop]),
      List.take_of_length_le (by rw [List.length_drop]; omega)]

theorem drop_stop {off : Nat} :
    payload.drop (min (off + maxChunkBytes) payload.length) =
      (payload.drop off).drop maxChunkBytes := by
  rw [List.drop_drop]
  rcases Nat.le_total (off + maxChunkBytes) payload.length with inside | last
  · rw [min_eq_left inside]
  · rw [min_eq_right last, List.drop_of_length_le (Nat.le_refl _),
      List.drop_of_length_le last]

/-- One induction over the loop for all that its events are. -/
theorem writeChunks_spec (off i : Nat) :
    let events := writeChunks sidecar keyVal payload nchunks off i
    (∀ e ∈ events, e.text.length ≤ maxChunkBytes ∧ e.text ≠ [] ∧
      e.sidecar = sidecar ∧ e.keyVal = keyVal) ∧
    events.map Event.ordinal = List.range' i events.length ∧
    (events.map Event.text).flatten = payload.drop off := by
  fun_induction writeChunks sidecar keyVal payload nchunks off i with
  | case1 off i more stop induction =>
      obtain ⟨facts, ordinals, joined⟩ := induction
      refine ⟨?_, ?_, ?_⟩
      · intro e member
        rcases List.mem_cons.mp member with rfl | later
        · refine ⟨?_, ?_, rfl, rfl⟩
          · dsimp only
            rw [List.length_take]
            omega
          · rw [ne_eq, ← List.length_eq_zero_iff, List.length_take,
              List.length_drop]
            simp only [stop, maxChunkBytes]
            omega
        · exact facts e later
      · rw [List.map_cons, ordinals, List.length_cons, List.range'_succ]
        rfl
      · rw [List.map_cons, List.flatten_cons, joined, stop_sub_off more,
          drop_stop, List.take_append_drop]
  | case2 off i done =>
      refine ⟨by simp, rfl, ?_⟩
      rw [List.drop_of_length_le (by omega)]
      rfl

/-- A piece starts inside a character exactly when its boundary does. -/
theorem writeChunks_startsInside (off i : Nat) :
    (∀ e ∈ writeChunks sidecar keyVal payload nchunks off i,
      ¬StartsInside e.text) ↔
      ∀ k, ¬StartsInside ((payload.drop off).drop (k * maxChunkBytes)) := by
  fun_induction writeChunks sidecar keyVal payload nchunks off i with
  | case1 off i more stop induction =>
      have first : StartsInside ((payload.drop off).take (stop - off)) ↔
          StartsInside (payload.drop off) := by
        have positive : 0 < stop - off := by
          simp only [stop, maxChunkBytes]
          omega
        obtain ⟨n, count⟩ := Nat.exists_eq_add_of_lt positive
        rw [count, Nat.zero_add]
        cases payload.drop off with
        | nil => rfl
        | cons byte rest =>
            rw [List.take_succ_cons]
            constructor
            · rintro ⟨b, _, starts, inside⟩
              cases starts
              exact ⟨byte, rest, rfl, inside⟩
            · rintro ⟨b, _, starts, inside⟩
              cases starts
              exact ⟨byte, rest.take n, rfl, inside⟩
      rw [List.forall_mem_cons, induction]
      constructor
      · rintro ⟨head, tail⟩ k
        cases k with
        | zero =>
            rw [Nat.zero_mul, List.drop_zero]
            exact fun inside => head (first.mpr inside)
        | succ k =>
            have := tail k
            rwa [drop_stop, List.drop_drop, Nat.add_comm,
              ← Nat.succ_mul] at this
      · intro all
        constructor
        · have := all 0
          rw [Nat.zero_mul, List.drop_zero] at this
          exact fun inside => this (first.mp inside)
        · intro k
          rw [drop_stop, List.drop_drop, Nat.add_comm, ← Nat.succ_mul]
          exact all (k + 1)
  | case2 off i done =>
      have empty : payload.drop off = [] :=
        List.drop_of_length_le (by omega)
      simp [empty, not_startsInside_nil]

end

/-- Cut between characters, every piece is text. -/
theorem writeChunks_valid {sidecar : Sidecar} {keyVal payload : Bytes}
    {nchunks : Nat} (off i : Nat) (valid : Valid (payload.drop off))
    (outside : ∀ e ∈ writeChunks sidecar keyVal payload nchunks off i,
      ¬StartsInside e.text) :
    ∀ e ∈ writeChunks sidecar keyVal payload nchunks off i,
      Valid e.text := by
  rw [writeChunks_startsInside] at outside
  fun_induction writeChunks sidecar keyVal payload nchunks off i with
  | case1 off i more stop induction =>
      have later : ∀ k, ¬StartsInside
          ((payload.drop stop).drop (k * maxChunkBytes)) := by
        intro k
        rw [drop_stop, List.drop_drop, Nat.add_comm, ← Nat.succ_mul]
        exact outside (k + 1)
      have next := later 0
      rw [Nat.zero_mul, List.drop_zero, drop_stop] at next
      rw [← List.take_append_drop maxChunkBytes (payload.drop off)] at valid
      obtain ⟨here, rest⟩ := valid.cut next
      rw [List.forall_mem_cons]
      constructor
      · rw [stop_sub_off more]
        exact here
      · exact induction (by rwa [drop_stop]) later
  | case2 => simp

theorem aligned_of_short {payload : Bytes} (valid : Valid payload)
    (short : payload.length ≤ maxChunkBytes) : Aligned payload := by
  intro k
  cases k with
  | zero =>
      rw [Nat.zero_mul, List.drop_zero]
      exact valid.not_startsInside
  | succ k =>
      rw [List.drop_of_length_le]
      · exact not_startsInside_nil
      · exact short.trans (Nat.le_mul_of_pos_left _ (Nat.succ_pos k))

namespace Record

variable (r : Record)

theorem pieces : Pieces r := by
  constructor <;> unfold events writeChunked
  all_goals split
  · next short => simpa using short
  · exact fun e member => ((writeChunks_spec 0 0).1 e member).1
  · rfl
  · rw [(writeChunks_spec 0 0).2.1, List.range_eq_range']
  · simp
  · exact (writeChunks_spec 0 0).2.2
  · simp
  · exact fun e member => ((writeChunks_spec 0 0).1 e member).2.2

theorem startsInside_iff :
    (∀ e ∈ r.events, ¬StartsInside e.text) ↔ Aligned r.payload := by
  unfold events writeChunked
  split
  · next short =>
      simp only [List.mem_singleton, forall_eq]
      exact ⟨fun _ => aligned_of_short r.validPayload short,
        fun _ => r.validPayload.not_startsInside⟩
  · rw [writeChunks_startsInside]
    rfl

theorem valid_text (aligned : Aligned r.payload) :
    ∀ e ∈ r.events, Valid e.text := by
  rw [← startsInside_iff] at aligned
  unfold events writeChunked at aligned ⊢
  split
  · simpa using r.validPayload
  · next long =>
      rw [if_neg long] at aligned
      exact writeChunks_valid 0 0 r.validPayload aligned

end Record

/-! ### Reading a key -/

section

variable {values : StringValues} {records : List Record} {sidecar : Sidecar}
  {key : Bytes}

variable (values) in
theorem filter_events :
    (records.flatMap Record.events).filter (fun e =>
        e.sidecar = sidecar ∧ values.keep e.keyVal = key) =
      (under records sidecar key).flatMap Record.events := by
  induction records with
  | nil => rfl
  | cons r rest induction =>
      rw [List.flatMap_cons, List.filter_append, induction]
      unfold under
      rw [List.filter_cons]
      have same : ∀ e ∈ r.events,
          (e.sidecar = sidecar ∧ values.keep e.keyVal = key) ↔
            (r.sidecar = sidecar ∧ r.key = key) := by
        intro e member
        obtain ⟨sidecarEq, keyEq⟩ := r.pieces.key e member
        rw [sidecarEq, keyEq, values.keeps_valid _ r.validKey]
      by_cases here : r.sidecar = sidecar ∧ r.key = key
      · rw [if_pos (decide_eq_true here), List.flatMap_cons]
        congr 1
        rw [List.filter_eq_self]
        exact fun e member => decide_eq_true ((same e member).mpr here)
      · rw [if_neg (by simpa using here)]
        have none : r.events.filter (fun e =>
            decide (e.sidecar = sidecar ∧ values.keep e.keyVal = key)) =
            [] := by
          rw [List.filter_eq_nil_iff]
          intro e member found
          exact here ((same e member).mp (of_decide_eq_true found))
        rw [none, List.nil_append]

theorem events_ne_nil (r : Record) : r.events ≠ [] := by
  unfold Record.events writeChunked
  split
  · simp
  · next long =>
      rw [writeChunks, if_pos (by omega)]
      simp

def textLength (events : List Event) : Nat :=
  (events.map fun e => e.text.length).sum

theorem textLength_events (r : Record) :
    textLength r.events = r.payload.length := by
  rw [← r.pieces.joined, List.length_flatten, List.map_map]
  rfl

theorem textLength_flatMap (records : List Record) :
    textLength (records.flatMap Record.events) =
      (records.map fun r => r.payload.length).sum := by
  induction records with
  | nil => rfl
  | cons r rest induction =>
      rw [List.flatMap_cons, textLength, List.map_append, List.sum_append,
        List.map_cons, List.sum_cons, ← textLength_events r, ← induction]
      rfl

/-- Reading replaces nothing by less, and a stray byte by more. -/
theorem textLength_le_kept (values : StringValues) (events : List Event) :
    textLength events ≤
        (events.map fun e => (values.keep e.text).length).sum ∧
      ((∃ e ∈ events, StartsInside e.text) → textLength events <
        (events.map fun e => (values.keep e.text).length).sum) := by
  induction events with
  | nil => simp [textLength]
  | cons e rest induction =>
      obtain ⟨shorter, stray⟩ := induction
      have head := values.never_shorter e.text
      simp only [textLength, List.map_cons, List.sum_cons] at shorter stray ⊢
      refine ⟨by omega, ?_⟩
      rintro ⟨inside, member, starts⟩
      rcases List.mem_cons.mp member with rfl | later
      · have := values.replaces _ starts
        omega
      · have := stray ⟨inside, later, starts⟩
        omega

variable (values sidecar key) in
theorem readChunked_eq (slices : List Event)
    (perm : slices.Perm (records.flatMap Record.events)) :
    ∃ rows : List Event,
      rows.Perm ((under records sidecar key).flatMap Record.events) ∧
      rows.Pairwise (fun first second => first.ordinal ≤ second.ordinal) ∧
      readChunked values slices sidecar key =
        if rows = [] then none
        else some (rows.map fun e => values.keep e.text).flatten := by
  refine ⟨(slices.filter fun e => e.sidecar = sidecar ∧
    values.keep e.keyVal = key).insertionSort
      fun first second => first.ordinal ≤ second.ordinal, ?_, ?_, ?_⟩
  · rw [← filter_events values]
    exact (List.perm_insertionSort _ _).trans (perm.filter _)
  · exact List.pairwise_insertionSort _ _
  · simp only [readChunked, List.map_eq_nil_iff]

theorem nonempty_of_sum_zero (rs : List Record)
    (zero : (rs.map fun r => r.payload.length).sum = 0) :
    rs.filter (·.payload ≠ []) = [] := by
  rw [List.filter_eq_nil_iff]
  intro r member
  have length := List.sum_eq_zero_iff_forall_eq_nat.mp zero _
    (List.mem_map_of_mem member)
  simpa using length

/-- What reads back has one record with content, cut between characters. -/
theorem readable_of_readsBack (reads : ReadsBack values records sidecar key) :
    Readable records sidecar key := by
  have read := reads _ (List.Perm.refl _)
  obtain ⟨rows, perm, _, result⟩ := readChunked_eq values sidecar key _
    (List.Perm.refl (records.flatMap Record.events))
  rw [result] at read
  by_cases empty : rows = []
  · rw [if_pos empty] at read
    have none : under records sidecar key = [] := read
    constructor <;> simp [none]
  · rw [if_neg empty] at read
    obtain ⟨r, member, text⟩ := read
    obtain ⟨before, after, split⟩ := List.append_of_mem member
    have kept := congrArg List.length text
    rw [List.length_flatten, List.map_map] at kept
    have total : textLength rows = (before.map fun r => r.payload.length).sum +
        (r.payload.length + (after.map fun r => r.payload.length).sum) := by
      have counted : textLength rows =
          textLength ((under records sidecar key).flatMap Record.events) :=
        (perm.map _).sum_eq
      rw [counted, textLength_flatMap, split, List.map_append,
        List.sum_append, List.map_cons, List.sum_cons]
    obtain ⟨bound, strict⟩ := textLength_le_kept values rows
    have same : (rows.map fun e => (values.keep e.text).length).sum =
        r.payload.length := kept
    constructor
    · have first := nonempty_of_sum_zero before (by omega)
      have last := nonempty_of_sum_zero after (by omega)
      rw [split, List.filter_append, first, List.nil_append,
        List.filter_cons, last]
      split <;> simp
    · intro other otherMem
      rw [← other.startsInside_iff]
      intro e eMem inside
      have inRows : e ∈ rows := perm.mem_iff.mpr
        (List.mem_flatMap.mpr ⟨other, otherMem, eMem⟩)
      have := strict ⟨e, inRows, inside⟩
      omega

/-- Sorted by chunk, the events of one record are in their order. -/
theorem eq_events_of_perm {r : Record} {rows : List Event}
    (perm : rows.Perm (r.events.filter (·.text ≠ [])))
    (sorted : rows.Pairwise fun first second =>
      first.ordinal ≤ second.ordinal) :
    rows = r.events.filter (·.text ≠ []) := by
  have ordinals := r.pieces.ordinals
  have nodup : (r.events.map Event.ordinal).Nodup := by
    rw [ordinals]
    exact List.nodup_range
  have increasing : r.events.Pairwise fun first second =>
      first.ordinal ≤ second.ordinal := by
    rw [← List.pairwise_map (R := (· ≤ ·)), ordinals]
    exact List.pairwise_le_range
  apply List.Perm.eq_of_pairwise _ sorted (increasing.filter _) perm
  intro first second firstMem secondMem le ge
  have firstIn := List.mem_of_mem_filter (perm.mem_iff.mp firstMem)
  have secondIn := List.mem_of_mem_filter secondMem
  exact List.inj_on_of_nodup_map nodup firstIn secondIn
    (Nat.le_antisymm le ge)

theorem flatten_filter_ne_nil (events : List Event) :
    ((events.filter (·.text ≠ [])).map Event.text).flatten =
      (events.map Event.text).flatten := by
  induction events with
  | nil => rfl
  | cons e rest induction =>
      by_cases empty : e.text = []
      · rw [List.filter_cons_of_neg (by simpa using empty), induction,
          List.map_cons, List.flatten_cons, empty, List.nil_append]
      · rw [List.filter_cons_of_pos (by simpa using empty), List.map_cons,
          List.map_cons, List.flatten_cons, List.flatten_cons, induction]

theorem filter_flatMap_events (rs : List Record) :
    (rs.flatMap Record.events).filter (·.text ≠ []) =
      (rs.filter (·.payload ≠ [])).flatMap fun r =>
        r.events.filter (·.text ≠ []) := by
  induction rs with
  | nil => rfl
  | cons r rest induction =>
      rw [List.flatMap_cons, List.filter_append, induction, List.filter_cons]
      by_cases empty : r.payload = []
      · rw [if_neg (by simpa using empty)]
        have none : r.events.filter (·.text ≠ []) = [] := by
          have joined := r.pieces.joined
          rw [empty, List.flatten_eq_nil_iff] at joined
          rw [List.filter_eq_nil_iff]
          intro e member
          simpa using joined e.text (List.mem_map_of_mem member)
        rw [none, List.nil_append]
      · rw [if_pos (by simpa using empty), List.flatMap_cons]

theorem readsBack_of_readable (readable : Readable records sidecar key) :
    ReadsBack values records sidecar key := by
  intro slices slicesPerm
  obtain ⟨rows, perm, sorted, result⟩ :=
    readChunked_eq values sidecar key slices slicesPerm
  rw [result]
  by_cases empty : rows = []
  · rw [if_pos empty]
    subst empty
    have none := List.flatMap_eq_nil_iff.mp perm.nil_eq.symm
    exact List.eq_nil_iff_forall_not_mem.mpr fun r member =>
      events_ne_nil r (none r member)
  · rw [if_neg empty]
    -- Every piece is kept as it is.
    have kept : rows.map (fun e => values.keep e.text) =
        rows.map Event.text := by
      apply List.map_congr_left
      intro e member
      obtain ⟨r, rMem, eMem⟩ := List.mem_flatMap.mp (perm.mem_iff.mp member)
      exact values.keeps_valid _
        (r.valid_text (readable.aligned r rMem) e eMem)
    have busy := perm.filter (·.text ≠ [])
    rw [filter_flatMap_events] at busy
    rw [kept, ← flatten_filter_ne_nil]
    have single := readable.single
    generalize full : (under records sidecar key).filter (·.payload ≠ []) =
      content at single busy
    match content, single with
    | [], _ =>
        rw [List.flatMap_nil, List.perm_nil] at busy
        obtain ⟨e, member⟩ := List.exists_mem_of_ne_nil _ empty
        obtain ⟨r, rMem, _⟩ := List.mem_flatMap.mp (perm.mem_iff.mp member)
        refine ⟨r, rMem, ?_⟩
        have silent := List.filter_eq_nil_iff.mp full r rMem
        have nothing : r.payload = [] := by simpa using silent
        rw [busy, nothing]
        rfl
    | [r], _ =>
        have rMem : r ∈ (under records sidecar key).filter
            (·.payload ≠ []) := by
          rw [full]
          exact List.mem_cons_self
        rw [List.flatMap_cons, List.flatMap_nil, List.append_nil] at busy
        refine ⟨r, List.mem_of_mem_filter rMem, ?_⟩
        rw [eq_events_of_perm busy (sorted.filter _), flatten_filter_ne_nil,
          r.pieces.joined]

end

/-- The pieces of every record are as they should be, and every key reads back
exactly when every key has one record with content at most and no piece of its
records starts inside a character. -/
theorem sidecar_round_trips_iff (values : StringValues)
    (records : List Record) :
    (∀ r ∈ records, Pieces r) ∧
      ((∀ sidecar key, ReadsBack values records sidecar key) ↔
        ∀ sidecar key, Readable records sidecar key) :=
  ⟨fun r _ => r.pieces, forall_congr' fun _ => forall_congr' fun _ =>
    ⟨readable_of_readsBack, readsBack_of_readable⟩⟩

/-! ### A file bundled by two runs -/

/-- A stray continuation byte in front becomes the replacement character. -/
def replaceFirst : Bytes → Bytes
  | [] => []
  | byte :: rest =>
      if byte.IsUTF8FirstByte then byte :: rest
      else 0xef :: 0xbf :: 0xbd :: rest

theorem replaceFirst_valid (bytes : Bytes) (valid : Valid bytes) :
    replaceFirst bytes = bytes := by
  cases bytes with
  | nil => rfl
  | cons byte rest =>
      rw [replaceFirst]
      by_cases first : byte.IsUTF8FirstByte
      · rw [if_pos first]
      · exact absurd ⟨byte, rest, rfl, first⟩ valid.not_startsInside

theorem replaceFirst_length (bytes : Bytes) :
    bytes.length ≤ (replaceFirst bytes).length := by
  cases bytes with
  | nil => exact Nat.le_refl 0
  | cons byte rest =>
      rw [replaceFirst]
      split <;> simp

theorem replaceFirst_longer (bytes : Bytes) (inside : StartsInside bytes) :
    bytes.length < (replaceFirst bytes).length := by
  obtain ⟨byte, rest, rfl, stray⟩ := inside
  rw [replaceFirst, if_neg stray]
  simp

theorem validX : Valid [0x78] :=
  ⟨['x'], by decide⟩

/-- The source file x with the text x, in two runs on one trace. -/
def bundledTwice : List Record :=
  [⟨.src, [0x78], [0x78], validX, validX⟩,
    ⟨.src, [0x78], [0x78], validX, validX⟩]

theorem not_readsBack_bundledTwice :
    ¬∀ sidecar key, ReadsBack ⟨replaceFirst, replaceFirst_valid,
      replaceFirst_length, replaceFirst_longer⟩ bundledTwice sidecar key := by
  intro reads
  have single := (readable_of_readsBack (reads .src [0x78])).single
  exact absurd single (by decide)

end Sismo.Symbolize
