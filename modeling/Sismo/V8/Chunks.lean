import Sismo.V8.Frames

namespace Sismo.V8

/-! The strings that the inspector sends as snapshot chunks, against what is
written of them. -/

open Utf16

/-- A message whose member `"chunk"` is a string. -/
def IsChunk (tokens : List Token) (msg : Bytes) : Prop :=
  ∃ before between after,
    msg = before ++ (chunkKey ++
      (between ++ 34 :: (textOf tokens ++ 34 :: after))) ∧
    (∀ i < before.length, ¬ chunkKey <+: msg.drop i) ∧ 34 ∉ between

/-- A message with a chunk, or another one, which has no member `"chunk"`. -/
inductive Item where
  | chunk (tokens : List Token) (msg : Bytes) (isChunk : IsChunk tokens msg)
  | other (msg : Bytes) (keyless : ¬ chunkKey <:+: msg)

namespace Item

def bytes : Item → Bytes
  | chunk _ msg _ => msg
  | other msg _ => msg

def string : Item → List Nat
  | chunk tokens _ _ => stringOf tokens
  | other _ _ => []

end Item

def sent (items : List Item) : Bytes :=
  items.flatMap fun item => toUtf8 item.string

/-- Frames carry text messages, cut anywhere, with control frames between them.
The first argument is what was sent of a message so far. No close frame is among
them. -/
inductive Sends : Option Bytes → List Frame → List Bytes → Prop
  | nil : Sends none [] []
  | control {partly frame frames msgs} (control : 8 < frame.opcode)
      (nibble : frame.opcode < 16) (next : Sends partly frames msgs) :
      Sends partly (frame :: frames) msgs
  | whole {payload frames msgs} (next : Sends none frames msgs) :
      Sends none (⟨true, 1, payload⟩ :: frames) (payload :: msgs)
  | first {payload frames msgs} (next : Sends (some payload) frames msgs) :
      Sends none (⟨false, 1, payload⟩ :: frames) msgs
  | more {start payload frames msgs}
      (next : Sends (some (start ++ payload)) frames msgs) :
      Sends (some start) (⟨false, 0, payload⟩ :: frames) msgs
  | last {start payload frames msgs} (next : Sends none frames msgs) :
      Sends (some start) (⟨true, 0, payload⟩ :: frames)
        ((start ++ payload) :: msgs)

/-- What the inspector sends from the request to its response. -/
structure Session where
  items : List Item
  response : Bytes
  responds : idKey <:+: response ∧ ¬ chunkKey <:+: response
  frames : List Frame
  sends : Sends none frames (items.map Item.bytes ++ [response])
  fits : ∀ frame ∈ frames, frame.payload.length ≤ maxFrame

/-- No string has a lone high surrogate, as far as they are read: another
message with the bytes `"id":1` ends the reading. -/
def Kept : List Item → Prop
  | [] => True
  | .chunk tokens _ _ :: items => Paired (stringOf tokens) ∧ Kept items
  | .other msg _ :: items =>
      (idKey <:+: msg → ∀ item ∈ items, item.string = []) ∧
        (¬ idKey <:+: msg → Kept items)

/-! Searching bytes. -/

theorem chunkKey_ne_nil : chunkKey ≠ [] :=
  List.cons_ne_nil _ _

theorem idKey_ne_nil : idKey ≠ [] :=
  List.cons_ne_nil _ _

theorem find_isSome_iff {needle : Bytes} (nonempty : needle ≠ []) (msg : Bytes) :
    (find needle msg).isSome ↔ needle <:+: msg := by
  induction msg with
  | nil =>
      refine iff_of_false (fun some => by cases some) fun inside => nonempty ?_
      exact List.eq_nil_of_infix_nil inside
  | cons byte rest induction =>
      rw [find, List.infix_cons_iff]
      split
      · next starts =>
          exact iff_of_true rfl (.inl (List.isPrefixOf_iff_prefix.mp starts))
      · next differs =>
          rw [Option.isSome_map, induction]
          exact (or_iff_right fun starts =>
            differs (List.isPrefixOf_iff_prefix.mpr starts)).symm

theorem find_first {needle before rest : Bytes} (nonempty : needle ≠ [])
    (earlier : ∀ i < before.length,
      ¬ needle <+: (before ++ (needle ++ rest)).drop i) :
    find needle (before ++ (needle ++ rest)) = some before.length := by
  induction before with
  | nil =>
      obtain ⟨byte, more, rfl⟩ := List.exists_cons_of_ne_nil nonempty
      rw [List.nil_append, List.cons_append, find, if_pos]
      · rfl
      · exact List.isPrefixOf_iff_prefix.mpr ⟨rest, rfl⟩
  | cons byte before induction =>
      have here := earlier 0 (Nat.succ_pos _)
      rw [List.cons_append, find, if_neg, induction]
      · rfl
      · intro i inside
        exact earlier (i + 1) (Nat.succ_lt_succ inside)
      · exact fun starts => here (List.isPrefixOf_iff_prefix.mp starts)

theorem extract_of_isChunk {tokens : List Token} {msg : Bytes}
    (isChunk : IsChunk tokens msg) : ∃ after,
      extractJsonString msg chunkKey =
        unescape (textOf tokens ++ 34 :: after) [] := by
  obtain ⟨before, between, after, rfl, earlier, unquoted⟩ := isChunk
  refine ⟨after, ?_⟩
  have quote : find [34] (between ++ 34 :: (textOf tokens ++ 34 :: after)) =
      some between.length := by
    refine @find_first [34] between (textOf tokens ++ 34 :: after)
      (List.cons_ne_nil _ _) fun i inside starts => unquoted ?_
    rw [List.drop_append_of_le_length inside.le,
      List.drop_eq_getElem_cons inside] at starts
    obtain ⟨others, same⟩ := starts
    rw [(List.cons.inj same).1]
    exact List.getElem_mem inside
  rw [extractJsonString, find_first chunkKey_ne_nil earlier]
  dsimp only
  rw [← List.drop_drop, List.drop_left, List.drop_left, quote]
  dsimp only
  rw [← List.drop_drop, List.drop_left]
  rfl

theorem extract_of_keyless {msg : Bytes} (keyless : ¬ chunkKey <:+: msg) :
    extractJsonString msg chunkKey = .err () := by
  have missing : find chunkKey msg = none := by
    rw [← Option.not_isSome_iff_eq_none, find_isSome_iff chunkKey_ne_nil]
    exact keyless
  rw [extractJsonString, missing]

/-! The loop over whole messages. -/

/-- What the loop does with each message, and goes on with. -/
def runMessages (later : Bytes → Fallible Error Bytes) :
    List Bytes → Bytes → Fallible Error Bytes
  | [], out => later out
  | msg :: msgs, out =>
      match extractJsonString msg chunkKey with
      | .ok chunk => runMessages later msgs (out ++ chunk)
      | .err _ =>
          if (find idKey msg).isSome then .ok out
          else runMessages later msgs out
      | .panics => .panics

theorem snapshotLoop_of_sends {partly : Option Bytes} {frames : List Frame}
    {msgs : List Bytes} (sends : Sends partly frames msgs) (later : List Frame)
    (out : Bytes) : snapshotLoop (frames ++ later) (partly.getD []) out =
      runMessages (snapshotLoop later []) msgs out := by
  induction sends generalizing out with
  | nil => rfl
  | control control nibble next induction =>
      rw [List.cons_append, snapshotLoop, if_neg (by omega), if_neg (by omega)]
      exact induction out
  | whole next induction =>
      rw [List.cons_append, snapshotLoop, runMessages, if_pos (.inl rfl),
        if_pos rfl]
      simp only [← induction]
      rfl
  | first next induction =>
      rw [List.cons_append, snapshotLoop, if_pos (.inl rfl), if_neg Bool.false_ne_true]
      exact induction out
  | more next induction =>
      rw [List.cons_append, snapshotLoop, if_pos (.inr rfl), if_neg Bool.false_ne_true]
      exact induction out
  | last next induction =>
      rw [List.cons_append, snapshotLoop, runMessages, if_pos (.inr rfl),
        if_pos rfl]
      simp only [← induction]
      rfl

/-- Only the empty string is empty in UTF-8. -/
theorem toUtf8_eq_nil {units : List Nat} : toUtf8 units = [] ↔ units = [] := by
  constructor
  · intro empty
    match units with
    | [] => rfl
    | [unit] =>
        have := (length_pointUtf8 unit).1
        rw [toUtf8] at empty
        rw [empty] at this
        cases this
    | unit :: next :: rest =>
        rw [toUtf8] at empty
        split at empty
        · have := (length_pointUtf8 (combine unit next)).1
          rw [(List.append_eq_nil_iff.mp empty).1] at this
          cases this
        · have := (length_pointUtf8 unit).1
          rw [(List.append_eq_nil_iff.mp empty).1] at this
          cases this
  · rintro rfl
    rfl

theorem sent_eq_nil {items : List Item} :
    sent items = [] ↔ ∀ item ∈ items, item.string = [] := by
  rw [sent, List.flatMap_eq_nil_iff]
  exact forall₂_congr fun item _ => toUtf8_eq_nil

theorem sent_cons (item : Item) (items : List Item) :
    sent (item :: items) = toUtf8 item.string ++ sent items :=
  List.flatMap_cons

theorem not_paired_ne_nil {units : List Nat} (lone : ¬ Paired units) :
    0 < (toUtf8 units).length := by
  rw [List.length_pos_iff, ne_eq, toUtf8_eq_nil]
  rintro rfl
  exact lone trivial

/-- What is written of the messages up to the response. If it is not what was
sent then it is shorter. -/
theorem runMessages_items {later : Bytes → Fallible Error Bytes}
    {response : Bytes} (responds : idKey <:+: response ∧ ¬ chunkKey <:+: response)
    (items : List Item) (out : Bytes) :
    (Kept items → runMessages later (items.map Item.bytes ++ [response]) out =
      .ok (out ++ sent items)) ∧
    (¬ Kept items → ∀ written,
      runMessages later (items.map Item.bytes ++ [response]) out = .ok written →
        written.length < out.length + (sent items).length) := by
  have stops : ∀ {msg : Bytes} {msgs : List Bytes} {out : Bytes},
      ¬ chunkKey <:+: msg → idKey <:+: msg →
        runMessages later (msg :: msgs) out = .ok out := by
    intro msg msgs out keyless id
    rw [runMessages, extract_of_keyless keyless]
    exact if_pos ((find_isSome_iff idKey_ne_nil msg).mpr id)
  induction items generalizing out with
  | nil =>
      refine ⟨fun _ => ?_, fun lost => absurd trivial lost⟩
      rw [sent, List.flatMap_nil, List.append_nil]
      exact stops responds.2 responds.1
  | cons item items induction =>
      have most : ∀ out written,
          runMessages later (items.map Item.bytes ++ [response]) out =
            .ok written → written.length ≤ out.length + (sent items).length := by
        intro out written same
        by_cases kept : Kept items
        · cases ((induction out).1 kept).symm.trans same
          exact List.length_append.le
        · exact ((induction out).2 kept written same).le
      rw [List.map_cons, List.cons_append, sent_cons, List.length_append]
      cases item with
      | chunk tokens msg isChunk =>
          obtain ⟨after, extract⟩ := extract_of_isChunk isChunk
          obtain ⟨paired, lone⟩ := @unescape_text [] tokens after
          rw [List.nil_append] at paired
          rw [Item.bytes, Item.string, runMessages, extract, Kept]
          by_cases good : Paired (stringOf tokens)
          · rw [paired good, and_iff_right good]
            have next := induction (out ++ toUtf8 (stringOf tokens))
            rw [List.append_assoc, List.length_append, Nat.add_assoc] at next
            exact next
          · refine ⟨fun both => absurd both.1 good, fun _ written same => ?_⟩
            have pos := not_paired_ne_nil good
            cases outcome : unescape (textOf tokens ++ 34 :: after) [] with
            | ok chunk =>
                rw [outcome] at same
                have short := lone good chunk outcome
                have whole := most _ written same
                rw [List.length_append] at whole
                rw [List.length_nil] at short
                omega
            | err error =>
                rw [outcome] at same
                dsimp only at same
                split at same
                · cases same
                  omega
                · have := most out written same
                  omega
            | panics =>
                rw [outcome] at same
                cases same
      | other msg keyless =>
          rw [Item.bytes, Item.string, toUtf8, List.nil_append, List.length_nil,
            Nat.zero_add, Kept]
          by_cases id : idKey <:+: msg
          · rw [stops keyless id]
            refine ⟨fun kept => ?_, fun lost written same => ?_⟩
            · rw [sent_eq_nil.mpr (kept.1 id), List.append_nil]
            · cases same
              have some : sent items ≠ [] := fun empty =>
                lost ⟨fun _ => sent_eq_nil.mp empty, absurd id⟩
              have := List.length_pos_iff.mpr some
              omega
          · have goesOn : runMessages later
                (msg :: (items.map Item.bytes ++ [response])) out =
                runMessages later (items.map Item.bytes ++ [response]) out := by
              rw [runMessages, extract_of_keyless keyless]
              exact if_neg fun found =>
                id ((find_isSome_iff idKey_ne_nil msg).mp found)
            rw [goesOn]
            refine ⟨fun kept => (induction out).1 (kept.2 id), fun lost => ?_⟩
            exact (induction out).2 fun kept =>
              lost ⟨fun found => absurd found id, fun _ => kept⟩

theorem Sends.opcode_lt {partly : Option Bytes} {frames : List Frame}
    {msgs : List Bytes} (sends : Sends partly frames msgs) :
    ∀ frame ∈ frames, frame.opcode < 16 := by
  induction sends with
  | nil =>
      intro frame member
      cases member
  | control control nibble next induction =>
      exact List.forall_mem_cons.mpr ⟨nibble, induction⟩
  | whole next induction =>
      exact List.forall_mem_cons.mpr ⟨show 1 < 16 by decide, induction⟩
  | first next induction =>
      exact List.forall_mem_cons.mpr ⟨show 1 < 16 by decide, induction⟩
  | more next induction =>
      exact List.forall_mem_cons.mpr ⟨show 0 < 16 by decide, induction⟩
  | last next induction =>
      exact List.forall_mem_cons.mpr ⟨show 0 < 16 by decide, induction⟩

namespace Session

variable (session : Session) (tail : Bytes)

def stream : Bytes :=
  session.frames.flatMap frameBytes ++ tail

theorem snapshot_eq : snapshot (session.stream tail) =
    runMessages (snapshotLoop (readFrames tail) [])
      (session.items.map Item.bytes ++ [session.response]) [] := by
  rw [snapshot, stream, readFrames_append fun frame member =>
    ⟨session.sends.opcode_lt frame member, session.fits frame member⟩]
  exact snapshotLoop_of_sends session.sends (readFrames tail) []

theorem snapshot_of_kept (kept : Kept session.items) :
    snapshot (session.stream tail) = .ok (sent session.items) := by
  rw [snapshot_eq]
  exact (runMessages_items session.responds session.items []).1 kept

theorem snapshot_of_not_kept (lost : ¬ Kept session.items) :
    snapshot (session.stream tail) ≠ .ok (sent session.items) := by
  rw [snapshot_eq]
  intro same
  have short := (runMessages_items session.responds session.items []).2 lost _
    same
  rw [List.length_nil] at short
  omega

/-- The snapshot is the strings sent, in UTF-8, exactly if none that is read
has a lone high surrogate and those after another message with `"id":1` are
empty. -/
theorem snapshot_iff :
    snapshot (session.stream tail) = .ok (sent session.items) ↔
      Kept session.items := by
  constructor
  · intro same
    by_contra lost
    exact session.snapshot_of_not_kept tail lost same
  · exact session.snapshot_of_kept tail

end Session

/-- What stands before the chunk in the messages of V8. -/
def messageHead : Bytes :=
  "\x7b\"method\":\"HeapProfiler.addHeapSnapshotChunk\",\"params\":\x7b".toUTF8.data.toList

def v8Message (tokens : List Token) : Bytes :=
  messageHead ++ (chunkKey ++ ([58] ++ 34 :: (textOf tokens ++ 34 :: [125, 125])))

theorem v8Message_isChunk (tokens : List Token) :
    IsChunk tokens (v8Message tokens) := by
  refine ⟨messageHead, [58], [125, 125], rfl, fun i inside starts => ?_,
    by decide⟩
  have apart : ∀ i < messageHead.length,
      ((messageHead ++ chunkKey).drop i).take 7 ≠ chunkKey := by
    decide
  refine apart i inside ?_
  have taken := List.prefix_iff_eq_take.mp starts
  rw [v8Message, ← List.append_assoc, List.drop_append_of_le_length,
    List.take_append_of_le_length] at taken
  · exact taken.symm
  · rw [List.length_drop, List.length_append]
    change 7 ≤ _ + 7 - i
    omega
  · rw [List.length_append]
    omega

/-- The string U+D83D, "A": a high surrogate without a low one. -/
def mismatched : List Token :=
  [.unicode ⟨100, 13, rfl⟩ ⟨56, 8, rfl⟩ ⟨51, 3, rfl⟩ ⟨100, 13, rfl⟩,
    .unicode ⟨48, 0, rfl⟩ ⟨48, 0, rfl⟩ ⟨52, 4, rfl⟩ ⟨49, 1, rfl⟩]

/-- The response `{"id":1}` to the request. -/
def response : Bytes := 123 :: (idKey ++ [125])

theorem response_responds : idKey <:+: response ∧ ¬ chunkKey <:+: response := by
  rw [← find_isSome_iff idKey_ne_nil, ← find_isSome_iff chunkKey_ne_nil]
  decide

theorem mismatched_fits : ∀ frame ∈ [(⟨true, 1, v8Message mismatched⟩ : Frame),
    ⟨true, 1, response⟩], frame.payload.length ≤ maxFrame := by
  decide

def mismatchedSession : Session where
  items := [.chunk mismatched (v8Message mismatched)
    (v8Message_isChunk mismatched)]
  response := response
  responds := response_responds
  frames := [⟨true, 1, v8Message mismatched⟩, ⟨true, 1, response⟩]
  sends := .whole (.whole .nil)
  fits := mismatched_fits

/-- The unescaping of U+D83D and "A" panics. -/
theorem not_snapshot :
    ¬ ∀ (session : Session) (tail : Bytes),
      snapshot (session.stream tail) = .ok (sent session.items) := by
  intro always
  refine mismatchedSession.snapshot_of_not_kept [] (fun kept => ?_)
    (always mismatchedSession [])
  have low := kept.1.1 (by decide)
  revert low
  decide

end Sismo.V8
