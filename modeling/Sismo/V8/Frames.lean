import Sismo.Lib.LittleEndian
import Sismo.V8.Unescape

namespace Sismo.V8

/-! The WebSocket frames of the inspector, and the loop over them. -/

structure Frame where
  fin : Bool
  opcode : Nat
  payload : Bytes

inductive Error where
  | frameRead
  | closed

def maxFrame : Nat := 512 * 1024 * 1024

def beValue (bytes : Bytes) : Nat :=
  leValue bytes.reverse

def readExtended (size : Nat) (rest : Bytes) : Option (Nat × Bytes) :=
  if size ≤ rest.length then
    some (beValue (rest.take size), rest.drop size)
  else none

def readLength (len : Nat) (rest : Bytes) : Option (Nat × Bytes) :=
  if len = 126 then readExtended 2 rest
  else if len = 127 then readExtended 8 rest
  else some (len, rest)

/-- One frame of the server, and the bytes behind it: none where the read
fails. -/
def readFrame : Bytes → Option (Frame × Bytes)
  | h0 :: h1 :: rest =>
      match readLength (h1.toNat % 128) rest with
      | none => none
      | some (len, rest) =>
          if len ≤ maxFrame ∧ len ≤ rest.length then
            some (⟨128 ≤ h0.toNat, h0.toNat % 16, rest.take len⟩, rest.drop len)
          else none
  | _ => none

theorem readExtended_le {size len : Nat} {rest others : Bytes}
    (read : readExtended size rest = some (len, others)) :
    others.length ≤ rest.length := by
  obtain ⟨-, same⟩ := Option.ite_none_right_eq_some.mp read
  cases same
  rw [List.length_drop]
  exact Nat.sub_le _ _

theorem readLength_le {code len : Nat} {rest others : Bytes}
    (read : readLength code rest = some (len, others)) :
    others.length ≤ rest.length := by
  unfold readLength at read
  split at read
  · exact readExtended_le read
  · split at read
    · exact readExtended_le read
    · cases read
      exact Nat.le_refl _

theorem readFrame_lt {bytes rest : Bytes} {frame : Frame}
    (read : readFrame bytes = some (frame, rest)) :
    rest.length < bytes.length := by
  unfold readFrame at read
  split at read
  · next h0 h1 tail =>
      split at read
      · cases read
      · next len others length =>
          obtain ⟨-, same⟩ := Option.ite_none_right_eq_some.mp read
          cases same
          have := readLength_le length
          rw [List.length_drop, List.length_cons, List.length_cons]
          omega
  · cases read

def readFrames (bytes : Bytes) : List Frame :=
  match _read : readFrame bytes with
  | none => []
  | some (frame, rest) => frame :: readFrames rest
termination_by bytes.length
decreasing_by
  exact readFrame_lt _read

/-- The key `"chunk"`. -/
def chunkKey : Bytes := [34, 99, 104, 117, 110, 107, 34]

/-- The bytes `"id":1`. -/
def idKey : Bytes := [34, 105, 100, 34, 58, 49]

/-- The loop of `snapshot_over_ws`: the snapshot that is written, or an error.
Pings are answered, which changes nothing here. -/
def snapshotLoop : List Frame → (message out : Bytes) → Fallible Error Bytes
  | [], _, _ => .err .frameRead
  | frame :: frames, message, out =>
      if frame.opcode = 1 ∨ frame.opcode = 0 then
        let message := message ++ frame.payload
        if frame.fin then
          match extractJsonString message chunkKey with
          | .ok chunk => snapshotLoop frames [] (out ++ chunk)
          | .err _ =>
              if (find idKey message).isSome then .ok out
              else snapshotLoop frames [] out
          | .panics => .panics
        else snapshotLoop frames message out
      else if frame.opcode = 8 then .err .closed
      else snapshotLoop frames message out

def snapshot (bytes : Bytes) : Fallible Error Bytes :=
  snapshotLoop (readFrames bytes) [] []

/-! A server's frames as bytes. -/

/-- The length field, as short as it can be. -/
def lengthBytes (len : Nat) : Bytes :=
  if len < 126 then [UInt8.ofNat len]
  else if len < 0x10000 then 126 :: (leBytes 2 len).reverse
  else 127 :: (leBytes 8 len).reverse

def frameBytes (frame : Frame) : Bytes :=
  UInt8.ofNat ((if frame.fin then 128 else 0) + frame.opcode) ::
    (lengthBytes frame.payload.length ++ frame.payload)

theorem readExtended_append {size len : Nat} (small : len < 256 ^ size)
    (rest : Bytes) : readExtended size ((leBytes size len).reverse ++ rest) =
      some (len, rest) := by
  have length : ((leBytes size len).reverse).length = size := by
    rw [List.length_reverse, length_leBytes]
  rw [readExtended, if_pos, List.take_left' length, List.drop_left' length,
    beValue, List.reverse_reverse, leValue_leBytes small]
  rw [List.length_append, length]
  exact Nat.le_add_right _ _

/-- A frame is read as it was sent, if it is not too large. -/
theorem readFrame_append {frame : Frame} (small : frame.opcode < 16)
    (fits : frame.payload.length ≤ maxFrame) (rest : Bytes) :
    readFrame (frameBytes frame ++ rest) = some (frame, rest) := by
  have limit : maxFrame = 536870912 := rfl
  obtain ⟨fin, opcode, payload⟩ := frame
  dsimp only at small fits
  have first : (UInt8.ofNat ((if fin then 128 else 0) + opcode)).toNat =
      (if fin then 128 else 0) + opcode := by
    apply UInt8.toNat_ofNat_of_lt'
    cases fin
    · change 0 + opcode < 256
      omega
    · change 128 + opcode < 256
      omega
  have length : ∃ code tail, lengthBytes payload.length = code :: tail ∧
      readLength (code.toNat % 128) (tail ++ (payload ++ rest)) =
        some (payload.length, payload ++ rest) := by
    rw [lengthBytes]
    split
    · next short =>
        refine ⟨_, [], rfl, ?_⟩
        rw [UInt8.toNat_ofNat_of_lt' (show payload.length < 256 by omega),
          Nat.mod_eq_of_lt (by omega), readLength, if_neg (by omega),
          if_neg (by omega)]
        rfl
    · split
      · next medium =>
          refine ⟨126, _, rfl, (if_pos rfl).trans ?_⟩
          exact @readExtended_append 2 _ medium (payload ++ rest)
      · next long =>
          refine ⟨127, _, rfl, (if_neg (by decide)).trans
            ((if_pos rfl).trans ?_)⟩
          exact @readExtended_append 8 _ (by omega) (payload ++ rest)
  obtain ⟨code, tail, bytes, read⟩ := length
  have inside : payload.length ≤ (payload ++ rest).length := by
    rw [List.length_append]
    exact Nat.le_add_right _ _
  have whole : frameBytes ⟨fin, opcode, payload⟩ ++ rest =
      UInt8.ofNat ((if fin then 128 else 0) + opcode) :: code ::
        (tail ++ (payload ++ rest)) := by
    rw [frameBytes]
    dsimp only
    rw [bytes, List.cons_append, List.cons_append, List.cons_append,
      List.append_assoc]
  rw [whole, readFrame, read]
  dsimp only
  rw [if_pos ⟨fits, inside⟩, List.take_left, List.drop_left, first]
  cases fin
  · congr 3
    · exact decide_eq_false (by simp; omega)
    · change (0 + opcode) % 16 = opcode
      omega
  · congr 3
    · exact decide_eq_true (Nat.le_add_right 128 opcode)
    · change (128 + opcode) % 16 = opcode
      omega

theorem readFrames_append {frames : List Frame}
    (valid : ∀ frame ∈ frames,
      frame.opcode < 16 ∧ frame.payload.length ≤ maxFrame) (rest : Bytes) :
    readFrames (frames.flatMap frameBytes ++ rest) =
      frames ++ readFrames rest := by
  induction frames with
  | nil => rfl
  | cons frame frames induction =>
      rw [List.forall_mem_cons] at valid
      rw [List.flatMap_cons, List.append_assoc, readFrames]
      split
      · next fails =>
          rw [readFrame_append valid.1.1 valid.1.2] at fails
          cases fails
      · next found others read =>
          rw [readFrame_append valid.1.1 valid.1.2] at read
          cases read
          rw [induction valid.2]
          rfl

end Sismo.V8
