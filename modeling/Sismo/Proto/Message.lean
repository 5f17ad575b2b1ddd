import Sismo.Proto.RoundTrip

namespace Sismo.Proto

/-! One message as the list of its fields, and the fields of one number. -/

def messageItems (bytes : Bytes) : Option (List (UInt32 × WireValue)) :=
  if sized : bytes.length ≤ isizeMax then
    match ProtoReader.collect (.new bytes sized) with
    | .ok (items, last) => if last.pos = bytes.length then some items else none
    | .error _ => none
  else none

def varint (field : FieldNumber) :
    UInt32 × WireValue → Option UInt64
  | (number, .varint value) => if number = field.val then some value else none
  | _ => none

def payload (field : FieldNumber) : UInt32 × WireValue → Option Bytes
  | (number, .len bytes) => if number = field.val then some bytes else none
  | _ => none

/-- The last value of a number field, zero when it is missing. -/
def lastVarint (field : FieldNumber) (items : List (UInt32 × WireValue)) :
    UInt64 :=
  (items.filterMap (varint field)).getLast?.getD 0

def submessages {α : Type} (decode : List (UInt32 × WireValue) → Option α)
    (field : FieldNumber) (items : List (UInt32 × WireValue)) :
    Option (List α) :=
  (items.filterMap (payload field)).mapM fun bytes =>
    (messageItems bytes).bind decode

theorem messageItems_encodeAll {tree : List Write}
    (fits : PrefixFitsAll tree) (sized : (encodeAll tree).length ≤ isizeMax) :
    messageItems (encodeAll tree) = some (tree.map Write.item) := by
  obtain ⟨last, read, whole⟩ :=
    ProtoReader.collect_many sized (encodeAll_many tree fits sized)
  rw [messageItems, dif_pos sized, read]
  exact if_pos whole

theorem encodeAll_append (front back : List Write) :
    encodeAll (front ++ back) = encodeAll front ++ encodeAll back := by
  induction front with
  | nil => rfl
  | cons write rest induction =>
      rw [List.cons_append, encodeAll, encodeAll, induction, List.append_assoc]

theorem encode_length_le {tree : List Write} {write : Write}
    (member : write ∈ tree) :
    write.encode.length ≤ (encodeAll tree).length := by
  obtain ⟨front, back, rfl⟩ := List.append_of_mem member
  rw [encodeAll_append, encodeAll]
  simp only [List.length_append]
  omega

theorem tagBytes_length_pos (field : FieldNumber) (wire : Nat) :
    0 < (tagBytes field wire).length :=
  List.length_pos_of_ne_nil (Base128.minimal_numeral _).ne_nil

theorem encode_length_pos (write : Write) : 0 < write.encode.length := by
  cases write <;> unfold Write.encode <;> rw [List.length_append] <;>
    exact Nat.add_pos_left (tagBytes_length_pos _ _) _

theorem length_le_encodeAll (tree : List Write) :
    tree.length ≤ (encodeAll tree).length := by
  induction tree with
  | nil => exact Nat.zero_le _
  | cons write rest induction =>
      have := encode_length_pos write
      rw [encodeAll, List.length_append, List.length_cons]
      omega

theorem prefixFitsAll_iff {tree : List Write} :
    PrefixFitsAll tree ↔ ∀ write ∈ tree, write.PrefixFits := by
  induction tree with
  | nil => exact iff_of_true trivial nofun
  | cons write rest induction =>
      rw [PrefixFitsAll, induction, List.forall_mem_cons]

theorem body_length_le (how : Nesting) (field : FieldNumber)
    (body : List Write) :
    (encodeAll body).length ≤ (Write.nested how field body).encode.length := by
  unfold Write.encode
  simp only [List.length_append]
  omega

theorem part_length_le {tree body : List Write} {how : Nesting}
    {field : FieldNumber} (member : .nested how field body ∈ tree) :
    (encodeAll body).length ≤ (encodeAll tree).length :=
  (body_length_le how field body).trans (encode_length_le member)

theorem part_short {tree body : List Write} {how : Nesting}
    {field : FieldNumber} {limit : Nat}
    (short : (encodeAll tree).length < limit)
    (member : .nested how field body ∈ tree) :
    (encodeAll body).length < limit :=
  Nat.lt_of_le_of_lt (part_length_le member) short

mutual

/-- No part of a short tree is too long for its prefix. -/
theorem Write.prefixFits_of_length : (write : Write) →
    write.encode.length < 2 ^ 35 → write.PrefixFits
  | .uint64 _ _, _ => trivial
  | .uint32 _ _, _ => trivial
  | .int32 _ _, _ => trivial
  | .int64 _ _, _ => trivial
  | .string _ _, _ => trivial
  | .nested how field body, short => by
      have inner : (encodeAll body).length < 2 ^ 35 :=
        Nat.lt_of_le_of_lt (body_length_le how field body) short
      have fits := prefixFitsAll_of_length body inner
      cases how with
      | beginEnd => exact ⟨inner, fits⟩
      | message => exact ⟨inner, fits⟩
      | writeMessage => exact fits

theorem prefixFitsAll_of_length : (tree : List Write) →
    (encodeAll tree).length < 2 ^ 35 → PrefixFitsAll tree
  | [], _ => trivial
  | write :: rest, short => by
      rw [encodeAll, List.length_append] at short
      exact ⟨write.prefixFits_of_length (by omega),
        prefixFitsAll_of_length rest (by omega)⟩

end

/-- The fields of a short tree are read back from its bytes. -/
theorem messageItems_of_length {tree : List Write}
    (short : (encodeAll tree).length < 2 ^ 35) :
    messageItems (encodeAll tree) = some (tree.map Write.item) :=
  messageItems_encodeAll (prefixFitsAll_of_length tree short)
    (Nat.le_of_lt (Nat.lt_of_lt_of_le short (by decide)))

theorem applyAll_of_length {tree : List Write}
    (short : (encodeAll tree).length < 2 ^ 35) :
    ∃ w : ProtoWriter, applyAll tree .new = .ok w ∧ w.bytes = encodeAll tree := by
  obtain ⟨w, appended, applied⟩ | ⟨long, -⟩ :=
    ProtoWriter.extend_cases .new (encodeAll tree)
  · refine ⟨w, ?_, appended⟩
    rw [applyAll_eq tree (prefixFitsAll_of_length tree short), applied]
  · have long : isizeMax < 0 + (encodeAll tree).length := long
    unfold isizeMax at long
    omega

theorem applied_encodeAll {tree : List Write} {w : ProtoWriter}
    (short : (encodeAll tree).length < 2 ^ 35)
    (applied : applyAll tree .new = .ok w) : w.bytes = encodeAll tree := by
  obtain ⟨other, written, same⟩ := applyAll_of_length short
  cases written.symm.trans applied
  exact same

/-! Repeated sub-messages of one field among other writes. -/

section

variable {α β : Type} (field : FieldNumber) (tree : α → List Write)

def nestedEach (list : List α) : List Write :=
  list.map fun a => .nested .writeMessage field (tree a)

theorem filterMap_payload_nestedEach (list : List α) :
    ((nestedEach field tree list).map Write.item).filterMap (payload field) =
      list.map fun a => encodeAll (tree a) := by
  rw [nestedEach, List.map_map, List.filterMap_map, ← List.filterMap_eq_map]
  exact List.filterMap_congr fun a _ => if_pos rfl

theorem filterMap_payload_other {other : FieldNumber}
    (distinct : other.val ≠ field.val) (list : List α) :
    ((nestedEach field tree list).map Write.item).filterMap (payload other) =
      [] := by
  rw [List.filterMap_eq_nil_iff]
  intro item member
  rw [nestedEach, List.map_map] at member
  obtain ⟨a, _, rfl⟩ := List.mem_map.mp member
  exact if_neg distinct.symm

end

theorem mapM_encodeAll {α β : Type} {tree : α → List Write}
    {decode : List (UInt32 × WireValue) → Option β} {means : α → β}
    (list : List α)
    (decodes : ∀ a ∈ list, (messageItems (encodeAll (tree a))).bind decode =
      some (means a)) :
    (list.map fun a => encodeAll (tree a)).mapM
      (fun bytes => (messageItems bytes).bind decode) =
      some (list.map means) := by
  induction list with
  | nil => rfl
  | cons a rest induction =>
      rw [List.map_cons, List.mapM_cons, decodes a List.mem_cons_self,
        Option.bind_eq_bind, Option.bind_some,
        induction fun b member => decodes b (List.mem_cons_of_mem a member)]
      rfl

end Sismo.Proto
