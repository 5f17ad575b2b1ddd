import Sismo.Proto.SismoConfig

namespace Sismo.Proto

/-! The fields of a message, read part by part. -/

def numbersOf (number : FieldNumber) (tree : List Write) : List UInt64 :=
  (tree.map Write.item).filterMap (varint number)

def payloadsOf (number : FieldNumber) (tree : List Write) : List Bytes :=
  (tree.map Write.item).filterMap (payload number)

section

variable (number other : FieldNumber)

theorem lastVarint_items (tree : List Write) :
    lastVarint number (tree.map Write.item) =
      (numbersOf number tree).getLast?.getD 0 :=
  rfl

theorem submessages_items {α : Type}
    (decode : List (UInt32 × WireValue) → Option α) (tree : List Write) :
    submessages decode number (tree.map Write.item) =
      (payloadsOf number tree).mapM fun bytes =>
        (messageItems bytes).bind decode :=
  rfl

theorem numbersOf_nil : numbersOf number [] = [] :=
  rfl

theorem numbersOf_append (front back : List Write) :
    numbersOf number (front ++ back) =
      numbersOf number front ++ numbersOf number back := by
  rw [numbersOf, List.map_append, List.filterMap_append]
  rfl

theorem payloadsOf_nil : payloadsOf number [] = [] :=
  rfl

theorem payloadsOf_append (front back : List Write) :
    payloadsOf number (front ++ back) =
      payloadsOf number front ++ payloadsOf number back := by
  rw [payloadsOf, List.map_append, List.filterMap_append]
  rfl

theorem submessages_parts {α β : Type} {part : α → List Write}
    {decode : List (UInt32 × WireValue) → Option β} {means : α → β}
    {tree : List Write} {list : List α} {number : FieldNumber} (how : Nesting)
    (short : (encodeAll tree).length < 2 ^ 35)
    (parts : payloadsOf number tree = list.map fun a => encodeAll (part a))
    (member : ∀ a ∈ list, .nested how number (part a) ∈ tree)
    (decodes : ∀ a ∈ list, (encodeAll (part a)).length < 2 ^ 35 →
      decode ((part a).map Write.item) = some (means a)) :
    submessages decode number (tree.map Write.item) =
      some (list.map means) := by
  rw [submessages_items, parts]
  refine mapM_encodeAll list fun a among => ?_
  have inner := part_short short (member a among)
  rw [messageItems_of_length inner, Option.bind_some, decodes a among inner]

/-! One write before others. -/

variable (value : UInt64) (word : UInt32) (bytes : Bytes) (how : Nesting)
  (body rest : List Write)

theorem numbersOf_uint64 :
    numbersOf number (.uint64 other value :: rest) =
      if other.val = number.val then value :: numbersOf number rest
      else numbersOf number rest := by
  rw [numbersOf, List.map_cons, List.filterMap_cons, Write.item, varint]
  split_ifs
  · rfl
  · rfl

theorem numbersOf_uint32 :
    numbersOf number (.uint32 other word :: rest) =
      if other.val = number.val then word.toUInt64 :: numbersOf number rest
      else numbersOf number rest :=
  numbersOf_uint64 number other word.toUInt64 rest

theorem numbersOf_int64 (number64 : Int64) :
    numbersOf number (.int64 other number64 :: rest) =
      if other.val = number.val then
        number64.toUInt64 :: numbersOf number rest
      else numbersOf number rest :=
  numbersOf_uint64 number other number64.toUInt64 rest

theorem numbersOf_int32 (number32 : Int32) :
    numbersOf number (.int32 other number32 :: rest) =
      if other.val = number.val then
        number32.toUInt32.toUInt64 :: numbersOf number rest
      else numbersOf number rest :=
  numbersOf_uint64 number other number32.toUInt32.toUInt64 rest

theorem payloadsOf_int64 (number64 : Int64) :
    payloadsOf number (.int64 other number64 :: rest) =
      payloadsOf number rest :=
  rfl

theorem payloadsOf_int32 (number32 : Int32) :
    payloadsOf number (.int32 other number32 :: rest) =
      payloadsOf number rest :=
  rfl

theorem numbersOf_string :
    numbersOf number (.string other bytes :: rest) = numbersOf number rest :=
  rfl

theorem numbersOf_nested :
    numbersOf number (.nested how other body :: rest) =
      numbersOf number rest :=
  rfl

theorem payloadsOf_uint64 :
    payloadsOf number (.uint64 other value :: rest) = payloadsOf number rest :=
  rfl

theorem payloadsOf_uint32 :
    payloadsOf number (.uint32 other word :: rest) = payloadsOf number rest :=
  rfl

theorem payloadsOf_string :
    payloadsOf number (.string other bytes :: rest) =
      if other.val = number.val then bytes :: payloadsOf number rest
      else payloadsOf number rest := by
  rw [payloadsOf, List.map_cons, List.filterMap_cons, Write.item, payload]
  split_ifs
  · rfl
  · rfl

theorem payloadsOf_nested :
    payloadsOf number (.nested how other body :: rest) =
      if other.val = number.val then encodeAll body :: payloadsOf number rest
      else payloadsOf number rest :=
  payloadsOf_string number other (encodeAll body) rest

/-! A field that is left out when it is zero, and a repeated one. -/

theorem numbersOf_unlessZero :
    numbersOf number (fieldIf (value ≠ 0) (.uint64 other value)) =
      if other.val = number.val ∧ value ≠ 0 then [value] else [] := by
  by_cases zero : value = 0
  · simp [fieldIf, zero, numbersOf_nil]
  · simp [fieldIf, zero, numbersOf_uint64, numbersOf_nil]

theorem payloadsOf_unlessZero (present : Prop) [Decidable present] :
    payloadsOf number (fieldIf present (.uint64 other value)) = [] := by
  unfold fieldIf
  split
  · rfl
  · rfl

theorem numbersOf_fieldIf (present : Prop) [Decidable present] (write : Write) :
    numbersOf number (fieldIf present write) =
      if present then numbersOf number [write] else [] := by
  unfold fieldIf
  split
  · rfl
  · rfl

theorem payloadsOf_fieldIf (present : Prop) [Decidable present]
    (write : Write) :
    payloadsOf number (fieldIf present write) =
      if present then payloadsOf number [write] else [] := by
  unfold fieldIf
  split
  · rfl
  · rfl

theorem numbersOf_nestedEach {α : Type} (tree : α → List Write)
    (list : List α) : numbersOf number (nestedEach other tree list) = [] := by
  induction list with
  | nil => rfl
  | cons a rest induction => exact induction

theorem payloadsOf_nestedEach {α : Type} (tree : α → List Write)
    (list : List α) :
    payloadsOf number (nestedEach number tree list) =
      list.map fun a => encodeAll (tree a) :=
  filterMap_payload_nestedEach number tree list

theorem payloadsOf_nestedEach_other {α : Type} {number other : FieldNumber}
    (distinct : number.val ≠ other.val) (tree : α → List Write)
    (list : List α) : payloadsOf number (nestedEach other tree list) = [] :=
  filterMap_payload_other other tree distinct list

theorem numbersOf_repeated (values : List UInt64) :
    numbersOf number (values.map (.uint64 other)) =
      if other.val = number.val then values else [] := by
  induction values with
  | nil => simp [numbersOf_nil]
  | cons value rest induction =>
      rw [List.map_cons, numbersOf_uint64, induction]
      split_ifs
      · rfl
      · rfl

theorem payloadsOf_repeated (values : List UInt64) :
    payloadsOf number (values.map (.uint64 other)) = [] := by
  induction values with
  | nil => rfl
  | cons value rest induction =>
      rw [List.map_cons, payloadsOf_uint64, induction]

theorem numbersOf_strings (strings : List Bytes) :
    numbersOf number (strings.map (.string other)) = [] := by
  induction strings with
  | nil => rfl
  | cons string rest induction =>
      rw [List.map_cons, numbersOf_string, induction]

theorem payloadsOf_strings (strings : List Bytes) :
    payloadsOf number (strings.map (.string other)) =
      if other.val = number.val then strings else [] := by
  induction strings with
  | nil => simp [payloadsOf_nil]
  | cons string rest induction =>
      rw [List.map_cons, payloadsOf_string, induction]
      split_ifs
      · rfl
      · rfl

end

/-- A number that is left out when it is zero is read back. -/
theorem last_unlessZero (value : UInt64) :
    (if value ≠ 0 then [value] else []).getLast?.getD 0 = value := by
  by_cases zero : value = 0
  · simp [zero]
  · simp [zero]

end Sismo.Proto
