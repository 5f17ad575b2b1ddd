import Sismo.Proto.Message

namespace Sismo.Proto

/-! Whole slices: what a writer returns, and loops over the fields of one. -/

open Base128 Format

/-- The bytes that a vector or a slice can hold. -/
abbrev Slice := { bytes : Bytes // bytes.length ≤ isizeMax }

def ProtoWriter.toVec (w : ProtoWriter) : Slice := ⟨w.bytes, w.sized⟩

def encoded (tree : List Write) : Except Panic Slice := do
  let w ← applyAll tree .new
  .ok w.toVec

namespace ProtoReader

def ofSlice (bytes : Slice) : ProtoReader := .new bytes.val bytes.property

variable {α σ : Type}

/-- The first answer of `f` to a field; the fields behind it are not read. -/
def findMap (f : UInt32 × WireValue → Option α) (r : ProtoReader) :
    Except Panic (Option α) :=
  match _read : next r with
  | .error panic => .error panic
  | .ok (none, _) => .ok none
  | .ok (some item, later) =>
      match f item with
      | some a => .ok (some a)
      | none => findMap f later
termination_by r.buf.length - r.pos
decreasing_by
  obtain ⟨same, forward⟩ := next_progress _read
  have bounded := later.bounded
  rw [same] at bounded ⊢
  omega

theorem findMap_ended {f : UInt32 × WireValue → Option α}
    {r later : ProtoReader} (read : next r = .ok (none, later)) :
    findMap f r = .ok none := by
  rw [findMap]
  split
  · next read' => rw [read] at read'; cases read'
  · rfl
  · next read' => rw [read] at read'; cases read'

theorem findMap_item {f : UInt32 × WireValue → Option α}
    {r later : ProtoReader} {item : UInt32 × WireValue}
    (read : next r = .ok (some item, later)) :
    findMap f r = match f item with
      | some a => .ok (some a)
      | none => findMap f later := by
  rw [findMap]
  split
  · next read' => rw [read] at read'; cases read'
  · next read' => rw [read] at read'; cases read'
  · next read' => rw [read] at read'; cases read'; rfl

/-- What the loop finds among the fields that iteration yields. -/
theorem findMap_eq (f : UInt32 × WireValue → Option α) (r : ProtoReader)
    {items : List (UInt32 × WireValue)} {last : ProtoReader}
    (whole : collect r = .ok (items, last)) :
    findMap f r = .ok (items.findSome? f) := by
  induction r using collect.induct generalizing items last with
  | case1 r panic read =>
      obtain ⟨answer, later, read', -⟩ := satisfies_next r
      rw [read] at read'
      cases read'
  | case2 r later read =>
      rw [collect_ended read] at whole
      cases whole
      exact findMap_ended read
  | case3 r item later read panic failed =>
      obtain ⟨items', last', tail, read', -⟩ := collect_reads later
      rw [failed] at read'
      cases read'
  | case4 r item later read items' last' rest induction =>
      rw [collect_item read rest] at whole
      cases whole
      rw [findMap_item read, List.findSome?_cons]
      cases f item with
      | some a => rfl
      | none => exact induction rest

def visit (f : σ → UInt32 → UInt64 → σ) (state : σ) :
    UInt32 × WireValue → σ
  | (field, .varint v) => f state field v
  | _ => state

/-- The loop over the number fields; the others are skipped. -/
def eachVarintField (f : σ → UInt32 → UInt64 → σ) (state : σ)
    (bytes : Slice) : Except Panic σ := do
  let (items, _) ← collect (ofSlice bytes)
  .ok (items.foldl (visit f) state)

def payloads (field : FieldNumber) (bytes : Slice) :
    Except Panic (List Bytes) := do
  let (items, _) ← collect (ofSlice bytes)
  .ok (items.filterMap (payload field))

end ProtoReader

/-! The fields of a slice. -/

/-- The slice is the fields, one after another. -/
def HasFields (bytes : Slice) (items : List (UInt32 × WireValue)) : Prop :=
  Many fieldFormat bytes.val items []

/-- The fields of the first slice, between fields of other numbers and any
wire type that the reader knows. -/
def Interleaved (numbers : List UInt32) (bytes mixed : Slice) : Prop :=
  ∃ items others, HasFields bytes items ∧ HasFields mixed others ∧
    others.filter (fun item => item.1 ∈ numbers) = items

theorem HasFields.unique {bytes : Slice}
    {items items' : List (UInt32 × WireValue)} (fields : HasFields bytes items)
    (fields' : HasFields bytes items') : items = items' :=
  (Many.unique unambiguous_field fields absent_nil fields' absent_nil).1

theorem HasFields.collect {bytes : Slice}
    {items : List (UInt32 × WireValue)} (fields : HasFields bytes items) :
    ∃ last, ProtoReader.collect (.ofSlice bytes) = .ok (items, last) := by
  obtain ⟨last, read, -⟩ := ProtoReader.collect_many bytes.property fields
  exact ⟨last, read⟩

theorem HasFields.findMap {α : Type} {bytes : Slice}
    {items : List (UInt32 × WireValue)} (fields : HasFields bytes items)
    (f : UInt32 × WireValue → Option α) :
    ProtoReader.findMap f (.ofSlice bytes) = .ok (items.findSome? f) := by
  obtain ⟨last, read⟩ := fields.collect
  exact ProtoReader.findMap_eq f _ read

theorem HasFields.payloads {bytes : Slice}
    {items : List (UInt32 × WireValue)} (fields : HasFields bytes items)
    (field : FieldNumber) :
    ProtoReader.payloads field bytes =
      .ok (items.filterMap (payload field)) := by
  obtain ⟨last, read⟩ := fields.collect
  rw [ProtoReader.payloads, read]
  rfl

/-- A tree of writes is read back as its fields, or does not fit a vector. -/
theorem encoded_cases {tree : List Write} (fits : PrefixFitsAll tree) :
    (∃ bytes : Slice, encoded tree = .ok bytes ∧ bytes.val = encodeAll tree ∧
      HasFields bytes (tree.map Write.item)) ∨
      isizeMax < (encodeAll tree).length ∧
        encoded tree = .error .capacity := by
  unfold encoded
  rw [applyAll_eq tree fits]
  obtain ⟨w, whole, written⟩ | ⟨long, full⟩ :=
    ProtoWriter.extend_cases .new (encodeAll tree)
  · have whole : w.bytes = encodeAll tree := whole
    have many := encodeAll_many tree fits (whole ▸ w.sized)
    rw [written]
    refine .inl ⟨w.toVec, rfl, whole, ?_⟩
    unfold HasFields
    rw [show w.toVec.val = encodeAll tree from whole]
    exact many
  · have long : isizeMax < 0 + (encodeAll tree).length := long
    rw [full]
    exact .inr ⟨by omega, rfl⟩

/-- The loops end without a panic on every slice. -/
theorem collect_total (bytes : Slice) :
    ∃ items last,
      ProtoReader.collect (.ofSlice bytes) = .ok (items, last) := by
  obtain ⟨items, last, -, read, -⟩ :=
    ProtoReader.collect_reads (.ofSlice bytes)
  exact ⟨items, last, read⟩

end Sismo.Proto
