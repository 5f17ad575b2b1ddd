import Sismo.Proto.Parts

namespace Sismo.Proto.VmProgram

/-! The bytecode of the programs that mirror process trees into a trace
buffer. -/

structure PathComponent where
  fieldId : Option UInt32 := none
  arrayIndex : Option UInt32 := none
  mapKeyFieldId : Option UInt32 := none
  isRepeated : Bool := false
  registerToMatch : Option UInt32 := none
  storeForeachIndexIntoRegister : Option UInt32 := none
  deriving DecidableEq, Repr

structure Select where
  cursor : UInt32
  relativePath : List PathComponent
  createIfNotExist : Bool
  deriving DecidableEq, Repr

inductive Op where
  | select (select : Select)
  | regLoad (cursor dstRegister : UInt32)
  | merge (skipSubmessages : Bool)
  | set
  | del
  deriving DecidableEq, Repr

inductive Instruction where
  | mk (op : Op) (abortLevel : UInt32) (nested : List Instruction)

/-! ### The encoders -/

def optional (number : FieldNumber) (value : Option UInt32) : List Write :=
  value.toList.map (.uint32 number)

def flag (number : FieldNumber) (value : Bool) : List Write :=
  fieldIf (value = true) (.uint32 number 1)

def unlessZero (number : FieldNumber) (value : UInt32) : List Write :=
  fieldIf (value ≠ 0) (.uint32 number value)

def PathComponent.writes (component : PathComponent) : List Write :=
  optional (field 1) component.fieldId ++
    (optional (field 2) component.arrayIndex ++
      (optional (field 3) component.mapKeyFieldId ++
        (flag (field 5) component.isRepeated ++
          (optional (field 6) component.registerToMatch ++
            optional (field 7) component.storeForeachIndexIntoRegister))))

def Select.writes (select : Select) : List Write :=
  unlessZero (field 1) select.cursor ++
    (nestedEach (field 2) PathComponent.writes select.relativePath ++
      flag (field 3) select.createIfNotExist)

def Op.write : Op → Write
  | .select s => .nested .writeMessage (field 1) s.writes
  | .regLoad cursor dstRegister =>
      .nested .writeMessage (field 2)
        (unlessZero (field 1) cursor ++ [.uint32 (field 2) dstRegister])
  | .merge skipSubmessages =>
      .nested .writeMessage (field 3) (flag (field 1) skipSubmessages)
  | .set => .nested .writeMessage (field 4) []
  | .del => .nested .writeMessage (field 5) []

mutual

def Instruction.writes : Instruction → List Write
  | .mk op abortLevel nested =>
      op.write :: (unlessZero (field 6) abortLevel ++ nestedWrites nested)

def nestedWrites : List Instruction → List Write
  | [] => []
  | instruction :: rest =>
      .nested .writeMessage (field 7) instruction.writes :: nestedWrites rest

end

/-- `encode_vm_program`. -/
def programWrites (version : UInt32) (instructions : List Instruction) :
    List Write :=
  unlessZero (field 1) version ++
    nestedEach (field 2) Instruction.writes instructions

/-! ### The reader -/

def readOptional (number : FieldNumber) (items : List (UInt32 × WireValue)) :
    Option UInt32 :=
  (items.filterMap (varint number)).getLast?.map UInt64.toUInt32

def readFlag (number : FieldNumber) (items : List (UInt32 × WireValue)) :
    Bool :=
  lastVarint number items ≠ 0

def readWord (number : FieldNumber) (items : List (UInt32 × WireValue)) :
    UInt32 :=
  (lastVarint number items).toUInt32

def readComponent (items : List (UInt32 × WireValue)) :
    Option PathComponent :=
  some
    { fieldId := readOptional (field 1) items
      arrayIndex := readOptional (field 2) items
      mapKeyFieldId := readOptional (field 3) items
      isRepeated := readFlag (field 5) items
      registerToMatch := readOptional (field 6) items
      storeForeachIndexIntoRegister := readOptional (field 7) items }

def readSelect (items : List (UInt32 × WireValue)) : Option Select := do
  let relativePath ← submessages readComponent (field 2) items
  some
    { cursor := readWord (field 1) items
      relativePath := relativePath
      createIfNotExist := readFlag (field 3) items }

def readRegLoad (items : List (UInt32 × WireValue)) : Option Op :=
  some (.regLoad (readWord (field 1) items) (readWord (field 2) items))

def readMerge (items : List (UInt32 × WireValue)) : Option Op :=
  some (.merge (readFlag (field 1) items))

/-- One of the kinds of operation, by the number of its field. -/
def readOp (items : List (UInt32 × WireValue)) : Option Op := do
  let selects ← submessages (fun items => (readSelect items).map .select)
    (field 1) items
  let regLoads ← submessages readRegLoad (field 2) items
  let merges ← submessages readMerge (field 3) items
  let sets ← submessages (fun _ => some .set) (field 4) items
  let dels ← submessages (fun _ => some .del) (field 5) items
  (selects ++ regLoads ++ merges ++ sets ++ dels).getLast?

/-- The fuel bounds how deep instructions are nested. -/
def readInstruction : (fuel : Nat) → List (UInt32 × WireValue) →
    Option Instruction
  | 0, _ => none
  | fuel + 1, items => do
      let op ← readOp items
      let nested ← submessages (readInstruction fuel) (field 7) items
      some (.mk op (readWord (field 6) items) nested)

/-- Instructions are nested no deeper than there are bytes. -/
def readProgram (bytes : Bytes) : Option (UInt32 × List Instruction) := do
  let items ← messageItems bytes
  let instructions ← submessages (readInstruction bytes.length) (field 2) items
  some (readWord (field 1) items, instructions)

/-! ### Programs are read back -/

section

variable (number other : FieldNumber) (tree : List Write)

theorem readOptional_items :
    readOptional number (tree.map Write.item) =
      (numbersOf number tree).getLast?.map UInt64.toUInt32 :=
  rfl

theorem readWord_items :
    readWord number (tree.map Write.item) =
      ((numbersOf number tree).getLast?.getD 0).toUInt32 :=
  rfl

theorem readFlag_items :
    readFlag number (tree.map Write.item) =
      decide ((numbersOf number tree).getLast?.getD 0 ≠ 0) :=
  rfl

variable (value : Option UInt32) (present : Bool) (word : UInt32)

theorem numbersOf_optional :
    numbersOf number (optional other value) =
      if other.val = number.val then value.toList.map UInt32.toUInt64
      else [] := by
  cases value with
  | none => simp [optional, numbersOf_nil]
  | some value =>
      rw [optional, Option.toList_some, List.map_singleton, numbersOf_uint32]
      rfl

theorem numbersOf_flag :
    numbersOf number (flag other present) =
      if other.val = number.val ∧ present = true then [1] else [] := by
  cases present with
  | false => simp [flag, fieldIf, numbersOf_nil]
  | true =>
      rw [flag, fieldIf, if_pos rfl, numbersOf_uint32]
      simp [numbersOf_nil]

theorem numbersOf_word :
    numbersOf number (unlessZero other word) =
      if other.val = number.val ∧ word ≠ 0 then [word.toUInt64] else [] := by
  by_cases zero : word = 0
  · simp [unlessZero, fieldIf, zero, numbersOf_nil]
  · simp [unlessZero, fieldIf, zero, numbersOf_uint32, numbersOf_nil]

theorem last_optional :
    (value.toList.map UInt32.toUInt64).getLast?.map UInt64.toUInt32 =
      value := by
  cases value with
  | none => rfl
  | some value => simp

theorem last_word :
    ((if word ≠ 0 then [word.toUInt64] else []).getLast?.getD 0).toUInt32 =
      word := by
  by_cases zero : word = 0
  · simp [zero]
  · simp [zero]

theorem last_flag :
    decide ((if present = true then [1] else []).getLast?.getD (0 : UInt64) ≠
      0) = present := by
  cases present with
  | false => rfl
  | true => rfl

end

theorem readComponent_writes (component : PathComponent) :
    readComponent (component.writes.map Write.item) = some component := by
  simp +decide only [readComponent, readOptional_items, readFlag_items,
    PathComponent.writes, numbersOf_append, numbersOf_optional, numbersOf_flag,
    if_true, if_false, true_and, false_and, List.append_nil, List.nil_append,
    last_optional, last_flag]

section

variable (number other : FieldNumber) (value : Option UInt32)
  (present : Bool) (word : UInt32)

theorem payloadsOf_flag : payloadsOf number (flag other present) = [] := by
  cases present with
  | false => rfl
  | true => rfl

theorem payloadsOf_word : payloadsOf number (unlessZero other word) = [] := by
  by_cases zero : word = 0
  · simp [unlessZero, fieldIf, zero, payloadsOf_nil]
  · simp [unlessZero, fieldIf, zero, payloadsOf_uint32, payloadsOf_nil]

theorem numbersOf_nestedEach {α : Type} (tree : α → List Write)
    (list : List α) : numbersOf number (nestedEach other tree list) = [] := by
  induction list with
  | nil => rfl
  | cons a rest induction => exact induction

end

theorem readSelect_writes (select : Select)
    (short : (encodeAll select.writes).length < 2 ^ 35) :
    readSelect (select.writes.map Write.item) = some select := by
  have payloads : payloadsOf (field 2) select.writes =
      select.relativePath.map fun component =>
        encodeAll component.writes := by
    rw [Select.writes, payloadsOf_append, payloadsOf_append, payloadsOf_word,
      payloadsOf_flag, List.nil_append, List.append_nil]
    exact filterMap_payload_nestedEach (field 2) PathComponent.writes
      select.relativePath
  have path : submessages readComponent (field 2)
      (select.writes.map Write.item) = some select.relativePath := by
    refine (submessages_parts .writeMessage short payloads ?_ ?_).trans
      (congrArg some (List.map_id _))
    · intro component member
      exact List.mem_append_right _ (List.mem_append_left _
        (List.mem_map_of_mem member))
    · intro component _ _
      exact readComponent_writes component
  rw [readSelect, path]
  simp +decide only [readWord_items, readFlag_items, Select.writes,
    numbersOf_append, numbersOf_word, numbersOf_flag, numbersOf_nestedEach,
    true_and, false_and, if_false, List.append_nil, List.nil_append, last_word,
    last_flag, Option.bind_eq_bind, Option.bind_some]

def Op.field : Op → FieldNumber
  | .select _ => Proto.field 1
  | .regLoad _ _ => Proto.field 2
  | .merge _ => Proto.field 3
  | .set => Proto.field 4
  | .del => Proto.field 5

def Op.body : Op → List Write
  | .select s => s.writes
  | .regLoad cursor dstRegister =>
      unlessZero (Proto.field 1) cursor ++
        [.uint32 (Proto.field 2) dstRegister]
  | .merge skipSubmessages => flag (Proto.field 1) skipSubmessages
  | .set | .del => []

theorem Op.write_eq (op : Op) :
    op.write = .nested .writeMessage op.field op.body := by
  cases op with
  | select s => rfl
  | regLoad cursor dstRegister => rfl
  | merge skipSubmessages => rfl
  | set => rfl
  | del => rfl

theorem payloadsOf_nestedWrites (number : FieldNumber)
    (nested : List Instruction) :
    payloadsOf number (nestedWrites nested) =
      if (field 7).val = number.val then
        nested.map fun instruction => encodeAll instruction.writes
      else [] := by
  induction nested with
  | nil => simp [nestedWrites, payloadsOf_nil]
  | cons instruction rest induction =>
      rw [nestedWrites, payloadsOf_nested, induction]
      split_ifs
      · rfl
      · rfl

theorem numbersOf_nestedWrites (number : FieldNumber)
    (nested : List Instruction) :
    numbersOf number (nestedWrites nested) = [] := by
  induction nested with
  | nil => rfl
  | cons instruction rest induction =>
      rw [nestedWrites, numbersOf_nested, induction]

section

variable (op : Op) (abortLevel : UInt32) (nested : List Instruction)

theorem payloadsOf_instruction (number : FieldNumber) :
    payloadsOf number (Instruction.mk op abortLevel nested).writes =
      (if op.field.val = number.val then [encodeAll op.body] else []) ++
        if (field 7).val = number.val then
          nested.map fun instruction => encodeAll instruction.writes
        else [] := by
  rw [Instruction.writes, Op.write_eq, payloadsOf_nested, payloadsOf_append,
    payloadsOf_word, payloadsOf_nestedWrites]
  split_ifs
  · rfl
  · rfl
  · rfl
  · rfl

theorem numbersOf_instruction (number : FieldNumber) :
    numbersOf number (Instruction.mk op abortLevel nested).writes =
      if (field 6).val = number.val ∧ abortLevel ≠ 0 then
        [abortLevel.toUInt64] else [] := by
  rw [Instruction.writes, Op.write_eq, numbersOf_nested, numbersOf_append,
    numbersOf_word, numbersOf_nestedWrites, List.append_nil]

theorem readOp_writes
    (short : (encodeAll (Instruction.mk op abortLevel nested).writes).length <
      2 ^ 35) :
    readOp ((Instruction.mk op abortLevel nested).writes.map Write.item) =
      some op := by
  have inner : (encodeAll op.body).length < 2 ^ 35 := by
    have member : Write.nested .writeMessage op.field op.body ∈
        (Instruction.mk op abortLevel nested).writes := by
      rw [Instruction.writes, Op.write_eq]
      exact List.mem_cons_self
    exact part_short short member
  have items := messageItems_of_length inner
  rw [readOp]
  simp only [submessages_items, payloadsOf_instruction]
  cases op with
  | select s =>
      have reads : readSelect ((Op.select s).body.map Write.item) = some s :=
        readSelect_writes s inner
      simp +decide only [Op.field, if_true, if_false, List.append_nil,
        List.mapM_cons, List.mapM_nil, items, Option.bind_eq_bind,
        Option.bind_some, reads, Option.map_some]
      rfl
  | regLoad cursor dstRegister =>
      have cursorIs : readWord (field 1) ((Op.regLoad cursor
          dstRegister).body.map Write.item) = cursor := by
        simp +decide only [readWord_items, Op.body, numbersOf_append,
          numbersOf_word, numbersOf_uint32, numbersOf_nil, true_and, if_false,
          List.append_nil, last_word]
      have registerIs : readWord (field 2) ((Op.regLoad cursor
          dstRegister).body.map Write.item) = dstRegister := by
        simp +decide only [readWord_items, Op.body, numbersOf_append,
          numbersOf_word, numbersOf_uint32, numbersOf_nil, false_and, if_false,
          if_true, List.nil_append, List.getLast?_singleton, Option.getD_some,
          UInt32.toUInt32_toUInt64]
      simp +decide only [Op.field, if_true, if_false, List.append_nil,
        List.mapM_cons, List.mapM_nil, items, Option.bind_eq_bind,
        Option.bind_some, readRegLoad, cursorIs, registerIs]
      rfl
  | merge skipSubmessages =>
      have skips : readFlag (field 1) ((Op.merge skipSubmessages).body.map
          Write.item) = skipSubmessages := by
        simp only [readFlag_items, Op.body, numbersOf_flag, true_and, last_flag]
      simp +decide only [Op.field, if_true, if_false, List.append_nil,
        List.mapM_cons, List.mapM_nil, items, Option.bind_eq_bind,
        Option.bind_some, readMerge, skips]
      rfl
  | set =>
      simp +decide only [if_true, if_false, List.append_nil,
        List.mapM_cons, List.mapM_nil, items, Option.bind_eq_bind,
        Option.bind_some]
  | del =>
      simp +decide only [if_true, if_false, List.append_nil,
        List.mapM_cons, List.mapM_nil, items, Option.bind_eq_bind,
        Option.bind_some]

end

mutual

theorem readInstruction_writes : (instruction : Instruction) → (fuel : Nat) →
    (encodeAll instruction.writes).length < 2 ^ 35 →
    (encodeAll instruction.writes).length ≤ fuel →
    readInstruction fuel (instruction.writes.map Write.item) =
      some instruction
  | .mk op abortLevel nested, 0, _, enough => by
      -- The operation alone takes a byte.
      have positive := length_le_encodeAll
        (Instruction.mk op abortLevel nested).writes
      rw [Instruction.writes, List.length_cons] at positive
      rw [Instruction.writes] at enough
      omega
  | .mk op abortLevel nested, fuel + 1, short, enough => by
      have payloads : payloadsOf (field 7)
          (Instruction.mk op abortLevel nested).writes =
          nested.map fun instruction => encodeAll instruction.writes := by
        rw [payloadsOf_instruction, if_pos rfl]
        cases op with
        | select s => rfl
        | regLoad cursor dstRegister => rfl
        | merge skipSubmessages => rfl
        | set => rfl
        | del => rfl
      have level : readWord (field 6)
          ((Instruction.mk op abortLevel nested).writes.map Write.item) =
          abortLevel := by
        rw [readWord_items, numbersOf_instruction]
        simp only [true_and]
        exact last_word abortLevel
      have whole : (encodeAll (nestedWrites nested)).length <
          (encodeAll (Instruction.mk op abortLevel nested).writes).length := by
        have head := encode_length_pos op.write
        rw [Instruction.writes, encodeAll, encodeAll_append]
        simp only [List.length_append]
        omega
      have inner := readInstructions_writes nested fuel (by omega) (by omega)
      rw [readInstruction, readOp_writes op abortLevel nested short,
        submessages_items, payloads, level, inner]
      rfl

theorem readInstructions_writes : (nested : List Instruction) →
    (fuel : Nat) → (encodeAll (nestedWrites nested)).length < 2 ^ 35 →
    (encodeAll (nestedWrites nested)).length ≤ fuel →
    (nested.map fun instruction => encodeAll instruction.writes).mapM
      (fun bytes => (messageItems bytes).bind (readInstruction fuel)) =
      some nested
  | [], _, _, _ => rfl
  | instruction :: rest, fuel, short, enough => by
      rw [nestedWrites, encodeAll, List.length_append] at short enough
      have body := body_length_le .writeMessage (field 7) instruction.writes
      have items := messageItems_of_length
        (show (encodeAll instruction.writes).length < 2 ^ 35 by omega)
      have first := readInstruction_writes instruction fuel (by omega)
        (by omega)
      have others := readInstructions_writes rest fuel (by omega) (by omega)
      rw [List.map_cons, List.mapM_cons, items, Option.bind_some, first, others]
      rfl

end

/-- Any program is read back from its bytes, however deep its instructions are
nested. -/
theorem readProgram_encodeAll (version : UInt32)
    (instructions : List Instruction)
    (short : (encodeAll (programWrites version instructions)).length <
      2 ^ 35) :
    (∃ w : ProtoWriter, applyAll (programWrites version instructions) .new =
        .ok w ∧ w.bytes = encodeAll (programWrites version instructions)) ∧
      readProgram (encodeAll (programWrites version instructions)) =
        some (version, instructions) := by
  refine ⟨applyAll_of_length short, ?_⟩
  have payloads : payloadsOf (field 2) (programWrites version instructions) =
      instructions.map fun instruction => encodeAll instruction.writes := by
    rw [programWrites, payloadsOf_append, payloadsOf_word, List.nil_append]
    exact filterMap_payload_nestedEach (field 2) Instruction.writes
      instructions
  have versionIs : readWord (field 1)
      ((programWrites version instructions).map Write.item) = version := by
    rw [readWord_items, programWrites, numbersOf_append, numbersOf_word,
      numbersOf_nestedEach, List.append_nil]
    simp only [true_and]
    exact last_word version
  have decodes : ∀ instruction ∈ instructions,
      (messageItems (encodeAll instruction.writes)).bind
        (readInstruction
          (encodeAll (programWrites version instructions)).length) =
        some (id instruction) := by
    intro instruction member
    have member : Write.nested .writeMessage (field 2) instruction.writes ∈
        programWrites version instructions :=
      List.mem_append_right _ (List.mem_map_of_mem member)
    have inner := part_short short member
    rw [messageItems_of_length inner, Option.bind_some]
    exact readInstruction_writes instruction _ inner (part_length_le member)
  rw [readProgram, messageItems_of_length short, Option.bind_eq_bind,
    Option.bind_some, submessages_items, payloads,
    mapM_encodeAll instructions decodes, List.map_id, versionIs]
  rfl

/-! The program that mirrors the macOS process trees. -/

def cursorUnspecified : UInt32 := 0
def cursorDst : UInt32 := 2
def abortUnset : UInt32 := 0
def abortSkipCurrent : UInt32 := 1
def tpTree : UInt32 := 122

/-- For each element of a collection, its key is read into register 0 and the
element merged into the one with that key. -/
def makeBlock (collField keyField : UInt32) : Instruction :=
  .mk
    (.select
      { cursor := cursorUnspecified
        relativePath := [{ fieldId := some collField, isRepeated := true }]
        createIfNotExist := false })
    abortSkipCurrent
    [.mk
      (.select
        { cursor := cursorUnspecified
          relativePath := [{ fieldId := some keyField }]
          createIfNotExist := false })
      abortUnset [.mk (.regLoad cursorUnspecified 0) abortUnset []],
    .mk
      (.select
        { cursor := cursorDst
          relativePath :=
            [{ fieldId := some tpTree }, { fieldId := some collField },
              { mapKeyFieldId := some keyField, registerToMatch := some 0 }]
          createIfNotExist := true })
      abortUnset [.mk (.merge false) abortUnset []]]

def macosSchedVmProgram : List Instruction :=
  [.mk
    (.select
      { cursor := cursorUnspecified
        relativePath := [{ fieldId := some tpTree }]
        createIfNotExist := false })
    abortUnset [makeBlock 1 1, makeBlock 2 1]]

theorem macosSchedVmProgram_length :
    (encodeAll (programWrites 0 macosSchedVmProgram)).length = 112 := by
  simp +decide [programWrites, macosSchedVmProgram, makeBlock, nestedEach,
    Instruction.writes, nestedWrites, Op.write, Select.writes,
    PathComponent.writes, optional, flag, unlessZero, cursorUnspecified,
    cursorDst, abortUnset, abortSkipCurrent, tpTree, fieldIf, encodeAll,
    Write.encode, tagBytes, lengthBytes, Base128.minimal, field]

theorem readProgram_macosSched :
    readProgram (encodeAll (programWrites 0 macosSchedVmProgram)) =
      some (0, macosSchedVmProgram) :=
  (readProgram_encodeAll 0 macosSchedVmProgram
    (by rw [macosSchedVmProgram_length]; decide)).2

end Sismo.Proto.VmProgram
