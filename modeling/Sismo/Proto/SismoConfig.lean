import Sismo.Proto.Slice

namespace Sismo.Proto

/-! The data-source configs, and the config bytes in a `DataSourceConfig`. -/

open Base128 Format ProtoReader

/-- A field number; 1 stands for numbers that are none. -/
def field (number : UInt32) : FieldNumber :=
  if valid : 1 ≤ number.toNat ∧ number.toNat < 2 ^ 29 then ⟨number, valid⟩
  else fieldOne

theorem field_val {number : UInt32}
    (valid : 1 ≤ number.toNat ∧ number.toNat < 2 ^ 29) :
    (field number).val = number :=
  congrArg Subtype.val (dif_pos valid : field number = ⟨number, valid⟩)

def dscSismoConfigField : FieldNumber := field 2000

/-- The first length-delimited field 2000. -/
def configExtract (dsc : Slice) : Except Panic (Option Bytes) :=
  findMap (payload dscSismoConfigField) (.ofSlice dsc)

/-! `sismo.macos_cpu_samples` -/

def cpuEncode (targetPid intervalUs : UInt32) : Except Panic Slice := do
  let w := ProtoWriter.new
  let w ← (if targetPid ≠ 0 then w.writeUint32 1 targetPid else .ok w)
  let w ← (if intervalUs ≠ 0 then w.writeUint32 2 intervalUs else .ok w)
  .ok w.toVec

def cpuField (state : UInt32 × UInt32) (field : UInt32) (val : UInt64) :
    UInt32 × UInt32 :=
  if field = 1 then { state with fst := val.toUInt32 }
  else if field = 2 then { state with snd := val.toUInt32 }
  else state

def cpuDecode (bytes : Slice) : Except Panic (UInt32 × UInt32) :=
  eachVarintField cpuField (0, 0) bytes

/-! `sismo.heap` -/

structure HeapConfig where
  targetPid : UInt32
  ringSizeBytes : UInt64
  sampleIntervalBytes : UInt64

def heapEncode (config : HeapConfig) : Except Panic Slice := do
  let w := ProtoWriter.new
  let w ← (
    if config.targetPid ≠ 0 then w.writeUint32 1 config.targetPid else .ok w)
  let w ← (
    if config.ringSizeBytes ≠ 0 then w.writeUint64 2 config.ringSizeBytes
    else .ok w)
  let w ← (
    if config.sampleIntervalBytes ≠ 0 then
      w.writeUint64 3 config.sampleIntervalBytes
    else .ok w)
  .ok w.toVec

def heapField (state : HeapConfig) (field : UInt32) (val : UInt64) :
    HeapConfig :=
  if field = 1 then { state with targetPid := val.toUInt32 }
  else if field = 2 then { state with ringSizeBytes := val }
  else if field = 3 then { state with sampleIntervalBytes := val }
  else state

def heapDecode (bytes : Slice) : Except Panic HeapConfig :=
  eachVarintField heapField ⟨0, 0, 0⟩ bytes

/-! `sismo.macos_sched` -/

structure SchedConfig where
  kernelBufferEvents : Int32
  targetPid : UInt32
  offcpuWaitThresholdUs : UInt32

def schedEncode (config : SchedConfig) : Except Panic Slice := do
  let w := ProtoWriter.new
  let w ← (
    if config.kernelBufferEvents ≠ 0 then
      w.writeUint64 1 config.kernelBufferEvents.toInt64.toUInt64
    else .ok w)
  let w ← (
    if config.targetPid ≠ 0 then w.writeUint32 2 config.targetPid else .ok w)
  let w ← (
    if config.offcpuWaitThresholdUs ≠ 0 then
      w.writeUint32 3 config.offcpuWaitThresholdUs
    else .ok w)
  .ok w.toVec

def schedField (state : SchedConfig) (field : UInt32) (val : UInt64) :
    SchedConfig :=
  if field = 1 then { state with kernelBufferEvents := val.toInt64.toInt32 }
  else if field = 2 then { state with targetPid := val.toUInt32 }
  else if field = 3 then { state with offcpuWaitThresholdUs := val.toUInt32 }
  else state

def schedDecode (bytes : Slice) : Except Panic SchedConfig :=
  eachVarintField schedField ⟨0, 0, 0⟩ bytes

/-! What the encoders write. -/

def fieldTwo : FieldNumber := field 2

def fieldThree : FieldNumber := field 3

def fieldIf (present : Prop) [Decidable present] (write : Write) : List Write :=
  if present then [write] else []

section

variable (heap : HeapConfig) (sched : SchedConfig)

def cpuWrites (targetPid intervalUs : UInt32) : List Write :=
  fieldIf (targetPid ≠ 0) (.uint32 fieldOne targetPid) ++
    fieldIf (intervalUs ≠ 0) (.uint32 fieldTwo intervalUs)

def heapWrites : List Write :=
  fieldIf (heap.targetPid ≠ 0) (.uint32 fieldOne heap.targetPid) ++
    (fieldIf (heap.ringSizeBytes ≠ 0) (.uint64 fieldTwo heap.ringSizeBytes) ++
      fieldIf (heap.sampleIntervalBytes ≠ 0)
        (.uint64 fieldThree heap.sampleIntervalBytes))

def schedWrites : List Write :=
  fieldIf (sched.kernelBufferEvents ≠ 0)
      (.int64 fieldOne sched.kernelBufferEvents.toInt64) ++
    (fieldIf (sched.targetPid ≠ 0) (.uint32 fieldTwo sched.targetPid) ++
      fieldIf (sched.offcpuWaitThresholdUs ≠ 0)
        (.uint32 fieldThree sched.offcpuWaitThresholdUs))

theorem applyAll_append (front back : List Write) (w : ProtoWriter) :
    applyAll (front ++ back) w = (do
      let w ← applyAll front w
      applyAll back w) := by
  induction front generalizing w with
  | nil => rfl
  | cons write rest induction =>
      simp only [List.cons_append, applyAll, induction, bind_assoc]

theorem applyAll_fieldIf (present : Prop) [Decidable present] (write : Write)
    (w : ProtoWriter) :
    applyAll (fieldIf present write) w =
      if present then write.apply w else .ok w := by
  unfold fieldIf
  split
  · simp only [applyAll]
    exact bind_pure (write.apply w)
  · rfl

theorem cpuEncode_eq (targetPid intervalUs : UInt32) :
    cpuEncode targetPid intervalUs = encoded (cpuWrites targetPid intervalUs) := by
  simp only [encoded, cpuWrites, applyAll_append, applyAll_fieldIf, bind_assoc]
  rfl

theorem heapEncode_eq : heapEncode heap = encoded (heapWrites heap) := by
  simp only [encoded, heapWrites, applyAll_append, applyAll_fieldIf, bind_assoc]
  rfl

theorem schedEncode_eq : schedEncode sched = encoded (schedWrites sched) := by
  simp only [encoded, schedWrites, applyAll_append, applyAll_fieldIf,
    bind_assoc]
  rfl

/-! What the decoders read of it. -/

theorem encode_uint64_length (field : FieldNumber) (value : UInt64) :
    (Write.uint64 field value).encode.length ≤ 15 := by
  have number := field.property.2
  have tag : (tagBytes field 0).length ≤ 4 + 1 :=
    minimal_length (by omega)
  have digits : (minimal value.toNat).length ≤ 9 + 1 :=
    minimal_length (Nat.lt_of_lt_of_le value.toNat_lt (by decide))
  unfold Write.encode
  rw [List.length_append]
  omega

def Write.NonzeroNumber (write : Write) : Prop :=
  ∃ field value, value ≠ 0 ∧
    write.encode = (Write.uint64 field value).encode ∧
    write.item = (Write.uint64 field value).item ∧ write.PrefixFits

theorem nonzeroNumber_uint64 (field : FieldNumber) {value : UInt64}
    (nonzero : value ≠ 0) : (Write.uint64 field value).NonzeroNumber :=
  ⟨field, value, nonzero, rfl, rfl, trivial⟩

theorem nonzeroNumber_uint32 (field : FieldNumber) {value : UInt32}
    (nonzero : value ≠ 0) : (Write.uint32 field value).NonzeroNumber := by
  refine ⟨field, value.toUInt64, fun zero => nonzero ?_, rfl, rfl, trivial⟩
  have same := congrArg UInt64.toUInt32 zero
  rwa [UInt32.toUInt32_toUInt64] at same

theorem nonzeroNumber_int32 (field : FieldNumber) {value : Int32}
    (nonzero : value ≠ 0) :
    (Write.int64 field value.toInt64).NonzeroNumber := by
  refine ⟨field, value.toInt64.toUInt64, fun zero => nonzero ?_, rfl, rfl,
    trivial⟩
  have same := congrArg (fun n => n.toInt64.toInt32) zero
  rwa [Int64.toInt64_toUInt64, Int32.toInt32_toInt64] at same

theorem forall_mem_fieldIf {present : Prop} [Decidable present]
    {write : Write} {holds : Write → Prop} (here : present → holds write) :
    ∀ w ∈ fieldIf present write, holds w := by
  intro w member
  unfold fieldIf at member
  split at member
  · next present =>
      rw [List.mem_singleton.mp member]
      exact here present
  · cases member

theorem foldl_fieldIf {σ : Type} (f : σ → UInt32 → UInt64 → σ) (state : σ)
    (present : Prop) [Decidable present] (write : Write) :
    ((fieldIf present write).map Write.item).foldl (visit f) state =
      if present then visit f state write.item else state := by
  unfold fieldIf
  split <;> rfl

theorem fieldIf_length_le (present : Prop) [Decidable present]
    (write : Write) : (fieldIf present write).length ≤ 1 := by
  unfold fieldIf
  split
  · exact Nat.le_refl 1
  · exact Nat.zero_le 1

theorem three_fieldIf_length_le {first second third : Prop}
    [Decidable first] [Decidable second] [Decidable third]
    (a b c : Write) :
    (fieldIf first a ++ (fieldIf second b ++ fieldIf third c)).length ≤ 3 := by
  have := fieldIf_length_le first a
  have := fieldIf_length_le second b
  have := fieldIf_length_le third c
  rw [List.length_append, List.length_append]
  omega

theorem encodeAll_number_length {tree : List Write}
    (numbers : ∀ write ∈ tree, write.NonzeroNumber) :
    (encodeAll tree).length ≤ 15 * tree.length := by
  induction tree with
  | nil => exact Nat.le_refl 0
  | cons write rest induction =>
      obtain ⟨field, value, -, same, -⟩ := numbers write List.mem_cons_self
      have first := encode_uint64_length field value
      have later := induction fun w member =>
        numbers w (List.mem_cons_of_mem write member)
      rw [encodeAll, List.length_append, same, List.length_cons]
      omega

theorem foldl_filter {σ : Type} {f : σ → UInt32 → UInt64 → σ}
    {numbers : List UInt32}
    (ignores : ∀ state field value, field ∉ numbers →
      f state field value = state)
    (items : List (UInt32 × WireValue)) (state : σ) :
    (items.filter fun item => item.1 ∈ numbers).foldl (visit f) state =
      items.foldl (visit f) state := by
  induction items generalizing state with
  | nil => rfl
  | cons item rest induction =>
      rw [List.filter_cons, List.foldl_cons]
      split
      · exact induction _
      · next absent =>
          obtain ⟨field, value⟩ := item
          have other : field ∉ numbers := fun known =>
            absent (decide_eq_true known)
          have same : visit f state (field, value) = state := by
            cases value with
            | varint v => exact ignores state field v other
            | fixed64 _ => rfl
            | len _ => rfl
            | fixed32 _ => rfl
          rw [same]
          exact induction state

/-- A config is decoded from its encoding, which has no zero field, also
between fields of other numbers. -/
def RoundTrips {σ : Type} (encode : Except Panic Slice)
    (decode : Slice → Except Panic σ) (numbers : List UInt32)
    (values : σ) : Prop :=
  ∃ bytes items, encode = .ok bytes ∧ HasFields bytes items ∧
    (∀ item ∈ items, item.2 ≠ .varint 0) ∧ decode bytes = .ok values ∧
    ∀ mixed, Interleaved numbers bytes mixed → decode mixed = .ok values

theorem eachVarintField_eq {σ : Type} (f : σ → UInt32 → UInt64 → σ)
    (state : σ) {bytes : Slice} {items : List (UInt32 × WireValue)}
    (fields : HasFields bytes items) :
    eachVarintField f state bytes = .ok (items.foldl (visit f) state) := by
  obtain ⟨last, read⟩ := fields.collect
  rw [eachVarintField, read]
  rfl

/-- A one-byte tag with a wire type that the reader does not know. -/
def UnknownTag (tag : UInt8) : Prop :=
  tag.toNat < 128 ∧
    (tag.toUInt64 &&& 0x07).toNat ∉ [0, 1, 2, 5]

theorem readValue_unknown {tag : UInt64}
    (other : (tag &&& 0x07).toNat ∉ [0, 1, 2, 5]) :
    readValue tag = Reading.none := by
  simp only [List.mem_cons, List.not_mem_nil, or_false, not_or] at other
  unfold readValue
  split
  · next same => exact absurd same other.1
  · next same => exact absurd same other.2.1
  · next same => exact absurd same other.2.2.1
  · next same => exact absurd same other.2.2.2
  · rfl

theorem eachVarintField_unknown {σ : Type} (f : σ → UInt32 → UInt64 → σ)
    (state : σ) {bytes : Slice} {tag : UInt8} {rest : Bytes}
    (start : bytes.val = tag :: rest) (unknown : UnknownTag tag) :
    eachVarintField f state bytes = .ok state := by
  have whole : (ofSlice bytes).unread = tag :: rest :=
    List.drop_zero.trans start
  obtain ⟨nothing, -⟩ | ⟨b, later, same, read, -⟩ :=
    nextByte_cases (.ofSlice bytes)
  · rw [whole] at nothing
    cases nothing
  · obtain rfl : tag = b := (List.cons.inj (whole.symm.trans same)).1
    have varint : readVarint (.ofSlice bytes) =
        .ok (some tag.toUInt64, later) := by
      have loop := readVarintLoop_cons 0 0 read (by decide) (by decide)
      rw [if_pos unknown.1] at loop
      refine loop.trans ?_
      simp
    have ended : next (.ofSlice bytes) = .ok (none, later) := by
      change Reading.bind readVarint _ _ = _
      rw [Reading.bind, varint]
      dsimp only
      change Reading.bind (readValue tag.toUInt64) _ _ = _
      rw [readValue_unknown unknown.2]
      rfl
    rw [eachVarintField, collect_ended ended]
    rfl

theorem roundTrips_encoded {σ : Type} {f : σ → UInt32 → UInt64 → σ}
    {init values : σ} {numbers : List UInt32} {tree : List Write}
    (nonzero : ∀ write ∈ tree, write.NonzeroNumber)
    (short : tree.length ≤ 3)
    (ignores : ∀ state field value, field ∉ numbers →
      f state field value = state)
    (reads : (tree.map Write.item).foldl (visit f) init = values) :
    RoundTrips (encoded tree) (eachVarintField f init) numbers values := by
  have fits : PrefixFitsAll tree := prefixFitsAll_iff.mpr fun write member => by
    obtain ⟨_, _, _, _, _, fits⟩ := nonzero write member
    exact fits
  have small := encodeAll_number_length nonzero
  obtain ⟨bytes, written, -, fields⟩ | ⟨long, -⟩ := encoded_cases fits
  · refine ⟨bytes, _, written, fields, ?_, ?_, ?_⟩
    · intro item member
      obtain ⟨write, inside, rfl⟩ := List.mem_map.mp member
      obtain ⟨field, value, positive, -, same, -⟩ := nonzero write inside
      rw [same]
      intro zero
      exact positive (WireValue.varint.inj zero)
    · rw [eachVarintField_eq f init fields, reads]
    · rintro mixed ⟨items, others, own, read, same⟩
      rw [eachVarintField_eq f init read, ← foldl_filter ignores, same,
        own.unique fields, reads]
  · unfold isizeMax at long
    omega

end

theorem cpu_roundTrips (targetPid intervalUs : UInt32) :
    RoundTrips (cpuEncode targetPid intervalUs) cpuDecode [1, 2]
      (targetPid, intervalUs) := by
  have nonzero : ∀ write ∈ cpuWrites targetPid intervalUs,
      write.NonzeroNumber := List.forall_mem_append.mpr
    ⟨forall_mem_fieldIf (nonzeroNumber_uint32 fieldOne),
      forall_mem_fieldIf (nonzeroNumber_uint32 fieldTwo)⟩
  have short : (cpuWrites targetPid intervalUs).length ≤ 3 := by
    have := fieldIf_length_le (targetPid ≠ 0) (.uint32 fieldOne targetPid)
    have := fieldIf_length_le (intervalUs ≠ 0) (.uint32 fieldTwo intervalUs)
    rw [cpuWrites, List.length_append]
    omega
  have ignores : ∀ state field value, field ∉ [(1 : UInt32), 2] →
      cpuField state field value = state := by
    intro state field value other
    simp only [List.mem_cons, List.not_mem_nil, or_false, not_or] at other
    simp only [cpuField, if_neg other.1, if_neg other.2]
  rw [cpuEncode_eq]
  apply roundTrips_encoded nonzero short ignores
  rw [cpuWrites, List.map_append, List.foldl_append, foldl_fieldIf,
    foldl_fieldIf]
  by_cases first : targetPid = 0 <;> by_cases second : intervalUs = 0 <;>
    simp [first, second, visit, Write.item, cpuField, fieldOne, fieldTwo,
      field_val]

theorem heap_roundTrips (config : HeapConfig) :
    RoundTrips (heapEncode config) heapDecode [1, 2, 3] config := by
  obtain ⟨pid, ring, interval⟩ := config
  have nonzero : ∀ write ∈ heapWrites ⟨pid, ring, interval⟩,
      write.NonzeroNumber := List.forall_mem_append.mpr
    ⟨forall_mem_fieldIf (nonzeroNumber_uint32 fieldOne),
      List.forall_mem_append.mpr
        ⟨forall_mem_fieldIf (nonzeroNumber_uint64 fieldTwo),
          forall_mem_fieldIf (nonzeroNumber_uint64 fieldThree)⟩⟩
  have short : (heapWrites ⟨pid, ring, interval⟩).length ≤ 3 :=
    three_fieldIf_length_le _ _ _
  have ignores : ∀ state field value, field ∉ [(1 : UInt32), 2, 3] →
      heapField state field value = state := by
    intro state field value other
    simp only [List.mem_cons, List.not_mem_nil, or_false, not_or] at other
    simp only [heapField, if_neg other.1, if_neg other.2.1, if_neg other.2.2]
  rw [heapEncode_eq]
  apply roundTrips_encoded nonzero short ignores
  rw [heapWrites, List.map_append, List.map_append, List.foldl_append,
    List.foldl_append, foldl_fieldIf, foldl_fieldIf, foldl_fieldIf]
  by_cases first : pid = 0 <;> by_cases second : ring = 0 <;>
    by_cases third : interval = 0 <;>
    simp [first, second, third, visit, Write.item, heapField, fieldOne,
      fieldTwo, fieldThree, field_val]

theorem sched_roundTrips (config : SchedConfig) :
    RoundTrips (schedEncode config) schedDecode [1, 2, 3] config := by
  obtain ⟨events, pid, threshold⟩ := config
  have nonzero : ∀ write ∈ schedWrites ⟨events, pid, threshold⟩,
      write.NonzeroNumber := List.forall_mem_append.mpr
    ⟨forall_mem_fieldIf (nonzeroNumber_int32 fieldOne),
      List.forall_mem_append.mpr
        ⟨forall_mem_fieldIf (nonzeroNumber_uint32 fieldTwo),
          forall_mem_fieldIf (nonzeroNumber_uint32 fieldThree)⟩⟩
  have short : (schedWrites ⟨events, pid, threshold⟩).length ≤ 3 :=
    three_fieldIf_length_le _ _ _
  have ignores : ∀ state field value, field ∉ [(1 : UInt32), 2, 3] →
      schedField state field value = state := by
    intro state field value other
    simp only [List.mem_cons, List.not_mem_nil, or_false, not_or] at other
    simp only [schedField, if_neg other.1, if_neg other.2.1, if_neg other.2.2]
  rw [schedEncode_eq]
  apply roundTrips_encoded nonzero short ignores
  rw [schedWrites, List.map_append, List.map_append, List.foldl_append,
    List.foldl_append, foldl_fieldIf, foldl_fieldIf, foldl_fieldIf]
  by_cases first : events = 0 <;> by_cases second : pid = 0 <;>
    by_cases third : threshold = 0 <;>
    simp [first, second, third, visit, Write.item, schedField, fieldOne,
      fieldTwo, fieldThree, field_val]

/-- No decoder panics, on any bytes. -/
theorem eachVarintField_total {σ : Type} (f : σ → UInt32 → UInt64 → σ)
    (state : σ) (bytes : Slice) :
    ∃ values, eachVarintField f state bytes = .ok values := by
  obtain ⟨items, last, read⟩ := collect_total bytes
  exact ⟨items.foldl (visit f) state, by rw [eachVarintField, read]; rfl⟩

theorem configExtract_total (bytes : Slice) :
    ∃ config, configExtract bytes = .ok config := by
  obtain ⟨items, last, read⟩ := collect_total bytes
  exact ⟨_, findMap_eq (payload dscSismoConfigField) _ read⟩

end Sismo.Proto
