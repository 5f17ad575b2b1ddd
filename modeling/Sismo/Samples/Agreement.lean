import Sismo.Samples.Decoder

namespace Sismo.Samples

/-! What a reader finds keeps its meaning as its tables grow, and the writer's
tables agree with the reader's. -/

structure Tables.Le (tables later : Tables) : Prop where
  strings : ∀ field, Extends (tables.strings field) (later.strings field)
  mappings : Extends tables.mappings later.mappings
  frames : Extends tables.frames later.frames
  callstacks : Extends tables.callstacks later.callstacks

namespace Tables

variable {tables middle later : Tables}

theorem Le.refl (tables : Tables) : tables.Le tables :=
  ⟨fun _ => .refl _, .refl _, .refl _, .refl _⟩

theorem Le.trans (first : tables.Le middle) (second : middle.Le later) :
    tables.Le later where
  strings field := (first.strings field).trans (second.strings field)
  mappings := first.mappings.trans second.mappings
  frames := first.frames.trans second.frames
  callstacks := first.callstacks.trans second.callstacks

theorem stringAt_mono (le : tables.Le later) {field : StringField} {iid : Nat}
    {string : Option Bytes} (found : tables.stringAt field iid = some string) :
    later.stringAt field iid = some string := by
  rw [stringAt] at found ⊢
  split at found
  · next zero => rw [if_pos zero, found]
  · next nonzero =>
      obtain ⟨bytes, lookup, rfl⟩ := Option.map_eq_some_iff.mp found
      rw [if_neg nonzero, le.strings field iid bytes lookup, Option.map_some]

theorem decodeMapping_mono (le : tables.Le later) {msg : MappingMsg}
    {mapping : DecodedMapping}
    (found : tables.decodeMapping msg = some mapping) :
    later.decodeMapping msg = some mapping := by
  simp only [decodeMapping, Option.bind_eq_bind, Option.bind_eq_some_iff]
    at found ⊢
  obtain ⟨path, pathFound, buildId, buildIdFound, same⟩ := found
  exact ⟨path, le.strings _ _ _ pathFound, buildId,
    stringAt_mono le buildIdFound, same⟩

theorem mappingAt_mono (le : tables.Le later) {iid : Nat}
    {mapping : DecodedMapping}
    (found : tables.mappingAt iid = some mapping) :
    later.mappingAt iid = some mapping := by
  simp only [mappingAt, Option.bind_eq_bind, Option.bind_eq_some_iff]
    at found ⊢
  obtain ⟨msg, lookup, decoded⟩ := found
  exact ⟨msg, le.mappings iid msg lookup, decodeMapping_mono le decoded⟩

theorem decodeFrame_mono (le : tables.Le later) {key : FrameKey}
    {frame : DecodedFrame} (found : tables.decodeFrame key = some frame) :
    later.decodeFrame key = some frame := by
  simp only [decodeFrame, Option.bind_eq_bind, Option.bind_eq_some_iff]
    at found ⊢
  obtain ⟨mapping, mappingFound, name, nameFound, same⟩ := found
  exact ⟨mapping, mappingAt_mono le mappingFound, name,
    stringAt_mono le nameFound, same⟩

theorem frameAt_mono (le : tables.Le later) {iid : Nat} {frame : DecodedFrame}
    (found : tables.frameAt iid = some frame) :
    later.frameAt iid = some frame := by
  simp only [frameAt, Option.bind_eq_bind, Option.bind_eq_some_iff] at found ⊢
  obtain ⟨msg, lookup, decoded⟩ := found
  exact ⟨msg, le.frames iid msg lookup, decodeFrame_mono le decoded⟩

theorem decodeFrames_eq_some_iff {iids : List Nat}
    {frames : List DecodedFrame} :
    tables.decodeFrames iids = some frames ↔
      List.Forall₂ (fun iid frame => tables.frameAt iid = some frame) iids
        frames := by
  rw [decodeFrames]
  induction iids generalizing frames with
  | nil =>
      rw [List.mapM_nil, List.forall₂_nil_left_iff]
      exact ⟨fun same => (Option.some.inj same).symm, fun same => same ▸ rfl⟩
  | cons iid rest induction =>
      rw [List.mapM_cons, List.forall₂_cons_left_iff]
      simp only [Option.bind_eq_bind, Option.bind_eq_some_iff, induction]
      constructor
      · intro ⟨frame, found, frames, rest, same⟩
        exact ⟨frame, frames, found, rest, (Option.some.inj same).symm⟩
      · intro ⟨frame, frames, found, rest, same⟩
        exact ⟨frame, found, frames, rest, same ▸ rfl⟩

theorem decodeFrames_mono (le : tables.Le later) {iids : List Nat}
    {frames : List DecodedFrame}
    (found : tables.decodeFrames iids = some frames) :
    later.decodeFrames iids = some frames := by
  rw [decodeFrames_eq_some_iff] at found ⊢
  exact found.imp fun _ _ => frameAt_mono le

theorem defined_mono (le : tables.Le later) {entry : InternedEntry}
    (defined : tables.defined entry = true) : later.defined entry = true := by
  cases entry with
  | string field iid bytes => rfl
  | mapping iid msg =>
      obtain ⟨mapping, found⟩ := Option.isSome_iff_exists.mp defined
      exact Option.isSome_iff_exists.mpr ⟨_, decodeMapping_mono le found⟩
  | frame iid msg =>
      obtain ⟨frame, found⟩ := Option.isSome_iff_exists.mp defined
      exact Option.isSome_iff_exists.mpr ⟨_, decodeFrame_mono le found⟩
  | callstack iid iids =>
      obtain ⟨frames, found⟩ := Option.isSome_iff_exists.mp defined
      exact Option.isSome_iff_exists.mpr ⟨_, decodeFrames_mono le found⟩

end Tables

def optionalBuildId (buildId : Bytes) : Option Bytes :=
  if buildId ≠ [] then some buildId else none

def MappingKey.decoded (kbuildId : Bytes) (tables : Tables) :
    MappingKey → Option DecodedMapping
  | .virtual start end_ offset baseAvma path raw =>
      some ⟨optionalBuildId raw, start, end_, baseAvma, offset, some path,
        .virtualAddress⟩
  | .buildId raw => some ⟨some raw, 0, 0, 0, 0, none, .fileOffset⟩
  | .kernel =>
      some ⟨optionalBuildId kbuildId, 0, 0, kernelSynthBase, 0,
        some (bytes "[kernel.kallsyms]"), .virtualAddress⟩
  | .residual pathIid =>
      ((tables.strings .mappingPath).lookup pathIid).map fun label =>
        ⟨none, 0, 0, 0, 0, some label, .virtualAddress⟩

theorem MappingKey.decoded_mono {kbuildId : Bytes} {tables later : Tables}
    (le : tables.Le later) {key : MappingKey} {mapping : DecodedMapping}
    (found : key.decoded kbuildId tables = some mapping) :
    key.decoded kbuildId later = some mapping := by
  cases key with
  | residual pathIid =>
      rw [MappingKey.decoded] at found
      obtain ⟨label, lookup, rfl⟩ := Option.map_eq_some_iff.mp found
      rw [MappingKey.decoded, le.strings _ _ _ lookup, Option.map_some]
  | «virtual» start end_ offset baseAvma path raw => exact found
  | buildId raw => exact found
  | kernel => exact found

def MappingMeans (kbuildId : Bytes) (tables : Tables) (key : MappingKey)
    (msg : MappingMsg) : Prop :=
  ∃ mapping, tables.decodeMapping msg = some mapping ∧
    key.decoded kbuildId tables = some mapping

def FrameMeans (tables : Tables) (key msg : FrameKey) : Prop :=
  msg = key ∧ (tables.decodeFrame key).isSome

def CallstackMeans (tables : Tables) (key iids : List Nat) : Prop :=
  iids = key ∧ (tables.decodeFrames key).isSome

structure Agrees (kbuildId : Bytes) (interner : Interner) (tables : Tables) :
    Prop where
  strings : ∀ field,
    TableAgrees (interner.strings field) (tables.strings field) Eq
  mappings : TableAgrees interner.mappings tables.mappings
    (MappingMeans kbuildId tables)
  frames : TableAgrees interner.frames tables.frames (FrameMeans tables)
  callstacks : TableAgrees interner.callstacks tables.callstacks
    (CallstackMeans tables)

theorem Agrees.empty (kbuildId : Bytes) : Agrees kbuildId {} {} :=
  ⟨fun _ => .empty, .empty, .empty, .empty⟩

section

variable {kbuildId : Bytes} {tables later : Tables}

theorem MappingMeans.mono (le : tables.Le later) {key : MappingKey}
    {msg : MappingMsg} (means : MappingMeans kbuildId tables key msg) :
    MappingMeans kbuildId later key msg := by
  obtain ⟨mapping, decoded, keyDecoded⟩ := means
  exact ⟨mapping, Tables.decodeMapping_mono le decoded,
    MappingKey.decoded_mono le keyDecoded⟩

theorem FrameMeans.mono (le : tables.Le later) {key msg : FrameKey}
    (means : FrameMeans tables key msg) : FrameMeans later key msg := by
  obtain ⟨frame, found⟩ := Option.isSome_iff_exists.mp means.2
  exact ⟨means.1, Option.isSome_iff_exists.mpr
    ⟨frame, Tables.decodeFrame_mono le found⟩⟩

theorem CallstackMeans.mono (le : tables.Le later) {key iids : List Nat}
    (means : CallstackMeans tables key iids) :
    CallstackMeans later key iids := by
  obtain ⟨frames, found⟩ := Option.isSome_iff_exists.mp means.2
  exact ⟨means.1, Option.isSome_iff_exists.mpr
    ⟨frames, Tables.decodeFrames_mono le found⟩⟩

end

end Sismo.Samples
