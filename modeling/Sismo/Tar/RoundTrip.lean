import Sismo.Tar.Writer

namespace Sismo.Tar

/-! What a strict reader finds in a written archive. -/

structure Entry where
  name : Bytes
  contents : Bytes
  mtime : Nat

/-- The members of an archive: each has a valid header and is filled up with
zeros to a whole block, and two zero blocks end the file. -/
def readTar (bytes : Bytes) : Option (List Entry) :=
  if bytes.length < block then none
  else if bytes.take block = zeros block then
    if bytes.drop block = zeros block then some [] else none
  else
    match readHeader (bytes.take block) with
    | none => none
    | some header =>
        let rest := bytes.drop block
        let stored := header.size + padding header.size
        if stored ≤ rest.length ∧ slice rest header.size
            (padding header.size) = zeros (padding header.size) then
          (readTar (rest.drop stored)).map fun entries =>
            ⟨header.name, rest.take header.size, header.mtime⟩ :: entries
        else none
termination_by bytes.length
decreasing_by
  rw [List.length_drop, List.length_drop]
  simp only [block] at *
  omega

/-- What the reads of a file give together, if none fails before the end. -/
def contents : List (Option Bytes) → Option Bytes
  | [] => some []
  | none :: _ => none
  | some [] :: _ => some []
  | some (byte :: buf) :: reads =>
      (contents reads).map (byte :: buf ++ ·)

namespace Member

/-- The bytes that a member takes in the archive, if it can be archived: its
file is not too large and is read to the length it had. -/
def stored (m : Member) : Option Nat := do
  let info ← m.file.metadata
  let bytes ← contents m.file.reads
  if info.len ≤ maxOctal ∧ m.file.opens = true ∧ bytes.length = info.len then
    some (block + bytes.length + padding bytes.length)
  else none

/-- If the member's size has 11 octal digits, then its time has. -/
def Timed (m : Member) : Prop :=
  ∀ info, m.file.metadata = some info → info.len ≤ maxOctal →
    mtimeOf info ≤ maxOctal

def Record (m : Member) (record : Bytes) : Prop :=
  ∃ info bytes h, m.file.metadata = some info ∧
    contents m.file.reads = some bytes ∧ h.length = block ∧
    readHeader h =
      some ⟨bytesOf m.arcname, bytes.length, mtimeOf info⟩ ∧
    record = h ++ bytes ++ zeros (padding bytes.length)

/-- The entry has the name, the contents and the time of the member. -/
def Matches (m : Member) (entry : Entry) : Prop :=
  entry.name = bytesOf m.arcname ∧
    contents m.file.reads = some entry.contents ∧
    ∀ info t, m.file.metadata = some info → info.modified = some t →
      (entry.mtime : Int) = t

end Member

/-- The writer comes to a member: those before it can be archived, and there is
room for them. -/
def Reached : Nat → List Member → Member → Prop
  | _, [], _ => False
  | room, m :: members, n => n = m ∨
      ∃ size, m.stored = some size ∧ size ≤ room ∧
        Reached (room - size) members n

def Archived : Nat → List Member → Prop
  | room, [] => 2 * block ≤ room
  | room, m :: members =>
      ∃ size, m.stored = some size ∧ size ≤ room ∧
        Archived (room - size) members

/-- The writer does not panic, and what it writes is read back as the members,
with the length it returns. -/
def RoundTrips (sink : Sink) (members : List Member) : Prop :=
  writeTar sink members ≠ .panics ∧
    ∀ out total, writeTar sink members = .ok (out, total) →
      total = out.length ∧ ∃ entries, readTar out = some entries ∧
        List.Forall₂ Member.Matches members entries

/-! The reader over one record and over the end of the archive. -/

theorem readTar_end : readTar (zeros (2 * block)) = some [] := by
  have length : (zeros (2 * block)).length = 2 * block := List.length_replicate
  rw [readTar, if_neg (by rw [length]; decide), if_pos, if_pos]
  · rw [zeros, List.drop_replicate]
    rfl
  · rw [zeros, List.take_replicate]
    rfl

theorem not_readHeader_zeros {h : Bytes} {header : Header}
    (read : readHeader h = some header) : h ≠ zeros block := by
  rintro rfl
  simp only [readHeader, Option.bind_eq_bind, Option.bind_eq_some_iff,
    Option.ite_none_right_eq_some] at read
  obtain ⟨_, -, _, -, _, -, _, -, _, -, _, -, _, -, _, -, ⟨-, -, flag, -⟩, -⟩ :=
    read
  rw [slice, zeros, List.drop_replicate, List.take_replicate] at flag
  cases flag

theorem readTar_record {h bytes : Bytes} {name : Bytes} {mtime : Nat}
    (whole : h.length = block)
    (read : readHeader h = some ⟨name, bytes.length, mtime⟩) (rest : Bytes) :
    readTar (h ++ bytes ++ zeros (padding bytes.length) ++ rest) =
      (readTar rest).map fun entries => ⟨name, bytes, mtime⟩ :: entries := by
  have head : (h ++ bytes ++ zeros (padding bytes.length) ++ rest).take block =
      h := by
    rw [List.append_assoc, List.append_assoc, ← whole, List.take_left]
  have tail : (h ++ bytes ++ zeros (padding bytes.length) ++ rest).drop block =
      bytes ++ (zeros (padding bytes.length) ++ rest) := by
    rw [List.append_assoc, List.append_assoc, ← whole, List.drop_left]
  have fill : (zeros (padding bytes.length)).length = padding bytes.length :=
    List.length_replicate
  rw [readTar, if_neg, head, if_neg (not_readHeader_zeros read), read, tail]
  · dsimp only
    rw [if_pos]
    · rw [List.take_left, ← List.drop_drop, List.drop_left]
      congr 2
      exact List.drop_left' fill
    · refine ⟨?_, ?_⟩
      · rw [List.length_append, List.length_append, fill]
        omega
      · rw [slice, List.drop_left]
        exact List.take_left' fill
  · rw [List.length_append, List.length_append, List.length_append, whole]
    omega

theorem readTar_records {members : List Member} {records : List Bytes}
    (written : List.Forall₂ Member.Record members records)
    (known : ∀ m ∈ members, ∀ info t, m.file.metadata = some info →
      info.modified = some t → 0 ≤ t) :
    ∃ entries, readTar (records.flatten ++ zeros (2 * block)) = some entries ∧
      List.Forall₂ Member.Matches members entries := by
  induction written with
  | nil => exact ⟨[], readTar_end, .nil⟩
  | @cons m record members records first others induction =>
      obtain ⟨entries, read, matching⟩ :=
        induction fun m member => known m (List.mem_cons_of_mem _ member)
      obtain ⟨info, bytes, h, metadata, given, whole, header, rfl⟩ := first
      refine ⟨⟨bytesOf m.arcname, bytes, mtimeOf info⟩ :: entries, ?_,
        .cons ⟨rfl, given, ?_⟩ matching⟩
      · rw [List.flatten_cons, List.append_assoc, readTar_record whole header,
          read]
        rfl
      · intro other t same modified
        have late := known m List.mem_cons_self other t same modified
        cases metadata.symm.trans same
        rw [mtimeOf, modified, Option.bind_some, if_pos late]
        exact Int.toNat_of_nonneg late

/-! The writer over one member and over all of them. -/

section

variable {sink : Sink} {m : Member} {out : Bytes}

theorem writeAll_of_le {bytes : Bytes}
    (fits : out.length + bytes.length ≤ sink.room) :
    writeAll sink out bytes = .ok (out ++ bytes) :=
  if_pos fits

theorem writeAll_of_lt {bytes : Bytes}
    (full : sink.room < out.length + bytes.length) :
    writeAll sink out bytes = .err .io :=
  if_neg (Nat.not_le.mpr full)

/-- The loop copies what the reads give, or ends in an error. -/
theorem copyLoop_cases (reads : List (Option Bytes)) {copied : Nat}
    (counted : copied ≤ out.length) (inside : out.length ≤ sink.room) :
    (∃ bytes, contents reads = some bytes ∧
      out.length + bytes.length ≤ sink.room ∧
      copyLoop sink reads out copied =
        .ok (out ++ bytes, copied + bytes.length)) ∨
    ((∀ bytes, contents reads = some bytes →
      sink.room < out.length + bytes.length) ∧
      ∃ error, copyLoop sink reads out copied = .err error) := by
  have room := sink.room_lt
  induction reads generalizing out copied with
  | nil => exact .inl ⟨[], rfl, inside, by rw [List.append_nil]; rfl⟩
  | cons read reads induction =>
      obtain _ | _ | ⟨byte, buf⟩ := read
      · exact .inr ⟨fun bytes given => (Option.some_ne_none bytes given.symm).elim,
          .io, rfl⟩
      · exact .inl ⟨[], rfl, inside, by rw [List.append_nil]; rfl⟩
      · have length : (byte :: buf).length = buf.length + 1 := rfl
        obtain full | fits := Nat.lt_or_ge sink.room
          (out.length + (byte :: buf).length)
        · refine .inr ⟨?_, .io, ?_⟩
          · intro bytes given
            obtain ⟨others, -, rfl⟩ := Option.map_eq_some_iff.mp given
            rw [List.length_append]
            omega
          · rw [copyLoop, writeAll_of_lt full]
            rfl
        · have longer : (out ++ byte :: buf).length = out.length +
              (buf.length + 1) := List.length_append
          have next := @induction (out ++ byte :: buf)
            (copied + (buf.length + 1)) (by omega) (by omega)
          rw [copyLoop, writeAll_of_le fits, Fallible.ok_bind,
            addWords_of_lt (by omega), Fallible.ok_bind, contents]
          obtain ⟨others, given, fits, copies⟩ | ⟨outgrows, error, fails⟩ := next
          · refine .inl ⟨byte :: buf ++ others, by rw [given]; rfl, ?_, ?_⟩
            · rw [List.length_append]
              omega
            · rw [copies, List.append_assoc, List.length_append, length,
                Nat.add_assoc]
          · refine .inr ⟨?_, error, fails⟩
            intro bytes given
            obtain ⟨others, among, rfl⟩ := Option.map_eq_some_iff.mp given
            have := outgrows others among
            rw [List.length_append]
            omega

/-- The file is stored after the header if it opens, is read to the length it
had and fits, and else there is an error. -/
theorem writeContents_cases {size : Nat} (inside : out.length ≤ sink.room) :
    (∃ bytes, contents m.file.reads = some bytes ∧ m.file.opens = true ∧
      bytes.length = size ∧
      out.length + bytes.length + padding bytes.length ≤ sink.room ∧
      writeContents sink m size out out.length =
        .ok (out ++ bytes ++ zeros (padding bytes.length),
          out.length + bytes.length + padding bytes.length)) ∨
    ((∀ bytes, contents m.file.reads = some bytes → m.file.opens = true →
      bytes.length = size →
        sink.room < out.length + bytes.length + padding bytes.length) ∧
      ∃ error, writeContents sink m size out out.length = .err error) := by
  have room := sink.room_lt
  rw [writeContents]
  cases opens : m.file.opens with
  | false =>
      refine .inr ⟨?_, .io, rfl⟩
      intro bytes given opened
      cases opened
  | true =>
      rw [if_pos rfl]
      obtain ⟨bytes, given, copied, copies⟩ | ⟨outgrows, error, fails⟩ :=
        @copyLoop_cases sink out m.file.reads 0 (Nat.zero_le _) inside
      · rw [copies, Fallible.ok_bind]
        dsimp only
        rw [Nat.zero_add]
        obtain changed | same := ne_or_eq bytes.length size
        · rw [if_pos changed]
          refine .inr ⟨?_, _, rfl⟩
          intro others among _ same
          cases given.symm.trans among
          exact absurd same changed
        have written : (out ++ bytes).length = out.length + bytes.length :=
          List.length_append
        have filled : (zeros (padding bytes.length)).length =
            padding bytes.length := List.length_replicate
        rw [if_neg (not_not.mpr same), addWords_of_lt (by omega),
          Fallible.ok_bind]
        obtain full | fits := Nat.lt_or_ge sink.room
          ((out ++ bytes).length + (zeros (padding bytes.length)).length)
        · refine .inr ⟨?_, .io, ?_⟩
          · intro others among _ _
            cases given.symm.trans among
            omega
          · rw [writeAll_of_lt full]
            rfl
        · rw [writeAll_of_le fits, Fallible.ok_bind,
            addWords_of_lt (by omega), Fallible.ok_bind]
          exact .inl ⟨bytes, given, rfl, same, by omega, rfl⟩
      · refine .inr ⟨?_, error, by rw [fails]; rfl⟩
        intro bytes given _ _
        have := outgrows bytes given
        omega

theorem stored_eq_some {info : Metadata} (metadata : m.file.metadata = some info)
    {size : Nat} : m.stored = some size ↔
      ∃ bytes, contents m.file.reads = some bytes ∧
        (info.len ≤ maxOctal ∧ m.file.opens = true ∧
          bytes.length = info.len) ∧
        block + bytes.length + padding bytes.length = size := by
  rw [Member.stored, metadata]
  simp only [Option.bind_eq_bind, Option.bind_some, Option.bind_eq_some_iff,
    Option.ite_none_right_eq_some, Option.some.injEq]

theorem timed_iff {info : Metadata} (metadata : m.file.metadata = some info) :
    m.Timed ↔ (info.len ≤ maxOctal → mtimeOf info ≤ maxOctal) := by
  rw [Member.Timed, metadata]
  constructor
  · intro timed
    exact timed info rfl
  · intro timed other same
    cases same
    exact timed

/-- A member is archived, or the writer panics at its time, or there is an
error. -/
theorem writeMember_cases (named : Named m.arcname)
    (inside : out.length ≤ sink.room) :
    (¬ m.Timed ∧ writeMember sink m out out.length = .panics) ∨
    (m.Timed ∧ ∃ record, m.Record record ∧ m.stored = some record.length ∧
      out.length + record.length ≤ sink.room ∧
      writeMember sink m out out.length =
        .ok (out ++ record, (out ++ record).length)) ∨
    (m.Timed ∧ (∀ size, m.stored = some size →
        sink.room < out.length + size) ∧
      ∃ error, writeMember sink m out out.length = .err error) := by
  have room := sink.room_lt
  have small : block = 512 := rfl
  rw [writeMember]
  cases metadata : m.file.metadata with
  | none =>
      refine .inr (.inr ⟨?_, ?_, .io, rfl⟩)
      · intro info same
        rw [metadata] at same
        cases same
      · intro size stored
        rw [Member.stored, metadata] at stored
        cases stored
  | some info =>
      dsimp only
      obtain large | sized := Nat.lt_or_ge maxOctal info.len
      · obtain ⟨error, fails⟩ := headerFor_of_large named large
        refine .inr (.inr ⟨(timed_iff metadata).mpr fun sized => ?_, ?_, error,
          by rw [fails]; rfl⟩)
        · omega
        · intro size stored
          obtain ⟨bytes, -, ⟨sized, -⟩, -⟩ := (stored_eq_some metadata).mp stored
          omega
      obtain late | onTime := Nat.lt_or_ge maxOctal (mtimeOf info)
      · refine .inl ⟨fun timed => ?_, ?_⟩
        · have := (timed_iff metadata).mp timed sized
          omega
        · rw [headerFor_of_late named sized late]
          rfl
      have timed := (timed_iff metadata).mpr fun _ => onTime
      obtain ⟨h, header, whole, read⟩ := headerFor_of_le named sized onTime
      have headed : (out ++ h).length = out.length + block := by
        rw [List.length_append, whole]
      rw [header, Fallible.ok_bind]
      obtain full | fits := Nat.lt_or_ge sink.room (out.length + h.length)
      · refine .inr (.inr ⟨timed, ?_, .io, by rw [writeAll_of_lt full]; rfl⟩)
        intro size stored
        obtain ⟨bytes, -, -, rfl⟩ := (stored_eq_some metadata).mp stored
        omega
      rw [writeAll_of_le fits, Fallible.ok_bind, addWords_of_lt (by omega),
        Fallible.ok_bind, ← headed]
      obtain ⟨bytes, given, opens, same, room, writes⟩ |
        ⟨outgrows, error, fails⟩ :=
          @writeContents_cases sink m (out ++ h) info.len (by omega)
      · have filled : (zeros (padding bytes.length)).length =
            padding bytes.length := List.length_replicate
        have length : (h ++ bytes ++ zeros (padding bytes.length)).length =
            block + bytes.length + padding bytes.length := by
          rw [List.length_append, List.length_append, whole, filled]
        have total : (out ++ (h ++ bytes ++ zeros (padding bytes.length))).length =
            (out ++ h).length + bytes.length + padding bytes.length := by
          rw [List.length_append, length, headed]
          omega
        refine .inr (.inl ⟨timed, h ++ bytes ++ zeros (padding bytes.length),
          ⟨info, bytes, h, metadata, given, whole, same ▸ read, rfl⟩, ?_, ?_, ?_⟩)
        · exact (stored_eq_some metadata).mpr
            ⟨bytes, given, ⟨sized, opens, same⟩, length.symm⟩
        · omega
        · rw [writes, total]
          simp only [List.append_assoc]
      · refine .inr (.inr ⟨timed, ?_, error, fails⟩)
        intro size stored
        obtain ⟨bytes, given, ⟨-, opens, same⟩, rfl⟩ :=
          (stored_eq_some metadata).mp stored
        have := outgrows bytes given opens same
        omega

/-- The loop stores the members one after another, or panics at the first one
it comes to whose time is too large, or there is an error. -/
theorem writeMembers_cases (members : List Member)
    (named : ∀ m ∈ members, Named m.arcname)
    (inside : out.length ≤ sink.room) :
    ((∃ m, Reached (sink.room - out.length) members m ∧ ¬ m.Timed) ∧
      writeMembers sink members out out.length = .panics) ∨
    ((∀ m, Reached (sink.room - out.length) members m → m.Timed) ∧
      ∃ records, List.Forall₂ Member.Record members records ∧
        (out ++ records.flatten).length ≤ sink.room ∧
        (Archived (sink.room - out.length) members ↔
          (out ++ records.flatten).length + 2 * block ≤ sink.room) ∧
        writeMembers sink members out out.length =
          .ok (out ++ records.flatten, (out ++ records.flatten).length)) ∨
    ((∀ m, Reached (sink.room - out.length) members m → m.Timed) ∧
      ¬ Archived (sink.room - out.length) members ∧
      ∃ error, writeMembers sink members out out.length = .err error) := by
  induction members generalizing out with
  | nil =>
      refine .inr (.inl ⟨fun m reached => reached.elim, [], .nil, ?_, ?_, ?_⟩)
      · rw [List.flatten_nil, List.append_nil]
        exact inside
      · rw [List.flatten_nil, List.append_nil, Archived]
        omega
      · rw [List.flatten_nil, List.append_nil]
        rfl
  | cons m members induction =>
      rw [writeMembers]
      obtain ⟨late, panics⟩ | ⟨timed, record, written, stored, fits, writes⟩ |
        ⟨timed, outgrows, error, fails⟩ :=
          writeMember_cases (named m List.mem_cons_self) inside
      · exact .inl ⟨⟨m, .inl rfl, late⟩, by rw [panics]; rfl⟩
      · rw [writes, Fallible.ok_bind]
        dsimp only
        have length : (out ++ record).length = out.length + record.length :=
          List.length_append
        have left : sink.room - (out ++ record).length =
            sink.room - out.length - record.length := by omega
        have room : record.length ≤ sink.room - out.length := by omega
        have reached : ∀ n, Reached (sink.room - out.length) (m :: members) n ↔
            n = m ∨ Reached (sink.room - (out ++ record).length) members n := by
          intro n
          refine or_congr_right ⟨?_, fun later => ⟨_, stored, room, left ▸ later⟩⟩
          rintro ⟨size, same, -, later⟩
          cases stored.symm.trans same
          exact left ▸ later
        have archived : Archived (sink.room - out.length) (m :: members) ↔
            Archived (sink.room - (out ++ record).length) members := by
          refine ⟨?_, fun later => ⟨_, stored, room, left ▸ later⟩⟩
          rintro ⟨size, same, -, later⟩
          cases stored.symm.trans same
          exact left ▸ later
        have next := @induction (out ++ record)
          (fun n member => named n (List.mem_cons_of_mem m member)) (by omega)
        simp only [reached, archived, forall_eq_or_imp]
        obtain ⟨⟨n, later, late⟩, panics⟩ |
          ⟨others, records, all, inside, whole, writes⟩ |
          ⟨others, partly, fails⟩ := next
        · exact .inl ⟨⟨n, .inr later, late⟩, panics⟩
        · refine .inr (.inl ⟨⟨timed, others⟩, record :: records,
            .cons written all, ?_⟩)
          rw [List.flatten_cons, ← List.append_assoc]
          exact ⟨inside, whole, writes⟩
        · exact .inr (.inr ⟨⟨timed, others⟩, partly, fails⟩)
      · have stuck : ∀ size, m.stored = some size →
            ¬ size ≤ sink.room - out.length := by
          intro size stored
          have := outgrows size stored
          omega
        refine .inr (.inr ⟨?_, ?_, error, by rw [fails]; rfl⟩)
        · rintro n (rfl | ⟨size, stored, fits, -⟩)
          · exact timed
          · exact absurd fits (stuck size stored)
        · rintro ⟨size, stored, fits, -⟩
          exact stuck size stored fits

/-- A time that is read back is not before the epoch. -/
theorem known_of_matches {members : List Member} {entries : List Entry}
    (matching : List.Forall₂ Member.Matches members entries) :
    ∀ m ∈ members, ∀ info t, m.file.metadata = some info →
      info.modified = some t → 0 ≤ t := by
  induction matching with
  | nil =>
      intro m member
      cases member
  | @cons m entry members entries first others induction =>
      rw [List.forall_mem_cons]
      refine ⟨fun info t metadata modified => ?_, induction⟩
      rw [← first.2.2 info t metadata modified]
      exact Int.natCast_nonneg entry.mtime

theorem writeTar_of_late {members : List Member}
    (named : ∀ m ∈ members, Named m.arcname) (creates : sink.creates = true)
    (reached : Reached sink.room members m) (late : ¬ m.Timed) :
    writeTar sink members = .panics := by
  obtain ⟨-, panics⟩ | ⟨timed, -⟩ | ⟨timed, -⟩ :=
    @writeMembers_cases sink [] members named (Nat.zero_le sink.room)
  · rw [writeTar, if_pos creates]
    change writeMembers sink members [] 0 = .panics at panics
    rw [panics]
    rfl
  · exact absurd (timed m reached) late
  · exact absurd (timed m reached) late

end

theorem roundTrips_of_err {sink : Sink} {members : List Member} {error : Error}
    (fails : writeTar sink members = .err error) : RoundTrips sink members := by
  rw [RoundTrips, fails]
  refine ⟨fun panics => ?_, fun out total wrote => ?_⟩
  · cases panics
  · cases wrote

theorem roundTrips_of_ok {sink : Sink} {members : List Member} {out : Bytes}
    (wrote : writeTar sink members = .ok (out, out.length)) :
    RoundTrips sink members ↔ ∃ entries, readTar out = some entries ∧
      List.Forall₂ Member.Matches members entries := by
  rw [RoundTrips, wrote]
  constructor
  · rintro ⟨-, reads⟩
    exact (reads out out.length rfl).2
  · intro reads
    refine ⟨fun panics => ?_, fun other total same => ?_⟩
    · cases panics
    · cases same
      exact ⟨rfl, reads⟩

/-- An archive of members with fitting names round-trips exactly if no member
that the writer comes to has a time of more than 11 octal digits and, where all
of them are archived, none is from before the epoch. -/
theorem roundTrips_iff (sink : Sink) {members : List Member}
    (named : ∀ m ∈ members, Named m.arcname) :
    RoundTrips sink members ↔ (sink.creates = true →
      (∀ m, Reached sink.room members m → m.Timed) ∧
      (Archived sink.room members → sink.flushes = true →
        ∀ m ∈ members, ∀ info t, m.file.metadata = some info →
          info.modified = some t → 0 ≤ t)) := by
  have length : (zeros (2 * block)).length = 2 * block := List.length_replicate
  have room := sink.room_lt
  cases creates : sink.creates with
  | false =>
      have fails : writeTar sink members = .err .io :=
        if_neg (by rw [creates]; exact Bool.false_ne_true)
      exact iff_of_true (roundTrips_of_err fails) (absurd · Bool.false_ne_true)
  | true =>
      refine Iff.trans ?_ ⟨fun good _ => good, fun good => good rfl⟩
      have cases := @writeMembers_cases sink [] members named
        (Nat.zero_le sink.room)
      rw [List.length_nil, Nat.sub_zero] at cases
      obtain ⟨⟨m, reached, late⟩, -⟩ |
        ⟨timed, records, written, inside, whole, writes⟩ |
        ⟨timed, partly, error, fails⟩ := cases
      · refine iff_of_false (fun holds => ?_) fun good => late (good.1 m reached)
        exact holds.1 (writeTar_of_late named creates reached late)
      · rw [List.nil_append] at inside whole writes
        obtain full | fits := Nat.lt_or_ge sink.room
          (records.flatten.length + (zeros (2 * block)).length)
        · have fails : writeTar sink members = .err .io := by
            rw [writeTar, if_pos creates, writes, Fallible.ok_bind]
            dsimp only
            rw [writeAll_of_lt full]
            rfl
          refine iff_of_true (roundTrips_of_err fails)
            ⟨timed, fun archived => ?_⟩
          have := whole.mp archived
          omega
        have archived := whole.mpr (length ▸ fits)
        have total : (records.flatten ++ zeros (2 * block)).length =
            records.flatten.length + 2 * block := by
          rw [List.length_append, length]
        have wrote : writeTar sink members = if sink.flushes then
            .ok (records.flatten ++ zeros (2 * block),
              (records.flatten ++ zeros (2 * block)).length)
            else .err .io := by
          rw [writeTar, if_pos creates, writes, Fallible.ok_bind]
          dsimp only
          rw [writeAll_of_le fits, Fallible.ok_bind, addWords_of_lt (by omega),
            Fallible.ok_bind, total]
        cases flushes : sink.flushes with
        | false =>
            rw [flushes, if_neg Bool.false_ne_true] at wrote
            exact iff_of_true (roundTrips_of_err wrote)
              ⟨timed, fun _ => (absurd · Bool.false_ne_true)⟩
        | true =>
            rw [flushes, if_pos rfl] at wrote
            rw [roundTrips_of_ok wrote]
            constructor
            · rintro ⟨entries, -, matching⟩
              exact ⟨timed, fun _ _ => known_of_matches matching⟩
            · rintro ⟨-, known⟩
              exact readTar_records written (known archived rfl)
      · have fails : writeTar sink members = .err error := by
          rw [writeTar, if_pos creates, fails]
          rfl
        exact iff_of_true (roundTrips_of_err fails)
          ⟨timed, fun archived => absurd archived partly⟩

/-- A member called "a" with two bytes and a modification time. -/
def timedMember (modified : Int) : Member where
  arcname := "a"
  src := "a"
  file := ⟨some ⟨2, some modified⟩, true, [some [1], some [2]]⟩

def largeSink : Sink where
  creates := true
  room := 2 ^ 20
  flushes := true
  room_lt := Nat.pow_lt_pow_right (by decide) (by decide)

theorem timedMember_named (modified : Int) :
    ∀ m ∈ [timedMember modified], Named m.arcname := by
  have name : Named "a" := ⟨by decide, by decide, by decide⟩
  rw [List.forall_mem_singleton]
  exact name

theorem roundTrips_timedMember :
    RoundTrips largeSink [timedMember 1700000000] := by
  refine (roundTrips_iff largeSink (timedMember_named _)).mpr fun _ => ⟨?_, ?_⟩
  · rintro m (rfl | ⟨_, _, _, none⟩)
    · intro info same _
      cases same
      decide
    · exact none.elim
  · intro _ _
    rw [List.forall_mem_singleton]
    intro info t same modified
    cases same
    cases modified
    decide

/-- A time of 12 octal digits, in the year 2242, panics. -/
theorem not_roundTrips :
    ¬ ∀ sink members, (∀ m ∈ members, Named m.arcname) →
      RoundTrips sink members := by
  intro always
  have named := timedMember_named 8589934592
  refine (always largeSink _ named).1
    (writeTar_of_late named rfl (.inl rfl) fun timed => ?_)
  exact absurd (timed _ rfl (by decide)) (by decide)

end Sismo.Tar
