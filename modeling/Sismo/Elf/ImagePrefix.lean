import Mathlib.Data.List.Forall2
import Sismo.Elf.File
import Sismo.Elf.Notes

namespace Sismo.Elf

/-! The build-id from the first bytes of a mapped image, and from the whole
file. -/

/-- The first byte string that scans to a build-id: none where a scan
panics. -/
def firstBuildId : List (Option Slice) → Option (Option Slice)
  | [] => some none
  | none :: rest => firstBuildId rest
  | some notes :: rest =>
      match buildIdFromNotes notes with
      | none => none
      | some (some id) => some (some id)
      | some none => firstBuildId rest

namespace ElfFile

def noteBytes (elf : ElfFile) (offset size : Nat) : Option Slice :=
  if size = 0 ∨ 64 * 1024 < size then none else elf.read offset size

def noteSegments (elf : ElfFile) : List Segment :=
  elf.segments.filter (·.pType = ptNote)

/-- `build_id_from_elf`: the PT_NOTE segments first, then the note sections. -/
def buildId (elf : ElfFile) : Option (Option Slice) :=
  firstBuildId
    ((elf.noteSegments.map fun seg => elf.noteBytes seg.offset seg.filesz) ++
      ((elf.sections.filter (·.shType = shtNote)).map fun sec =>
        elf.noteBytes sec.offset sec.size))

end ElfFile

def elfMagic : List UInt8 := [0x7f, 0x45, 0x4c, 0x46]

namespace Slice

def ePhoff (s : Slice) : Nat := s.u64At 32

def ePhentsize (s : Slice) : Nat := s.u16At 54

def ePhnum (s : Slice) : Nat := s.u16At 56

/-- A program header of the image: an overflow panics, an offset outside the
prefix gives none. -/
def phdr (image : Slice) (i : Nat) : Option (Option Slice) :=
  let off := image.ePhoff + i * image.ePhentsize
  if 2 ^ 64 ≤ off then none
  else some ((checkedAdd off 56).bind fun stop => image.get off stop)

def lowestLoad (image : Slice) : List Nat → Nat → Option (Option Nat)
  | [], imageBase => some (some imageBase)
  | i :: rest, imageBase =>
      match image.phdr i with
      | none => none
      | some none => some none
      | some (some ph) =>
          lowestLoad image rest
            (if ph.u32At 0 = ptLoad then min imageBase (ph.u64At 16)
            else imageBase)

def noteAt (image : Slice) (imageBase : Nat) :
    List Nat → Option (Option Slice)
  | [] => some none
  | i :: rest =>
      match image.phdr i with
      | none => none
      | some none => some none
      | some (some ph) =>
          if ph.u32At 0 ≠ ptNote then noteAt image imageBase rest
          else
            match checkedSub (ph.u64At 16) imageBase with
            | none => some none
            | some start =>
                match checkedAdd start (ph.u64At 32) with
                | none => some none
                | some stop =>
                    match image.get start stop with
                    | none => noteAt image imageBase rest
                    | some notes =>
                        match buildIdFromNotes notes with
                        | none => none
                        | some (some id) => some (some id)
                        | some none => noteAt image imageBase rest

/-- `build_id_from_image_prefix`: none where the code panics. -/
def buildIdFromImagePrefix (image : Slice) : Option (Option Slice) :=
  match image.get 0 64 with
  | none => some none
  | some ehdr =>
      if ehdr.data.take 4 ≠ elfMagic ∨ ehdr.data[4]? ≠ some 2 then some none
      else if image.ePhentsize < 56 ∨ image.ePhnum = 0 ∨ 4096 < image.ePhnum
      then some none
      else
        match image.lowestLoad (List.range image.ePhnum) (2 ^ 64 - 1) with
        | none => none
        | some none => some none
        | some (some lowest) =>
            let imageBase := if lowest = 2 ^ 64 - 1 then 0 else lowest
            image.noteAt imageBase (List.range image.ePhnum)

end Slice

theorem buildIdFromNotes_isSome (notes : Slice) :
    (buildIdFromNotes notes).isSome := by
  have scanned := @buildIdFromNotesLoop_eq notes 0 (by decide)
  rw [buildIdFromNotes, ← Option.isSome_map (f := Option.map Slice.data),
    scanned]
  rfl

/-! No panic: the first header must be in the prefix, so that `e_phoff` is
below its length, and 4096 headers of 64 KiB more do not overflow. -/

section

variable {image : Slice}

theorem Slice.phdr_zero_isSome : (image.phdr 0).isSome := by
  have fits : image.ePhoff < 2 ^ 64 := image.u64At_lt 32
  rw [Slice.phdr, Nat.zero_mul, Nat.add_zero, if_neg (by omega)]
  rfl

theorem Slice.phdr_isSome {ph : Slice} {i : Nat}
    (first : image.phdr 0 = some (some ph)) (small : i < 4096) :
    (image.phdr i).isSome := by
  have length := image.len_lt
  have phoff : image.ePhoff < 2 ^ 63 := by
    rw [Slice.phdr, Nat.zero_mul, Nat.add_zero] at first
    split at first
    · cases first
    · obtain ⟨stop, added, got⟩ :=
        Option.bind_eq_some_iff.mp (Option.some.inj first)
      have sum := checkedAdd_eq_some.mp added
      have within := Slice.get_eq_some got
      omega
  have entry : image.ePhentsize < 2 ^ 16 := image.u16At_lt 54
  have offset : i * image.ePhentsize ≤ 4096 * 2 ^ 16 :=
    Nat.mul_le_mul small.le entry.le
  rw [Slice.phdr, if_neg (by omega)]
  rfl

theorem Slice.lowestLoad_isSome {ph : Slice}
    (first : image.phdr 0 = some (some ph)) {indices : List Nat}
    (small : ∀ i ∈ indices, i < 4096) (imageBase : Nat) :
    (image.lowestLoad indices imageBase).isSome := by
  induction indices generalizing imageBase with
  | nil => rfl
  | cons i rest induction =>
      obtain ⟨head, tail⟩ := List.forall_mem_cons.mp small
      have present := Slice.phdr_isSome first head
      rw [Slice.lowestLoad]
      cases read : image.phdr i with
      | none => simp [read] at present
      | some found =>
          cases found with
          | none => rfl
          | some ph => exact induction tail _

theorem Slice.noteAt_isSome {ph : Slice}
    (first : image.phdr 0 = some (some ph)) {indices : List Nat}
    (small : ∀ i ∈ indices, i < 4096) (imageBase : Nat) :
    (image.noteAt imageBase indices).isSome := by
  induction indices with
  | nil => rfl
  | cons i rest induction =>
      obtain ⟨head, tail⟩ := List.forall_mem_cons.mp small
      have present := Slice.phdr_isSome first head
      have rest := induction tail
      rw [Slice.noteAt]
      cases read : image.phdr i with
      | none => simp [read] at present
      | some found =>
          cases found with
          | none => rfl
          | some ph =>
              dsimp only
              split
              · exact rest
              · split
                · rfl
                · split
                  · rfl
                  · split
                    · exact rest
                    · next notes _ =>
                        have scanned := buildIdFromNotes_isSome notes
                        split
                        · next panics => simp [panics] at scanned
                        · rfl
                        · exact rest

theorem Slice.buildIdFromImagePrefix_isSome (image : Slice) :
    image.buildIdFromImagePrefix.isSome := by
  rw [Slice.buildIdFromImagePrefix]
  split
  · rfl
  · split
    · rfl
    · split
      · rfl
      · next accepted =>
          have small : ∀ i ∈ List.range image.ePhnum, i < 4096 := by
            intro i member
            have := List.mem_range.mp member
            omega
          have nonempty : List.range image.ePhnum =
              0 :: (List.range (image.ePhnum - 1)).map Nat.succ := by
            rw [← List.range_succ_eq_map]
            congr 1
            omega
          cases read : image.phdr 0 with
          | none =>
              have present := @Slice.phdr_zero_isSome image
              simp [read] at present
          | some found =>
              cases found with
              | none => simp [nonempty, Slice.lowestLoad, read]
              | some ph =>
                  have loads := Slice.lowestLoad_isSome read small (2 ^ 64 - 1)
                  split
                  · next panics =>
                      rw [panics] at loads
                      cases loads
                  · rfl
                  · exact Slice.noteAt_isSome read small _

end

/-! The image of a well-formed file, and the same build-id from both. -/

/-- A 64-bit little-endian file whose program headers are where its ELF header
has them. -/
structure ElfFile.WellFormed (elf : ElfFile) : Prop where
  magic : elf.data.data.take 4 = elfMagic
  class64 : elf.data.data[4]? = some 2
  littleEndian : elf.data.data[5]? = some 1
  phentsize : elf.data.ePhentsize = 56
  phnum : elf.segments.length = elf.data.ePhnum
  headers : ∀ i seg, elf.segments[i]? = some seg →
    ∃ ph, elf.data.get (elf.data.ePhoff + i * 56)
      (elf.data.ePhoff + i * 56 + 56) = some ph ∧ seg = Segment.ofBytes ph
  loads : ∀ seg ∈ elf.loads, seg.vaddr + seg.filesz ≤ 2 ^ 64 ∧
    seg.offset + seg.filesz ≤ elf.data.len
  notes : ∀ seg ∈ elf.noteSegments, seg.vaddr + seg.filesz ≤ 2 ^ 64

def ElfFile.InHeaders (elf : ElfFile) (i : Nat) : Prop :=
  i < 64 ∨ elf.data.ePhoff ≤ i ∧ i < elf.data.ePhoff + elf.data.ePhnum * 56

structure NoteShown (elf : ElfFile) (base : Nat) (image : Slice)
    (note : Segment) : Prop where
  above : base ≤ note.vaddr
  covered : note.vaddr + note.filesz ≤ base + image.len
  bytes : ∀ i < note.filesz,
    image.data[note.vaddr - base + i]? = elf.data.data[note.offset + i]?

/-- The image shows the headers where the file has them, and some PT_NOTEs. -/
structure Shown (elf : ElfFile) (base : Nat) (image : Slice)
    (notes : List Segment) : Prop where
  base_eq : elf.imageBase = some base
  headers : ∀ i, elf.InHeaders i →
    i < image.len ∧ image.data[i]? = elf.data.data[i]?
  notes : ∀ note ∈ notes, NoteShown elf base image note

/-- A prefix of the image: the PT_LOAD segments laid out by their addresses
from the lowest on, as far as the prefix reaches. -/
structure ImageOf (elf : ElfFile) (base : Nat) (image : Slice) : Prop where
  base_eq : elf.imageBase = some base
  bytes : ∀ load ∈ elf.loads, ∀ i < load.filesz,
    load.vaddr - base + i < image.len →
    image.data[load.vaddr - base + i]? = elf.data.data[load.offset + i]?

/-- The headers are shown when the lowest segment maps them from the start of
the file on, and the prefix reaches over them. -/
theorem ImageOf.headersShown {elf : ElfFile} {base : Nat} {image : Slice}
    (imageOf : ImageOf elf base image) {load : Segment}
    (loaded : load ∈ elf.loads) (lowest : load.vaddr = base)
    (first : load.offset = 0) {i : Nat} (inLoad : i < load.filesz)
    (reached : i < image.len) : image.data[i]? = elf.data.data[i]? := by
  have same := imageOf.bytes load loaded i inLoad (by omega)
  rwa [lowest, first, Nat.sub_self, Nat.zero_add] at same

/-- A PT_NOTE is shown when it is part of a segment and the prefix reaches over
it. -/
theorem ImageOf.noteShown {elf : ElfFile} {base : Nat} {image : Slice}
    (imageOf : ImageOf elf base image) {load note : Segment}
    (loaded : load ∈ elf.loads) (above : load.offset ≤ note.offset)
    (inLoad : note.offset + note.filesz ≤ load.offset + load.filesz)
    (skew : note.vaddr + load.offset = load.vaddr + note.offset)
    (covered : note.vaddr + note.filesz ≤ base + image.len) :
    NoteShown elf base image note := by
  have lowest := (ElfFile.imageBase_eq_some.mp imageOf.base_eq).2 load loaded
  refine ⟨by omega, covered, fun i inNote => ?_⟩
  have same := imageOf.bytes load loaded (note.offset - load.offset + i)
    (by omega) (by omega)
  rwa [show load.vaddr - base + (note.offset - load.offset + i) =
      note.vaddr - base + i by omega,
    show load.offset + (note.offset - load.offset + i) = note.offset + i
      by omega] at same

theorem Slice.numberAt_congr {s t : Slice} {n size off : Nat}
    (same : s.data.take n = t.data.take n) (within : off + size ≤ n) :
    s.numberAt size off = t.numberAt size off := by
  have cut : ∀ s : Slice, (s.data.drop off).take size =
      ((s.data.take n).drop off).take size := by
    intro s
    rw [List.drop_take, List.take_take, Nat.min_eq_left (by omega)]
  rw [numberAt, numberAt, cut s, cut t, same]

section

variable {elf : ElfFile} {base : Nat} {image : Slice}

theorem Slice.get_eq_of_bytes {image file : Slice} {at_ start count : Nat}
    (reached : at_ + count ≤ image.len) (inFile : start + count ≤ file.len)
    (bytes : ∀ i < count, image.data[at_ + i]? = file.data[start + i]?) :
    image.get at_ (at_ + count) = file.get start (start + count) := by
  rw [Slice.get, Slice.get, if_pos ⟨Nat.le_add_right _ _, reached⟩,
    if_pos ⟨Nat.le_add_right _ _, inFile⟩, Option.some.injEq]
  apply Slice.ext_data
  apply List.ext_getElem?
  intro i
  simp only [Nat.add_sub_cancel_left, List.getElem?_take,
    List.getElem?_drop]
  split
  · next inRange => exact bytes i inRange
  · rfl

theorem Slice.take_data {s : Slice} {n : Nat} (within : n ≤ s.len) :
    (s.get 0 n).map data = some (s.data.take n) := by
  rw [map_data_get (Nat.zero_le n) within]
  rfl

theorem Slice.lt_len_of_bytes {image file : Slice} {i j : Nat}
    (reached : i < image.len) (same : image.data[i]? = file.data[j]?) :
    j < file.len := by
  rw [List.getElem?_eq_getElem reached] at same
  exact (List.getElem?_eq_some_iff.mp same.symm).1

variable {shownNotes : List Segment}

theorem Shown.take_header (shown : Shown elf base image shownNotes) :
    64 ≤ image.len ∧ image.data.take 64 = elf.data.data.take 64 := by
  have reached := (shown.headers 63 (.inl (by decide))).1
  refine ⟨reached, List.ext_getElem? fun i => ?_⟩
  rw [List.getElem?_take, List.getElem?_take]
  split
  · next inHeader => exact (shown.headers i (.inl inHeader)).2
  · rfl

/-- The image begins as a 64-bit ELF file does. -/
theorem Shown.ident (shown : Shown elf base image shownNotes)
    (wellFormed : elf.WellFormed) :
    image.data.take 4 = elfMagic ∧ image.data[4]? = some 2 := by
  have header := shown.take_header.2
  constructor
  · have cut := congrArg (List.take 4) header
    rw [List.take_take, List.take_take] at cut
    exact cut.trans wellFormed.magic
  · have at4 := congrArg (fun bytes : List UInt8 => bytes[4]?) header
    simp only [List.getElem?_take, Nat.reduceLT, ↓reduceIte] at at4
    exact at4.trans wellFormed.class64

theorem Shown.phdr_eq (shown : Shown elf base image shownNotes)
    (wellFormed : elf.WellFormed) {i : Nat} {seg : Segment}
    (found : elf.segments[i]? = some seg) :
    ∃ ph, image.phdr i = some (some ph) ∧ seg = Segment.ofBytes ph := by
  have header := shown.take_header.2
  have phoff : image.ePhoff = elf.data.ePhoff :=
    Slice.numberAt_congr header (by decide)
  have phentsize : image.ePhentsize = 56 :=
    (Slice.numberAt_congr header (by decide)).trans wellFormed.phentsize
  obtain ⟨ph, got, decoded⟩ := wellFormed.headers i seg found
  have below : i < elf.data.ePhnum := by
    rw [← wellFormed.phnum]
    exact (List.getElem?_eq_some_iff.mp found).1
  have inHeaders : ∀ j < 56, elf.InHeaders (elf.data.ePhoff + i * 56 + j) :=
    fun j small => .inr ⟨by omega, by omega⟩
  have last := (shown.headers _ (inHeaders 55 (by decide))).1
  have within := (Slice.get_eq_some got).2.1
  have length := image.len_lt
  have same := @Slice.get_eq_of_bytes image elf.data
    (elf.data.ePhoff + i * 56) (elf.data.ePhoff + i * 56) 56 last within
    fun j small => (shown.headers _ (inHeaders j small)).2
  refine ⟨ph, ?_, decoded⟩
  rw [Slice.phdr, phoff, phentsize, if_neg (by omega),
    checkedAdd_eq_some.mpr ⟨rfl, by omega⟩, Option.bind_some, same, got]

def ReadsHeaders (image : Slice) (i : Nat) (seg : Segment) : Prop :=
  ∃ ph, image.phdr i = some (some ph) ∧ seg = Segment.ofBytes ph

theorem Shown.readsHeaders (shown : Shown elf base image shownNotes)
    (wellFormed : elf.WellFormed) :
    List.Forall₂ (ReadsHeaders image) (List.range elf.data.ePhnum)
      elf.segments := by
  rw [List.forall₂_iff_get]
  refine ⟨by rw [List.length_range, wellFormed.phnum], ?_⟩
  intro i inRange inSegments
  rw [List.get_eq_getElem, List.getElem_range]
  exact shown.phdr_eq wellFormed (List.getElem?_eq_getElem inSegments)

theorem Slice.lowestLoad_eq {indices : List Nat} {segments : List Segment}
    (reads : List.Forall₂ (ReadsHeaders image) indices segments)
    (imageBase : Nat) :
    image.lowestLoad indices imageBase =
      some (some (((segments.filter (·.pType = ptLoad)).map
        Segment.vaddr).foldl min imageBase)) := by
  induction reads generalizing imageBase with
  | nil => rfl
  | cons head tail induction =>
      obtain ⟨ph, read, rfl⟩ := head
      rw [Slice.lowestLoad, read]
      dsimp only
      rw [induction, List.filter_cons]
      by_cases load : ph.u32At 0 = ptLoad
      · simp only [load, ↓reduceIte, Segment.ofBytes, decide_true,
          List.map_cons, List.foldl_cons]
      · simp only [load, ↓reduceIte, Segment.ofBytes, decide_false,
          Bool.false_eq_true]

theorem foldl_min_eq {numbers : List Nat} {lowest start : Nat}
    (above : ∀ n ∈ numbers, lowest ≤ n) (le : lowest ≤ start)
    (reached : lowest ∈ numbers ∨ start = lowest) :
    numbers.foldl min start = lowest := by
  induction numbers generalizing start with
  | nil => simpa using reached
  | cons n rest induction =>
      obtain ⟨head, tail⟩ := List.forall_mem_cons.mp above
      rw [List.foldl_cons]
      apply induction tail (by omega)
      rcases reached with member | rfl
      · rcases List.mem_cons.mp member with rfl | inRest
        · exact .inr (Nat.min_eq_right le)
        · exact .inl inRest
      · exact .inr (Nat.min_eq_left head)

theorem ElfFile.foldl_vaddr_eq (based : elf.imageBase = some base)
    (word : base ≤ 2 ^ 64 - 1) :
    ((elf.segments.filter (·.pType = ptLoad)).map Segment.vaddr).foldl min
      (2 ^ 64 - 1) = base := by
  obtain ⟨⟨lowest, inLoads, same⟩, above⟩ :=
    ElfFile.imageBase_eq_some.mp based
  apply foldl_min_eq
  · intro vaddr member
    obtain ⟨seg, loaded, rfl⟩ := List.mem_map.mp member
    exact above seg loaded
  · exact word
  · exact .inl (List.mem_map.mpr ⟨lowest, inLoads, same⟩)

def imageNote (image : Slice) (base : Nat) (seg : Segment) : Option Slice :=
  image.get (seg.vaddr - base) (seg.vaddr - base + seg.filesz)

/-- The image's notes are scanned in order up to one that has a build-id. -/
theorem Slice.noteAt_eq (base : Nat) {indices : List Nat} {segments before after :
      List Segment} {note : Segment}
    (reads : List.Forall₂ (ReadsHeaders image) indices segments)
    (split : segments.filter (·.pType = ptNote) = before ++ note :: after)
    (inImage : ∀ seg ∈ before ++ [note], base ≤ seg.vaddr ∧
      seg.vaddr - base + seg.filesz < 2 ^ 64)
    {bytes id : Slice} (shows_ : imageNote image base note = some bytes)
    (scanned : buildIdFromNotes bytes = some (some id)) :
    image.noteAt base indices =
      firstBuildId ((before ++ [note]).map (imageNote image base)) := by
  induction reads generalizing before with
  | nil => simp at split
  | @cons i seg indices segments head tail induction =>
      obtain ⟨ph, read, rfl⟩ := head
      rw [Slice.noteAt, read]
      dsimp only
      rw [List.filter_cons] at split
      by_cases isNote : ph.u32At 0 = ptNote
      · have header : (Segment.ofBytes ph).pType = ptNote := isNote
        rw [if_pos (decide_eq_true header)] at split
        have first : Segment.ofBytes ph ∈ before ++ [note] := by
          cases before with
          | nil =>
              cases split
              exact List.mem_singleton_self _
          | cons other before =>
              rw [(List.cons.inj split).1]
              exact List.mem_cons_self
        obtain ⟨above, fits⟩ := inImage _ first
        have start : checkedSub (ph.u64At 16) base =
            some (ph.u64At 16 - base) := if_pos above
        have stop : checkedAdd (ph.u64At 16 - base) (ph.u64At 32) =
            some (ph.u64At 16 - base + ph.u64At 32) := if_pos fits
        simp only [isNote, start, stop, ne_eq, not_true_eq_false, ↓reduceIte]
        have got : image.get (ph.u64At 16 - base)
            (ph.u64At 16 - base + ph.u64At 32) =
            imageNote image base (Segment.ofBytes ph) := rfl
        rw [got]
        cases before with
        | nil =>
            cases split
            rw [List.nil_append, List.map_singleton, shows_, firstBuildId]
            dsimp only
            rw [scanned]
        | cons other before =>
            obtain ⟨same, others⟩ := List.cons.inj split
            have rest := induction others fun seg member =>
              inImage seg (List.mem_cons_of_mem _ member)
            rw [List.cons_append, List.map_cons, ← same]
            cases imageNote image base (Segment.ofBytes ph) with
            | none => exact rest
            | some notes =>
                rw [firstBuildId]
                dsimp only
                cases buildIdFromNotes notes with
                | none => rfl
                | some result =>
                    cases result with
                    | none => exact rest
                    | some id => rfl
      · have other : (Segment.ofBytes ph).pType ≠ ptNote := isNote
        rw [if_neg (by simpa using other)] at split
        rw [if_pos isNote]
        exact induction split inImage

theorem firstBuildId_append {first : List (Option Slice)}
    {notes id : Slice} (member : some notes ∈ first)
    (scanned : buildIdFromNotes notes = some (some id))
    (second : List (Option Slice)) :
    firstBuildId (first ++ second) = firstBuildId first := by
  induction first with
  | nil => exact absurd member List.not_mem_nil
  | cons head rest induction =>
      cases head with
      | none =>
          rw [List.cons_append, firstBuildId, firstBuildId]
          exact induction (by simpa using member)
      | some bytes =>
          rw [List.cons_append, firstBuildId, firstBuildId]
          cases result : buildIdFromNotes bytes with
          | none => rfl
          | some found =>
              cases found with
              | some other => rfl
              | none =>
                  apply induction
                  rcases List.mem_cons.mp member with same | inRest
                  · cases same
                    rw [result] at scanned
                    cases scanned
                  · exact inRest

/-- Two ways to the same notes: where one of them has no bytes, the other's
have no build-id. -/
theorem firstBuildId_congr {segments : List Segment}
    {first second : Segment → Option Slice}
    (same : ∀ seg ∈ segments, first seg = second seg ∨
      second seg = none ∧ ∀ notes, first seg = some notes →
        buildIdFromNotes notes = some none) :
    firstBuildId (segments.map first) = firstBuildId (segments.map second) := by
  induction segments with
  | nil => rfl
  | cons seg rest induction =>
      obtain ⟨head, tail⟩ := List.forall_mem_cons.mp same
      have others := induction tail
      rw [List.map_cons, List.map_cons]
      rcases head with equal | ⟨missing, noId⟩
      · rw [equal]
        cases second seg with
        | none => exact others
        | some notes => rw [firstBuildId, firstBuildId, others]
      · rw [missing]
        cases bytes : first seg with
        | none => exact others
        | some notes =>
            rw [firstBuildId, firstBuildId, noId notes bytes]
            exact others

/-- A PT_NOTE of at most 64 KiB has a build-id. -/
def ElfFile.HasBuildId (elf : ElfFile) (note : Segment) : Prop :=
  ∃ bytes id, elf.noteBytes note.offset note.filesz = some bytes ∧
    buildIdFromNotes bytes = some (some id)

/-- A PT_NOTE is not larger than 64 KiB, or has no build-id. -/
def ElfFile.Plausible (elf : ElfFile) (note : Segment) : Prop :=
  64 * 1024 < note.filesz → ∀ bytes,
    elf.read note.offset note.filesz = some bytes →
      buildIdFromNotes bytes = some none

theorem buildIdFromNotes_short {notes : Slice} (short : notes.len < 12) :
    buildIdFromNotes notes = some none := by
  rw [buildIdFromNotes, buildIdFromNotesLoop, if_neg (by decide),
    if_neg (by omega)]

theorem NoteShown.imageNote_eq {note : Segment}
    (shown : NoteShown elf base image note) (nonempty : note.filesz ≠ 0) :
    imageNote image base note = elf.read note.offset note.filesz := by
  have above := shown.above
  have covered := shown.covered
  have same := shown.bytes (note.filesz - 1) (by omega)
  have last := Slice.lt_len_of_bytes (by omega) same
  exact Slice.get_eq_of_bytes (by omega) (by omega) shown.bytes

theorem Shown.firstBuildId_eq (shown : Shown elf base image shownNotes)
    (sensible : ∀ note ∈ shownNotes, elf.Plausible note) :
    firstBuildId (shownNotes.map (imageNote image base)) =
      firstBuildId (shownNotes.map fun seg =>
        elf.noteBytes seg.offset seg.filesz) := by
  apply firstBuildId_congr
  intro note member
  have shownNote := shown.notes note member
  rw [ElfFile.noteBytes]
  split
  · next implausible =>
      refine .inr ⟨rfl, fun bytes got => ?_⟩
      rcases implausible with zero | oversize
      · have length := Slice.len_of_get got
        rw [zero, Nat.add_zero, Nat.sub_self] at length
        exact buildIdFromNotes_short (by omega)
      · rw [shownNote.imageNote_eq (by omega)] at got
        exact sensible note member oversize bytes got
  · next usual => exact .inl (shownNote.imageNote_eq (by omega))

/-- A note with a build-id is not empty, and the image has it. -/
theorem Shown.imageNote_of_hasBuildId (shown : Shown elf base image shownNotes)
    {note : Segment} (member : note ∈ shownNotes)
    (hasId : elf.HasBuildId note) :
    12 ≤ note.filesz ∧ note.filesz ≤ 64 * 1024 ∧ ∃ bytes id,
      imageNote image base note = some bytes ∧
        buildIdFromNotes bytes = some (some id) := by
  obtain ⟨bytes, id, read, scanned⟩ := hasId
  rw [ElfFile.noteBytes] at read
  split at read
  · cases read
  · next usual =>
      have length := Slice.len_of_get read
      rw [Nat.add_sub_cancel_left] at length
      refine ⟨?_, by omega, bytes, id, ?_, scanned⟩
      · by_contra short
        rw [buildIdFromNotes_short (by omega)] at scanned
        cases scanned
      · rw [(shown.notes note member).imageNote_eq (by omega), read]

end

/-- The prefix never makes the parser panic; and an image of a well-formed file
with at most 4096 program headers gives the file's build-id, if it shows the
headers and the PT_NOTEs up to one with a build-id, and no larger one before
that has another. -/
theorem buildIdFromImagePrefix_eq :
    (∀ image : Slice, image.buildIdFromImagePrefix.isSome) ∧
    ∀ (elf : ElfFile) (base : Nat) (image : Slice) (before after :
        List Segment) (note : Segment), elf.WellFormed →
      elf.data.ePhnum ≤ 4096 →
      elf.noteSegments = before ++ note :: after → elf.HasBuildId note →
      (∀ other ∈ before, elf.Plausible other) →
      Shown elf base image (before ++ [note]) →
      image.buildIdFromImagePrefix = elf.buildId := by
  refine ⟨Slice.buildIdFromImagePrefix_isSome, ?_⟩
  intro elf base image before after note wellFormed few split hasId sensible
    shown
  have last : note ∈ before ++ [note] :=
    List.mem_append_right before (List.mem_singleton_self note)
  obtain ⟨long, short, bytes, id, got, scanned⟩ :=
    shown.imageNote_of_hasBuildId last hasId
  have inNotes : ∀ seg ∈ before ++ [note], seg ∈ elf.noteSegments := by
    intro seg member
    rw [split, List.append_cons]
    exact List.mem_append_left after member
  have room := wellFormed.notes note (inNotes note last)
  have aboveBase := (shown.notes note last).above
  have header := shown.take_header.2
  have reads := shown.readsHeaders wellFormed
  have phentsize : image.ePhentsize = 56 :=
    (Slice.numberAt_congr header (by decide)).trans wellFormed.phentsize
  have phnum : image.ePhnum = elf.data.ePhnum :=
    Slice.numberAt_congr header (by decide)
  have nonempty : elf.data.ePhnum ≠ 0 := by
    obtain ⟨⟨lowest, inLoads, -⟩, -⟩ :=
      ElfFile.imageBase_eq_some.mp shown.base_eq
    rw [← wellFormed.phnum]
    have := List.length_pos_of_mem (ElfFile.mem_loads.mp inLoads).1
    omega
  have lowestIs := ElfFile.foldl_vaddr_eq shown.base_eq (by omega)
  have notes := Slice.noteAt_eq base reads split (by
    intro seg member
    have shownNote := shown.notes seg member
    have above := shownNote.above
    have covered := shownNote.covered
    have length := image.len_lt
    exact ⟨above, by omega⟩) got scanned
  obtain ⟨magic, class64⟩ := shown.ident wellFormed
  have ehdr := Slice.take_data shown.take_header.1
  rw [Slice.buildIdFromImagePrefix]
  cases first : image.get 0 64 with
  | none => simp [first] at ehdr
  | some bytes =>
      rw [first, Option.map_some, Option.some.injEq] at ehdr
      have checked : ¬ (bytes.data.take 4 ≠ elfMagic ∨
          bytes.data[4]? ≠ some 2) := by
        rw [ehdr, List.take_take, List.getElem?_take]
        simp [magic, class64]
      simp only [checked, ↓reduceIte]
      rw [if_neg (by omega), phnum, Slice.lowestLoad_eq reads, lowestIs]
      simp only
      rw [if_neg (by omega), notes]
      obtain ⟨fileBytes, fileId, read, fileScanned⟩ := hasId
      have parts : elf.noteSegments = before ++ [note] ++ after := by
        rw [split, List.append_cons]
      have fromFile : elf.buildId = firstBuildId ((before ++ [note]).map
          fun seg => elf.noteBytes seg.offset seg.filesz) := by
        rw [ElfFile.buildId, parts, List.map_append, List.append_assoc,
          firstBuildId_append (List.mem_map.mpr ⟨note, last, read⟩)
            fileScanned]
      rw [fromFile]
      apply shown.firstBuildId_eq
      intro other member
      rcases List.mem_append.mp member with earlier | here
      · exact sensible other earlier
      · rw [List.mem_singleton.mp here]
        exact fun oversize => absurd oversize (by omega)

theorem elfOf_wellFormed {file : Slice} {phnum : Nat}
    (ident : file.data.take 4 = elfMagic ∧ file.data[4]? = some 2 ∧
      file.data[5]? = some 1)
    (header : file.ePhoff = 64 ∧ file.ePhentsize = 56 ∧ file.ePhnum = phnum)
    (within : 64 + phnum * 56 ≤ file.len)
    (loads : ∀ seg ∈ (elfOf file phnum).loads,
      seg.vaddr + seg.filesz ≤ 2 ^ 64 ∧ seg.offset + seg.filesz ≤ file.len)
    (notes : ∀ seg ∈ (elfOf file phnum).noteSegments,
      seg.vaddr + seg.filesz ≤ 2 ^ 64) :
    (elfOf file phnum).WellFormed := by
  obtain ⟨phoff, phentsize, count⟩ := header
  refine ⟨ident.1, ident.2.1, ident.2.2, phentsize, ?_, ?_, loads, notes⟩
  · rw [show (elfOf file phnum).data = file from rfl, count, elfOf]
    simp
  · intro i seg found
    simp only [elfOf, List.getElem?_map, Option.map_eq_some_iff,
      List.getElem?_eq_some_iff, List.length_range, List.getElem_range] at found
    obtain ⟨_, ⟨below, rfl⟩, rfl⟩ := found
    have inside : 64 + i * 56 + 56 ≤ file.len := by omega
    refine ⟨phdrAt file i, ?_, rfl⟩
    rw [show (elfOf file phnum).data = file from rfl, phoff, Slice.get,
      if_pos ⟨Nat.le_add_right _ _, inside⟩, Option.some.injEq]
    apply Slice.ext_data
    dsimp only
    rw [Nat.add_sub_cancel_left]
    rfl

/-- One PT_NOTE, the PT_LOAD of the whole file, and the note. -/
def smallBytes : List UInt8 :=
  [0x7f, 0x45, 0x4c, 0x46, 2, 1, 1, 0, 0, 0, 0, 0, 0, 0, 0, 0,
    3, 0, 0x3e, 0, 1, 0, 0, 0, 0, 0, 0, 0, 0, 0, 0, 0,
    64, 0, 0, 0, 0, 0, 0, 0, 0, 0, 0, 0, 0, 0, 0, 0,
    0, 0, 0, 0, 64, 0, 56, 0, 2, 0, 0, 0, 0, 0, 0, 0,
    4, 0, 0, 0, 4, 0, 0, 0, 176, 0, 0, 0, 0, 0, 0, 0,
    176, 0, 0, 0, 0, 0, 0, 0, 176, 0, 0, 0, 0, 0, 0, 0,
    20, 0, 0, 0, 0, 0, 0, 0, 20, 0, 0, 0, 0, 0, 0, 0,
    4, 0, 0, 0, 0, 0, 0, 0,
    1, 0, 0, 0, 5, 0, 0, 0, 0, 0, 0, 0, 0, 0, 0, 0,
    0, 0, 0, 0, 0, 0, 0, 0, 0, 0, 0, 0, 0, 0, 0, 0,
    196, 0, 0, 0, 0, 0, 0, 0, 196, 0, 0, 0, 0, 0, 0, 0,
    0, 0x10, 0, 0, 0, 0, 0, 0,
    4, 0, 0, 0, 4, 0, 0, 0, 3, 0, 0, 0, 0x47, 0x4e, 0x55, 0,
    0xde, 0xad, 0xbe, 0xef]

theorem smallBytes_short : smallBytes.length < 2 ^ 63 := by
  have length : smallBytes.length = 196 := rfl
  rw [length]
  decide

def smallFile : Slice where
  data := smallBytes
  short := smallBytes_short

def smallNote : Segment := Segment.ofBytes (phdrAt smallFile 0)

def smallLoad : Segment := Segment.ofBytes (phdrAt smallFile 1)

def smallElf : ElfFile := elfOf smallFile 2

theorem smallNote_fields : smallNote.pType = ptNote ∧
    smallNote.offset = 176 ∧ smallNote.vaddr = 176 ∧
    smallNote.filesz = 20 := by
  decide

theorem smallLoad_fields : smallLoad.pType = ptLoad ∧
    smallLoad.offset = 0 ∧ smallLoad.vaddr = 0 ∧
    smallLoad.filesz = 196 := by
  decide

theorem loads_smallElf : smallElf.loads = [smallLoad] := by
  have segments : smallElf.segments = [smallNote, smallLoad] := rfl
  rw [ElfFile.loads, segments]
  simp [smallNote_fields, smallLoad_fields, ptNote, ptLoad]

theorem noteSegments_smallElf : smallElf.noteSegments = [smallNote] := by
  have segments : smallElf.segments = [smallNote, smallLoad] := rfl
  rw [ElfFile.noteSegments, segments]
  simp [smallNote_fields, smallLoad_fields, ptNote, ptLoad]

/-- A file in which one PT_LOAD maps the whole file to address 0 and one PT_NOTE
is where its address is in the file is its own image. -/
theorem ownImage {file : Slice} {phnum : Nat} {load note : Segment}
    (loads : (elfOf file phnum).loads = [load])
    (whole : load.offset = 0 ∧ load.vaddr = 0 ∧ load.filesz = file.len)
    (inside : note.vaddr = note.offset ∧ note.offset + note.filesz ≤ file.len)
    (headers : file.ePhoff = 64 ∧ file.ePhnum = phnum ∧
      64 + phnum * 56 ≤ file.len) :
    ImageOf (elfOf file phnum) 0 file ∧
      Shown (elfOf file phnum) 0 file [note] := by
  obtain ⟨offset, vaddr, filesz⟩ := whole
  obtain ⟨phoff, count, within⟩ := headers
  have data : (elfOf file phnum).data = file := rfl
  have loaded : load ∈ (elfOf file phnum).loads := by simp [loads]
  have imageOf : ImageOf (elfOf file phnum) 0 file := by
    constructor
    · rw [ElfFile.imageBase_eq_some, loads]
      simp [vaddr]
    · intro other member i _ _
      rw [loads, List.mem_singleton] at member
      subst member
      rw [vaddr, offset, data, Nat.sub_zero]
  refine ⟨imageOf, imageOf.base_eq, fun i inHeaders => ?_, fun seg member => ?_⟩
  · have inFile : i < file.len := by
      rw [ElfFile.InHeaders, data, phoff, count] at inHeaders
      omega
    exact ⟨inFile, imageOf.headersShown loaded vaddr offset (by omega) inFile⟩
  · rw [List.mem_singleton.mp member]
    exact imageOf.noteShown loaded (by omega) (by omega) (by omega) (by omega)

theorem smallFile_header : (smallFile.data.take 4 = elfMagic ∧
      smallFile.data[4]? = some 2 ∧ smallFile.data[5]? = some 1) ∧
    (smallFile.ePhoff = 64 ∧ smallFile.ePhentsize = 56 ∧
      smallFile.ePhnum = 2) ∧ smallFile.len = 196 := by
  exact ⟨⟨rfl, rfl, rfl⟩, ⟨by decide, by decide, by decide⟩, rfl⟩

theorem smallElf_wellFormed : smallElf.WellFormed := by
  obtain ⟨ident, header, length⟩ := smallFile_header
  refine elfOf_wellFormed ident header (by omega) ?_ ?_
  · intro seg member
    have loads := loads_smallElf
    rw [smallElf] at loads
    rw [loads, List.mem_singleton] at member
    subst member
    obtain ⟨_, offset, vaddr, filesz⟩ := smallLoad_fields
    omega
  · intro seg member
    have notes := noteSegments_smallElf
    rw [smallElf] at notes
    rw [notes, List.mem_singleton] at member
    subst member
    obtain ⟨_, offset, vaddr, filesz⟩ := smallNote_fields
    omega

theorem smallElf_image : ImageOf smallElf 0 smallFile ∧
    Shown smallElf 0 smallFile [smallNote] := by
  obtain ⟨_, header, length⟩ := smallFile_header
  obtain ⟨_, offset, vaddr, filesz⟩ := smallLoad_fields
  obtain ⟨_, noteOffset, noteVaddr, noteFilesz⟩ := smallNote_fields
  exact ownImage loads_smallElf (by omega) (by omega) (by omega)

theorem smallElf_hasBuildId : smallElf.HasBuildId smallNote := by
  have scans : ((smallElf.noteBytes smallNote.offset smallNote.filesz).bind
      fun bytes => (buildIdFromNotes bytes).bind id).isSome := by
    decide +kernel
  obtain ⟨id, found⟩ := Option.isSome_iff_exists.mp scans
  obtain ⟨bytes, read, scanned⟩ := Option.bind_eq_some_iff.mp found
  obtain ⟨result, scanned, rfl⟩ := Option.bind_eq_some_iff.mp scanned
  exact ⟨bytes, id, read, scanned⟩

theorem buildIdFromImagePrefix_eq_small :
    smallFile.buildIdFromImagePrefix.isSome ∧
      smallFile.buildIdFromImagePrefix = smallElf.buildId := by
  obtain ⟨_, header, _⟩ := smallFile_header
  exact ⟨buildIdFromImagePrefix_eq.1 smallFile,
    buildIdFromImagePrefix_eq.2 smallElf 0 smallFile [] [] smallNote
      smallElf_wellFormed (header.2.2.trans_le (by decide))
      noteSegments_smallElf smallElf_hasBuildId (by simp) smallElf_image.2⟩

/-- An ELF header for 4097 program headers, a PT_NOTE, the PT_LOAD of the whole
file, and a PT_NULL with the note in its unused fields. -/
def crowdedHead : List UInt8 :=
  [0x7f, 0x45, 0x4c, 0x46, 2, 1, 1, 0, 0, 0, 0, 0, 0, 0, 0, 0,
    3, 0, 0x3e, 0, 1, 0, 0, 0, 0, 0, 0, 0, 0, 0, 0, 0,
    64, 0, 0, 0, 0, 0, 0, 0, 0, 0, 0, 0, 0, 0, 0, 0,
    0, 0, 0, 0, 64, 0, 56, 0, 1, 16, 0, 0, 0, 0, 0, 0,
    4, 0, 0, 0, 4, 0, 0, 0, 184, 0, 0, 0, 0, 0, 0, 0,
    184, 0, 0, 0, 0, 0, 0, 0, 184, 0, 0, 0, 0, 0, 0, 0,
    20, 0, 0, 0, 0, 0, 0, 0, 20, 0, 0, 0, 0, 0, 0, 0,
    4, 0, 0, 0, 0, 0, 0, 0,
    1, 0, 0, 0, 5, 0, 0, 0, 0, 0, 0, 0, 0, 0, 0, 0,
    0, 0, 0, 0, 0, 0, 0, 0, 0, 0, 0, 0, 0, 0, 0, 0,
    0x78, 0x80, 3, 0, 0, 0, 0, 0, 0x78, 0x80, 3, 0, 0, 0, 0, 0,
    0, 0x10, 0, 0, 0, 0, 0, 0,
    0, 0, 0, 0, 0, 0, 0, 0, 4, 0, 0, 0, 4, 0, 0, 0,
    3, 0, 0, 0, 0x47, 0x4e, 0x55, 0, 0xde, 0xad, 0xbe, 0xef, 0, 0, 0, 0,
    0, 0, 0, 0, 0, 0, 0, 0, 0, 0, 0, 0, 0, 0, 0, 0,
    0, 0, 0, 0, 0, 0, 0, 0]

def crowdedBytes : List UInt8 :=
  crowdedHead ++ List.replicate 229264 0

theorem length_crowdedBytes : crowdedBytes.length = 229496 := by
  rw [crowdedBytes, List.length_append, List.length_replicate]
  rfl

theorem crowdedBytes_short : crowdedBytes.length < 2 ^ 63 := by
  rw [length_crowdedBytes]
  decide

def crowdedFile : Slice where
  data := crowdedBytes
  short := crowdedBytes_short

def crowdedElf : ElfFile := elfOf crowdedFile 4097

theorem leValue_replicate_zero (n : Nat) :
    leValue (List.replicate n 0) = 0 := by
  induction n with
  | zero => rfl
  | succ n induction => simp [List.replicate_succ, leValue, induction]

theorem phdrAt_crowdedFile (i : Nat) :
    (Segment.ofBytes (phdrAt crowdedFile (3 + i))).pType = 0 := by
  have head : crowdedHead.length = 232 := rfl
  have zeros : (phdrAt crowdedFile (3 + i)).data =
      List.replicate (min 56 (229264 - i * 56)) 0 := by
    have past : 64 + (3 + i) * 56 = crowdedHead.length + i * 56 := by omega
    rw [phdrAt, crowdedFile]
    dsimp only
    rw [crowdedBytes, past, List.drop_length_add_append, List.drop_replicate,
      List.take_replicate]
  rw [Segment.ofBytes]
  dsimp only
  rw [Slice.u32At, Slice.numberAt, zeros, List.drop_replicate,
    List.take_replicate, leValue_replicate_zero]

theorem filter_crowdedElf {pType : Nat} (pos : pType ≠ 0) :
    crowdedElf.segments.filter (·.pType = pType) =
      ((List.range 3).map fun i => Segment.ofBytes (phdrAt crowdedFile i)).filter
        (·.pType = pType) := by
  have split : List.range 4097 =
      List.range 3 ++ (List.range 4094).map (3 + ·) :=
    @List.range_add 3 4094
  rw [crowdedElf, elfOf]
  dsimp only
  rw [split, List.map_append, List.filter_append]
  have rest : (((List.range 4094).map (3 + ·)).map fun i =>
      Segment.ofBytes (phdrAt crowdedFile i)).filter (·.pType = pType) = [] := by
    rw [List.filter_eq_nil_iff]
    intro seg member
    rw [List.map_map] at member
    obtain ⟨i, _, rfl⟩ := List.mem_map.mp member
    simp only [Function.comp_apply, phdrAt_crowdedFile, decide_eq_true_eq]
    exact pos.symm
  rw [rest, List.append_nil]

def crowdedNote : Segment := Segment.ofBytes (phdrAt crowdedFile 0)

def crowdedLoad : Segment := Segment.ofBytes (phdrAt crowdedFile 1)

theorem crowdedNote_fields : crowdedNote.pType = ptNote ∧
    crowdedNote.offset = 184 ∧ crowdedNote.vaddr = 184 ∧
    crowdedNote.filesz = 20 := by
  decide

theorem crowdedLoad_fields : crowdedLoad.pType = ptLoad ∧
    crowdedLoad.offset = 0 ∧ crowdedLoad.vaddr = 0 ∧
    crowdedLoad.filesz = 229496 := by
  decide

theorem segments_crowdedElf {pType : Nat} (pos : pType ≠ 0) :
    crowdedElf.segments.filter (·.pType = pType) =
      [crowdedNote, crowdedLoad].filter (·.pType = pType) := by
  have third : (Segment.ofBytes (phdrAt crowdedFile 2)).pType = 0 := by
    decide
  have list : (List.range 3).map (fun i => Segment.ofBytes (phdrAt crowdedFile i)) =
      [crowdedNote, crowdedLoad] ++ [Segment.ofBytes (phdrAt crowdedFile 2)] := rfl
  have none : [Segment.ofBytes (phdrAt crowdedFile 2)].filter (·.pType = pType) =
      [] := by
    simp [third, pos.symm]
  rw [filter_crowdedElf pos, list, List.filter_append, none, List.append_nil]

theorem loads_crowdedElf : crowdedElf.loads = [crowdedLoad] := by
  rw [ElfFile.loads, segments_crowdedElf (by decide)]
  simp [crowdedNote_fields, crowdedLoad_fields, ptNote, ptLoad]

theorem noteSegments_crowdedElf :
    crowdedElf.noteSegments = [crowdedNote] := by
  rw [ElfFile.noteSegments, segments_crowdedElf (by decide)]
  simp [crowdedNote_fields, crowdedLoad_fields, ptNote, ptLoad]

theorem crowdedFile_header : (crowdedFile.data.take 4 = elfMagic ∧
      crowdedFile.data[4]? = some 2 ∧ crowdedFile.data[5]? = some 1) ∧
    crowdedFile.ePhoff = 64 ∧ crowdedFile.ePhentsize = 56 ∧
      crowdedFile.ePhnum = 4097 := by
  decide

theorem len_crowdedFile : crowdedFile.len = 229496 :=
  length_crowdedBytes

theorem crowdedElf_wellFormed : crowdedElf.WellFormed := by
  obtain ⟨ident, header⟩ := crowdedFile_header
  have length := len_crowdedFile
  refine elfOf_wellFormed ident header (by omega) ?_ ?_
  · intro seg member
    have loads := loads_crowdedElf
    rw [crowdedElf] at loads
    rw [loads, List.mem_singleton] at member
    subst member
    obtain ⟨_, offset, vaddr, filesz⟩ := crowdedLoad_fields
    omega
  · intro seg member
    have notes := noteSegments_crowdedElf
    rw [crowdedElf] at notes
    rw [notes, List.mem_singleton] at member
    subst member
    obtain ⟨_, offset, vaddr, filesz⟩ := crowdedNote_fields
    omega

theorem crowdedElf_image : ImageOf crowdedElf 0 crowdedFile ∧
    Shown crowdedElf 0 crowdedFile [crowdedNote] := by
  obtain ⟨_, header⟩ := crowdedFile_header
  have length := len_crowdedFile
  obtain ⟨_, offset, vaddr, filesz⟩ := crowdedLoad_fields
  obtain ⟨_, noteOffset, noteVaddr, noteFilesz⟩ := crowdedNote_fields
  exact ownImage loads_crowdedElf (by omega) (by omega) (by omega)

theorem noteBytes_crowdedNote : ∃ bytes id,
    crowdedElf.noteBytes crowdedNote.offset crowdedNote.filesz = some bytes ∧
      buildIdFromNotes bytes = some (some id) := by
  obtain ⟨_, noteOffset, _, noteFilesz⟩ := crowdedNote_fields
  have inside : 184 ≤ 184 + 20 ∧ 184 + 20 ≤ crowdedFile.len := by
    rw [len_crowdedFile]
    decide
  have scans : ((buildIdFromNotes ⟨(crowdedFile.data.drop 184).take
      (184 + 20 - 184), crowdedFile.short_range 184 (184 + 20 - 184)⟩).map
        Option.isSome) = some true := by
    decide +kernel
  obtain ⟨result, scanned, isSome⟩ := Option.map_eq_some_iff.mp scans
  obtain ⟨id, rfl⟩ := Option.isSome_iff_exists.mp isSome
  refine ⟨_, id, ?_, scanned⟩
  rw [noteOffset, noteFilesz, ElfFile.noteBytes, if_neg (by decide),
    ElfFile.read, show crowdedElf.data = crowdedFile from rfl, Slice.get,
    if_pos inside]

/-- With 4097 program headers the prefix reader gives up, and the file has a
build-id. -/
theorem not_buildIdFromImagePrefix_crowded :
    crowdedElf.WellFormed ∧ ImageOf crowdedElf 0 crowdedFile ∧
      crowdedElf.noteSegments = [crowdedNote] ∧
      Shown crowdedElf 0 crowdedFile [crowdedNote] ∧
      crowdedElf.HasBuildId crowdedNote ∧
      crowdedFile.buildIdFromImagePrefix ≠ crowdedElf.buildId := by
  obtain ⟨bytes, id, read, scanned⟩ := noteBytes_crowdedNote
  obtain ⟨_, _, _, phnum⟩ := crowdedFile_header
  refine ⟨crowdedElf_wellFormed, crowdedElf_image.1, noteSegments_crowdedElf,
    crowdedElf_image.2, ⟨bytes, id, read, scanned⟩, fun same => ?_⟩
  have fromFile : crowdedElf.buildId = some (some id) := by
    rw [ElfFile.buildId, noteSegments_crowdedElf, List.map_singleton, read,
      List.singleton_append, firstBuildId, scanned]
  have fromImage : crowdedFile.buildIdFromImagePrefix = some none := by
    rw [Slice.buildIdFromImagePrefix]
    split
    · rfl
    · split
      · rfl
      · rw [if_pos (.inr (.inr (by omega)))]
  rw [fromFile, fromImage] at same
  cases same

end Sismo.Elf
