import Mathlib.Data.List.Find
import Mathlib.Data.List.TakeWhile
import Sismo.Elf.Slice

namespace Sismo.Elf

/-! The two scanners of ELF notes for a GNU build-id, and the list of notes
they scan. -/

def ntGnuBuildId : Nat := 3

/-- `GNU` in ASCII. -/
def gnu : List UInt8 := [0x47, 0x4e, 0x55]

namespace Slice

/-! The note at an offset: its header fields and where its name and its
descriptor are. -/

def namesz (notes : Slice) (off : Nat) : Nat := notes.u32At off

def descsz (notes : Slice) (off : Nat) : Nat := notes.u32At (off + 4)

def ntype (notes : Slice) (off : Nat) : Nat := notes.u32At (off + 8)

def nameOff (off : Nat) : Nat := off + 12

def descOff (notes : Slice) (off : Nat) : Nat :=
  nameOff off + alignUp (notes.namesz off) 4

def descEnd (notes : Slice) (off : Nat) : Nat :=
  notes.descOff off + notes.descsz off

def nextNote (notes : Slice) (off : Nat) : Nat :=
  notes.descOff off + alignUp (notes.descsz off) 4

theorem lt_descOff (notes : Slice) (off : Nat) :
    off + 12 ≤ notes.descOff off :=
  Nat.le_add_right _ _

theorem descEnd_le_nextNote (notes : Slice) (off : Nat) :
    notes.descEnd off ≤ notes.nextNote off :=
  Nat.add_le_add_left (le_alignUp _ (by decide)) _

theorem alignUp_le (n : Nat) : alignUp n 4 ≤ n + 3 :=
  Nat.div_mul_le_self _ _

theorem nextNote_lt (notes : Slice) (off : Nat) :
    notes.nextNote off < off + 2 ^ 34 := by
  have name := alignUp_le (notes.namesz off)
  have desc := alignUp_le (notes.descsz off)
  have nameFits : notes.namesz off < 2 ^ 32 := notes.u32At_lt _
  have descFits : notes.descsz off < 2 ^ 32 := notes.u32At_lt _
  rw [nextNote, descOff, nameOff]
  omega

end Slice

/-- `build_id_from_notes` from an offset on: none where the code panics. -/
def buildIdFromNotesLoop (notes : Slice) (off : Nat) : Option (Option Slice) :=
  if 2 ^ 64 ≤ off + 12 then none
  else if off + 12 ≤ notes.len then
    if 2 ^ 64 ≤ notes.nextNote off then none
    else if notes.len < notes.nextNote off then some none
    else if notes.ntype off = ntGnuBuildId ∧ 4 ≤ notes.namesz off then
      match notes.get (Slice.nameOff off) (Slice.nameOff off + 3) with
      | none => none
      | some name =>
          if name.data = gnu then
            (notes.get (notes.descOff off) (notes.descEnd off)).map some
          else buildIdFromNotesLoop notes (notes.nextNote off)
    else buildIdFromNotesLoop notes (notes.nextNote off)
  else some none
termination_by notes.len - off
decreasing_by
  all_goals
    have := notes.lt_descOff off
    have := notes.descEnd_le_nextNote off
    have : notes.descOff off ≤ notes.descEnd off := Nat.le_add_right _ _
    omega

def buildIdFromNotes (notes : Slice) : Option (Option Slice) :=
  buildIdFromNotesLoop notes 0

/-- `read_kernel_build_id` from an offset of the notes file on: none where the
code panics. -/
def readKernelBuildIdLoop (notes : Slice) (off : Nat) : Option (List UInt8) :=
  if 2 ^ 64 ≤ off + 12 then none
  else if off + 12 ≤ notes.len then
    if 2 ^ 64 ≤ notes.descEnd off then none
    else if notes.len < notes.descEnd off then some []
    else if notes.ntype off = 3 ∧
        (notes.get (Slice.nameOff off) (Slice.nameOff off + 4)).map
          Slice.data = some (gnu ++ [0]) then
      (notes.get (notes.descOff off) (notes.descEnd off)).map Slice.data
    else if 2 ^ 64 ≤ notes.nextNote off then none
    else readKernelBuildIdLoop notes (notes.nextNote off)
  else some []
termination_by notes.len - off
decreasing_by
  have := notes.lt_descOff off
  have := notes.descEnd_le_nextNote off
  have : notes.descOff off ≤ notes.descEnd off := Nat.le_add_right _ _
  omega

def readKernelBuildId (notes : Slice) : Option (List UInt8) :=
  readKernelBuildIdLoop notes 0

/-! The list of notes, and which of them each scanner takes. -/

/-- The offsets of the notes from one on. A note is in the bytes with its
descriptor; the padding after the last one may be missing. -/
def noteList (notes : Slice) (off : Nat) : List Nat :=
  if off + 12 ≤ notes.len ∧ notes.descEnd off ≤ notes.len then
    off :: noteList notes (notes.nextNote off)
  else []
termination_by notes.len - off
decreasing_by
  have := notes.lt_descOff off
  have := notes.descEnd_le_nextNote off
  have : notes.descOff off ≤ notes.descEnd off := Nat.le_add_right _ _
  omega

namespace Slice

def desc (notes : Slice) (off : Nat) : List UInt8 :=
  (notes.data.drop (notes.descOff off)).take (notes.descsz off)

def nameBytes (notes : Slice) (off count : Nat) : List UInt8 :=
  (notes.data.drop (nameOff off)).take count

/-- A GNU build-id note: its name is `GNU` with the terminating zero. -/
def IsBuildId (notes : Slice) (off : Nat) : Prop :=
  notes.ntype off = 3 ∧ notes.namesz off = 4 ∧
    notes.nameBytes off 4 = gnu ++ [0]

/-- The test of `build_id_from_notes`, with the padding it asks for. -/
def TakenFromFile (notes : Slice) (off : Nat) : Prop :=
  notes.nextNote off ≤ notes.len ∧ notes.ntype off = 3 ∧
    4 ≤ notes.namesz off ∧ notes.nameBytes off 3 = gnu

def TakenFromKernel (notes : Slice) (off : Nat) : Prop :=
  notes.ntype off = 3 ∧ notes.nameBytes off 4 = gnu ++ [0]

instance (notes : Slice) : DecidablePred notes.IsBuildId :=
  fun _ => inferInstanceAs (Decidable (_ ∧ _))

instance (notes : Slice) : DecidablePred notes.TakenFromFile :=
  fun _ => inferInstanceAs (Decidable (_ ∧ _))

instance (notes : Slice) : DecidablePred notes.TakenFromKernel :=
  fun _ => inferInstanceAs (Decidable (_ ∧ _))

def firstDesc (notes : Slice) (takes : Nat → Prop) [DecidablePred takes] :
    Option (List UInt8) :=
  ((noteList notes 0).find? (takes ·)).map notes.desc

variable {notes : Slice} {off : Nat}

theorem get_nameOff_eq_some_iff {count : Nat} {name : List UInt8}
    (length : name.length = count) (pos : 0 < count) :
    (notes.get (nameOff off) (nameOff off + count)).map Slice.data =
        some name ↔ notes.nameBytes off count = name := by
  rw [nameBytes]
  by_cases within : nameOff off + count ≤ notes.len
  · rw [map_data_get (Nat.le_add_right _ _) within, Nat.add_sub_cancel_left,
      Option.some.injEq]
  · rw [get, if_neg fun both => within both.2]
    refine iff_of_false (by simp) fun same => within ?_
    have bytes := congrArg List.length same
    rw [List.length_take, List.length_drop, length] at bytes
    have available := Nat.min_le_right count
      (notes.data.length - nameOff off)
    rw [bytes] at available
    rw [len]
    omega

/-- The descriptor of a note of the list is in the bytes. -/
theorem get_descOff (within : notes.descEnd off ≤ notes.len) :
    (notes.get (notes.descOff off) (notes.descEnd off)).map Slice.data =
      some (notes.desc off) := by
  have le : notes.descOff off ≤ notes.descEnd off := Nat.le_add_right _ _
  rw [map_data_get le within, desc, descEnd, Nat.add_sub_cancel_left]

end Slice

variable {notes : Slice} {off : Nat}

theorem noteList_eq_nil (past : notes.len < off + 12) :
    noteList notes off = [] := by
  rw [noteList, if_neg fun within => Nat.not_le_of_lt past within.1]

theorem buildIdFromNotesLoop_eq (small : off < 2 ^ 63 + 2 ^ 34) :
    (buildIdFromNotesLoop notes off).map (Option.map Slice.data) =
      some (((noteList notes off).find? (notes.TakenFromFile ·)).map
        notes.desc) := by
  have length := notes.len_lt
  have near := notes.nextNote_lt off
  have padded := notes.descEnd_le_nextNote off
  fun_induction noteList notes off with
  | case1 off within induction =>
      have fits : ¬ 2 ^ 64 ≤ notes.nextNote off := by omega
      have rest := induction (by omega) (notes.nextNote_lt _)
        (notes.descEnd_le_nextNote _)
      rw [buildIdFromNotesLoop, if_neg (by omega), if_pos within.1,
        if_neg fits]
      by_cases unpadded : notes.len < notes.nextNote off
      · have refused : ¬ notes.TakenFromFile off :=
          fun taken => Nat.not_le_of_lt unpadded taken.1
        rw [if_pos unpadded, noteList_eq_nil (by omega)]
        simp [refused]
      · rw [if_neg unpadded]
        by_cases candidate : notes.ntype off = ntGnuBuildId ∧
            4 ≤ notes.namesz off
        · have nameSize := le_alignUp (notes.namesz off) (show 0 < 4 by decide)
          have name := @Slice.get_nameOff_eq_some_iff notes off 3 gnu rfl
            (by decide)
          have inside : (notes.get (Slice.nameOff off)
              (Slice.nameOff off + 3)).isSome := by
            apply Slice.get_isSome_iff.mpr
            have : notes.descOff off ≤ notes.descEnd off :=
              Nat.le_add_right _ _
            rw [Slice.descOff] at this
            omega
          rw [if_pos candidate]
          cases bytes : notes.get (Slice.nameOff off)
              (Slice.nameOff off + 3) with
          | none => simp [bytes] at inside
          | some found =>
              rw [bytes, Option.map_some, Option.some.injEq] at name
              by_cases isGnu : found.data = gnu
              · have taken : notes.TakenFromFile off :=
                  ⟨Nat.not_lt.mp unpadded, candidate.1, candidate.2,
                    name.mp isGnu⟩
                have desc := congrArg (Option.map some)
                  (Slice.get_descOff within.2)
                rw [Option.map_map, Option.map_some] at desc
                simp only [isGnu, ↓reduceIte, List.find?_cons, taken,
                  decide_true, Option.map_some, Option.map_map, ← desc]
                rfl
              · have refused : ¬ notes.TakenFromFile off :=
                  fun taken => isGnu (name.mpr taken.2.2.2)
                simp only [isGnu, ↓reduceIte, List.find?_cons, refused,
                  decide_false, rest]
        · have refused : ¬ notes.TakenFromFile off :=
            fun taken => candidate ⟨taken.2.1, taken.2.2.1⟩
          simp only [candidate, ↓reduceIte, List.find?_cons, refused,
            decide_false, rest]
  | case2 off outside =>
      rw [buildIdFromNotesLoop, if_neg (by omega)]
      split
      · rw [if_neg (by omega), if_pos (by omega)]
        rfl
      · rfl

theorem readKernelBuildIdLoop_eq (small : off < 2 ^ 63 + 2 ^ 34) :
    readKernelBuildIdLoop notes off =
      some ((((noteList notes off).find? (notes.TakenFromKernel ·)).map
        notes.desc).getD []) := by
  have length := notes.len_lt
  have near := notes.nextNote_lt off
  have padded := notes.descEnd_le_nextNote off
  fun_induction noteList notes off with
  | case1 off within induction =>
      have rest := induction (by omega) (notes.nextNote_lt _)
        (notes.descEnd_le_nextNote _)
      have taken : notes.ntype off = 3 ∧
          (notes.get (Slice.nameOff off) (Slice.nameOff off + 4)).map
            Slice.data = some (gnu ++ [0]) ↔ notes.TakenFromKernel off :=
        and_congr_right fun _ =>
          Slice.get_nameOff_eq_some_iff rfl (by decide)
      rw [readKernelBuildIdLoop, if_neg (by omega), if_pos within.1,
        if_neg (by omega), if_neg (by omega), List.find?_cons]
      simp only [taken]
      by_cases takes : notes.TakenFromKernel off
      · simp only [takes, ↓reduceIte, decide_true, Option.map_some,
          Option.getD_some, Slice.get_descOff within.2]
      · rw [if_neg takes, if_neg (by omega), rest]
        simp only [takes, decide_false]
  | case2 off outside =>
      rw [readKernelBuildIdLoop, if_neg (by omega)]
      split
      · rw [if_neg (by omega), if_pos (by omega)]
        rfl
      · rfl

/-- Both scanners return the descriptor of the first build-id note, an absent
one as none or as no bytes. -/
def ScannersAgree (notes : Slice) : Prop :=
  (buildIdFromNotes notes).map (Option.map Slice.data) =
      some (notes.firstDesc notes.IsBuildId) ∧
    readKernelBuildId notes =
      some ((notes.firstDesc notes.IsBuildId).getD [])

namespace Slice

/-- A note that is not a build-id note, and that `build_id_from_notes` takes for
one: its name only begins with `GNU`. -/
def FileLookalike (notes : Slice) (off : Nat) : Prop :=
  notes.ntype off = 3 ∧ 4 ≤ notes.namesz off ∧ notes.nameBytes off 3 = gnu ∧
    notes.nextNote off ≤ notes.len ∧
    (notes.namesz off ≠ 4 ∨ notes.nameBytes off 4 ≠ gnu ++ [0])

/-- A note that is not a build-id note, and that `read_kernel_build_id` takes
for one: its name does not have four bytes. -/
def KernelLookalike (notes : Slice) (off : Nat) : Prop :=
  notes.ntype off = 3 ∧ notes.nameBytes off 4 = gnu ++ [0] ∧
    notes.namesz off ≠ 4

instance (notes : Slice) : DecidablePred notes.FileLookalike :=
  fun _ => inferInstanceAs (Decidable (_ ∧ _))

instance (notes : Slice) : DecidablePred notes.KernelLookalike :=
  fun _ => inferInstanceAs (Decidable (_ ∧ _))

def notesBefore (notes : Slice) : List Nat :=
  (noteList notes 0).takeWhile fun off => ¬notes.IsBuildId off

def firstBuildIdNote (notes : Slice) : Option Nat :=
  (noteList notes 0).find? (notes.IsBuildId ·)

/-- No note before the first build-id note looks like one to
`build_id_from_notes`, and that note has its padding; or the first that does has
the same descriptor. -/
def FileClear (notes : Slice) : Prop :=
  match notes.notesBefore.find? (notes.FileLookalike ·),
      notes.firstBuildIdNote with
  | none, none => True
  | none, some first => notes.nextNote first ≤ notes.len
  | some _, none => False
  | some other, some first => notes.desc other = notes.desc first

/-- No note before the first build-id note looks like one to
`read_kernel_build_id`; or the first that does has the same descriptor, or an
empty one where there is no build-id note. -/
def KernelClear (notes : Slice) : Prop :=
  match notes.notesBefore.find? (notes.KernelLookalike ·) with
  | none => True
  | some other =>
      notes.desc other = (notes.firstBuildIdNote.map notes.desc).getD []

theorem takenFromFile_iff {notes : Slice} {off : Nat} :
    notes.TakenFromFile off ↔ notes.FileLookalike off ∨
      (notes.IsBuildId off ∧ notes.nextNote off ≤ notes.len) := by
  have short : notes.nameBytes off 4 = gnu ++ [0] →
      notes.nameBytes off 3 = gnu := by
    intro name
    have cut := congrArg (List.take 3) name
    rwa [nameBytes, List.take_take] at cut
  unfold TakenFromFile FileLookalike IsBuildId
  constructor
  · rintro ⟨padded, type, size, name⟩
    by_cases genuine : notes.namesz off = 4 ∧
        notes.nameBytes off 4 = gnu ++ [0]
    · exact .inr ⟨⟨type, genuine⟩, padded⟩
    · exact .inl ⟨type, size, name, padded, by
        rwa [not_and_or] at genuine⟩
  · rintro (⟨type, size, name, padded, _⟩ | ⟨⟨type, size, name⟩, padded⟩)
    · exact ⟨padded, type, size, name⟩
    · exact ⟨padded, type, size.ge, short name⟩

theorem takenFromKernel_iff {notes : Slice} {off : Nat} :
    notes.TakenFromKernel off ↔
      notes.KernelLookalike off ∨ notes.IsBuildId off := by
  unfold TakenFromKernel KernelLookalike IsBuildId
  by_cases size : notes.namesz off = 4 <;> simp [size]

end Slice

theorem noteList_rest {before after : List Nat} {first : Nat}
    (list : noteList notes off = before ++ first :: after) :
    after = noteList notes (notes.nextNote first) := by
  fun_induction noteList notes off generalizing before with
  | case1 off within induction =>
      cases before with
      | nil =>
          cases list
          rfl
      | cons head before =>
          rw [List.cons_append, List.cons.injEq] at list
          exact induction list.2
  | case2 off outside => simp at list

theorem noteList_split (notes : Slice) :
    (notes.firstBuildIdNote = none ∧ notes.notesBefore = noteList notes 0 ∧
      ∀ off ∈ noteList notes 0, ¬notes.IsBuildId off) ∨
    ∃ first, notes.firstBuildIdNote = some first ∧ notes.IsBuildId first ∧
      (∀ off ∈ notes.notesBefore, ¬notes.IsBuildId off) ∧
      noteList notes 0 =
        notes.notesBefore ++
          first :: noteList notes (notes.nextNote first) := by
  cases found : notes.firstBuildIdNote with
  | none =>
      have others := List.find?_eq_none.mp found
      simp only [decide_eq_true_eq] at others
      refine .inl ⟨rfl, List.takeWhile_eq_self_iff.mpr fun off member => ?_,
        others⟩
      simpa using others off member
  | some first =>
      obtain ⟨genuine, before, after, list, others⟩ :=
        List.find?_eq_some_iff_append.mp found
      simp only [Bool.not_eq_true', decide_eq_false_iff_not] at others
      have cut : notes.notesBefore = before := by
        rw [Slice.notesBefore, list, List.takeWhile_append_of_pos fun off
          member => by simpa using others off member,
          List.takeWhile_cons_of_neg (by simpa using genuine),
          List.append_nil]
      rw [cut]
      refine .inr ⟨first, rfl, by simpa using genuine, others, ?_⟩
      rw [list, ← noteList_rest list]

theorem fileClear_iff (notes : Slice) :
    notes.firstDesc notes.TakenFromFile = notes.firstDesc notes.IsBuildId ↔
      notes.FileClear := by
  have alike : ∀ {list : List Nat}, (∀ off ∈ list, ¬notes.IsBuildId off) →
      list.find? (notes.TakenFromFile ·) =
        list.find? (notes.FileLookalike ·) := by
    intro list others
    refine List.find?_congr fun off member => ?_
    simp [Slice.takenFromFile_iff, others off member]
  rw [Slice.firstDesc, Slice.firstDesc, Slice.FileClear,
    ← Slice.firstBuildIdNote]
  rcases noteList_split notes with ⟨absent, all, others⟩ |
    ⟨first, found, genuine, others, list⟩
  · rw [absent, all, alike others]
    cases (noteList notes 0).find? (notes.FileLookalike ·) <;> simp
  · rw [found, list, List.find?_append, alike others]
    cases notes.notesBefore.find? (notes.FileLookalike ·) with
    | some other => simp
    | none =>
        by_cases padded : notes.nextNote first ≤ notes.len
        · have taken : notes.TakenFromFile first :=
            Slice.takenFromFile_iff.mpr (.inr ⟨genuine, padded⟩)
          simp [taken, padded]
        · have refused : ¬notes.TakenFromFile first := fun taken =>
            padded taken.1
          rw [noteList_eq_nil (by omega)]
          simp [refused, padded]

theorem kernelClear_iff (notes : Slice) :
    (notes.firstDesc notes.TakenFromKernel).getD [] =
        (notes.firstDesc notes.IsBuildId).getD [] ↔ notes.KernelClear := by
  have alike : ∀ {list : List Nat}, (∀ off ∈ list, ¬notes.IsBuildId off) →
      list.find? (notes.TakenFromKernel ·) =
        list.find? (notes.KernelLookalike ·) := by
    intro list others
    refine List.find?_congr fun off member => ?_
    simp [Slice.takenFromKernel_iff, others off member]
  rw [Slice.firstDesc, Slice.firstDesc, Slice.KernelClear,
    ← Slice.firstBuildIdNote]
  rcases noteList_split notes with ⟨absent, all, others⟩ |
    ⟨first, found, genuine, others, list⟩
  · rw [absent, all, alike others]
    cases (noteList notes 0).find? (notes.KernelLookalike ·) <;> simp
  · have taken : notes.TakenFromKernel first :=
      Slice.takenFromKernel_iff.mpr (.inr genuine)
    rw [found, list, List.find?_append, alike others]
    cases notes.notesBefore.find? (notes.KernelLookalike ·) <;> simp [taken]

/-- Neither scanner panics, and they agree exactly where nothing before the
build-id note looks like one to either, and it has its padding. -/
theorem scannersAgree_iff (notes : Slice) :
    (buildIdFromNotes notes).isSome ∧ (readKernelBuildId notes).isSome ∧
      (ScannersAgree notes ↔ notes.FileClear ∧ notes.KernelClear) := by
  have file := @buildIdFromNotesLoop_eq notes 0 (by decide)
  have kernel := @readKernelBuildIdLoop_eq notes 0 (by decide)
  refine ⟨?_, ?_, ?_⟩
  · rw [← Option.isSome_map (f := Option.map Slice.data), buildIdFromNotes,
      file]
    rfl
  · rw [readKernelBuildId, kernel]
    rfl
  · rw [ScannersAgree, buildIdFromNotes, readKernelBuildId, file, kernel,
      Option.some.injEq, Option.some.injEq, ← fileClear_iff,
      ← kernelClear_iff]
    rfl

/-- A build-id note at the end of the bytes, without padding. -/
def unpaddedNotes : Slice where
  data := [4, 0, 0, 0, 5, 0, 0, 0, 3, 0, 0, 0, 0x47, 0x4e, 0x55, 0,
    1, 2, 3, 4, 5]
  short := by decide

/-- The kernel's scanner returns its descriptor, the other one none. -/
theorem not_scannersAgree_unpadded :
    readKernelBuildId unpaddedNotes = some [1, 2, 3, 4, 5] ∧
      (buildIdFromNotes unpaddedNotes).map (Option.map Slice.data) =
        some none ∧
      ¬ ScannersAgree unpaddedNotes := by
  have kernel : readKernelBuildId unpaddedNotes = some [1, 2, 3, 4, 5] := by
    decide +kernel
  have file : (buildIdFromNotes unpaddedNotes).map (Option.map Slice.data) =
      some none := by decide +kernel
  refine ⟨kernel, file, fun agree => ?_⟩
  obtain ⟨fromFile, fromKernel⟩ := agree
  rw [file, Option.some.injEq] at fromFile
  rw [kernel, ← fromFile] at fromKernel
  cases fromKernel

end Sismo.Elf
