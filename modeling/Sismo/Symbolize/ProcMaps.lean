import Sismo.Lib.HashMap
import Sismo.Lib.Text

namespace Sismo.Symbolize.ProcMaps

/-! The mappings of `/proc/<pid>/maps`, and the load bases they carry. -/

abbrev Bytes := List UInt8

structure Line where
  start : Nat
  stop : Nat
  offset : Nat
  devMajor : Nat
  devMinor : Nat
  inode : Nat
  exec : Bool
  path : Bytes
  deriving DecidableEq

def number (radix bound : Nat) (token : Bytes) : Option Nat :=
  fromStrRadix radix bound (token.map UInt8.toNat)

/-- The line of the words before any further ones. -/
def lineOfWords (range perms offsetS devS inodeS path : Bytes) :
    Option Line :=
  if perms.length < 3 then none
  else if path.head? ≠ some 47 then none
  else do
    let bounds ← splitOnce 45 range
    let start ← number 16 (2 ^ 64) bounds.1
    let stop ← number 16 (2 ^ 64) bounds.2
    let offset ← number 16 (2 ^ 64) offsetS
    let dev ← splitOnce 58 devS
    let devMajor ← number 16 (2 ^ 32) dev.1
    let devMinor ← number 16 (2 ^ 32) dev.2
    let inode ← number 10 (2 ^ 64) inodeS
    some
      { start := start
        stop := stop
        offset := offset
        devMajor := devMajor
        devMinor := devMinor
        inode := inode
        exec := perms[2]? = some 120
        path := path }

/-- `parse_line`: the file-backed mapping of a line. -/
def parseLine (line : Bytes) : Option Line :=
  match words (fun b => b = 32 ∨ b = 9) line with
  | range :: perms :: offsetS :: devS :: inodeS :: path :: _ =>
      lineOfWords range perms offsetS devS inodeS path
  | _ => none

/-- The lines that are parsed, in the text's order. -/
def mapsLines (raw : Bytes) : List Line :=
  (raw.splitOnP (· = 10)).filterMap parseLine

structure FileInfo where
  buildId : Bytes
  baseAvma : Nat

structure Mapping where
  start : Nat
  stop : Nat
  offset : Nat
  baseAvma : Nat
  devMajor : Nat
  devMinor : Nat
  inode : Nat
  path : Bytes
  buildId : Bytes

section

-- The build-id that is read at a path.
variable (buildIdFor : Bytes → Bytes)

/-- One line of the first pass: a file's base is the lowest start. -/
def noteFile (files : HashMap Bytes FileInfo) (m : Line) :
    HashMap Bytes FileInfo :=
  match files.lookup m.path with
  | none =>
      files.insert m.path { buildId := buildIdFor m.path, baseAvma := m.start }
  | some info =>
      if m.start < info.baseAvma then
        files.insert m.path { info with baseAvma := m.start }
      else files

def keepMapping (files : HashMap Bytes FileInfo) (m : Line) :
    Option Mapping :=
  (files.lookup m.path).map fun info =>
    { start := m.start
      stop := m.stop
      offset := m.offset
      baseAvma := info.baseAvma
      devMajor := m.devMajor
      devMinor := m.devMinor
      inode := m.inode
      path := m.path
      buildId := info.buildId }

/-- `parse_text` in its two passes: none where a file is not in the table. -/
def parseText (raw : Bytes) : Option (List Mapping) :=
  let files := (mapsLines raw).foldl (noteFile buildIdFor) ∅
  ((mapsLines raw).filter Line.exec).mapM (keepMapping files)

end

structure Lowest {α : Type*} (start : α → Nat) (list : List α)
    (meant : α → Prop) (base : Nat) : Prop where
  attained : ∃ a ∈ list, meant a ∧ start a = base
  le : ∀ a ∈ list, meant a → base ≤ start a

structure FilesOf (buildIdFor : Bytes → Bytes) (list : List Line)
    (files : HashMap Bytes FileInfo) : Prop where
  known : ∀ m ∈ list, (files.lookup m.path).isSome
  info : ∀ path info, files.lookup path = some info →
    info.buildId = buildIdFor path ∧
      Lowest Line.start list (·.path = path) info.baseAvma

section

variable {buildIdFor : Bytes → Bytes} {list : List Line}
  {files : HashMap Bytes FileInfo}

theorem FilesOf.noteFile (of : FilesOf buildIdFor list files) (m : Line) :
    FilesOf buildIdFor (list ++ [m]) (noteFile buildIdFor files m) := by
  have lookup : ∀ path, (ProcMaps.noteFile buildIdFor files m).lookup path =
      if path = m.path then
        match files.lookup m.path with
        | none => some { buildId := buildIdFor m.path, baseAvma := m.start }
        | some info => some { info with baseAvma := min info.baseAvma m.start }
      else files.lookup path := by
    intro path
    rw [ProcMaps.noteFile]
    cases found : files.lookup m.path with
    | none => exact HashMap.lookup_insert_eq files m.path path _
    | some info =>
        dsimp only
        split
        · next lower =>
            rw [HashMap.lookup_insert_eq, Nat.min_eq_right lower.le]
        · next atLeast =>
            rw [Nat.min_eq_left (Nat.not_lt.mp atLeast)]
            split
            · next same => rw [same, found]
            · rfl
  constructor
  · intro other member
    rw [lookup]
    split
    · split <;> rfl
    · next distinct =>
        rcases List.mem_append.mp member with old | new
        · exact of.known other old
        · exact absurd (congrArg Line.path (List.mem_singleton.mp new)) distinct
  · intro path info found
    rw [lookup] at found
    split at found
    · next same =>
        subst same
        cases known : files.lookup m.path with
        | none =>
            rw [known] at found
            cases found
            have fresh : ∀ other ∈ list, other.path ≠ m.path := by
              intro other member same
              have := of.known other member
              rw [same, known] at this
              cases this
            refine ⟨rfl, ⟨m, by simp, rfl, rfl⟩, fun other member same => ?_⟩
            rcases List.mem_append.mp member with old | new
            · exact absurd same (fresh other old)
            · rw [List.mem_singleton.mp new]
        | some before =>
            rw [known] at found
            cases found
            obtain ⟨buildId, ⟨a, among, samePath, start⟩, le⟩ :=
              of.info m.path before known
            refine ⟨buildId, ?_, fun other member same => ?_⟩
            · dsimp only
              rcases Nat.le_total before.baseAvma m.start with low | high
              · rw [Nat.min_eq_left low]
                exact ⟨a, List.mem_append_left _ among, samePath, start⟩
              · rw [Nat.min_eq_right high]
                exact ⟨m, by simp, rfl, rfl⟩
            · dsimp only
              rcases List.mem_append.mp member with old | new
              · exact (Nat.min_le_left _ _).trans (le other old same)
              · rw [List.mem_singleton.mp new]
                exact Nat.min_le_right _ _
    · next distinct =>
        obtain ⟨buildId, ⟨a, among, samePath, start⟩, le⟩ :=
          of.info path info found
        refine ⟨buildId, ⟨a, List.mem_append_left _ among, samePath, start⟩,
          fun other member same => ?_⟩
        rcases List.mem_append.mp member with old | new
        · exact le other old same
        · rw [List.mem_singleton.mp new] at same
          exact absurd same.symm distinct

theorem filesOf_foldl (buildIdFor : Bytes → Bytes) (list : List Line) :
    FilesOf buildIdFor list (list.foldl (noteFile buildIdFor) ∅) := by
  induction list using List.reverseRecOn with
  | nil => exact ⟨nofun, nofun⟩
  | append_singleton list m induction =>
      rw [List.foldl_append]
      exact induction.noteFile m

end

/-- The mapping that is kept of a line. -/
structure KeptOf (buildIdFor : Bytes → Bytes) (list : List Line) (m : Line)
    (kept : Mapping) : Prop where
  range : kept.start = m.start ∧ kept.stop = m.stop ∧ kept.offset = m.offset
  device : kept.devMajor = m.devMajor ∧ kept.devMinor = m.devMinor ∧
    kept.inode = m.inode
  file : kept.path = m.path ∧ kept.buildId = buildIdFor m.path
  base : Lowest Line.start list (·.path = m.path) kept.baseAvma

theorem FilesOf.keepMapping {buildIdFor : Bytes → Bytes} {list : List Line}
    {files : HashMap Bytes FileInfo} (of : FilesOf buildIdFor list files)
    {m : Line} (member : m ∈ list) :
    ∃ kept, keepMapping files m = some kept ∧
      KeptOf buildIdFor list m kept := by
  obtain ⟨info, found⟩ := Option.isSome_iff_exists.mp (of.known m member)
  obtain ⟨buildId, base⟩ := of.info m.path info found
  rw [ProcMaps.keepMapping, found]
  exact ⟨_, rfl, ⟨rfl, rfl, rfl⟩, ⟨rfl, rfl, rfl⟩, ⟨rfl, buildId⟩, base⟩

/-- The parse never fails, and keeps the executable lines in their order. -/
theorem parseText_spec (buildIdFor : Bytes → Bytes) (raw : Bytes) :
    ∃ maps, parseText buildIdFor raw = some maps ∧
      List.Forall₂ (KeptOf buildIdFor (mapsLines raw))
        ((mapsLines raw).filter Line.exec) maps := by
  have of := filesOf_foldl buildIdFor (mapsLines raw)
  have keeps : ∀ m ∈ (mapsLines raw).filter Line.exec,
      ∃ kept, keepMapping ((mapsLines raw).foldl (noteFile buildIdFor) ∅) m =
        some kept ∧ KeptOf buildIdFor (mapsLines raw) m kept :=
    fun m member => of.keepMapping (List.mem_of_mem_filter member)
  rw [parseText]
  generalize (mapsLines raw).filter Line.exec = list at keeps ⊢
  induction list with
  | nil => exact ⟨[], rfl, .nil⟩
  | cons m rest induction =>
      obtain ⟨kept, found, keptOf⟩ := keeps m List.mem_cons_self
      obtain ⟨maps, parsed, all⟩ := induction fun other member =>
        keeps other (List.mem_cons_of_mem m member)
      refine ⟨kept :: maps, ?_, .cons keptOf all⟩
      rw [List.mapM_cons, found, Option.bind_eq_bind, Option.bind_some]
      rw [parsed]
      rfl

/-! The instances of the files in a text. -/

def Line.file (m : Line) : Bytes × Nat × Nat × Nat :=
  (m.path, m.devMajor, m.devMinor, m.inode)

/-- The instances that the lines of a text belong to, each of one file. -/
structure Instances (raw : Bytes) (ι : Type) where
  entries : List (Line × ι)
  lines : entries.map Prod.fst = mapsLines raw
  oneFile : ∀ a ∈ entries, ∀ b ∈ entries, a.2 = b.2 → a.1.file = b.1.file

namespace Instances

variable {raw : Bytes} {ι : Type} (instances : Instances raw ι)

structure First (i : ι) (first : Line × ι) : Prop where
  member : first ∈ instances.entries
  same : first.2 = i
  lowest : ∀ entry ∈ instances.entries, entry.2 = i →
    first.1.start ≤ entry.1.start

/-- A mapping carries the load base of its line's instance; where the line and
the first one of the instance are as far apart in the file as in memory, an
address is at its place in the file. -/
structure CarriesBase (entry : Line × ι) (kept : Mapping) : Prop where
  range : kept.start = entry.1.start ∧ kept.stop = entry.1.stop ∧
    kept.offset = entry.1.offset
  base : ∃ first, instances.First entry.2 first ∧
    kept.baseAvma = first.1.start
  address : ∀ first, instances.First entry.2 first →
    entry.1.start + first.1.offset = first.1.start + entry.1.offset →
    ∀ pc, kept.start ≤ pc → pc < kept.stop →
      pc - kept.baseAvma + first.1.offset = pc - kept.start + kept.offset

/-- Every executable mapping of the result carries the base of its instance. -/
def BasesRight (buildIdFor : Bytes → Bytes) : Prop :=
  ∃ maps, parseText buildIdFor raw = some maps ∧
    List.Forall₂ instances.CarriesBase
      (instances.entries.filter (·.1.exec)) maps

/-- No line with the path of an executable one starts below the base of its
instance. -/
def BasesLowest : Prop :=
  ∀ entry ∈ instances.entries, entry.1.exec = true →
    ∀ first, instances.First entry.2 first →
    ∀ other ∈ instances.entries, other.1.path = entry.1.path →
      first.1.start ≤ other.1.start

variable {instances}

theorem exists_first {entry : Line × ι} (member : entry ∈ instances.entries) :
    ∃ first, instances.First entry.2 first := by
  classical
  have nonempty : (instances.entries.filter (·.2 = entry.2)).map
      (·.1.start) ≠ [] :=
    List.ne_nil_of_mem (List.mem_map_of_mem
      (List.mem_filter.mpr ⟨member, decide_eq_true rfl⟩))
  obtain ⟨base, least⟩ := Option.ne_none_iff_exists'.mp
    (mt List.min?_eq_none_iff.mp nonempty)
  rw [List.min?_eq_some_iff] at least
  obtain ⟨attained, below⟩ := least
  obtain ⟨first, own, rfl⟩ := List.mem_map.mp attained
  rw [List.mem_filter, decide_eq_true_eq] at own
  refine ⟨first, own.1, own.2, fun other among same => ?_⟩
  exact below _ (List.mem_map_of_mem
    (List.mem_filter.mpr ⟨among, decide_eq_true same⟩))

theorem First.start_eq {i : ι} {first other : Line × ι}
    (one : instances.First i first) (two : instances.First i other) :
    first.1.start = other.1.start :=
  Nat.le_antisymm (one.lowest other two.member two.same)
    (two.lowest first one.member one.same)

theorem mem_mapsLines {entry : Line × ι} (member : entry ∈ instances.entries) :
    entry.1 ∈ mapsLines raw :=
  instances.lines ▸ List.mem_map_of_mem member

theorem exists_entry {m : Line} (member : m ∈ mapsLines raw) :
    ∃ entry ∈ instances.entries, entry.1 = m :=
  List.mem_map.mp (instances.lines.symm ▸ member)

/-- The kept mapping carries the base of its instance exactly where no line
with its path starts below that. -/
theorem carriesBase_iff {buildIdFor : Bytes → Bytes} {entry : Line × ι}
    {kept : Mapping} (member : entry ∈ instances.entries)
    (keptOf : KeptOf buildIdFor (mapsLines raw) entry.1 kept) :
    instances.CarriesBase entry kept ↔
      ∀ first, instances.First entry.2 first →
      ∀ other ∈ instances.entries, other.1.path = entry.1.path →
        first.1.start ≤ other.1.start := by
  constructor
  · intro carries first isFirst other among samePath
    obtain ⟨second, isSecond, base⟩ := carries.base
    rw [isFirst.start_eq isSecond, ← base]
    exact keptOf.base.le other.1 (mem_mapsLines among) samePath
  · intro lowest
    have base : ∀ first, instances.First entry.2 first →
        kept.baseAvma = first.1.start := by
      intro first isFirst
      apply Nat.le_antisymm
      · have samePath := instances.oneFile first isFirst.member entry member
          isFirst.same
        exact keptOf.base.le first.1 (mem_mapsLines isFirst.member)
          (congrArg Prod.fst samePath)
      · obtain ⟨m, among, samePath, start⟩ := keptOf.base.attained
        have listed : ∃ other ∈ instances.entries, other.1 = m :=
          exists_entry among
        obtain ⟨other, listed, rfl⟩ := listed
        rw [← start]
        exact lowest first isFirst other listed samePath
    obtain ⟨first, isFirst⟩ := exists_first member
    refine ⟨keptOf.range, ⟨first, isFirst, base first isFirst⟩, ?_⟩
    intro other isOther contiguous pc above _
    have same := base other isOther
    have low := isOther.lowest entry member rfl
    rw [keptOf.range.1] at above ⊢
    rw [same, keptOf.range.2.2]
    omega

/-- The bases are right exactly where each is the lowest of its path. -/
theorem basesRight_iff_lowest (instances : Instances raw ι)
    (buildIdFor : Bytes → Bytes) :
    instances.BasesRight buildIdFor ↔ instances.BasesLowest := by
  obtain ⟨maps, parsed, all⟩ := parseText_spec buildIdFor raw
  rw [← instances.lines, List.filter_map, List.forall₂_map_left_iff] at all
  have paired := List.forall₂_iff_zip.mp all
  have members : ∀ {entry : Line × ι} {kept : Mapping},
      (entry, kept) ∈ List.zip
        (instances.entries.filter (Line.exec ∘ Prod.fst)) maps →
      entry ∈ instances.entries ∧
        KeptOf buildIdFor (mapsLines raw) entry.1 kept := by
    intro entry kept pair
    rw [← instances.lines]
    exact ⟨List.mem_of_mem_filter (List.of_mem_zip pair).1, paired.2 pair⟩
  rw [BasesRight, parsed]
  constructor
  · rintro ⟨_, same, carries⟩ entry member exec
    cases same
    have kept : entry ∈ instances.entries.filter (Line.exec ∘ Prod.fst) :=
      List.mem_filter.mpr ⟨member, exec⟩
    obtain ⟨i, within, rfl⟩ := List.mem_iff_getElem.mp kept
    have also : i < maps.length := paired.1 ▸ within
    have pair : ((instances.entries.filter (Line.exec ∘ Prod.fst))[i],
        maps[i]) ∈ List.zip
          (instances.entries.filter (Line.exec ∘ Prod.fst)) maps :=
      List.mem_iff_getElem.mpr
        ⟨i, List.length_zip ▸ lt_min within also, List.getElem_zip⟩
    exact (carriesBase_iff member (members pair).2).mp
      (List.forall₂_zip carries pair)
  · intro lowest
    refine ⟨maps, rfl, List.forall₂_iff_zip.mpr ⟨paired.1, ?_⟩⟩
    intro entry kept pair
    obtain ⟨member, keptOf⟩ := members pair
    have exec := (List.mem_filter.mp (List.of_mem_zip pair).1).2
    exact (carriesBase_iff member keptOf).mpr (lowest entry member exec)

/-- A library replaced by a new file, with both of them mapped. -/
def replacedText : Bytes :=
  ["7f0000000000-7f0000001000 r--p 00000000 fd:01 1 /lib/a.so (deleted)\n",
    "7f0000001000-7f0000002000 r-xp 00001000 fd:01 1 /lib/a.so (deleted)\n",
    "7f1000000000-7f1000001000 r--p 00000000 fd:01 2 /lib/a.so\n",
    "7f1000001000-7f1000002000 r-xp 00001000 fd:01 2 /lib/a.so\n"].flatMap
      fun line => line.toList.map fun c => c.toNat.toUInt8

def libraryLine (start offset inode : Nat) (exec : Bool) : Line where
  start := start
  stop := start + 0x1000
  offset := offset
  devMajor := 0xfd
  devMinor := 1
  inode := inode
  exec := exec
  path := [47, 108, 105, 98, 47, 97, 46, 115, 111]

theorem mapsLines_replacedText : mapsLines replacedText =
    [libraryLine 0x7f0000000000 0 1 false,
      libraryLine 0x7f0000001000 0x1000 1 true,
      libraryLine 0x7f1000000000 0 2 false,
      libraryLine 0x7f1000001000 0x1000 2 true] := by
  decide +kernel

def replacedEntries : List (Line × Nat) :=
  (mapsLines replacedText).map fun m => (m, m.inode)

theorem replacedEntries_lines :
    replacedEntries.map Prod.fst = mapsLines replacedText := by
  rw [replacedEntries, List.map_map]
  exact List.map_id _

theorem replacedEntries_oneFile : ∀ a ∈ replacedEntries,
    ∀ b ∈ replacedEntries, a.2 = b.2 → a.1.file = b.1.file := by
  rw [replacedEntries, mapsLines_replacedText]
  decide

def replacedInstances : Instances replacedText Nat where
  entries := replacedEntries
  lines := replacedEntries_lines
  oneFile := replacedEntries_oneFile

/-- The new file's mapping carries the base of the old one. -/
theorem not_basesRight_replaced :
    ¬ replacedInstances.BasesRight fun _ => [] := by
  rintro ⟨maps, parsed, carries⟩
  have bases : (parseText (fun _ => []) replacedText).map
      (List.map Mapping.baseAvma) =
      some [0x7f0000000000, 0x7f0000000000] := by
    rw [parseText, mapsLines_replacedText]
    decide +kernel
  have labels : (replacedEntries.filter (·.1.exec)).map Prod.snd =
      [1, 2] := by
    rw [replacedEntries, mapsLines_replacedText]
    rfl
  have higher : ∀ entry ∈ replacedEntries, entry.2 = 2 →
      0x7f1000000000 ≤ entry.1.start := by
    rw [replacedEntries, mapsLines_replacedText]
    decide
  rw [parsed, Option.map_some, Option.some.injEq] at bases
  have carried : List.Forall₂
      (fun label base => ∃ first, replacedInstances.First label first ∧
        base = first.1.start)
      ((replacedEntries.filter (·.1.exec)).map Prod.snd)
      (maps.map Mapping.baseAvma) :=
    List.forall₂_map_left_iff.mpr (List.forall₂_map_right_iff.mpr
      (carries.imp fun _ _ carried => carried.base))
  rw [labels, bases] at carried
  obtain ⟨first, isFirst, base⟩ :=
    (List.forall₂_cons.mp (List.forall₂_cons.mp carried).2).1
  have := higher first isFirst.member isFirst.same
  omega

end Instances

end Sismo.Symbolize.ProcMaps
