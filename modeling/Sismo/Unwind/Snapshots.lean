import Mathlib.Data.List.Chain
import Sismo.Lib.Machine
import Sismo.Unwind.Blocks
import Sismo.Unwind.Modules

namespace Sismo.Unwind

/-! The walker's mappings against the newest maps snapshot. -/

/-- The kernel lists disjoint regions by ascending address. -/
structure Snapshot.WellFormed (snapshot : Snapshot) : Prop where
  nonempty : ∀ line ∈ snapshot.lines, line.start < line.end_
  sorted : snapshot.lines.Pairwise fun first second =>
    first.end_ ≤ second.start

def Snapshot.moduleAt (snapshot : Snapshot) (path : String) : Option Install :=
  loadModule snapshot.files (baseAvma snapshot.lines path)
    ((fileMappings snapshot.lines).filter (·.path = path))

inductive Snapshot.Segment (snapshot : Snapshot) (own : OwnVdso) :
    Install → Nat × Nat → Prop
  | file {line : Line} {path : String} {install : Install}
      (member : line ∈ snapshot.lines) (exec : line.exec = true)
      (name : line.name = .file path)
      (loads : snapshot.moduleAt path = some install) :
      Segment snapshot own install (line.start, line.end_)
  | vdso {range : Nat × Nat} {install : Install}
      (mapped : vdsoRange snapshot.lines = some range)
      (loads : loadVdso own range = some install) :
      Segment snapshot own install range

section

variable (toPages : List CompactUnwindRow → List Page) (own : OwnVdso)

/-- The walker's lookups give the mappings of the snapshot. -/
structure Resolves (snapshot : Snapshot) (t : UnwindTables) : Prop where
  covered : ∀ install range, snapshot.Segment own install range →
    ∀ pc, range.1 ≤ pc → pc < range.2 →
    t.maps.unwindFindMapping t.targetPid pc = some (install.mapping range) ∧
      ∃ start, Installed toPages t install start
  only : ∀ pc mapping,
    t.maps.unwindFindMapping t.targetPid pc = some mapping →
    mapping.begin ≤ pc → pc < mapping.end_ →
    ∃ install range, snapshot.Segment own install range ∧
      range.1 ≤ pc ∧ pc < range.2

/-- Every module of the earlier snapshot is in the later one, with the same
base, segments and tables. -/
def Kept (earlier later : Snapshot) : Prop :=
  ∀ image ∈ earlier.images own earlier.moduleBases,
    image ∈ later.images own later.moduleBases

def RoomForImages : UnwindTables → List Image → Prop
  | _, [] => True
  | t, image :: rest =>
      (image.base ∉ t.loaded → ∀ install, image.install = some install →
        (installRows toPages { t with loaded := image.base :: t.loaded }
          install).modulesLoaded = t.modulesLoaded + 1) ∧
      RoomForImages (loadImage toPages t image) rest

/-- The tables of every module of the snapshot can be built and find room. -/
structure Loadable (t : UnwindTables) (action : Snapshot × List Nat) :
    Prop where
  wellFormed : action.1.WellFormed
  buildable : ∀ image ∈ action.1.images own action.1.moduleBases,
    ∃ install, image.install = some install ∧ RowTable install.rows
  room : RoomForImages toPages t (action.1.images own action.2)

end

section

variable {snapshot : Snapshot} {own : OwnVdso}

theorem Snapshot.WellFormed.line_unique (wellFormed : snapshot.WellFormed)
    {first second : Line} {pc : Nat} (inFirst : first ∈ snapshot.lines)
    (inSecond : second ∈ snapshot.lines) (firstLow : first.start ≤ pc)
    (firstHigh : pc < first.end_) (secondLow : second.start ≤ pc)
    (secondHigh : pc < second.end_) : first = second := by
  by_contra distinct
  have symmetric : Std.Symm fun left right : Line =>
      left.end_ ≤ right.start ∨ right.end_ ≤ left.start :=
    ⟨fun _ _ => Or.symm⟩
  have apart : snapshot.lines.Pairwise fun left right =>
      left.end_ ≤ right.start ∨ right.end_ ≤ left.start :=
    wellFormed.sorted.imp Or.inl
  rcases apart.forall inFirst inSecond distinct with le | le
  · omega
  · omega

theorem mem_fileMappings {lines : List Line} {mapping : ProcMapping} :
    mapping ∈ fileMappings lines ↔ ∃ line ∈ lines, ∃ path,
      line.name = .file path ∧ line.exec = true ∧
        mapping = ⟨line.start, line.end_, baseAvma lines path, path⟩ := by
  rw [fileMappings, List.mem_filterMap]
  constructor
  · rintro ⟨line, member, parsed⟩
    cases name : line.name with
    | file path =>
        cases exec : line.exec with
        | true =>
            simp only [fileMapping, name, exec, if_true,
              Option.some.injEq] at parsed
            exact ⟨line, member, path, name, exec, parsed.symm⟩
        | false => simp [fileMapping, name, exec] at parsed
    | vdso => simp [fileMapping, name] at parsed
    | other => simp [fileMapping, name] at parsed
  · rintro ⟨line, member, path, name, exec, parsed⟩
    exact ⟨line, member, by simp [fileMapping, name, exec, parsed]⟩

theorem exists_line_baseAvma {lines : List Line} {path : String} {line : Line}
    (member : line ∈ lines) (name : line.name = .file path) :
    ∃ first ∈ lines, first.name = .file path ∧
      first.start = baseAvma lines path := by
  rw [baseAvma]
  cases least : ((lines.filter (·.name = .file path)).map Line.start).min? with
  | none =>
      rw [List.min?_eq_none_iff, List.map_eq_nil_iff,
        List.filter_eq_nil_iff] at least
      exact absurd name (by simpa using least line member)
  | some start =>
      obtain ⟨first, inFiltered, same⟩ := List.mem_map.mp (List.min?_mem least)
      rw [List.mem_filter, decide_eq_true_eq] at inFiltered
      exact ⟨first, inFiltered.1, inFiltered.2, same⟩

theorem Snapshot.WellFormed.start_inj (wellFormed : snapshot.WellFormed)
    {first second : Line} (inFirst : first ∈ snapshot.lines)
    (inSecond : second ∈ snapshot.lines) (same : first.start = second.start) :
    first = second := by
  have firstNonempty := wellFormed.nonempty first inFirst
  have secondNonempty := wellFormed.nonempty second inSecond
  exact wellFormed.line_unique inFirst inSecond (Nat.le_refl _) firstNonempty
    same.ge (by omega)

/-- Different files have different bases. -/
theorem Snapshot.WellFormed.baseAvma_inj (wellFormed : snapshot.WellFormed)
    {first second : Line} {path other : String}
    (inFirst : first ∈ snapshot.lines) (inSecond : second ∈ snapshot.lines)
    (firstName : first.name = .file path)
    (secondName : second.name = .file other)
    (same : baseAvma snapshot.lines path = baseAvma snapshot.lines other) :
    path = other := by
  obtain ⟨left, inLeft, leftName, leftStart⟩ :=
    exists_line_baseAvma inFirst firstName
  obtain ⟨right, inRight, rightName, rightStart⟩ :=
    exists_line_baseAvma inSecond secondName
  have equal := wellFormed.start_inj inLeft inRight (by omega)
  rw [equal, rightName] at leftName
  exact (LineName.file.inj leftName).symm

theorem vdsoRange_eq_some {lines : List Line} {range : Nat × Nat}
    (mapped : vdsoRange lines = some range) :
    ∃ line ∈ lines, line.name = .vdso ∧ range = (line.start, line.end_) := by
  obtain ⟨line, found, rfl⟩ := Option.map_eq_some_iff.mp mapped
  exact ⟨line, List.mem_of_find?_eq_some found,
    by simpa using List.find?_some found, rfl⟩

theorem Snapshot.WellFormed.moduleImage_baseAvma
    (wellFormed : snapshot.WellFormed) {line : Line} {path : String}
    (member : line ∈ snapshot.lines) (name : line.name = .file path) :
    snapshot.moduleImage (baseAvma snapshot.lines path) =
      { base := baseAvma snapshot.lines path
        install := snapshot.moduleAt path } := by
  rw [Snapshot.moduleImage, Snapshot.moduleAt]
  congr 2
  apply List.filter_congr
  intro mapping inMappings
  obtain ⟨other, inLines, otherPath, otherName, _, rfl⟩ :=
    mem_fileMappings.mp inMappings
  rw [decide_eq_decide]
  constructor
  · exact wellFormed.baseAvma_inj inLines member otherName name
  · exact congrArg (baseAvma snapshot.lines)

theorem mem_moduleBases {base : Nat} :
    base ∈ snapshot.moduleBases ↔ ∃ line ∈ snapshot.lines, ∃ path,
      line.name = .file path ∧ line.exec = true ∧
        base = baseAvma snapshot.lines path := by
  rw [Snapshot.moduleBases, List.mem_dedup, List.mem_map]
  constructor
  · intro ⟨mapping, member, same⟩
    obtain ⟨line, inLines, path, name, exec, rfl⟩ := mem_fileMappings.mp member
    exact ⟨line, inLines, path, name, exec, same.symm⟩
  · intro ⟨line, inLines, path, name, exec, same⟩
    exact ⟨_, mem_fileMappings.mpr ⟨line, inLines, path, name, exec, rfl⟩,
      same.symm⟩

theorem loadModule_eq_some {files : String → ElfFile} {base : Nat}
    {segs : List ProcMapping} {install : Install}
    (loads : loadModule files base segs = some install) :
    install.executableId = base ∧
      install.ranges = segs.map fun seg => (seg.start, seg.end_) := by
  rw [loadModule] at loads
  simp only [Option.bind_eq_bind, Option.bind_eq_some_iff] at loads
  obtain ⟨_, _, _, _, same⟩ := loads
  cases same
  exact ⟨rfl, rfl⟩

theorem loadVdso_eq_some {range : Nat × Nat} {install : Install}
    (loads : loadVdso own range = some install) :
    install.executableId = range.1 ∧ install.ranges = [range] := by
  rw [loadVdso] at loads
  simp only [Option.bind_eq_bind, Option.bind_eq_some_iff] at loads
  obtain ⟨_, _, loads⟩ := loads
  split at loads
  · cases loads
  · obtain ⟨_, _, same⟩ := Option.bind_eq_some_iff.mp loads
    cases same
    exact ⟨rfl, rfl⟩

theorem mem_images {image : Image} {order : List Nat} :
    image ∈ snapshot.images own order ↔
      (∃ base ∈ order, image = snapshot.moduleImage base) ∨
        ∃ range, vdsoRange snapshot.lines = some range ∧
          image = { base := range.1, install := loadVdso own range } := by
  simp only [Snapshot.images, Snapshot.vdsoImage, List.mem_append,
    List.mem_map, Option.mem_toList, eq_comm]

theorem Snapshot.executableId_of_mem_images {image : Image} {order : List Nat}
    {install : Install} (member : image ∈ snapshot.images own order)
    (loads : image.install = some install) :
    install.executableId = image.base := by
  rcases mem_images.mp member with ⟨base, _, rfl⟩ | ⟨range, _, rfl⟩
  · exact (loadModule_eq_some loads).1
  · exact (loadVdso_eq_some loads).1

theorem Snapshot.WellFormed.images_nodup (wellFormed : snapshot.WellFormed)
    (own : OwnVdso) :
    ((snapshot.images own snapshot.moduleBases).map Image.base).Nodup := by
  have bases : (snapshot.images own snapshot.moduleBases).map Image.base =
      snapshot.moduleBases ++
        (vdsoRange snapshot.lines).toList.map Prod.fst := by
    simp only [Snapshot.images, Snapshot.vdsoImage, List.map_append,
      List.map_map]
    congr 1
    exact List.map_id _
  have distinct : snapshot.moduleBases.Nodup := List.nodup_dedup _
  rw [bases]
  cases mapped : vdsoRange snapshot.lines with
  | none => simpa using distinct
  | some range =>
      -- The vDSO's line is no file's first line.
      have fresh : range.1 ∉ snapshot.moduleBases := by
        intro member
        obtain ⟨line, inLines, path, name, _, same⟩ := mem_moduleBases.mp member
        obtain ⟨first, inFirst, firstName, start⟩ :=
          exists_line_baseAvma inLines name
        obtain ⟨vdso, inVdso, vdsoName, rfl⟩ := vdsoRange_eq_some mapped
        have equal := wellFormed.start_inj inFirst inVdso
          (start.trans same.symm)
        rw [equal, vdsoName] at firstName
        cases firstName
      rw [Option.toList_some, List.map_singleton, List.nodup_append]
      exact ⟨distinct, List.nodup_singleton _,
        fun base member other single => by
          rw [List.mem_singleton] at single
          rintro rfl
          exact fresh (single ▸ member)⟩

theorem Snapshot.WellFormed.segment_iff (wellFormed : snapshot.WellFormed)
    {install : Install} {range : Nat × Nat} :
    snapshot.Segment own install range ↔
      (∃ image ∈ snapshot.images own snapshot.moduleBases,
        image.install = some install) ∧ range ∈ install.ranges := by
  constructor
  · intro segment
    cases segment with
    | @file line path install member exec name loads =>
        constructor
        · refine ⟨_, mem_images.mpr (.inl ⟨baseAvma snapshot.lines path,
            mem_moduleBases.mpr ⟨line, member, path, name, exec, rfl⟩, rfl⟩),
            ?_⟩
          rw [wellFormed.moduleImage_baseAvma member name, loads]
        · rw [(loadModule_eq_some loads).2]
          refine List.mem_map.mpr
            ⟨_, List.mem_filter.mpr ⟨mem_fileMappings.mpr
              ⟨line, member, path, name, exec, rfl⟩, ?_⟩, rfl⟩
          exact decide_eq_true rfl
    | vdso mapped loads =>
        refine ⟨⟨_, mem_images.mpr (.inr ⟨range, mapped, rfl⟩), loads⟩, ?_⟩
        rw [(loadVdso_eq_some loads).2]
        exact List.mem_singleton_self range
  · intro ⟨⟨image, member, loads⟩, inRanges⟩
    rcases mem_images.mp member with ⟨base, inBases, rfl⟩ | ⟨other, mapped, rfl⟩
    · obtain ⟨line, inLines, path, name, _, rfl⟩ := mem_moduleBases.mp inBases
      rw [wellFormed.moduleImage_baseAvma inLines name] at loads
      rw [(loadModule_eq_some loads).2] at inRanges
      obtain ⟨seg, inFiltered, rfl⟩ := List.mem_map.mp inRanges
      obtain ⟨inSegs, samePath⟩ := List.mem_filter.mp inFiltered
      obtain ⟨segLine, inSegLines, segPath, segName, exec, rfl⟩ :=
        mem_fileMappings.mp inSegs
      obtain rfl := of_decide_eq_true samePath
      exact .file inSegLines exec segName loads
    · rw [(loadVdso_eq_some loads).2] at inRanges
      obtain rfl := List.mem_singleton.mp inRanges
      exact .vdso mapped loads

theorem Snapshot.WellFormed.segment_unique (wellFormed : snapshot.WellFormed)
    {pc : Nat} {first second : Install} {range other : Nat × Nat}
    (left : snapshot.Segment own first range)
    (right : snapshot.Segment own second other)
    (above : range.1 ≤ pc) (below : pc < range.2) (otherAbove : other.1 ≤ pc)
    (otherBelow : pc < other.2) : first = second ∧ range = other := by
  cases left with
  | @file line path first member exec name loads =>
      cases right with
      | @file line' path' second member' exec' name' loads' =>
          obtain rfl := wellFormed.line_unique member member' above below
            otherAbove otherBelow
          rw [name] at name'
          cases name'
          rw [loads] at loads'
          exact ⟨Option.some.inj loads', rfl⟩
      | vdso mapped loads' =>
          obtain ⟨vdso, inVdso, vdsoName, rfl⟩ := vdsoRange_eq_some mapped
          obtain rfl := wellFormed.line_unique member inVdso above below
            otherAbove otherBelow
          rw [name] at vdsoName
          cases vdsoName
  | vdso mapped loads =>
      cases right with
      | @file line path second member exec name loads' =>
          obtain ⟨vdso, inVdso, vdsoName, rfl⟩ := vdsoRange_eq_some mapped
          obtain rfl := wellFormed.line_unique member inVdso otherAbove
            otherBelow above below
          rw [name] at vdsoName
          cases vdsoName
      | vdso mapped' loads' =>
          rw [mapped] at mapped'
          cases mapped'
          rw [loads] at loads'
          exact ⟨Option.some.inj loads', rfl⟩

theorem Snapshot.WellFormed.segment_lt (wellFormed : snapshot.WellFormed)
    {install : Install} {range : Nat × Nat}
    (segment : snapshot.Segment own install range) : range.1 < range.2 := by
  cases segment with
  | file member exec name loads => exact wellFormed.nonempty _ member
  | vdso mapped loads =>
      obtain ⟨line, member, _, rfl⟩ := vdsoRange_eq_some mapped
      exact wellFormed.nonempty line member

end

section

variable {toPages : List CompactUnwindRow → List Page} {own : OwnVdso}
variable {t : UnwindTables} {pid : Nat}

theorem Loaded.insertLoaded {installs : List Install} (base : Nat)
    (loaded : Loaded toPages installs t) :
    Loaded toPages installs { t with loaded := base :: t.loaded } where
  nextRow := loaded.nextRow
  installed before install after placed :=
    have installed := loaded.installed before install after placed
    { rows := installed.rows
      end_le := installed.end_le
      room := installed.room
      pages := installed.pages
      only := installed.only }
  pages := loaded.pages
  mappings := loaded.mappings
  mapped := loaded.mapped

structure ImagesBuildable (images : List Image) : Prop where
  distinct : (images.map Image.base).Nodup
  buildable : ∀ image ∈ images, ∃ install,
    image.install = some install ∧ RowTable install.rows
  ids : ∀ image ∈ images, ∀ install, image.install = some install →
    install.executableId = image.base

/-- The tables hold what some of the images install, one install to each base
loaded so far. -/
structure Loading (toPages : List CompactUnwindRow → List Page)
    (images : List Image) (pid : Nat) (installs : List Install)
    (t : UnwindTables) : Prop where
  loaded : Loaded toPages installs t
  targetPid : t.targetPid = pid
  distinct : (installs.map Install.executableId).Nodup
  bases : ∀ base, base ∈ t.loaded ↔ base ∈ installs.map Install.executableId
  known : ∀ install ∈ installs, ∃ image ∈ images, image.install = some install

theorem Loading.visit {images : List Image} {installs : List Install}
    (loading : Loading toPages images pid installs t)
    (paging : Paging toPages) (buildable : ImagesBuildable images)
    {image : Image} (member : image ∈ images)
    (room : image.base ∉ t.loaded → ∀ install, image.install = some install →
      (installRows toPages { t with loaded := image.base :: t.loaded }
        install).modulesLoaded = t.modulesLoaded + 1) :
    ∃ next, Loading toPages images pid next (loadImage toPages t image) ∧
      (∀ install ∈ installs, install ∈ next) ∧
      ∀ install, image.install = some install → install ∈ next := by
  rw [loadImage]
  split
  · next known =>
      refine ⟨installs, loading, fun _ earlier => earlier, ?_⟩
      intro install loads
      obtain ⟨other, inInstalls, same⟩ :=
        List.mem_map.mp ((loading.bases _).mp known)
      obtain ⟨source, inImages, sourceLoads⟩ := loading.known other inInstalls
      have sameBase : source.base = image.base := by
        rw [← buildable.ids source inImages other sourceLoads, same]
      obtain rfl := List.inj_on_of_nodup_map buildable.distinct inImages member
        sameBase
      rw [loads] at sourceLoads
      exact Option.some.inj sourceLoads ▸ inInstalls
  · next fresh =>
      obtain ⟨install, loads, table⟩ := buildable.buildable image member
      have id := buildable.ids image member install loads
      have added := installs_of_modulesLoaded (room fresh install loads)
      have freshId : install.executableId ∉
          installs.map Install.executableId := by
        rw [id]
        exact (loading.bases _).not.mp fresh
      simp only [loads]
      refine ⟨installs ++ [install],
        { loaded := (loading.loaded.insertLoaded _).snoc paging table freshId
            added
          targetPid := added.targetPid.trans loading.targetPid
          distinct := ?_
          bases := ?_
          known := ?_ },
        fun _ earlier => List.mem_append_left _ earlier, ?_⟩
      · rw [List.map_append, List.nodup_append]
        refine ⟨loading.distinct, List.nodup_singleton _, ?_⟩
        intro base earlier other single
        rw [List.map_singleton, List.mem_singleton] at single
        rintro rfl
        exact freshId (single ▸ earlier)
      · intro base
        rw [added.loaded, List.mem_cons, loading.bases, List.map_append,
          List.mem_append, List.map_singleton, List.mem_singleton, id, or_comm]
      · intro other inInstalls
        rcases List.mem_append.mp inInstalls with earlier | last
        · exact loading.known other earlier
        · obtain rfl := List.mem_singleton.mp last
          exact ⟨image, member, loads⟩
      · intro other same
        cases same
        exact List.mem_append_right _ (List.mem_singleton_self _)

theorem Loading.visitAll {images rest : List Image} {installs : List Install}
    (loading : Loading toPages images pid installs t)
    (paging : Paging toPages) (buildable : ImagesBuildable images)
    (sublist : ∀ image ∈ rest, image ∈ images)
    (room : RoomForImages toPages t rest) :
    ∃ next,
      Loading toPages images pid next (rest.foldl (loadImage toPages) t) ∧
      (∀ install ∈ installs, install ∈ next) ∧
      ∀ image ∈ rest, ∀ install, image.install = some install →
        install ∈ next := by
  induction rest generalizing t installs with
  | nil =>
      exact ⟨installs, loading, fun _ earlier => earlier,
        fun image member => absurd member List.not_mem_nil⟩
  | cons image rest induction =>
      obtain ⟨first, visited, kept, loads⟩ := loading.visit paging buildable
        (sublist image List.mem_cons_self) room.1
      obtain ⟨next, all, keptAll, loadsAll⟩ := induction visited
        (fun other member => sublist other (List.mem_cons_of_mem _ member))
        room.2
      refine ⟨next, all, fun install earlier =>
        keptAll install (kept install earlier), ?_⟩
      intro other member install otherLoads
      rcases List.mem_cons.mp member with rfl | inRest
      · exact keptAll install (loads install otherLoads)
      · exact loadsAll other inRest install otherLoads

/-- The tables hold exactly the images of the snapshot. -/
def Follows (toPages : List CompactUnwindRow → List Page) (own : OwnVdso)
    (snapshot : Snapshot) (pid : Nat) (t : UnwindTables) : Prop :=
  ∃ installs,
    Loading toPages (snapshot.images own snapshot.moduleBases) pid installs t ∧
    ∀ image ∈ snapshot.images own snapshot.moduleBases, ∀ install,
      image.install = some install → install ∈ installs

theorem Loadable.imagesBuildable {action : Snapshot × List Nat}
    (loadable : Loadable toPages own t action) :
    ImagesBuildable (action.1.images own action.1.moduleBases) where
  distinct := loadable.wellFormed.images_nodup own
  buildable := loadable.buildable
  ids _ member _ loads := Snapshot.executableId_of_mem_images member loads

/-- Loading a snapshot that keeps the modules of the one before follows it. -/
theorem Follows.loadAll {earlier : Snapshot} {action : Snapshot × List Nat}
    {next : UnwindTables} (follows : Follows toPages own earlier pid t)
    (paging : Paging toPages) (kept : Kept own earlier action.1)
    (loadable : Loadable toPages own t action)
    (stepped : loadAll toPages own t action = some next) :
    Follows toPages own action.1 pid next := by
  obtain ⟨installs, loading, _⟩ := follows
  rw [Unwind.loadAll] at stepped
  split at stepped
  · next order =>
      cases stepped
      have visited : ∀ image, image ∈ action.1.images own action.2 ↔
          image ∈ action.1.images own action.1.moduleBases := by
        intro image
        simp only [mem_images, order.mem_iff]
      have known : ∀ install ∈ installs, ∃ image ∈
          action.1.images own action.1.moduleBases,
          image.install = some install := by
        intro install member
        obtain ⟨image, inImages, loads⟩ := loading.known install member
        exact ⟨image, kept image inImages, loads⟩
      obtain ⟨installs', all, _, loads⟩ :=
        Loading.visitAll { loading with known := known } paging
          loadable.imagesBuildable (fun image => (visited image).mp)
          loadable.room
      exact ⟨installs', all, fun image member =>
        loads image ((visited image).mpr member)⟩
  · cases stepped

/-- After following a well-formed snapshot the lookups give its mappings. -/
theorem Follows.resolves {snapshot : Snapshot}
    (follows : Follows toPages own snapshot pid t)
    (wellFormed : snapshot.WellFormed) : Resolves toPages own snapshot t := by
  obtain ⟨installs, loading, complete⟩ := follows
  have segment : ∀ install ∈ installs, ∀ range ∈ install.ranges,
      snapshot.Segment own install range := fun install member range inRanges =>
    wellFormed.segment_iff.mpr ⟨loading.known install member, inRanges⟩
  have disjoint : SegmentsDisjoint installs := by
    refine ⟨fun install member range inRanges =>
      wellFormed.segment_lt (segment install member range inRanges), ?_⟩
    intro first inFirst second inSecond range inRange other inOther pc above
      below otherAbove otherBelow
    obtain ⟨rfl, rfl⟩ := wellFormed.segment_unique
      (segment first inFirst range inRange)
      (segment second inSecond other inOther) above below otherAbove otherBelow
    rfl
  constructor
  · intro install range covers pc above below
    obtain ⟨⟨image, inImages, loads⟩, inRanges⟩ :=
      wellFormed.segment_iff.mp covers
    have member := complete image inImages install loads
    refine ⟨loading.loaded.unwindFindMapping_eq disjoint member inRanges above
      below, ?_⟩
    obtain ⟨before, after, placed⟩ := List.append_of_mem member
    exact ⟨_, loading.loaded.installed before install after placed⟩
  · intro pc mapping found above below
    obtain ⟨install, member, range, inRanges, rfl⟩ :=
      loading.loaded.mapping_of_unwindFindMapping found
    exact ⟨install, range, segment install member range inRanges, above, below⟩

/-- Every later snapshot keeps the modules of the ones before it. -/
theorem Follows.run {earlier : Snapshot} {actions : List (Snapshot × List Nat)}
    {last : Snapshot × List Nat} {final : UnwindTables}
    (follows : Follows toPages own earlier pid t) (paging : Paging toPages)
    (kept : (earlier :: (actions ++ [last]).map Prod.fst).IsChain (Kept own))
    (loadable : Machine.Along (Unwind.loadAll toPages own)
      (Loadable toPages own) t (actions ++ [last]))
    (reached : Machine.run (Unwind.loadAll toPages own) t (actions ++ [last]) =
      some final) :
    Follows toPages own last.1 pid final ∧ last.1.WellFormed := by
  induction actions generalizing earlier t with
  | nil =>
      obtain ⟨next, stepped, finished⟩ := Machine.run_cons.mp reached
      cases finished
      have keptLast := (List.isChain_cons_cons.mp kept).1
      exact ⟨follows.loadAll paging keptLast loadable.1 stepped,
        loadable.1.wellFormed⟩
  | cons action rest induction =>
      obtain ⟨next, stepped, remaining⟩ := Machine.run_cons.mp reached
      obtain ⟨keptFirst, keptRest⟩ := List.isChain_cons_cons.mp kept
      exact induction (follows.loadAll paging keptFirst loadable.1 stepped)
        keptRest (loadable.2 next stepped) remaining

/-- `UnwindTables::new` for a target. -/
def newTables (targetPid : Nat) : UnwindTables :=
  { targetPid := targetPid }

theorem follows_empty (files : String → ElfFile) :
    Follows toPages own { lines := [], files := files } pid
      { targetPid := pid } :=
  ⟨[],
    { loaded := Loaded.empty pid
      targetPid := rfl
      distinct := List.nodup_nil
      bases := fun _ => Iff.rfl
      known := fun _ member => absurd member List.not_mem_nil },
    fun _ member => absurd member List.not_mem_nil⟩

/-- After loading any sequence of snapshots each of which keeps the modules of
the ones before, the lookups give the mappings of the newest. -/
theorem resolves_of_kept (paging : Paging toPages)
    {actions : List (Snapshot × List Nat)} {last : Snapshot × List Nat}
    (loadable : Machine.Along (loadAll toPages own) (Loadable toPages own)
      { targetPid := pid } (actions ++ [last]))
    (kept : ((actions ++ [last]).map Prod.fst).IsChain (Kept own))
    (reached : Machine.run (loadAll toPages own) { targetPid := pid }
      (actions ++ [last]) = some t) :
    t.targetPid = pid ∧ Resolves toPages own last.1 t := by
  have fromEmpty : ({ lines := [], files := last.1.files } ::
      (actions ++ [last]).map Prod.fst).IsChain (Kept own) :=
    List.isChain_cons.mpr
      ⟨fun _ _ _ member => absurd member List.not_mem_nil, kept⟩
  obtain ⟨follows, wellFormed⟩ :=
    (follows_empty last.1.files).run paging fromEmpty loadable reached
  have resolves := follows.resolves wellFormed
  obtain ⟨_, loading, _⟩ := follows
  exact ⟨loading.targetPid, resolves⟩

end

/-! A host process that maps a plugin, and unmaps it again. -/

def sharedObject : ElfFile where
  eType := some 3
  compactUnwindInfo := some [{ pc := 0x10 }]

def noVdso : OwnVdso where
  base := 0
  range := none
  compactUnwindInfo := fun _ => none

def hostLine : Line :=
  ⟨0x400000, 0x401000, true, .file "/bin/host"⟩

def pluginLine : Line :=
  ⟨0x7f0000020000, 0x7f0000021000, true, .file "/lib/plugin.so"⟩

def snapshotOf (lines : List Line) : Snapshot where
  lines := lines
  files := fun _ => sharedObject

def sharedObjectAt (start : Nat) : Image where
  base := start
  install := some
    { executableId := start
      loadAddress := start
      rows := [{ pc := 0x10 }]
      ranges := [(start, start + 0x1000)]
      mappingType := .file }

def hostLoaded : UnwindTables :=
  loadImage pagesByHighPc { targetPid := 7 } (sharedObjectAt 0x400000)

def pluginLoaded : UnwindTables :=
  loadImage pagesByHighPc hostLoaded (sharedObjectAt 0x7f0000020000)

theorem images_host :
    (snapshotOf [hostLine]).images noVdso [0x400000] =
      [sharedObjectAt 0x400000] := by
  decide

theorem images_plugin :
    (snapshotOf [hostLine, pluginLine]).images noVdso
        [0x400000, 0x7f0000020000] =
      [sharedObjectAt 0x400000, sharedObjectAt 0x7f0000020000] := by
  decide

theorem summarizeAddressRange_objects :
    summarizeAddressRange 0x400000 0x400fff = [(0x400000, 52)] ∧
      summarizeAddressRange 0x7f0000020000 0x7f0000020fff =
        [(0x7f0000020000, 52)] :=
  ⟨summarizeAddressRange_block 12 (by decide),
    summarizeAddressRange_block 12 (by decide)⟩

theorem loadImage_host_again {t : UnwindTables}
    (loaded : 0x400000 ∈ t.loaded) :
    loadImage pagesByHighPc t (sharedObjectAt 0x400000) = t :=
  if_pos loaded

theorem mem_loaded_host :
    0x400000 ∈ hostLoaded.loaded ∧ 0x400000 ∈ pluginLoaded.loaded := by
  simp [pluginLoaded, hostLoaded, loadImage, sharedObjectAt, installRows,
    Install.mappingEntries, summarizeAddressRange_objects]
  decide

theorem loadable_of_images {t : UnwindTables} {lines : List Line}
    {order : List Nat} {images : List Image}
    (visited : (snapshotOf lines).images noVdso order = images)
    (bases : (snapshotOf lines).moduleBases = order)
    (nonempty : ∀ line ∈ lines, line.start < line.end_)
    (sorted : lines.Pairwise fun first second => first.end_ ≤ second.start)
    (objects : ∀ image ∈ images, image = sharedObjectAt image.base)
    (room : RoomForImages pagesByHighPc t images) :
    Loadable pagesByHighPc noVdso t (snapshotOf lines, order) where
  wellFormed := ⟨nonempty, sorted⟩
  buildable image member := by
    rw [bases, visited] at member
    rw [objects image member]
    exact ⟨_, rfl, by simp, by simp⟩
  room := visited ▸ room

theorem loadable_host : Loadable pagesByHighPc noVdso { targetPid := 7 }
    (snapshotOf [hostLine], [0x400000]) := by
  apply loadable_of_images images_host
  · decide
  · decide
  · decide
  · decide
  · simp [RoomForImages, sharedObjectAt, installRows, Install.mappingEntries,
      summarizeAddressRange_objects]
    decide

theorem loadable_plugin : Loadable pagesByHighPc noVdso hostLoaded
    (snapshotOf [hostLine, pluginLine], [0x400000, 0x7f0000020000]) := by
  apply loadable_of_images images_plugin
  · decide
  · decide
  · decide
  · decide
  · simp [RoomForImages, hostLoaded, loadImage, sharedObjectAt, installRows,
      Install.mappingEntries, summarizeAddressRange_objects]
    decide

theorem loadable_host_again : Loadable pagesByHighPc noVdso pluginLoaded
    (snapshotOf [hostLine], [0x400000]) := by
  apply loadable_of_images images_host
  · decide
  · decide
  · decide
  · decide
  · exact ⟨fun fresh => absurd mem_loaded_host.2 fresh, trivial⟩

theorem loadAll_host :
    loadAll pagesByHighPc noVdso { targetPid := 7 }
      (snapshotOf [hostLine], [0x400000]) = some hostLoaded := by
  rw [loadAll, if_pos (by decide), images_host]
  rfl

theorem loadAll_plugin :
    loadAll pagesByHighPc noVdso hostLoaded
        (snapshotOf [hostLine, pluginLine], [0x400000, 0x7f0000020000]) =
      some pluginLoaded := by
  rw [loadAll, if_pos (by decide), images_plugin, List.foldl_cons,
    loadImage_host_again mem_loaded_host.1]
  rfl

theorem loadAll_host_again :
    loadAll pagesByHighPc noVdso pluginLoaded
      (snapshotOf [hostLine], [0x400000]) = some pluginLoaded := by
  rw [loadAll, if_pos (by decide), images_host, List.foldl_cons,
    loadImage_host_again mem_loaded_host.2]
  rfl

theorem resolves_plugin :
    pluginLoaded.targetPid = 7 ∧
      Resolves pagesByHighPc noVdso (snapshotOf [hostLine, pluginLine])
        pluginLoaded := by
  refine resolves_of_kept paging_pagesByHighPc
    (show Machine.Along _ _ _ ([(snapshotOf [hostLine], [0x400000])] ++
      [(snapshotOf [hostLine, pluginLine], [0x400000, 0x7f0000020000])]) from
      ⟨loadable_host, fun next stepped => ?_⟩) ?_ ?_
  · obtain rfl := Option.some.inj (loadAll_host.symm.trans stepped)
    exact ⟨loadable_plugin, fun _ _ => trivial⟩
  · refine List.isChain_pair.mpr fun image member => ?_
    rw [show (snapshotOf [hostLine]).moduleBases = [0x400000] from by decide,
      images_host, List.mem_singleton] at member
    rw [show (snapshotOf [hostLine, pluginLine]).moduleBases =
      [0x400000, 0x7f0000020000] from by decide, images_plugin, member]
    exact List.mem_cons_self
  · exact Machine.run_cons.mpr ⟨_, loadAll_host,
      Machine.run_cons.mpr ⟨_, loadAll_plugin, rfl⟩⟩

/-- The unmapped plugin's addresses still resolve to it. -/
theorem not_resolves_unmapped :
    Machine.run (loadAll pagesByHighPc noVdso) { targetPid := 7 }
        [(snapshotOf [hostLine], [0x400000]),
          (snapshotOf [hostLine, pluginLine], [0x400000, 0x7f0000020000]),
          (snapshotOf [hostLine], [0x400000])] = some pluginLoaded ∧
      Machine.Along (loadAll pagesByHighPc noVdso)
        (Loadable pagesByHighPc noVdso) { targetPid := 7 }
        [(snapshotOf [hostLine], [0x400000]),
          (snapshotOf [hostLine, pluginLine], [0x400000, 0x7f0000020000]),
          (snapshotOf [hostLine], [0x400000])] ∧
      ¬ Resolves pagesByHighPc noVdso (snapshotOf [hostLine])
        pluginLoaded := by
  refine ⟨?_, ⟨loadable_host, fun next stepped => ?_⟩, fun resolves => ?_⟩
  · exact Machine.run_cons.mpr ⟨_, loadAll_host, Machine.run_cons.mpr
      ⟨_, loadAll_plugin, Machine.run_cons.mpr ⟨_, loadAll_host_again, rfl⟩⟩⟩
  · obtain rfl := Option.some.inj (loadAll_host.symm.trans stepped)
    refine ⟨loadable_plugin, fun next stepped => ?_⟩
    obtain rfl := Option.some.inj (loadAll_plugin.symm.trans stepped)
    exact ⟨loadable_host_again, fun _ _ => trivial⟩
  · have found : pluginLoaded.maps.unwindFindMapping pluginLoaded.targetPid
        0x7f0000020000 = some ⟨0x7f0000020000, 0x7f0000020000,
          0x7f0000020000, 0x7f0000021000, .file⟩ := by
      simp [pluginLoaded, hostLoaded, loadImage, sharedObjectAt, installRows,
        Install.mappingEntries, summarizeAddressRange_objects]
      decide
    obtain ⟨install, range, segment, above, below⟩ :=
      resolves.only _ _ found (by decide) (by decide)
    cases segment with
    | file member exec name loads =>
        obtain rfl := List.mem_singleton.mp member
        exact absurd below (by decide)
    | vdso mapped loads => cases mapped

end Sismo.Unwind
