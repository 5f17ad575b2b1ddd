import Sismo.Heap.ProfileReads

namespace Sismo.Heap.ProfilePacket

/-! The ids of a packet are defined in it, and its frames add up to the
captured pcs. -/

open Proto

def Profile.FrameAt (p : Profile) (pc id : UInt64) : Prop :=
  ∃ f ∈ p.frames, f.iid = id ∧ ∃ m ∈ p.mappings, m.iid = f.mappingIid ∧
    m.start.toNat + f.relPc.toNat = pc.toNat

structure Profile.SampleOf (p : Profile) (site : HeapSite) (s : Sample) :
    Prop where
  totals : s.selfAllocated = site.totalSize ∧ s.selfFreed = site.freed ∧
    s.allocCount = site.count ∧ s.freeCount = site.freeCount
  stack : ∃ cs ∈ p.callstacks, cs.iid = s.callstackIid ∧
    List.Forall₂ p.FrameAt site.pcs.reverse cs.frameIids

/-- Every id that is used is defined, once, and the samples stand for the
sites, one for each. -/
structure Profile.Exact (p : Profile) (sites : List HeapSite) : Prop where
  once : (p.strings.map Prod.fst).Nodup ∧ (p.mappings.map Mapping.iid).Nodup ∧
    (p.frames.map Frame.iid).Nodup ∧ (p.callstacks.map Callstack.iid).Nodup
  paths : ∀ m ∈ p.mappings, m.pathStringIid ∈ p.strings.map Prod.fst
  names : ∀ f ∈ p.frames, f.functionNameIid ∈ p.strings.map Prod.fst
  mappings : ∀ f ∈ p.frames, f.mappingIid ∈ p.mappings.map Mapping.iid
  frames : ∀ cs ∈ p.callstacks, ∀ id ∈ cs.frameIids,
    id ∈ p.frames.map Frame.iid
  callstacks : ∀ s ∈ p.samples, s.callstackIid ∈
    p.callstacks.map Callstack.iid
  samples : List.Forall₂ p.SampleOf sites p.samples

/-- Every captured pc has an image at or below it. -/
def Covered (images : HeapImages) (sites : List HeapSite) : Prop :=
  ∀ site ∈ sites, ∀ pc ∈ site.pcs, ∃ image ∈ images.list,
    image.baseAvma ≤ pc

/-! The interned frames. -/

structure FrameOf (images : List HeapImage) (pc : UInt64) (f : Frame) :
    Prop where
  mapping : f.mappingIid = (mappingFor images pc).1
  relPc : f.relPc = pc - (mappingFor images pc).2

def Names (images : List HeapImage) (frames : List Frame) (pc id : UInt64) :
    Prop :=
  ∃ f ∈ frames, f.iid = id ∧ FrameOf images pc f

structure Tables.Sound (images : List HeapImage) (captured : UInt64 → Prop)
    (t : Tables) : Prop where
  iids : ∀ i f, t.frames[i]? = some f → f.iid = iidAt i
  names : ∀ f ∈ t.frames, ∃ i < t.strings.length, f.functionNameIid = iidAt i
  origin : ∀ f ∈ t.frames, ∃ pc, captured pc ∧ FrameOf images pc f
  byPc : ∀ pc id, t.frameByPc.lookup pc = some id →
    Names images t.frames pc id

structure Tables.Grows (t next : Tables) : Prop where
  frames : ∀ f ∈ t.frames, f ∈ next.frames
  strings : t.strings.length ≤ next.strings.length

theorem Tables.Grows.refl (t : Tables) : t.Grows t :=
  ⟨fun _ member => member, le_rfl⟩

theorem Tables.Grows.trans {t next last : Tables} (first : t.Grows next)
    (second : next.Grows last) : t.Grows last :=
  ⟨fun f member => second.frames f (first.frames f member),
    first.strings.trans second.strings⟩

theorem Names.mono {images : List HeapImage} {t next : Tables}
    {pc id : UInt64} (names : Names images t.frames pc id)
    (grows : t.Grows next) : Names images next.frames pc id := by
  obtain ⟨f, member, iid, of⟩ := names
  exact ⟨f, grows.frames f member, iid, of⟩

section

variable (resolveName : UInt64 → Bytes) {images : List HeapImage}
  {captured : UInt64 → Prop} {t : Tables}

theorem Tables.Sound.internFrame (sound : t.Sound images captured)
    {pc : UInt64} (member : captured pc) :
    (internFrame resolveName images t pc).1.Sound images captured ∧
      t.Grows (internFrame resolveName images t pc).1 ∧
      Names images (internFrame resolveName images t pc).1.frames pc
        (internFrame resolveName images t pc).2 := by
  rw [ProfilePacket.internFrame]
  cases found : t.frameByPc.lookup pc with
  | some id => exact ⟨sound, Grows.refl t, sound.byPc pc id found⟩
  | none =>
      dsimp only
      generalize fresh : Frame.mk (iidAt t.frames.length)
        (UInt64.ofNat (t.strings ++ [resolveName pc]).length)
        (mappingFor images pc).1 (pc - (mappingFor images pc).2) = frame
      have of : FrameOf images pc frame := by
        rw [← fresh]
        exact ⟨rfl, rfl⟩
      have iid : frame.iid = iidAt t.frames.length := by rw [← fresh]
      refine ⟨⟨?_, ?_, ?_, ?_⟩, ⟨?_, ?_⟩, frame, by simp, iid, of⟩
      · intro i f at_
        rw [List.getElem?_append] at at_
        split at at_
        · exact sound.iids i f at_
        · next past =>
            obtain ⟨within, same⟩ := List.getElem?_eq_some_iff.mp at_
            rw [List.length_singleton] at within
            rw [List.getElem_singleton] at same
            rw [← same, iid, show i = t.frames.length by omega]
      · intro f among
        rcases List.mem_append.mp among with old | new
        · obtain ⟨i, less, name⟩ := sound.names f old
          exact ⟨i, by simp; omega, name⟩
        · rw [List.mem_singleton.mp new, ← fresh]
          exact ⟨t.strings.length, by simp, by simp [iidAt]⟩
      · intro f among
        rcases List.mem_append.mp among with old | new
        · exact sound.origin f old
        · rw [List.mem_singleton.mp new]
          exact ⟨pc, member, of⟩
      · intro other id lookup
        rw [HashMap.lookup_insert_eq] at lookup
        split at lookup
        · next same =>
            cases lookup
            exact ⟨frame, by simp, iid, same ▸ of⟩
        · obtain ⟨f, among, rest⟩ := sound.byPc other id lookup
          exact ⟨f, List.mem_append_left _ among, rest⟩
      · exact fun f among => List.mem_append_left _ among
      · simp

theorem Tables.Sound.internFrames {pcs : List UInt64}
    (sound : t.Sound images captured) (all : ∀ pc ∈ pcs, captured pc) :
    (internFrames resolveName images t pcs).1.Sound images captured ∧
      t.Grows (internFrames resolveName images t pcs).1 ∧
      List.Forall₂
        (Names images (internFrames resolveName images t pcs).1.frames) pcs
        (internFrames resolveName images t pcs).2 := by
  induction pcs generalizing t with
  | nil => exact ⟨sound, Grows.refl t, .nil⟩
  | cons pc rest induction =>
      obtain ⟨firstSound, firstGrows, names⟩ := sound.internFrame
        resolveName (all pc List.mem_cons_self)
      obtain ⟨restSound, restGrows, restNames⟩ := induction firstSound
        fun other member => all other (List.mem_cons_of_mem pc member)
      exact ⟨restSound, firstGrows.trans restGrows,
        .cons (names.mono restGrows) restNames⟩

theorem Tables.Sound.internSites {sites : List HeapSite}
    (sound : t.Sound images captured)
    (all : ∀ site ∈ sites, ∀ pc ∈ site.pcs, captured pc) :
    (internSites resolveName images t sites).1.Sound images captured ∧
      t.Grows (internSites resolveName images t sites).1 ∧
      List.Forall₂ (fun site stack => List.Forall₂
        (Names images (internSites resolveName images t sites).1.frames)
        site.pcs.reverse stack) sites
        (internSites resolveName images t sites).2 := by
  induction sites generalizing t with
  | nil => exact ⟨sound, Grows.refl t, .nil⟩
  | cons site rest induction =>
      obtain ⟨stackSound, stackGrows, names⟩ := sound.internFrames
        resolveName fun pc member => all site List.mem_cons_self pc
          (List.mem_reverse.mp member)
      obtain ⟨restSound, restGrows, restNames⟩ := induction stackSound
        fun other member => all other (List.mem_cons_of_mem site member)
      exact ⟨restSound, stackGrows.trans restGrows,
        .cons (names.imp fun _ _ named => named.mono restGrows) restNames⟩

end

/-- The mapping of a pc is the image at or below it that the list has before
the first one above; a pc below the first image has mapping 1 and base 0. -/
theorem mappingFor_cases (images : List HeapImage) (pc : UInt64) :
    (∃ i image, images[i]? = some image ∧ image.baseAvma ≤ pc ∧
      mappingFor images pc = (iidAt i, image.baseAvma)) ∨
    ((images = [] ∨ ∃ image rest, images = image :: rest ∧
      ¬ image.baseAvma ≤ pc) ∧ mappingFor images pc = (1, 0)) := by
  rw [mappingFor, imagesBelow]
  cases point : partitionPoint (fun image : HeapImage =>
      decide (image.baseAvma ≤ pc)) images with
  | zero =>
      refine .inr ⟨?_, by split <;> rfl⟩
      rcases partitionPoint_eq_zero point with empty | ⟨image, rest, list, above⟩
      · exact .inl empty
      · exact .inr ⟨image, rest, list, of_decide_eq_false above⟩
  | succ i =>
      obtain ⟨before, image, after, rfl, length, below, _⟩ :=
        partitionPoint_succ point
      have here : (before ++ image :: after)[i]? = some image := by
        rw [← length]
        simp
      refine .inl ⟨i, image, here, of_decide_eq_true below, ?_⟩
      rw [Nat.add_sub_cancel, here]
      rfl

/-! Tables whose ids are their places. -/

section

variable {α : Type} {key : α → UInt64} {list : List α}

/-- The ids of a table are its places, and the table is short enough for
them. -/
structure Numbered (key : α → UInt64) (list : List α) : Prop where
  iid : ∀ i a, list[i]? = some a → key a = iidAt i
  short : list.length < 2 ^ 64 - 1

theorem iidAt_inj {i j : Nat} (iShort : i < 2 ^ 64 - 1)
    (jShort : j < 2 ^ 64 - 1) (same : iidAt i = iidAt j) : i = j := by
  have values := congrArg UInt64.toNat same
  rw [iidAt, iidAt, UInt64.toNat_ofNat', UInt64.toNat_ofNat',
    Nat.mod_eq_of_lt (by omega), Nat.mod_eq_of_lt (by omega)] at values
  omega

theorem Numbered.unique (numbered : Numbered key list) {a b : α}
    (first : a ∈ list) (second : b ∈ list) (same : key a = key b) : a = b := by
  obtain ⟨i, atI⟩ := List.mem_iff_getElem?.mp first
  obtain ⟨j, atJ⟩ := List.mem_iff_getElem?.mp second
  have := numbered.short
  have := (List.getElem?_eq_some_iff.mp atI).1
  have := (List.getElem?_eq_some_iff.mp atJ).1
  rw [numbered.iid i a atI, numbered.iid j b atJ] at same
  have equal := iidAt_inj (by omega) (by omega) same
  rw [equal, atJ] at atI
  exact (Option.some.inj atI).symm

theorem Numbered.nodup (numbered : Numbered key list) :
    (list.map key).Nodup := by
  rw [List.nodup_iff_pairwise_ne, List.pairwise_iff_getElem]
  intro i j iLt jLt less same
  rw [List.length_map] at iLt jLt
  rw [List.getElem_map, List.getElem_map,
    numbered.iid i _ (List.getElem?_eq_getElem iLt),
    numbered.iid j _ (List.getElem?_eq_getElem jLt)] at same
  have := numbered.short
  have := iidAt_inj (by omega) (by omega) same
  omega

theorem Numbered.mem (numbered : Numbered key list) {i : Nat}
    (within : i < list.length) : iidAt i ∈ list.map key := by
  have present := List.getElem?_eq_getElem within
  rw [← numbered.iid i _ present]
  exact List.mem_map_of_mem (List.getElem_mem within)

theorem numbered_mapIdx {β : Type} (list : List β) (f : Nat → β → α)
    (iid : ∀ i b, key (f i b) = iidAt i) (short : list.length < 2 ^ 64 - 1) :
    Numbered key (list.mapIdx f) := by
  refine ⟨fun i a at_ => ?_, by rwa [List.length_mapIdx]⟩
  rw [List.getElem?_mapIdx, Option.map_eq_some_iff] at at_
  obtain ⟨b, _, rfl⟩ := at_
  exact iid i b

end

structure Built (images : List HeapImage) (sites : List HeapSite)
    (stacks' : List (List UInt64)) (td : TraceData) : Prop where
  strings : images.length ≤ td.strings.length
  mappings : td.mappings = images.mapIdx mappingOf
  iids : ∀ i f, td.frames[i]? = some f → f.iid = iidAt i
  names : ∀ f ∈ td.frames, ∃ i < td.strings.length, f.functionNameIid = iidAt i
  origin : ∀ f ∈ td.frames, ∃ pc, (∃ site ∈ sites, pc ∈ site.pcs) ∧
    FrameOf images pc f
  callstacks : td.callstacks = stacks'.mapIdx fun index frameIids =>
    { iid := iidAt index, frameIids := frameIids }
  samples : td.samples = sites.mapIdx sampleOf
  frames : List.Forall₂ (fun site stack =>
    List.Forall₂ (Names images td.frames) site.pcs.reverse stack) sites stacks'

theorem buildTraceData_built (resolveName : UInt64 → Bytes)
    (images : List HeapImage) (sites : List HeapSite) :
    ∃ list, Built images sites list
      (buildTraceData resolveName images sites) := by
  have start : Tables.Sound images
      (fun pc => ∃ site ∈ sites, pc ∈ site.pcs)
      { strings := images.map HeapImage.path, frames := [], frameByPc := ∅ } :=
    ⟨nofun, nofun, nofun, nofun⟩
  obtain ⟨sound, grows, frames⟩ := start.internSites resolveName
    fun site member pc within => ⟨site, member, within⟩
  refine ⟨_, ?_, rfl, sound.iids, sound.names, sound.origin, rfl, rfl, frames⟩
  have length := grows.strings
  rw [List.length_map] at length
  exact length

section

variable {images : HeapImages} {sites : List HeapSite}
  {list : List (List UInt64)} {td : TraceData} {pc : UInt64} {f : Frame}

/-- A pc with an image at or below it adds up. -/
theorem Built.mapping_of_covered (built : Built images.list sites list td)
    (of : FrameOf images.list pc f)
    (covered : ∃ image ∈ images.list, image.baseAvma ≤ pc) :
    ∃ m ∈ td.mappings, m.iid = f.mappingIid ∧
      m.start.toNat + f.relPc.toNat = pc.toNat := by
  rcases mappingFor_cases images.list pc with
    ⟨i, image, present, below, mapping⟩ | ⟨above, _⟩
  · refine ⟨mappingOf i image, ?_, ?_, ?_⟩
    · rw [built.mappings, List.mem_mapIdx]
      obtain ⟨within, same⟩ := List.getElem?_eq_some_iff.mp present
      exact ⟨i, within, by rw [same]⟩
    · rw [of.mapping, mapping]
      rfl
    · have low : image.baseAvma.toNat ≤ pc.toNat := below
      rw [of.relPc, mapping, UInt64.toNat_sub_of_le _ _ below]
      exact Nat.add_sub_of_le low
  · exfalso
    obtain ⟨image, member, below⟩ := covered
    rcases above with empty | ⟨first, rest, same, high⟩
    · rw [empty] at member
      cases member
    · have sorted := images.sorted
      rw [same] at member sorted
      rcases List.mem_cons.mp member with rfl | later
      · exact high below
      · exact high (UInt64.le_trans
          ((List.pairwise_cons.mp sorted).1 image later) below)

/-- A pc that adds up has an image at or below it. -/
theorem Built.covered_of_mapping (built : Built images.list sites list td)
    (of : FrameOf images.list pc f) {m : Mapping} (member : m ∈ td.mappings)
    (sum : m.start.toNat + f.relPc.toNat = pc.toNat) :
    ∃ image ∈ images.list, image.baseAvma ≤ pc := by
  rcases mappingFor_cases images.list pc with
    ⟨i, image, present, below, _⟩ | ⟨_, mapping⟩
  · exact ⟨image, List.mem_of_getElem? present, below⟩
  · rw [built.mappings, List.mem_mapIdx] at member
    obtain ⟨i, within, rfl⟩ := member
    refine ⟨images.list[i], List.getElem_mem within, ?_⟩
    rw [of.relPc, mapping] at sum
    have zero : (pc - 0).toNat = pc.toNat := by rw [UInt64.sub_zero]
    have start : (mappingOf i images.list[i]).start =
        images.list[i].baseAvma := rfl
    rw [zero, start] at sum
    exact UInt64.le_iff_toNat_le.mpr (by omega)

/-- The tables' ids are their places. -/
structure Ids (td : TraceData) : Prop where
  strings : Numbered Prod.fst td.pool
  mappings : Numbered Mapping.iid td.mappings
  frames : Numbered Frame.iid td.frames
  callstacks : Numbered Callstack.iid td.callstacks

theorem Built.ids (built : Built images.list sites list td)
    (short : td.strings.length + (td.mappings.length + (td.frames.length +
      td.callstacks.length)) ≤ isizeMax) : Ids td := by
  have : isizeMax < 2 ^ 64 - 1 := by decide
  refine ⟨?_, ?_, ⟨built.iids, by omega⟩, ?_⟩
  · exact numbered_mapIdx td.strings _ (fun _ _ => rfl) (by omega)
  · have length := congrArg List.length built.mappings
    rw [List.length_mapIdx] at length
    rw [built.mappings]
    exact numbered_mapIdx images.list _ (fun _ _ => rfl) (by omega)
  · have length := congrArg List.length built.callstacks
    rw [List.length_mapIdx] at length
    rw [built.callstacks]
    exact numbered_mapIdx list _ (fun _ _ => rfl) (by omega)

theorem Built.covered_of_frameAt (built : Built images.list sites list td)
    (ids : Ids td) {id : UInt64} (names : Names images.list td.frames pc id)
    (frameAt : td.profile.FrameAt pc id) :
    ∃ image ∈ images.list, image.baseAvma ≤ pc := by
  obtain ⟨f, member, iid, of⟩ := names
  obtain ⟨other, among, same, m, mapping, _, sum⟩ := frameAt
  have equal := ids.frames.unique among member (same.trans iid.symm)
  subst equal
  exact built.covered_of_mapping of mapping sum

theorem Built.frameAt_of_covered (built : Built images.list sites list td)
    {id : UInt64} (names : Names images.list td.frames pc id)
    (covered : ∃ image ∈ images.list, image.baseAvma ≤ pc) :
    td.profile.FrameAt pc id := by
  obtain ⟨f, member, iid, of⟩ := names
  exact ⟨f, member, iid, built.mapping_of_covered of covered⟩

theorem Built.exact_of_covered (built : Built images.list sites list td)
    (ids : Ids td) (covered : Covered images sites) :
    td.profile.Exact sites := by
  have stacks' := built.frames.length_eq
  refine ⟨⟨ids.strings.nodup, ids.mappings.nodup, ids.frames.nodup,
    ids.callstacks.nodup⟩, ?_, ?_, ?_, ?_, ?_, ?_⟩
  · intro m member
    have member : m ∈ td.mappings := member
    rw [built.mappings, List.mem_mapIdx] at member
    obtain ⟨i, within, rfl⟩ := member
    refine ids.strings.mem (?_ : i < td.pool.length)
    rw [TraceData.pool, List.length_mapIdx]
    exact within.trans_le built.strings
  · intro f member
    obtain ⟨i, within, name⟩ := built.names f member
    rw [name]
    refine ids.strings.mem (?_ : i < td.pool.length)
    rwa [TraceData.pool, List.length_mapIdx]
  · intro f member
    obtain ⟨pc, ⟨site, among, within⟩, of⟩ := built.origin f member
    obtain ⟨m, present, iid, _⟩ :=
      built.mapping_of_covered of (covered site among pc within)
    exact List.mem_map.mpr ⟨m, present, iid⟩
  · intro cs member id used
    have member : cs ∈ td.callstacks := member
    rw [built.callstacks, List.mem_mapIdx] at member
    obtain ⟨i, within, rfl⟩ := member
    have names := built.frames.get (stacks' ▸ within) within
    obtain ⟨j, inStack, rfl⟩ := List.mem_iff_getElem.mp used
    obtain ⟨f, present, iid, _⟩ :=
      names.get (names.length_eq ▸ inStack) inStack
    exact List.mem_map.mpr ⟨f, present, iid⟩
  · intro s member
    have member : s ∈ td.samples := member
    rw [built.samples, List.mem_mapIdx] at member
    obtain ⟨i, within, rfl⟩ := member
    refine ids.callstacks.mem ?_
    rw [built.callstacks, List.length_mapIdx, ← stacks']
    exact within
  · have samples : td.profile.samples = sites.mapIdx sampleOf := built.samples
    rw [samples, List.forall₂_iff_get]
    refine ⟨by rw [List.length_mapIdx], fun i inSites _ => ?_⟩
    rw [List.get_eq_getElem, List.get_eq_getElem, List.getElem_mapIdx]
    have inList : i < list.length := stacks' ▸ inSites
    refine ⟨⟨rfl, rfl, rfl, rfl⟩,
      { iid := iidAt i, frameIids := list[i] }, ?_, rfl, ?_⟩
    · have callstacks : td.profile.callstacks = list.mapIdx
          fun index frameIids => { iid := iidAt index, frameIids := frameIids } :=
        built.callstacks
      rw [callstacks, List.mem_mapIdx]
      exact ⟨i, inList, rfl⟩
    · have names := built.frames.get inSites inList
      have all : ∀ pc ∈ sites[i].pcs.reverse,
          ∃ image ∈ images.list, image.baseAvma ≤ pc := fun pc member =>
        covered sites[i] (List.getElem_mem inSites) pc
          (List.mem_reverse.mp member)
      exact ((List.forall₂_and_left _ _).mpr ⟨all, names⟩).imp
        fun pc id both => built.frameAt_of_covered both.2 both.1

theorem Built.covered_of_exact (built : Built images.list sites list td)
    (ids : Ids td) (exact : td.profile.Exact sites) :
    Covered images sites := by
  intro site member pc within
  obtain ⟨i, inSites, rfl⟩ := List.mem_iff_getElem.mp member
  have stacks' := built.frames.length_eq
  have inList : i < list.length := stacks' ▸ inSites
  have names := built.frames.get inSites inList
  have samples : td.profile.samples = sites.mapIdx sampleOf := built.samples
  have all := exact.samples
  rw [samples] at all
  have sample := all.get inSites (by rwa [List.length_mapIdx])
  rw [List.get_eq_getElem, List.get_eq_getElem, List.getElem_mapIdx] at sample
  obtain ⟨cs, among, iid, frames⟩ := sample.stack
  have here : { iid := iidAt i, frameIids := list[i] } ∈ td.callstacks := by
    rw [built.callstacks, List.mem_mapIdx]
    exact ⟨i, inList, rfl⟩
  have same := ids.callstacks.unique among here iid
  subst same
  obtain ⟨j, inStack, rfl⟩ := List.mem_iff_getElem.mp
    (List.mem_reverse.mpr within)
  have inIds : j < list[i].length := names.length_eq ▸ inStack
  exact built.covered_of_frameAt ids (names.get inStack inIds)
    (frames.get inStack inIds)

end

section

variable {resolveName : UInt64 → Bytes} {pid : UInt32}
  {samplingInterval timestampNs : UInt64} {images : HeapImages}
  {sites : List HeapSite}

theorem written_of_short (short : (encodeAll (packetWrites pid samplingInterval
    timestampNs (buildTraceData resolveName images.list sites))).length ≤
      isizeMax) :
    ∃ w, buildProfilePacket resolveName pid samplingInterval timestampNs images
      sites = .ok w := by
  rcases ProtoWriter.extend_cases .new (encodeAll (packetWrites pid
    samplingInterval timestampNs
    (buildTraceData resolveName images.list sites))) with
    ⟨w, _, ok⟩ | ⟨long, _⟩
  · exact ⟨w, (applyAll_eq _ packetWrites_prefixFits _).trans ok⟩
  · have long : isizeMax < 0 + _ := long
    omega

theorem bytes_of_written {w : ProtoWriter}
    (written : buildProfilePacket resolveName pid samplingInterval timestampNs
      images sites = .ok w) :
    w.bytes = encodeAll (packetWrites pid samplingInterval timestampNs
      (buildTraceData resolveName images.list sites)) := by
  rcases ProtoWriter.extend_cases .new (encodeAll (packetWrites pid
    samplingInterval timestampNs
    (buildTraceData resolveName images.list sites))) with
    ⟨next, whole, ok⟩ | ⟨_, full⟩
  · have same := (applyAll_eq _ packetWrites_prefixFits _).trans ok
    cases written.symm.trans same
    exact whole
  · have same := (applyAll_eq _ packetWrites_prefixFits _).trans full
    cases written.symm.trans same

end

/-- A written packet is exact exactly where every captured pc has an image at
or below it. -/
theorem packet_exact_iff_covered (resolveName : UInt64 → Bytes) (pid : UInt32)
    (samplingInterval timestampNs : UInt64) (images : HeapImages)
    (sites : List HeapSite) {w : ProtoWriter}
    (written : buildProfilePacket resolveName pid samplingInterval timestampNs
      images sites = .ok w) :
    (∃ p, readPacket w.bytes = some [p] ∧ p.Exact sites) ↔
      Covered images sites := by
  obtain ⟨list, built⟩ := buildTraceData_built resolveName images.list sites
  have sized := w.sized
  rw [bytes_of_written written] at sized ⊢
  have ids := built.ids (lengths_le_encodeAll.trans sized)
  rw [readPacket_encodeAll sized]
  constructor
  · rintro ⟨p, same, exact⟩
    cases same
    exact built.covered_of_exact ids exact
  · intro covered
    exact ⟨_, rfl, built.exact_of_covered ids covered⟩

def oneImage : HeapImages where
  list := [{ baseAvma := 0x1000, path := [105, 109, 103] }]
  sorted := List.pairwise_singleton _ _

def oneSite : HeapSite where
  pcs := [0x1010]
  count := 5
  totalSize := 100
  freed := 40
  freeCount := 2

theorem packet_exact_iff_covered_one : ∃ w,
    buildProfilePacket (fun _ => [63]) 4242 4096 150 oneImage [oneSite] =
      .ok w ∧
    ((∃ p, readPacket w.bytes = some [p] ∧ p.Exact [oneSite]) ↔
      Covered oneImage [oneSite]) := by
  obtain ⟨w, written⟩ := written_of_short (by decide +kernel :
    (encodeAll (packetWrites 4242 4096 150
      (buildTraceData (fun _ => [63]) oneImage.list [oneSite]))).length ≤
      isizeMax)
  exact ⟨w, written, packet_exact_iff_covered _ _ _ _ _ _ written⟩

def noImages : HeapImages where
  list := []
  sorted := List.Pairwise.nil

/-- Without images, the frame's mapping is not in the packet. -/
theorem not_packet_exact_noImages : ∃ w,
    buildProfilePacket (fun _ => [63]) 4242 4096 150 noImages [oneSite] =
      .ok w ∧
    ¬ ∃ p, readPacket w.bytes = some [p] ∧ p.Exact [oneSite] := by
  have short : (encodeAll (packetWrites 4242 4096 150
      (buildTraceData (fun _ => [63]) noImages.list [oneSite]))).length ≤
      isizeMax := by
    decide +kernel
  obtain ⟨w, written⟩ := written_of_short short
  refine ⟨w, written, ?_⟩
  rintro ⟨p, read, exact⟩
  rw [bytes_of_written written, readPacket_encodeAll short] at read
  cases read
  have frames : (buildTraceData (fun _ => [63]) noImages.list
      [oneSite]).frames = [⟨1, 1, 1, 0x1010⟩] := by
    decide +kernel
  have mapped := exact.mappings ⟨1, 1, 1, 0x1010⟩
    (frames ▸ List.mem_singleton_self _ :
      _ ∈ (buildTraceData (fun _ => [63]) noImages.list [oneSite]).frames)
  cases mapped

end Sismo.Heap.ProfilePacket
