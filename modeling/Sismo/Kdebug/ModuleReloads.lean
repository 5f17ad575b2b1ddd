import Sismo.Kdebug.MappingKeys

namespace Sismo.Kdebug

/-! Samples across reloads of the module table: what a reader of the packets
finds for each frame. -/

open Samples (bytes DecodedFrame DecodedMapping Interns Tables decode InSync)

/-! ### One sample, as the Linux interner writes it -/

def Resolved.use : Resolved → Use
  | .image m _ => .image m
  | .label text _ _ => .label text

def SampleFrames.uses (frames : SampleFrames) : List Use :=
  (if frames.kernelFrames = [] then [] else [.image kernelModule]) ++
    (if frames.pyNames = [] then [] else [.label (bytes "[python]")]) ++
    frames.userFrames.map Resolved.use

def linuxMapping (r : Samples.Writer) (m : Module) : Nat × Samples.Writer :=
  r.internMapping m.base.toNat m.end_.toNat 0 m.base.toNat m.path m.buildId

def linuxKernelFrames (r : Samples.Writer) (kernelFrames : List UInt64) :
    List Nat × Samples.Writer :=
  if kernelFrames = [] then ([], r)
  else
    let (kmap, r) := linuxMapping r kernelModule
    Samples.Writer.internList (fun r pc => r.internFrame ⟨kmap, pc.toNat, 0⟩)
      r (kernelFrames.filter (· ≠ 0))

def linuxName (r : Samples.Writer) : Option Bytes → Nat × Samples.Writer
  | some name => r.internFuncName name
  | none => (0, r)

def linuxResolved (r : Samples.Writer) : Resolved → Nat × Samples.Writer
  | .image m pc =>
      let (mappingIid, r) := linuxMapping r m
      r.internFrame ⟨mappingIid, pc.toNat, 0⟩
  | .label text name pc =>
      let (nameIid, r) := linuxName r name
      let (mapIid, r) := r.internResidualMapping text
      r.internFrame ⟨mapIid, pc.toNat, nameIid⟩

def linuxSample (frames : SampleFrames) (r : Samples.Writer) :
    Nat × Samples.Writer :=
  let (kernel, r) := linuxKernelFrames r frames.kernelFrames
  let (python, r) := r.internPyFrames frames.pyNames
  let (user, r) := Samples.Writer.internList linuxResolved r frames.userFrames
  let fids := kernel ++ python ++ user
  if fids = [] then (0, r) else r.internCallstackIids fids.reverse

section

variable {all : List Use}

theorem internList_alike {α : Type} {intern : Writer → α → Nat × Writer}
    {linux : Samples.Writer → α → Nat × Samples.Writer}
    {used : α → List Use}
    (alike : ∀ item, Alike all (used item) (intern · item) (linux · item))
    (items : List α) :
    Alike all (items.flatMap used) (Writer.internList intern · items)
      (Samples.Writer.internList linux · items) := by
  induction items with
  | nil => exact .pure []
  | cons item rest induction =>
      rw [List.flatMap_cons]
      exact (alike item).bind
        (fun iid w =>
          (iid :: (Writer.internList intern w rest).1,
            (Writer.internList intern w rest).2))
        (fun iid r =>
          (iid :: (Samples.Writer.internList linux r rest).1,
            (Samples.Writer.internList linux r rest).2))
        fun iid => by
          have list := induction.bind (fun iids w => (iid :: iids, w))
            (fun iids r => (iid :: iids, r)) fun iids => .pure (iid :: iids)
          rw [List.append_nil] at list
          exact list

variable (apart : KeysApart all)

include apart in
theorem internResolved_alike (resolved : Resolved) :
    Alike all [resolved.use] (·.internResolved resolved)
      (linuxResolved · resolved) := by
  cases resolved with
  | image m pc =>
      exact (internMapping_alike apart m).bind
        (fun mappingIid w => w.internFrame mappingIid pc.toNat 0)
        (fun mappingIid r => r.internFrame ⟨mappingIid, pc.toNat, 0⟩)
        fun mappingIid => internFrame_alike mappingIid pc.toNat 0
  | label text name pc =>
      have located := fun nameIid =>
        (internResidualMapping_alike apart text).bind
          (fun mapIid w => w.internFrame mapIid pc.toNat nameIid)
          (fun mapIid r => r.internFrame ⟨mapIid, pc.toNat, nameIid⟩)
          fun mapIid => internFrame_alike mapIid pc.toNat nameIid
      cases name with
      | none => exact located 0
      | some name =>
          exact (internString_alike (by decide) name).bind _ _ located

/-- Frames of one mapping need no other. -/
theorem internFrames_alike {α : Type} {intern : Writer → α → Nat × Writer}
    {linux : Samples.Writer → α → Nat × Samples.Writer}
    (alike : ∀ item, Alike all [] (intern · item) (linux · item))
    (items : List α) :
    Alike all [] (Writer.internList intern · items)
      (Samples.Writer.internList linux · items) := by
  have list := internList_alike alike items
  rwa [List.flatMap_eq_nil_iff.mpr fun _ _ => rfl] at list

include apart in
theorem internKernelFrames_alike (kernelFrames : List UInt64) :
    Alike all (if kernelFrames = [] then [] else [.image kernelModule])
      (·.internKernelFrames kernelFrames)
      (linuxKernelFrames · kernelFrames) := by
  unfold Writer.internKernelFrames linuxKernelFrames
  split
  · exact .pure []
  · exact (internMapping_alike apart kernelModule).bind
      (fun kmap w => Writer.internList
        (fun w pc => w.internFrame kmap pc.toNat 0) w
        (kernelFrames.filter (· ≠ 0)))
      (fun kmap r => Samples.Writer.internList
        (fun r pc => r.internFrame ⟨kmap, pc.toNat, 0⟩) r
        (kernelFrames.filter (· ≠ 0)))
      fun kmap => internFrames_alike
        (fun pc : UInt64 => internFrame_alike kmap pc.toNat 0) _

theorem internPyFrame_alike (mapIid : Nat) (name : Bytes) :
    Alike all [] (Writer.internPyFrame mapIid · name)
      (Samples.Writer.internPyFrame mapIid · name) :=
  (internString_alike (by decide) name).bind
    (fun nameIid w => w.internFrame mapIid 0 nameIid)
    (fun nameIid r => r.internFrame ⟨mapIid, 0, nameIid⟩)
    fun nameIid => internFrame_alike mapIid 0 nameIid

include apart in
theorem internPyFrames_alike (names : List Bytes) :
    Alike all (if names = [] then [] else [.label (bytes "[python]")])
      (·.internPyFrames names) (·.internPyFrames names) := by
  unfold Writer.internPyFrames Samples.Writer.internPyFrames
  split
  · exact .pure []
  · exact (internResidualMapping_alike apart (bytes "[python]")).bind
      (fun mapIid w => Writer.internList (Writer.internPyFrame mapIid) w names)
      (fun mapIid r => Samples.Writer.internList
        (Samples.Writer.internPyFrame mapIid) r names)
      fun mapIid => internFrames_alike (internPyFrame_alike mapIid) names

theorem internStack_alike (fids : List Nat) :
    Alike all []
      (fun w => if fids = [] then (0, w) else w.internCallstack fids.reverse)
      (fun r => if fids = [] then (0, r)
        else r.internCallstackIids fids.reverse) := by
  split
  · exact .pure 0
  · exact internCallstack_alike fids.reverse

include apart in
theorem internSample_alike (frames : SampleFrames) :
    Alike all frames.uses (·.internSample frames) (linuxSample frames) := by
  intro done w r pre mirrors
  unfold SampleFrames.uses at pre ⊢
  rw [List.append_assoc, ← List.append_assoc done] at pre
  obtain ⟨kernel, mirrors⟩ := internKernelFrames_alike apart
    frames.kernelFrames done w r ((List.prefix_append _ _).trans pre) mirrors
  rw [← List.append_assoc (done ++ _)] at pre
  obtain ⟨python, mirrors⟩ := internPyFrames_alike apart frames.pyNames _ _ _
    ((List.prefix_append _ _).trans pre) mirrors
  obtain ⟨user, mirrors⟩ := internList_alike (internResolved_alike apart)
    frames.userFrames _ _ _ (by rwa [← List.map_eq_flatMap]) mirrors
  rw [← List.map_eq_flatMap] at mirrors
  beta_reduce at kernel python user mirrors
  unfold Writer.internSample linuxSample
  dsimp only
  rw [← kernel, ← python, ← user]
  obtain ⟨stack, mirrors⟩ := internStack_alike _ _ _ _
    (by rwa [List.append_nil]) mirrors
  rw [List.append_nil] at mirrors
  simp only [← List.append_assoc]
  exact ⟨stack, mirrors⟩

end

/-! ### What the frames stand for -/

def Module.decoded (m : Module) : DecodedMapping :=
  Samples.userMapping m.base.toNat m.end_.toNat 0 m.base.toNat m.path
    m.buildId

def Resolved.decoded : Resolved → DecodedFrame
  | .image m pc => ⟨m.decoded, pc.toNat, none⟩
  | .label text name pc => ⟨Samples.labelMapping text, pc.toNat, name⟩

def SampleFrames.decoded (frames : SampleFrames) : List DecodedFrame :=
  let kernel := (frames.kernelFrames.filter (· ≠ 0)).map fun pc =>
    (⟨kernelModule.decoded, pc.toNat, none⟩ : DecodedFrame)
  let python := frames.pyNames.map Samples.pyFrame
  (kernel ++ python ++ frames.userFrames.map Resolved.decoded).reverse

theorem linuxMapping_interns (m : Module) :
    Interns [] (fun _ => True) (linuxMapping · m)
      fun tables iid => tables.mappingAt iid = some m.decoded :=
  Samples.internMapping_interns _ _ _ _ _ _

theorem linuxKernelFrames_interns (kernelFrames : List UInt64) :
    Interns [] (fun _ => True) (linuxKernelFrames · kernelFrames)
      fun tables iids => tables.decodeFrames iids =
        some ((kernelFrames.filter (· ≠ 0)).map fun pc =>
          ⟨kernelModule.decoded, pc.toNat, none⟩) := by
  unfold linuxKernelFrames
  split
  · next none =>
      rw [none]
      exact .pure fun _ _ => rfl
  · exact (linuxMapping_interns kernelModule).bind
      (fun kmap r => Samples.Writer.internList
        (fun r pc => r.internFrame ⟨kmap, pc.toNat, 0⟩) r
        (kernelFrames.filter (· ≠ 0)))
      fun kmap => Samples.internList_interns Samples.mappingAt_stable
        (fun pc : UInt64 => Samples.bareFrame_interns kmap pc.toNat _) _

theorem linuxName_interns (name : Option Bytes) :
    Interns [] (fun _ => True) (linuxName · name)
      fun tables iid => tables.stringAt .functionName iid = some name := by
  cases name with
  | none => exact .pure fun _ _ => rfl
  | some name =>
      exact (Samples.internString_interns .functionName name).imp
        (fun _ holds => holds) fun _ _ => Samples.StringIs.stringAt

theorem linuxResolved_interns (resolved : Resolved) :
    Interns [] (fun _ => True) (linuxResolved · resolved)
      fun tables iid => tables.frameAt iid = some resolved.decoded := by
  cases resolved with
  | image m pc =>
      exact (linuxMapping_interns m).bind
        (fun mappingIid r => r.internFrame ⟨mappingIid, pc.toNat, 0⟩)
        fun mappingIid => Samples.bareFrame_interns mappingIid pc.toNat _
  | label text name pc =>
      refine (linuxName_interns name).bind
        (fun nameIid r =>
          let (mapIid, r) := r.internResidualMapping text
          r.internFrame ⟨mapIid, pc.toNat, nameIid⟩)
        fun nameIid => ?_
      refine ((Samples.internResidualMapping_interns text).keep
        fun _ _ le found => Tables.stringAt_mono le found).bind
          (fun mapIid r => r.internFrame ⟨mapIid, pc.toNat, nameIid⟩)
          fun mapIid => ?_
      refine (Samples.internFrame_interns _ _).imp (fun tables found => ?_)
        fun _ _ holds => holds
      simp [Tables.decodeFrame, found.1, found.2, Resolved.decoded]

theorem linuxSample_interns (frames : SampleFrames) :
    Interns [] (fun _ => True) (linuxSample frames)
      fun tables iid => tables.stackAt iid = some frames.decoded := by
  intro start r tables writes _
  obtain ⟨tables₁, writes₁, le₁, kernel⟩ :=
    linuxKernelFrames_interns frames.kernelFrames start r tables writes trivial
  obtain ⟨tables₂, writes₂, le₂, python⟩ :=
    Samples.internPyFrames_interns frames.pyNames start _ tables₁ writes₁
      trivial
  obtain ⟨tables₃, writes₃, le₃, user⟩ :=
    Samples.internList_interns (fun _ _ _ _ => trivial) linuxResolved_interns
      frames.userFrames start _ tables₂ writes₂ trivial
  have combined := Tables.decodeFrames_append
    (Tables.decodeFrames_append
      (Tables.decodeFrames_mono (le₂.trans le₃) kernel)
      (Tables.decodeFrames_mono le₃ python)) user
  have le := (le₁.trans le₂).trans le₃
  unfold SampleFrames.decoded linuxSample
  dsimp only at combined ⊢
  split
  · next empty =>
      refine ⟨tables₃, writes₃, le, ?_⟩
      rw [empty] at combined
      rw [← Option.some.inj combined]
      rfl
  · obtain ⟨later, written, leLater, found⟩ :=
      Samples.internCallstackIids_interns _ _ start _ tables₃ writes₃
        (Tables.decodeFrames_reverse combined)
    exact ⟨later, written, le.trans leLater, found⟩

/-! ### Runs -/

section

variable (timebaseName : Bytes) (tb : Timebase)

def Emission.ready (emission : Emission) (e : PerfEmitter) : PerfEmitter :=
  (e.sendDefaults timebaseName).refresh emission.view emission.sample

def sampleRun (e : PerfEmitter) :
    List Emission → List (List Module × SampleFrames)
  | [] => []
  | emission :: rest =>
      let ready := emission.ready timebaseName e
      (ready.modules, ready.frames emission.view emission.sample) ::
        sampleRun (e.emit timebaseName tb emission.view emission.sample
          emission.weightNs) rest

def runUses (e : PerfEmitter) (emissions : List Emission) : List Use :=
  (sampleRun timebaseName tb e emissions).flatMap fun sample => sample.2.uses

end

namespace PerfEmitter

theorem refresh_interner (view : TargetView) (s : DecodedStack)
    (e : PerfEmitter) :
    (e.refresh view s).interner = e.interner ∧
      (e.refresh view s).packets = e.packets ∧
      (e.refresh view s).needDefaults = e.needDefaults := by
  unfold refresh reload
  dsimp only
  split_ifs <;> simp

end PerfEmitter

/-- The emitter's packets decode to the stacks shown, and its interner agrees
with the Linux one after the same uses. -/
def Shown (timebaseName : Bytes) (all done : List Use)
    (shown : List (List DecodedFrame)) (e : PerfEmitter) : Prop :=
  decode e.packets = some shown ∧
    ∃ r, Mirrors all done ⟨(e.sendDefaults timebaseName).interner, []⟩
        ⟨r, []⟩ ∧
      InSync [] r (e.sendDefaults timebaseName).packets shown

section

variable {timebaseName : Bytes} {tb : Timebase} {all done : List Use}
variable {shown : List (List DecodedFrame)} {e : PerfEmitter}

theorem new_shown (all : List Use) (view : TargetView) :
    Shown timebaseName all [] [] (PerfEmitter.new view) :=
  ⟨rfl, {}, Mirrors.empty all, InSync.defaults rfl timebaseName []⟩

theorem emit_shown (apart : KeysApart all) (emission : Emission)
    (pre : done ++ ((emission.ready timebaseName e).frames emission.view
      emission.sample).uses <+: all)
    (follows : Shown timebaseName all done shown e) :
    Shown timebaseName all
      (done ++ ((emission.ready timebaseName e).frames emission.view
        emission.sample).uses)
      (shown ++ [((emission.ready timebaseName e).frames emission.view
        emission.sample).decoded])
      (e.emit timebaseName tb emission.view emission.sample
        emission.weightNs) := by
  obtain ⟨_, r, mirrors, sync⟩ := follows
  obtain ⟨interner, packets, needDefaults⟩ := PerfEmitter.refresh_interner
    emission.view emission.sample (e.sendDefaults timebaseName)
  have started : (e.sendDefaults timebaseName).needDefaults = false := by
    unfold PerfEmitter.sendDefaults
    split
    · rfl
    · next done => simpa using done
  have ready : (emission.ready timebaseName e).interner =
      (e.sendDefaults timebaseName).interner := interner
  obtain ⟨same, written⟩ := internSample_alike apart _ done _ _ pre mirrors
  rw [← ready] at same written
  have settled : ∀ next : PerfEmitter, next.needDefaults = false →
      next.sendDefaults timebaseName = next := by
    intro next settled
    rw [PerfEmitter.sendDefaults, settled]
    rfl
  have next := settled (e.emit timebaseName tb emission.view emission.sample
    emission.weightNs) (needDefaults.trans started)
  have sent : InSync []
      (linuxSample ((emission.ready timebaseName e).frames emission.view
        emission.sample) ⟨r, []⟩).2.interner
      (e.emit timebaseName tb emission.view emission.sample
        emission.weightNs).packets
      (shown ++ [((emission.ready timebaseName e).frames emission.view
        emission.sample).decoded]) := by
    have step := sync.sample (linuxSample_interns
      ((emission.ready timebaseName e).frames emission.view emission.sample))
    rw [← packets, ← written.idw] at step
    exact step _ same
  refine ⟨sent.decodes, (linuxSample ((emission.ready timebaseName e).frames
    emission.view emission.sample) ⟨r, []⟩).2.interner, ?_, ?_⟩
  · rw [next]
    exact { written with idw := rfl }
  · rw [next]
    exact sent

theorem emitAll_shown (apart : KeysApart all) (emissions : List Emission)
    (pre : done ++ runUses timebaseName tb e emissions <+: all)
    (follows : Shown timebaseName all done shown e) :
    Shown timebaseName all (done ++ runUses timebaseName tb e emissions)
      (shown ++ (sampleRun timebaseName tb e emissions).map
        fun sample => sample.2.decoded)
      (emitAll timebaseName tb e emissions) := by
  induction emissions generalizing e done shown with
  | nil =>
      rw [runUses, sampleRun, List.flatMap_nil, List.append_nil, List.map_nil,
        List.append_nil]
      exact follows
  | cons emission rest induction =>
      rw [runUses, sampleRun, List.flatMap_cons, ← List.append_assoc]
        at pre ⊢
      rw [List.map_cons, List.append_cons]
      exact induction pre (emit_shown apart emission
        ((List.prefix_append _ _).trans pre) follows)

end

/-! ### The module of a frame -/

theorem findModule_spec {mods : List Module} {pc : UInt64} {m : Module}
    (found : findModule mods pc = some m) :
    m ∈ mods ∧ m.base ≤ pc ∧ pc < m.end_ := by
  unfold findModule at found
  split at found
  · cases found
  · next i point =>
      obtain ⟨before, element, after, rfl, rfl, below, _⟩ :=
        partitionPoint_succ point
      obtain ⟨here, inside⟩ := Option.filter_eq_some_iff.mp found
      rw [List.getElem?_append_right (Nat.le_refl _), Nat.sub_self,
        List.getElem?_cons_zero] at here
      cases here
      exact ⟨by simp, of_decide_eq_true below, of_decide_eq_true inside⟩

theorem resolveFrame_image {modules : List Module} {jitLabel : Bytes}
    {jitName : UInt64 → Option Bytes} {at_ pc : UInt64} {m : Module}
    (resolved : resolveFrame modules jitLabel jitName at_ =
      some (.image m pc)) : findModule modules pc = some m := by
  unfold resolveFrame at resolved
  split at resolved
  · cases resolved
  · cases found : findModule modules at_ with
    | some module_ =>
        rw [found] at resolved
        cases resolved
        exact found
    | none =>
        rw [found] at resolved
        dsimp only at resolved
        split at resolved
        · cases resolved
        · cases resolved

/-- The frame's mapping is the module with the pc, and its address there is
what the module's start leaves of the pc. -/
structure Truthful (modules : List Module) (m : Module) (pc : UInt64)
    (frame : DecodedFrame) : Prop where
  loaded : m ∈ modules
  inside : m.base ≤ pc ∧ pc < m.end_
  path : frame.mapping.path = some m.path
  buildId : frame.mapping.buildId = Samples.optionalBuildId m.buildId
  range : frame.mapping.start = m.base.toNat ∧
    frame.mapping.end_ = m.end_.toNat
  relative : frame.relPc - frame.mapping.loadBias = (pc - m.base).toNat

theorem sampleRun_truthful (timebaseName : Bytes) (tb : Timebase)
    (e : PerfEmitter) (emissions : List Emission) :
    ∀ sample ∈ sampleRun timebaseName tb e emissions, ∀ m pc,
      Resolved.image m pc ∈ sample.2.userFrames →
      Truthful sample.1 m pc (Resolved.image m pc).decoded := by
  induction emissions generalizing e with
  | nil => simp [sampleRun]
  | cons emission rest induction =>
      intro sample member m pc frame
      rcases List.mem_cons.mp member with rfl | later
      · obtain ⟨_, _, resolved⟩ := List.mem_filterMap.mp frame
        obtain ⟨loaded, inside⟩ := findModule_spec (resolveFrame_image resolved)
        refine ⟨loaded, inside, rfl, rfl, ⟨rfl, rfl⟩, ?_⟩
        exact (UInt64.toNat_sub_of_le _ _ inside.1).symm
      · exact induction _ sample later m pc frame

/-- In a run whose mappings have keys of their own every sample decodes to its
frames, each in the module with its pc at the time. -/
theorem mappings_stay_truthful (timebaseName : Bytes) (tb : Timebase)
    (view : TargetView) (emissions : List Emission)
    (apart : KeysApart
      (runUses timebaseName tb (PerfEmitter.new view) emissions)) :
    let samples := sampleRun timebaseName tb (PerfEmitter.new view) emissions
    decode (emitAll timebaseName tb (PerfEmitter.new view) emissions).packets =
        some (samples.map fun sample => sample.2.decoded) ∧
      ∀ sample ∈ samples, ∀ m pc,
        Resolved.image m pc ∈ sample.2.userFrames →
        Truthful sample.1 m pc (Resolved.image m pc).decoded := by
  refine ⟨?_, sampleRun_truthful timebaseName tb _ emissions⟩
  have follows := emitAll_shown apart emissions (List.prefix_refl _)
    (new_shown _ view)
  exact follows.1

/-! ### A library, and another in its place -/

def libA : Module := ⟨0x1000, 0x2000, bytes "a", [1]⟩

def libB : Module := ⟨0x1000, 0x3000, bytes "b", [2]⟩

def emissionIn (m : Module) (frames : List UInt64) : Emission where
  view :=
    { images := [m]
      mainExe := []
      armPython := fun _ => .absent
      mem := ⟨fun _ => none⟩
      jitName := fun _ _ => none }
  sample := ⟨1, 1, 0, 0, frames, []⟩
  weightNs := 0

theorem unitTimebase_pos : (1 : UInt64) ≠ 0 := by decide

def unitTimebase : Timebase := ⟨1, 1, unitTimebase_pos⟩

def startA : PerfEmitter :=
  .new (emissionIn libA []).view

theorem mappings_stay_truthful_libA :
    decode (emitAll [] unitTimebase startA
        [emissionIn libA [0x1800], emissionIn libA [0x9000, 0x1900]]).packets =
      some [[⟨libA.decoded, 0x1800, none⟩], [⟨libA.decoded, 0x1900, none⟩]] :=
  (mappings_stay_truthful [] unitTimebase (emissionIn libA []).view
    [emissionIn libA [0x1800], emissionIn libA [0x9000, 0x1900]]
    (by unfold KeysApart; decide +kernel)).1.trans (by decide +kernel)

/-! The library is replaced. -/

def idlePacket : Samples.PerfSamplePacket where
  ts := 0
  cpu := 0
  pid := 1
  tid := 1
  callstackIid := 0
  timebaseCount := 0
  followerCounts := []
  dataAddress := 0
  dataSymbol := none

theorem emit_idle (m : Module) (tb : Timebase) {e : PerfEmitter}
    (started : e.needDefaults = false) (native : e.py = .absent)
    (loaded : e.modules ≠ []) :
    e.emit [] tb (emissionIn m []).view (emissionIn m []).sample 0 =
      { e with
        sinceReload := min (e.sinceReload + 1) u64Max
        packets := e.packets ++ [.sample idlePacket []] } := by
  have kept : (e.sendDefaults []).refresh (emissionIn m []).view
      (emissionIn m []).sample =
        { e with sinceReload := min (e.sinceReload + 1) u64Max } := by
    simp [PerfEmitter.sendDefaults, PerfEmitter.refresh, started, native,
      loaded, emissionIn]
  unfold PerfEmitter.emit
  rw [kept]
  simp [PerfEmitter.frames, native, emissionIn, Writer.internSample,
    Writer.internKernelFrames, Writer.internPyFrames, Writer.internList,
    idlePacket]

theorem emitAll_append (timebaseName : Bytes) (tb : Timebase)
    (e : PerfEmitter) (first second : List Emission) :
    emitAll timebaseName tb e (first ++ second) =
      emitAll timebaseName tb (emitAll timebaseName tb e first) second :=
  List.foldl_append

theorem sampleRun_append (timebaseName : Bytes) (tb : Timebase)
    (e : PerfEmitter) (first second : List Emission) :
    sampleRun timebaseName tb e (first ++ second) =
      sampleRun timebaseName tb e first ++
        sampleRun timebaseName tb (emitAll timebaseName tb e first) second := by
  induction first generalizing e with
  | nil => rfl
  | cons emission rest induction =>
      rw [List.cons_append, sampleRun, sampleRun, induction]
      rfl

theorem emitAll_idle (m : Module) (tb : Timebase) {e : PerfEmitter} (n : Nat)
    (started : e.needDefaults = false) (native : e.py = .absent)
    (loaded : e.modules ≠ []) (small : e.sinceReload + n ≤ u64Max) :
    emitAll [] tb e (List.replicate n (emissionIn m [])) =
      { e with
        sinceReload := e.sinceReload + n
        packets := e.packets ++
          List.replicate n (.sample idlePacket []) } := by
  induction n with
  | zero => simp [emitAll]
  | succ n induction =>
      rw [List.replicate_succ', emitAll_append, induction (by omega)]
      have last := emit_idle m tb
        (e := { e with
          sinceReload := e.sinceReload + n
          packets := e.packets ++ List.replicate n (.sample idlePacket []) })
        started native loaded
      refine last.trans ?_
      rw [min_eq_left (by simpa [Nat.add_assoc] using small)]
      simp [List.replicate_succ', Nat.add_assoc]

/-- Samples without interned data leave the reader's tables. -/
theorem readAll_idle (packets : List Samples.Packet) (n : Nat) :
    (Samples.readAll (packets ++
        List.replicate n (.sample idlePacket []))).bind Samples.Reader.tables =
      (Samples.readAll packets).bind Samples.Reader.tables := by
  induction n with
  | zero => rw [List.replicate_zero, List.append_nil]
  | succ n induction =>
      rw [List.replicate_succ', ← List.append_assoc, ← induction]
      cases read : Samples.readAll
          (packets ++ List.replicate n (.sample idlePacket [])) with
      | none =>
          rw [Samples.readAll] at read
          rw [Samples.readAll, List.foldlM_append, read]
          rfl
      | some reader =>
          rw [Samples.readAll_snoc read]
          cases tables : reader.tables with
          | none => simp [Samples.Reader.read, tables]
          | some tables =>
              simp [Samples.Reader.read, tables, Samples.decodeSample,
                Tables.addAll, Tables.stackAt, idlePacket]

/-- The last stack is that of the last packet, over the tables before it. -/
theorem decode_snoc {packets : List Samples.Packet}
    {packet : Samples.PerfSamplePacket}
    {interned : List Samples.InternedEntry} {shown : List (List DecodedFrame)}
    (decoded : decode (packets ++ [.sample packet interned]) = some shown) :
    (((Samples.readAll packets).bind Samples.Reader.tables).bind fun tables =>
      (Samples.decodeSample tables packet interned).map Prod.snd) =
        shown.getLast? := by
  obtain ⟨reader, read, rfl⟩ := Option.map_eq_some_iff.mp decoded
  cases before : Samples.readAll packets with
  | none =>
      rw [Samples.readAll] at read before
      rw [List.foldlM_append, before] at read
      cases read
  | some earlier =>
      rw [Samples.readAll_snoc before, Samples.Reader.read] at read
      simp only [Option.bind_eq_bind, Option.bind_eq_some_iff] at read
      obtain ⟨tables, known, ⟨later, stack⟩, sample, same⟩ := read
      cases same
      simp [known, sample]

def afterA : PerfEmitter :=
  emitAll [] unitTimebase startA [emissionIn libA [0x1800]]

/-- After 512 samples a frame in no module makes the modules be read again. -/
def replacedLibrary : List Emission :=
  (emissionIn libA [0x1800] :: List.replicate 511 (emissionIn libA [])) ++
    [emissionIn libB [0x1800, 0x9000]]

def beforeB : PerfEmitter :=
  { afterA with
    sinceReload := 512
    packets := afterA.packets ++
      List.replicate 511 (.sample idlePacket []) }

theorem emitAll_beforeB :
    emitAll [] unitTimebase startA
      (emissionIn libA [0x1800] :: List.replicate 511 (emissionIn libA [])) =
        beforeB := by
  have started : afterA.needDefaults = false := by decide +kernel
  have idle := emitAll_idle libA unitTimebase 511 started (by decide +kernel)
    (by decide +kernel) (by decide +kernel)
  have since : afterA.sinceReload + 511 = 512 := by decide +kernel
  rw [since] at idle
  rw [← List.singleton_append, emitAll_append, ← afterA, idle, beforeB]

def tablesA : Option Tables :=
  (Samples.readAll afterA.packets).bind Samples.Reader.tables

def lastFrames : SampleFrames :=
  ((emissionIn libB [0x1800, 0x9000]).ready [] beforeB).frames
    (emissionIn libB [0x1800, 0x9000]).view
    (emissionIn libB [0x1800, 0x9000]).sample

theorem lastFrames_decoded :
    lastFrames.decoded = [⟨libB.decoded, 0x1800, none⟩] := by
  decide +kernel

theorem emit_packets (timebaseName : Bytes) (tb : Timebase)
    (emission : Emission) {e : PerfEmitter}
    (started : e.needDefaults = false) :
    ∃ packet : Samples.PerfSamplePacket,
      let sent := Writer.internSample ⟨e.interner, []⟩
        ((emission.ready timebaseName e).frames emission.view emission.sample)
      packet.callstackIid = sent.1 ∧
        (emitAll timebaseName tb e [emission]).packets =
          e.packets ++ [.sample packet sent.2.idw] := by
  have kept : e.sendDefaults timebaseName = e := by
    rw [PerfEmitter.sendDefaults, started]
    rfl
  obtain ⟨interner, packets, _⟩ := PerfEmitter.refresh_interner
    emission.view emission.sample e
  have sent : (emitAll timebaseName tb e [emission]).packets =
      (emission.ready timebaseName e).packets ++ _ := rfl
  rw [Emission.ready, kept] at sent ⊢
  rw [packets] at sent
  rw [← interner]
  exact ⟨_, rfl, sent⟩

/-- The frame in the new library is shown in the old one. -/
theorem lastFrames_misread :
    tablesA.bind (fun tables =>
      (Samples.decodeSample tables
        { idlePacket with
          callstackIid :=
            (Writer.internSample ⟨afterA.interner, []⟩ lastFrames).1 }
        (Writer.internSample ⟨afterA.interner, []⟩ lastFrames).2.idw).map
          Prod.snd) = some [⟨libA.decoded, 0x1800, none⟩] := by
  decide +kernel

theorem replacedLibrary_misread :
    decode (emitAll [] unitTimebase startA replacedLibrary).packets ≠
      some ((sampleRun [] unitTimebase startA replacedLibrary).map
        fun sample => sample.2.decoded) := by
  intro same
  obtain ⟨packet, iid, sent⟩ := emit_packets [] unitTimebase
    (emissionIn libB [0x1800, 0x9000]) (e := beforeB) (by decide +kernel)
  rw [replacedLibrary, emitAll_append, sampleRun_append, emitAll_beforeB,
    sent, List.map_append] at same
  have last := decode_snoc same
  have right : (sampleRun [] unitTimebase beforeB
      [emissionIn libB [0x1800, 0x9000]]).map
        (fun sample => sample.2.decoded) = [lastFrames.decoded] := rfl
  rw [right, List.getLast?_concat, lastFrames_decoded] at last
  have tables : (Samples.readAll beforeB.packets).bind
      Samples.Reader.tables = tablesA := readAll_idle afterA.packets 511
  have misread := lastFrames_misread
  rw [tables] at last
  have sameIid : packet.callstackIid =
      (Writer.internSample ⟨afterA.interner, []⟩ lastFrames).1 := iid
  simp only [Samples.decodeSample, ← sameIid] at misread
  simp only [Samples.decodeSample] at last
  have equal := misread.symm.trans last
  exact absurd equal (by decide +kernel)

end Sismo.Kdebug
