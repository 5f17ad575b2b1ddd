import Sismo.Samples.CapturedStacks

namespace Sismo.Samples

/-! The callstack id of a sample stands for its user, Python and kernel
frames. -/

variable {kbuildId : Bytes}

namespace Tables

variable {tables : Tables}

theorem decodeFrames_append {left right : List Nat}
    {leftFrames rightFrames : List DecodedFrame}
    (leftFound : tables.decodeFrames left = some leftFrames)
    (rightFound : tables.decodeFrames right = some rightFrames) :
    tables.decodeFrames (left ++ right) =
      some (leftFrames ++ rightFrames) := by
  rw [decodeFrames_eq_some_iff] at leftFound rightFound ⊢
  exact List.rel_append leftFound rightFound

theorem decodeFrames_reverse {iids : List Nat} {frames : List DecodedFrame}
    (found : tables.decodeFrames iids = some frames) :
    tables.decodeFrames iids.reverse = some frames.reverse := by
  rw [decodeFrames_eq_some_iff] at found ⊢
  exact List.rel_reverse found

end Tables

/-! ### Frames -/

theorem internFrame_interns (key : FrameKey) (frame : DecodedFrame) :
    Interns kbuildId (fun tables => tables.decodeFrame key = some frame)
      (·.internFrame key)
      fun tables iid => tables.frameAt iid = some frame := by
  intro start w tables writes ready
  unfold Writer.internFrame
  dsimp only
  split
  · next iid known =>
      obtain ⟨-, msg, defined, rfl, -⟩ :=
        writes.agrees.frames.known key iid known
      refine ⟨tables, writes, .refl _, ?_⟩
      simp [Tables.frameAt, defined, ready]
  · have decodes : (tables.decodeFrame key).isSome = true := by
      rw [ready, Option.isSome_some]
    have undefined := writes.agrees.undefined_frame key
    have le := Tables.le_put undefined
    refine ⟨_, writes.emit undefined decodes (writes.agrees.frame decodes),
      le, ?_⟩
    have lookup : (tables.put (.frame w.interner.frames.next key)).frames.lookup
        w.interner.frames.next = some key := by
      simp only [Tables.put]
      rw [HashMap.lookup_insert_eq, if_pos rfl]
    simp [Tables.frameAt, lookup, Tables.decodeFrame_mono le ready]

theorem mappingAt_stable {iid : Nat} {mapping : DecodedMapping}
    (tables later : Tables) (le : tables.Le later)
    (found : tables.mappingAt iid = some mapping) :
    later.mappingAt iid = some mapping :=
  Tables.mappingAt_mono le found

/-- A frame without a name. -/
theorem bareFrame_interns (mappingIid relPc : Nat)
    (mapping : DecodedMapping) :
    Interns kbuildId
      (fun tables => tables.mappingAt mappingIid = some mapping)
      (·.internFrame ⟨mappingIid, relPc, 0⟩)
      fun tables iid => tables.frameAt iid =
        some ⟨mapping, relPc, none⟩ := by
  refine (internFrame_interns _ _).imp (fun tables found => ?_)
    fun _ _ holds => holds
  simp [Tables.decodeFrame, Tables.stringAt, found]

/-- A frame with a name that is interned just before it. -/
theorem namedFrame_interns (mappingIid relPc : Nat) (name : Bytes)
    (mapping : DecodedMapping) :
    Interns kbuildId
      (fun tables => tables.mappingAt mappingIid = some mapping)
      (fun w =>
        let (nameIid, w) := w.internFuncName name
        w.internFrame ⟨mappingIid, relPc, nameIid⟩)
      fun tables iid => tables.frameAt iid =
        some ⟨mapping, relPc, some name⟩ := by
  refine ((internString_interns .functionName name).keep
    mappingAt_stable).bind
      (fun nameIid w => w.internFrame ⟨mappingIid, relPc, nameIid⟩)
      fun nameIid => ?_
  refine (internFrame_interns _ _).imp (fun tables found => ?_)
    fun _ _ holds => holds
  simp [Tables.decodeFrame, found.1.stringAt, found.2]

theorem internResolved_interns (resolved : ResolvedFrame) :
    Interns kbuildId (fun _ => True) (·.internResolved resolved)
      fun tables iid => tables.frameAt iid = some resolved.decoded := by
  cases resolved with
  | buildId raw path fileOffset =>
      exact (internBuildIdMapping_interns raw path).bind
        (fun mappingIid w => w.internFrame ⟨mappingIid, fileOffset, 0⟩)
        fun mappingIid => bareFrame_interns mappingIid fileOffset _
  | «virtual» mapping raw pc =>
      exact (internMapping_interns mapping.start mapping.end_ mapping.offset
        mapping.baseAvma mapping.path raw).bind
        (fun mappingIid w => w.internFrame ⟨mappingIid, pc, 0⟩)
        fun mappingIid => bareFrame_interns mappingIid pc _
  | residual label name pc =>
      cases name with
      | none =>
          exact (internResidualMapping_interns label).bind
            (fun mappingIid w => w.internFrame ⟨mappingIid, pc, 0⟩)
            fun mappingIid => bareFrame_interns mappingIid pc _
      | some name =>
          exact (internResidualMapping_interns label).bind
            (fun mappingIid w =>
              let (nameIid, w) := w.internFuncName name
              w.internFrame ⟨mappingIid, pc, nameIid⟩)
            fun mappingIid => namedFrame_interns mappingIid pc name _

theorem internKernelFrame_interns (kernel : KernelInfo) (frame : KernelFrame) :
    Interns kernel.kbuildId (fun _ => True)
      (·.internKernelFrame kernel frame)
      fun tables iid => tables.frameAt iid = some (frame.decoded kernel) := by
  cases frame with
  | rebased relPc =>
      exact internKernelMapping_interns.bind
        (fun kmap w => w.internFrame ⟨kmap, relPc, 0⟩)
        fun kmap => bareFrame_interns kmap relPc _
  | bare =>
      exact internKernelMapping_interns.bind
        (fun kmap w =>
          let (nameIid, w) := w.internFuncName (bytes "[kernel]")
          w.internFrame ⟨kmap, 0, nameIid⟩)
        fun kmap => namedFrame_interns kmap 0 _ _

/-! ### Lists of frames -/

theorem internList_interns {α : Type} {before : Tables → Prop}
    {intern : Writer → α → Nat × Writer} {decoded : α → DecodedFrame}
    (stable : ∀ tables later : Tables, tables.Le later → before tables →
      before later)
    (interns : ∀ item, Interns kbuildId before (intern · item)
      fun tables iid => tables.frameAt iid = some (decoded item))
    (items : List α) :
    Interns kbuildId before (Writer.internList intern · items)
      fun tables iids =>
        tables.decodeFrames iids = some (items.map decoded) := by
  induction items with
  | nil => exact .pure fun _ _ => rfl
  | cons item rest induction =>
      intro start w tables writes ready
      obtain ⟨middle, written, le, found⟩ :=
        interns item start w tables writes ready
      obtain ⟨later, writtenRest, leRest, foundRest⟩ :=
        induction start _ middle written (stable _ _ le ready)
      refine ⟨later, writtenRest, le.trans leRest, ?_⟩
      have head := Tables.frameAt_mono leRest found
      exact Tables.decodeFrames_eq_some_iff.mpr
        (.cons head (Tables.decodeFrames_eq_some_iff.mp foundRest))

theorem internPyFrames_interns (names : List Bytes) :
    Interns kbuildId (fun _ => True) (·.internPyFrames names)
      fun tables iids =>
        tables.decodeFrames iids = some (names.map pyFrame) := by
  unfold Writer.internPyFrames
  split
  · next none =>
      rw [none]
      exact .pure fun _ _ => rfl
  · refine (internResidualMapping_interns (bytes "[python]")).bind
      (fun mappingIid w =>
        Writer.internList (Writer.internPyFrame mappingIid) w names)
      fun mappingIid => ?_
    exact internList_interns mappingAt_stable
      (fun name => namedFrame_interns mappingIid 0 name _) names

theorem internCallstackIids_interns (iids : List Nat)
    (frames : List DecodedFrame) :
    Interns kbuildId (fun tables => tables.decodeFrames iids = some frames)
      (·.internCallstackIids iids)
      fun tables iid => tables.stackAt iid = some frames := by
  intro start w tables writes ready
  unfold Writer.internCallstackIids
  dsimp only
  split
  · next iid known =>
      obtain ⟨nonzero, content, defined, rfl, -⟩ :=
        writes.agrees.callstacks.known iids iid known
      refine ⟨tables, writes, .refl _, ?_⟩
      simp [Tables.stackAt, nonzero, defined, ready]
  · have decodes : (tables.decodeFrames iids).isSome = true := by
      rw [ready, Option.isSome_some]
    have undefined := writes.agrees.undefined_callstack iids
    have le := Tables.le_put undefined
    refine ⟨_, writes.emit undefined decodes
      (writes.agrees.callstack decodes), le, ?_⟩
    have nonzero := writes.agrees.callstacks.next_pos.ne'
    have lookup : (tables.put (.callstack w.interner.callstacks.next
        iids)).callstacks.lookup w.interner.callstacks.next = some iids := by
      simp only [Tables.put]
      rw [HashMap.lookup_insert_eq, if_pos rfl]
    simp [Tables.stackAt, nonzero, lookup, Tables.decodeFrames_mono le ready]

/-! ### The callstack -/

theorem internFrames_interns {kernel : KernelInfo}
    {pyNames : HashMap Nat Bytes} {sample : CapturedSample}
    {userFrames : List UserFrame} {rec : SampleRec}
    {kernelFrames : List KernelFrame}
    (chain : sample.record.Chain rec userFrames)
    (known : sample.pyNames = pyNames.lookup)
    (kernelFound : Samples.kernelFrames kernel rec = some kernelFrames) :
    ∃ stack, StackShown kernel sample stack ∧
      Interns kernel.kbuildId (fun _ => True)
        (Writer.internFrames kernel pyNames sample.host userFrames rec
          kernelFrames)
        fun tables iid => tables.stackAt iid = some stack := by
  have names := @pyFrames_spliced sample.host pyNames rec
  rw [← known] at names
  refine ⟨_, ⟨rec, userFrames, _, _, chain,
    resolveUserFrames_shown sample.host userFrames, names, rfl⟩, ?_⟩
  rw [← kernelFrames_shown kernelFound]
  intro start w tables writes _
  obtain ⟨tables₁, writes₁, le₁, python⟩ :=
    internPyFrames_interns (pyFrames sample.host pyNames rec) start w tables
      writes trivial
  obtain ⟨tables₂, writes₂, le₂, user⟩ :=
    internList_interns (fun _ _ _ _ => trivial)
      internResolved_interns
      (resolveUserFrames sample.host false 0 userFrames) start _ tables₁ writes₁ trivial
  obtain ⟨tables₃, writes₃, le₃, kernelDecoded⟩ :=
    internList_interns (fun _ _ _ _ => trivial)
      (internKernelFrame_interns kernel) kernelFrames start _ tables₂ writes₂
      trivial
  have combined := Tables.decodeFrames_append
    (Tables.decodeFrames_reverse (Tables.decodeFrames_append
      (Tables.decodeFrames_mono (le₂.trans le₃) python)
      (Tables.decodeFrames_mono le₃ user)))
    (Tables.decodeFrames_reverse kernelDecoded)
  beta_reduce at combined
  have le := (le₁.trans le₂).trans le₃
  rw [← List.reverse_append]
  unfold Writer.internFrames
  dsimp only
  split
  · next empty =>
      refine ⟨tables₃, writes₃, le, ?_⟩
      rw [empty] at combined
      rw [Tables.stackAt, if_pos rfl]
      exact combined
  · obtain ⟨later, written, leLater, found⟩ :=
      internCallstackIids_interns _ _ start _ tables₃ writes₃ combined
    exact ⟨later, written, le.trans leLater, found⟩

end Sismo.Samples
