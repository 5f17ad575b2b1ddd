import Mathlib.Data.List.Induction
import Sismo.Lib.Machine
import Sismo.Samples.StackSound

namespace Sismo.Samples

/-! Reading the packets of a capture gives back the stacks it captured. -/

/-- The samples of each sequence. -/
structure Captured where
  active : Bool := false
  pyNames : Nat → Option Bytes := fun _ => none
  oncpu : List CapturedSample := []
  offcpu : List CapturedSample := []

namespace Captured

/-- The first definition of an id stays; a name ends at its first zero byte. -/
def learn (s : Captured) (id : Nat) (name : Bytes) : Captured :=
  { s with pyNames := fun other =>
      if other = id ∧ s.pyNames id = none then some (name.takeWhile (· ≠ 0))
      else s.pyNames other }

def act (s : Captured) : Action → Captured
  | .start => { s with active := true }
  | .stop => { s with active := false }
  | .record (.file _ _) _ _ => s
  | .record (.pyframe id name) _ _ => s.learn id name
  | .record (.offcpu rec) host _ =>
      if s.active then
        { s with offcpu := s.offcpu ++ [⟨.offcpu rec, host, s.pyNames⟩] }
      else s
  | .record record host _ =>
      if s.active then
        { s with oncpu := s.oncpu ++ [⟨record, host, s.pyNames⟩] }
      else s

end Captured

/-- The packets decode to a stack for each sample, that shows it. -/
def Decodes (kernel : KernelInfo) (packets : List Packet)
    (samples : List CapturedSample) : Prop :=
  ∃ shown, decode packets = some shown ∧
    List.Forall₂ (StackShown kernel) samples shown

/-! ### One sequence -/

/-- The packets decode to the stacks, and leave the reader with tables that
agree with the writer's. -/
def InSync (kbuildId : Bytes) (interner : Interner) (packets : List Packet)
    (shown : List (List DecodedFrame)) : Prop :=
  ∃ tables, readAll packets = some ⟨some tables, shown⟩ ∧
    Agrees kbuildId interner tables

section

variable {kbuildId : Bytes} {interner : Interner} {packets : List Packet}
variable {shown : List (List DecodedFrame)}

theorem InSync.decodes (sync : InSync kbuildId interner packets shown) :
    decode packets = some shown := by
  obtain ⟨tables, read, -⟩ := sync
  rw [decode, read, Option.map_some]

theorem readAll_snoc {reader : Reader} (read : readAll packets = some reader)
    (packet : Packet) : readAll (packets ++ [packet]) = reader.read packet := by
  rw [readAll] at read ⊢
  rw [List.foldlM_append, read, Option.bind_eq_bind, Option.bind_some,
    List.foldlM_cons]
  simp

/-- A defaults packet brings the reader in step with cleared tables. -/
theorem InSync.defaults (decoded : decode packets = some shown)
    (timebase : Bytes) (followers : List Bytes) :
    InSync kbuildId {} (packets ++ [.defaults timebase followers]) shown := by
  obtain ⟨reader, read, rfl⟩ := Option.map_eq_some_iff.mp decoded
  exact ⟨{}, readAll_snoc read _, .empty kbuildId⟩

theorem InSync.sample (sync : InSync kbuildId interner packets shown)
    {step : Writer → Nat × Writer} {stack : List DecodedFrame}
    (interns : Interns kbuildId (fun _ => True) step
      fun tables iid => tables.stackAt iid = some stack)
    (packet : PerfSamplePacket)
    (refers : packet.callstackIid = (step { interner := interner }).1) :
    InSync kbuildId (step { interner := interner }).2.interner
      (packets ++ [.sample packet (step { interner := interner }).2.idw])
      (shown ++ [stack]) := by
  obtain ⟨tables, read, agrees⟩ := sync
  obtain ⟨later, writes, -, found⟩ :=
    interns tables _ tables (.begin agrees) trivial
  refine ⟨later, ?_, writes.agrees⟩
  have defined : (step { interner := interner }).2.idw.all later.defined =
      true := List.all_eq_true.mpr writes.defined
  rw [readAll_snoc read, Reader.read]
  simp only [decodeSample, writes.added, refers, found, Option.bind_eq_bind,
    Option.bind_some, if_pos defined]

end

def InStep (kernel : KernelInfo) (interner : Interner) (packets : List Packet)
    (samples : List CapturedSample) : Prop :=
  ∃ shown, InSync kernel.kbuildId interner packets shown ∧
    List.Forall₂ (StackShown kernel) samples shown

section

variable {kernel : KernelInfo} {interner : Interner} {packets : List Packet}
variable {samples : List CapturedSample}

theorem InStep.decodes (inStep : InStep kernel interner packets samples) :
    Decodes kernel packets samples := by
  obtain ⟨shown, sync, shows⟩ := inStep
  exact ⟨shown, sync.decodes, shows⟩

theorem InStep.defaults (decodes : Decodes kernel packets samples)
    (timebase : Bytes) (followers : List Bytes) :
    InStep kernel {} (packets ++ [.defaults timebase followers]) samples := by
  obtain ⟨shown, decoded, shows⟩ := decodes
  exact ⟨shown, InSync.defaults decoded timebase followers, shows⟩

theorem InStep.sample (inStep : InStep kernel interner packets samples)
    {step : Writer → Nat × Writer} {sample : CapturedSample}
    (interns : ∃ stack, StackShown kernel sample stack ∧
      Interns kernel.kbuildId (fun _ => True) step
        fun tables iid => tables.stackAt iid = some stack)
    (packet : PerfSamplePacket)
    (refers : packet.callstackIid = (step { interner := interner }).1) :
    InStep kernel (step { interner := interner }).2.interner
      (packets ++ [.sample packet (step { interner := interner }).2.idw])
      (samples ++ [sample]) := by
  obtain ⟨shown, sync, shows⟩ := inStep
  obtain ⟨stack, stackShown, interns⟩ := interns
  exact ⟨shown ++ [stack], sync.sample interns packet refers,
    List.rel_append shows (.cons stackShown .nil)⟩

end

/-! ### The capture -/

variable {config : CaptureConfig}

/-- Both sequences decode to the stacks captured, and each is in step with its
tables once it has its defaults in the running session. -/
structure Follows (config : CaptureConfig) (c : Capture) (s : Captured) :
    Prop where
  active : s.active = c.active
  pyNames : s.pyNames = c.pyNames.lookup
  oncpu : Decodes config.kernel c.oncpu s.oncpu
  offcpu : Decodes config.kernel c.offcpu s.offcpu
  oncpuStep : c.active = true → c.needDefaults = false →
    InStep config.kernel c.interner c.oncpu s.oncpu
  offcpuStep : c.active = true → c.offcpuNeedDefaults = false →
    InStep config.kernel c.offcpuInterner c.offcpu s.offcpu

theorem Follows.empty (config : CaptureConfig) : Follows config {} {} where
  active := rfl
  pyNames := rfl
  oncpu := ⟨[], rfl, .nil⟩
  offcpu := ⟨[], rfl, .nil⟩
  oncpuStep active := by cases active
  offcpuStep active := by cases active

section

variable {c next : Capture} {s : Captured}

theorem learnName_follows (follows : Follows config c s) (id : Nat)
    (name : Bytes) :
    Follows config { c with pyNames := learnName c.pyNames id name }
      (s.learn id name) := by
  refine { follows with pyNames := ?_ }
  funext other
  unfold Captured.learn learnName
  dsimp only
  rw [follows.pyNames]
  cases known : c.pyNames.lookup id with
  | some old => simp [known]
  | none =>
      simp only [known, Option.isSome_none, Bool.false_eq_true, if_false,
        and_true]
      rw [HashMap.lookup_insert_eq]

theorem emitDefaults_follows (follows : Follows config c s) :
    Follows config
      (emitDefaults config { c with needDefaults := false, interner := {} })
      s := by
  have started : InStep config.kernel {} (c.oncpu ++ [oncpuDefaults config])
      s.oncpu := by
    unfold oncpuDefaults
    split
    · exact InStep.defaults follows.oncpu _ _
    · exact InStep.defaults follows.oncpu _ _
  exact { follows with
    oncpu := started.decodes
    oncpuStep := fun _ _ => started }

theorem emitOffcpuDefaults_follows (follows : Follows config c s) :
    Follows config
      (emitOffcpuDefaults
        { c with offcpuNeedDefaults := false, offcpuInterner := {} }) s := by
  have started : InStep config.kernel {}
      (c.offcpu ++ [.defaults (bytes "off-cpu-ns") []]) s.offcpu :=
    InStep.defaults follows.offcpu _ _
  exact { follows with
    offcpu := started.decodes
    offcpuStep := fun _ _ => started }

theorem internCallstack_eq_some {kernel : KernelInfo}
    {pyNames : HashMap Nat Bytes} {host : HostView}
    {userFrames : List UserFrame} {rec : SampleRec} {w : Writer}
    {result : Nat × Writer}
    (interned : Writer.internCallstack kernel pyNames host userFrames rec w =
      some result) :
    ∃ frames, kernelFrames kernel rec = some frames ∧
      result = w.internFrames kernel pyNames host userFrames rec frames := by
  obtain ⟨frames, found, same⟩ := Option.bind_eq_some_iff.mp interned
  exact ⟨frames, found, (Option.some.inj same).symm⟩

theorem oncpuPacket_callstackIid (dataRegionLabel : Nat → Bytes)
    (rec : SampleRec) (callstackIid : Nat) :
    (oncpuPacket config dataRegionLabel rec callstackIid).callstackIid =
      callstackIid := by
  unfold oncpuPacket
  split
  split
  · rfl
  · rfl

theorem emitOncpuSample_follows (follows : Follows config c s)
    (active : c.active = true) (ready : c.needDefaults = false)
    {host : HostView} {dataRegionLabel : Nat → Bytes}
    {userFrames : List UserFrame} {rec : SampleRec} {record : Record}
    (chain : record.Chain rec userFrames)
    (emits : emitOncpuSample config host dataRegionLabel userFrames rec c =
      some next) :
    Follows config next
      { s with oncpu := s.oncpu ++ [⟨record, host, s.pyNames⟩] } := by
  obtain ⟨result, interned, same⟩ := Option.bind_eq_some_iff.mp emits
  obtain ⟨frames, found, made⟩ := internCallstack_eq_some interned
  have emitted := (follows.oncpuStep active ready).sample
    (@internFrames_interns config.kernel c.pyNames ⟨record, host, s.pyNames⟩
      userFrames rec frames chain follows.pyNames found)
  rw [← made] at emitted
  rw [← Option.some.inj same]
  have sync := emitted (oncpuPacket config dataRegionLabel rec result.1)
    (oncpuPacket_callstackIid dataRegionLabel rec result.1)
  exact { follows with
    oncpu := sync.decodes
    oncpuStep := fun _ _ => sync }

theorem emitOffcpuSample_follows (follows : Follows config c s)
    (active : c.active = true) {host : HostView} {rec : SampleRec}
    (emits : emitOffcpuSample config host rec c = some next) :
    Follows config next
      { s with offcpu := s.offcpu ++ [⟨.offcpu rec, host, s.pyNames⟩] } := by
  unfold emitOffcpuSample at emits
  obtain ⟨ready, begun, readyFollows, readyActive, done⟩ :
      ∃ ready, ready = (if c.offcpuNeedDefaults then
        emitOffcpuDefaults
          { c with offcpuNeedDefaults := false, offcpuInterner := {} }
        else c) ∧ Follows config ready s ∧ ready.active = true ∧
        ready.offcpuNeedDefaults = false := by
    refine ⟨_, rfl, ?_⟩
    split
    · exact ⟨emitOffcpuDefaults_follows follows, active, rfl⟩
    · next done => exact ⟨follows, active, by simpa using done⟩
  rw [← begun] at emits
  obtain ⟨result, interned, same⟩ := Option.bind_eq_some_iff.mp emits
  obtain ⟨frames, found, made⟩ := internCallstack_eq_some interned
  have chain : Record.Chain (.offcpu rec) rec
      (decodeUserFrames rec.stack rec.nrFrames) := by
    rw [decodeUserFrames_eq]
    exact .offcpu rec
  have emitted := (readyFollows.offcpuStep readyActive done).sample
    (@internFrames_interns config.kernel ready.pyNames
      ⟨.offcpu rec, host, s.pyNames⟩ _ rec frames chain readyFollows.pyNames
      found)
  rw [← made] at emitted
  have sync := emitted (offcpuPacket ready.fileNames rec result.1) rfl
  rw [← Option.some.inj same]
  exact { readyFollows with
    offcpu := sync.decodes
    offcpuStep := fun _ _ => sync }

/-- After the defaults, if they were due, the sample. -/
theorem oncpuRecord_follows (follows : Follows config c s)
    {host : HostView} {dataRegionLabel : Nat → Bytes}
    {userFrames : List UserFrame} {rec : SampleRec} {record : Record}
    (chain : record.Chain rec userFrames)
    (emits : (match beginOncpuSample config c with
      | none => some c
      | some c =>
          emitOncpuSample config host dataRegionLabel userFrames rec c) =
      some next) :
    Follows config next
      (if s.active then
        { s with oncpu := s.oncpu ++ [⟨record, host, s.pyNames⟩] }
      else s) := by
  unfold beginOncpuSample at emits
  split_ifs at emits with inactive due
  · cases emits
    rw [if_neg (by simp [follows.active, inactive])]
    exact follows
  · have active : c.active = true := by simpa using inactive
    rw [if_pos (follows.active.trans active)]
    exact emitOncpuSample_follows (emitDefaults_follows follows) active rfl
      chain emits
  · have active : c.active = true := by simpa using inactive
    rw [if_pos (follows.active.trans active)]
    exact emitOncpuSample_follows follows active (by simpa using due) chain
      emits

theorem act_follows (follows : Follows config c s) {action : Action}
    (acted : act config c action = some next) :
    Follows config next (s.act action) := by
  cases action with
  | start =>
      cases acted
      exact { follows with
        active := rfl
        oncpuStep := fun _ done => nomatch done
        offcpuStep := fun _ done => nomatch done }
  | stop =>
      cases acted
      exact { follows with
        active := rfl
        oncpuStep := fun on => nomatch on
        offcpuStep := fun on => nomatch on }
  | record record host dataRegionLabel =>
      cases record with
      | file id name =>
          cases acted
          exact { follows with }
      | pyframe id name =>
          cases acted
          exact learnName_follows follows id name
      | offcpu rec =>
          simp only [act, handle] at acted
          dsimp only [Captured.act]
          split at acted
          · next active =>
              rw [if_pos (follows.active.trans active)]
              exact emitOffcpuSample_follows follows active acted
          · next inactive =>
              cases acted
              rw [if_neg (follows.active ▸ inactive)]
              exact follows
      | sample rec =>
          have chain := Record.Chain.sample rec
          rw [← decodeUserFrames_eq] at chain
          exact oncpuRecord_follows follows chain acted
      | sampleUnwind urec =>
          exact oncpuRecord_follows follows (unwindFrames_chain urec) acted

end

theorem run_follows (config : CaptureConfig) {c final : Capture}
    {s : Captured} {actions : List Action} (follows : Follows config c s)
    (ran : Machine.run (act config) c actions = some final) :
    Follows config final (actions.foldl Captured.act s) := by
  induction actions generalizing c s with
  | nil =>
      cases ran
      exact follows
  | cons action rest induction =>
      obtain ⟨next, acted, remaining⟩ := Machine.run_cons.mp ran
      exact induction (act_follows follows acted) remaining

/-! ### Panics -/

/-- The sample a record carries; a definition carries none. -/
def Record.carried : Record → SampleRec
  | .file _ _ => {}
  | .pyframe _ _ => {}
  | .offcpu rec => rec
  | .sample rec => rec
  | .sampleUnwind urec => urec.sample

/-- No sum over a kernel address of the sample panics. -/
def CapturedSample.Near (kernel : KernelInfo) (sample : CapturedSample) : Prop :=
  KernelNear kernel sample.record.carried

def Captured.Near (kernel : KernelInfo) (s : Captured) : Prop :=
  (∀ sample ∈ s.oncpu, sample.Near kernel) ∧
    ∀ sample ∈ s.offcpu, sample.Near kernel

section

variable {c : Capture} {s : Captured} {kernel : KernelInfo}

theorem Captured.Near.earlier {action : Action}
    (near : (s.act action).Near kernel) : s.Near kernel := by
  cases action with
  | start => exact near
  | stop => exact near
  | record record host dataRegionLabel =>
      cases record with
      | file id name => exact near
      | pyframe id name => exact near
      | offcpu rec =>
          dsimp only [Captured.act] at near
          split at near
          · exact ⟨near.1, (List.forall_mem_append.mp near.2).1⟩
          · exact near
      | sample rec =>
          dsimp only [Captured.act] at near
          split at near
          · exact ⟨(List.forall_mem_append.mp near.1).1, near.2⟩
          · exact near
      | sampleUnwind urec =>
          dsimp only [Captured.act] at near
          split at near
          · exact ⟨(List.forall_mem_append.mp near.1).1, near.2⟩
          · exact near

theorem Captured.Near.before {actions : List Action}
    (near : (actions.foldl Captured.act s).Near kernel) : s.Near kernel := by
  induction actions generalizing s with
  | nil => exact near
  | cons action rest induction => exact (induction near).earlier

theorem emitOncpuSample_isSome {host : HostView}
    {dataRegionLabel : Nat → Bytes} {userFrames : List UserFrame}
    {rec : SampleRec} :
    (emitOncpuSample config host dataRegionLabel userFrames rec c).isSome ↔
      KernelNear config.kernel rec := by
  rw [← kernelFrames_isSome]
  unfold emitOncpuSample Writer.internCallstack
  cases kernelFrames config.kernel rec with
  | none => exact Iff.rfl
  | some frames => exact Iff.rfl

theorem emitOffcpuSample_isSome {host : HostView} {rec : SampleRec} :
    (emitOffcpuSample config host rec c).isSome ↔
      KernelNear config.kernel rec := by
  rw [← kernelFrames_isSome]
  unfold emitOffcpuSample Writer.internCallstack
  cases kernelFrames config.kernel rec with
  | none => exact Iff.rfl
  | some frames => exact Iff.rfl

theorem oncpuRecord_isSome (follows : Follows config c s)
    (near : s.Near config.kernel) {host : HostView}
    {dataRegionLabel : Nat → Bytes} {userFrames : List UserFrame}
    {record : Record} :
    Option.isSome (match beginOncpuSample config c with
      | none => some c
      | some c =>
          emitOncpuSample config host dataRegionLabel userFrames
            record.carried c) ↔
      (if s.active then
        { s with oncpu := s.oncpu ++ [⟨record, host, s.pyNames⟩] }
      else s).Near config.kernel := by
  have emits : KernelNear config.kernel record.carried ↔
      Captured.Near config.kernel
        { s with oncpu := s.oncpu ++ [⟨record, host, s.pyNames⟩] } :=
    ⟨fun here => ⟨List.forall_mem_append.mpr ⟨near.1,
        List.forall_mem_singleton.mpr here⟩, near.2⟩,
      fun all => (List.forall_mem_append.mp all.1).2 _ List.mem_cons_self⟩
  unfold beginOncpuSample
  cases active : c.active with
  | false =>
      have off : ¬ s.active = true := by simp [follows.active, active]
      rw [if_neg off, if_pos rfl]
      exact iff_of_true rfl near
  | true =>
      rw [if_pos (follows.active.trans active)]
      by_cases due : c.needDefaults = true
      · rw [if_neg nofun, if_pos due]
        exact emitOncpuSample_isSome.trans emits
      · rw [if_neg nofun, if_neg due]
        exact emitOncpuSample_isSome.trans emits

/-- An action panics just where it captures a sample that is not near. -/
theorem act_isSome (follows : Follows config c s)
    (near : s.Near config.kernel) (action : Action) :
    (act config c action).isSome ↔ (s.act action).Near config.kernel := by
  cases action with
  | start => exact iff_of_true rfl near
  | stop => exact iff_of_true rfl near
  | record record host dataRegionLabel =>
      cases record with
      | file id name => exact iff_of_true rfl near
      | pyframe id name => exact iff_of_true rfl near
      | sample rec =>
          exact @oncpuRecord_isSome _ _ _ follows near host dataRegionLabel _
            (.sample rec)
      | sampleUnwind urec =>
          exact @oncpuRecord_isSome _ _ _ follows near host dataRegionLabel _
            (.sampleUnwind urec)
      | offcpu rec =>
          dsimp only [act, handle, Captured.act]
          rw [follows.active]
          split
          · rw [emitOffcpuSample_isSome]
            exact ⟨fun here => ⟨near.1, List.forall_mem_append.mpr ⟨near.2,
                List.forall_mem_singleton.mpr here⟩⟩,
              fun all => (List.forall_mem_append.mp all.2).2 _
                List.mem_cons_self⟩
          · exact iff_of_true rfl near

theorem run_isSome (follows : Follows config c s)
    (near : s.Near config.kernel) (actions : List Action) :
    (∃ final, Machine.run (act config) c actions = some final) ↔
      (actions.foldl Captured.act s).Near config.kernel := by
  induction actions generalizing c s with
  | nil => exact iff_of_true ⟨c, rfl⟩ near
  | cons action rest induction =>
      have first := act_isSome follows near action
      constructor
      · rintro ⟨final, ran⟩
        obtain ⟨next, acted, remaining⟩ := Machine.run_cons.mp ran
        have here := first.mp (by rw [acted]; rfl)
        exact (induction (act_follows follows acted) here).mp
          ⟨final, remaining⟩
      · intro all
        have here : (s.act action).Near config.kernel := Captured.Near.before all
        obtain ⟨next, acted⟩ := Option.isSome_iff_exists.mp (first.mpr here)
        obtain ⟨final, remaining⟩ :=
          (induction (act_follows follows acted) here).mpr all
        exact ⟨final, Machine.run_cons.mpr ⟨next, acted, remaining⟩⟩

end

/-- The stacks the packets decode to are the only ones that show the samples. -/
def DecodesExactly (kernel : KernelInfo) (packets : List Packet)
    (samples : List CapturedSample) : Prop :=
  ∃ shown, decode packets = some shown ∧
    ∀ other, List.Forall₂ (StackShown kernel) samples other ↔ other = shown

theorem Decodes.exactly {kernel : KernelInfo} {packets : List Packet}
    {samples : List CapturedSample}
    (decodes : Decodes kernel packets samples) :
    DecodesExactly kernel packets samples := by
  obtain ⟨shown, decoded, shows⟩ := decodes
  have unique : Relator.RightUnique (StackShown kernel) :=
    fun _ _ _ => StackShown.unique
  exact ⟨shown, decoded, fun other => ⟨fun also => unique.forall₂ also shows,
    fun same => same ▸ shows⟩⟩

/-- The capture handles the records, and each sequence's packets decode to the
stacks of its samples. -/
def StreamsDecode (config : CaptureConfig) (actions : List Action) : Prop :=
  ∃ capture, Machine.run (act config) {} actions = some capture ∧
    DecodesExactly config.kernel capture.oncpu
      (actions.foldl Captured.act {}).oncpu ∧
    DecodesExactly config.kernel capture.offcpu
      (actions.foldl Captured.act {}).offcpu

/-- Whatever records are handled and however sessions restart, each sequence's
packets decode to the stacks of its samples: all ids are defined where they are
used, and none has two definitions. Only a kernel address 2 GiB or more above
the kernel's base is in the way, over which the capture panics. -/
theorem streamsDecode_iff_near (config : CaptureConfig)
    (actions : List Action) :
    StreamsDecode config actions ↔
      (actions.foldl Captured.act {}).Near config.kernel := by
  have none : Captured.Near config.kernel {} := ⟨nofun, nofun⟩
  rw [← run_isSome (.empty config) none]
  constructor
  · rintro ⟨capture, ran, -⟩
    exact ⟨capture, ran⟩
  · rintro ⟨capture, ran⟩
    have follows := run_follows config (.empty config) ran
    exact ⟨capture, ran, follows.oncpu.exactly, follows.offcpu.exactly⟩

/-! ### A sample of every kind of frame -/

def farConfig : CaptureConfig where
  kernel := ⟨0xffff800080000000, []⟩
  activeSlots := []
  counterNames _ := []
  cacheMissFocus := false

def libcMapping : ProcMapping := ⟨4096, 8192, 256, 4096, [108]⟩

def appMapping : ProcMapping := ⟨12288, 16384, 0, 12288, [97]⟩

def libcId : Bytes := List.replicate 20 7

/-- The app's mapping is only found when the maps are read again. -/
def mixedHost : HostView where
  maps := ⟨[libcMapping], fun _ => none⟩
  reparsedMaps := ⟨[libcMapping, appMapping],
    fun pc => if pc = 65536 then some [106] else none⟩
  runtimeIsPython := true
  pythonBpf := true
  pythonFrames := []
  pathForBuildId _ _ := [108]
  observeMapping _ mapping := if mapping = libcMapping then libcId else []
  idFor _ _ _ := [1]
  jitName _ _ := some [110]

/-- A walked chain with an unlabelled address, a Python name, and a kernel
address on either side of the kernel's base. -/
def mixedRecord : UnwindRec where
  sample :=
    { nrKernelFrames := 2
      nrPyFrames := 2
      kernelIds := [0xffff800080000010, 5]
      pyIds := [3, 4] }
  nrUnwindFrames := 5
  unwindStack := [4100, 12300, 65536, 65537, 4200]

def mixedActions : List Action :=
  [.start, .record (.pyframe 3 [102, 0, 103]) mixedHost fun _ => [],
    .record (.sampleUnwind mixedRecord) mixedHost fun _ => []]

def mixedStack : List DecodedFrame :=
  [⟨fileMapping libcId, 360, none⟩,
    ⟨labelMapping [106], 65536, some [110]⟩,
    ⟨userMapping 12288 16384 0 12288 [97] [1], 12300, none⟩,
    ⟨fileMapping libcId, 260, none⟩, pyFrame [102],
    ⟨kernelMapping [], 0, some (bytes "[kernel]")⟩,
    ⟨kernelMapping [], kernelSynthBase + 16, none⟩]

theorem streamsDecode_mixed :
    StreamsDecode farConfig mixedActions ∧
      ∃ capture, Machine.run (act farConfig) {} mixedActions = some capture ∧
        decode capture.oncpu = some [mixedStack] := by
  have near : (mixedActions.foldl Captured.act {}).Near farConfig.kernel := by
    refine ⟨List.forall_mem_singleton.mpr fun pc inside _ above => ?_, nofun⟩
    have either : pc = 0xffff800080000010 ∨ pc = 5 := by
      simpa [SampleRec.kernelPcs, maxKernelStack, Record.carried, mixedRecord]
        using inside
    rcases either with rfl | rfl
    · decide
    · exact absurd above (by decide)
  exact ⟨(streamsDecode_iff_near farConfig mixedActions).mpr near, _, rfl,
    by decide +kernel⟩

/-- A kernel address 2 GiB above the base. -/
def farRecord : SampleRec where
  nrKernelFrames := 1
  kernelIds := [0xffff800100000000]

def farActions : List Action :=
  [.start, .record (.sample farRecord) mixedHost fun _ => []]

theorem not_streamsDecode_far : ¬ StreamsDecode farConfig farActions := by
  rintro ⟨capture, ran, -⟩
  have panics : Machine.run (act farConfig) {} farActions = none := by
    decide
  rw [panics] at ran
  cases ran

end Sismo.Samples
