import Sismo.Samples.Capture
import Sismo.Samples.InternSound

namespace Sismo.Samples

/-! The stack of a sample, as the record and the host's maps have it. -/

/-- A sample, with what the host reads while it is handled and the Python
names defined before it. -/
structure CapturedSample where
  record : Record
  host : HostView
  pyNames : Nat → Option Bytes

/-! ### User frames -/

def StackBuildId.frames (entry : StackBuildId) : List UserFrame :=
  match entry.status with
  | .valid => [.buildIdOffset entry.buildId entry.offsetOrIp]
  | .ip => [.rawIp entry.offsetOrIp]
  | .empty => []
  | .other _ => []

def SampleRec.helperChain (rec : SampleRec) : List UserFrame :=
  (rec.stack.take (min rec.nrFrames maxStack)).flatMap StackBuildId.frames

def UnwindRec.walkedPcs (urec : UnwindRec) : List Nat :=
  (urec.unwindStack.take (min urec.nrUnwindFrames maxStack)).filter (· ≠ 0)

/-- The user frames of a record, leaf first: the chain of the walker, if it
has one, or the chain of the helper. -/
inductive Record.Chain : Record → SampleRec → List UserFrame → Prop
  | offcpu (rec : SampleRec) : Record.Chain (.offcpu rec) rec rec.helperChain
  | sample (rec : SampleRec) : Record.Chain (.sample rec) rec rec.helperChain
  | walked (urec : UnwindRec) (walked : urec.walkedPcs ≠ []) :
      Record.Chain (.sampleUnwind urec) urec.sample
        (urec.walkedPcs.map .rawIp)
  | helped (urec : UnwindRec) (unwalked : urec.walkedPcs = []) :
      Record.Chain (.sampleUnwind urec) urec.sample urec.sample.helperChain

def ProcMapping.Contains (mapping : ProcMapping) (pc : Nat) : Prop :=
  mapping.start ≤ pc ∧ pc < mapping.end_

def HostMaps.Unmapped (maps : HostMaps) (pc : Nat) : Prop :=
  ∀ mapping ∈ maps.mappings, ¬ mapping.Contains pc

/-- The first of the mappings that contain the address. -/
def HostMaps.Maps (maps : HostMaps) (pc : Nat) (mapping : ProcMapping) : Prop :=
  ∃ before after, maps.mappings = before ++ mapping :: after ∧
    mapping.Contains pc ∧ ∀ other ∈ before, ¬ other.Contains pc

/-- An address up to a place of the chain is not in the maps. -/
def HostView.Stale (host : HostView) (chain : List UserFrame)
    (position : Nat) : Prop :=
  ∃ i < position, ∃ pc, chain[i]? = some (.rawIp pc) ∧ pc ≠ 0 ∧
    host.maps.Unmapped pc

/-- The maps are read again at the first such address. -/
def HostView.MapsAt (host : HostView) (chain : List UserFrame)
    (position : Nat) (maps : HostMaps) : Prop :=
  host.Stale chain (position + 1) ∧ maps = host.reparsedMaps ∨
    ¬ host.Stale chain (position + 1) ∧ maps = host.maps

/-- The file offset of an address, if the file can be told by its build id. -/
def HostView.InFile (host : HostView) (position : Nat) (mapping : ProcMapping)
    (pc : Nat) : Prop :=
  (host.observeMapping position mapping).length = buildIdSize ∧
    mapping.offset + (pc - mapping.start) < 2 ^ 64

/-- What is shown of the user frame at a place of its chain: a captured
build id and file offset as they are, and of a raw address its file offset,
its mapping or its label. -/
inductive UserFrame.Shows (host : HostView) (maps : HostMaps)
    (position : Nat) : UserFrame → List DecodedFrame → Prop
  | captured (buildId : Bytes) (fileOffset : Nat) :
      UserFrame.Shows host maps position (.buildIdOffset buildId fileOffset)
        [⟨fileMapping buildId, fileOffset, none⟩]
  | zero : UserFrame.Shows host maps position (.rawIp 0) []
  | file {pc : Nat} {mapping : ProcMapping} (nonzero : pc ≠ 0)
      (mapped : maps.Maps pc mapping)
      (inFile : host.InFile position mapping pc) :
      UserFrame.Shows host maps position (.rawIp pc)
        [⟨fileMapping (host.observeMapping position mapping),
          mapping.offset + (pc - mapping.start), none⟩]
  | mapping {pc : Nat} {mapping : ProcMapping} (nonzero : pc ≠ 0)
      (mapped : maps.Maps pc mapping)
      (outside : ¬ host.InFile position mapping pc) :
      UserFrame.Shows host maps position (.rawIp pc)
        [⟨userMapping mapping.start mapping.end_ mapping.offset
          mapping.baseAvma mapping.path (host.idFor position mapping
            (host.observeMapping position mapping)), pc, none⟩]
  | label {pc : Nat} {label : Bytes} (nonzero : pc ≠ 0)
      (unmapped : maps.Unmapped pc)
      (labelled : maps.residualLabel pc = some label) :
      UserFrame.Shows host maps position (.rawIp pc)
        [⟨labelMapping label, pc, host.jitName position pc⟩]
  | unlabelled {pc : Nat} (nonzero : pc ≠ 0) (unmapped : maps.Unmapped pc)
      (unlabelled : maps.residualLabel pc = none) :
      UserFrame.Shows host maps position (.rawIp pc) []

def UserShown (host : HostView) (chain : List UserFrame)
    (shown : List DecodedFrame) : Prop :=
  ∃ parts : List (List DecodedFrame), shown = parts.flatten ∧
    parts.length = chain.length ∧
    ∀ (position : Nat) (frame : UserFrame), chain[position]? = some frame →
      ∃ maps part, host.MapsAt chain position maps ∧
        parts[position]? = some part ∧ frame.Shows host maps position part

/-! ### Python and kernel frames -/

/-- The names spliced in: those of the kernel's walk of the Python frames that
are defined by then, or those the host read itself. -/
inductive PySpliced (host : HostView) (known : Nat → Option Bytes)
    (rec : SampleRec) : List Bytes → Prop
  | other (other : host.runtimeIsPython = false) : PySpliced host known rec []
  | kernel (python : host.runtimeIsPython = true)
      (walks : host.pythonBpf = true) :
      PySpliced host known rec
        ((rec.pyIds.take (min rec.nrPyFrames maxPyFrames)).filterMap known)
  | host (python : host.runtimeIsPython = true)
      (walks : host.pythonBpf = false) :
      PySpliced host known rec host.pythonFrames

def pyFrame (name : Bytes) : DecodedFrame :=
  ⟨labelMapping (bytes "[python]"), 0, some name⟩

def SampleRec.kernelPcs (rec : SampleRec) : List Nat :=
  (rec.kernelIds.take (min rec.nrKernelFrames maxKernelStack)).filter (· ≠ 0)

/-- A kernel address is moved to a fixed base, or kept apart from the kernel's
symbols when the base is not known. -/
def kernelShown (kernel : KernelInfo) (pc : Nat) : DecodedFrame :=
  if kernel.kbase ≠ 0 ∧ kernel.kbase ≤ pc then
    ⟨kernelMapping kernel.kbuildId, pc - kernel.kbase + kernelSynthBase, none⟩
  else ⟨kernelMapping kernel.kbuildId, 0, some (bytes "[kernel]")⟩

/-- The user frames, the Python names and the kernel frames of a sample, each
root first. -/
def StackShown (kernel : KernelInfo) (sample : CapturedSample)
    (stack : List DecodedFrame) : Prop :=
  ∃ rec chain user names, sample.record.Chain rec chain ∧
    UserShown sample.host chain user ∧
    PySpliced sample.host sample.pyNames rec names ∧
    stack = user.reverse ++ (names.map pyFrame).reverse ++
      (rec.kernelPcs.map (kernelShown kernel)).reverse

/-! ### No two stacks are shown -/

theorem HostMaps.Maps.unique {maps : HostMaps} {pc : Nat}
    {mapping other : ProcMapping} (first : maps.Maps pc mapping)
    (second : maps.Maps pc other) : mapping = other := by
  obtain ⟨before, after, same, inside, missed⟩ := first
  obtain ⟨before', after', same', inside', missed'⟩ := second
  rw [same] at same'
  obtain ⟨front, rfl, rest⟩ | ⟨front, rfl, rest⟩ :=
    List.append_eq_append_iff.mp same'
  · cases front with
    | nil => exact (List.cons.inj rest).1
    | cons head tail =>
        obtain ⟨rfl, -⟩ := List.cons.inj rest
        exact absurd inside (missed' _ (by simp))
  · cases front with
    | nil => exact (List.cons.inj rest).1.symm
    | cons head tail =>
        obtain ⟨rfl, -⟩ := List.cons.inj rest
        exact absurd inside' (missed _ (by simp))

theorem HostMaps.Maps.not_unmapped {maps : HostMaps} {pc : Nat}
    {mapping : ProcMapping} (mapped : maps.Maps pc mapping) :
    ¬ maps.Unmapped pc := by
  obtain ⟨before, after, same, inside, -⟩ := mapped
  exact fun unmapped => unmapped mapping (by simp [same]) inside

theorem UserFrame.Shows.unique {host : HostView} {maps : HostMaps}
    {position : Nat} {frame : UserFrame} {part other : List DecodedFrame}
    (first : frame.Shows host maps position part)
    (second : frame.Shows host maps position other) : part = other := by
  cases first with
  | captured buildId fileOffset =>
      cases second
      rfl
  | zero =>
      cases second with
      | zero => rfl
      | file nonzero | mapping nonzero | label nonzero | unlabelled nonzero =>
          exact absurd rfl nonzero
  | file nonzero mapped inFile =>
      cases second with
      | zero => exact absurd rfl nonzero
      | file _ mapped' _ => rw [mapped.unique mapped']
      | mapping _ mapped' outside =>
          exact absurd (mapped.unique mapped' ▸ inFile) outside
      | label _ unmapped | unlabelled _ unmapped =>
          exact absurd unmapped mapped.not_unmapped
  | mapping nonzero mapped outside =>
      cases second with
      | zero => exact absurd rfl nonzero
      | file _ mapped' inFile =>
          exact absurd (mapped.unique mapped' ▸ inFile) outside
      | mapping _ mapped' _ => rw [mapped.unique mapped']
      | label _ unmapped | unlabelled _ unmapped =>
          exact absurd unmapped mapped.not_unmapped
  | label nonzero unmapped labelled =>
      cases second with
      | zero => exact absurd rfl nonzero
      | file _ mapped | mapping _ mapped =>
          exact absurd unmapped mapped.not_unmapped
      | label _ _ labelled' =>
          cases labelled.symm.trans labelled'
          rfl
      | unlabelled _ _ none => cases labelled.symm.trans none
  | unlabelled nonzero unmapped none =>
      cases second with
      | zero => rfl
      | file _ mapped | mapping _ mapped =>
          exact absurd unmapped mapped.not_unmapped
      | label _ _ labelled => cases none.symm.trans labelled
      | unlabelled _ _ _ => rfl

theorem UserShown.unique {host : HostView} {chain : List UserFrame}
    {shown other : List DecodedFrame} (first : UserShown host chain shown)
    (second : UserShown host chain other) : shown = other := by
  obtain ⟨parts, rfl, size, each⟩ := first
  obtain ⟨parts', rfl, size', each'⟩ := second
  refine congrArg List.flatten (List.ext_getElem? fun position => ?_)
  cases here : chain[position]? with
  | none =>
      have past := List.getElem?_eq_none_iff.mp here
      rw [List.getElem?_eq_none (size ▸ past),
        List.getElem?_eq_none (size' ▸ past)]
  | some frame =>
      obtain ⟨maps, part, mapsAt, found, shows⟩ := each position frame here
      obtain ⟨maps', part', mapsAt', found', shows'⟩ := each' position frame here
      have same : maps = maps' := by
        obtain ⟨stale, rfl⟩ | ⟨fresh, rfl⟩ := mapsAt
        · obtain ⟨-, rfl⟩ | ⟨fresh, -⟩ := mapsAt'
          · rfl
          · exact absurd stale fresh
        · obtain ⟨stale, -⟩ | ⟨-, rfl⟩ := mapsAt'
          · exact absurd stale fresh
          · rfl
      subst same
      rw [found, found', shows.unique shows']

/-- A sample is shown by one stack only. -/
theorem StackShown.unique {kernel : KernelInfo} {sample : CapturedSample}
    {stack other : List DecodedFrame} (first : StackShown kernel sample stack)
    (second : StackShown kernel sample other) : stack = other := by
  obtain ⟨record, host, known⟩ := sample
  obtain ⟨rec, chain, user, names, carried, shown, spliced, rfl⟩ := first
  obtain ⟨rec', chain', user', names', carried', shown', spliced', rfl⟩ := second
  obtain ⟨rfl, rfl⟩ : rec = rec' ∧ chain = chain' := by
    cases carried with
    | offcpu => cases carried'; exact ⟨rfl, rfl⟩
    | sample => cases carried'; exact ⟨rfl, rfl⟩
    | walked urec walked =>
        cases carried' with
        | walked => exact ⟨rfl, rfl⟩
        | helped _ unwalked => exact absurd unwalked walked
    | helped urec unwalked =>
        cases carried' with
        | walked _ walked => exact absurd unwalked walked
        | helped => exact ⟨rfl, rfl⟩
  have sameNames : names = names' := by
    cases spliced with
    | other other =>
        cases spliced' with
        | other => rfl
        | kernel python | host python => cases other.symm.trans python
    | kernel python walks =>
        cases spliced' with
        | other other => cases other.symm.trans python
        | kernel => rfl
        | host _ stopped => cases walks.symm.trans stopped
    | host python stopped =>
        cases spliced' with
        | other other => cases other.symm.trans python
        | kernel _ walks => cases walks.symm.trans stopped
        | host => rfl
  rw [shown.unique shown', sameNames]

/-! ### The pass shows them -/

def ResolvedFrame.decoded : ResolvedFrame → DecodedFrame
  | .buildId raw _ fileOffset => ⟨fileMapping raw, fileOffset, none⟩
  | .virtual mapping raw pc =>
      ⟨userMapping mapping.start mapping.end_ mapping.offset
        mapping.baseAvma mapping.path raw, pc, none⟩
  | .residual label name pc => ⟨labelMapping label, pc, name⟩

theorem HostMaps.find_eq_none {maps : HostMaps} {pc : Nat} :
    maps.find pc = none ↔ maps.Unmapped pc := by
  simp [find, Unmapped, ProcMapping.Contains]

theorem HostMaps.maps_of_find {maps : HostMaps} {pc : Nat}
    {mapping : ProcMapping} (found : maps.find pc = some mapping) :
    maps.Maps pc mapping := by
  obtain ⟨inside, before, after, same, others⟩ :=
    List.find?_eq_some_iff_append.mp found
  simp only [decide_eq_true_eq] at inside
  refine ⟨before, after, same, inside, fun other member contains => ?_⟩
  have missed := others other member
  simp only [Bool.not_eq_true', decide_eq_false_iff_not] at missed
  exact missed contains

theorem resolveMapped_shows {host : HostView} {maps : HostMaps}
    {position pc : Nat} {mapping : ProcMapping} (nonzero : pc ≠ 0)
    (mapped : maps.Maps pc mapping) :
    UserFrame.Shows host maps position (.rawIp pc)
      [(resolveMapped host position mapping pc).decoded] := by
  have above : mapping.start ≤ pc := by
    obtain ⟨-, -, -, ⟨above, -⟩, -⟩ := mapped
    exact above
  unfold resolveMapped
  dsimp only
  split
  · next inFile => exact .file nonzero mapped ⟨inFile.1, inFile.2.2⟩
  · next outside =>
      exact .mapping nonzero mapped fun inFile =>
        outside ⟨inFile.1, above, inFile.2⟩

section

variable {host : HostView} {chain : List UserFrame} {position : Nat}

theorem stale_succ :
    host.Stale chain (position + 1) ↔ host.Stale chain position ∨
      ∃ pc, chain[position]? = some (.rawIp pc) ∧ pc ≠ 0 ∧
        host.maps.Unmapped pc := by
  constructor
  · rintro ⟨i, below, fresh⟩
    rcases Nat.lt_succ_iff_lt_or_eq.mp below with earlier | rfl
    · exact .inl ⟨i, earlier, fresh⟩
    · exact .inr fresh
  · rintro (⟨i, below, fresh⟩ | fresh)
    · exact ⟨i, Nat.lt_succ_of_lt below, fresh⟩
    · exact ⟨position, Nat.lt_succ_self _, fresh⟩

theorem resolveUserFrame_shows {frame : UserFrame} {reparsed : Bool}
    (here : chain[position]? = some frame)
    (stale : reparsed = true ↔ host.Stale chain position) :
    let resolved := resolveUserFrame host reparsed position frame
    (resolved.2 = true ↔ host.Stale chain (position + 1)) ∧
      ∃ maps, host.MapsAt chain position maps ∧
        frame.Shows host maps position
          (resolved.1.toList.map ResolvedFrame.decoded) := by
  have mapsAt : ∀ later : Bool,
      (later = true ↔ host.Stale chain (position + 1)) →
      host.MapsAt chain position
        (if later then host.reparsedMaps else host.maps) := by
    intro later same
    cases later with
    | true => exact .inl ⟨same.mp rfl, rfl⟩
    | false => exact .inr ⟨fun fresh => absurd (same.mpr fresh) nofun, rfl⟩
  have skip : (∀ pc, frame = .rawIp pc → pc = 0) →
      (reparsed = true ↔ host.Stale chain (position + 1)) := by
    intro zero
    rw [stale_succ, stale]
    refine ⟨.inl, fun either => either.elim id ?_⟩
    rintro ⟨pc, found, nonzero, -⟩
    rw [here] at found
    exact absurd (zero pc (Option.some.inj found)) nonzero
  cases frame with
  | buildIdOffset buildId fileOffset =>
      have same := skip fun pc raw => nomatch raw
      exact ⟨same, _, mapsAt _ same, .captured buildId fileOffset⟩
  | rawIp pc =>
      by_cases zero : pc = 0
      · subst zero
        have same := skip fun pc raw => (UserFrame.rawIp.inj raw).symm
        simp only [resolveUserFrame, if_pos]
        exact ⟨same, _, mapsAt _ same, .zero⟩
      · have same : (reparsed || (host.maps.find pc).isNone) = true ↔
            host.Stale chain (position + 1) := by
          rw [stale_succ, Bool.or_eq_true, stale, Option.isNone_iff_eq_none,
            HostMaps.find_eq_none, here]
          refine or_congr_right ⟨fun unmapped => ⟨pc, rfl, zero, unmapped⟩, ?_⟩
          rintro ⟨other, same, -, unmapped⟩
          cases same
          exact unmapped
        simp only [resolveUserFrame, if_neg zero]
        generalize (reparsed || (host.maps.find pc).isNone) = later at same ⊢
        have maps := mapsAt later same
        cases found : (if later then host.reparsedMaps
            else host.maps).find pc with
        | some mapping =>
            exact ⟨same, _, maps,
              resolveMapped_shows zero (HostMaps.maps_of_find found)⟩
        | none =>
            refine ⟨same, _, maps, ?_⟩
            have unmapped := HostMaps.find_eq_none.mp found
            cases label : (if later then host.reparsedMaps
                else host.maps).residualLabel pc with
            | none => exact .unlabelled zero unmapped label
            | some name => exact .label zero unmapped label

theorem resolveUserFrames_parts (front rest : List UserFrame)
    (reparsed : Bool)
    (stale : reparsed = true ↔ host.Stale (front ++ rest) front.length) :
    ∃ parts : List (List DecodedFrame),
      (resolveUserFrames host reparsed front.length rest).map
        ResolvedFrame.decoded = parts.flatten ∧
      parts.length = rest.length ∧
      ∀ (i : Nat) (frame : UserFrame), rest[i]? = some frame →
        ∃ maps part, host.MapsAt (front ++ rest) (front.length + i) maps ∧
          parts[i]? = some part ∧
          frame.Shows host maps (front.length + i) part := by
  induction rest generalizing front reparsed with
  | nil => exact ⟨[], rfl, rfl, fun i frame found => by simp at found⟩
  | cons frame rest induction =>
      have here : (front ++ frame :: rest)[front.length]? = some frame := by
        simp
      obtain ⟨later, maps, mapsAt, shows⟩ := resolveUserFrame_shows here stale
      have moved : front ++ frame :: rest = front ++ [frame] ++ rest := by simp
      have length : (front ++ [frame]).length = front.length + 1 := by simp
      rw [moved, ← length] at later
      obtain ⟨parts, flat, size, each⟩ := induction _ _ later
      refine ⟨((resolveUserFrame host reparsed front.length
        frame).1.toList.map ResolvedFrame.decoded) :: parts, ?_,
        congrArg (· + 1) size, ?_⟩
      · rw [List.flatten_cons, ← flat, length, resolveUserFrames,
          List.map_append]
      · intro i other found
        cases i with
        | zero =>
            cases found
            exact ⟨maps, _, mapsAt, rfl, shows⟩
        | succ i =>
            obtain ⟨maps, part, mapsAt, inside, shows⟩ := each i other found
            rw [← moved, length, Nat.add_assoc, Nat.add_comm 1] at mapsAt
            rw [length, Nat.add_assoc, Nat.add_comm 1] at shows
            exact ⟨maps, part, mapsAt, inside, shows⟩

theorem resolveUserFrames_shown (host : HostView) (chain : List UserFrame) :
    UserShown host chain ((resolveUserFrames host false 0 chain).map
      ResolvedFrame.decoded) := by
  have fresh : (false = true ↔
      host.Stale ([] ++ chain) ([] : List UserFrame).length) :=
    ⟨nofun, fun ⟨i, below, _⟩ => absurd below (Nat.not_lt_zero i)⟩
  obtain ⟨parts, flat, size, each⟩ := resolveUserFrames_parts [] chain false fresh
  simp only [List.length_nil, Nat.zero_add, List.nil_append] at flat each
  exact ⟨parts, flat, size, each⟩

end

theorem decodeUserFrames_eq (rec : SampleRec) :
    decodeUserFrames rec.stack rec.nrFrames = rec.helperChain := by
  rw [decodeUserFrames, SampleRec.helperChain, List.filterMap_eq_flatMap_toList]
  congr 1
  funext entry
  unfold StackBuildId.frames
  cases entry.status with
  | _ => rfl

theorem unwindFrames_chain (urec : UnwindRec) :
    Record.Chain (.sampleUnwind urec) urec.sample (unwindFrames urec) := by
  unfold unwindFrames
  dsimp only
  split
  · next none =>
      rw [decodeUserFrames_eq]
      exact .helped urec none
  · next some => exact .walked urec some

theorem pyFrames_spliced {host : HostView} {pyNames : HashMap Nat Bytes}
    (rec : SampleRec) :
    PySpliced host pyNames.lookup rec (pyFrames host pyNames rec) := by
  unfold pyFrames
  split
  · next python =>
      split
      · next walks => exact .kernel python walks
      · next walks => exact .host python (by simpa using walks)
  · next other => exact .other (by simpa using other)

def KernelFrame.decoded (kernel : KernelInfo) : KernelFrame → DecodedFrame
  | .rebased relPc => ⟨kernelMapping kernel.kbuildId, relPc, none⟩
  | .bare => ⟨kernelMapping kernel.kbuildId, 0, some (bytes "[kernel]")⟩

/-- No sum over a kernel address of the sample panics. -/
def KernelNear (kernel : KernelInfo) (rec : SampleRec) : Prop :=
  ∀ pc ∈ rec.kernelPcs, kernel.kbase ≠ 0 → kernel.kbase ≤ pc →
    pc - kernel.kbase < 2 ^ 31

theorem kernelFrame_shown {kernel : KernelInfo} {pc : Nat}
    {frame : KernelFrame} (found : kernelFrame kernel.kbase pc = some frame) :
    frame.decoded kernel = kernelShown kernel pc := by
  unfold kernelFrame at found
  unfold kernelShown
  split at found
  · next above =>
      rw [if_pos above]
      split at found
      · cases found
      · cases found
        rfl
  · next below =>
      rw [if_neg below]
      cases found
      rfl

theorem kernelFrame_isSome {kernel : KernelInfo} {pc : Nat} :
    (kernelFrame kernel.kbase pc).isSome ↔
      (kernel.kbase ≠ 0 → kernel.kbase ≤ pc →
        pc - kernel.kbase < 2 ^ 31) := by
  have synth : kernelSynthBase = 2 ^ 64 - 2 ^ 31 := rfl
  unfold kernelFrame
  split
  · next above =>
      split
      · next wide =>
          exact iff_of_false (by simp) fun near => by
            have := near above.1 above.2
            omega
      · exact iff_of_true rfl fun _ _ => by omega
  · next below =>
      exact iff_of_true rfl fun known le => absurd ⟨known, le⟩ below

theorem kernelFrames_shown {kernel : KernelInfo} {rec : SampleRec}
    {frames : List KernelFrame} (found : kernelFrames kernel rec = some frames) :
    frames.map (KernelFrame.decoded kernel) =
      rec.kernelPcs.map (kernelShown kernel) := by
  unfold kernelFrames at found
  change rec.kernelPcs.mapM _ = _ at found
  generalize rec.kernelPcs = pcs at found ⊢
  induction pcs generalizing frames with
  | nil =>
      cases found
      rfl
  | cons pc rest induction =>
      rw [List.mapM_cons] at found
      obtain ⟨frame, first, found⟩ := Option.bind_eq_some_iff.mp found
      obtain ⟨later, remaining, same⟩ := Option.bind_eq_some_iff.mp found
      cases same
      rw [List.map_cons, List.map_cons, kernelFrame_shown first,
        induction remaining]

theorem kernelFrames_isSome {kernel : KernelInfo} {rec : SampleRec} :
    (kernelFrames kernel rec).isSome ↔ KernelNear kernel rec := by
  unfold kernelFrames KernelNear
  change (rec.kernelPcs.mapM (kernelFrame kernel.kbase)).isSome ↔ _
  generalize rec.kernelPcs = pcs
  induction pcs with
  | nil => simp
  | cons pc rest induction =>
      rw [List.forall_mem_cons, ← induction, ← kernelFrame_isSome,
        List.mapM_cons]
      cases kernelFrame kernel.kbase pc with
      | none => simp
      | some frame =>
          cases rest.mapM (kernelFrame kernel.kbase) with
          | none => simp
          | some frames => simp

end Sismo.Samples
