import Mathlib.Data.List.Induction
import Sismo.Kdebug.SchedConsumer

namespace Sismo.Kdebug

/-! The switches a stream of records holds, said without a pending half, and
that the consumer emits exactly these however the stream is cut. -/

def IsSwitch (e : KdEvent) : Prop :=
  e.csc = schedCsc ∧ e.cpuid.toNat < maxCpus ∧
    (e.code = 0x00 ∨ e.code = 0x02) ∧ e.arg5 ≠ e.arg2

def IsDispatch (e : KdEvent) : Prop :=
  e.csc = schedCsc ∧ e.cpuid.toNat < maxCpus ∧ e.code = 0x20

instance : DecidablePred IsSwitch := fun _ => inferInstanceAs (Decidable (_ ∧ _))

instance : DecidablePred IsDispatch :=
  fun _ => inferInstanceAs (Decidable (_ ∧ _))

/-- Between the two positions nothing begins or ends a switch on the CPU. -/
def Quiet (records : List KdEvent) (first last : Nat) (cpu : UInt32) : Prop :=
  ∀ k e, first < k → k < last → records[k]? = some e → e.cpuid = cpu →
    ¬IsSwitch e ∧ ¬IsDispatch e

def PairedAt (records : List KdEvent) (first second : Nat) : Prop :=
  ∃ s d, records[first]? = some s ∧ records[second]? = some d ∧
    first < second ∧ IsSwitch s ∧ IsDispatch d ∧ s.cpuid = d.cpuid ∧
    s.arg5 = d.arg1 ∧ Quiet records first second d.cpuid

variable (tb : Timebase)

/-- The switch of a pair: the first record's time, threads and priorities, the
dispatch's state. -/
def KdEvent.switchWith (s d : KdEvent) : Switch where
  tsNs := s.timestamp * tb.n / tb.d
  cpu := d.cpuid
  outgoingTid := s.arg5
  outgoingState := outgoingTaskState d.arg3.toUInt32
  outgoingPri := s.arg3.toUInt32
  incomingTid := s.arg2
  incomingPri := s.arg4.toUInt32

/-- One switch for each pair of the stream, in stream order. -/
def EmittedFor (records : List KdEvent) (switches : List Switch) : Prop :=
  ∃ pairs : List (Nat × Nat),
    pairs.Pairwise (fun pair later => pair.2 < later.2) ∧
    (∀ first second, (first, second) ∈ pairs ↔
      PairedAt records first second) ∧
    List.Forall₂ (fun pair switch => ∃ s d,
      records[pair.1]? = some s ∧ records[pair.2]? = some d ∧
        switch = s.switchWith tb d) pairs switches

/-! ### One record -/

/-- What a beginning switch leaves pending. -/
def KdEvent.pendingSwitch (s : KdEvent) : PendingSwitch where
  valid := true
  timestamp := s.timestamp
  outgoingTid := s.arg5
  outgoingPri := s.arg3.toUInt32
  incomingTid := s.arg2
  incomingPri := s.arg4.toUInt32

variable {tb} {pending : Pending} {e : KdEvent}

theorem onEvent_other (switch : ¬IsSwitch e) (dispatch : ¬IsDispatch e) :
    onEvent tb pending e = (pending, none) := by
  unfold IsSwitch at switch
  unfold IsDispatch at dispatch
  unfold onEvent
  grind

theorem onEvent_switch (switch : IsSwitch e) :
    onEvent tb pending e =
      (Function.update pending e.cpuid e.pendingSwitch, none) := by
  obtain ⟨sched, below, code, distinct⟩ := switch
  simp [onEvent, sched, not_le.mpr below, code, distinct,
    KdEvent.pendingSwitch]

theorem onEvent_dispatch (dispatch : IsDispatch e) :
    onEvent tb pending e =
      if (pending e.cpuid).valid = false then (pending, none)
      else (Function.update pending e.cpuid
          { pending e.cpuid with valid := false },
        if (pending e.cpuid).outgoingTid = e.arg1 then
          some ((pending e.cpuid).switch tb e) else none) := by
  obtain ⟨sched, below, code⟩ := dispatch
  simp only [onEvent, sched, not_le.mpr below, code]
  grind

/-! ### The record that is still waiting for its dispatch -/

def OpenAt (records : List KdEvent) (first : Nat) (s : KdEvent) : Prop :=
  records[first]? = some s ∧ IsSwitch s ∧
    Quiet records first records.length s.cpuid

variable {records : List KdEvent}

theorem lt_length_of_getElem? {position : Nat}
    (found : records[position]? = some e) : position < records.length :=
  (List.getElem?_eq_some_iff.mp found).1

theorem OpenAt.unique {first other : Nat} {s s' : KdEvent}
    (opened : OpenAt records first s) (opened' : OpenAt records other s')
    (cpu : s.cpuid = s'.cpuid) : first = other := by
  rcases lt_trichotomy first other with before | same | after
  · exact absurd opened'.2.1 (opened.2.2 other s' before
      (lt_length_of_getElem? opened'.1) opened'.1 cpu.symm).1
  · exact same
  · exact absurd opened.2.1 (opened'.2.2 first s after
      (lt_length_of_getElem? opened.1) opened.1 cpu).1

theorem quiet_append {first : Nat} {cpu : UInt32} :
    Quiet (records ++ [e]) first (records ++ [e]).length cpu ↔
      Quiet records first records.length cpu ∧
        (first < records.length → e.cpuid = cpu →
          ¬IsSwitch e ∧ ¬IsDispatch e) := by
  constructor
  · intro quiet
    constructor
    · intro k other after before found
      apply quiet k other after
      · simp only [List.length_append, List.length_singleton]
        omega
      · rw [List.getElem?_append_left before, found]
    · intro before
      apply quiet records.length e before
      · simp
      · simp
  · rintro ⟨quiet, last⟩ k other after before found
    rcases Nat.lt_or_ge k records.length with inside | beyond
    · rw [List.getElem?_append_left inside] at found
      exact quiet k other after inside found
    · have : k = records.length := by
        simp only [List.length_append, List.length_singleton] at before
        omega
      subst this
      simp only [List.getElem?_concat_length, Option.some.injEq] at found
      subst found
      exact last after

theorem openAt_append {first : Nat} {s : KdEvent} :
    OpenAt (records ++ [e]) first s ↔
      (OpenAt records first s ∧
        (e.cpuid = s.cpuid → ¬IsSwitch e ∧ ¬IsDispatch e)) ∨
      (first = records.length ∧ s = e ∧ IsSwitch e) := by
  unfold OpenAt
  rw [quiet_append]
  rcases Nat.lt_trichotomy first records.length with inside | last | beyond
  · rw [List.getElem?_append_left inside]
    simp only [inside, forall_true_left, inside.ne, false_and, or_false]
    tauto
  · subst last
    simp only [List.getElem?_concat_length, Option.some.injEq, lt_irrefl,
      false_implies, and_true, true_and]
    have none : records[records.length]? = none := by simp
    simp only [none]
    constructor
    · rintro ⟨rfl, switch, _⟩
      exact Or.inr ⟨rfl, switch⟩
    · rintro (⟨⟨impossible, _⟩, _⟩ | ⟨rfl, switch⟩)
      · cases impossible
      · refine ⟨rfl, switch, ?_⟩
        intro k other after before
        omega
  · have appended : (records ++ [e])[first]? = none := by
      simp only [List.getElem?_eq_none_iff, List.length_append,
        List.length_singleton]
      omega
    have none : records[first]? = none := by
      simp only [List.getElem?_eq_none_iff]
      omega
    simp [appended, none, beyond.ne']

theorem pairedAt_append {first second : Nat} :
    PairedAt (records ++ [e]) first second ↔
      PairedAt records first second ∨
      (second = records.length ∧ IsDispatch e ∧
        ∃ s, OpenAt records first s ∧ s.cpuid = e.cpuid ∧
          s.arg5 = e.arg1) := by
  constructor
  · rintro ⟨s, d, foundS, foundD, before, switch, dispatch, cpu, names, quiet⟩
    have bound := lt_length_of_getElem? foundD
    simp only [List.length_append, List.length_singleton] at bound
    have inside : first < records.length := by omega
    rw [List.getElem?_append_left inside] at foundS
    rcases Nat.lt_or_ge second records.length with secondInside | beyond
    · rw [List.getElem?_append_left secondInside] at foundD
      refine Or.inl ⟨s, d, foundS, foundD, before, switch, dispatch, cpu,
        names, fun k other after earlier found => ?_⟩
      apply quiet k other after earlier
      rw [List.getElem?_append_left (by omega), found]
    · have : second = records.length := by omega
      subst this
      simp only [List.getElem?_concat_length, Option.some.injEq] at foundD
      subst foundD
      refine Or.inr ⟨rfl, dispatch, s, ⟨foundS, switch, ?_⟩, cpu, names⟩
      intro k other after earlier found same
      apply quiet k other after earlier _ (same.trans cpu)
      rw [List.getElem?_append_left earlier, found]
  · rintro (⟨s, d, foundS, foundD, before, switch, dispatch, cpu, names,
      quiet⟩ | ⟨rfl, dispatch, s, ⟨found, switch, quiet⟩, cpu, names⟩)
    · have inside := lt_length_of_getElem? foundD
      refine ⟨s, d, ?_, ?_, before, switch, dispatch, cpu, names,
        fun k other after earlier found => ?_⟩
      · rw [List.getElem?_append_left (by omega), foundS]
      · rw [List.getElem?_append_left inside, foundD]
      · rw [List.getElem?_append_left (by omega)] at found
        exact quiet k other after earlier found
    · have inside := lt_length_of_getElem? found
      refine ⟨s, e, ?_, by simp, inside, switch, dispatch, cpu, names,
        fun k other after earlier found => ?_⟩
      · rw [List.getElem?_append_left inside, found]
      · rw [List.getElem?_append_left earlier] at found
        intro same
        exact quiet k other after earlier found (same.trans cpu.symm)

/-! ### The pending halves -/

def Tracks (records : List KdEvent) (pending : Pending) : Prop :=
  ∀ cpu,
    (∃ first s, OpenAt records first s ∧ s.cpuid = cpu ∧
      pending cpu = s.pendingSwitch) ∨
    ((pending cpu).valid = false ∧
      ∀ first s, OpenAt records first s → s.cpuid ≠ cpu)

theorem tracks_other {next : Pending} (tracks : Tracks records pending)
    {cpu : UInt32} (unrelated : e.cpuid = cpu → ¬IsSwitch e ∧ ¬IsDispatch e)
    (same : next cpu = pending cpu) :
    (∃ first s, OpenAt (records ++ [e]) first s ∧ s.cpuid = cpu ∧
      next cpu = s.pendingSwitch) ∨
    ((next cpu).valid = false ∧
      ∀ first s, OpenAt (records ++ [e]) first s → s.cpuid ≠ cpu) := by
  rcases tracks cpu with ⟨first, s, opened, here, half⟩ | ⟨empty, none⟩
  · subst here
    exact Or.inl ⟨first, s, openAt_append.mpr (Or.inl ⟨opened, unrelated⟩),
      rfl, same.trans half⟩
  · refine Or.inr ⟨by rw [same, empty], fun first s opened here => ?_⟩
    rcases openAt_append.mp opened with ⟨earlier, _⟩ | ⟨_, rfl, switch⟩
    · exact none first s earlier here
    · exact (unrelated here).1 switch

theorem tracks_onEvent (tracks : Tracks records pending) :
    Tracks (records ++ [e]) (onEvent tb pending e).1 := by
  by_cases switch : IsSwitch e
  · rw [onEvent_switch switch]
    intro cpu
    by_cases here : e.cpuid = cpu
    · subst here
      refine Or.inl ⟨records.length, e, ?_, rfl, ?_⟩
      · exact openAt_append.mpr (Or.inr ⟨rfl, rfl, switch⟩)
      · simp
    · apply tracks_other tracks (fun same => absurd same here)
      exact Function.update_of_ne (Ne.symm here) _ _
  · by_cases dispatch : IsDispatch e
    · intro cpu
      by_cases here : e.cpuid = cpu
      · subst here
        refine Or.inr ⟨?_, fun first s opened same => ?_⟩
        · rw [onEvent_dispatch dispatch]
          split
          · next empty => exact empty
          · simp
        · rcases openAt_append.mp opened with
            ⟨_, unrelated⟩ | ⟨_, rfl, begins⟩
          · exact (unrelated same.symm).2 dispatch
          · exact switch begins
      · apply tracks_other tracks (fun same => absurd same here)
        rw [onEvent_dispatch dispatch]
        split
        · rfl
        · exact Function.update_of_ne (Ne.symm here) _ _
    · rw [onEvent_other switch dispatch]
      intro cpu
      exact tracks_other tracks (fun _ => ⟨switch, dispatch⟩) rfl

variable (tb) in
/-- A dispatch emits the switch that is open on its CPU, if it names it. -/
theorem onEvent_emits (tracks : Tracks records pending)
    (dispatch : IsDispatch e) :
    (∃ first s, OpenAt records first s ∧ s.cpuid = e.cpuid ∧
      s.arg5 = e.arg1 ∧
      (onEvent tb pending e).2 = some (s.switchWith tb e)) ∨
    ((onEvent tb pending e).2 = none ∧
      ∀ first s, OpenAt records first s → s.cpuid = e.cpuid →
        s.arg5 ≠ e.arg1) := by
  rw [onEvent_dispatch dispatch]
  rcases tracks e.cpuid with ⟨first, s, opened, here, half⟩ | ⟨empty, none⟩
  · by_cases named : s.arg5 = e.arg1
    · refine Or.inl ⟨first, s, opened, here, named, ?_⟩
      simp [half, KdEvent.pendingSwitch, named, PendingSwitch.switch,
        KdEvent.switchWith]
    · refine Or.inr ⟨by simp [half, KdEvent.pendingSwitch, named],
        fun other s' opened' here' => ?_⟩
      have same := opened.unique opened' (here.trans here'.symm)
      subst same
      have := opened.1.symm.trans opened'.1
      cases this
      exact named
  · exact Or.inr ⟨by simp [empty],
      fun first s opened here => absurd here (none first s opened)⟩

theorem PairedAt.second_lt {first second : Nat}
    (paired : PairedAt records first second) : second < records.length := by
  obtain ⟨_, _, _, found, _⟩ := paired
  exact lt_length_of_getElem? found

/-- The switches of the earlier records stay those of the longer stream. -/
theorem EmittedFor.append_of_none {switches : List Switch}
    (emitted : EmittedFor tb records switches)
    (none : ∀ first s, IsDispatch e → OpenAt records first s →
      s.cpuid = e.cpuid → s.arg5 ≠ e.arg1) :
    EmittedFor tb (records ++ [e]) switches := by
  obtain ⟨pairs, ordered, exact, values⟩ := emitted
  refine ⟨pairs, ordered, fun first second => ?_, ?_⟩
  · rw [exact, pairedAt_append]
    constructor
    · exact Or.inl
    · rintro (paired | ⟨_, dispatch, s, opened, cpu, named⟩)
      · exact paired
      · exact absurd named (none first s dispatch opened cpu)
  · refine values.imp ?_
    rintro pair switch ⟨s, d, foundS, foundD, rfl⟩
    exact ⟨s, d, by rw [List.getElem?_append_left
        (lt_length_of_getElem? foundS), foundS],
      by rw [List.getElem?_append_left (lt_length_of_getElem? foundD),
        foundD], rfl⟩

theorem EmittedFor.append_of_open {switches : List Switch}
    (emitted : EmittedFor tb records switches) {first : Nat} {s : KdEvent}
    (dispatch : IsDispatch e) (opened : OpenAt records first s)
    (cpu : s.cpuid = e.cpuid) (named : s.arg5 = e.arg1) :
    EmittedFor tb (records ++ [e]) (switches ++ [s.switchWith tb e]) := by
  obtain ⟨pairs, ordered, exact, values⟩ := emitted
  refine ⟨pairs ++ [(first, records.length)], ?_, fun i j => ?_, ?_⟩
  · rw [List.pairwise_append]
    refine ⟨ordered, List.pairwise_singleton _ _, ?_⟩
    rintro ⟨i, j⟩ member later last
    rw [List.mem_singleton.mp last]
    exact ((exact i j).mp member).second_lt
  · rw [List.mem_append, exact, pairedAt_append, List.mem_singleton,
      Prod.mk.injEq]
    constructor
    · rintro (paired | ⟨rfl, rfl⟩)
      · exact Or.inl paired
      · exact Or.inr ⟨rfl, dispatch, s, opened, cpu, named⟩
    · rintro (paired | ⟨rfl, _, s', opened', cpu', _⟩)
      · exact Or.inl paired
      · exact Or.inr ⟨opened'.unique opened (cpu'.trans cpu.symm), rfl⟩
  · apply List.rel_append
    · refine values.imp ?_
      rintro pair switch ⟨s, d, foundS, foundD, rfl⟩
      exact ⟨s, d, by rw [List.getElem?_append_left
          (lt_length_of_getElem? foundS), foundS],
        by rw [List.getElem?_append_left (lt_length_of_getElem? foundD),
          foundD], rfl⟩
    · refine List.Forall₂.cons ⟨s, e, ?_, by simp, rfl⟩ List.Forall₂.nil
      rw [List.getElem?_append_left (lt_length_of_getElem? opened.1)]
      exact opened.1

theorem emitted_onEvent {switches : List Switch}
    (tracks : Tracks records pending)
    (emitted : EmittedFor tb records switches) :
    EmittedFor tb (records ++ [e])
      (switches ++ (onEvent tb pending e).2.toList) := by
  by_cases dispatch : IsDispatch e
  · rcases onEvent_emits tb tracks dispatch with
      ⟨first, s, opened, cpu, named, emits⟩ | ⟨silent, unnamed⟩
    · rw [emits]
      exact emitted.append_of_open dispatch opened cpu named
    · rw [silent, Option.toList_none, List.append_nil]
      exact emitted.append_of_none fun first s _ => unnamed first s
  · have silent : (onEvent tb pending e).2 = none := by
      by_cases switch : IsSwitch e
      · rw [onEvent_switch switch]
      · rw [onEvent_other switch dispatch]
    rw [silent, Option.toList_none, List.append_nil]
    exact emitted.append_of_none fun _ _ dispatches =>
      absurd dispatches dispatch

/-! ### A stream, and how it is cut -/

theorem emitBatch_append (pending : Pending) (first second : List KdEvent) :
    emitBatch tb pending (first ++ second) =
      ((emitBatch tb (emitBatch tb pending first).1 second).1,
        (emitBatch tb pending first).2 ++
          (emitBatch tb (emitBatch tb pending first).1 second).2) := by
  induction first generalizing pending with
  | nil => simp [emitBatch]
  | cons e rest induction =>
      simp only [List.cons_append, emitBatch, induction, List.append_assoc]

theorem emitBatch_spec (records : List KdEvent) :
    Tracks records (emitBatch tb (fun _ => {}) records).1 ∧
      EmittedFor tb records (emitBatch tb (fun _ => {}) records).2 := by
  induction records using List.reverseRecOn with
  | nil =>
      constructor
      · intro cpu
        exact Or.inr ⟨rfl, fun first s opened => by simp [OpenAt] at opened⟩
      · refine ⟨[], List.Pairwise.nil, fun first second => ?_,
          List.Forall₂.nil⟩
        simp [PairedAt]
  | append_singleton records e induction =>
      rw [emitBatch_append]
      constructor
      · exact tracks_onEvent induction.1
      · simpa [emitBatch] using emitted_onEvent induction.1 induction.2

theorem onEvent_foreign (foreign : e.csc ≠ schedCsc) :
    onEvent tb pending e = (pending, none) := by
  simp [onEvent, foreign]

theorem emitBatch_filter (pending : Pending) (records : List KdEvent) :
    emitBatch tb pending (records.filter (·.csc = schedCsc)) =
      emitBatch tb pending records := by
  induction records generalizing pending with
  | nil => rfl
  | cons e rest induction =>
      by_cases sched : e.csc = schedCsc
      · rw [List.filter_cons_of_pos (by simpa using sched)]
        simp only [emitBatch, induction]
      · rw [List.filter_cons_of_neg (by simpa using sched), induction]
        simp [emitBatch, onEvent_foreign sched]

def TaskState.unnamed (state : TaskState) : TaskState :=
  { state with comm := [] }

/-- All task states of a run, without the thread names. -/
def unnamedStates (packets : List DrainPackets) : List TaskState :=
  (packets.flatMap DrainPackets.states).map TaskState.unnamed

variable (tb) in
theorem onDrains_unnamed (consumer : SchedConsumer) (drains : List Drain)
    (cache : PtCache) :
    unnamedStates (onDrains tb consumer drains).2 =
      ((emitBatch tb consumer.pending (drains.flatMap Drain.events)).2.flatMap
        (·.taskStates cache)).map TaskState.unnamed := by
  induction drains generalizing consumer with
  | nil => rfl
  | cons drain rest induction =>
      have later := induction
        (onDrain tb consumer drain.info drain.events drain.threadMap).1
      simp only [unnamedStates] at later ⊢
      simp only [onDrains, List.flatMap_cons, List.map_append, later,
        emitBatch_append, List.flatMap_append]
      congr 1
      simp only [onDrain, List.map_flatMap]
      rfl

variable (tb) in
theorem onDrains_filter (consumer : SchedConsumer) (drains : List Drain) :
    onDrains tb consumer (drains.map fun drain =>
        { drain with events := drain.events.filter (·.csc = schedCsc) }) =
      onDrains tb consumer drains := by
  induction drains generalizing consumer with
  | nil => rfl
  | cons drain rest induction =>
      simp only [List.map_cons, onDrains, onDrain, emitBatch_filter, induction]

theorem refreshAndEmitTree_nil (info : ProcInfo) (cache : PtCache) :
    refreshAndEmitTree info cache [] = (cache, none) := rfl

variable (tb) in
theorem onDrains_named (consumer : SchedConsumer) (info : ProcInfo)
    (batches : List (List KdEvent)) :
    (onDrains tb consumer (batches.map (⟨info, ·, []⟩))).2.flatMap
        DrainPackets.states =
      (emitBatch tb consumer.pending batches.flatten).2.flatMap
        (·.taskStates consumer.cache) := by
  induction batches generalizing consumer with
  | nil => rfl
  | cons batch rest induction =>
      simp only [List.map_cons, onDrains, onDrain, refreshAndEmitTree_nil,
        List.flatMap_cons, induction, List.flatten_cons, emitBatch_append,
        List.flatMap_append]

variable (tb) in
/-- The consumer emits the pairs of the stream in order, whatever the names it
learns on the way; records of other classes and the cutting change nothing. -/
theorem switches_pair_up (cache : PtCache) (drains : List Drain) :
    ∃ switches,
      EmittedFor tb (drains.flatMap Drain.events) switches ∧
      unnamedStates (onDrains tb ⟨fun _ => {}, cache⟩ drains).2 =
        (switches.flatMap (·.taskStates cache)).map TaskState.unnamed ∧
      (∀ cut : List Drain,
        cut.flatMap Drain.events = drains.flatMap Drain.events →
        unnamedStates (onDrains tb ⟨fun _ => {}, cache⟩ cut).2 =
          unnamedStates (onDrains tb ⟨fun _ => {}, cache⟩ drains).2) ∧
      (∀ info (batches : List (List KdEvent)),
        batches.flatten = drains.flatMap Drain.events →
        (onDrains tb ⟨fun _ => {}, cache⟩
            (batches.map (⟨info, ·, []⟩))).2.flatMap DrainPackets.states =
          switches.flatMap (·.taskStates cache)) ∧
      onDrains tb ⟨fun _ => {}, cache⟩ (drains.map fun drain =>
          { drain with events := drain.events.filter (·.csc = schedCsc) }) =
        onDrains tb ⟨fun _ => {}, cache⟩ drains := by
  refine ⟨(emitBatch tb (fun _ => {}) (drains.flatMap Drain.events)).2,
    (emitBatch_spec _).2, onDrains_unnamed tb _ drains cache, ?_, ?_,
    onDrains_filter tb _ drains⟩
  · intro cut same
    rw [onDrains_unnamed tb _ cut cache, onDrains_unnamed tb _ drains cache,
      same]
  · intro info batches same
    rw [onDrains_named, same]

end Sismo.Kdebug
