import Sismo.Kdebug.ModuleReloads
import Sismo.Kdebug.SwitchPairs
import Sismo.Samples.Wire

namespace Sismo.Kdebug.Wire

/-! The bytes of the macOS consumers' packets. -/

open Base128 Proto

/-! ### The process tree and the task states -/

def stateNumber : TaskStateEnum → UInt32
  | .runnable => 2
  | .running => 3
  | .interruptibleSleep => 4
  | .uninterruptibleSleep => 5
  | .stopped => 6

def stateOf (number : UInt64) : Option TaskStateEnum :=
  if number = 2 then some .runnable
  else if number = 3 then some .running
  else if number = 4 then some .interruptibleSleep
  else if number = 5 then some .uninterruptibleSleep
  else if number = 6 then some .stopped
  else none

/-- `ProcessC::encode`; the recorder gives pids and parents as 32-bit
numbers. -/
def processWrites (pid ppid : Int32) (cmdline : Bytes) : List Write :=
  .int64 (field 1) pid.toInt64 ::
    (fieldIf (ppid ≠ 0) (.int64 (field 2) ppid.toInt64) ++
      fieldIf (cmdline ≠ []) (.string (field 3) cmdline))

/-- `ThreadC::encode`, for a thread that is neither the main nor an idle
one. -/
def threadWrites (tid : UInt64) (pid : Int32) (comm : Bytes) : List Write :=
  [.int64 (field 1) tid.toInt64, .int64 (field 2) pid.toInt64] ++
    fieldIf (comm ≠ []) (.string (field 3) comm)

/-- `encode_kernel_process_tree`. -/
def treeWrites (processes : List (Int32 × Int32 × Bytes))
    (threads : List (UInt64 × Int32 × Bytes)) : List Write :=
  nestedEach (field 1) (fun p => processWrites p.1 p.2.1 p.2.2) processes ++
    nestedEach (field 2) (fun t => threadWrites t.1 t.2.1 t.2.2) threads

/-- `write_kernel_task_state_event`: a name is cut at 64 bytes. -/
def taskStateWrites (s : TaskState) : List Write :=
  .int32 (field 1) s.cpu.toInt32 ::
    (fieldIf (s.comm ≠ []) (.string (field 2) (s.comm.take 64)) ++
      [.int64 (field 3) s.tid.toInt64, .uint32 (field 4) (stateNumber s.state),
        .int32 (field 5) s.prio.toInt32])

/-- The packet of `emit_task_state`. -/
def statePacket (s : TaskState) : List Write :=
  fieldIf (s.tsNs ≠ 0) (.uint64 (field 8) s.tsNs) ++
    [.nested .message (field 117) (taskStateWrites s)]

/-- The packet of `refresh_and_emit_tree`. -/
def treePacket (processes : List (Int32 × Int32 × Bytes))
    (threads : List (UInt64 × Int32 × Bytes)) : List Write :=
  [.nested .writeMessage (field 122) (treeWrites processes threads)]

inductive SchedPacket where
  | tree (tree : KernelProcessTree)
  | state (state : TaskState)
  deriving DecidableEq, Repr

def sentOf (packets : DrainPackets) : List SchedPacket :=
  packets.tree.toList.map .tree ++ packets.states.map .state

inductive SchedWrites : SchedPacket → List Write → Prop
  | tree (processes : List (Int32 × Int32 × Bytes))
      (threads : List (UInt64 × Int32 × Bytes)) :
      SchedWrites
        (.tree
          { processes := processes.map fun p =>
              (p.1.toInt, p.2.1.toInt, p.2.2)
            threads := threads.map fun t => (t.1.toNat, t.2.1.toInt, t.2.2) })
        (treePacket processes threads)
  | state (s : TaskState) : SchedWrites (.state s) (statePacket s)

/-- The bytes that the writer has of a packet, if it is shorter than
32 GiB. -/
def SchedEmitted (packet : SchedPacket) (bytes : Bytes) : Prop :=
  ∃ tree w, SchedWrites packet tree ∧ (encodeAll tree).length < 2 ^ 35 ∧
    applyAll tree .new = .ok w ∧ w.bytes = bytes

/-! ### The reader -/

def int64 (items : List (UInt32 × WireValue)) (at_ : FieldNumber) : Int :=
  (lastVarint at_ items).toInt64.toInt

def text (items : List (UInt32 × WireValue)) (at_ : FieldNumber) : Bytes :=
  (items.filterMap (payload at_)).getLast?.getD []

def readProcess (items : List (UInt32 × WireValue)) :
    Option (Int × Int × Bytes) :=
  some (int64 items (field 1), int64 items (field 2), text items (field 3))

def readThread (items : List (UInt32 × WireValue)) :
    Option (Nat × Int × Bytes) :=
  some ((lastVarint (field 1) items).toNat, int64 items (field 2),
    text items (field 3))

def readTree (items : List (UInt32 × WireValue)) :
    Option KernelProcessTree := do
  let processes ← submessages readProcess (field 1) items
  let threads ← submessages readThread (field 2) items
  some ⟨processes, threads⟩

def readTaskState (tsNs : UInt64) (items : List (UInt32 × WireValue)) :
    Option TaskState :=
  (stateOf (lastVarint (field 4) items)).map fun state =>
    { tsNs := tsNs
      cpu := (lastVarint (field 1) items).toUInt32
      comm := text items (field 2)
      tid := lastVarint (field 3) items
      state := state
      prio := (lastVarint (field 5) items).toUInt32 }

/-- A packet with a process tree, or else one with a task state. -/
def readSched (bytes : Bytes) : Option SchedPacket := do
  let items ← messageItems bytes
  let trees ← submessages readTree (field 122) items
  match trees.getLast? with
  | some tree => some (.tree tree)
  | none =>
      let states ← submessages
        (readTaskState (lastVarint (field 8) items)) (field 117) items
      states.getLast?.map .state

def SchedPacket.cut : SchedPacket → SchedPacket
  | .tree t => .tree t
  | .state s => .state { s with comm := s.comm.take 64 }

/-! ### Packets are read back -/

theorem text_optional (bytes : Bytes) [Decidable (bytes ≠ [])] :
    (if bytes ≠ [] then [bytes] else []).getLast?.getD [] = bytes := by
  by_cases empty : bytes = []
  · simp [empty]
  · simp [empty]

theorem text_cut (bytes : Bytes) (n : Nat) [Decidable (bytes ≠ [])] :
    (if bytes ≠ [] then [bytes.take n] else []).getLast?.getD [] =
      bytes.take n := by
  by_cases empty : bytes = []
  · simp [empty]
  · simp [empty]

theorem int64_items (tree : List Write) (at_ : FieldNumber) :
    int64 (tree.map Write.item) at_ =
      ((numbersOf at_ tree).getLast?.getD 0).toInt64.toInt :=
  rfl

theorem text_items (tree : List Write) (at_ : FieldNumber) :
    text (tree.map Write.item) at_ =
      (payloadsOf at_ tree).getLast?.getD [] :=
  rfl

theorem readProcess_writes (pid ppid : Int32) (cmdline : Bytes) :
    readProcess ((processWrites pid ppid cmdline).map Write.item) =
      some (pid.toInt, ppid.toInt, cmdline) := by
  have parent : ((if ppid ≠ 0 then [ppid.toInt64.toUInt64]
      else []).getLast?.getD 0).toInt64.toInt = ppid.toInt := by
    by_cases orphan : ppid = 0
    · simp [orphan]
    · simp [orphan]
  simp +decide only [readProcess, int64_items, text_items, processWrites,
    numbersOf_int64, numbersOf_append, numbersOf_fieldIf, numbersOf_string,
    numbersOf_nil, payloadsOf_int64, payloadsOf_append, payloadsOf_fieldIf,
    payloadsOf_string, payloadsOf_nil, if_true, if_false, ite_self,
    List.append_nil, List.nil_append, text_optional, parent,
    List.getLast?_singleton, Option.getD_some]
  simp

theorem readThread_writes (tid : UInt64) (pid : Int32) (comm : Bytes) :
    readThread ((threadWrites tid pid comm).map Write.item) =
      some (tid.toNat, pid.toInt, comm) := by
  simp +decide only [readThread, lastVarint_items, int64_items, text_items,
    threadWrites, List.cons_append, List.nil_append, numbersOf_int64,
    numbersOf_fieldIf, numbersOf_string, numbersOf_nil, payloadsOf_int64,
    payloadsOf_fieldIf, payloadsOf_string, payloadsOf_nil, if_true, if_false,
    ite_self, text_optional, List.getLast?_singleton, Option.getD_some]
  simp

theorem readTaskState_writes (s : TaskState) :
    readTaskState s.tsNs ((taskStateWrites s).map Write.item) =
      some { s with comm := s.comm.take 64 } := by
  have state : stateOf (stateNumber s.state).toUInt64 = some s.state := by
    cases s.state <;> rfl
  simp +decide only [readTaskState, lastVarint_items, text_items,
    taskStateWrites, List.nil_append, numbersOf_int32,
    numbersOf_int64, numbersOf_uint32, numbersOf_append, numbersOf_fieldIf,
    numbersOf_string, numbersOf_nil, payloadsOf_int32, payloadsOf_int64,
    payloadsOf_uint32, payloadsOf_append, payloadsOf_fieldIf,
    payloadsOf_string, payloadsOf_nil, if_true, if_false, ite_self,
    List.append_nil, List.getLast?_singleton, Option.getD_some, state,
    Option.map_some, text_cut]
  simp

theorem treeWrites_payloads (processes : List (Int32 × Int32 × Bytes))
    (threads : List (UInt64 × Int32 × Bytes)) :
    payloadsOf (field 1) (treeWrites processes threads) =
        processes.map (fun p => encodeAll (processWrites p.1 p.2.1 p.2.2)) ∧
      payloadsOf (field 2) (treeWrites processes threads) =
        threads.map fun t => encodeAll (threadWrites t.1 t.2.1 t.2.2) := by
  rw [treeWrites, payloadsOf_append, payloadsOf_append]
  constructor
  · rw [payloadsOf_nestedEach, payloadsOf_nestedEach_other (by decide),
      List.append_nil]
  · rw [payloadsOf_nestedEach_other (by decide), payloadsOf_nestedEach,
      List.nil_append]

theorem readTree_writes (processes : List (Int32 × Int32 × Bytes))
    (threads : List (UInt64 × Int32 × Bytes))
    (short : (encodeAll (treeWrites processes threads)).length < 2 ^ 35) :
    readTree ((treeWrites processes threads).map Write.item) =
      some
        { processes := processes.map fun p => (p.1.toInt, p.2.1.toInt, p.2.2)
          threads := threads.map fun t =>
            (t.1.toNat, t.2.1.toInt, t.2.2) } := by
  obtain ⟨first, second⟩ := treeWrites_payloads processes threads
  rw [readTree,
    submessages_parts .writeMessage short first
      (fun p member => List.mem_append_left _ (List.mem_map_of_mem member))
      (fun p _ _ => readProcess_writes p.1 p.2.1 p.2.2),
    submessages_parts .writeMessage short second
      (fun t member => List.mem_append_right _ (List.mem_map_of_mem member))
      (fun t _ _ => readThread_writes t.1 t.2.1 t.2.2)]
  rfl

theorem readSched_tree (processes : List (Int32 × Int32 × Bytes))
    (threads : List (UInt64 × Int32 × Bytes))
    (short : (encodeAll (treePacket processes threads)).length < 2 ^ 35) :
    readSched (encodeAll (treePacket processes threads)) =
      some (.tree
        { processes := processes.map fun p => (p.1.toInt, p.2.1.toInt, p.2.2)
          threads := threads.map fun t =>
            (t.1.toNat, t.2.1.toInt, t.2.2) }) := by
  have inner : (encodeAll (treeWrites processes threads)).length < 2 ^ 35 :=
    part_short short (List.mem_singleton_self _)
  have payloads : payloadsOf (field 122) (treePacket processes threads) =
      [encodeAll (treeWrites processes threads)] := rfl
  rw [readSched, messageItems_of_length short, Option.bind_eq_bind,
    Option.bind_some, submessages_items, payloads, List.mapM_cons,
    messageItems_of_length inner, Option.bind_some,
    readTree_writes processes threads inner]
  rfl

theorem readSched_state (s : TaskState)
    (short : (encodeAll (statePacket s)).length < 2 ^ 35) :
    readSched (encodeAll (statePacket s)) =
      some (.state { s with comm := s.comm.take 64 }) := by
  have inner : (encodeAll (taskStateWrites s)).length < 2 ^ 35 := by
    have member : Write.nested .message (field 117) (taskStateWrites s) ∈
        statePacket s := List.mem_append_right _ (List.mem_singleton_self _)
    exact part_short short member
  have time : lastVarint (field 8) ((statePacket s).map Write.item) =
      s.tsNs := by
    have one : numbersOf (field 8) [.nested .message (field 117)
        (taskStateWrites s)] = [] := rfl
    rw [lastVarint_items, statePacket, numbersOf_append, numbersOf_unlessZero,
      one, List.append_nil]
    simp only [true_and]
    exact last_unlessZero s.tsNs
  have noTree : payloadsOf (field 122) (statePacket s) = [] := by
    rw [statePacket, payloadsOf_append, payloadsOf_unlessZero]
    rfl
  have state : payloadsOf (field 117) (statePacket s) =
      [encodeAll (taskStateWrites s)] := by
    rw [statePacket, payloadsOf_append, payloadsOf_unlessZero]
    rfl
  rw [readSched, messageItems_of_length short, Option.bind_eq_bind,
    Option.bind_some, time, submessages_items, noTree, submessages_items, state,
    List.mapM_cons, messageItems_of_length inner, Option.bind_some,
    readTaskState_writes]
  rfl

theorem readSched_emitted {packet : SchedPacket} {bytes : Bytes}
    (emitted : SchedEmitted packet bytes) :
    readSched bytes = some packet.cut := by
  obtain ⟨tree, w, writes, short, written, rfl⟩ := emitted
  rw [applied_encodeAll short written]
  cases writes with
  | tree processes threads => exact readSched_tree processes threads short
  | state s => exact readSched_state s short

/-! ### Runs -/

theorem mapM_emitted {packets : List SchedPacket} {sent : List Bytes}
    (emitted : List.Forall₂ SchedEmitted packets sent) :
    sent.mapM readSched = some (packets.map SchedPacket.cut) := by
  induction emitted with
  | nil => rfl
  | cons first rest induction =>
      rw [List.mapM_cons, readSched_emitted first, induction]
      rfl

def SchedPacket.state? : SchedPacket → Option TaskState
  | .tree _ => none
  | .state s => some s

def SchedPacket.tree? : SchedPacket → Option KernelProcessTree
  | .tree t => some t
  | .state _ => none

theorem unnamed_cut (packets : List SchedPacket) :
    ((packets.map SchedPacket.cut).filterMap SchedPacket.state?).map
      TaskState.unnamed =
      (packets.filterMap SchedPacket.state?).map TaskState.unnamed := by
  induction packets with
  | nil => rfl
  | cons packet rest induction =>
      cases packet with
      | tree t => exact induction
      | state s => exact congrArg (s.unnamed :: ·) induction

theorem tree?_cut (packets : List SchedPacket) :
    (packets.map SchedPacket.cut).filterMap SchedPacket.tree? =
      packets.filterMap SchedPacket.tree? := by
  induction packets with
  | nil => rfl
  | cons packet rest induction =>
      cases packet with
      | tree t => exact congrArg (t :: ·) induction
      | state s => exact induction

theorem filterMap_sentOf (packets : DrainPackets) :
    (sentOf packets).filterMap SchedPacket.state? = packets.states ∧
      (sentOf packets).filterMap SchedPacket.tree? =
        packets.tree.toList := by
  have states : ∀ list : List TaskState,
      (list.map SchedPacket.state).filterMap SchedPacket.state? = list ∧
        (list.map SchedPacket.state).filterMap SchedPacket.tree? = [] := by
    intro list
    induction list with
    | nil => exact ⟨rfl, rfl⟩
    | cons s rest induction =>
        exact ⟨congrArg (s :: ·) induction.1, induction.2⟩
  obtain ⟨kept, dropped⟩ := states packets.states
  rw [sentOf, List.filterMap_append, List.filterMap_append, kept, dropped]
  cases packets.tree with
  | none => exact ⟨rfl, rfl⟩
  | some t => exact ⟨rfl, rfl⟩

theorem filterMap_sent (drains : List DrainPackets) :
    (drains.flatMap sentOf).filterMap SchedPacket.state? =
        drains.flatMap DrainPackets.states ∧
      (drains.flatMap sentOf).filterMap SchedPacket.tree? =
        drains.flatMap (·.tree.toList) := by
  induction drains with
  | nil => exact ⟨rfl, rfl⟩
  | cons drain rest induction =>
      obtain ⟨states, trees⟩ := filterMap_sentOf drain
      simp only [List.flatMap_cons, List.filterMap_append, states, trees,
        induction.1, induction.2, and_self]

/-- The bytes of a run of the sched consumer are read back: the packets sent
with the names cut, which are its process trees, and the two task states of
each pair of the stream, in order. -/
theorem sched_bytes_read_back (tb : Timebase) (drains : List Drain)
    {sent : List Bytes}
    (emitted : List.Forall₂ SchedEmitted
      ((onDrains tb {} drains).2.flatMap sentOf) sent) :
    ∃ read switches, sent.mapM readSched = some read ∧
      read = ((onDrains tb {} drains).2.flatMap sentOf).map SchedPacket.cut ∧
      EmittedFor tb (drains.flatMap Drain.events) switches ∧
      (read.filterMap SchedPacket.state?).map TaskState.unnamed =
        (switches.flatMap (·.taskStates {})).map TaskState.unnamed ∧
      read.filterMap SchedPacket.tree? =
        (onDrains tb {} drains).2.flatMap (·.tree.toList) := by
  refine ⟨_, _, mapM_emitted emitted, rfl, (emitBatch_spec _).2, ?_, ?_⟩
  · rw [unnamed_cut, (filterMap_sent _).1]
    exact onDrains_unnamed tb {} drains {}
  · rw [tree?_cut, (filterMap_sent _).2]

/-! A switch between two threads of which one is named. -/

def namedDrain : Drain where
  info :=
    { threadName := fun _ _ => none
      parentPid := fun _ => some 1
      pidPath := fun _ => some [47] }
  events :=
    [{ timestamp := 7, arg2 := 6, arg3 := 31, arg4 := 47, arg5 := 5
       debugid := 0x01400000 },
      { timestamp := 8, arg1 := 5, arg3 := 1, debugid := 0x01400080 }]
  threadMap := [⟨5, 9, [97]⟩]

def sleeps : TaskState := ⟨7, 0, [97], 5, .interruptibleSleep, 31⟩

def runs : TaskState := ⟨7, 0, [63], 6, .running, 47⟩

theorem namedDrain_sent :
    (onDrains unitTimebase {} [namedDrain]).2.flatMap sentOf =
      [.tree ⟨[(9, 1, [47])], [(5, 9, [97])]⟩, .state sleeps, .state runs] := by
  decide

theorem emitted_encodeAll {packet : SchedPacket} {tree : List Write}
    (writes : SchedWrites packet tree)
    (short : (encodeAll tree).length < 2 ^ 35) :
    SchedEmitted packet (encodeAll tree) := by
  obtain ⟨w, applied, same⟩ := applyAll_of_length short
  exact ⟨tree, w, writes, short, applied, same⟩

theorem namedDrain_emitted : ∃ tree first second,
    List.Forall₂ SchedEmitted
      ((onDrains unitTimebase {} [namedDrain]).2.flatMap sentOf)
      [tree, first, second] := by
  rw [namedDrain_sent]
  refine ⟨_, _, _,
    .cons (emitted_encodeAll (.tree [(9, 1, [47])] [(5, 9, [97])]) ?_)
      (.cons (emitted_encodeAll (.state sleeps) ?_)
        (.cons (emitted_encodeAll (.state runs) ?_) .nil))⟩
  · simp +decide [treePacket, treeWrites, nestedEach, processWrites,
      threadWrites, fieldIf, encodeAll, Write.encode, tagBytes, lengthBytes,
      minimal, field]
  · simp +decide [statePacket, taskStateWrites, sleeps, stateNumber, fieldIf,
      encodeAll, Write.encode, tagBytes, lengthBytes, minimal, padded_length,
      reservedLen, field]
  · simp +decide [statePacket, taskStateWrites, runs, stateNumber, fieldIf,
      encodeAll, Write.encode, tagBytes, lengthBytes, minimal, padded_length,
      reservedLen, field]

theorem sched_bytes_read_back_named : ∃ tree first second read,
    List.Forall₂ SchedEmitted
      ((onDrains unitTimebase {} [namedDrain]).2.flatMap sentOf)
      [tree, first, second] ∧
    [tree, first, second].mapM readSched = some read ∧
    read = [.tree ⟨[(9, 1, [47])], [(5, 9, [97])]⟩, .state sleeps,
      .state runs] := by
  obtain ⟨tree, first, second, emitted⟩ := namedDrain_emitted
  obtain ⟨read, _, reads, cut, _⟩ :=
    sched_bytes_read_back unitTimebase [namedDrain] emitted
  rw [namedDrain_sent] at cut
  exact ⟨tree, first, second, read, emitted, reads, cut⟩

end Sismo.Kdebug.Wire
