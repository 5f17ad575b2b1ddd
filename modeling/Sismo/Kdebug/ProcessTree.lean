import Mathlib.Data.Nat.Find
import Sismo.Kdebug.SchedConsumer
import Sismo.Lib.Changes

namespace Sismo.Kdebug

/-! What the process tree packets of a run must hold, and that they do as long
as no snapshot brings more than a packet takes. -/

def KdThreadMap.entry (t : KdThreadMap) : Option (Nat × Int) :=
  if t.thread = 0 ∨ t.pid ≤ 0 then none else some (t.thread, t.pid)

def entriesOf (threadMap : List KdThreadMap) : List (Nat × Int) :=
  threadMap.filterMap KdThreadMap.entry

namespace PtCache

def processOf (cache : PtCache) (pid : Int) : Option Unit :=
  (cache.processes.lookup pid).map fun _ => ()

def newThreads (cache : PtCache) (threadMap : List KdThreadMap) :
    List (Nat × Int) :=
  changes cache.pidOf (entriesOf threadMap)

def processLog (threads : List (Nat × Int)) : List (Int × Unit) :=
  threads.map fun thread => (thread.2, ())

def newProcesses (cache : PtCache) (threadMap : List KdThreadMap) : List Int :=
  (changes cache.processOf (processLog (cache.newThreads threadMap))).map
    Prod.fst

def HasRoom (cache : PtCache) (threadMap : List KdThreadMap) : Prop :=
  (cache.newThreads threadMap).length ≤ maxNewThreads ∧
    (cache.newProcesses threadMap).length ≤ maxNewProcesses

end PtCache

/-! ### One snapshot -/

namespace Staging

def threadPairs (staging : Staging) : List (Nat × Int) :=
  staging.newThreads.map fun thread => (thread.1, thread.2.1)

def pids (staging : Staging) : List Int :=
  staging.newProcesses.map Prod.fst

end Staging

theorem take_capped {α : Type} {staged : List α} {limit : Nat}
    (fits : staged.length ≤ limit) (value : α) (rest : List α) :
    ((if staged.length < limit then staged ++ [value] else staged) ++
        rest).take limit = (staged ++ value :: rest).take limit := by
  split
  · simp
  · have full : staged.length = limit := by omega
    rw [← full, List.take_left, List.take_left]

theorem map_capped {α β : Type} (f : α → β) (staged : List α) (limit : Nat)
    (value : α) :
    (if staged.length < limit then staged ++ [value] else staged).map f =
      if (staged.map f).length < limit then staged.map f ++ [f value]
      else staged.map f := by
  rw [List.length_map]
  split
  · simp
  · rfl

theorem length_capped {α : Type} {staged : List α} {limit : Nat}
    (fits : staged.length ≤ limit) (value : α) :
    (if staged.length < limit then staged ++ [value]
      else staged).length ≤ limit := by
  split
  · simpa using by omega
  · exact fits

variable {info : ProcInfo} {staging : Staging}

variable (info) in
theorem stageProcess_spec (pid : Int) (rest : List (Int × Unit))
    (fits : staging.newProcesses.length ≤ maxNewProcesses) :
    (stageProcess info staging pid).newThreads = staging.newThreads ∧
      (stageProcess info staging pid).cache.pidOf = staging.cache.pidOf ∧
      (stageProcess info staging pid).cache.processOf =
        Function.update staging.cache.processOf pid (some ()) ∧
      (stageProcess info staging pid).newProcesses.length ≤ maxNewProcesses ∧
      ((stageProcess info staging pid).pids ++
          (changes (Function.update staging.cache.processOf pid (some ()))
            rest).map Prod.fst).take maxNewProcesses =
        (staging.pids ++ (changes staging.cache.processOf
          ((pid, ()) :: rest)).map Prod.fst).take maxNewProcesses := by
  unfold stageProcess
  split
  · next known =>
      obtain ⟨value, found⟩ := Option.isSome_iff_exists.mp known
      have seen : staging.cache.processOf pid = some () := by
        simp [PtCache.processOf, found]
      rw [update_of_known seen, changes, if_pos seen]
      exact ⟨rfl, rfl, rfl, fits, rfl⟩
  · next unknown =>
      have unseen : staging.cache.processOf pid ≠ some () := by
        have : staging.cache.processes.lookup pid = none := by
          simpa using unknown
        simp [PtCache.processOf, this]
      refine ⟨rfl, rfl, ?_, length_capped fits _, ?_⟩
      · funext other
        by_cases here : other = pid
        · subst here
          simp [PtCache.processOf]
        · simp [PtCache.processOf, here]
      · simp only [changes, if_neg unseen, List.map_cons, Staging.pids,
          map_capped]
        apply take_capped
        rwa [List.length_map]

/-- What staging a snapshot leaves: the new entries, as far as they fit, and a
cache that knows all of them. -/
structure Staged (staging final : Staging) (threadMap : List KdThreadMap) :
    Prop where
  threads : final.threadPairs =
    (staging.threadPairs ++ staging.cache.newThreads threadMap).take
      maxNewThreads
  processes : final.pids =
    (staging.pids ++ staging.cache.newProcesses threadMap).take
      maxNewProcesses
  pidOf : final.cache.pidOf =
    latest staging.cache.pidOf (entriesOf threadMap)
  processOf : final.cache.processOf =
    latest staging.cache.processOf
      (PtCache.processLog (staging.cache.newThreads threadMap))

/-- An entry that does not count, or that the cache has, is passed over. -/
theorem Staged.cons_known {final : Staging} {t : KdThreadMap}
    {rest : List KdThreadMap}
    (silent : ∀ tid pid, t.entry = some (tid, pid) →
      staging.cache.pidOf tid = some pid)
    (staged : Staged staging final rest) :
    Staged staging final (t :: rest) := by
  cases counted : t.entry with
  | none =>
      have same : entriesOf (t :: rest) = entriesOf rest := by
        simp [entriesOf, counted]
      exact ⟨by simpa [PtCache.newThreads, same] using staged.threads,
        by simpa [PtCache.newProcesses, PtCache.newThreads, same]
          using staged.processes,
        by simpa [same] using staged.pidOf,
        by simpa [PtCache.newThreads, same] using staged.processOf⟩
  | some entry =>
      obtain ⟨tid, pid⟩ := entry
      have known := silent tid pid counted
      have entries : entriesOf (t :: rest) = (tid, pid) :: entriesOf rest := by
        simp [entriesOf, counted]
      have same : staging.cache.newThreads (t :: rest) =
          staging.cache.newThreads rest := by
        simp [PtCache.newThreads, entries, changes, known]
      exact ⟨by rw [same, staged.threads],
        by rw [PtCache.newProcesses, same]; exact staged.processes,
        by rw [entries, latest, update_of_known known, staged.pidOf],
        by rw [same, staged.processOf]⟩

variable (info) in
theorem foldl_stageThread (threadMap : List KdThreadMap)
    (threadsFit : staging.newThreads.length ≤ maxNewThreads)
    (processesFit : staging.newProcesses.length ≤ maxNewProcesses) :
    Staged staging (threadMap.foldl (stageThread info) staging) threadMap := by
  induction threadMap generalizing staging with
  | nil =>
      refine ⟨?_, ?_, rfl, rfl⟩
      · simp [PtCache.newThreads, entriesOf, changes, Staging.threadPairs,
          threadsFit]
      · simp [PtCache.newProcesses, PtCache.newThreads, PtCache.processLog,
          entriesOf, changes, Staging.pids, processesFit]
  | cons t rest induction =>
      rw [List.foldl_cons]
      by_cases skipped : t.thread = 0 ∨ t.pid ≤ 0
      · rw [stageThread, if_pos skipped]
        apply (induction threadsFit processesFit).cons_known
        simp [KdThreadMap.entry, skipped]
      · by_cases known : staging.cache.pidOf t.thread = some t.pid
        · rw [stageThread, if_neg skipped, if_pos known]
          apply (induction threadsFit processesFit).cons_known
          simp only [KdThreadMap.entry, skipped, if_false, Option.some.injEq,
            Prod.mk.injEq]
          rintro _ _ ⟨rfl, rfl⟩
          exact known
        · rw [stageThread, if_neg skipped, if_neg known]
          -- The thread is staged, then its process.
          set named : Staging :=
            { cache := { staging.cache with
                threads := staging.cache.threads.insert t.thread
                  (t.pid, (info.threadName t.pid t.thread).getD
                    t.commandBytes) }
              newThreads :=
                if staging.newThreads.length < maxNewThreads then
                  staging.newThreads ++ [(t.thread, t.pid,
                    (info.threadName t.pid t.thread).getD t.commandBytes)]
                else staging.newThreads
              newProcesses := staging.newProcesses } with namedEq
          have learned : named.cache.pidOf =
              Function.update staging.cache.pidOf t.thread (some t.pid) := by
            funext other
            by_cases here : other = t.thread
            · subst here
              simp [namedEq, PtCache.pidOf]
            · simp [namedEq, PtCache.pidOf, here]
          have entries : entriesOf (t :: rest) =
              (t.thread, t.pid) :: entriesOf rest := by
            simp [entriesOf, KdThreadMap.entry, skipped]
          obtain ⟨sameThreads, samePids, processes, room, taken⟩ :=
            stageProcess_spec info t.pid
              (PtCache.processLog (changes
                (Function.update staging.cache.pidOf t.thread (some t.pid))
                (entriesOf rest))) (show named.newProcesses.length ≤ _ from
                  processesFit)
          have staged : Staged (stageProcess info named t.pid) _ rest :=
            induction
              (by rw [sameThreads]; exact length_capped threadsFit _) room
          have newRest : (stageProcess info named t.pid).cache.newThreads
              rest = changes (Function.update staging.cache.pidOf t.thread
                (some t.pid)) (entriesOf rest) := by
            rw [PtCache.newThreads, samePids, learned]
          have newAll : staging.cache.newThreads (t :: rest) =
              (t.thread, t.pid) :: changes (Function.update
                staging.cache.pidOf t.thread (some t.pid))
                (entriesOf rest) := by
            rw [PtCache.newThreads, entries, changes, if_neg known]
          constructor
          · rw [staged.threads, newRest, newAll, Staging.threadPairs,
              sameThreads, map_capped]
            apply take_capped
            rwa [List.length_map]
          · rw [staged.processes, PtCache.newProcesses, PtCache.newProcesses,
              newRest, newAll, processes]
            exact taken
          · rw [staged.pidOf, samePids, learned, entries, latest]
          · rw [staged.processOf, newRest, newAll, processes]
            rfl

/-! ### One packet -/

def treeThreads : Option KernelProcessTree → List (Nat × Int)
  | none => []
  | some tree => tree.threads.map fun thread => (thread.1, thread.2.1)

def treePids : Option KernelProcessTree → List Int
  | none => []
  | some tree => tree.processes.map Prod.fst

variable {cache : PtCache} {threadMap : List KdThreadMap}

theorem refresh_pidOf (info : ProcInfo) (cache : PtCache)
    (threadMap : List KdThreadMap) :
    (refreshAndEmitTree info cache threadMap).1.pidOf =
      latest cache.pidOf (entriesOf threadMap) := by
  have staged : Staged { cache := cache } _ threadMap :=
    foldl_stageThread info threadMap (by simp) (by simp)
  simp only [refreshAndEmitTree]
  split <;> exact staged.pidOf

theorem refresh_processOf (info : ProcInfo) (cache : PtCache)
    (threadMap : List KdThreadMap) :
    (refreshAndEmitTree info cache threadMap).1.processOf =
      latest cache.processOf
        (PtCache.processLog (cache.newThreads threadMap)) := by
  have staged : Staged { cache := cache } _ threadMap :=
    foldl_stageThread info threadMap (by simp) (by simp)
  simp only [refreshAndEmitTree]
  split <;> exact staged.processOf

theorem refresh_tree (info : ProcInfo) (cache : PtCache)
    (threadMap : List KdThreadMap) :
    treeThreads (refreshAndEmitTree info cache threadMap).2 =
        (cache.newThreads threadMap).take maxNewThreads ∧
      treePids (refreshAndEmitTree info cache threadMap).2 =
        (cache.newProcesses threadMap).take maxNewProcesses := by
  have staged : Staged { cache := cache } _ threadMap :=
    foldl_stageThread info threadMap (by simp) (by simp)
  have threads := staged.threads
  have processes := staged.processes
  simp only [Staging.threadPairs, Staging.pids, List.map_nil,
    List.nil_append] at threads processes
  simp only [refreshAndEmitTree]
  split
  · next silent =>
      rw [silent.1, List.map_nil] at threads
      rw [silent.2, List.map_nil] at processes
      exact ⟨threads, processes⟩
  · exact ⟨threads, processes⟩

theorem refresh_tree_of_hasRoom (info : ProcInfo)
    (room : cache.HasRoom threadMap) :
    treeThreads (refreshAndEmitTree info cache threadMap).2 =
        cache.newThreads threadMap ∧
      treePids (refreshAndEmitTree info cache threadMap).2 =
        cache.newProcesses threadMap := by
  have tree := refresh_tree info cache threadMap
  rwa [List.take_of_length_le room.1, List.take_of_length_le room.2] at tree

/-! ### A run of drains -/

def Occurs (drains : List Drain) (index tid : Nat) (pid : Int) : Prop :=
  ∃ drain, drains[index]? = some drain ∧ (tid, pid) ∈ entriesOf drain.threadMap

def trees (packets : List DrainPackets) : List (Option KernelProcessTree) :=
  packets.map DrainPackets.tree

/-- What the packets owe the thread maps: each thread and each process in the
packet of the drain that first sees it, no process twice, and no thread twice
in a row under one pid. -/
structure LosesNobody (drains : List Drain) (packets : List DrainPackets) :
    Prop where
  threads : ∀ index tid pid, Occurs drains index tid pid →
    ∃ first ≤ index, Occurs drains first tid pid ∧
      (∀ earlier < first, ¬Occurs drains earlier tid pid) ∧
      ∃ tree, (trees packets)[first]? = some tree ∧
        (tid, pid) ∈ treeThreads tree
  processes : ∀ index tid pid, Occurs drains index tid pid →
    ∃ first ≤ index, (∃ other, Occurs drains first other pid) ∧
      (∀ earlier < first, ∀ other, ¬Occurs drains earlier other pid) ∧
      ∃ tree, (trees packets)[first]? = some tree ∧ pid ∈ treePids tree
  once : ((trees packets).flatMap treePids).Nodup
  changed : ∀ tid, ((((trees packets).flatMap treeThreads).filter
    (·.1 = tid)).map Prod.snd).IsChain (· ≠ ·)

variable (tb : Timebase)

/-- Every snapshot of a run leaves room in the packet it fills. -/
def RoomThroughout (consumer : SchedConsumer) : List Drain → Prop
  | [] => True
  | drain :: rest =>
      consumer.cache.HasRoom drain.threadMap ∧
        RoomThroughout (onDrain tb consumer drain.info drain.events
          drain.threadMap).1 rest

variable {tb} {consumer : SchedConsumer}

theorem roomThroughout_append {first second : List Drain} :
    RoomThroughout tb consumer (first ++ second) ↔
      RoomThroughout tb consumer first ∧
        RoomThroughout tb (onDrains tb consumer first).1 second := by
  induction first generalizing consumer with
  | nil => simp [RoomThroughout, onDrains]
  | cons drain rest induction =>
      simp only [List.cons_append, RoomThroughout, induction, onDrains,
        and_assoc]

theorem onDrains_append {first second : List Drain} :
    onDrains tb consumer (first ++ second) =
      ((onDrains tb (onDrains tb consumer first).1 second).1,
        (onDrains tb consumer first).2 ++
          (onDrains tb (onDrains tb consumer first).1 second).2) := by
  induction first generalizing consumer with
  | nil => rfl
  | cons drain rest induction =>
      simp only [List.cons_append, onDrains, induction]

theorem trees_singleton (drain : Drain) :
    trees (onDrains tb consumer [drain]).2 =
      [(refreshAndEmitTree drain.info consumer.cache drain.threadMap).2] := rfl

theorem onDrains_length (drains : List Drain) :
    (onDrains tb consumer drains).2.length = drains.length := by
  induction drains generalizing consumer with
  | nil => rfl
  | cons drain rest induction => simp [onDrains, induction]

def threadLog (drains : List Drain) : List (Nat × Int) :=
  drains.flatMap fun drain => entriesOf drain.threadMap

theorem onDrains_pidOf (drains : List Drain) :
    (onDrains tb consumer drains).1.cache.pidOf =
      latest consumer.cache.pidOf (threadLog drains) := by
  induction drains generalizing consumer with
  | nil => rfl
  | cons drain rest induction =>
      rw [threadLog, List.flatMap_cons, latest_append, onDrains,
        ← refresh_pidOf drain.info]
      exact induction

theorem onDrains_processOf (drains : List Drain) :
    (onDrains tb consumer drains).1.cache.processOf =
      latest consumer.cache.processOf (PtCache.processLog
        (changes consumer.cache.pidOf (threadLog drains))) := by
  induction drains generalizing consumer with
  | nil => rfl
  | cons drain rest induction =>
      rw [threadLog, List.flatMap_cons, changes_append, PtCache.processLog,
        List.map_append, latest_append, ← refresh_pidOf drain.info]
      have first := refresh_processOf drain.info consumer.cache
        drain.threadMap
      rw [PtCache.newThreads, PtCache.processLog] at first
      rw [← first]
      exact induction

theorem trees_threads (drains : List Drain)
    (room : RoomThroughout tb consumer drains) :
    (trees (onDrains tb consumer drains).2).flatMap treeThreads =
      changes consumer.cache.pidOf (threadLog drains) := by
  induction drains generalizing consumer with
  | nil => rfl
  | cons drain rest induction =>
      rw [threadLog, List.flatMap_cons, changes_append,
        ← refresh_pidOf drain.info]
      have later := induction room.2
      simp only [trees, onDrains, List.map_cons, List.flatMap_cons] at later ⊢
      rw [later]
      congr 1
      exact (refresh_tree_of_hasRoom drain.info room.1).1

theorem trees_processes (drains : List Drain)
    (room : RoomThroughout tb consumer drains) :
    (trees (onDrains tb consumer drains).2).flatMap treePids =
      (changes consumer.cache.processOf (PtCache.processLog
        (changes consumer.cache.pidOf (threadLog drains)))).map Prod.fst := by
  induction drains generalizing consumer with
  | nil => rfl
  | cons drain rest induction =>
      rw [threadLog, List.flatMap_cons, changes_append, PtCache.processLog,
        List.map_append, changes_append, List.map_append,
        ← refresh_pidOf drain.info]
      have first := refresh_processOf drain.info consumer.cache
        drain.threadMap
      rw [PtCache.newThreads, PtCache.processLog] at first
      rw [← first]
      have later := induction room.2
      simp only [trees, onDrains, List.map_cons, List.flatMap_cons] at later ⊢
      rw [later]
      congr 1
      exact (refresh_tree_of_hasRoom drain.info room.1).2

/-- The tree of one drain of a run, from the cache the drains before it left. -/
theorem tree_at {drains : List Drain} {drain : Drain} {index : Nat}
    (found : drains[index]? = some drain)
    (room : RoomThroughout tb consumer drains) :
    ∃ (cache : PtCache) (tree : _),
      (trees (onDrains tb consumer drains).2)[index]? = some tree ∧
      cache.pidOf =
        latest consumer.cache.pidOf (threadLog (drains.take index)) ∧
      cache.processOf = latest consumer.cache.processOf (PtCache.processLog
        (changes consumer.cache.pidOf (threadLog (drains.take index)))) ∧
      treeThreads tree = cache.newThreads drain.threadMap ∧
      treePids tree = cache.newProcesses drain.threadMap := by
  obtain ⟨below, atIndex⟩ := List.getElem?_eq_some_iff.mp found
  have split :
      drains = drains.take index ++ drain :: drains.drop (index + 1) := by
    rw [← atIndex, List.cons_getElem_drop_succ, List.take_append_drop]
  rw [split] at room
  have here := (roomThroughout_append.mp room).2.1
  refine ⟨(onDrains tb consumer (drains.take index)).1.cache, _, ?_,
    onDrains_pidOf _, onDrains_processOf _,
    (refresh_tree_of_hasRoom drain.info here).1,
    (refresh_tree_of_hasRoom drain.info here).2⟩
  have length : (onDrains tb consumer (drains.take index)).2.length = index := by
    rw [onDrains_length, List.length_take]
    omega
  conv_lhs => rw [split]
  rw [onDrains_append, trees, List.map_append, List.getElem?_append_right
    (by rw [List.length_map, length]), List.length_map, length, Nat.sub_self]
  rfl

theorem exists_first {p : Nat → Prop} {index : Nat} (holds : p index) :
    ∃ first ≤ index, p first ∧ ∀ earlier < first, ¬p earlier := by
  classical
  have some : ∃ index, p index := ⟨index, holds⟩
  exact ⟨Nat.find some, Nat.find_min' some holds, Nat.find_spec some,
    fun earlier before => Nat.find_min some before⟩

theorem occurs_of_mem_threadLog {drains : List Drain} {index tid : Nat}
    {pid : Int} (member : (tid, pid) ∈ threadLog (drains.take index)) :
    ∃ earlier < index, Occurs drains earlier tid pid := by
  obtain ⟨drain, taken, entry⟩ := List.mem_flatMap.mp member
  obtain ⟨earlier, found⟩ := List.mem_iff_getElem?.mp taken
  rw [List.getElem?_take] at found
  split at found
  · next before => exact ⟨earlier, before, drain, found, entry⟩
  · cases found

theorem unknown_of_first {drains : List Drain} {index tid : Nat} {pid : Int}
    (first : ∀ earlier < index, ¬Occurs drains earlier tid pid) :
    latest (fun _ => none) (threadLog (drains.take index)) tid ≠
      some pid := by
  intro known
  rcases mem_of_latest known with impossible | member
  · cases impossible
  · obtain ⟨earlier, before, occurs⟩ := occurs_of_mem_threadLog member
    exact first earlier before occurs

variable (tb) in
theorem tree_loses_nobody (drains : List Drain)
    (room : RoomThroughout tb ⟨fun _ => {}, {}⟩ drains) :
    LosesNobody drains (onDrains tb ⟨fun _ => {}, {}⟩ drains).2 := by
  have empty : ({} : PtCache).pidOf = fun _ => none := rfl
  have noProcess : ({} : PtCache).processOf = fun _ => none := rfl
  constructor
  · intro index tid pid occurs
    obtain ⟨first, upTo, sees, earliest⟩ :=
      exists_first (p := fun index => Occurs drains index tid pid) occurs
    refine ⟨first, upTo, sees, earliest, ?_⟩
    obtain ⟨drain, found, entry⟩ := sees
    obtain ⟨cache, tree, packet, pidOf, _, threads, _⟩ := tree_at found room
    refine ⟨tree, packet, ?_⟩
    rw [threads]
    apply mem_changes entry
    rw [pidOf, empty]
    exact unknown_of_first earliest
  · intro index tid pid occurs
    obtain ⟨first, upTo, ⟨other, sees⟩, earliest⟩ :=
      exists_first (p := fun index => ∃ other, Occurs drains index other pid)
        ⟨tid, occurs⟩
    have unseen : ∀ earlier < first, ∀ other,
        ¬Occurs drains earlier other pid :=
      fun earlier before other occurs => earliest earlier before ⟨other, occurs⟩
    refine ⟨first, upTo, ⟨other, sees⟩, unseen, ?_⟩
    obtain ⟨drain, found, entry⟩ := sees
    obtain ⟨cache, tree, packet, pidOf, processOf, _, processes⟩ :=
      tree_at found room
    refine ⟨tree, packet, ?_⟩
    have new : (other, pid) ∈ cache.newThreads drain.threadMap := by
      apply mem_changes entry
      rw [pidOf, empty]
      exact unknown_of_first fun earlier before => unseen earlier before other
    rw [processes, PtCache.newProcesses]
    refine List.mem_map.mpr ⟨(pid, ()), mem_changes ?_ ?_, rfl⟩
    · exact List.mem_map.mpr ⟨(other, pid), new, rfl⟩
    · intro known
      rw [processOf, noProcess] at known
      rcases mem_of_latest known with impossible | member
      · cases impossible
      · obtain ⟨⟨someTid, same⟩, logged, equal⟩ := List.mem_map.mp member
        cases equal
        obtain ⟨earlier, before, occurs⟩ := occurs_of_mem_threadLog
          ((changes_sublist _ _).subset logged)
        exact unseen earlier before someTid occurs
  · rw [trees_processes drains room]
    exact changes_nodup _ _
  · intro tid
    rw [trees_threads drains room]
    exact changes_isChain (fun _ => none) (threadLog drains) tid

/-- Nothing is known of the processes of the thread maps below. -/
def noInfo : ProcInfo :=
  ⟨fun _ _ => none, fun _ => none, fun _ => none⟩

/-- The second snapshot has a thread more, and the first one's tid 7 belongs to
another process by then; the third has nothing new. -/
def reusedTid : List Drain :=
  [⟨noInfo, [], [⟨7, 1, []⟩, ⟨8, 2, []⟩]⟩,
    ⟨noInfo, [], [⟨8, 2, []⟩, ⟨7, 3, []⟩, ⟨9, 2, []⟩]⟩,
    ⟨noInfo, [], [⟨7, 3, []⟩, ⟨9, 2, []⟩]⟩]

theorem tree_loses_nobody_of_two :
    LosesNobody reusedTid
        (onDrains ⟨1, 1, by decide⟩ ⟨fun _ => {}, {}⟩ reusedTid).2 ∧
      (trees (onDrains ⟨1, 1, by decide⟩ ⟨fun _ => {}, {}⟩ reusedTid).2).map
        treeThreads = [[(7, 1), (8, 2)], [(7, 3), (9, 2)], []] := by
  refine ⟨tree_loses_nobody ⟨1, 1, by decide⟩ reusedTid ?_, ?_⟩
  · exact ⟨⟨by decide +kernel, by decide +kernel⟩,
      ⟨by decide +kernel, by decide +kernel⟩,
      ⟨by decide +kernel, by decide +kernel⟩, trivial⟩
  · decide +kernel

/-- One process with more threads than a packet takes. -/
def crowd : List KdThreadMap :=
  (List.range 257).map fun index => ⟨index + 1, 1, []⟩

theorem crowd_missing :
    (257, 1) ∉ treeThreads (refreshAndEmitTree noInfo {} crowd).2 := by
  rw [(refresh_tree noInfo {} crowd).1]
  decide +kernel

theorem crowd_loses_thread :
    ¬LosesNobody [⟨noInfo, [], crowd⟩]
      (onDrains ⟨1, 1, by decide⟩ ⟨fun _ => {}, {}⟩
        [⟨noInfo, [], crowd⟩]).2 := by
  intro loses
  obtain ⟨first, upTo, _, _, tree, found, member⟩ := loses.threads 0 257 1
    ⟨_, rfl, by decide +kernel⟩
  obtain rfl : first = 0 := by omega
  rw [trees_singleton, List.getElem?_cons_zero, Option.some.injEq] at found
  subst found
  exact crowd_missing member

end Sismo.Kdebug
