import Sismo.Lib.Coalesce
import Sismo.Unwind.Snapshots

namespace Sismo.Unwind

/-! The thread that loads the walker's tables: it reads the target's maps at
first and then after every ping of the capture's worker, queued pings taken
together. -/

open Reloader (State)

abbrev LoaderAct := Reloader.Act (Option Snapshot) (List Nat)

section

variable (toPages : List CompactUnwindRow → List Page) (own : OwnVdso)

/-- The maps cannot be read once the target is gone. A reading is loaded in
the order of a hash map. -/
def unwindLoader :
    Reloader (Option Snapshot) Snapshot (List Nat) UnwindTables where
  read maps := maps
  work := loadAll toPages own

/-- `UnwindLoader::spawn` for a target. -/
def spawn (maps : Option Snapshot) (pid : Nat) :
    State (Option Snapshot) Snapshot (List Nat) UnwindTables :=
  Reloader.initial maps (newTables pid)

/-- A run of loads that each keep the modules of the ones before. -/
def LoadsKept (pid : Nat) (loads : List (Snapshot × List Nat)) : Prop :=
  Machine.Along (loadAll toPages own) (Loadable toPages own)
    (newTables pid) loads ∧
  (loads.map Prod.fst).IsChain (Kept own)

end

section

variable {toPages : List CompactUnwindRow → List Page} {own : OwnVdso}
variable {pid : Nat} {maps : Option Snapshot}
variable {s : State (Option Snapshot) Snapshot (List Nat) UnwindTables}

theorem loads_resolve (paging : Paging toPages)
    {loads : List (Snapshot × List Nat)} {last : Snapshot × List Nat}
    {t : UnwindTables} (kept : LoadsKept toPages own pid loads)
    (newest : loads.getLast? = some last)
    (ran : Machine.run (loadAll toPages own) (newTables pid) loads =
      some t) : Resolves toPages own last.1 t := by
  obtain ⟨earlier, rfl⟩ := List.getLast?_eq_some_iff.mp newest
  have chain : ({ lines := [], files := last.1.files } ::
      (earlier ++ [last]).map Prod.fst).IsChain (Kept own) :=
    List.isChain_cons.mpr
      ⟨fun _ _ _ member => absurd member List.not_mem_nil, kept.2⟩
  obtain ⟨follows, wellFormed⟩ :=
    (follows_empty last.1.files).run paging chain kept.1 ran
  exact follows.resolves wellFormed

/-- When the loader waits with no ping queued, or has left, it has read the maps
since the last ping and no more than once more than it was pinged; so where its
loads keep the modules, the lookups give the mappings the target has, unless
those have changed since that ping. -/
theorem loader_idle_resolves (paging : Paging toPages)
    (reachable : Machine.Reachable (unwindLoader toPages own).step
      (spawn maps pid) s)
    (idle : s.Idle) :
    s.seen = s.sent ∧ s.readings ≤ s.sent + 1 ∧
      (LoadsKept toPages own pid s.done → s.quiet = true →
        ∀ snapshot, s.world = some snapshot →
          Resolves toPages own snapshot s.result) := by
  have keeps := Reloader.Keeps.reachable reachable
  obtain ⟨served, world, _, current, loaded⟩ := keeps.idle idle
  refine ⟨served, ?_, fun kept quiet snapshot mapped => ?_⟩
  · have counted := keeps.counted
    omega
  · have same := current quiet
    rw [same, mapped] at loaded
    obtain ⟨order, newest⟩ := loaded snapshot rfl
    exact loads_resolve paging kept newest keeps.ran

/-- After `join` hangs up the loader leaves within a bounded number of its own
steps, whatever the target does meanwhile, and is never stuck before. -/
theorem loader_joins
    {acts : List LoaderAct}
    {last : State (Option Snapshot) Snapshot (List Nat) UnwindTables}
    (hungUp : s.hungUp = true)
    (reached : Machine.run (unwindLoader toPages own).step s acts =
      some last) :
    acts.countP Reloader.Act.isWorker + last.rank ≤ s.rank ∧
      (last.place ≠ .exited → ∃ act : LoaderAct,
        act.isWorker = true ∧
        ∃ next, (unwindLoader toPages own).step last act = some next) := by
  refine Reloader.hungUp_exits (fun t snapshot => ?_) hungUp reached
  exact ⟨snapshot.moduleBases, _, if_pos (List.Perm.refl _)⟩

end

/-! A plugin that is mapped and announced twice while the loader waits. -/

def hostMaps : Snapshot := snapshotOf [hostLine]

def pluginMaps : Snapshot := snapshotOf [hostLine, pluginLine]

def pluginLoads : List (Snapshot × List Nat) :=
  [(hostMaps, [0x400000]), (pluginMaps, [0x400000, 0x7f0000020000])]

def pluginActs : List LoaderAct :=
  [.read, .work [0x400000], .change (some pluginMaps), .ping, .ping, .receive,
    .coalesce, .coalesce, .read, .work [0x400000, 0x7f0000020000]]

def pluginIdle : State (Option Snapshot) Snapshot (List Nat) UnwindTables where
  world := some pluginMaps
  place := .receiving
  result := pluginLoaded
  sent := 2
  seen := 2
  lastRead := some (some pluginMaps)
  readings := 2
  done := pluginLoads

theorem pluginIdle_reached :
    Machine.run (unwindLoader pagesByHighPc noVdso).step
      (spawn (some hostMaps) 7) pluginActs = some pluginIdle := by
  have host : (unwindLoader pagesByHighPc noVdso).work (newTables 7)
      (hostMaps, [0x400000]) = some hostLoaded := loadAll_host
  have plugin : (unwindLoader pagesByHighPc noVdso).work hostLoaded
      (pluginMaps, [0x400000, 0x7f0000020000]) = some pluginLoaded :=
    loadAll_plugin
  have read : ∀ maps, (unwindLoader pagesByHighPc noVdso).read maps = maps :=
    fun _ => rfl
  simp [pluginActs, Machine.run, Reloader.step, Reloader.takeReading,
    Reloader.workOn, Reloader.receive, Reloader.coalesce, spawn,
    Reloader.initial, read, host, plugin]
  rfl

theorem pluginLoads_kept :
    LoadsKept pagesByHighPc noVdso 7 pluginLoads := by
  refine ⟨⟨loadable_host, fun next stepped => ?_⟩, ?_⟩
  · obtain rfl := Option.some.inj (loadAll_host.symm.trans stepped)
    exact ⟨loadable_plugin, fun _ _ => trivial⟩
  · refine List.isChain_pair.mpr fun image member => ?_
    rw [show hostMaps.moduleBases = [0x400000] from by decide, hostMaps,
      images_host, List.mem_singleton] at member
    rw [show pluginMaps.moduleBases = [0x400000, 0x7f0000020000] from
      by decide, pluginMaps, images_plugin, member]
    exact List.mem_cons_self

/-- The lookups give the plugin's mapping. -/
theorem loader_idle_resolves_plugin :
    pluginIdle.Idle ∧
      Resolves pagesByHighPc noVdso pluginMaps pluginIdle.result :=
  ⟨.inl ⟨rfl, rfl⟩,
    (loader_idle_resolves paging_pagesByHighPc
      ⟨pluginActs, pluginIdle_reached⟩ (.inl ⟨rfl, rfl⟩)).2.2
      pluginLoads_kept rfl pluginMaps rfl⟩

def pluginHungUp :
    State (Option Snapshot) Snapshot (List Nat) UnwindTables :=
  { pluginIdle with hungUp := true }

def pluginExited :
    State (Option Snapshot) Snapshot (List Nat) UnwindTables :=
  { pluginHungUp with place := .exited }

theorem pluginExited_reached :
    Machine.run (unwindLoader pagesByHighPc noVdso).step pluginHungUp
      [.receive] = some pluginExited :=
  rfl

theorem loader_joins_plugin :
    [(.receive : LoaderAct)].countP Reloader.Act.isWorker +
        pluginExited.rank ≤ pluginHungUp.rank :=
  (loader_joins rfl pluginExited_reached).1

end Sismo.Unwind
