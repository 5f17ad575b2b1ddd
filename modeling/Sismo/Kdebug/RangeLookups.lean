import Sismo.Kdebug.ModuleLoader
import Sismo.Symbolize.UnwindTables

namespace Sismo.Kdebug

/-! Lookups of an address in a table of ranges, by halving and by the last
start. -/

open Ranges
open Symbolize (FdeCoverage CieOrFde)

/-- `find_module` finds a module with the pc wherever there is one. -/
structure FindsModules (mods : List Module) : Prop where
  finds : ∀ pc, (∃ m ∈ mods, m.Holds pc) →
    ∃ m ∈ mods, findModule mods pc = some m ∧ m.Holds pc
  misses : ∀ pc, (∀ m ∈ mods, ¬m.Holds pc) → findModule mods pc = none

/-- The three lookups give the module with the pc, or none. -/
structure LookupsAgree (mods : List Module) : Prop where
  halving : ∀ pc, findRange Module.range mods pc.toNat = findModule mods pc
  coverage : ∀ pc, FdeCoverage.covers ⟨mods.map Module.range⟩ pc.toNat =
    (findModule mods pc).isSome
  found : ∀ pc m, findModule mods pc = some m ↔ m ∈ mods ∧ m.Holds pc

theorem holds_iff {m : Module} {pc : UInt64} :
    m.Holds pc ↔ Contains m.range pc.toNat :=
  and_congr UInt64.le_iff_toNat_le UInt64.lt_iff_toNat_lt

theorem findModule_eq_lastStarting (mods : List Module) (pc : UInt64) :
    findModule mods pc = lastStarting Module.range mods pc.toNat := by
  have starts : (fun m : Module => decide (m.base ≤ pc)) =
      fun m => decide (m.range.1 ≤ pc.toNat) := by
    funext m
    exact decide_eq_decide.mpr UInt64.le_iff_toNat_le
  have ends : (fun m : Module => decide (pc < m.end_)) =
      fun m => decide (pc.toNat < m.range.2) := by
    funext m
    exact decide_eq_decide.mpr UInt64.lt_iff_toNat_lt
  unfold findModule lastStarting
  rewrite [starts, ends]
  rfl

theorem covers_eq_isSome (c : FdeCoverage) (svma : Nat) :
    c.covers svma = (lastStarting id c.ranges svma).isSome := by
  unfold FdeCoverage.covers lastStarting
  dsimp only [id_eq]
  cases partitionPoint (fun r : Nat × Nat => decide (r.1 ≤ svma)) c.ranges with
  | zero => rfl
  | succ j => exact Option.isSome_filter.symm

theorem loadModules_sorted (view : TargetView) :
    StartSorted Module.range (loadModules view).1 := by
  have trans : IsTrans Module fun m n => m.base ≤ n.base :=
    ⟨fun _ _ _ => UInt64.le_trans⟩
  have total : Std.Total fun m n : Module => m.base ≤ n.base :=
    ⟨fun m n => UInt64.le_total m.base n.base⟩
  have sorted := List.pairwise_insertionSort
    (fun m n : Module => m.base ≤ n.base) view.images
  exact sorted.imp fun le => UInt64.le_iff_toNat_le.mp le

theorem fromObject_sorted (entries : Option (List CieOrFde)) :
    StartSorted id (FdeCoverage.fromObject entries).ranges := by
  have trans : IsTrans _ FdeCoverage.StartsFirst :=
    ⟨fun _ _ _ => Nat.le_trans⟩
  have total : Std.Total FdeCoverage.StartsFirst :=
    ⟨fun _ _ => Nat.le_total _ _⟩
  exact List.pairwise_insertionSort FdeCoverage.StartsFirst _

theorem findsModules_iff {mods : List Module}
    (sorted : StartSorted Module.range mods) :
    FindsModules mods ↔ Unshadowed Module.range mods := by
  have ends : ∀ m ∈ mods, m.range.2 ≤ 2 ^ 64 :=
    fun m _ => Nat.le_of_lt m.end_.toNat_lt
  rw [← finds_iff_unshadowed sorted ends]
  constructor
  · intro exact' addr below inside
    have word : (UInt64.ofNat addr).toNat = addr :=
      UInt64.toNat_ofNat_of_lt' below
    obtain ⟨m, member, holds⟩ := inside
    rw [← word] at holds ⊢
    obtain ⟨last, -, found, -⟩ := exact'.finds (UInt64.ofNat addr)
      ⟨m, member, holds_iff.mpr holds⟩
    rw [findModule_eq_lastStarting] at found
    exact ⟨last, found⟩
  · intro finds
    refine ⟨?_, ?_⟩
    · intro pc ⟨m, member, holds⟩
      obtain ⟨last, found⟩ := finds pc.toNat pc.toNat_lt
        ⟨m, member, holds_iff.mp holds⟩
      obtain ⟨member', inside⟩ := lastStarting_sound found
      rw [← findModule_eq_lastStarting] at found
      exact ⟨last, member', found, holds_iff.mpr inside⟩
    · intro pc none
      rw [findModule_eq_lastStarting]
      cases found : lastStarting Module.range mods pc.toNat with
      | none => rfl
      | some last =>
          obtain ⟨member, inside⟩ := lastStarting_sound found
          exact absurd (holds_iff.mpr inside) (none last member)

theorem entryRange_le {entry : CieOrFde} {r : Nat × Nat}
    (parsed : FdeCoverage.entryRange entry = some r) : r.2 ≤ 2 ^ 64 := by
  unfold FdeCoverage.entryRange at parsed
  split at parsed
  · cases parsed
    exact Nat.le_trans (Nat.min_le_right _ _) (Nat.sub_le _ _)
  · cases parsed

theorem coverage_exact_iff (entries : Option (List CieOrFde)) :
    (FdeCoverage.fromObject entries).Exact ↔
      Unshadowed id (FdeCoverage.fromObject entries).ranges := by
  have ends : ∀ r ∈ (FdeCoverage.fromObject entries).ranges,
      (id r).2 ≤ 2 ^ 64 := by
    intro r member
    obtain ⟨entry, _, parsed⟩ := List.mem_filterMap.mp
      ((List.mem_insertionSort _).mp member)
    exact entryRange_le parsed
  rw [← finds_iff_unshadowed (fromObject_sorted entries) ends]
  constructor
  · intro exact' addr _ inside
    apply Option.isSome_iff_exists.mp
    rw [← covers_eq_isSome]
    exact (exact' addr).mpr inside
  · intro finds svma
    rw [covers_eq_isSome]
    constructor
    · intro covered
      obtain ⟨r, found⟩ := Option.isSome_iff_exists.mp covered
      exact ⟨r, lastStarting_sound found⟩
    · rintro ⟨r, member, inside⟩
      apply Option.isSome_iff_exists.mpr
      exact finds svma (Nat.lt_of_lt_of_le inside.2 (ends r member))
        ⟨r, member, inside⟩

theorem lookupsAgree_of_inOrder {mods : List Module}
    (sorted : StartSorted Module.range mods)
    (inOrder : InOrder Module.range mods) : LookupsAgree mods := by
  have found : ∀ pc m, findModule mods pc = some m ↔ m ∈ mods ∧ m.Holds pc := by
    intro pc m
    rw [findModule_eq_lastStarting, lastStarting_eq_some_iff sorted inOrder,
      holds_iff]
  refine ⟨?_, ?_, found⟩
  · intro pc
    ext m
    rw [findRange_eq_some_iff sorted inOrder, found, holds_iff]
  · intro pc
    rw [covers_eq_isSome, lastStarting_map, Option.isSome_map,
      findModule_eq_lastStarting]
    rfl

theorem lookupsAgree_iff {mods : List Module}
    (sorted : StartSorted Module.range mods)
    (apart : Apart Module.range mods) :
    LookupsAgree mods ↔ Unshadowed Module.range mods := by
  constructor
  · intro agree
    apply (findsModules_iff sorted).mp
    refine ⟨?_, ?_⟩
    · rintro pc ⟨m, member, holds⟩
      exact ⟨m, member, (agree.found pc m).mpr ⟨member, holds⟩, holds⟩
    · intro pc none
      cases found : findModule mods pc with
      | none => rfl
      | some m =>
          obtain ⟨member, holds⟩ := (agree.found pc m).mp found
          exact absurd holds (none m member)
  · intro unshadowed
    exact lookupsAgree_of_inOrder sorted (apart.inOrder sorted unshadowed)

/-- On ranges that are apart the three lookups agree, and on a table of modules
or of unwind ranges the lookup by the last start is exact, when no range is
shadowed by a later one, and only then. -/
theorem lookups_exact_iff (mods : List Module) (view : TargetView)
    (entries : Option (List CieOrFde)) :
    (StartSorted Module.range mods → Apart Module.range mods →
      (LookupsAgree mods ↔ Unshadowed Module.range mods) ∧
        ((∀ m ∈ mods, m.base < m.end_) → LookupsAgree mods)) ∧
      (FindsModules (loadModules view).1 ↔
        Unshadowed Module.range (loadModules view).1) ∧
      ((FdeCoverage.fromObject entries).Exact ↔
        Unshadowed id (FdeCoverage.fromObject entries).ranges) := by
  refine ⟨?_, findsModules_iff (loadModules_sorted view),
    coverage_exact_iff entries⟩
  intro sorted apart
  refine ⟨lookupsAgree_iff sorted apart, ?_⟩
  intro nonempty
  apply lookupsAgree_of_inOrder sorted
  apply apart.inOrder_of_nonempty sorted
  intro m member
  exact UInt64.lt_iff_toNat_lt.mp (nonempty m member)

def apartModules : List Module :=
  [⟨0x10000, 0x14000, [0x61], []⟩, ⟨0x14000, 0x15000, [0x62], []⟩,
    ⟨0x18000, 0x19000, [0x63], []⟩]

def emptyInside : List Module :=
  [⟨0x10000, 0x14000, [0x61], []⟩, ⟨0x12000, 0x12000, [0x62], []⟩]

theorem apartModules_apart : Apart Module.range apartModules := by
  simp only [Apart, apartModules, List.pairwise_cons, List.forall_mem_cons,
    Contains, Module.range]
  simp
  refine ⟨⟨?_, ?_⟩, ?_⟩ <;> omega

theorem emptyInside_apart : Apart Module.range emptyInside := by
  simp only [Apart, emptyInside, List.pairwise_cons, List.forall_mem_cons,
    Contains, Module.range]
  simp

theorem lookups_exact_iff_apart :
    LookupsAgree apartModules ∧ ¬LookupsAgree emptyInside := by
  constructor
  · have apart := lookups_exact_iff apartModules ⟨[], [], fun _ => .untried,
      ⟨fun _ => none⟩, fun _ _ => none⟩ none
    exact (apart.1 (by unfold StartSorted; decide) apartModules_apart).2
      (by decide)
  · have inside := lookups_exact_iff emptyInside ⟨[], [], fun _ => .untried,
      ⟨fun _ => none⟩, fun _ _ => none⟩ none
    rw [(inside.1 (by unfold StartSorted; decide) emptyInside_apart).1]
    intro unshadowed
    obtain reaches | ⟨next, found, -⟩ := unshadowed 0 1 _ _ (by decide) rfl rfl
    · exact absurd reaches (by decide)
    · cases found

/-- An image header with one load command of 72 bytes. -/
def nestedHeader : List UInt8 :=
  leBytes 4 mhMagic64 ++ List.replicate 12 0 ++ leBytes 4 1 ++
    leBytes 4 72 ++ List.replicate 8 0

def nestedText (vmsize : Nat) : List UInt8 :=
  leBytes 4 lcSegment64 ++ leBytes 4 72 ++ Samples.bytes "__TEXT" ++
    List.replicate 18 0 ++ leBytes 8 vmsize ++ List.replicate 32 0

def nestedMemory (addr : UInt64) (_ : Nat) : Option (List UInt8) :=
  if addr = 0x10000 ∨ addr = 0x14000 then some nestedHeader
  else if addr = 0x10020 then some (nestedText 0x8000)
  else if addr = 0x14020 then some (nestedText 0x1000)
  else none

def nestedFiles : ImageFiles where
  metadata _ := none
  pathHash _ := 0
  opened _ := none

def nestedModules : List Module :=
  (readImages nestedMemory Retain.smallDevices nestedFiles
    (Retain.ModuleRegistry.new .none 1)
    (some [(0x10000, [0x61]), (0x14000, [0x62])])).1.1

def nestedView : TargetView where
  images := nestedModules
  mainExe := [0x61]
  armPython _ := .untried
  mem := { byteAt := fun _ => none }
  jitName _ _ := none

def nestedEntries : List CieOrFde :=
  [.cie, .fde (some (0x1000, 0x100)), .fde (some (0x1040, 0x10))]

/-- A module and an unwind range are missed after the end of one inside. -/
theorem not_lookups_exact :
    ¬FindsModules (loadModules nestedView).1 ∧
      ¬(FdeCoverage.fromObject (some nestedEntries)).Exact := by
  constructor
  · intro exact'
    have holds : ∃ m ∈ (loadModules nestedView).1, m.Holds 0x16000 := by
      decide +kernel
    obtain ⟨m, -, found, -⟩ := exact'.finds 0x16000 holds
    have missed : findModule (loadModules nestedView).1 0x16000 = none := by
      decide +kernel
    rw [missed] at found
    cases found
  · intro exact'
    have covered := (exact' 0x1080).mpr
      ⟨(0x1000, 0x1100), by decide, by decide, by decide⟩
    have missed : (FdeCoverage.fromObject (some nestedEntries)).covers 0x1080 =
        false := by decide
    rw [missed] at covered
    cases covered

end Sismo.Kdebug
