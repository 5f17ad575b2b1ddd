import Sismo.Kdebug.RingHost

namespace Sismo.Kdebug.RingHost

/-! The host's worker sleeps only when there is nothing to do, and leaves when
it is told to. -/

/-- The first `count` control blocks meet the condition. -/
def Below (ctls : List ConsumerCtl) (count : Nat) (P : ConsumerCtl → Prop) :
    Prop :=
  ∀ i ctl, i < count → ctls[i]? = some ctl → P ctl

theorem Below.modify {ctls : List ConsumerCtl} {count source : Nat}
    {P : ConsumerCtl → Prop} {f : ConsumerCtl → ConsumerCtl}
    (below : Below ctls count P) (keeps : ∀ ctl, P ctl → P (f ctl)) :
    Below (ctls.modify source f) count P := by
  intro i ctl lt found
  rw [List.getElem?_modify, Option.map_eq_map,
    Option.map_eq_some_iff] at found
  obtain ⟨before, found, rfl⟩ := found
  have holds := below i before lt found
  split
  · exact keeps before holds
  · exact holds

theorem Below.succ {ctls : List ConsumerCtl} {count : Nat}
    {P : ConsumerCtl → Prop} (below : Below ctls count P)
    (next : ∀ ctl, ctls[count]? = some ctl → P ctl) :
    Below ctls (count + 1) P := by
  intro i ctl lt found
  rcases Nat.lt_succ_iff_lt_or_eq.mp lt with lt | rfl
  · exact below i ctl lt found
  · exact next ctl found

theorem Below.all {ctls : List ConsumerCtl} {count : Nat}
    {P : ConsumerCtl → Prop} (below : Below ctls count P)
    (ended : ctls[count]? = none) (any : Nat) : Below ctls any P := by
  intro i ctl _ found
  refine below i ctl ?_ found
  have stop := List.getElem?_eq_none_iff.mp ended
  have lt := (List.getElem?_eq_some_iff.mp found).1
  omega

def NoStop (ctl : ConsumerCtl) : Prop :=
  ctl.pendingStopper = 0

def NotRunning (ctl : ConsumerCtl) : Prop :=
  ctl.running = false

/-- The worker has read that it is not to leave, and has taken the stops of
the first `count` sources. -/
structure Taken (leaving : Bool) (ctls : List ConsumerCtl) (count : Nat) :
    Prop where
  stay : leaving = false
  stops : Below ctls count NoStop

theorem Taken.none {leaving : Bool} {ctls : List ConsumerCtl}
    (stay : leaving = false) : Taken leaving ctls 0 :=
  ⟨stay, fun _ _ lt => absurd lt (Nat.not_lt_zero _)⟩

theorem Taken.all {leaving : Bool} {ctls : List ConsumerCtl} {count : Nat}
    (taken : Taken leaving ctls count) (ended : ctls[count]? = .none)
    (any : Nat) : Taken leaving ctls any :=
  ⟨taken.stay, taken.stops.all ended any⟩

theorem Taken.modify {leaving : Bool} {ctls : List ConsumerCtl}
    {source count : Nat} {f : ConsumerCtl → ConsumerCtl}
    (taken : Taken leaving ctls count)
    (keeps : ∀ ctl, NoStop ctl → NoStop (f ctl)) :
    Taken leaving (ctls.modify source f) count :=
  ⟨taken.stay, taken.stops.modify keeps⟩

theorem Taken.swap {leaving : Bool} {ctls : List ConsumerCtl} {source : Nat}
    (taken : Taken leaving ctls source) :
    Taken leaving (ctls.modify source fun ctl => ctl.swap) (source + 1) := by
  refine ⟨taken.stay, (taken.stops.modify fun ctl _ => ?_).succ ?_⟩
  · exact (rfl : ctl.swap.pendingStopper = 0)
  · intro ctl found
    rw [List.getElem?_modify_eq, Option.map_eq_map,
      Option.map_eq_some_iff] at found
    obtain ⟨before, _, rfl⟩ := found
    exact (rfl : before.swap.pendingStopper = 0)

theorem noStop_onDrain {batch : Nat × Nat} (ctl : ConsumerCtl)
    (none : NoStop ctl) : NoStop (ctl.onDrain batch) := by
  unfold ConsumerCtl.onDrain
  split
  · exact none
  · exact none

def Knows (leaving : Bool) (ctls : List ConsumerCtl) : Drain → Prop
  | .interval => Taken leaving ctls 0
  | .final _ => ∀ count, Taken leaving ctls count

theorem Knows.modify {leaving : Bool} {ctls : List ConsumerCtl}
    {drain : Drain} {source : Nat} {f : ConsumerCtl → ConsumerCtl}
    (knows : Knows leaving ctls drain)
    (keeps : ∀ ctl, NoStop ctl → NoStop (f ctl)) :
    Knows leaving (ctls.modify source f) drain := by
  cases drain with
  | interval => exact Taken.modify knows keeps
  | final => exact fun count => (knows count).modify keeps

/-- What the worker knows at each place as long as nothing is stored. -/
def Sees (s : State) : Prop :=
  match s.place with
  | .setupAgainCount => Taken s.exitRequested s.ctls 0
  | .setupWait =>
      Taken s.exitRequested s.ctls 0 ∧ s.setupsReceived < s.setupsNeeded
  | .scan .drain _ => Taken s.exitRequested s.ctls 0
  | .scan .rest source =>
      (∀ count, Taken s.exitRequested s.ctls count) ∧
        Below s.ctls source NotRunning
  | .reading drain => Knows s.exitRequested s.ctls drain
  | .feeding drain _ _ => Knows s.exitRequested s.ctls drain
  | .collecting source _ => Taken s.exitRequested s.ctls source
  | .acking _ => ∀ count, Taken s.exitRequested s.ctls count
  | .clearing _ _ => ∀ count, Taken s.exitRequested s.ctls count
  | .lastExit => ∀ count, Taken s.exitRequested s.ctls count
  | .waiting timed =>
      (∀ count, Taken s.exitRequested s.ctls count) ∧
        (timed = false → ∀ count, Below s.ctls count NotRunning)
  | _ => True

theorem sees_afterDrain {s : State} {drain : Drain}
    (knows : Knows s.exitRequested s.ctls drain) :
    Sees { s with place := afterDrain drain } := by
  cases drain with
  | interval => exact knows
  | final => exact knows

theorem sees_afterCollect {s : State} {stoppers : List Stopper}
    (taken : ∀ count, Taken s.exitRequested s.ctls count) :
    Sees { s with place := afterCollect stoppers } := by
  cases stoppers with
  | nil => exact taken
  | cons => exact taken

theorem sees_scan {s next : State} {use : Use} {source : Nat}
    {outcome : Outcome} (place : s.place = .scan use source)
    (sees : Sees s) (worked : work s outcome = some next) : Sees next := by
  simp only [work, place] at worked
  simp only [Sees, place] at sees
  split at worked
  · next ended =>
      cases worked
      cases use with
      | drain => exact sees
      | rest => exact ⟨sees.1, fun _ count => sees.2.all ended count⟩
  · next ctl found =>
      split at worked
      · cases worked
        cases use with
        | drain => exact sees
        | rest => exact ⟨sees.1, fun never => by simp at never⟩
      · next idle =>
          cases worked
          cases use with
          | drain => exact sees
          | rest =>
              refine ⟨sees.1, sees.2.succ fun other same => ?_⟩
              cases found.symm.trans same
              simpa [NotRunning] using idle

theorem sees_work {s next : State} {outcome : Outcome}
    (plain : footing s ≠ .reset) (sees : Sees s)
    (worked : work s outcome = some next) : Sees next := by
  cases place : s.place with
  | setupReset => exact absurd (by simp only [footing, place]) plain
  | loopReset => exact absurd (by simp only [footing, place]) plain
  | scan use source => exact sees_scan place sees worked
  | setupWhile =>
      simp only [work, place] at worked
      split at worked <;> cases worked <;> trivial
  | setupCount =>
      simp only [work, place] at worked
      split at worked <;> cases worked <;> trivial
  | setupAgain =>
      simp only [work, place] at worked
      split at worked
      · cases worked
        trivial
      · next stay =>
          cases worked
          exact Taken.none (by simpa using stay)
  | setupAgainCount =>
      simp only [work, place] at worked
      simp only [Sees, place] at sees
      split at worked
      · cases worked
        trivial
      · next few =>
          cases worked
          exact ⟨sees, Nat.lt_of_not_le few⟩
  | setupWait =>
      simp only [work, place] at worked
      cases worked
      trivial
  | setupEnd =>
      simp only [work, place] at worked
      split at worked <;> cases worked <;> trivial
  | opening =>
      simp only [work, place] at worked
      split at worked <;> cases worked <;> trivial
  | checkExit =>
      simp only [work, place] at worked
      split at worked
      · cases worked
        trivial
      · next stay =>
          cases worked
          exact Taken.none (by simpa using stay)
  | reading drain =>
      simp only [work, place] at worked
      simp only [Sees, place] at sees
      split at worked <;> cases worked <;> exact sees
  | feeding drain batch source =>
      simp only [work, place] at worked
      simp only [Sees, place] at sees
      split at worked
      · cases worked
        exact Knows.modify sees noStop_onDrain
      · cases worked
        exact sees_afterDrain sees
  | collecting source stoppers =>
      simp only [work, place] at worked
      simp only [Sees, place] at sees
      split at worked
      · next ended =>
          cases worked
          exact sees_afterCollect (sees.all ended)
      · cases worked
        exact Taken.swap sees
  | acking stoppers =>
      simp only [Sees, place] at sees
      cases stoppers with
      | nil =>
          simp only [work, place] at worked
          cases worked
          exact sees
      | cons stopper rest =>
          simp only [work, place] at worked
          cases worked
          exact sees
  | clearing source rest =>
      simp only [work, place] at worked
      simp only [Sees, place] at sees
      cases worked
      exact fun count => (sees count).modify fun _ none => none
  | lastExit =>
      simp only [work, place] at worked
      simp only [Sees, place] at sees
      split at worked
      · cases worked
        trivial
      · cases worked
        exact ⟨sees, fun _ _ lt => absurd lt (Nat.not_lt_zero _)⟩
  | waiting timed =>
      simp only [work, place] at worked
      cases worked
      trivial
  | exited =>
      simp only [work, place] at worked
      simp at worked

theorem sees_reset {s next : State} {outcome : Outcome}
    (reset : footing s = .reset) (worked : work s outcome = some next) :
    Sees next := by
  unfold footing at reset
  split at reset
  case h_1 place =>
    simp only [work, place] at worked
    cases worked
    trivial
  case h_2 place =>
    simp only [work, place] at worked
    cases worked
    trivial
  all_goals simp at reset

/-- There is nothing for the worker to do but wait. -/
structure Idle (s : State) : Prop where
  stay : s.exitRequested = false
  setups : s.place = .setupWait → s.setupsReceived < s.setupsNeeded
  sources : s.place ≠ .setupWait → ∀ ctl ∈ s.ctls,
    ctl.running = false ∧ ctl.pendingStopper = 0

theorem idle_of_sees {s : State} (asleep : footing s = .wait false)
    (sees : Sees s) : Idle s := by
  unfold footing at asleep
  unfold Sees at sees
  split at asleep
  case h_3 place =>
    rw [place] at sees
    exact ⟨sees.1.stay, fun _ => sees.2, fun other => absurd place other⟩
  case h_4 timed place =>
    rw [place] at sees
    cases asleep
    refine ⟨(sees.1 0).stay, fun same => ?_, fun _ ctl member => ?_⟩
    · rw [place] at same
      simp at same
    · obtain ⟨i, lt, rfl⟩ := List.getElem_of_mem member
      have found := List.getElem?_eq_getElem lt
      exact ⟨sees.2 rfl (i + 1) i _ (Nat.lt_succ_self i) found,
        (sees.1 (i + 1)).stops i _ (Nat.lt_succ_self i) found⟩
  all_goals simp at asleep

theorem watches (room : Nat) :
    (program room).Watches (fun _ => True) Sees Idle where
  reset := fun _ _ reset worked => sees_reset reset worked
  work := fun _ _ plain sees worked => sees_work plain sees worked
  disturb := fun _ sees disturbed => by
    obtain ⟨ring, -, rfl⟩ := Option.map_eq_some_iff.mp disturbed
    exact sees
  quiet := fun asleep sees => idle_of_sees asleep sees

theorem keeps_true (room : Nat) : (program room).Keeps fun _ => True :=
  ⟨fun _ _ _ => trivial, fun _ _ _ => trivial, fun _ _ _ => trivial⟩

theorem sees_initial (hosted : List Bool) :
    Sees (initial hosted).memory :=
  trivial

theorem idle_asleep {room : Nat} {hosted : List Bool}
    {s : Served State Request} (reached : Reachable room hosted s)
    (asleep : footing s.memory = .wait false)
    (clear : s.bell.signaled = false) (settled : s.bell.setting = []) :
    Idle s.memory :=
  (watches room).quiet_asleep (keeps_true room) rfl trivial
    (sees_initial hosted) reached asleep clear settled

/-- There is what the worker's wait is for: in the wait for the sources' setups,
all of them, and in the one between drains, a source that runs or a stopper;
in both, the request to leave. -/
def HasWork (s : State) : Prop :=
  match s.place with
  | .setupWait =>
      s.exitRequested = true ∨ s.setupsNeeded ≤ s.setupsReceived
  | .waiting false =>
      s.exitRequested = true ∨
        ∃ ctl ∈ s.ctls, ctl.running = true ∨ ctl.pendingStopper ≠ 0
  | _ => False

theorem HasWork.asleep {s : State} (work : HasWork s) :
    footing s = .wait false := by
  unfold HasWork at work
  unfold footing
  split at work
  · next place => rw [place]
  · next place => rw [place]
  · exact work.elim

theorem HasWork.not_idle {s : State} (work : HasWork s) : ¬Idle s := by
  intro idle
  unfold HasWork at work
  split at work
  · next place =>
      rcases work with exit | all
      · cases idle.stay.symm.trans exit
      · exact absurd (idle.setups place) (Nat.not_lt.mpr all)
  · next place =>
      have other : s.place ≠ .setupWait := by simp [place]
      rcases work with exit | ⟨ctl, member, running | stopper⟩
      · cases idle.stay.symm.trans exit
      · cases (idle.sources other ctl member).1.symm.trans running
      · exact stopper (idle.sources other ctl member).2
  · exact work

/-- No wakeup is lost: where the worker sleeps without a time limit and there
is what it waits for, its event is set or a callback is about to set it. -/
theorem no_lost_wakeup {room : Nat} {hosted : List Bool}
    {s : Served State Request} (reached : Reachable room hosted s)
    (work : HasWork s.memory) :
    s.bell.signaled = true ∨ s.bell.setting ≠ [] := by
  by_contra unheard
  rw [not_or, not_not, Bool.not_eq_true] at unheard
  exact work.not_idle
    (idle_asleep reached work.asleep unheard.1 unheard.2)

def sleepRun : List (Act Request Nat Outcome) :=
  [.store .setup, .set .setup] ++ List.replicate 13 (.worker .done)

def sleeping : Served State Request where
  memory :=
    { setupsNeeded := 1
      setupsReceived := 1
      ctls := [{ hosted := true }]
      place := .waiting false }

def stopping : Served State Request where
  memory :=
    { sleeping.memory with
      ctls := [{ hosted := true, pendingStopper := 7 }]
      issued := [7]
      live := [7] }
  bell := { setting := [.stop 0 7], stored := [.stop 0 7] }

theorem reachable_stopping : Reachable 4 [true] stopping :=
  ⟨sleepRun ++ [.store (.stop 0 7)], rfl⟩

/-- The one setup comes in while the worker waits for it. -/
def settingUp : Served State Request where
  memory :=
    { setupsNeeded := 1
      setupsReceived := 1
      ctls := [{ hosted := true }]
      place := .setupWait }
  bell := { setting := [.setup], stored := [.setup] }

theorem reachable_settingUp : Reachable 4 [true] settingUp :=
  ⟨List.replicate 5 (.worker .done) ++ [.store .setup], rfl⟩

theorem no_lost_wakeup_stopping :
    (stopping.bell.signaled = true ∨ stopping.bell.setting ≠ []) ∧
      (settingUp.bell.signaled = true ∨ settingUp.bell.setting ≠ []) :=
  ⟨no_lost_wakeup reachable_stopping
      (.inr ⟨_, List.mem_singleton_self _, .inr (by decide)⟩),
    no_lost_wakeup reachable_settingUp (.inr (Nat.le_refl 1))⟩

/-- A bound on the worker's steps from a place on, when it is to leave. -/
def rankAt (sources : Nat) : Place → Nat
  | .setupWhile => 2
  | .setupCount => 4
  | .setupReset => 3
  | .setupAgain => 2
  | .setupAgainCount => 4
  | .setupWait => 3
  | .setupEnd => 1
  | .opening => 3
  | .loopReset => 2
  | .checkExit => 1
  | .scan .drain source => 8 + 5 * sources + (sources - source)
  | .scan .rest source => 4 + (sources - source)
  | .reading .interval => 7 + 5 * sources
  | .reading (.final stoppers) => 4 + 2 * stoppers.length + sources
  | .feeding .interval _ source => 6 + 4 * sources + (sources - source)
  | .feeding (.final stoppers) _ source =>
      3 + 2 * stoppers.length + (sources - source)
  | .collecting source stoppers =>
      5 + sources + 2 * stoppers.length + 3 * (sources - source)
  | .acking stoppers => 2 + 2 * stoppers.length
  | .clearing _ rest => 3 + 2 * rest.length
  | .lastExit => 1
  | .waiting _ => 3
  | .exited => 0

def rank (s : State) : Nat :=
  rankAt s.ctls.length s.place

theorem rankAt_afterScan (sources : Nat) (running : Bool) (use : Use)
    (source : Nat) :
    rankAt sources (afterScan running use) <
      rankAt sources (.scan use source) := by
  cases use with
  | drain =>
      cases running with
      | false =>
          simp only [afterScan, rankAt, Bool.false_eq_true, if_false,
            List.length_nil]
          omega
      | true =>
          simp only [afterScan, rankAt, if_true]
          omega
  | rest =>
      simp only [afterScan, rankAt]
      omega

theorem rankAt_afterDrain (sources : Nat) (drain : Drain) (batch : Nat × Nat)
    (source : Nat) :
    rankAt sources (afterDrain drain) <
      rankAt sources (.feeding drain batch source) := by
  cases drain with
  | interval =>
      simp only [afterDrain, rankAt, List.length_nil]
      omega
  | final =>
      simp only [afterDrain, rankAt]
      omega

theorem rankAt_afterCollect (sources source : Nat) (stoppers : List Stopper) :
    rankAt sources (afterCollect stoppers) <
      rankAt sources (.collecting source stoppers) := by
  cases stoppers with
  | nil =>
      simp only [afterCollect, rankAt]
      omega
  | cons =>
      simp only [afterCollect, rankAt]
      omega

theorem length_work {s next : State} {outcome : Outcome}
    (worked : work s outcome = some next) :
    next.ctls.length = s.ctls.length ∧
      next.exitRequested = s.exitRequested := by
  unfold work at worked
  split at worked
  all_goals (repeat' split at worked) <;> cases worked <;> simp

theorem rank_work {s next : State} {outcome : Outcome}
    (exit : s.exitRequested = true)
    (worked : work s outcome = some next) : rank next < rank s := by
  rw [rank, rank, (length_work worked).1]
  cases place : s.place with
  | setupWhile | setupAgain | setupEnd | checkExit | lastExit =>
      simp only [work, place, exit, if_true] at worked
      cases worked
      simp [rankAt]
  | setupCount | setupAgainCount | opening =>
      simp only [work, place] at worked
      split at worked <;> cases worked <;> simp [rankAt]
  | setupReset | setupWait | loopReset | waiting | clearing =>
      simp only [work, place] at worked
      cases worked
      simp [rankAt]
  | scan use source =>
      simp only [work, place] at worked
      split at worked
      · cases worked
        exact rankAt_afterScan _ false use source
      · next ctl found =>
          have lt := (List.getElem?_eq_some_iff.mp found).1
          split at worked
          · cases worked
            exact rankAt_afterScan _ true use source
          · cases worked
            cases use <;> simp only [rankAt] <;> omega
  | reading drain =>
      simp only [work, place] at worked
      cases drain <;> split at worked <;> cases worked <;>
        simp only [rankAt] <;> omega
  | feeding drain batch source =>
      simp only [work, place] at worked
      split at worked
      · cases worked
        cases drain <;> simp only [rankAt] <;> omega
      · cases worked
        exact rankAt_afterDrain _ drain batch source
  | collecting source stoppers =>
      simp only [work, place] at worked
      split at worked
      · cases worked
        exact rankAt_afterCollect _ source stoppers
      · next ctl found =>
          have lt := (List.getElem?_eq_some_iff.mp found).1
          cases worked
          simp only [rankAt]
          split
          · omega
          · rw [List.length_append, List.length_singleton]
            omega
  | acking stoppers =>
      cases stoppers with
      | nil =>
          simp only [work, place] at worked
          cases worked
          simp [rankAt]
      | cons stopper rest =>
          simp only [work, place] at worked
          cases worked
          simp only [rankAt, List.length_cons]
          omega
  | exited =>
      simp only [work, place] at worked
      simp at worked

def held : Place → List Stopper
  | .reading (.final stoppers) => stoppers
  | .feeding (.final stoppers) _ _ => stoppers
  | .collecting _ stoppers => stoppers
  | .acking stoppers => stoppers
  | .clearing _ rest => rest
  | _ => []

theorem held_afterScan (running : Bool) (use : Use) :
    held (afterScan running use) = [] := by
  cases use with
  | drain => cases running <;> rfl
  | rest => rfl

theorem held_afterDrain (drain : Drain) (batch : Nat × Nat) (source : Nat) :
    held (afterDrain drain) = held (.feeding drain batch source) := by
  cases drain with
  | interval => rfl
  | final => rfl

theorem held_reading (drain : Drain) (batch : Nat × Nat) (source : Nat) :
    held (.feeding drain batch source) = held (.reading drain) := by
  cases drain with
  | interval => rfl
  | final => rfl

theorem held_afterCollect (stoppers : List Stopper) :
    held (afterCollect stoppers) = stoppers := by
  cases stoppers with
  | nil => rfl
  | cons => rfl

structure HeldFew (sources : Nat) (place : Place) : Prop where
  length : (held place).length ≤ sources
  before : ∀ source stoppers, place = .collecting source stoppers →
    stoppers.length ≤ source

theorem HeldFew.of_nil {sources : Nat} {place : Place}
    (none : held place = []) : HeldFew sources place := by
  refine ⟨?_, ?_⟩
  · rw [none]
    exact Nat.zero_le sources
  · rintro source stoppers rfl
    rw [show stoppers = [] from none]
    exact Nat.zero_le source

theorem HeldFew.of_le {sources : Nat} {before after : Place}
    (few : HeldFew sources before)
    (fewer : (held after).length ≤ (held before).length)
    (other : ∀ source stoppers, after ≠ .collecting source stoppers) :
    HeldFew sources after :=
  ⟨Nat.le_trans fewer few.length,
    fun source stoppers same => absurd same (other source stoppers)⟩

theorem heldFew_work {s next : State} {outcome : Outcome}
    (few : HeldFew s.ctls.length s.place)
    (worked : work s outcome = some next) :
    HeldFew next.ctls.length next.place := by
  rw [(length_work worked).1]
  cases place : s.place with
  | scan use source =>
      simp only [work, place] at worked
      split at worked
      · cases worked
        exact .of_nil (held_afterScan false use)
      · split at worked
        · cases worked
          exact .of_nil (held_afterScan true use)
        · cases worked
          exact .of_nil rfl
  | reading drain =>
      rw [place] at few
      simp only [work, place] at worked
      split at worked <;> cases worked <;>
        exact few.of_le (Nat.le_of_eq
          (congrArg List.length (held_reading drain _ 0))) (by simp)
  | feeding drain batch source =>
      rw [place] at few
      simp only [work, place] at worked
      split at worked
      · cases worked
        exact few.of_le (Nat.le_of_eq (congrArg List.length
          ((held_reading drain batch _).trans
            (held_reading drain batch source).symm))) (by simp)
      · cases worked
        cases drain with
        | interval => exact .of_nil rfl
        | final => exact few.of_le (Nat.le_refl _) (by simp [afterDrain])
  | collecting source stoppers =>
      rw [place] at few
      simp only [work, place] at worked
      split at worked
      · cases worked
        cases stoppers with
        | nil => exact .of_nil rfl
        | cons => exact few.of_le (Nat.le_refl _) (by simp [afterCollect])
      · next ctl found =>
          have lt := (List.getElem?_eq_some_iff.mp found).1
          have before := few.before source stoppers rfl
          cases worked
          split
          · refine ⟨few.length, ?_⟩
            rintro _ _ ⟨rfl, rfl⟩
            exact Nat.le_succ_of_le before
          · refine ⟨?_, ?_⟩
            · simp only [held, List.length_append, List.length_singleton]
              omega
            · rintro _ _ ⟨rfl, rfl⟩
              simp only [List.length_append, List.length_singleton]
              omega
  | acking stoppers =>
      rw [place] at few
      cases stoppers with
      | nil =>
          simp only [work, place] at worked
          cases worked
          exact .of_nil rfl
      | cons stopper rest =>
          simp only [work, place] at worked
          cases worked
          exact few.of_le (Nat.le_succ _) (by simp)
  | clearing source rest =>
      rw [place] at few
      simp only [work, place] at worked
      cases worked
      exact few.of_le (Nat.le_refl _) (by simp)
  | _ =>
      simp only [work, place] at worked
      (repeat' split at worked) <;> cases worked <;> exact .of_nil rfl

theorem rank_le {s : State} (few : HeldFew s.ctls.length s.place) :
    rank s ≤ 6 * s.ctls.length + 8 := by
  have length := few.length
  rw [rank]
  cases place : s.place with
  | scan use source => cases use <;> simp only [rankAt] <;> omega
  | reading drain =>
      rw [place] at length
      cases drain <;> simp only [rankAt, held] at length ⊢ <;> omega
  | feeding drain batch source =>
      rw [place] at length
      cases drain <;> simp only [rankAt, held] at length ⊢ <;> omega
  | collecting source stoppers =>
      rw [place] at length
      have before := few.before source stoppers place
      simp only [rankAt, held] at length ⊢
      omega
  | acking stoppers | clearing source stoppers =>
      rw [place] at length
      simp only [rankAt, held] at length ⊢
      omega
  | _ =>
      simp only [rankAt]
      omega

theorem apply_exit {s next : State} {request : Request}
    (applied : apply s request = some next) :
    next.ctls.length = s.ctls.length ∧ next.place = s.place ∧
      (s.exitRequested = true → next.exitRequested = true) := by
  unfold apply at applied
  split at applied
  all_goals (repeat' split at applied) <;> cases applied <;> simp

theorem leaves (room : Nat) :
    (program room).Leaves (fun s => s.exitRequested = true) rank where
  apply := fun request exit applied => by
    obtain ⟨length, place, kept⟩ := apply_exit applied
    exact ⟨kept exit, Nat.le_of_eq (by rw [rank, rank, length, place])⟩
  disturb := fun _ exit disturbed => by
    obtain ⟨ring, -, rfl⟩ := Option.map_eq_some_iff.mp disturbed
    exact ⟨exit, Nat.le_refl _⟩
  work := fun _ exit worked =>
    ⟨(length_work worked).2.trans exit, rank_work exit worked⟩

theorem keeps_heldFew (room sources : Nat) :
    (program room).Keeps fun s =>
      s.ctls.length = sources ∧ HeldFew s.ctls.length s.place where
  apply := fun request both applied => by
    obtain ⟨length, place, _⟩ := apply_exit applied
    rw [length, place]
    exact both
  disturb := fun _ both disturbed => by
    obtain ⟨ring, -, rfl⟩ := Option.map_eq_some_iff.mp disturbed
    exact both
  work := fun _ both worked =>
    ⟨(length_work worked).1.trans both.1, heldFew_work both.2 worked⟩

theorem worker_enabled {room : Nat} {s : Served State Request}
    (outcome : Outcome) (open_ : s.memory.place ≠ .exited)
    (awake : footing s.memory ≠ .wait false ∨ s.bell.signaled = true) :
    ∃ next, (program room).step s (.worker outcome) = some next := by
  have works : ∃ memory, work s.memory outcome = some memory := by
    unfold work
    split
    all_goals first | (repeat' split) <;> exact ⟨_, rfl⟩ | skip
    next gone => exact absurd gone open_
  obtain ⟨memory, worked⟩ := works
  have attends : ∃ bell, (program room).attend s = some bell := by
    rw [Program.attend]
    split
    · exact ⟨_, rfl⟩
    · exact ⟨_, rfl⟩
    · next timed asleep =>
        refine ⟨s.bell, if_pos ?_⟩
        rcases awake with awake | signaled
        · cases timed with
          | false => exact absurd asleep awake
          | true => rfl
        · rw [signaled, Bool.or_true]
  obtain ⟨bell, attended⟩ := attends
  refine ⟨⟨memory, bell⟩, ?_⟩
  simp only [Program.step, attended, Option.bind_some]
  exact congrArg (Option.map _) worked

/-- Once `shutdown` has stored its request, the worker takes a bounded number
of steps whatever else comes in, and with no callback between its store and its
`set` it is never stuck before the end of its thread. -/
theorem shutdown_joins {room : Nat} {hosted : List Bool}
    {s : Served State Request} (reached : Reachable room hosted s)
    (exit : s.memory.exitRequested = true) :
    (∀ acts final, Machine.run (program room).step s acts = some final →
        acts.countP Act.isWorker ≤ 6 * hosted.length + 8) ∧
      (s.bell.setting = [] → s.memory.place ≠ .exited → ∀ outcome,
        ∃ next, (program room).step s (.worker outcome) = some next) := by
  have few := (keeps_heldFew room hosted.length).reachable
    ⟨by simp [initial], .of_nil rfl⟩ reached
  constructor
  · intro acts final run
    have bound := (leaves room).steps_le exit run
    have most := rank_le few.2
    rw [few.1] at most
    omega
  · intro settled open_ outcome
    apply worker_enabled outcome open_
    by_contra stuck
    rw [not_or, not_not] at stuck
    have idle := idle_asleep reached stuck.1
      (Bool.eq_false_iff.mpr stuck.2) settled
    rw [idle.stay] at exit
    simp at exit

/-- The worker is told to leave before its event is set. -/
def leaving : Served State Request where
  memory := { sleeping.memory with exitRequested := true }
  bell := { setting := [.exit], stored := [.exit] }

theorem reachable_leaving : Reachable 4 [true] leaving :=
  ⟨sleepRun ++ [.store .exit], rfl⟩

theorem shutdown_joins_leaving :
    (∀ acts final, Machine.run (program 4).step leaving acts = some final →
        acts.countP Act.isWorker ≤ 14) ∧
      (leaving.bell.setting = [] → leaving.memory.place ≠ .exited →
        ∀ outcome, ∃ next,
          (program 4).step leaving (.worker outcome) = some next) :=
  shutdown_joins reachable_leaving rfl

end Sismo.Kdebug.RingHost
