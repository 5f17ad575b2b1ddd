import Mathlib.Data.List.Infix
import Sismo.Heap.Worker

namespace Sismo.Heap.Worker

/-! What a flush or stop profile accounts for, and that it does as long as its
drain finds no more records than one drain takes and is not held up by a record
that is still unpublished. -/

variable (walkSnapshot : StackRegs → Payload → Nat → Nat → List Nat)

def bookOf (records : List Payload) : HeapBook UInt64 :=
  records.foldl (processRecord walkSnapshot) {}

/-- The profile's book is that of the records read, and these have every record
that was published before the drain, at its place in the ring; a stop leaves no
published record in the ring. -/
structure Accounts (e : Emission) : Prop where
  book : e.book = bookOf walkSnapshot e.after.read
  applied : ∀ (place : Nat) (slice : Payload),
    e.before.slots[place]? = some (some slice) →
    e.after.read[place]? = some slice
  drained : e.handling = .stop → ∀ slot ∈ e.after.unread, slot = none

def drainLimit : Nat := 4097

/-- Every published record is among the next `limit` of the ring. -/
def RingView.Within (ring : RingView) (limit : Nat) : Prop :=
  ∀ (place : Nat) (slice : Payload),
    ring.unread[place]? = some (some slice) → place < limit

/-- The next record is reserved and not published, and one that was published
before the drain is behind it. -/
def HeldUp (before ring : RingView) : Prop :=
  ring.unread.head? = some none ∧
    ∃ (place : Nat) (slice : Payload), ring.read.length ≤ place ∧
      before.slots[place]? = some (some slice)

/-- The worker's next step is not one of a flush's or a stop's drain that comes
to an unpublished record while records published before are behind it. -/
def Proceeds (s : State) : Action → Prop
  | .worker =>
      match s.phase with
      | .draining handling _ before =>
          handling = .interval ∨ ¬HeldUp before s.ring
      | _ => True
  | _ => True

/-- What is published stays where it is. -/
def Keeps (before after : RingView) : Prop :=
  ∀ (place : Nat) (slice : Payload),
    before.slots[place]? = some (some slice) →
    after.slots[place]? = some (some slice)

/-- What a drain has made of the ring: it has read at most `drainLimit`
records, and fewer only if it has come to the end of what was published. -/
structure Drained (handling : Handling) (before after : RingView) : Prop where
  keeps : Keeps before after
  upTo : after.read.length ≤ before.read.length + drainLimit
  reached : after.read.length = before.read.length + drainLimit ∨
    ∀ (place : Nat) (slice : Payload),
      before.slots[place]? = some (some slice) → place < after.read.length
  quiet : handling = .stop → after.slots = before.slots

theorem RingView.slots_read (ring : RingView) {place : Nat}
    (read : place < ring.read.length) :
    ring.slots[place]? = (ring.read[place]?).map some := by
  rw [RingView.slots, List.getElem?_append_left (by simpa using read),
    List.getElem?_map]

theorem RingView.slots_unread (ring : RingView) (place : Nat) :
    ring.slots[ring.read.length + place]? = ring.unread[place]? := by
  rw [RingView.slots, List.getElem?_append_right (by simp)]
  simp

theorem Keeps.read {before after : RingView} (keeps : Keeps before after)
    {place : Nat} {slice : Payload}
    (published : before.slots[place]? = some (some slice))
    (read : place < after.read.length) : after.read[place]? = some slice := by
  have stays := keeps place slice published
  rw [RingView.slots_read _ read] at stays
  obtain ⟨found, here, same⟩ := Option.map_eq_some_iff.mp stays
  exact here.trans same

namespace Drained

variable {handling : Handling} {before after : RingView}

theorem applied_iff (drained : Drained handling before after)
    (start : before.read.length ≤ after.read.length) :
    (∀ (place : Nat) (slice : Payload),
      before.slots[place]? = some (some slice) →
      after.read[place]? = some slice) ↔ before.Within drainLimit := by
  constructor
  · intro applied place slice published
    rw [← RingView.slots_unread] at published
    have read := (List.getElem?_eq_some_iff.mp (applied _ _ published)).1
    have := drained.upTo
    omega
  · intro within place slice published
    apply drained.keeps.read published
    rcases drained.reached with full | reached
    · by_cases read : place < before.read.length
      · omega
      · obtain ⟨behind, rfl⟩ := Nat.exists_eq_add_of_le (Nat.not_lt.mp read)
        rw [RingView.slots_unread] at published
        have := within behind slice published
        omega
    · exact reached place slice published

theorem unread_eq_none (drained : Drained .stop before after)
    (applied : ∀ (place : Nat) (slice : Payload),
      before.slots[place]? = some (some slice) →
      after.read[place]? = some slice) :
    ∀ slot ∈ after.unread, slot = none := by
  intro slot member
  cases slot with
  | none => rfl
  | some slice =>
      obtain ⟨place, found⟩ := List.mem_iff_getElem?.mp member
      rw [← RingView.slots_unread, drained.quiet rfl] at found
      have read := (List.getElem?_eq_some_iff.mp (applied _ _ found)).1
      omega

end Drained

/-- A drain under way, and whether the target can still write. -/
structure Draining (handling : Handling) (batch : Nat)
    (before ring : RingView) (attached : Bool) : Prop where
  keeps : Keeps before ring
  counted : ring.read.length = before.read.length + batch
  within : batch ≤ 4096
  quiet : handling = .stop → attached = false ∧ ring.slots = before.slots

/-- What the place in the loop says of the drain it belongs to. -/
def PhaseOk (ring : RingView) (attached : Bool) : Phase → Prop
  | .draining handling batch before =>
      Draining handling batch before ring attached
  | .emitting handling before =>
      Drained handling before ring ∧
        before.read.length ≤ ring.read.length ∧
        (handling = .stop → attached = false)
  | .settling => attached = false
  | _ => True

structure Emitted (e : Emission) : Prop where
  book : e.book = bookOf walkSnapshot e.after.read
  drained : Drained e.handling e.before e.after
  start : e.before.read.length ≤ e.after.read.length

structure Invariant (s : State) : Prop where
  book : s.book = bookOf walkSnapshot s.ring.read
  phase : PhaseOk s.ring s.ctrlFdOpen s.phase
  emitted : ∀ e ∈ s.emitted, Emitted walkSnapshot e

variable {walkSnapshot} {s next : State}

theorem Keeps.write {before ring : RingView} (keeps : Keeps before ring)
    {unread : List (Option Payload)}
    (stays : ∀ (place : Nat) (slice : Payload),
      ring.unread[place]? = some (some slice) →
      unread[place]? = some (some slice)) :
    Keeps before { ring with unread := unread } := by
  intro place slice published
  have found := keeps place slice published
  by_cases read : place < ring.read.length
  · rw [RingView.slots_read _ read] at found
    rwa [RingView.slots_read { ring with unread := unread } read]
  · obtain ⟨behind, rfl⟩ := Nat.exists_eq_add_of_le (Nat.not_lt.mp read)
    rw [RingView.slots_unread] at found
    exact (RingView.slots_unread { ring with unread := unread } behind).trans
      (stays behind slice found)

/-- A write changes what is said of the phase only by extending the ring, and
never while a stop is being handled. -/
theorem PhaseOk.write {ring : RingView} {attached : Bool} {phase : Phase}
    {unread : List (Option Payload)} (holds : PhaseOk ring attached phase)
    (active : attached ∨ phase = .settling)
    (stays : ∀ (place : Nat) (slice : Payload),
      ring.unread[place]? = some (some slice) →
      unread[place]? = some (some slice)) :
    PhaseOk { ring with unread := unread } attached phase := by
  cases phase with
  | draining handling batch before =>
      have opened : attached = true := by simpa using active
      refine ⟨holds.keeps.write stays, holds.counted, holds.within,
        fun stop => ?_⟩
      exact absurd opened (by simp [(holds.quiet stop).1])
  | emitting handling before =>
      have opened : attached = true := by simpa using active
      obtain ⟨drained, start, closed⟩ := holds
      refine ⟨⟨drained.keeps.write stays, drained.upTo, drained.reached,
        fun stop => ?_⟩, start, closed⟩
      exact absurd opened (by simp [closed stop])
  | settling => exact holds
  | top => trivial
  | checkFlush => trivial
  | checkStop => trivial
  | checkExit => trivial
  | waiting => trivial
  | exited => trivial

theorem Draining.initial {handling : Handling} (ring : RingView)
    {attached : Bool} (quiet : handling = .stop → attached = false) :
    Draining handling 0 ring ring attached where
  keeps _ _ published := published
  counted := rfl
  within := Nat.zero_le _
  quiet stop := ⟨quiet stop, rfl⟩

theorem phaseOk_afterDrain {handling : Handling} {before ring : RingView}
    {attached : Bool}
    (drained : handling ≠ .interval → Drained handling before ring)
    (start : before.read.length ≤ ring.read.length)
    (quiet : handling = .stop → attached = false) :
    PhaseOk ring attached (.afterDrain before handling) := by
  cases handling with
  | interval => trivial
  | flush => exact ⟨drained (by simp), start, quiet⟩
  | stop => exact ⟨drained (by simp), start, quiet⟩

/-- A drain that finds nothing more, and is not held up, has come to the end of
what was published. -/
theorem Draining.finish {handling : Handling} {batch : Nat}
    {before ring : RingView} {attached : Bool}
    (draining : Draining handling batch before ring attached)
    (stuck : ∀ slice rest, ring.unread ≠ some slice :: rest)
    (proceeds : ¬HeldUp before ring) : Drained handling before ring where
  keeps := draining.keeps
  upTo := by
    rw [draining.counted, drainLimit]
    have := draining.within
    omega
  reached := by
    right
    intro place slice published
    by_contra unread
    have behind := Nat.not_lt.mp unread
    cases queued : ring.unread with
    | nil =>
        have stays := draining.keeps place slice published
        have inside := (List.getElem?_eq_some_iff.mp stays).1
        rw [RingView.slots, queued, List.append_nil, List.length_map] at inside
        exact unread inside
    | cons slot rest =>
        cases slot with
        | none =>
            exact proceeds ⟨by rw [queued]; rfl, place, slice, behind,
              published⟩
        | some found => exact stuck found rest queued
  quiet stop := (draining.quiet stop).2

theorem invariant_drainStep {handling : Handling} {batch : Nat}
    {before : RingView} (holds : Invariant walkSnapshot s)
    (draining : Draining handling batch before s.ring s.ctrlFdOpen)
    (proceeds : handling = .interval ∨ ¬HeldUp before s.ring) :
    Invariant walkSnapshot
      (drainStep walkSnapshot s handling batch before) := by
  unfold drainStep
  split
  · next slice unread queued =>
      have slots : (⟨s.ring.read ++ [slice], unread⟩ : RingView).slots =
          s.ring.slots := by
        simp [RingView.slots, queued]
      have keeps : Keeps before ⟨s.ring.read ++ [slice], unread⟩ := by
        intro place found published
        rw [slots]
        exact draining.keeps place found published
      have book : processRecord walkSnapshot s.book slice =
          bookOf walkSnapshot (s.ring.read ++ [slice]) := by
        rw [holds.book, bookOf, bookOf, List.foldl_append]
        rfl
      have counted : (s.ring.read ++ [slice]).length =
          before.read.length + (batch + 1) := by
        rw [List.length_append, draining.counted]
        rfl
      have within := draining.within
      dsimp only
      split
      · next full =>
          -- The batch is cut off.
          refine ⟨book, ?_, holds.emitted⟩
          refine phaseOk_afterDrain (fun _ => ⟨keeps, ?_, Or.inl ?_,
            fun stop => slots.trans (draining.quiet stop).2⟩) ?_
            fun stop => (draining.quiet stop).1
          · rw [counted, drainLimit]
            omega
          · rw [counted, drainLimit]
            omega
          · rw [counted]
            omega
      · next more =>
          refine ⟨book, ?_, holds.emitted⟩
          exact ⟨keeps, counted, by omega, fun stop =>
            ⟨(draining.quiet stop).1, slots.trans (draining.quiet stop).2⟩⟩
  · next stuck =>
      refine ⟨holds.book, ?_, holds.emitted⟩
      refine phaseOk_afterDrain (fun emits => ?_) ?_
        fun stop => (draining.quiet stop).1
      · exact draining.finish stuck (proceeds.resolve_left emits)
      · rw [draining.counted]
        omega

theorem invariant_emitProfile {handling : Handling} {before : RingView}
    (holds : Invariant walkSnapshot s)
    (drained : Drained handling before s.ring)
    (start : before.read.length ≤ s.ring.read.length) :
    ∀ e ∈ (emitProfile s handling before).emitted,
      Emitted walkSnapshot e := by
  intro e member
  rcases List.mem_append.mp member with old | new
  · exact holds.emitted e old
  · obtain rfl := List.mem_singleton.mp new
    exact ⟨holds.book, drained, start⟩

theorem invariant_workerStep (holds : Invariant walkSnapshot s)
    (proceeds : Proceeds s .worker)
    (stepped : workerStep walkSnapshot s = some next) :
    Invariant walkSnapshot next := by
  have phase := holds.phase
  unfold workerStep at stepped
  split at stepped
  · -- The top of the loop.
    split at stepped
    · cases stepped
      exact ⟨holds.book, trivial, holds.emitted⟩
    · split at stepped
      · cases stepped
        exact ⟨holds.book, Draining.initial _ (fun stop => by cases stop),
          holds.emitted⟩
      · cases stepped
        exact ⟨holds.book, trivial, holds.emitted⟩
  · next place =>
      cases stepped
      rw [place] at phase
      rw [Proceeds, place] at proceeds
      exact invariant_drainStep holds phase proceeds
  · split at stepped
    · cases stepped
      exact ⟨holds.book, Draining.initial _ (fun stop => by cases stop),
        holds.emitted⟩
    · cases stepped
      exact ⟨holds.book, trivial, holds.emitted⟩
  · next place =>
      rw [place] at phase
      obtain ⟨drained, start, _⟩ := phase
      split at stepped
      · cases stepped
        exact ⟨holds.book, trivial, invariant_emitProfile holds drained start⟩
      · cases stepped
        exact ⟨holds.book, trivial, invariant_emitProfile holds drained start⟩
  · split at stepped
    · split at stepped
      · cases stepped
        exact ⟨holds.book, rfl, holds.emitted⟩
      · next closed =>
          cases stepped
          refine ⟨holds.book, Draining.initial _ fun _ => ?_, holds.emitted⟩
          simpa using closed
    · cases stepped
      exact ⟨holds.book, trivial, holds.emitted⟩
  · next place =>
      cases stepped
      rw [place] at phase
      exact ⟨holds.book, Draining.initial _ fun _ => phase, holds.emitted⟩
  · split at stepped <;>
    · cases stepped
      exact ⟨holds.book, trivial, holds.emitted⟩
  · cases stepped
    exact ⟨holds.book, trivial, holds.emitted⟩
  · cases stepped

theorem invariant_step {action : Action} (holds : Invariant walkSnapshot s)
    (proceeds : Proceeds s action)
    (stepped : step walkSnapshot s action = some next) :
    Invariant walkSnapshot next := by
  cases action with
  | reserve =>
      simp only [step] at stepped
      split at stepped
      · next active =>
          cases stepped
          refine ⟨holds.book, holds.phase.write active ?_, holds.emitted⟩
          intro place slice found
          rw [List.getElem?_append_left
            (List.getElem?_eq_some_iff.mp found).1, found]
      · cases stepped
  | publish index slice =>
      simp only [step] at stepped
      split at stepped
      · next active =>
          cases stepped
          refine ⟨holds.book, holds.phase.write active.1 ?_, holds.emitted⟩
          intro place other found
          have apart : index ≠ place := by
            rintro rfl
            cases found.symm.trans active.2
          rw [List.getElem?_set_ne apart, found]
      · cases stepped
  | worker => exact invariant_workerStep holds proceeds stepped
  | onStart =>
      cases stepped
      exact ⟨holds.book, holds.phase, holds.emitted⟩
  | onFlush =>
      cases stepped
      exact ⟨holds.book, holds.phase, holds.emitted⟩
  | onStop =>
      cases stepped
      exact ⟨holds.book, holds.phase, holds.emitted⟩
  | shutdown =>
      cases stepped
      exact ⟨holds.book, holds.phase, holds.emitted⟩

theorem Invariant.initial : Invariant walkSnapshot {} :=
  ⟨rfl, trivial, fun _ member => by cases member⟩

theorem emission_drained {actions : List Action}
    (proceeds : Machine.Along (step walkSnapshot) Proceeds {} actions)
    (reached : Machine.run (step walkSnapshot) {} actions = some s)
    {e : Emission} (member : e ∈ s.emitted) : Emitted walkSnapshot e := by
  have holds : Invariant walkSnapshot s := Machine.run_invariant_along
    (fun _ _ _ holds proceeds stepped => invariant_step holds proceeds stepped)
    Invariant.initial proceeds reached
  exact holds.emitted e member

/-- In a run in which no drain is held up, a profile accounts for all that was
published before its drain exactly when all of it was among the records one
drain takes. -/
theorem profile_accounts_iff
    (walkSnapshot : StackRegs → Payload → Nat → Nat → List Nat)
    {actions : List Action} {s : State}
    (proceeds : Machine.Along (step walkSnapshot) Proceeds {} actions)
    (reached : Machine.run (step walkSnapshot) {} actions = some s)
    {e : Emission} (member : e ∈ s.emitted) :
    Accounts walkSnapshot e ↔ e.before.Within drainLimit := by
  obtain ⟨book, drained, start⟩ := emission_drained proceeds reached member
  constructor
  · exact fun accounts => (drained.applied_iff start).mp accounts.applied
  · intro within
    have applied := (drained.applied_iff start).mpr within
    refine ⟨book, applied, fun stop => ?_⟩
    rw [stop] at drained
    exact drained.unread_eq_none applied

/-- Every record in the ring is published. -/
def RingView.Published (ring : RingView) : Prop :=
  none ∉ ring.unread

theorem proceeds_of_published (published : s.ring.Published)
    (action : Action) : Proceeds s action := by
  unfold Proceeds
  split
  · split
    · exact Or.inr fun held =>
        published (List.mem_of_mem_head? held.1)
    · trivial
  · trivial

/-- One step of a drain: it returns, or it has taken one more record. -/
theorem drainStep_cases {handling : Handling} {batch : Nat}
    {before : RingView}
    (drained : drainStep walkSnapshot s handling batch before = next) :
    next.emitted = s.emitted ∧ next.ring.unread <:+ s.ring.unread ∧
      (next.phase = .afterDrain before handling ∨
        batch < 4096 ∧ next.phase = .draining handling (batch + 1) before) := by
  unfold drainStep at drained
  split at drained
  · next slice unread queued =>
      have shorter : unread <:+ s.ring.unread := by
        rw [queued]
        exact List.suffix_cons _ _
      dsimp only at drained
      split at drained
      · subst drained
        exact ⟨rfl, shorter, Or.inl rfl⟩
      · next more =>
          subst drained
          exact ⟨rfl, shorter, Or.inr ⟨by omega, rfl⟩⟩
  · subst drained
    exact ⟨rfl, List.suffix_rfl, Or.inl rfl⟩

/-- The worker only takes records out of the ring. -/
theorem suffix_workerStep (stepped : workerStep walkSnapshot s = some next) :
    next.ring.unread <:+ s.ring.unread := by
  unfold workerStep at stepped
  split at stepped
  all_goals first
    | exact (drainStep_cases (Option.some.inj stepped)).2.1
    | (repeat' split at stepped) <;>
        first
          | (cases stepped; exact List.suffix_rfl)
          | cases stepped

/-- While the target is still, a ring with nothing unpublished holds up no
drain. -/
theorem along_workers (published : s.ring.Published) (count : Nat) :
    Machine.Along (step walkSnapshot) Proceeds s
      (List.replicate count .worker) := by
  induction count generalizing s with
  | zero => trivial
  | succ count induction =>
      refine ⟨proceeds_of_published published .worker, fun next stepped => ?_⟩
      exact induction fun member =>
        published ((suffix_workerStep stepped).subset member)

def noWalk : StackRegs → Payload → Nat → Nat → List Nat :=
  fun _ _ _ _ => []

def oneFree : Payload :=
  [0x52, 0x54, 0x4e, 0x45, 0x45, 0x52, 0x46, 0x53] ++
    [1, 0, 0, 0, 0, 0, 0, 0] ++ [2, 0, 0, 0, 0, 0, 0, 0] ++
    [0, 16, 0, 0, 0, 0, 0, 0]

/-- Two records are published, the second one first, and a stop is handled. -/
def stopRun : List Action :=
  [.reserve, .reserve, .publish 1 oneFree, .publish 0 oneFree, .onStop] ++
    List.replicate 8 .worker

/-- The profile of the stop. -/
def stopEmission : Emission :=
  ⟨.stop, ⟨[], [some oneFree, some oneFree]⟩, ⟨[oneFree, oneFree], []⟩,
    bookOf noWalk [oneFree, oneFree]⟩

def stopped : State where
  ctrlFdOpen := false
  ring := ⟨[oneFree, oneFree], []⟩
  book := bookOf noWalk [oneFree, oneFree]
  phase := .checkExit
  emitted := [stopEmission]

theorem profile_accounts_stopRun :
    Machine.run (step noWalk) {} stopRun = some stopped ∧
      Accounts noWalk stopEmission := by
  have proceeds : Machine.Along (step noWalk) Proceeds {} stopRun := by
    refine Machine.along_cons trivial rfl ?_
    refine Machine.along_cons trivial rfl ?_
    refine Machine.along_cons trivial rfl ?_
    refine Machine.along_cons trivial rfl ?_
    refine Machine.along_cons trivial rfl ?_
    exact along_workers (by simp [RingView.Published]) 8
  have reached : Machine.run (step noWalk) {} stopRun = some stopped := rfl
  refine ⟨reached, ?_⟩
  refine (profile_accounts_iff noWalk proceeds reached
    (List.mem_singleton_self _)).mpr ?_
  intro place slice found
  have inside := (List.getElem?_eq_some_iff.mp found).1
  exact Nat.lt_of_lt_of_le inside (by decide)

/-- A flush that comes while the first record is still being written leaves
the second in the ring. -/
def heldUpRun : List Action :=
  [.reserve, .reserve, .publish 1 oneFree, .onFlush] ++
    List.replicate 4 .worker

def heldUp : State where
  ring := ⟨[], [none, some oneFree]⟩
  phase := .checkStop
  emitted := [⟨.flush, ⟨[], [none, some oneFree]⟩,
    ⟨[], [none, some oneFree]⟩, {}⟩]

example : Machine.run (step noWalk) {} heldUpRun = some heldUp ∧
    ∀ e ∈ heldUp.emitted, ¬Accounts noWalk e := by
  refine ⟨rfl, fun e member accounts => ?_⟩
  obtain rfl := List.mem_singleton.mp member
  cases accounts.applied 1 oneFree rfl

/-! ### A burst -/

variable (walkSnapshot) in
theorem drain_returns {handling : Handling} {batch : Nat} {before : RingView}
    (remaining : Nat) (enough : 4096 < batch + remaining)
    (place : s.phase = .draining handling batch before) :
    ∃ count final, Machine.run (step walkSnapshot) s
        (List.replicate count .worker) = some final ∧
      final.phase = .afterDrain before handling ∧
      final.emitted = s.emitted := by
  induction remaining generalizing s batch with
  | zero =>
      have stepped : step walkSnapshot s .worker =
          some (drainStep walkSnapshot s handling batch before) := by
        simp only [step, workerStep, place]
      obtain ⟨silent, _, returned | ⟨more, _⟩⟩ := drainStep_cases
        (rfl : drainStep walkSnapshot s handling batch before = _)
      · exact ⟨1, _, Machine.run_cons.mpr ⟨_, stepped, rfl⟩, returned, silent⟩
      · omega
  | succ remaining induction =>
      have stepped : step walkSnapshot s .worker =
          some (drainStep walkSnapshot s handling batch before) := by
        simp only [step, workerStep, place]
      obtain ⟨silent, _, returned | ⟨more, again⟩⟩ := drainStep_cases
        (rfl : drainStep walkSnapshot s handling batch before = _)
      · exact ⟨1, _, Machine.run_cons.mpr ⟨_, stepped, rfl⟩, returned, silent⟩
      · obtain ⟨count, final, reached, returned, quiet⟩ :=
          induction (by omega) again
        exact ⟨count + 1, final, Machine.run_cons.mpr ⟨_, stepped, reached⟩,
          returned, quiet.trans silent⟩

variable (walkSnapshot) in
/-- The target fills the ring before the session starts. -/
theorem run_fill (slice : Payload) (count : Nat) :
    ∃ actions, Machine.Along (step walkSnapshot) Proceeds {} actions ∧
      Machine.run (step walkSnapshot) {} actions =
        some { ring := ⟨[], List.replicate count (some slice)⟩ } := by
  induction count with
  | zero => exact ⟨[], trivial, rfl⟩
  | succ count induction =>
      obtain ⟨actions, proceeds, reached⟩ := induction
      refine ⟨actions ++ [.reserve, .publish count slice],
        Machine.along_append proceeds fun _ _ => Machine.along_of_forall ?_,
        Machine.run_append.mpr ⟨_, reached, ?_⟩⟩
      · intro state action member
        rcases List.mem_pair.mp member with rfl | rfl <;> trivial
      · refine Machine.run_cons.mpr
          ⟨_, rfl, Machine.run_cons.mpr ⟨_, ?_, rfl⟩⟩
        simp [step, List.replicate_succ']

def atStop (records : List (Option Payload)) : State where
  ctrlFdOpen := false
  ring := ⟨[], records⟩
  phase := .draining .stop 0 ⟨[], records⟩

/-- One record more than a drain takes is in the ring at the stop. -/
theorem burst_unaccounted :
    ∃ s, Machine.Reachable (step noWalk) {} s ∧
      ∃ e ∈ s.emitted, e.handling = .stop ∧ ¬Accounts noWalk e := by
  obtain ⟨filling, proceeds, filled⟩ := run_fill noWalk oneFree 4098
  have last : (List.replicate 4098 (some oneFree))[4097]? =
      some (some oneFree) := List.getElem?_replicate_of_lt (by decide)
  have published : RingView.Published
      ⟨[], List.replicate 4098 (some oneFree)⟩ :=
    fun member => by cases List.eq_of_mem_replicate member
  generalize List.replicate 4098 (some oneFree) = records
    at filled last published
  have drains : Machine.run (step noWalk) { ring := ⟨[], records⟩ }
      (.onStop :: List.replicate 4 .worker) = some (atStop records) := rfl
  have place : (atStop records).phase =
      .draining .stop 0 ⟨[], records⟩ := rfl
  obtain ⟨count, drained, returns, place, silent⟩ :=
    drain_returns noWalk 4097 (by omega) place
  have stepped : step noWalk drained .worker = some
      { emitProfile drained .stop ⟨[], records⟩ with
        running := false
        phase := .checkExit } := by
    simp only [step, workerStep, place, Phase.afterDrain]
  have worker : Machine.run (step noWalk) (atStop records)
      (List.replicate count .worker ++ [.worker]) = some
        { emitProfile drained .stop ⟨[], records⟩ with
          running := false
          phase := .checkExit } :=
    Machine.run_append.mpr
      ⟨_, returns, Machine.run_cons.mpr ⟨_, stepped, rfl⟩⟩
  have reached := Machine.run_append.mpr
    ⟨_, filled, Machine.run_append.mpr ⟨_, drains, worker⟩⟩
  have along : Machine.Along (step noWalk) Proceeds {}
      (filling ++ ((.onStop :: List.replicate 4 .worker) ++
        (List.replicate count .worker ++ [.worker]))) := by
    refine Machine.along_append proceeds fun full same => ?_
    cases filled.symm.trans same
    refine Machine.along_append ⟨trivial, fun next stopping => ?_⟩
      fun atStop same => ?_
    · cases stopping
      exact along_workers published 4
    · cases drains.symm.trans same
      rw [← List.replicate_succ']
      exact along_workers published (count + 1)
  have member : (⟨.stop, ⟨[], records⟩, drained.ring, drained.book⟩ :
      Emission) ∈ (emitProfile drained .stop ⟨[], records⟩).emitted :=
    List.mem_append_right _ List.mem_cons_self
  refine ⟨_, ⟨_, reached⟩, _, member, rfl, fun accounts => ?_⟩
  obtain ⟨_, finished, start⟩ := emission_drained along reached member
  have within := (finished.applied_iff start).mp accounts.applied
  exact absurd (within 4097 oneFree last) (by decide)

end Sismo.Heap.Worker
