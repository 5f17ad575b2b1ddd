import Sismo.Heap.Worker
import Sismo.Lib.Doorbell

namespace Sismo.Heap.Wakeups

open Worker

/-! The recorder's worker on its event: the loop with its reset and its waits,
and the callbacks that store and then set. -/

variable (walkSnapshot : StackRegs → Payload → Nat → Nat → List Nat)

/-- Where the loop stands with the event: its reset is still to come, is done,
or the worker waits. -/
inductive Stage where
  | due
  | clear
  | asleep (timed : Bool)
  deriving DecidableEq, Repr

structure Loop where
  worker : Worker.State := {}
  stage : Stage := .due

inductive Request where
  | start
  | flush
  | stop
  | exit
  deriving DecidableEq, Repr

def Request.action : Request → Action
  | .start => .onStart
  | .flush => .onFlush
  | .stop => .onStop
  | .exit => .shutdown

def footing (loop : Loop) : Footing :=
  match loop.worker.phase, loop.stage with
  | .top, .due => .reset
  | .settling, _ => .wait true
  | .waiting, .asleep timed => .wait timed
  | _, _ => .plain

/-- The loop's top resets before it reads, and its end reads `running` before
it waits. -/
def work (loop : Loop) : Option Loop :=
  match loop.worker.phase, loop.stage with
  | .top, .due => some { loop with stage := .clear }
  | .waiting, .asleep _ =>
      (workerStep walkSnapshot loop.worker).map fun worker => ⟨worker, .due⟩
  | .waiting, _ => some { loop with stage := .asleep loop.worker.running }
  | _, stage =>
      (workerStep walkSnapshot loop.worker).map fun worker => ⟨worker, stage⟩

inductive Write where
  | reserve
  | publish (index : Nat) (slice : Payload)
  deriving DecidableEq, Repr

def Write.action : Write → Action
  | .reserve => .reserve
  | .publish index slice => .publish index slice

def program : Program Loop Request Write Unit where
  apply := fun loop request =>
    (step walkSnapshot loop.worker request.action).map
      fun worker => { loop with worker }
  disturb := fun loop write =>
    (step walkSnapshot loop.worker write.action).map
      fun worker => { loop with worker }
  footing := footing
  work := fun loop _ => work walkSnapshot loop

def Reachable (served : Served Loop Request) : Prop :=
  Machine.Reachable (program walkSnapshot).step { memory := {} } served

structure Read (s : Worker.State) (flush stop : Bool) : Prop where
  stay : s.exitRequested = false
  flushed : flush = true → s.pendingFlusher = false
  stopped : stop = true → s.pendingStopper = false

/-- What the worker knows as long as nothing is stored. -/
def Sees (loop : Loop) : Prop :=
  match loop.worker.phase with
  | .draining .interval _ _ => Read loop.worker false false
  | .draining .flush _ _ => Read loop.worker true false
  | .draining .stop _ _ => Read loop.worker true true
  | .checkFlush => Read loop.worker false false
  | .emitting .stop _ => Read loop.worker true true
  | .emitting _ _ => Read loop.worker true false
  | .checkStop => Read loop.worker true false
  | .settling => Read loop.worker true true
  | .checkExit => Read loop.worker true true
  | .waiting => Read loop.worker true true ∧
      (loop.stage = .asleep false → loop.worker.running = false)
  | _ => True

variable {walkSnapshot}

theorem Read.move {s next : Worker.State} {flush stop : Bool}
    (read : Read s flush stop) (exit : next.exitRequested = s.exitRequested)
    (flusher : next.pendingFlusher = s.pendingFlusher)
    (stopper : next.pendingStopper = s.pendingStopper) :
    Read next flush stop :=
  ⟨exit.trans read.stay, fun flushed => flusher.trans (read.flushed flushed),
    fun stopped => stopper.trans (read.stopped stopped)⟩

theorem sees_draining {s : Worker.State} {stage : Stage} {handling : Handling}
    {batch : Nat} {before : RingView} {book : HeapBook UInt64} {ring : RingView}
    (place : s.phase = .draining handling batch before)
    (sees : Sees ⟨s, stage⟩) (more : Nat) :
    Sees ⟨{ s with
        book, ring, phase := .draining handling more before }, stage⟩ ∧
      Sees ⟨{ s with book, ring, phase := .afterDrain before handling },
        stage⟩ := by
  simp only [Sees, place] at sees
  cases handling with
  | interval => exact ⟨sees.move rfl rfl rfl, sees.move rfl rfl rfl⟩
  | flush => exact ⟨sees.move rfl rfl rfl, sees.move rfl rfl rfl⟩
  | stop => exact ⟨sees.move rfl rfl rfl, sees.move rfl rfl rfl⟩

theorem sees_workerStep {s next : Worker.State} {stage : Stage}
    (sees : Sees ⟨s, stage⟩) (asleep : s.phase ≠ .waiting)
    (fresh : ∀ timed, stage ≠ .asleep timed)
    (stepped : workerStep walkSnapshot s = some next) :
    Sees ⟨next, stage⟩ := by
  cases place : s.phase with
  | top =>
      simp only [workerStep, place] at stepped
      split at stepped
      · cases stepped
        trivial
      · next stay =>
          have read : Read s false false :=
            ⟨by simpa using stay, fun never => by simp at never,
              fun never => by simp at never⟩
          split at stepped
          · cases stepped
            exact read.move rfl rfl rfl
          · cases stepped
            exact read.move rfl rfl rfl
  | draining handling batch before =>
      simp only [workerStep, place] at stepped
      cases stepped
      unfold drainStep
      split
      · dsimp only
        split
        · exact (sees_draining place sees 0).2
        · exact (sees_draining place sees _).1
      · exact (sees_draining place sees 0).2
  | checkFlush =>
      simp only [workerStep, place] at stepped
      simp only [Sees, place] at sees
      split at stepped
      · cases stepped
        exact ⟨sees.stay, fun _ => rfl, fun never => by simp at never⟩
      · next none =>
          cases stepped
          exact ⟨sees.stay, fun _ => by simpa using none,
            fun never => by simp at never⟩
  | emitting handling before =>
      simp only [workerStep, place] at stepped
      simp only [Sees, place] at sees
      cases handling with
      | interval | flush =>
          cases stepped
          exact Read.move sees rfl rfl rfl
      | stop =>
          cases stepped
          exact Read.move sees rfl rfl rfl
  | checkStop =>
      simp only [workerStep, place] at stepped
      simp only [Sees, place] at sees
      split at stepped
      · split at stepped <;> cases stepped <;>
          exact ⟨sees.stay, sees.flushed, fun _ => rfl⟩
      · next none =>
          cases stepped
          exact ⟨sees.stay, sees.flushed, fun _ => by simpa using none⟩
  | settling =>
      simp only [workerStep, place] at stepped
      simp only [Sees, place] at sees
      cases stepped
      exact sees.move rfl rfl rfl
  | checkExit =>
      simp only [workerStep, place] at stepped
      simp only [Sees, place] at sees
      split at stepped
      · cases stepped
        trivial
      · cases stepped
        exact ⟨sees.move rfl rfl rfl, fun same => absurd same (fresh false)⟩
  | waiting => exact absurd place asleep
  | exited =>
      simp only [workerStep, place] at stepped
      simp at stepped

/-- The worker waits nowhere but at the end of its loop. -/
def StageOk (loop : Loop) : Prop :=
  loop.worker.phase ≠ .waiting → ∀ timed, loop.stage ≠ .asleep timed

/-- Nothing is left for the worker to do but wait. -/
structure Idle (loop : Loop) : Prop where
  stay : loop.worker.exitRequested = false
  flushed : loop.worker.pendingFlusher = false
  stopped : loop.worker.pendingStopper = false
  stands : loop.worker.running = false

/-- The loop's own steps, and those of the worker inside it. -/
theorem work_cases {loop next : Loop}
    (worked : work walkSnapshot loop = some next) :
    loop.worker.phase = .top ∧ loop.stage = .due ∧
        next = { loop with stage := .clear } ∨
      loop.worker.phase = .waiting ∧ next = ⟨{ loop.worker with
        phase := .top }, .due⟩ ∨
      loop.worker.phase = .waiting ∧
        next = { loop with stage := .asleep loop.worker.running } ∨
      loop.worker.phase ≠ .waiting ∧ ∃ worker,
        workerStep walkSnapshot loop.worker = some worker ∧
          next = ⟨worker, loop.stage⟩ := by
  unfold work at worked
  split at worked
  · next place stage =>
      cases worked
      exact .inl ⟨place, stage, rfl⟩
  · next place stage =>
      simp only [workerStep, place, Option.map_some] at worked
      cases worked
      exact .inr (.inl ⟨place, rfl⟩)
  · next place _ =>
      cases worked
      exact .inr (.inr (.inl ⟨place, rfl⟩))
  · next away _ _ =>
      obtain ⟨worker, stepped, rfl⟩ := Option.map_eq_some_iff.mp worked
      exact .inr (.inr (.inr ⟨away, worker, stepped, rfl⟩))

theorem stageOk_work {loop next : Loop} (ok : StageOk loop)
    (worked : work walkSnapshot loop = some next) : StageOk next := by
  rcases work_cases worked with ⟨_, _, rfl⟩ | ⟨_, rfl⟩ | ⟨place, rfl⟩ |
    ⟨away, worker, _, rfl⟩
  · exact fun _ timed same => by simp at same
  · exact fun _ timed same => by simp at same
  · exact fun away => absurd place away
  · exact fun _ => ok away

theorem sees_work {loop next : Loop} (ok : StageOk loop)
    (plain : footing loop ≠ .reset) (sees : Sees loop)
    (worked : work walkSnapshot loop = some next) : Sees next := by
  rcases work_cases worked with ⟨place, stage, rfl⟩ | ⟨_, rfl⟩ |
    ⟨place, rfl⟩ | ⟨away, worker, stepped, rfl⟩
  · exact absurd (by simp only [footing, place, stage]) plain
  · trivial
  · simp only [Sees, place] at sees ⊢
    exact ⟨sees.1, fun same => by simpa using same⟩
  · exact sees_workerStep sees away (ok away) stepped

theorem sees_reset {loop next : Loop} (reset : footing loop = .reset)
    (worked : work walkSnapshot loop = some next) : Sees next := by
  unfold footing at reset
  split at reset
  · next place stage =>
      simp only [work, place, stage] at worked
      cases worked
      simp only [Sees, place]
  all_goals simp at reset

theorem idle_of_sees {loop : Loop} (asleep : footing loop = .wait false)
    (sees : Sees loop) : Idle loop := by
  unfold footing at asleep
  split at asleep
  · simp at asleep
  · simp at asleep
  · next timed place stage =>
      cases asleep
      simp only [Sees, place] at sees
      exact ⟨sees.1.stay, sees.1.flushed rfl, sees.1.stopped rfl,
        sees.2 stage⟩
  · simp at asleep

theorem sees_ring {loop : Loop} {ring : RingView} (sees : Sees loop) :
    Sees { loop with worker := { loop.worker with ring } } := by
  unfold Sees at sees ⊢
  dsimp only at sees ⊢
  split at sees
  all_goals first
    | exact sees.move rfl rfl rfl
    | exact ⟨sees.1.move rfl rfl rfl, sees.2⟩
    | trivial

theorem sees_write {loop : Loop} {write : Write} {worker : Worker.State}
    (sees : Sees loop)
    (stepped : step walkSnapshot loop.worker write.action = some worker) :
    Sees { loop with worker } := by
  cases write with
  | reserve =>
      simp only [Write.action, step] at stepped
      split at stepped
      · cases stepped
        exact sees_ring sees
      · simp at stepped
  | publish index slice =>
      simp only [Write.action, step] at stepped
      split at stepped
      · cases stepped
        exact sees_ring sees
      · simp at stepped

theorem watches : (program walkSnapshot).Watches StageOk Sees Idle where
  reset := fun _ _ reset worked => sees_reset reset worked
  work := fun _ ok plain sees worked => sees_work ok plain sees worked
  disturb := fun _ sees disturbed => by
    obtain ⟨worker, stepped, rfl⟩ := Option.map_eq_some_iff.mp disturbed
    exact sees_write sees stepped
  quiet := fun asleep sees => idle_of_sees asleep sees

theorem phase_of_request {s next : Worker.State} {action : Action}
    (outside : action ≠ .worker)
    (stepped : step walkSnapshot s action = some next) :
    next.phase = s.phase := by
  cases action with
  | worker => exact absurd rfl outside
  | reserve | publish =>
      simp only [step] at stepped
      split at stepped
      · cases stepped
        rfl
      · simp at stepped
  | _ =>
      simp only [step] at stepped
      cases stepped
      rfl

theorem keeps_stageOk : (program walkSnapshot).Keeps StageOk where
  apply := fun request ok applied => by
    obtain ⟨worker, stepped, rfl⟩ := Option.map_eq_some_iff.mp applied
    have outside : request.action ≠ .worker := by
      cases request <;> simp [Request.action]
    rw [StageOk, phase_of_request outside stepped]
    exact ok
  disturb := fun write ok disturbed => by
    obtain ⟨worker, stepped, rfl⟩ := Option.map_eq_some_iff.mp disturbed
    have outside : write.action ≠ .worker := by
      cases write <;> simp [Write.action]
    rw [StageOk, phase_of_request outside stepped]
    exact ok
  work := fun _ ok worked => stageOk_work ok worked

/-- The recorder never sleeps through a flush, a stop, a start or the end of
the session: where it sleeps without a time limit and one of them is stored, its
event is set or the callback is about to set it. -/
theorem flush_and_stop_wake {served : Served Loop Request}
    (reached : Reachable walkSnapshot served)
    (asleep : footing served.memory = .wait false)
    (work : ¬Idle served.memory) :
    served.bell.signaled = true ∨ served.bell.setting ≠ [] := by
  by_contra unheard
  rw [not_or, not_not, Bool.not_eq_true] at unheard
  have first : Sees ({} : Loop) := trivial
  have ok : StageOk {} := fun _ timed same => by simp at same
  exact work (watches.quiet_asleep keeps_stageOk rfl ok first reached asleep
    unheard.1 unheard.2)

def flushRun : List (Act Request Write Unit) :=
  List.replicate 6 (.worker ()) ++ [.store .flush]

def flushing : Served Loop Request where
  memory :=
    { worker := { pendingFlusher := true, phase := .waiting }
      stage := .asleep false }
  bell := { setting := [.flush], stored := [.flush] }

theorem reachable_flushing : Reachable walkSnapshot flushing :=
  ⟨flushRun, rfl⟩

theorem flush_and_stop_wake_flushing :
    flushing.bell.signaled = true ∨ flushing.bell.setting ≠ [] :=
  flush_and_stop_wake (@reachable_flushing fun _ _ _ _ => [])
    rfl fun idle => by
      have none := idle.flushed
      simp [flushing] at none

end Sismo.Heap.Wakeups
