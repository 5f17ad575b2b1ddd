import Mathlib.Data.List.Basic
import Sismo.Lib.Machine

namespace Sismo

/-! A worker that sleeps on a manual-reset event, and callers that store a
request and then set the event. -/

/-- The event, the callers between their store and their `set`, and what was
stored since the last reset. -/
structure Doorbell (ω : Type u) where
  signaled : Bool := false
  setting : List ω := []
  stored : List ω := []

namespace Doorbell

variable {ω : Type u} (bell : Doorbell ω)

def store (request : ω) : Doorbell ω :=
  { bell with
    setting := bell.setting ++ [request]
    stored := bell.stored ++ [request] }

def set [DecidableEq ω] (request : ω) : Option (Doorbell ω) :=
  if request ∈ bell.setting then
    some { bell with
      signaled := true
      setting := bell.setting.erase request }
  else none

def reset : Doorbell ω :=
  { bell with signaled := false, stored := [] }

/-- With the event clear and no `set` to come, the worker has reset after every
store. -/
def Heard : Prop :=
  bell.signaled = false → bell.setting = [] → bell.stored = []

theorem heard_store (request : ω) : (bell.store request).Heard := by
  intro _ none
  simp [store] at none

theorem heard_set [DecidableEq ω] {bell next : Doorbell ω} {request : ω}
    (set : bell.set request = some next) : next.Heard := by
  rw [Doorbell.set] at set
  split at set
  · cases set
    intro clear
    simp at clear
  · simp at set

theorem heard_reset : bell.reset.Heard :=
  fun _ _ => rfl

theorem stored_set [DecidableEq ω] {bell next : Doorbell ω} {request : ω}
    (set : bell.set request = some next) : next.stored = bell.stored := by
  rw [Doorbell.set] at set
  split at set
  · cases set
    rfl
  · simp at set

end Doorbell

inductive Footing where
  | plain
  | reset
  | wait (timed : Bool)
  deriving DecidableEq, Repr

/-- A worker's program over shared memory: a caller's store, what else happens
to the memory, and the worker's own steps, each with an outcome from outside. -/
structure Program (σ : Type u) (ω : Type v) (ε : Type w) (ι : Type x) where
  apply : σ → ω → Option σ
  disturb : σ → ε → Option σ
  footing : σ → Footing
  work : σ → ι → Option σ

structure Served (σ : Type u) (ω : Type v) where
  memory : σ
  bell : Doorbell ω := {}

inductive Act (ω : Type v) (ε : Type w) (ι : Type x) where
  | store (request : ω)
  | set (request : ω)
  | disturb (event : ε)
  | worker (outcome : ι)

def Act.isWorker : Act ω ε ι → Bool
  | .worker _ => true
  | _ => false

namespace Program

variable {σ : Type u} {ω : Type v} {ε : Type w} {ι : Type x}
variable [DecidableEq ω] (program : Program σ ω ε ι)

/-- The bell as the worker's step leaves it, if the step can be taken. -/
def attend (served : Served σ ω) : Option (Doorbell ω) :=
  match program.footing served.memory with
  | .plain => some served.bell
  | .reset => some served.bell.reset
  | .wait timed =>
      if timed || served.bell.signaled then some served.bell else none

def step (served : Served σ ω) : Act ω ε ι → Option (Served σ ω)
  | .store request =>
      (program.apply served.memory request).map
        fun memory => ⟨memory, served.bell.store request⟩
  | .set request =>
      (served.bell.set request).map fun bell => ⟨served.memory, bell⟩
  | .disturb event =>
      (program.disturb served.memory event).map
        fun memory => ⟨memory, served.bell⟩
  | .worker outcome =>
      (program.attend served).bind fun bell =>
        (program.work served.memory outcome).map fun memory => ⟨memory, bell⟩

/-- What an invariant of the memory must survive. -/
structure Keeps (invariant : σ → Prop) : Prop where
  apply : ∀ {memory next} request, invariant memory →
    program.apply memory request = some next → invariant next
  disturb : ∀ {memory next} event, invariant memory →
    program.disturb memory event = some next → invariant next
  work : ∀ {memory next} outcome, invariant memory →
    program.work memory outcome = some next → invariant next

/-- What the worker knows from its own reading while nothing is stored: it
starts at a reset, and where it waits it says that there is nothing to do. -/
structure Watches (invariant sees quiet : σ → Prop) : Prop where
  reset : ∀ {memory next} outcome, invariant memory →
    program.footing memory = .reset →
    program.work memory outcome = some next → sees next
  work : ∀ {memory next} outcome, invariant memory →
    program.footing memory ≠ .reset → sees memory →
    program.work memory outcome = some next → sees next
  disturb : ∀ {memory next} event, sees memory →
    program.disturb memory event = some next → sees next
  quiet : ∀ {memory}, program.footing memory = .wait false → sees memory →
    quiet memory

/-- What bounds the worker once it is to leave. -/
structure Leaves (leaving : σ → Prop) (rank : σ → Nat) : Prop where
  apply : ∀ {memory next} request, leaving memory →
    program.apply memory request = some next →
    leaving next ∧ rank next ≤ rank memory
  disturb : ∀ {memory next} event, leaving memory →
    program.disturb memory event = some next →
    leaving next ∧ rank next ≤ rank memory
  work : ∀ {memory next} outcome, leaving memory →
    program.work memory outcome = some next →
    leaving next ∧ rank next < rank memory

variable {program} {invariant sees quiet : σ → Prop}

theorem step_worker {served next : Served σ ω} {outcome : ι}
    (stepped : program.step served (.worker outcome) = some next) :
    program.work served.memory outcome = some next.memory ∧
      (program.footing served.memory = .reset ∧
          next.bell = served.bell.reset ∨
        program.footing served.memory ≠ .reset ∧
          next.bell = served.bell) := by
  simp only [step, Option.bind_eq_some_iff, Option.map_eq_some_iff] at stepped
  obtain ⟨bell, attended, memory, worked, rfl⟩ := stepped
  refine ⟨worked, ?_⟩
  rw [attend] at attended
  cases footing : program.footing served.memory with
  | plain =>
      rw [footing] at attended
      cases attended
      exact .inr ⟨by simp, rfl⟩
  | reset =>
      rw [footing] at attended
      cases attended
      exact .inl ⟨rfl, rfl⟩
  | wait timed =>
      rw [footing] at attended
      dsimp only at attended
      split at attended
      · cases attended
        exact .inr ⟨by simp, rfl⟩
      · simp at attended

theorem Keeps.step (keeps : program.Keeps invariant)
    {served next : Served σ ω} {act : Act ω ε ι}
    (holds : invariant served.memory)
    (stepped : program.step served act = some next) :
    invariant next.memory := by
  cases act with
  | store request =>
      simp only [Program.step, Option.map_eq_some_iff] at stepped
      obtain ⟨memory, applied, rfl⟩ := stepped
      exact keeps.apply request holds applied
  | set request =>
      simp only [Program.step, Option.map_eq_some_iff] at stepped
      obtain ⟨bell, _, rfl⟩ := stepped
      exact holds
  | disturb event =>
      simp only [Program.step, Option.map_eq_some_iff] at stepped
      obtain ⟨memory, disturbed, rfl⟩ := stepped
      exact keeps.disturb event holds disturbed
  | worker outcome =>
      exact keeps.work outcome holds (step_worker stepped).1

theorem Keeps.reachable (keeps : program.Keeps invariant)
    {initial served : Served σ ω} (holds : invariant initial.memory)
    (reached : Machine.Reachable program.step initial served) :
    invariant served.memory := by
  have kept : ∀ (state : Served σ ω) (act : Act ω ε ι) (next : Served σ ω),
      invariant state.memory → program.step state act = some next →
      invariant next.memory := fun _ _ _ holds stepped =>
    keeps.step holds stepped
  exact reached.invariant kept holds

/-- While nothing is stored after the last reset the worker's knowledge is
good. -/
structure Attentive (sees : σ → Prop) (served : Served σ ω) : Prop where
  heard : served.bell.Heard
  sees : served.bell.stored = [] → sees served.memory

theorem Watches.step (watches : program.Watches invariant sees quiet)
    {served next : Served σ ω} {act : Act ω ε ι}
    (holds : invariant served.memory) (attentive : Attentive sees served)
    (stepped : program.step served act = some next) :
    Attentive sees next := by
  cases act with
  | store request =>
      simp only [Program.step, Option.map_eq_some_iff] at stepped
      obtain ⟨memory, _, rfl⟩ := stepped
      refine ⟨served.bell.heard_store request, fun nothing => ?_⟩
      simp [Doorbell.store] at nothing
  | set request =>
      simp only [Program.step, Option.map_eq_some_iff] at stepped
      obtain ⟨bell, set, rfl⟩ := stepped
      refine ⟨Doorbell.heard_set set, fun nothing => attentive.sees ?_⟩
      rw [← Doorbell.stored_set set]
      exact nothing
  | disturb event =>
      simp only [Program.step, Option.map_eq_some_iff] at stepped
      obtain ⟨memory, disturbed, rfl⟩ := stepped
      exact ⟨attentive.heard, fun nothing =>
        watches.disturb event (attentive.sees nothing) disturbed⟩
  | worker outcome =>
      obtain ⟨worked, ⟨footing, bell⟩ | ⟨footing, bell⟩⟩ :=
        step_worker stepped
      · refine ⟨?_, fun _ => watches.reset outcome holds footing worked⟩
        rw [bell]
        exact served.bell.heard_reset
      · refine ⟨?_, fun nothing => ?_⟩
        · rw [bell]
          exact attentive.heard
        · rw [bell] at nothing
          exact watches.work outcome holds footing (attentive.sees nothing)
            worked

/-- A worker asleep with the event clear has nothing to do, up to requests
whose `set` is still to come. -/
theorem Watches.quiet_asleep (watches : program.Watches invariant sees quiet)
    (keeps : program.Keeps invariant) {initial served : Served σ ω}
    (fresh : initial.bell.stored = []) (holds : invariant initial.memory)
    (first : sees initial.memory)
    (reached : Machine.Reachable program.step initial served)
    (asleep : program.footing served.memory = .wait false)
    (clear : served.bell.signaled = false)
    (settled : served.bell.setting = []) : quiet served.memory := by
  have kept : ∀ (state : Served σ ω) (act : Act ω ε ι) (next : Served σ ω),
      invariant state.memory ∧ Attentive sees state →
      program.step state act = some next →
      invariant next.memory ∧ Attentive sees next := fun _ _ _ both stepped =>
    ⟨keeps.step both.1 stepped, watches.step both.1 both.2 stepped⟩
  have always := reached.invariant kept
    ⟨holds, fun _ _ => fresh, fun _ => first⟩
  exact watches.quiet asleep
    (always.2.sees (always.2.heard clear settled))

theorem Leaves.step {leaving : σ → Prop} {rank : σ → Nat}
    (leaves : program.Leaves leaving rank)
    {served next : Served σ ω} {act : Act ω ε ι}
    (going : leaving served.memory)
    (stepped : program.step served act = some next) :
    leaving next.memory ∧ (if act.isWorker then 1 else 0) +
      rank next.memory ≤ rank served.memory := by
  cases act with
  | store request =>
      simp only [Program.step, Option.map_eq_some_iff] at stepped
      obtain ⟨memory, applied, rfl⟩ := stepped
      simpa [Act.isWorker] using leaves.apply request going applied
  | set request =>
      simp only [Program.step, Option.map_eq_some_iff] at stepped
      obtain ⟨bell, _, rfl⟩ := stepped
      simpa [Act.isWorker] using going
  | disturb event =>
      simp only [Program.step, Option.map_eq_some_iff] at stepped
      obtain ⟨memory, disturbed, rfl⟩ := stepped
      simpa [Act.isWorker] using leaves.disturb event going disturbed
  | worker outcome =>
      have kept := leaves.work outcome going (step_worker stepped).1
      refine ⟨kept.1, ?_⟩
      rw [Act.isWorker, if_pos rfl, Nat.add_comm]
      exact kept.2

/-- However the others interleave, the worker has at most `rank` steps left. -/
theorem Leaves.steps_le {leaving : σ → Prop} {rank : σ → Nat}
    (leaves : program.Leaves leaving rank)
    {served final : Served σ ω} {acts : List (Act ω ε ι)}
    (going : leaving served.memory)
    (reached : Machine.run program.step served acts = some final) :
    acts.countP Act.isWorker + rank final.memory ≤ rank served.memory := by
  induction acts generalizing served with
  | nil =>
      cases reached
      simp
  | cons act rest induction =>
      obtain ⟨next, stepped, remaining⟩ := Machine.run_cons.mp reached
      have kept := leaves.step going stepped
      have bound := induction kept.1 remaining
      rw [List.countP_cons]
      omega

end Program

end Sismo
