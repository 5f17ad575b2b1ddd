import Sismo.Lib.Machine

namespace Sismo

/-! A worker that takes all pings queued in a channel together and then works on
a new reading of the world. -/

/-- A reading of the world, if it can be had, and the work on it. -/
structure Reloader (ω : Type u) (ρ : Type v) (ι : Type w) (τ : Type x) where
  read : ω → Option ρ
  work : τ → ρ × ι → Option τ

namespace Reloader

inductive Place (ρ : Type v) where
  | reading
  | working (reading : ρ)
  | receiving
  | coalescing
  | exited
  deriving DecidableEq, Repr

/-- The world, the channel and the worker. The counts of pings sent and of
those sent before the last reading, what the world was then, whether it is as
it was at the last ping, and the work done are ghosts. -/
structure State (ω : Type u) (ρ : Type v) (ι : Type w) (τ : Type x) where
  world : ω
  queued : Nat := 0
  hungUp : Bool := false
  place : Place ρ := .reading
  result : τ
  sent : Nat := 0
  seen : Nat := 0
  lastRead : Option ω := none
  quiet : Bool := true
  readings : Nat := 0
  done : List (ρ × ι) := []

inductive Act (ω : Type u) (ι : Type w) where
  | change (world : ω)
  | ping
  | hangUp
  | receive
  | coalesce
  | read
  | work (input : ι)

def Act.isWorker {ω : Type u} {ι : Type w} : Act ω ι → Bool
  | .change _ | .ping | .hangUp => false
  | .receive | .coalesce | .read | .work _ => true

variable {ω : Type u} {ρ : Type v} {ι : Type w} {τ : Type x}
variable (reloader : Reloader ω ρ ι τ)

/-- The receiver blocks on an empty channel until it is hung up. -/
def receive (s : State ω ρ ι τ) : Option (State ω ρ ι τ) :=
  match s.place with
  | .receiving =>
      if 0 < s.queued then
        some { s with queued := s.queued - 1, place := .coalescing }
      else if s.hungUp then some { s with place := .exited }
      else none
  | _ => none

def coalesce (s : State ω ρ ι τ) : Option (State ω ρ ι τ) :=
  match s.place with
  | .coalescing =>
      if 0 < s.queued then some { s with queued := s.queued - 1 }
      else some { s with place := .reading }
  | _ => none

def takeReading (s : State ω ρ ι τ) : Option (State ω ρ ι τ) :=
  match s.place with
  | .reading =>
      some { s with
        place :=
          match reloader.read s.world with
          | some reading => .working reading
          | none => .receiving
        seen := s.sent
        lastRead := some s.world
        readings := s.readings + 1 }
  | _ => none

def workOn (s : State ω ρ ι τ) (input : ι) : Option (State ω ρ ι τ) :=
  match s.place with
  | .working reading =>
      (reloader.work s.result (reading, input)).map fun result =>
        { s with
          place := .receiving
          result := result
          done := s.done ++ [(reading, input)] }
  | _ => none

def step (s : State ω ρ ι τ) : Act ω ι → Option (State ω ρ ι τ)
  | .change world => some { s with world := world, quiet := false }
  | .ping =>
      if s.hungUp then none
      else some { s with
        queued := s.queued + 1
        sent := s.sent + 1
        quiet := true }
  | .hangUp => some { s with hungUp := true }
  | .receive => receive s
  | .coalesce => coalesce s
  | .read => reloader.takeReading s
  | .work input => reloader.workOn s input

def initial (world : ω) (result : τ) : State ω ρ ι τ where
  world := world
  result := result

namespace State

/-- A reading is still to come without another ping. -/
def willRead (s : State ω ρ ι τ) : Bool :=
  match s.place with
  | .reading | .coalescing => true
  | .working _ | .receiving | .exited => false

def Idle (s : State ω ρ ι τ) : Prop :=
  s.place = .receiving ∧ s.queued = 0 ∨ s.place = .exited

end State

/-! ### What the steps do -/

section

variable {s next : State ω ρ ι τ}

theorem receive_cases (stepped : receive s = some next) :
    s.place = .receiving ∧
      (0 < s.queued ∧
          next = { s with queued := s.queued - 1, place := .coalescing } ∨
        s.queued = 0 ∧ s.hungUp = true ∧
          next = { s with place := .exited }) := by
  rw [receive] at stepped
  split at stepped
  · next place =>
      refine ⟨place, ?_⟩
      split_ifs at stepped with queued hungUp
      · exact .inl ⟨queued, (Option.some.inj stepped).symm⟩
      · exact .inr ⟨by omega, hungUp, (Option.some.inj stepped).symm⟩
  · cases stepped

theorem coalesce_cases (stepped : coalesce s = some next) :
    s.place = .coalescing ∧
      (0 < s.queued ∧ next = { s with queued := s.queued - 1 } ∨
        s.queued = 0 ∧ next = { s with place := .reading }) := by
  rw [coalesce] at stepped
  split at stepped
  · next place =>
      refine ⟨place, ?_⟩
      split_ifs at stepped with queued
      · exact .inl ⟨queued, (Option.some.inj stepped).symm⟩
      · exact .inr ⟨by omega, (Option.some.inj stepped).symm⟩
  · cases stepped

variable {reloader : Reloader ω ρ ι τ}

theorem takeReading_cases (stepped : reloader.takeReading s = some next) :
    s.place = .reading ∧ ∃ place,
      (place = .receiving ∧ reloader.read s.world = none ∨
        ∃ reading, place = .working reading ∧
          reloader.read s.world = some reading) ∧
      next = { s with
        place := place
        seen := s.sent
        lastRead := some s.world
        readings := s.readings + 1 } := by
  rw [takeReading] at stepped
  split at stepped
  · next place =>
      refine ⟨place, _, ?_, (Option.some.inj stepped).symm⟩
      cases read : reloader.read s.world with
      | none => exact .inl ⟨rfl, rfl⟩
      | some reading => exact .inr ⟨reading, rfl, rfl⟩
  · cases stepped

theorem workOn_cases {input : ι} (stepped : reloader.workOn s input = some next) :
    ∃ reading result, s.place = .working reading ∧
      reloader.work s.result (reading, input) = some result ∧
      next = { s with
        place := .receiving
        result := result
        done := s.done ++ [(reading, input)] } := by
  rw [workOn] at stepped
  split at stepped
  · next reading place =>
      obtain ⟨result, worked, rfl⟩ := Option.map_eq_some_iff.mp stepped
      exact ⟨reading, result, place, worked, rfl⟩
  · cases stepped

end

/-! ### No ping is lost -/

structure Keeps (reloader : Reloader ω ρ ι τ) (start : τ)
    (s : State ω ρ ι τ) : Prop where
  bounded : s.seen ≤ s.sent
  queued : s.willRead = false → s.sent ≤ s.seen + s.queued
  read : s.willRead = false → s.lastRead.isSome
  current : s.quiet = true → s.seen = s.sent →
    ∀ world, s.lastRead = some world → world = s.world
  exited : s.place = .exited → s.queued = 0 ∧ s.hungUp = true
  working : ∀ reading, s.place = .working reading →
    s.lastRead.bind reloader.read = some reading
  worked : s.willRead = false → (∀ reading, s.place ≠ .working reading) →
    ∀ reading, s.lastRead.bind reloader.read = some reading →
      ∃ input, s.done.getLast? = some (reading, input)
  ran : Machine.run reloader.work start s.done = some s.result
  counted : s.readings + s.willRead.toNat + s.queued ≤ s.sent + 1

section

variable {reloader : Reloader ω ρ ι τ} {start : τ} {s next : State ω ρ ι τ}

theorem keeps_initial (reloader : Reloader ω ρ ι τ) (world : ω) (start : τ) :
    Keeps reloader start (initial world start) where
  bounded := Nat.le_refl _
  queued will := by cases will
  read will := by cases will
  current _ _ _ read := by cases read
  exited place := by cases place
  working _ place := by cases place
  worked will := by cases will
  ran := rfl
  counted := Nat.le_refl _

theorem Keeps.receive (keeps : Keeps reloader start s)
    (stepped : receive s = some next) : Keeps reloader start next := by
  obtain ⟨place, ⟨queued, rfl⟩ | ⟨empty, hungUp, rfl⟩⟩ := receive_cases stepped
  · have counted := keeps.counted
    have waits : s.willRead = false := by rw [State.willRead, place]
    rw [waits] at counted
    exact
      { bounded := keeps.bounded
        queued := fun will => by cases will
        read := fun will => by cases will
        current := keeps.current
        exited := fun exited => by cases exited
        working := fun _ working => by cases working
        worked := fun will => by cases will
        ran := keeps.ran
        counted := by
          simp only [State.willRead, Bool.toNat_true, Bool.toNat_false] at *
          omega }
  · have waits : s.willRead = false := by rw [State.willRead, place]
    have counted := keeps.counted
    rw [waits] at counted
    exact
      { bounded := keeps.bounded
        queued := fun _ => keeps.queued waits
        read := fun _ => keeps.read waits
        current := keeps.current
        exited := fun _ => ⟨empty, hungUp⟩
        working := fun _ working => by cases working
        worked := fun _ _ => keeps.worked waits
          (by intro reading; rw [place]; exact nofun)
        ran := keeps.ran
        counted := counted }

theorem Keeps.coalesce (keeps : Keeps reloader start s)
    (stepped : coalesce s = some next) : Keeps reloader start next := by
  obtain ⟨place, ⟨queued, rfl⟩ | ⟨empty, rfl⟩⟩ := coalesce_cases stepped
  · have will : s.willRead = true := by rw [State.willRead, place]
    have counted := keeps.counted
    have still : ({ s with queued := s.queued - 1 } :
        State ω ρ ι τ).willRead = true := will
    exact
      { keeps with
        queued := fun waits => absurd waits (by rw [still]; decide)
        exited := fun exited => by cases place.symm.trans exited
        counted := by
          rw [still]
          rw [will] at counted
          dsimp only
          omega }
  · have will : s.willRead = true := by rw [State.willRead, place]
    have counted := keeps.counted
    rw [will] at counted
    exact
      { bounded := keeps.bounded
        queued := fun waits => by cases waits
        read := fun waits => by cases waits
        current := keeps.current
        exited := fun exited => by cases exited
        working := fun _ working => by cases working
        worked := fun waits => by cases waits
        ran := keeps.ran
        counted := counted }

theorem Keeps.takeReading (keeps : Keeps reloader start s)
    (stepped : reloader.takeReading s = some next) :
    Keeps reloader start next := by
  obtain ⟨place, after, outcome, rfl⟩ := takeReading_cases stepped
  have will : s.willRead = true := by rw [State.willRead, place]
  have counted := keeps.counted
  rw [will, Bool.toNat_true] at counted
  rcases outcome with ⟨rfl, unread⟩ | ⟨reading, rfl, read⟩
  · exact
      { bounded := Nat.le_refl _
        queued := fun _ => Nat.le_add_right _ _
        read := fun _ => rfl
        current := fun _ _ world same => (Option.some.inj same).symm
        exited := fun exited => by cases exited
        working := fun _ working => by cases working
        worked := fun _ _ reading read => by cases unread.symm.trans read
        ran := keeps.ran
        counted := by
          simp only [State.willRead, Bool.toNat_false]
          omega }
  · exact
      { bounded := Nat.le_refl _
        queued := fun _ => Nat.le_add_right _ _
        read := fun _ => rfl
        current := fun _ _ world same => (Option.some.inj same).symm
        exited := fun exited => by cases exited
        working := fun other working => by
          cases working
          exact read
        worked := fun _ idle => absurd rfl (idle reading)
        ran := keeps.ran
        counted := by
          simp only [State.willRead, Bool.toNat_false]
          omega }

theorem Keeps.workOn (keeps : Keeps reloader start s) {input : ι}
    (stepped : reloader.workOn s input = some next) :
    Keeps reloader start next := by
  obtain ⟨reading, result, place, worked, rfl⟩ := workOn_cases stepped
  have waits : s.willRead = false := by rw [State.willRead, place]
  have counted := keeps.counted
  rw [waits] at counted
  exact
    { bounded := keeps.bounded
      queued := fun _ => keeps.queued waits
      read := fun _ => keeps.read waits
      current := keeps.current
      exited := fun exited => by cases exited
      working := fun _ working => by cases working
      worked := fun _ _ other read => by
        cases (keeps.working reading place).symm.trans read
        exact ⟨input, List.getLast?_concat⟩
      ran := Machine.run_append.mpr ⟨s.result, keeps.ran,
        Machine.run_cons.mpr ⟨result, worked, rfl⟩⟩
      counted := counted }

theorem Keeps.step (keeps : Keeps reloader start s) {act : Act ω ι}
    (stepped : reloader.step s act = some next) :
    Keeps reloader start next := by
  cases act with
  | change world =>
      cases stepped
      exact { keeps with current := fun quiet => by cases quiet }
  | ping =>
      rw [Reloader.step] at stepped
      split_ifs at stepped with hungUp
      cases stepped
      have counted := keeps.counted
      have bounded := keeps.bounded
      exact
        { bounded := Nat.le_succ_of_le keeps.bounded
          queued := fun waits => Nat.succ_le_succ (keeps.queued waits)
          read := keeps.read
          current := fun _ same => by
            dsimp only at same
            omega
          exited := fun exited => absurd (keeps.exited exited).2 hungUp
          working := keeps.working
          worked := keeps.worked
          ran := keeps.ran
          counted := by
            change s.readings + s.willRead.toNat + (s.queued + 1) ≤
              s.sent + 1 + 1
            omega }
  | hangUp =>
      cases stepped
      exact { keeps with
        exited := fun exited => ⟨(keeps.exited exited).1, rfl⟩ }
  | receive => exact keeps.receive stepped
  | coalesce => exact keeps.coalesce stepped
  | read => exact keeps.takeReading stepped
  | work input => exact keeps.workOn stepped

theorem Keeps.reachable {world : ω}
    (reachable : Machine.Reachable reloader.step (initial world start) s) :
    Keeps reloader start s :=
  reachable.invariant (fun _ _ _ keeps stepped => keeps.step stepped)
    (keeps_initial reloader world start)

/-- Once there is nothing to do, the last reading was taken after the last
ping; it is of the present world, unless that has changed since the ping. -/
theorem Keeps.idle (keeps : Keeps reloader start s) (idle : s.Idle) :
    s.seen = s.sent ∧ ∃ world, s.lastRead = some world ∧
      (s.quiet = true → world = s.world) ∧
      ∀ reading, reloader.read world = some reading →
        ∃ input, s.done.getLast? = some (reading, input) := by
  have waits : s.willRead = false ∧
      (∀ reading, s.place ≠ .working reading) ∧ s.queued = 0 := by
    rcases idle with ⟨place, empty⟩ | place
    · exact ⟨by rw [State.willRead, place], by simp [place], empty⟩
    · exact ⟨by rw [State.willRead, place], by simp [place],
        (keeps.exited place).1⟩
  obtain ⟨waits, free, empty⟩ := waits
  have later := keeps.queued waits
  have bounded := keeps.bounded
  have served : s.seen = s.sent := by omega
  obtain ⟨world, read⟩ := Option.isSome_iff_exists.mp (keeps.read waits)
  refine ⟨served, world, read,
    fun quiet => keeps.current quiet served world read, ?_⟩
  intro reading known
  refine keeps.worked waits free reading ?_
  rw [read]
  exact known

end

/-! ### The worker leaves when it is hung up -/

namespace State

/-- The steps the worker can take before it exits or works on new pings. -/
def rank (s : State ω ρ ι τ) : Nat :=
  4 * s.queued +
    match s.place with
    | .exited => 0
    | .receiving => 1
    | .working _ => 2
    | .reading => 3
    | .coalescing => 4

end State

section

variable {reloader : Reloader ω ρ ι τ} {s next : State ω ρ ι τ}

theorem rank_lt {act : Act ω ι} (own : act.isWorker = true)
    (stepped : reloader.step s act = some next) : next.rank < s.rank := by
  cases act with
  | change world => cases own
  | ping => cases own
  | hangUp => cases own
  | receive =>
      obtain ⟨place, ⟨queued, rfl⟩ | ⟨empty, hungUp, rfl⟩⟩ :=
        receive_cases stepped
      · simp only [State.rank, place]
        omega
      · simp only [State.rank, place]
        omega
  | coalesce =>
      obtain ⟨place, ⟨queued, rfl⟩ | ⟨empty, rfl⟩⟩ := coalesce_cases stepped
      · simp only [State.rank, place]
        omega
      · simp only [State.rank, place]
        omega
  | read =>
      obtain ⟨place, after, ⟨rfl, _⟩ | ⟨reading, rfl, _⟩, rfl⟩ :=
        takeReading_cases stepped
      · simp only [State.rank, place]
        omega
      · simp only [State.rank, place]
        omega
  | work input =>
      obtain ⟨reading, result, place, worked, rfl⟩ := workOn_cases stepped
      simp only [State.rank, place]
      omega

theorem hungUp_kept {act : Act ω ι} (hungUp : s.hungUp = true)
    (stepped : reloader.step s act = some next) : next.hungUp = true := by
  cases act with
  | change world =>
      cases stepped
      exact hungUp
  | ping =>
      rw [step, if_pos hungUp] at stepped
      cases stepped
  | hangUp =>
      cases stepped
      rfl
  | receive =>
      obtain ⟨place, ⟨queued, rfl⟩ | ⟨empty, _, rfl⟩⟩ := receive_cases stepped
      · exact hungUp
      · exact hungUp
  | coalesce =>
      obtain ⟨place, ⟨queued, rfl⟩ | ⟨empty, rfl⟩⟩ := coalesce_cases stepped
      · exact hungUp
      · exact hungUp
  | read =>
      obtain ⟨place, after, outcome, rfl⟩ := takeReading_cases stepped
      exact hungUp
  | work input =>
      obtain ⟨reading, result, place, worked, rfl⟩ := workOn_cases stepped
      exact hungUp

/-- A worker that is hung up and has not exited has a step to take, if there is
work to do on every reading. -/
theorem hungUp_enabled
    (works : ∀ result reading, ∃ input next,
      reloader.work result (reading, input) = some next)
    (hungUp : s.hungUp = true) (runs : s.place ≠ .exited) :
    ∃ act : Act ω ι, act.isWorker = true ∧
      ∃ next, reloader.step s act = some next := by
  cases place : s.place with
  | reading => exact ⟨.read, rfl, by simp [step, takeReading, place]⟩
  | working reading =>
      obtain ⟨input, result, worked⟩ := works s.result reading
      exact ⟨.work input, rfl, by simp [step, workOn, place, worked]⟩
  | receiving =>
      by_cases queued : 0 < s.queued
      · exact ⟨.receive, rfl, by simp [step, receive, place, queued]⟩
      · exact ⟨.receive, rfl, by simp [step, receive, place, queued, hungUp]⟩
  | coalescing =>
      by_cases queued : 0 < s.queued
      · exact ⟨.coalesce, rfl, by simp [step, coalesce, place, queued]⟩
      · exact ⟨.coalesce, rfl, by simp [step, coalesce, place, queued]⟩
  | exited => exact absurd place runs

/-- However the world changes meanwhile, a worker that is hung up takes no more
steps than its rank, and has one to take as long as it has not exited. -/
theorem hungUp_exits
    (works : ∀ result reading, ∃ input next,
      reloader.work result (reading, input) = some next)
    {acts : List (Act ω ι)} {last : State ω ρ ι τ} (hungUp : s.hungUp = true)
    (reached : Machine.run reloader.step s acts = some last) :
    acts.countP Act.isWorker + last.rank ≤ s.rank ∧
      (last.place ≠ .exited → ∃ act : Act ω ι, act.isWorker = true ∧
        ∃ next, reloader.step last act = some next) := by
  induction acts generalizing s with
  | nil =>
      cases reached
      exact ⟨by simp, hungUp_enabled works hungUp⟩
  | cons act rest induction =>
      obtain ⟨next, stepped, remaining⟩ := Machine.run_cons.mp reached
      obtain ⟨bound, enabled⟩ := induction (hungUp_kept hungUp stepped)
        remaining
      refine ⟨?_, enabled⟩
      rw [List.countP_cons]
      split_ifs with own
      · have shorter := rank_lt own stepped
        omega
      · have same : next.rank = s.rank := by
          cases act with
          | change world =>
              cases stepped
              rfl
          | ping =>
              rw [step, if_pos hungUp] at stepped
              cases stepped
          | hangUp =>
              cases stepped
              rfl
          | receive => exact absurd rfl own
          | coalesce => exact absurd rfl own
          | read => exact absurd rfl own
          | work input => exact absurd rfl own
        omega

end

end Reloader

end Sismo
