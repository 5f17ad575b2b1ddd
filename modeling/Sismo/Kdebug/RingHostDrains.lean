import Sismo.Kdebug.RingHostWakeups

namespace Sismo.Kdebug.RingHost

/-! What the consumers are given: every event once and in order, and before a
stop is acknowledged all that was logged before it. -/

/-- The kernel lost the event, or the consumer was given it. -/
def Given (overwritten : List Nat) (ctl : ConsumerCtl) (event : Nat) : Prop :=
  event ∈ overwritten ∨ ∃ batch ∈ ctl.fed, batch.1 ≤ event ∧ event < batch.2

def InHand (source event : Nat) : Place → Prop
  | .feeding _ batch next => next ≤ source ∧ batch.1 ≤ event ∧ event < batch.2
  | _ => False

/-- Up to where a source's consumer can have been given events. -/
def limit (source head : Nat) : Place → Nat
  | .feeding _ batch next => if next ≤ source then batch.1 else head
  | _ => head

def BatchRead (head : Nat) : Place → Prop
  | .feeding _ batch _ => batch.1 ≤ batch.2 ∧ batch.2 ≤ head
  | _ => True

/-- A running consumer has every event read since it began to run. -/
structure Supplied (overwritten : List Nat) (head : Nat) (place : Place)
    (source : Nat) (ctl : ConsumerCtl) : Prop where
  given : ctl.running = true → ctl.hosted = true → ∀ event,
    ctl.startedAt ≤ event → event < head →
    Given overwritten ctl event ∨ InHand source event place
  ordered : ctl.fed.Pairwise fun earlier later => earlier.2 ≤ later.1
  limited : ∀ batch ∈ ctl.fed, batch.2 ≤ limit source head place

structure Delivers (s : State) : Prop where
  read : s.ring.head ≤ s.ring.tail
  batch : BatchRead s.ring.head s.place
  supplied : ∀ source ctl, s.ctls[source]? = some ctl →
    Supplied s.ring.overwritten s.ring.head s.place source ctl

theorem limit_le {source head : Nat} {place : Place}
    (batch : BatchRead head place) : limit source head place ≤ head := by
  unfold limit
  split
  · split
    · exact Nat.le_trans batch.1 batch.2
    · exact Nat.le_refl head
  · exact Nat.le_refl head

section

variable {overwritten : List Nat} {head source : Nat} {ctl : ConsumerCtl}

/-- A place without a batch, or at the end of one, holds nothing back. -/
theorem Supplied.settle {before after : Place}
    (supplied : Supplied overwritten head before source ctl)
    (batch : BatchRead head before)
    (none : ∀ event, ¬InHand source event before)
    (settled : limit source head after = head) :
    Supplied overwritten head after source ctl where
  given := fun running hosted event started lt =>
    (supplied.given running hosted event started lt).elim .inl
      fun hand => absurd hand (none event)
  ordered := supplied.ordered
  limited := fun given member => by
    rw [settled]
    exact Nat.le_trans (supplied.limited given member) (limit_le batch)

theorem Supplied.modify {place : Place} {f : ConsumerCtl → ConsumerCtl}
    (supplied : Supplied overwritten head place source ctl)
    (fed : (f ctl).fed = ctl.fed)
    (given : (f ctl).running = true → (f ctl).hosted = true →
      head ≤ (f ctl).startedAt ∨ ctl.running = true ∧ ctl.hosted = true ∧
        (f ctl).startedAt = ctl.startedAt) :
    Supplied overwritten head place source (f ctl) where
  given := fun running hosted event started lt => by
    rcases given running hosted with late | ⟨ran, had, same⟩
    · omega
    · rw [Given, fed]
      exact supplied.given ran had event (same ▸ started) lt
  ordered := by
    rw [fed]
    exact supplied.ordered
  limited := by
    rw [fed]
    exact supplied.limited

theorem Supplied.onDrain {drain : Drain} {batch : Nat × Nat}
    (supplied :
      Supplied overwritten head (.feeding drain batch source) source ctl)
    (read : batch.1 ≤ batch.2 ∧ batch.2 ≤ head) :
    Supplied overwritten head (.feeding drain batch (source + 1)) source
      (ctl.onDrain batch) := by
  have before : ∀ given ∈ ctl.fed, given.2 ≤ batch.1 := fun given member => by
    simpa [limit] using supplied.limited given member
  have past : limit source head (.feeding drain batch (source + 1)) = head :=
    if_neg (Nat.not_succ_le_self source)
  unfold ConsumerCtl.onDrain
  split
  · refine ⟨fun running hosted event started lt => .inl ?_, ?_, ?_⟩
    · rcases supplied.given running hosted event started lt with
        (lost | ⟨given, member, inside⟩) | ⟨_, inside⟩
      · exact .inl lost
      · exact .inr ⟨given, List.mem_append_left _ member, inside⟩
      · exact .inr ⟨batch, List.mem_append_right _ List.mem_cons_self, inside⟩
    · refine List.pairwise_append.mpr ⟨supplied.ordered,
        List.pairwise_singleton _ _, fun given member last same => ?_⟩
      rw [List.mem_singleton.mp same]
      exact before given member
    · intro given member
      rw [past]
      rcases List.mem_append.mp member with old | new
      · have := before given old
        omega
      · rw [List.mem_singleton.mp new]
        exact read.2
  · next idle =>
      refine ⟨fun running hosted => ?_, supplied.ordered, ?_⟩
      · rw [running, hosted] at idle
        simp at idle
      · intro given member
        rw [past]
        have := before given member
        omega

end

theorem Delivers.settle {s : State} {place : Place}
    (delivers : Delivers s)
    (none : ∀ source event, source < s.ctls.length →
      ¬InHand source event s.place)
    (batch : BatchRead s.ring.head place)
    (settled : ∀ source, limit source s.ring.head place = s.ring.head) :
    Delivers { s with place } where
  read := delivers.read
  batch := batch
  supplied := fun source ctl found =>
    (delivers.supplied source ctl found).settle delivers.batch
      (fun event => none source event (List.getElem?_eq_some_iff.mp found).1)
      (settled source)

/-- Control blocks that change without a batch being given. -/
theorem Delivers.modify {s : State} (delivers : Delivers s) (source : Nat)
    (f : ConsumerCtl → ConsumerCtl)
    (fed : ∀ ctl, (f ctl).fed = ctl.fed)
    (given : ∀ ctl, (f ctl).running = true → (f ctl).hosted = true →
      s.ring.head ≤ (f ctl).startedAt ∨ ctl.running = true ∧
        ctl.hosted = true ∧ (f ctl).startedAt = ctl.startedAt) :
    Delivers { s with ctls := s.ctls.modify source f } where
  read := delivers.read
  batch := delivers.batch
  supplied := fun i ctl found => by
    rw [List.getElem?_modify, Option.map_eq_map,
      Option.map_eq_some_iff] at found
    obtain ⟨before, found, rfl⟩ := found
    have supplied := delivers.supplied i before found
    split
    · exact supplied.modify (fed before) (given before)
    · exact supplied

theorem delivers_reading {s next : State} {outcome : Outcome} {drain : Drain}
    (delivers : Delivers s) (place : s.place = .reading drain)
    (worked : work s outcome = some next) : Delivers next := by
  have supplied := delivers.supplied
  rw [place] at supplied
  have order := delivers.read
  have upTo : s.ring.head ≤ s.ring.upTo ∧ s.ring.upTo ≤ s.ring.tail := by
    rw [KernelRing.upTo]
    omega
  simp only [work, place] at worked
  cases outcome with
  | done =>
      cases worked
      refine ⟨upTo.2, ⟨upTo.1, Nat.le_refl _⟩, fun source ctl found => ?_⟩
      have before := supplied source ctl found
      refine ⟨fun running hosted event started lt => ?_, before.ordered, ?_⟩
      · by_cases old : event < s.ring.head
        · exact (before.given running hosted event started old).elim .inl
            fun hand => absurd hand id
        · exact .inr ⟨Nat.zero_le source, Nat.le_of_not_lt old, lt⟩
      · intro given member
        simpa [limit] using before.limited given member
  | failed =>
      cases worked
      refine ⟨order, ⟨Nat.le_refl _, Nat.le_refl _⟩,
        fun source ctl found => ?_⟩
      have before := supplied source ctl found
      refine ⟨fun running hosted event started lt => ?_, before.ordered, ?_⟩
      · exact (before.given running hosted event started lt).elim .inl
          fun hand => absurd hand id
      · intro given member
        simpa [limit] using before.limited given member

theorem delivers_feeding {s next : State} {outcome : Outcome} {drain : Drain}
    {batch : Nat × Nat} {source : Nat} (delivers : Delivers s)
    (place : s.place = .feeding drain batch source)
    (worked : work s outcome = some next) : Delivers next := by
  have read := delivers.batch
  have supplied := delivers.supplied
  rw [place] at read supplied
  simp only [work, place] at worked
  split at worked
  · cases worked
    refine ⟨delivers.read, read, fun i ctl found => ?_⟩
    rw [List.getElem?_modify, Option.map_eq_map,
      Option.map_eq_some_iff] at found
    obtain ⟨before, found, rfl⟩ := found
    have here := supplied i before found
    split
    · next same =>
        cases same
        exact here.onDrain read
    · next other =>
        refine ⟨fun running hosted event started lt =>
          (here.given running hosted event started lt).imp id ?_,
          here.ordered, ?_⟩
        · intro hand
          exact ⟨Nat.lt_of_le_of_ne hand.1 other, hand.2⟩
        · intro given member
          have bound := here.limited given member
          simp only [limit] at bound ⊢
          split at bound <;> split <;> omega
  · next ended =>
      cases worked
      refine delivers.settle (fun i event lt hand => ?_) ?_ fun i => ?_
      · rw [place] at hand
        have := hand.1
        omega
      · cases drain <;> trivial
      · cases drain <;> rfl

/-- A step between two places that hold no batch. -/
theorem Delivers.move {s : State} {before after : Place}
    (delivers : Delivers s) (place : s.place = before)
    (batchless : (∀ drain batch source,
      before ≠ .feeding drain batch source) ∧ ∀ drain batch source,
      after ≠ .feeding drain batch source) :
    Delivers { s with place := after } := by
  apply delivers.settle
  · intro source event _ hand
    rw [place] at hand
    cases before with
    | feeding drain batch next => exact batchless.1 drain batch next rfl
    | _ => exact hand
  · cases after with
    | feeding drain batch next => exact absurd rfl (batchless.2 drain batch next)
    | _ => trivial
  · intro source
    cases after with
    | feeding drain batch next => exact absurd rfl (batchless.2 drain batch next)
    | _ => rfl

theorem delivers_work {s next : State} {outcome : Outcome}
    (delivers : Delivers s) (worked : work s outcome = some next) :
    Delivers next := by
  cases place : s.place with
  | reading drain => exact delivers_reading delivers place worked
  | feeding drain batch source => exact delivers_feeding delivers place worked
  | scan use source =>
      simp only [work, place] at worked
      split at worked
      · cases worked
        exact delivers.move place ⟨by simp, by cases use <;> simp [afterScan]⟩
      · split at worked
        · cases worked
          exact delivers.move place
            ⟨by simp, by cases use <;> simp [afterScan]⟩
        · cases worked
          exact delivers.move place (by simp)
  | collecting source stoppers =>
      simp only [work, place] at worked
      split at worked
      · cases worked
        exact delivers.move place
          ⟨by simp, by cases stoppers <;> simp [afterCollect]⟩
      · cases worked
        have swapped := delivers.modify source
          (fun ctl => ctl.swap) (fun _ => rfl)
          fun _ running hosted => .inr ⟨running, hosted, rfl⟩
        exact swapped.move place (by simp)
  | clearing source rest =>
      simp only [work, place] at worked
      cases worked
      have cleared := delivers.modify source
        (fun ctl => ctl.clear) (fun _ => rfl)
        fun _ running => by simp [ConsumerCtl.clear] at running
      exact cleared.move place (by simp)
  | acking stoppers =>
      cases stoppers with
      | nil =>
          simp only [work, place] at worked
          cases worked
          exact delivers.move place (by simp)
      | cons stopper rest =>
          simp only [work, place] at worked
          cases worked
          have moved : Delivers { s with
              place := .clearing stopper.source rest } :=
            delivers.move place (by simp)
          exact ⟨moved.read, moved.batch, moved.supplied⟩
  | _ =>
      simp only [work, place] at worked
      (repeat' split at worked) <;> cases worked <;>
        exact delivers.move place (by simp)

theorem delivers_apply {s next : State} {request : Request}
    (delivers : Delivers s) (applied : apply s request = some next) :
    Delivers next := by
  cases request with
  | setup | exit =>
      simp only [apply] at applied
      cases applied
      exact ⟨delivers.read, delivers.batch, delivers.supplied⟩
  | start source =>
      simp only [apply] at applied
      cases applied
      apply delivers.modify source (fun ctl => ctl.start s.ring.tail)
        fun _ => rfl
      intro ctl _ hosted
      cases running : ctl.running with
      | false =>
          left
          simpa [ConsumerCtl.start, running] using delivers.read
      | true =>
          right
          exact ⟨rfl, hosted, by simp [ConsumerCtl.start, running]⟩
  | stop source stopper =>
      simp only [apply] at applied
      split at applied
      · cases applied
        exact delivers
      · split at applied
        · simp at applied
        · cases applied
          have stopped := delivers.modify source
            (fun ctl => ctl.stop stopper s.ring.tail) (fun _ => rfl)
            fun _ running hosted => .inr ⟨running, hosted, rfl⟩
          exact ⟨stopped.read, stopped.batch, stopped.supplied⟩

theorem Given.mono {overwritten more : List Nat} {ctl : ConsumerCtl}
    {event : Nat} (given : Given overwritten ctl event)
    (subset : overwritten ⊆ more) : Given more ctl event :=
  given.imp (fun lost => subset lost) id

theorem log_some {room lost : Nat} {ring after : KernelRing}
    (logged : ring.log room lost = some after) :
    (ring.head + lost ≤ ring.tail ∧ ring.tail < ring.head + lost + room) ∧
      after = ⟨ring.head + lost, ring.tail + 1,
        ring.overwritten ++ List.range' ring.head lost⟩ := by
  obtain ⟨fits, same⟩ := Option.ite_none_right_eq_some.mp logged
  exact ⟨fits, (Option.some.inj same).symm⟩

theorem delivers_log {s : State} {room lost : Nat} {ring : KernelRing}
    (delivers : Delivers s) (logged : s.ring.log room lost = some ring) :
    Delivers { s with ring := ring } := by
  have batch := delivers.batch
  obtain ⟨⟨within, -⟩, rfl⟩ := log_some logged
  refine ⟨Nat.le_succ_of_le within, ?_, fun source ctl found => ?_⟩
  · cases place : s.place with
    | feeding drain read next =>
        rw [place] at batch
        exact ⟨batch.1, Nat.le_add_right_of_le batch.2⟩
    | _ => trivial
  · have before := delivers.supplied source ctl found
    refine ⟨fun running hosted event started lt => ?_, before.ordered, ?_⟩
    · rcases Nat.lt_or_ge event s.ring.head with read | unread
      · exact (before.given running hosted event started read).imp
          (fun given => given.mono (List.subset_append_left _ _)) id
      · exact .inl (.inl (List.mem_append_right _
          (List.mem_range'_1.mpr ⟨unread, lt⟩)))
    · intro given member
      have bound := before.limited given member
      unfold limit at bound ⊢
      split
      · next first =>
          rw [first] at bound
          dsimp only at bound ⊢
          split at bound <;> split <;> omega
      · next other =>
          split at bound
          · next first => exact absurd first (other _ _ _)
          · exact Nat.le_add_right_of_le bound

theorem keeps_delivers (room : Nat) : (program room).Keeps Delivers where
  apply := fun _ delivers applied => delivers_apply delivers applied
  disturb := fun _ delivers disturbed => by
    obtain ⟨ring, logged, rfl⟩ := Option.map_eq_some_iff.mp disturbed
    exact delivers_log delivers logged
  work := fun _ delivers worked => delivers_work delivers worked

/-- A read of the ring that is made succeeds. -/
def ReadsSucceed (s : Served State Request) :
    Act Request Nat Outcome → Prop
  | .worker .failed => ∀ drain, s.memory.place ≠ .reading drain
  | _ => True

/-- After the drain that precedes the acknowledgements. -/
def AfterFinal : Place → Prop
  | .feeding (.final _) _ _ => True
  | .acking _ => True
  | .clearing _ _ => True
  | _ => False

/-- Where the stops stand in the log. -/
structure StopsRead (room : Nat) (s : State) : Prop where
  within : s.ring.tail ≤ s.ring.head + room
  pending : ∀ ctl ∈ s.ctls, ctl.stopAt ≤ s.ring.tail
  taken : ∀ stopper ∈ held s.place, stopper.stopAt ≤ s.ring.tail
  read : AfterFinal s.place → ∀ stopper ∈ held s.place,
    stopper.stopAt ≤ s.ring.head

theorem stopAt_modify {ctls : List ConsumerCtl} {source bound : Nat}
    {f : ConsumerCtl → ConsumerCtl}
    (pending : ∀ ctl ∈ ctls, ctl.stopAt ≤ bound)
    (keeps : ∀ ctl, ctl.stopAt ≤ bound → (f ctl).stopAt ≤ bound) :
    ∀ ctl ∈ ctls.modify source f, ctl.stopAt ≤ bound := by
  intro ctl member
  obtain ⟨i, found⟩ := List.mem_iff_getElem?.mp member
  rw [List.getElem?_modify, Option.map_eq_map,
    Option.map_eq_some_iff] at found
  obtain ⟨before, found, rfl⟩ := found
  have holds := pending before (List.mem_of_getElem? found)
  split
  · exact keeps before holds
  · exact holds

theorem stopAt_onDrain {batch : Nat × Nat} (ctl : ConsumerCtl) :
    (ctl.onDrain batch).stopAt = ctl.stopAt := by
  unfold ConsumerCtl.onDrain
  split
  · rfl
  · rfl

/-- A place that holds no more stoppers than the one before. -/
theorem StopsRead.move {room : Nat} {s : State} {place : Place}
    {ctls : List ConsumerCtl} (stops : StopsRead room s)
    (pending : ∀ ctl ∈ ctls, ctl.stopAt ≤ s.ring.tail)
    (fewer : held place ⊆ held s.place)
    (final : AfterFinal place → AfterFinal s.place ∨ held place = []) :
    StopsRead room { s with ctls, place } where
  within := stops.within
  pending := pending
  taken := fun stopper member => stops.taken stopper (fewer member)
  read := fun after stopper member => by
    rcases final after with before | none
    · exact stops.read before stopper (fewer member)
    · dsimp only at member
      rw [none] at member
      simp at member

theorem stopsRead_reading {room : Nat} {s : State} {drain : Drain}
    (fits : room ≤ drainCapacityEvents) (stops : StopsRead room s)
    (place : s.place = .reading drain) :
    StopsRead room { s with
      ring := { s.ring with head := s.ring.upTo }
      place := .feeding drain (s.ring.head, s.ring.upTo) 0 } := by
  have within := stops.within
  have taken := stops.taken
  rw [place] at taken
  have all : s.ring.upTo = s.ring.tail := by
    rw [KernelRing.upTo]
    omega
  refine ⟨?_, stops.pending, ?_, fun _ => ?_⟩
  · dsimp only
    omega
  · intro stopper member
    dsimp only at member
    rw [held_reading] at member
    exact taken stopper member
  · intro stopper member
    dsimp only at member ⊢
    rw [held_reading] at member
    rw [all]
    exact taken stopper member

theorem stopsRead_work {room : Nat} {s next : State} {outcome : Outcome}
    (fits : room ≤ drainCapacityEvents) (stops : StopsRead room s)
    (succeeds : outcome = .failed → ∀ drain, s.place ≠ .reading drain)
    (worked : work s outcome = some next) : StopsRead room next := by
  cases place : s.place with
  | reading drain =>
      simp only [work, place] at worked
      cases outcome with
      | done =>
          cases worked
          exact stopsRead_reading fits stops place
      | failed => exact absurd place (succeeds rfl drain)
  | feeding drain batch source =>
      simp only [work, place] at worked
      split at worked
      · cases worked
        refine stops.move (stopAt_modify stops.pending fun ctl le => ?_) ?_ ?_
        · rw [stopAt_onDrain]
          exact le
        · rw [place, held_reading, held_reading]
          exact List.Subset.refl _
        · rw [place]
          cases drain <;> exact .inl
      · cases worked
        refine stops.move stops.pending ?_ ?_
        · rw [place, held_afterDrain]
          exact List.Subset.refl _
        · rw [place]
          cases drain with
          | interval => exact fun never => absurd never id
          | final => exact .inl
  | scan use source =>
      simp only [work, place] at worked
      split at worked
      · cases worked
        refine stops.move stops.pending ?_ fun _ => .inr (held_afterScan _ _)
        rw [held_afterScan]
        exact List.nil_subset _
      · split at worked
        · cases worked
          refine stops.move stops.pending ?_ fun _ => .inr (held_afterScan _ _)
          rw [held_afterScan]
          exact List.nil_subset _
        · cases worked
          exact stops.move stops.pending (List.nil_subset _) (absurd · id)
  | collecting source stoppers =>
      simp only [work, place] at worked
      split at worked
      · cases worked
        refine stops.move stops.pending ?_ ?_
        · rw [place, held_afterCollect]
          exact List.Subset.refl _
        · cases stoppers <;> exact (absurd · id)
      · next ctl found =>
          cases worked
          have pending := stops.pending
          refine ⟨stops.within, stopAt_modify pending fun _ le => le, ?_,
            (absurd · id)⟩
          have taken := stops.taken
          rw [place] at taken
          intro stopper member
          dsimp only [held] at member
          split at member
          · exact taken stopper member
          · rcases List.mem_append.mp member with old | new
            · exact taken stopper old
            · rw [List.mem_singleton.mp new]
              exact pending ctl (List.mem_of_getElem? found)
  | clearing source rest =>
      simp only [work, place] at worked
      cases worked
      refine stops.move (stopAt_modify stops.pending fun _ le => le) ?_ ?_
      · rw [place]
        exact List.Subset.refl _
      · rw [place]
        exact .inl
  | acking stoppers =>
      cases stoppers with
      | nil =>
          simp only [work, place] at worked
          cases worked
          exact stops.move stops.pending (List.nil_subset _) (absurd · id)
      | cons stopper rest =>
          simp only [work, place] at worked
          cases worked
          have moved : StopsRead room { s with
              place := .clearing stopper.source rest } := by
            refine stops.move stops.pending ?_ ?_
            · rw [place]
              exact List.subset_cons_self _ _
            · rw [place]
              exact .inl
          exact ⟨moved.within, moved.pending, moved.taken, moved.read⟩
  | _ =>
      simp only [work, place] at worked
      (repeat' split at worked) <;> cases worked <;>
        exact stops.move stops.pending (List.nil_subset _) (absurd · id)

theorem stopsRead_apply {room : Nat} {s next : State} {request : Request}
    (stops : StopsRead room s) (applied : apply s request = some next) :
    StopsRead room next := by
  cases request with
  | setup | exit =>
      simp only [apply] at applied
      cases applied
      exact ⟨stops.within, stops.pending, stops.taken, stops.read⟩
  | start source =>
      simp only [apply] at applied
      cases applied
      exact ⟨stops.within, stopAt_modify stops.pending fun _ le => le,
        stops.taken, stops.read⟩
  | stop source stopper =>
      simp only [apply] at applied
      split at applied
      · cases applied
        exact stops
      · split at applied
        · simp at applied
        · cases applied
          exact ⟨stops.within,
            stopAt_modify stops.pending fun _ _ => Nat.le_refl _,
            stops.taken, stops.read⟩

theorem stopsRead_log {room lost : Nat} {s : State} {ring : KernelRing}
    (stops : StopsRead room s) (logged : s.ring.log room lost = some ring) :
    StopsRead room { s with ring := ring } := by
  obtain ⟨⟨-, fits⟩, rfl⟩ := log_some logged
  exact ⟨fits,
    fun ctl member => Nat.le_succ_of_le (stops.pending ctl member),
    fun stopper member => Nat.le_succ_of_le (stops.taken stopper member),
    fun final stopper member =>
      Nat.le_add_right_of_le (stops.read final stopper member)⟩

theorem stopsRead_step {room : Nat} {s next : Served State Request}
    {act : Act Request Nat Outcome} (fits : room ≤ drainCapacityEvents)
    (stops : StopsRead room s.memory) (succeeds : ReadsSucceed s act)
    (stepped : (program room).step s act = some next) :
    StopsRead room next.memory := by
  cases act with
  | store request =>
      simp only [Program.step, Option.map_eq_some_iff] at stepped
      obtain ⟨memory, applied, rfl⟩ := stepped
      exact stopsRead_apply stops applied
  | set request =>
      simp only [Program.step, Option.map_eq_some_iff] at stepped
      obtain ⟨bell, _, rfl⟩ := stepped
      exact stops
  | disturb event =>
      simp only [Program.step, Option.map_eq_some_iff] at stepped
      obtain ⟨memory, disturbed, rfl⟩ := stepped
      obtain ⟨ring, logged, rfl⟩ := Option.map_eq_some_iff.mp disturbed
      exact stopsRead_log stops logged
  | worker outcome =>
      apply stopsRead_work fits stops _ (Program.step_worker stepped).1
      rintro rfl
      exact succeeds

theorem initial_fresh {hosted : List Bool} {ctl : ConsumerCtl}
    (member : ctl ∈ (initial hosted).memory.ctls) :
    ∃ hosted, ctl = { hosted := hosted } := by
  obtain ⟨first, _, rfl⟩ := List.mem_map.mp member
  exact ⟨first, rfl⟩

theorem delivers_initial (hosted : List Bool) :
    Delivers (initial hosted).memory where
  read := Nat.le_refl 0
  batch := trivial
  supplied := fun source ctl found => by
    obtain ⟨_, rfl⟩ := initial_fresh (List.mem_of_getElem? found)
    exact ⟨fun _ _ event _ lt => absurd lt (Nat.not_lt_zero event),
      List.Pairwise.nil, fun _ member => by simp at member⟩

theorem stopsRead_initial (room : Nat) (hosted : List Bool) :
    StopsRead room (initial hosted).memory where
  within := Nat.zero_le _
  pending := fun ctl member => by
    obtain ⟨_, rfl⟩ := initial_fresh member
    exact Nat.le_refl 0
  taken := fun _ member => by simp [initial, held] at member
  read := fun never => absurd never id

/-- However callbacks, kernel and worker interleave: where a kernel buffer fits
one drain and the reads succeed, a stop is acknowledged only when all that was
logged before it has been read, and a consumer still running has then been given
every event logged between its start and the stop, each in one batch and in
order, but those the kernel overwrote. -/
theorem stop_follows_drain {room : Nat} {hosted : List Bool}
    {acts : List (Act Request Nat Outcome)} {s : Served State Request}
    (fits : room ≤ drainCapacityEvents)
    (succeed : Machine.Along (program room).step ReadsSucceed (initial hosted)
      acts)
    (reached : Machine.run (program room).step (initial hosted) acts = some s)
    {stopper : Stopper} {rest : List Stopper}
    (acking : s.memory.place = .acking (stopper :: rest)) :
    stopper.stopAt ≤ s.memory.ring.head ∧
      ∀ ctl, s.memory.ctls[stopper.source]? = some ctl →
        ctl.fed.Pairwise (fun earlier later => earlier.2 ≤ later.1) ∧
        (ctl.running = true → ctl.hosted = true → ∀ event,
          ctl.startedAt ≤ event → event < stopper.stopAt →
          event ∈ s.memory.ring.overwritten ∨
            ∃ batch ∈ ctl.fed, batch.1 ≤ event ∧ event < batch.2) := by
  have kept : ∀ (state : Served State Request) act next,
      StopsRead room state.memory → ReadsSucceed state act →
      (program room).step state act = some next →
      StopsRead room next.memory := fun _ _ _ stops succeeds stepped =>
    stopsRead_step fits stops succeeds stepped
  have stops := Machine.run_invariant_along kept
    (stopsRead_initial room hosted) succeed reached
  have delivers := (keeps_delivers room).reachable (delivers_initial hosted)
    ⟨acts, reached⟩
  have read : stopper.stopAt ≤ s.memory.ring.head := by
    have final := stops.read
    rw [acking] at final
    exact final trivial stopper List.mem_cons_self
  refine ⟨read, fun ctl found => ?_⟩
  have supplied := delivers.supplied _ ctl found
  rw [acking] at supplied
  refine ⟨supplied.ordered, fun running hosted event started lt => ?_⟩
  exact (supplied.given running hosted event started
    (Nat.lt_of_lt_of_le lt read)).elim id fun hand => absurd hand id

/-- A source starts, two events are logged, it stops. -/
def stopRun : List (Act Request Nat Outcome) :=
  sleepRun ++ [.store (.start 0), .set (.start 0), .disturb 0, .disturb 0,
    .store (.stop 0 7), .set (.stop 0 7)] ++
    List.replicate 12 (.worker .done)

def logged : Served State Request where
  memory :=
    { sleeping.memory with
      ctls := [{
        running := true
        hosted := true
        pendingStopper := 7
        stopAt := 2 }]
      ring := { tail := 2 }
      issued := [7]
      live := [7] }
  bell := { signaled := true, stored := [.start 0, .stop 0 7] }

def drained : Served State Request where
  memory :=
    { sleeping.memory with
      ctls := [{
        running := true
        hosted := true
        stopAt := 2
        fed := [(0, 2), (2, 2)] }]
      ring := { head := 2, tail := 2 }
      issued := [7]
      live := [7]
      place := .acking [⟨7, 0, 2⟩] }

theorem stopRun_succeeds :
    Machine.Along (program 4).step ReadsSucceed (initial [true]) stopRun := by
  apply Machine.along_of_forall
  intro state act member
  simp only [stopRun, sleepRun, List.mem_append, List.mem_cons,
    List.mem_replicate, List.not_mem_nil, or_false] at member
  rcases member with (((rfl | rfl) | ⟨_, rfl⟩) |
    (rfl | rfl | rfl | rfl | rfl | rfl)) | ⟨_, rfl⟩ <;> trivial

theorem stopRun_drained :
    Machine.run (program 4).step (initial [true]) stopRun = some drained :=
  Machine.run_append.mpr ⟨logged, rfl, rfl⟩

theorem stop_follows_drain_stopRun :
    2 ≤ drained.memory.ring.head ∧
      ∀ ctl, drained.memory.ctls[0]? = some ctl →
        ctl.fed.Pairwise (fun earlier later => earlier.2 ≤ later.1) ∧
        (ctl.running = true → ctl.hosted = true → ∀ event,
          ctl.startedAt ≤ event → event < 2 →
          event ∈ drained.memory.ring.overwritten ∨
            ∃ batch ∈ ctl.fed, batch.1 ≤ event ∧ event < batch.2) :=
  stop_follows_drain (by decide) stopRun_succeeds stopRun_drained rfl

end Sismo.Kdebug.RingHost
