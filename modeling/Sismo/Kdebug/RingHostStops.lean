import Sismo.Kdebug.RingHostWakeups
import Sismo.Lib.Counting

namespace Sismo.Kdebug.RingHost

/-! The handles of the SDK's stops: none is given back twice, and none is
forgotten but those a later stop replaced. -/

def ConsumerCtl.pending (ctl : ConsumerCtl) : List Nat :=
  if ctl.pendingStopper = 0 then [] else [ctl.pendingStopper]

def ConsumerCtl.handles (ctl : ConsumerCtl) : List Nat :=
  ctl.pending ++ ctl.replaced

def heldHandles (place : Place) : List Nat :=
  (held place).map Stopper.handle

theorem count_handles_stop {ctl : ConsumerCtl} {handle logged : Nat}
    (nonzero : handle ≠ 0) (wanted : Nat) :
    (ctl.stop handle logged).handles.count wanted =
      ctl.handles.count wanted + [handle].count wanted := by
  simp only [ConsumerCtl.handles, ConsumerCtl.pending, ConsumerCtl.stop,
    nonzero, if_false, List.count_append]
  by_cases none : ctl.pendingStopper = 0
  · simp [none, Nat.add_comm]
  · simp only [none, if_false, List.count_append]
    omega

theorem count_handles_swap (ctl : ConsumerCtl) (wanted : Nat) :
    ctl.handles.count wanted =
      ctl.swap.handles.count wanted + ctl.pending.count wanted := by
  simp only [ConsumerCtl.handles, ConsumerCtl.pending, ConsumerCtl.swap,
    List.count_append, if_true]
  simp [Nat.add_comm]

theorem handles_onDrain {batch : Nat × Nat} (ctl : ConsumerCtl) :
    (ctl.onDrain batch).handles = ctl.handles := by
  unfold ConsumerCtl.onDrain
  split
  · rfl
  · rfl

/-- The live handles are the pending, the taken and the replaced ones. -/
structure Accounted (s : State) : Prop where
  distinct : s.live.Nodup
  live : ∀ handle, s.live.count handle =
    (s.ctls.flatMap ConsumerCtl.handles).count handle +
      (heldHandles s.place).count handle
  issued : ∀ handle, s.issued.count handle =
    s.acked.count handle + s.live.count handle

theorem Accounted.move {s : State} {place : Place} {ctls : List ConsumerCtl}
    {ring : KernelRing} (accounted : Accounted s)
    (handles : ctls.flatMap ConsumerCtl.handles =
      s.ctls.flatMap ConsumerCtl.handles)
    (same : held place = held s.place) :
    Accounted { s with ctls, place, ring } := by
  refine ⟨accounted.distinct, fun handle => ?_, accounted.issued⟩
  dsimp only
  rw [handles, heldHandles, same]
  exact accounted.live handle

theorem Accounted.stop {s : State} {source stopper : Nat}
    (accounted : Accounted s) (nonzero : stopper ≠ 0)
    (fresh : stopper ∉ s.live) (known : source < s.ctls.length) :
    Accounted { s with
      ctls := s.ctls.modify source fun ctl => ctl.stop stopper s.ring.tail
      issued := s.issued ++ [stopper]
      live := s.live ++ [stopper] } := by
  refine ⟨?_, fun handle => ?_, fun handle => ?_⟩
  · exact List.nodup_append.mpr ⟨accounted.distinct, List.nodup_singleton _,
      fun a first b last => by
        rw [List.mem_singleton.mp last]
        rintro rfl
        exact fresh first⟩
  · have modified := count_flatMap_modify ConsumerCtl.handles handle
      (List.getElem?_eq_getElem known)
      (f := fun ctl => ctl.stop stopper s.ring.tail)
    rw [count_handles_stop nonzero] at modified
    have before := accounted.live handle
    dsimp only
    rw [List.count_append]
    omega
  · have before := accounted.issued handle
    dsimp only
    rw [List.count_append, List.count_append]
    omega

theorem accounted_collect {s : State} {source : Nat} {ctl : ConsumerCtl}
    {stoppers : List Stopper} (accounted : Accounted s)
    (place : s.place = .collecting source stoppers)
    (found : s.ctls[source]? = some ctl) {taken : List Stopper}
    (taken_eq : taken = if ctl.pendingStopper = 0 then stoppers
      else stoppers ++ [⟨ctl.pendingStopper, source, ctl.stopAt⟩]) :
    Accounted { s with
      ctls := s.ctls.modify source fun ctl => ctl.swap
      place := .collecting (source + 1) taken } := by
  refine ⟨accounted.distinct, fun handle => ?_, accounted.issued⟩
  have modified := count_flatMap_modify ConsumerCtl.handles handle found
    (f := fun ctl => ctl.swap)
  rw [count_handles_swap ctl] at modified
  have before := accounted.live handle
  rw [place] at before
  have more : (taken.map Stopper.handle).count handle =
      (stoppers.map Stopper.handle).count handle +
        ctl.pending.count handle := by
    rw [taken_eq, ConsumerCtl.pending]
    split
    · simp
    · rw [List.map_append, List.count_append]
      rfl
  simp only [heldHandles, held] at before ⊢
  omega

theorem accounted_ack {s : State} {stopper : Stopper} {rest : List Stopper}
    (accounted : Accounted s) (place : s.place = .acking (stopper :: rest)) :
    stopper.handle ∈ s.live ∧ Accounted { s with
      live := s.live.erase stopper.handle
      acked := s.acked ++ [stopper.handle]
      place := .clearing stopper.source rest } := by
  have before := accounted.live
  rw [place] at before
  simp only [heldHandles, held, List.map_cons, List.count_cons] at before
  have member : stopper.handle ∈ s.live := by
    have here := before stopper.handle
    rw [if_pos (beq_self_eq_true _)] at here
    exact List.count_pos_iff.mp (by omega)
  refine ⟨member, accounted.distinct.erase _, fun handle => ?_,
    fun handle => ?_⟩
  · have here := before handle
    simp only [heldHandles, held, List.count_erase]
    omega
  · have issued := accounted.issued handle
    have here := before handle
    simp only [List.count_append, List.count_erase, List.count_singleton]
    omega

theorem accounted_work {s next : State} {outcome : Outcome}
    (accounted : Accounted s) (worked : work s outcome = some next) :
    Accounted next := by
  cases place : s.place with
  | scan use source =>
      simp only [work, place] at worked
      split at worked
      · cases worked
        exact accounted.move rfl (by rw [held_afterScan, place]; rfl)
      · split at worked
        · cases worked
          exact accounted.move rfl (by rw [held_afterScan, place]; rfl)
        · cases worked
          exact accounted.move rfl (by rw [place]; rfl)
  | reading drain =>
      simp only [work, place] at worked
      split at worked <;> cases worked <;>
        exact accounted.move rfl (by rw [place, held_reading])
  | feeding drain batch source =>
      simp only [work, place] at worked
      split at worked
      · cases worked
        exact accounted.move (flatMap_modify_same handles_onDrain)
          (by rw [place, held_reading, held_reading])
      · cases worked
        exact accounted.move rfl (by rw [place, held_afterDrain])
  | collecting source stoppers =>
      simp only [work, place] at worked
      split at worked
      · cases worked
        exact accounted.move rfl (by rw [place, held_afterCollect]; rfl)
      · next ctl found =>
          cases worked
          exact accounted_collect accounted place found rfl
  | acking stoppers =>
      cases stoppers with
      | nil =>
          simp only [work, place] at worked
          cases worked
          exact accounted.move rfl (by rw [place]; rfl)
      | cons stopper rest =>
          simp only [work, place] at worked
          cases worked
          exact (accounted_ack accounted place).2
  | clearing source rest =>
      simp only [work, place] at worked
      cases worked
      exact accounted.move (flatMap_modify_same fun _ => rfl)
        (by rw [place]; rfl)
  | _ =>
      simp only [work, place] at worked
      (repeat' split at worked) <;> cases worked <;>
        exact accounted.move rfl (by rw [place]; rfl)

theorem accounted_apply {s next : State} {request : Request}
    (accounted : Accounted s) (applied : apply s request = some next) :
    Accounted next := by
  cases request with
  | setup | exit =>
      simp only [apply] at applied
      cases applied
      exact ⟨accounted.distinct, accounted.live, accounted.issued⟩
  | start source =>
      simp only [apply] at applied
      cases applied
      exact accounted.move (flatMap_modify_same fun _ => rfl) rfl
  | stop source stopper =>
      simp only [apply] at applied
      split at applied
      · cases applied
        exact accounted
      · next nonzero =>
          split at applied
          · simp at applied
          · next free =>
              rw [not_or, Nat.not_le] at free
              cases applied
              exact accounted.stop nonzero free.1 free.2

theorem keeps_accounted (room : Nat) : (program room).Keeps Accounted where
  apply := fun _ accounted applied => accounted_apply accounted applied
  disturb := fun _ accounted disturbed => by
    obtain ⟨ring, -, rfl⟩ := Option.map_eq_some_iff.mp disturbed
    exact accounted.move rfl rfl
  work := fun _ accounted worked => accounted_work accounted worked

theorem accounted_initial (hosted : List Bool) :
    Accounted (initial hosted).memory := by
  refine ⟨List.nodup_nil, fun handle => ?_, fun handle => rfl⟩
  have none : (initial hosted).memory.ctls.flatMap ConsumerCtl.handles = [] := by
    rw [List.flatMap_eq_nil_iff]
    intro ctl member
    obtain ⟨first, _, rfl⟩ := List.mem_map.mp member
    rfl
  rw [none]
  rfl

theorem accounted_reachable {room : Nat} {hosted : List Bool}
    {s : Served State Request} (reached : Reachable room hosted s) :
    Accounted s.memory :=
  (keeps_accounted room).reachable (accounted_initial hosted) reached

theorem issued_perm {s : State} (accounted : Accounted s) :
    s.issued.Perm (s.acked ++ s.live) := by
  rw [List.perm_iff_count]
  intro handle
  rw [List.count_append]
  exact accounted.issued handle

theorem live_perm {s : State} (accounted : Accounted s) :
    s.live.Perm (s.ctls.flatMap ConsumerCtl.pending ++
      heldHandles s.place ++ s.ctls.flatMap ConsumerCtl.replaced) := by
  rw [List.perm_iff_count]
  intro handle
  have split : (s.ctls.flatMap ConsumerCtl.handles).count handle =
      (s.ctls.flatMap ConsumerCtl.pending).count handle +
        (s.ctls.flatMap ConsumerCtl.replaced).count handle := by
    rw [← List.count_append]
    exact (List.flatMap_append_perm _ _ _).symm.count_eq handle
  have live := accounted.live handle
  rw [List.count_append, List.count_append]
  omega

/-- Whatever interleaves, the host gives back only handles the SDK has not got
back yet, and every handle it was given it has given back, or still has: as a
pending stop, in the worker's hands, or replaced by a later stop. -/
theorem stoppers_given_back_once {room : Nat} {hosted : List Bool}
    {s : Served State Request} (reached : Reachable room hosted s) :
    (∀ stopper rest, s.memory.place = .acking (stopper :: rest) →
        stopper.handle ∈ s.memory.live) ∧
      s.memory.live.Nodup ∧
      s.memory.issued.Perm (s.memory.acked ++ s.memory.live) ∧
      s.memory.live.Perm (s.memory.ctls.flatMap ConsumerCtl.pending ++
        heldHandles s.memory.place ++
        s.memory.ctls.flatMap ConsumerCtl.replaced) := by
  have accounted := accounted_reachable reached
  exact ⟨fun stopper rest place => (accounted_ack accounted place).1,
    accounted.distinct, issued_perm accounted, live_perm accounted⟩

def ackRun : List (Act Request Nat Outcome) :=
  sleepRun ++ [.store (.stop 0 7), .set (.stop 0 7)] ++
    List.replicate 10 (.worker .done)

def acking : Served State Request where
  memory :=
    { sleeping.memory with
      ctls := [{ hosted := true }]
      issued := [7]
      live := [7]
      place := .acking [⟨7, 0, 0⟩] }
  bell := {}

theorem reachable_acking : Reachable 4 [true] acking :=
  ⟨ackRun, rfl⟩

theorem stoppers_given_back_once_acking :
    (∀ stopper rest, acking.memory.place = .acking (stopper :: rest) →
        stopper.handle ∈ acking.memory.live) ∧
      acking.memory.live.Nodup ∧
      acking.memory.issued.Perm (acking.memory.acked ++ acking.memory.live) ∧
      acking.memory.live.Perm
        (acking.memory.ctls.flatMap ConsumerCtl.pending ++
          heldHandles acking.memory.place ++
          acking.memory.ctls.flatMap ConsumerCtl.replaced) :=
  stoppers_given_back_once reachable_acking

/-- When the worker sleeps and no callback is under way, every stop has been
acknowledged exactly once, but those a later stop of their source replaced
before the worker came to them. -/
theorem stops_answered {room : Nat} {hosted : List Bool}
    {s : Served State Request} (reached : Reachable room hosted s)
    (asleep : s.memory.place = .waiting false)
    (clear : s.bell.signaled = false) (settled : s.bell.setting = []) :
    s.memory.issued.Perm (s.memory.acked ++
      s.memory.ctls.flatMap ConsumerCtl.replaced) := by
  have footing : footing s.memory = .wait false := by
    rw [RingHost.footing, asleep]
  have idle := idle_asleep reached footing clear settled
  have accounted := accounted_reachable reached
  have none : s.memory.ctls.flatMap ConsumerCtl.pending = [] := by
    rw [List.flatMap_eq_nil_iff]
    intro ctl member
    have away : s.memory.place ≠ .setupWait := by simp [asleep]
    exact if_pos (idle.sources away ctl member).2
  have live := live_perm accounted
  rw [none, asleep] at live
  exact (issued_perm accounted).trans (live.append_left s.memory.acked)

def answered : Served State Request where
  memory :=
    { sleeping.memory with
      issued := [7]
      acked := [7] }

theorem reachable_answered : Reachable 4 [true] answered :=
  ⟨ackRun ++ List.replicate 6 (.worker .done), rfl⟩

theorem stops_answered_answered :
    answered.memory.issued.Perm (answered.memory.acked ++
      answered.memory.ctls.flatMap ConsumerCtl.replaced) :=
  stops_answered reachable_answered rfl rfl rfl

end Sismo.Kdebug.RingHost
