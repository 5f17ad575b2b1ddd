import Sismo.Samples.CaptureLoop

namespace Sismo.Samples.CaptureLoop

/-! What becomes of the flushes and the stops that come to the capture. -/

variable {config : CaptureConfig} {s next : State}

/-- Each request is acknowledged, stored over by a later one, taken by the
worker or still to be taken, and is only one of these. -/
def Requests.Accounted (requests : Requests) (taken pending : Option Ack) :
    Prop :=
  requests.asked.Perm (requests.answered ++ requests.replaced ++
    taken.toList ++ pending.toList)

namespace Requests.Accounted

variable {requests : Requests} {taken pending : Option Ack}

theorem ask (accounted : requests.Accounted taken pending) (ack : Ack) :
    (requests.ask pending ack).Accounted taken (some ack) := by
  refine List.perm_iff_count.mpr fun other => ?_
  have before := accounted.count_eq other
  simp only [Requests.ask, List.count_append, Option.toList_some] at before ⊢
  omega

theorem take {ack : Ack} (accounted : requests.Accounted none (some ack)) :
    requests.Accounted (some ack) none := by
  refine List.perm_iff_count.mpr fun other => ?_
  have before := accounted.count_eq other
  simp only [List.count_append, Option.toList_none, List.count_nil] at before ⊢
  omega

theorem answer {ack : Ack} (accounted : requests.Accounted (some ack) pending) :
    (requests.answer ack).Accounted none pending := by
  refine List.perm_iff_count.mpr fun other => ?_
  have before := accounted.count_eq other
  simp only [Requests.answer, List.count_append, Option.toList_some,
    Option.toList_none, List.count_nil] at before ⊢
  omega

end Requests.Accounted

def Turn.takenFlush : Turn → Option Ack
  | .flush ack _ => some ack
  | _ => none

def Turn.takenStop : Turn → Option Ack
  | .stop ack _ => some ack
  | _ => none

def Place.takenFlush : Place → Option Ack
  | .consuming turn => turn.takenFlush
  | .opened turn _ => turn.takenFlush
  | .flushing ack _ => some ack
  | .flushed ack _ => some ack
  | _ => none

def Place.takenStop : Place → Option Ack
  | .consuming turn => turn.takenStop
  | .opened turn _ => turn.takenStop
  | .stopping ack _ => some ack
  | .deactivating ack _ => some ack
  | .stopped ack _ => some ack
  | _ => none

theorem afterAcks_takenFlush (last : Bool) :
    (afterAcks last).takenFlush = none := by
  cases last <;> rfl

theorem afterAcks_takenStop (last : Bool) :
    (afterAcks last).takenStop = none := by
  cases last <;> rfl

theorem Moves.requests {place target : Place} (moves : Moves s place target) :
    target.takenFlush = place.takenFlush ∧
      target.takenStop = place.takenStop := by
  cases moves with
  | stuck turn => cases turn <;> exact ⟨rfl, rfl⟩
  | noStop last => exact ⟨afterAcks_takenFlush last, afterAcks_takenStop last⟩
  | _ => exact ⟨rfl, rfl⟩

structure Accounts (s : State) : Prop where
  flush : s.flushes.Accounted s.place.takenFlush s.flushReq
  stop : s.stops.Accounted s.place.takenStop s.stopReq

namespace Accounts

theorem place (accounts : Accounts s) {target : Place}
    (flush : target.takenFlush = s.place.takenFlush)
    (stop : target.takenStop = s.place.takenStop)
    (flushes : next.flushes = s.flushes) (stops : next.stops = s.stops)
    (flushReq : next.flushReq = s.flushReq)
    (stopReq : next.stopReq = s.stopReq) :
    Accounts { next with place := target } where
  flush := by
    rw [flush, flushes, flushReq]
    exact accounts.flush
  stop := by
    rw [stop, stops, stopReq]
    exact accounts.stop

theorem worked (accounts : Accounts s) (worked : Worked config s next) :
    Accounts next := by
  have flush := accounts.flush
  have stop := accounts.stop
  cases worked with
  | moved moves =>
      exact accounts.place moves.requests.1 moves.requests.2 rfl rfl rfl rfl
  | flush place request =>
      rw [place] at flush stop
      rw [request] at flush
      exact ⟨flush.take, stop⟩
  | stop place request =>
      rw [place] at flush stop
      rw [request] at stop
      exact ⟨flush, stop.take⟩
  | flushed place =>
      rw [place] at flush stop
      exact ⟨flush.answer, stop⟩
  | stopped place =>
      rw [place] at flush stop
      refine ⟨?_, ?_⟩
      · change s.flushes.Accounted (afterAcks _).takenFlush s.flushReq
        rw [afterAcks_takenFlush]
        exact flush
      · change (s.stops.answer _).Accounted (afterAcks _).takenStop s.stopReq
        rw [afterAcks_takenStop]
        exact stop.answer
  | commitFlush place | commitStop place | deactivated place =>
      rw [place] at flush stop
      exact ⟨flush, stop⟩
  | opened place found active | ignored place found =>
      rw [place] at flush stop
      exact ⟨flush, stop⟩
  | dropped place found sample inactive =>
      rw [place] at flush stop
      exact ⟨flush, stop⟩
  | learnt place found definition handled =>
      rw [place] at flush stop
      exact ⟨flush, stop⟩
  | finished place handled =>
      rw [place] at flush stop
      exact ⟨flush, stop⟩

theorem step (accounts : Accounts s) {action : Action}
    (stepped : step config s action = some next) : Accounts next := by
  cases action with
  | reserve =>
      cases stepped
      exact { accounts with }
  | submit index record =>
      simp only [CaptureLoop.step] at stepped
      split at stepped
      · cases stepped
        exact { accounts with }
      · cases stepped
  | start =>
      cases stepped
      unfold onStart
      split <;> exact { accounts with }
  | stop stopper =>
      obtain ⟨-, same⟩ := Option.ite_none_right_eq_some.mp stepped
      cases same
      unfold onStop
      split
      · exact { accounts with }
      · exact ⟨accounts.flush, accounts.stop.ask _⟩
  | flush flusher =>
      obtain ⟨-, same⟩ := Option.ite_none_right_eq_some.mp stepped
      cases same
      unfold onFlush
      split
      · exact accounts
      · exact ⟨accounts.flush.ask _, accounts.stop⟩
  | exit =>
      cases stepped
      exact { accounts with }
  | worker woken host dataRegionLabel =>
      exact accounts.worked (CaptureLoop.worked stepped)

theorem reachable (reached : Reachable config s) : Accounts s :=
  Machine.Reachable.invariant (fun _ _ _ accounts stepped =>
    accounts.step stepped) reached ⟨.refl [], .refl []⟩

end Accounts

end Sismo.Samples.CaptureLoop
