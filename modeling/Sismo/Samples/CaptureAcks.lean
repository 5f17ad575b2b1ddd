import Sismo.Samples.CaptureRequests

namespace Sismo.Samples.CaptureLoop

/-! What holds when the capture acknowledges a flush or a stop, and when its
worker has exited. -/

variable {config : CaptureConfig} {s next : State}

/-! ### Leaving -/

def Turn.leaving : Turn → Nat
  | .poll => 0
  | .round last => if last then 1 else 0
  | .flush _ last => if last then 3 else 0
  | .stop _ last => if last then 4 else 0

/-- How far the worker is on its way out: in the loop, consuming the ring a
last time, before the last flush, before the last stop, past it. -/
def Place.leaving : Place → Nat
  | .checking => 0
  | .polling => 0
  | .consuming turn => turn.leaving
  | .opened turn _ => turn.leaving
  | .flushSwap last => if last then 2 else 0
  | .flushing _ last => if last then 3 else 0
  | .flushed _ last => if last then 3 else 0
  | .stopSwap last => if last then 3 else 0
  | .stopping _ last => if last then 4 else 0
  | .deactivating _ last => if last then 4 else 0
  | .stopped _ last => if last then 4 else 0
  | .exited => 4

structure Leaving (s : State) : Prop where
  exit : s.exitRequested = true → Readable s.slots s.exitReadable
  last : 0 < s.place.leaving → s.exitRequested = true
  drained : 1 < s.place.leaving → s.exitReadable ≤ s.consumed
  flush : 2 < s.place.leaving → ∀ ack, s.flushReq = some ack →
    ack.early = false
  stop : 3 < s.place.leaving → ∀ ack, s.stopReq = some ack →
    ack.early = false

theorem afterAcks_leaving (last : Bool) :
    (afterAcks last).leaving = if last then 4 else 0 := by
  cases last <;> rfl

/-- One stage at a time, each with what lets the worker into it. -/
theorem Moves.leaving {place target : Place} (moves : Moves s place target) :
    target.leaving ≤ place.leaving ∨
      (target.leaving = 1 ∧ s.exitRequested = true) ∨
      (place.leaving = 1 ∧ target.leaving = 2 ∧
        ∀ slot, s.slots[s.consumed]? = some slot → slot.isBusy = true) ∨
      (place.leaving = 2 ∧ target.leaving = 3 ∧ s.flushReq = none) ∨
      (place.leaving = 3 ∧ target.leaving = 4 ∧ s.stopReq = none) := by
  cases moves with
  | leave exit => exact .inr (.inl ⟨rfl, exit⟩)
  | stay => exact .inl (Nat.le_refl _)
  | woken => exact .inl (Nat.le_refl _)
  | timeout => exact .inl (Nat.le_refl _)
  | stuck turn stuck =>
      cases turn with
      | poll => exact .inl (Nat.le_refl _)
      | round last =>
          cases last with
          | false => exact .inl (Nat.le_refl _)
          | true => exact .inr (.inr (.inl ⟨rfl, rfl, stuck⟩))
      | flush ack last => exact .inl (Nat.le_refl _)
      | stop ack last => exact .inl (Nat.le_refl _)
  | noFlush last none =>
      cases last with
      | false => exact .inl (Nat.le_refl _)
      | true => exact .inr (.inr (.inr (.inl ⟨rfl, rfl, none⟩)))
  | noStop last none =>
      cases last with
      | false => exact .inl (Nat.le_refl _)
      | true => exact .inr (.inr (.inr (.inr ⟨rfl, rfl, none⟩)))

namespace Leaving

theorem moved (leaving : Leaving s) {target : Place}
    (moves : Moves s s.place target) : Leaving (s.go target) where
  exit := leaving.exit
  last := fun out => by
    rcases moves.leaving with le | ⟨-, exit⟩ | ⟨one, -⟩ | ⟨two, -⟩ | ⟨three, -⟩
    · exact leaving.last (Nat.lt_of_lt_of_le out le)
    · exact exit
    · exact leaving.last (by omega)
    · exact leaving.last (by omega)
    · exact leaving.last (by omega)
  drained := fun out => by
    change 1 < target.leaving at out
    rcases moves.leaving with le | ⟨one, -⟩ | ⟨one, -, stuck⟩ | ⟨two, -⟩ |
      ⟨three, -⟩
    · exact leaving.drained (Nat.lt_of_lt_of_le out le)
    · omega
    · exact (leaving.exit (leaving.last (by omega))).le stuck
    · exact leaving.drained (by omega)
    · exact leaving.drained (by omega)
  flush := fun out ack pending => by
    change 2 < target.leaving at out
    change s.flushReq = some ack at pending
    rcases moves.leaving with le | ⟨one, -⟩ | ⟨-, two, -⟩ | ⟨-, -, none⟩ |
      ⟨three, -⟩
    · exact leaving.flush (Nat.lt_of_lt_of_le out le) ack pending
    · omega
    · omega
    · cases none.symm.trans pending
    · exact leaving.flush (by omega) ack pending
  stop := fun out ack pending => by
    change 3 < target.leaving at out
    change s.stopReq = some ack at pending
    rcases moves.leaving with le | ⟨one, -⟩ | ⟨-, two, -⟩ | ⟨-, three, -⟩ |
      ⟨-, -, none⟩
    · exact leaving.stop (Nat.lt_of_lt_of_le out le) ack pending
    · omega
    · omega
    · omega
    · cases none.symm.trans pending

/-- A step of the worker that takes it no further out. -/
theorem stay (leaving : Leaving s) (slots : next.slots = s.slots)
    (exitRequested : next.exitRequested = s.exitRequested)
    (exitReadable : next.exitReadable = s.exitReadable)
    (consumed : s.consumed ≤ next.consumed)
    (flushReq : next.flushReq = s.flushReq)
    (stopReq : next.stopReq = s.stopReq)
    (place : next.place.leaving = s.place.leaving) : Leaving next where
  exit := by
    rw [slots, exitRequested, exitReadable]
    exact leaving.exit
  last := by
    rw [place, exitRequested]
    exact leaving.last
  drained := by
    rw [place, exitReadable]
    exact fun out => Nat.le_trans (leaving.drained out) consumed
  flush := by
    rw [place, flushReq]
    exact leaving.flush
  stop := by
    rw [place, stopReq]
    exact leaving.stop

theorem worked (leaving : Leaving s) (worked : Worked config s next) :
    Leaving next := by
  have still : ∀ {place target : Place}, s.place = place →
      target.leaving = place.leaving → target.leaving = s.place.leaving :=
    fun same stays => stays.trans (congrArg Place.leaving same).symm
  cases worked with
  | moved moves => exact leaving.moved moves
  | @flush ack last place request =>
      cases last with
      | false =>
          exact { leaving with
            last := fun out => absurd out (Nat.lt_irrefl 0)
            drained := fun out => by cases out
            flush := fun out => by cases out
            stop := fun out => by cases out }
      | true =>
          have two : s.place.leaving = 2 := by rw [place]; rfl
          exact {
            exit := leaving.exit
            last := fun _ => leaving.last (by omega)
            drained := fun _ => leaving.drained (by omega)
            flush := fun _ _ none => by cases none
            stop := fun out => absurd out (Nat.lt_irrefl 3) }
  | @stop ack last place request =>
      cases last with
      | false =>
          exact { leaving with
            last := fun out => absurd out (Nat.lt_irrefl 0)
            drained := fun out => by cases out
            flush := fun out => by cases out
            stop := fun out => by cases out }
      | true =>
          have three : s.place.leaving = 3 := by rw [place]; rfl
          exact {
            exit := leaving.exit
            last := fun _ => leaving.last (by omega)
            drained := fun _ => leaving.drained (by omega)
            flush := fun _ => leaving.flush (by omega)
            stop := fun _ _ none => by cases none }
  | commitFlush place =>
      exact leaving.stay rfl rfl rfl (Nat.le_refl _) rfl rfl (still place rfl)
  | commitStop place =>
      exact leaving.stay rfl rfl rfl (Nat.le_refl _) rfl rfl (still place rfl)
  | flushed place | deactivated place =>
      exact leaving.stay rfl rfl rfl (Nat.le_refl _) rfl rfl (still place rfl)
  | stopped place =>
      exact leaving.stay rfl rfl rfl (Nat.le_refl _) rfl rfl
        (still place (afterAcks_leaving _))
  | opened place found active =>
      exact leaving.stay rfl rfl rfl (Nat.le_refl _) rfl rfl (still place rfl)
  | ignored place found =>
      exact leaving.stay rfl rfl rfl (Nat.le_succ _) rfl rfl (still place rfl)
  | learnt place found definition handled =>
      exact leaving.stay rfl rfl rfl (Nat.le_succ _) rfl rfl (still place rfl)
  | dropped place found sample inactive =>
      exact leaving.stay rfl rfl rfl (Nat.le_succ _) rfl rfl (still place rfl)
  | finished place handled =>
      exact leaving.stay rfl rfl rfl (Nat.le_succ _) rfl rfl (still place rfl)

/-- The tracing thread or the kernel; what comes once `shutdown` has is not
early. -/
theorem called (leaving : Leaving s)
    (more : ∀ n, Readable s.slots n → Readable next.slots n)
    (exitRequested : next.exitRequested = s.exitRequested)
    (exitReadable : next.exitReadable = s.exitReadable)
    (consumed : next.consumed = s.consumed)
    (flushReq : ∀ ack, next.flushReq = some ack →
      s.flushReq = some ack ∨ ack.early = !s.exitRequested)
    (stopReq : ∀ ack, next.stopReq = some ack →
      s.stopReq = some ack ∨ ack.early = !s.exitRequested)
    (place : next.place = s.place) : Leaving next where
  exit := by
    rw [exitRequested, exitReadable]
    exact fun exit => more _ (leaving.exit exit)
  last := by
    rw [place, exitRequested]
    exact leaving.last
  drained := by
    rw [place, exitReadable, consumed]
    exact leaving.drained
  flush := by
    rw [place]
    intro out ack pending
    rcases flushReq ack pending with before | fresh
    · exact leaving.flush out ack before
    · rw [fresh, leaving.last (by omega)]
      rfl
  stop := by
    rw [place]
    intro out ack pending
    rcases stopReq ack pending with before | fresh
    · exact leaving.stop out ack before
    · rw [fresh, leaving.last (by omega)]
      rfl

theorem shutdown (leaving : Leaving s) : Leaving (shutdown s) where
  exit := by
    intro _
    change Readable s.slots
      (if s.exitRequested then s.exitReadable else s.readable)
    split
    · next exit => exact leaving.exit exit
    · exact readable_findIdx s.slots
  last := fun _ => rfl
  drained := by
    intro out
    change 1 < s.place.leaving at out
    change (if s.exitRequested then s.exitReadable else s.readable) ≤ s.consumed
    rw [if_pos (leaving.last (by omega))]
    exact leaving.drained out
  flush := leaving.flush
  stop := leaving.stop

theorem step (leaving : Leaving s) {action : Action}
    (stepped : step config s action = some next) : Leaving next := by
  have flags : ∀ {next : State}, next.slots = s.slots →
      next.exitRequested = s.exitRequested →
      next.exitReadable = s.exitReadable → next.consumed = s.consumed →
      next.flushReq = s.flushReq → next.stopReq = s.stopReq →
      next.place = s.place → Leaving next :=
    fun slots exitRequested exitReadable consumed flushReq stopReq place =>
      leaving.called (fun n ok => slots ▸ ok) exitRequested exitReadable
        consumed (fun ack pending => .inl (flushReq ▸ pending))
        (fun ack pending => .inl (stopReq ▸ pending)) place
  have now : ∀ {handle ack}, some (s.request handle) = some ack →
      ack.early = !s.exitRequested := by
    intro handle ack same
    cases same
    rfl
  cases action with
  | reserve =>
      cases stepped
      exact leaving.called (fun n ok => ok.reserve) rfl rfl rfl
        (fun ack => .inl) (fun ack => .inl) rfl
  | submit index record =>
      simp only [CaptureLoop.step] at stepped
      split at stepped
      · next busy =>
          cases stepped
          exact leaving.called (fun n ok => ok.submit busy record) rfl rfl rfl
            (fun ack => .inl) (fun ack => .inl) rfl
      · cases stepped
  | start =>
      cases stepped
      unfold onStart
      split
      · exact flags rfl rfl rfl rfl rfl rfl rfl
      · exact flags rfl rfl rfl rfl rfl rfl rfl
      · exact flags rfl rfl rfl rfl rfl rfl rfl
  | stop stopper =>
      obtain ⟨-, same⟩ := Option.ite_none_right_eq_some.mp stepped
      cases same
      unfold onStop
      split
      · exact flags rfl rfl rfl rfl rfl rfl rfl
      · exact leaving.called (fun n ok => ok) rfl rfl rfl (fun ack => .inl)
          (fun ack pending => .inr (now pending)) rfl
  | flush flusher =>
      obtain ⟨-, same⟩ := Option.ite_none_right_eq_some.mp stepped
      cases same
      unfold onFlush
      split
      · exact flags rfl rfl rfl rfl rfl rfl rfl
      · exact leaving.called (fun n ok => ok) rfl rfl rfl
          (fun ack pending => .inr (now pending)) (fun ack => .inl) rfl
  | exit =>
      cases stepped
      exact leaving.shutdown
  | worker woken host dataRegionLabel =>
      exact leaving.worked (CaptureLoop.worked stepped)

theorem reachable (reached : Reachable config s) : Leaving s :=
  Machine.Reachable.invariant (fun _ _ _ leaving stepped =>
    leaving.step stepped) reached
    { exit := fun exit => by cases exit
      last := fun out => absurd out (Nat.lt_irrefl 0)
      drained := fun out => by cases out
      flush := fun out => by cases out
      stop := fun out => by cases out }

end Leaving

/-! ### The packets -/

theorem follows_marked {c : Capture} {captured : Captured}
    (follows : Follows config c captured) (active : c.active = true) :
    Follows config { c with active := true }
      { captured with active := true } :=
  { follows with
    active := rfl
    oncpuStep := fun _ => follows.oncpuStep active
    offcpuStep := fun _ => follows.offcpuStep active }

def note (shown : Captured) : Option Entry → Captured
  | none => shown
  | some entry =>
      Captured.act { shown with active := entry.active }
        (.record entry.record entry.host entry.dataRegionLabel)

def shown (log : List (Option Entry)) : Captured :=
  log.foldl note {}

theorem shown_concat (log : List (Option Entry)) (entry : Option Entry) :
    shown (log ++ [entry]) = note (shown log) entry := by
  rw [shown, shown, List.foldl_concat]

theorem handle_definition {record : Record} (definition : Definition record)
    {host : HostView} {dataRegionLabel : Nat → Bytes} {c next : Capture}
    (handled : handle config host dataRegionLabel c record = some next)
    (active : Bool) :
    handle config host dataRegionLabel { c with active := active } record =
      some { next with active := active } := by
  cases record with
  | file id name =>
      cases handled
      rfl
  | pyframe id name =>
      cases handled
      rfl
  | offcpu rec => exact definition.elim
  | sample rec => exact definition.elim
  | sampleUnwind urec => exact definition.elim

theorem definition_flags {record : Record} (definition : Definition record)
    {host : HostView} {dataRegionLabel : Nat → Bytes} {c next : Capture}
    (handled : handle config host dataRegionLabel c record = some next) :
    next.active = c.active ∧ next.needDefaults = c.needDefaults ∧
      next.offcpuNeedDefaults = c.offcpuNeedDefaults := by
  cases record with
  | file id name =>
      cases handled
      exact ⟨rfl, rfl, rfl⟩
  | pyframe id name =>
      cases handled
      exact ⟨rfl, rfl, rfl⟩
  | offcpu rec => exact definition.elim
  | sample rec => exact definition.elim
  | sampleUnwind urec => exact definition.elim

theorem act_definition {record : Record} (definition : Definition record)
    (host : HostView) (dataRegionLabel : Nat → Bytes) (captured : Captured)
    (active other : Bool) :
    Captured.act { captured with active := active }
        (.record record host dataRegionLabel) =
      { Captured.act { captured with active := other }
          (.record record host dataRegionLabel) with active := active } := by
  cases record with
  | file id name => rfl
  | pyframe id name => rfl
  | offcpu rec => exact definition.elim
  | sample rec => exact definition.elim
  | sampleUnwind urec => exact definition.elim

theorem act_inactive {record : Record} (sample : ¬Definition record)
    (host : HostView) (dataRegionLabel : Nat → Bytes) (captured : Captured) :
    Captured.act { captured with active := false }
        (.record record host dataRegionLabel) =
      { captured with active := false } := by
  cases record with
  | file id name => exact absurd trivial sample
  | pyframe id name => exact absurd trivial sample
  | offcpu rec => rfl
  | sample rec => rfl
  | sampleUnwind urec => rfl

theorem act_active (record : Record) (host : HostView)
    (dataRegionLabel : Nat → Bytes) (captured : Captured) :
    (captured.act (.record record host dataRegionLabel)).active =
      captured.active := by
  cases record with
  | file id name => rfl
  | pyframe id name => rfl
  | _ =>
      dsimp only [Captured.act]
      split
      · rfl
      · rfl

/-- Both sequences decode to the stacks of the slots consumed, and are in step
with their tables as soon as a session has begun and sent its defaults. -/
structure Synced (config : CaptureConfig) (s : State) : Prop where
  follows : Follows config { s.capture with active := s.begun }
    { shown s.log with active := s.begun }
  needed : s.begun = false → s.starting ≠ .idle → s.capture.needDefaults = true
  offcpuNeeded : s.begun = false → s.starting = .offcpuNeeded →
    s.capture.offcpuNeedDefaults = true
  active : s.capture.active = true → s.begun = true
  opened : ∀ turn record, s.place = .opened turn record → s.begun = true

namespace Synced

theorem start (synced : Synced config s) : Synced config (onStart s) := by
  have follows := synced.follows
  unfold onStart
  cases starting : s.starting with
  | idle =>
      exact { synced with
        follows := { follows with oncpuStep := fun _ done => nomatch done }
        needed := fun _ _ => rfl
        offcpuNeeded := fun _ later => nomatch later }
  | needed =>
      exact { synced with
        follows := { follows with offcpuStep := fun _ done => nomatch done }
        needed := fun first _ =>
          synced.needed first (by rw [starting]; exact Starting.noConfusion)
        offcpuNeeded := fun _ _ => rfl }
  | offcpuNeeded =>
      refine { synced with
        follows := ?_
        needed := fun first => nomatch first
        offcpuNeeded := fun first => nomatch first
        active := fun _ => rfl
        opened := fun _ _ _ => rfl }
      cases begun : s.begun with
      | true =>
          rw [begun] at follows
          exact follows
      | false =>
          have needed := synced.needed begun
            (by rw [starting]; exact Starting.noConfusion)
          have offcpuNeeded := synced.offcpuNeeded begun starting
          exact { follows with
            active := rfl
            oncpuStep := fun _ done => nomatch needed.symm.trans done
            offcpuStep := fun _ done => nomatch offcpuNeeded.symm.trans done }

theorem deactivate (synced : Synced config s) :
    Synced config (deactivate s) :=
  { synced with active := fun active => nomatch active }

theorem place (synced : Synced config s) (place : Place)
    (opened : ∀ turn record, place = .opened turn record → s.begun = true) :
    Synced config (s.go place) :=
  { synced with opened := opened }

/-- A slot of which nothing is made. -/
theorem skip (synced : Synced config s) {entry : Option Entry}
    (nothing : { note (shown s.log) entry with
        active := s.begun } =
      { shown s.log with active := s.begun }) (turn : Turn) :
    Synced config (s.advance entry turn) :=
  { synced with
    follows := by
      simp only [State.advance, shown_concat, nothing]
      exact synced.follows
    opened := fun _ _ place => nomatch place }

theorem learnt (synced : Synced config s) {record : Record}
    (definition : Definition record) {host : HostView}
    {dataRegionLabel : Nat → Bytes} {capture : Capture}
    (handled : handle config host dataRegionLabel s.capture record =
      some capture) (turn : Turn) :
    Synced config (State.advance { s with capture := capture }
      (some ⟨record, host, dataRegionLabel, s.capture.active⟩) turn) := by
  have follows := @act_follows config _ _ _ synced.follows
    (.record record host dataRegionLabel)
    (handle_definition definition handled s.begun)
  rw [act_definition definition host dataRegionLabel (shown s.log) s.begun
      s.capture.active] at follows
  have flags := definition_flags definition handled
  exact {
    follows := by
      simp only [State.advance, shown_concat]
      exact follows
    needed := fun first later => flags.2.1.trans (synced.needed first later)
    offcpuNeeded := fun first later =>
      flags.2.2.trans (synced.offcpuNeeded first later)
    active := fun active => synced.active (flags.1.symm.trans active)
    opened := fun _ _ place => nomatch place }

/-- The sample is emitted under the flag it was let in with, whatever the flag
is by now. -/
theorem finish (synced : Synced config s) (begun : s.begun = true)
    {host : HostView} {dataRegionLabel : Nat → Bytes} {record : Record}
    {capture : Capture}
    (handled : handle config host dataRegionLabel
      { s.capture with active := true } record = some capture) (turn : Turn) :
    Synced config (State.advance
      { s with capture := { capture with active := s.capture.active } }
      (some ⟨record, host, dataRegionLabel, true⟩) turn) := by
  have running := synced.follows
  rw [begun] at running
  have emitted := @act_follows config _ _ _ running
    (.record record host dataRegionLabel) handled
  have follows := follows_marked emitted
    (emitted.active.symm.trans (act_active record host dataRegionLabel _))
  exact {
    follows := by
      simp only [State.advance, shown_concat, note, begun]
      exact follows
    needed := fun first => nomatch begun.symm.trans first
    offcpuNeeded := fun first => nomatch begun.symm.trans first
    active := synced.active
    opened := fun _ _ place => nomatch place }

theorem worked (synced : Synced config s) (worked : Worked config s next) :
    Synced config next := by
  cases worked with
  | moved moves =>
      exact synced.place _ fun turn record opened =>
        absurd opened (moves.away turn record)
  | opened place found active =>
      exact synced.place _ fun _ _ _ => synced.active active
  | deactivated place =>
      exact synced.deactivate.place _ fun _ _ opened => nomatch opened
  | ignored place found => exact synced.skip rfl _
  | learnt place found definition handled =>
      exact synced.learnt definition handled _
  | dropped place found sample inactive =>
      exact synced.skip (by rw [note, act_inactive sample]) _
  | finished place handled =>
      exact synced.finish (synced.opened _ _ place) handled _
  | stopped place =>
      exact { synced with
        opened := fun turn record opened =>
          absurd opened (afterAcks_away _ turn record) }
  | _ => exact { synced with opened := fun _ _ place => nomatch place }

theorem step (synced : Synced config s) {action : Action}
    (stepped : step config s action = some next) : Synced config next := by
  cases action with
  | reserve =>
      cases stepped
      exact { synced with }
  | submit index record =>
      simp only [CaptureLoop.step] at stepped
      split at stepped
      · cases stepped
        exact { synced with }
      · cases stepped
  | start =>
      cases stepped
      exact synced.start
  | stop stopper =>
      obtain ⟨-, same⟩ := Option.ite_none_right_eq_some.mp stepped
      cases same
      unfold onStop
      split
      · exact synced.deactivate
      · exact { synced with }
  | flush flusher =>
      obtain ⟨-, same⟩ := Option.ite_none_right_eq_some.mp stepped
      cases same
      unfold onFlush
      split
      · exact synced
      · exact { synced with }
  | exit =>
      cases stepped
      exact { synced with }
  | worker woken host dataRegionLabel =>
      exact synced.worked (CaptureLoop.worked stepped)

theorem reachable (reached : Reachable config s) : Synced config s :=
  Machine.Reachable.invariant (fun _ _ _ synced stepped =>
    synced.step stepped) reached
    { follows := .empty config
      needed := fun _ started => absurd rfl started
      offcpuNeeded := fun _ later => nomatch later
      active := fun active => nomatch active
      opened := fun _ _ place => nomatch place }

end Synced

/-! ### The running session and the off-CPU writer -/

def Place.acking : Place → Option Ack
  | .flushed ack _ => some ack
  | .deactivating ack _ => some ack
  | .stopped ack _ => some ack
  | _ => none

theorem afterAcks_acking (last : Bool) : (afterAcks last).acking = none := by
  cases last <;> rfl

theorem Moves.acking {place target : Place} (moves : Moves s place target)
    {ack : Ack} (due : target.acking = some ack) : False := by
  cases moves with
  | stuck turn => cases turn <;> cases due
  | noStop last => cases (afterAcks_acking last).symm.trans due
  | _ => cases due

/-- Everything consumed since the running session started was handled as its
own, and what a flush or a stop has had committed is all there is. -/
structure Kept (s : State) : Prop where
  running : s.capture.active = true → ∃ since, s.activeSince = some since
  own : ∀ since, s.activeSince = some since →
    s.capture.active = true ∧ since ≤ s.log.length ∧
      ∀ entry, some entry ∈ s.log.drop since → entry.active = true
  committed : ∀ ack, s.place.acking = some ack →
    s.offcpuCommitted = s.capture.offcpu.length

namespace Kept

theorem advance (kept : Kept s) {next : State} {entry : Option Entry}
    (active : next.capture.active = s.capture.active)
    (activeSince : next.activeSince = s.activeSince) (log : next.log = s.log)
    (flag : ∀ noted, entry = some noted → s.capture.active = true →
      noted.active = true) (turn : Turn) : Kept (next.advance entry turn) where
  running := by
    intro on
    simp only [State.advance, active, activeSince] at on ⊢
    exact kept.running on
  own := by
    intro since running
    simp only [State.advance, active, activeSince, log] at running ⊢
    obtain ⟨on, below, own⟩ := kept.own since running
    refine ⟨on, ?_, ?_⟩
    · rw [List.length_append]
      exact Nat.le_add_right_of_le below
    · intro noted member
      rw [List.drop_append_of_le_length below, List.mem_append] at member
      rcases member with earlier | last
      · exact own noted earlier
      · exact flag noted (List.mem_singleton.mp last).symm on
  committed := fun _ due => nomatch due

/-- A step that neither consumes nor emits. -/
theorem frame (kept : Kept s) (active : next.capture.active = s.capture.active)
    (activeSince : next.activeSince = s.activeSince) (log : next.log = s.log)
    (committed : ∀ ack, next.place.acking = some ack →
      next.offcpuCommitted = next.capture.offcpu.length) : Kept next where
  running := by
    rw [active, activeSince]
    exact kept.running
  own := by
    rw [active, activeSince, log]
    exact kept.own
  committed := committed

theorem deactivate (kept : Kept s) : Kept (deactivate s) where
  running := fun on => nomatch on
  own := fun _ none => nomatch none
  committed := kept.committed

theorem start (kept : Kept s) (consumes : Consumes s) : Kept (onStart s) := by
  unfold onStart
  split
  · exact kept.frame rfl rfl rfl kept.committed
  · exact kept.frame rfl rfl rfl kept.committed
  · refine { running := fun _ => ?_, own := ?_, committed := kept.committed }
    · dsimp only
      split
      · next on => exact kept.running on
      · exact ⟨s.consumed, rfl⟩
    · intro since
      dsimp only
      split
      · next on =>
          intro running
          obtain ⟨-, below, own⟩ := kept.own since running
          exact ⟨rfl, below, own⟩
      · intro here
        cases here
        refine ⟨rfl, consumes.length.ge, fun entry member => ?_⟩
        rw [← consumes.length, List.drop_length] at member
        cases member

theorem worked (kept : Kept s) (worked : Worked config s next) : Kept next := by
  cases worked with
  | moved moves =>
      refine kept.frame rfl rfl rfl fun ack due => ?_
      exact (moves.acking due).elim
  | flush place request =>
      exact kept.frame rfl rfl rfl fun _ due => nomatch due
  | stop place request =>
      exact kept.frame rfl rfl rfl fun _ due => nomatch due
  | commitFlush place => exact kept.frame rfl rfl rfl fun _ _ => rfl
  | commitStop place => exact kept.frame rfl rfl rfl fun _ _ => rfl
  | flushed place =>
      exact kept.frame rfl rfl rfl fun _ due => nomatch due
  | stopped place =>
      refine kept.frame rfl rfl rfl fun ack due => ?_
      cases (afterAcks_acking _).symm.trans due
  | deactivated place =>
      exact kept.deactivate.frame rfl rfl rfl fun _ _ =>
        kept.committed _ (by rw [place]; rfl)
  | opened place found active =>
      exact kept.frame rfl rfl rfl fun _ due => nomatch due
  | ignored place found =>
      exact kept.advance rfl rfl rfl (fun _ none => by cases none) _
  | learnt place found definition handled =>
      apply kept.advance
      · exact (definition_flags definition handled).1
      · rfl
      · rfl
      · intro noted same on
        cases same
        exact on
  | dropped place found sample inactive =>
      refine kept.advance rfl rfl rfl (fun noted same on => ?_) _
      cases inactive.symm.trans on
  | finished place handled =>
      apply kept.advance
      · rfl
      · rfl
      · rfl
      · intro noted same on
        cases same
        rfl

theorem step (kept : Kept s) (consumes : Consumes s) {action : Action}
    (stepped : step config s action = some next) : Kept next := by
  cases action with
  | reserve =>
      cases stepped
      exact { kept with }
  | submit index record =>
      simp only [CaptureLoop.step] at stepped
      split at stepped
      · cases stepped
        exact { kept with }
      · cases stepped
  | start =>
      cases stepped
      exact kept.start consumes
  | stop stopper =>
      obtain ⟨-, same⟩ := Option.ite_none_right_eq_some.mp stepped
      cases same
      unfold onStop
      split
      · exact kept.deactivate
      · exact { kept with }
  | flush flusher =>
      obtain ⟨-, same⟩ := Option.ite_none_right_eq_some.mp stepped
      cases same
      unfold onFlush
      split
      · exact kept
      · exact { kept with }
  | exit =>
      cases stepped
      exact { kept with }
  | worker woken host dataRegionLabel =>
      exact kept.worked (CaptureLoop.worked stepped)

theorem reachable (reached : Reachable config s) : Kept s := by
  have preserved : ∀ state action next, Consumes state ∧ Kept state →
      CaptureLoop.step config state action = some next →
      Consumes next ∧ Kept next := fun _ _ _ both stepped =>
    ⟨both.1.step stepped, both.2.step both.1 stepped⟩
  have first : Kept {} :=
    { running := fun on => nomatch on
      own := fun _ none => nomatch none
      committed := fun _ due => nomatch due }
  exact (Machine.Reachable.invariant preserved reached ⟨.empty, first⟩).2

end Kept

/-! ### The results -/

/-- When the capture gives back a flush or a stop, all that could be read of
the ring when it came has been consumed, once and in order; what the running
session has consumed was handled as its own; the off-CPU writer is committed;
and both sequences decode to the stacks of what was consumed. -/
theorem acks_cover_ring (reached : Reachable config s) {ack : Ack}
    (acking : s.place.acking = some ack) :
    ack.readable ≤ s.consumed ∧
      (s.slots.take s.consumed).map Slot.submitted =
        s.log.map (fun entry => some (entry.map Entry.record)) ∧
      (s.capture.active = true → ∃ since, s.activeSince = some since ∧
        ∀ entry, some entry ∈ s.log.drop since → entry.active = true) ∧
      s.offcpuCommitted = s.capture.offcpu.length ∧
      Decodes config.kernel s.capture.oncpu (shown s.log).oncpu ∧
      Decodes config.kernel s.capture.offcpu (shown s.log).offcpu := by
  have kept := Kept.reachable reached
  have given : s.place.given = some ack := by
    cases place : s.place <;> rw [place] at acking <;>
      first | exact acking | cases acking
  refine ⟨(Covers.reachable reached).given ack given,
    (Consumes.reachable reached).handled, fun on => ?_,
    kept.committed ack acking, (Synced.reachable reached).follows.oncpu,
    (Synced.reachable reached).follows.offcpu⟩
  obtain ⟨since, running⟩ := kept.running on
  exact ⟨since, running, (kept.own since running).2.2⟩

def quietMaps : HostMaps := ⟨[], fun _ => none⟩

def quietHost : HostView where
  maps := quietMaps
  reparsedMaps := quietMaps
  runtimeIsPython := false
  pythonBpf := false
  pythonFrames := []
  pathForBuildId _ _ := []
  observeMapping _ _ := []
  idFor _ _ _ := []
  jitName _ _ := none

def quietConfig : CaptureConfig where
  kernel := ⟨0, []⟩
  activeSlots := []
  counterNames _ := []
  cacheMissFocus := false

/-- A round of the worker: the poll times out. -/
def turns (count : Nat) : List Action :=
  List.replicate count (.worker false quietHost fun _ => [])

def blockedRecord : SampleRec where
  ts := 5
  tid := 9
  nrKernelFrames := 1
  kernelIds := [2 ^ 63]

/-- A session starts, a file name and an off-CPU sample come in, and the session
stops. -/
def stopRun : List Action :=
  [.start, .start, .start, .reserve, .submit 0 (some (.file 1 [65])),
    .reserve, .submit 1 (some (.offcpu blockedRecord)), .stop 7] ++ turns 10

theorem stopRun_stops : ∃ stopped,
    Machine.run (step quietConfig) {} stopRun = some stopped ∧
      stopped.place = .deactivating ⟨7, 2, true⟩ false ∧
      stopped.log.length = 2 ∧ stopped.capture.offcpu.length = 2 :=
  ⟨_, rfl, rfl, rfl, rfl⟩

theorem acks_cover_ring_stopping : ∃ stopped,
    Machine.run (step quietConfig) {} stopRun = some stopped ∧
      stopped.capture.offcpu.length = 2 ∧
      2 ≤ stopped.consumed ∧
      (stopped.slots.take stopped.consumed).map Slot.submitted =
        stopped.log.map (fun entry => some (entry.map Entry.record)) ∧
      (stopped.capture.active = true → ∃ since,
        stopped.activeSince = some since ∧
        ∀ entry, some entry ∈ stopped.log.drop since →
          entry.active = true) ∧
      stopped.offcpuCommitted = stopped.capture.offcpu.length ∧
      Decodes quietConfig.kernel stopped.capture.oncpu
        (shown stopped.log).oncpu ∧
      Decodes quietConfig.kernel stopped.capture.offcpu
        (shown stopped.log).offcpu := by
  obtain ⟨stopped, run, place, -, emitted⟩ := stopRun_stops
  have acking : stopped.place.acking = some ⟨7, 2, true⟩ := by
    rw [place]
    rfl
  exact ⟨stopped, run, emitted, acks_cover_ring ⟨stopRun, run⟩ acking⟩

/-- Every request is acknowledged once, was stored over by a later one before
the worker took it, or is in its slot still, after `shutdown`. -/
structure Requests.Settled (requests : Requests) (pending : Option Ack) :
    Prop where
  fates : requests.asked.Perm
    (requests.answered ++ requests.replaced ++ pending.toList)
  late : ∀ ack, pending = some ack → ack.early = false

theorem Requests.Accounted.settled {requests : Requests} {pending : Option Ack}
    (accounted : requests.Accounted none pending)
    (late : ∀ ack, pending = some ack → ack.early = false) :
    requests.Settled pending := by
  refine ⟨?_, late⟩
  have fates := accounted
  rw [Requests.Accounted, Option.toList_none, List.append_nil] at fates
  exact fates

theorem Requests.Settled.early {requests : Requests} {pending : Option Ack}
    (settled : requests.Settled pending) {ack : Ack}
    (asked : ack ∈ requests.asked) (early : ack.early = true) :
    ack ∈ requests.answered ∨ ack ∈ requests.replaced := by
  have member := settled.fates.mem_iff.mp asked
  rw [List.mem_append, List.mem_append, Option.mem_toList] at member
  rcases member with known | left
  · exact known
  · cases early.symm.trans (settled.late ack left)

/-- Once the worker has exited, all that could be read when `shutdown` came has
been consumed, and each flush and each stop that came before it has been
acknowledged or was stored over by a later one. -/
theorem exit_answers (reached : Reachable config s)
    (exited : s.place = .exited) :
    s.exitReadable ≤ s.consumed ∧
      s.flushes.Settled s.flushReq ∧ s.stops.Settled s.stopReq ∧
      ∀ ack, ack.early = true →
        (ack ∈ s.flushes.asked →
          ack ∈ s.flushes.answered ∨ ack ∈ s.flushes.replaced) ∧
        (ack ∈ s.stops.asked →
          ack ∈ s.stops.answered ∨ ack ∈ s.stops.replaced) := by
  have leaving := Leaving.reachable reached
  have accounts := Accounts.reachable reached
  have out : s.place.leaving = 4 := by
    rw [exited]
    rfl
  have flushes := accounts.flush
  have stops := accounts.stop
  rw [exited] at flushes stops
  have flushed := flushes.settled (leaving.flush (by omega))
  have stopped := stops.settled (leaving.stop (by omega))
  exact ⟨leaving.drained (by omega), flushed, stopped, fun ack early =>
    ⟨fun asked => flushed.early asked early,
      fun asked => stopped.early asked early⟩⟩

/-- Two flushes, the second stored over the first, and a stop come before
`shutdown`, and a stop after it. -/
def exitRun : List Action :=
  [.reserve, .submit 0 none, .flush 3, .flush 4, .stop 5, .exit] ++ turns 12 ++
    [.stop 7]

def exitedState : State where
  slots := [.ignored]
  consumed := 1
  stopReq := some ⟨7, 1, false⟩
  exitRequested := true
  place := .exited
  exitReadable := 1
  log := [none]
  flushes := ⟨[⟨3, 1, true⟩, ⟨4, 1, true⟩], [⟨3, 1, true⟩], [⟨4, 1, true⟩]⟩
  stops := ⟨[⟨5, 1, true⟩, ⟨7, 1, false⟩], [], [⟨5, 1, true⟩]⟩

theorem exitRun_exitedState :
    Machine.run (step quietConfig) {} exitRun = some exitedState := rfl

theorem exit_answers_late :
    exitedState.exitReadable ≤ exitedState.consumed ∧
      exitedState.flushes.Settled exitedState.flushReq ∧
      exitedState.stops.Settled exitedState.stopReq ∧
      ∀ ack, ack.early = true →
        (ack ∈ exitedState.flushes.asked →
          ack ∈ exitedState.flushes.answered ∨
            ack ∈ exitedState.flushes.replaced) ∧
        (ack ∈ exitedState.stops.asked →
          ack ∈ exitedState.stops.answered ∨
            ack ∈ exitedState.stops.replaced) :=
  exit_answers ⟨exitRun, exitRun_exitedState⟩ rfl

end Sismo.Samples.CaptureLoop
